import Corus.Proc.Smaps

/-!
# What a reader delivers

The parsers of `/proc` files see the file only as the characters that `get_char` hands
out until it reports the end, by the end of the file or by an error of `read(2)`. This
module replaces the reader by that sequence: however the text is cut into blocks, each
loop over the reader is a function of the characters it delivers.
-/

namespace Corus.Proc

open Corus.Logical Corus.Platform

/-- No read fails, however often it is interrupted and however much it delivers. -/
def ProcFile.Reliable (file : ProcFile) : Prop := ∀ call, ∃ count, (file.read call).result = .ok count

namespace Io

/-- The characters handed out before the first report of the end. -/
def delivered (io : Io) : Bytes :=
  match _got : io.getChar with
  | (none, _) => []
  | (some byte, after) => byte :: after.delivered
termination_by io.unread.length
decreasing_by simp [getChar_some _got]

/-- The error of `read(2)` that ends the delivery, if it is not the end of the file. -/
def failure (io : Io) : Option Errno :=
  match _got : io.getChar with
  | (none, _) =>
      match (io.file.read io.clock).retry with
      | .error errno => some errno
      | .ok _ => none
  | (some _, after) => after.failure
termination_by io.unread.length
decreasing_by simp [getChar_some _got]

theorem delivered_of_none {io after : Io} (got : io.getChar = (none, after)) : io.delivered = [] := by
  rw [delivered]
  split
  · rfl
  · rename_i byte later found
    cases got.symm.trans found

theorem delivered_of_some {io after : Io} {byte : Byte} (got : io.getChar = (some byte, after)) :
    io.delivered = byte :: after.delivered := by
  rw [delivered]
  split
  · rename_i later found
    cases got.symm.trans found
  · rename_i other later found
    cases got.symm.trans found
    rfl

theorem failure_of_some {io after : Io} {byte : Byte} (got : io.getChar = (some byte, after)) :
    io.failure = after.failure := by
  rw [failure]
  split
  · rename_i later found
    cases got.symm.trans found
  · rename_i other later found
    cases got.symm.trans found
    rfl

/-- The characters from the one in hand on. Without one there is nothing more to come. -/
def pending : Option Byte → Io → Bytes
  | none, _ => []
  | some byte, io => byte :: io.delivered

@[simp] theorem pending_none (io : Io) : pending none io = [] := rfl

@[simp] theorem pending_some (byte : Byte) (io : Io) : pending (some byte) io = byte :: io.delivered := rfl

/-- Reading the next character takes it in hand. -/
@[simp] theorem pending_getChar (io : Io) : pending io.getChar.1 io.getChar.2 = io.delivered := by
  cases got : io.getChar with
  | mk cur after =>
    cases cur with
    | none => rw [delivered_of_none got, pending_none]
    | some byte => rw [delivered_of_some got, pending_some]

/-- What is delivered are the first of the unread characters. -/
theorem delivered_isPrefix (io : Io) : io.delivered <+: io.unread := by
  fun_induction delivered io with
  | case1 => exact List.nil_prefix
  | case2 io byte after got ih =>
      rw [getChar_some got]
      exact (List.prefix_cons_inj byte).mpr ih

/-- Without an error everything is delivered. -/
theorem delivered_of_failure_none {io : Io} (fine : io.failure = none) : io.delivered = io.unread := by
  fun_induction delivered io with
  | case1 io after got =>
      rw [failure] at fine
      split at fine
      · -- The read that ended the delivery found the file at its end.
        rename_i ended
        unfold getChar at got
        split at got
        · cases got
        · rename_i buffer
          simp only [unread, buffer, List.nil_append]
          split at got
          · rename_i errno answer
            rw [answer] at fine
            cases fine
          · rename_i count answer
            simp only at got
            split at got
            · rename_i block
              rcases List.take_eq_nil_iff.mp block with none | empty
              · omega
              · exact empty.symm
            · cases got
      · rename_i byte later found
        cases got.symm.trans found
  | case2 io byte after got ih =>
      rw [failure_of_some got] at fine
      rw [ih fine, getChar_some got]

/-- Reads that do not fail end the delivery only at the end of the file. -/
theorem failure_of_reliable {io : Io} (reliable : io.file.Reliable) :
    io.failure = none := by
  fun_induction failure io with
  | case1 io after got errno answer =>
      obtain ⟨count, fine⟩ := reliable io.clock
      rw [Response.retry_eq, fine] at answer
      cases answer
  | case2 => rfl
  | case3 io byte after got ih =>
      apply ih
      rw [getChar_file got]
      exact reliable

/-- Reads that do not fail hand out the unread characters one by one. -/
theorem getChar_reliable {io : Io} (reliable : io.file.Reliable) :
    io.getChar.1 = io.unread.head? ∧ io.getChar.2.unread = io.unread.tail ∧ io.getChar.2.file = io.file := by
  cases got : io.getChar with
  | mk cur after =>
    cases cur with
    | none =>
        have ended : io.unread = [] := by
          rw [← delivered_of_failure_none (failure_of_reliable reliable)]
          exact delivered_of_none got
        rw [getChar_none got, ended]
        exact ⟨rfl, rfl, getChar_file got⟩
    | some byte =>
        rw [getChar_some got]
        exact ⟨rfl, rfl, getChar_file got⟩

/-- The characters in the buffer come first. -/
theorem delivered_buffered (file : ProcFile) (clock : Nat) (buffered remaining : Bytes) :
    delivered ⟨file, clock, buffered, remaining⟩ = buffered ++ delivered ⟨file, clock, [], remaining⟩ ∧
      failure ⟨file, clock, buffered, remaining⟩ = failure ⟨file, clock, [], remaining⟩ := by
  induction buffered with
  | nil => exact ⟨rfl, rfl⟩
  | cons byte rest ih =>
      have got : getChar ⟨file, clock, byte :: rest, remaining⟩ = (some byte, ⟨file, clock, rest, remaining⟩) := rfl
      rw [delivered_of_some got, ih.1, failure_of_some got, ih.2]
      exact ⟨rfl, rfl⟩

/-- A read with an answer delivers a block of the file. -/
theorem delivered_block {file : ProcFile} {clock count : Nat} (answer : (file.read clock).result = .ok count)
    {remaining : Bytes} (more : remaining ≠ []) :
    delivered ⟨file, clock, [], remaining⟩ = remaining.take (max 1 (min count ioBufSize)) ++
        delivered ⟨file, clock + 1, [], remaining.drop (max 1 (min count ioBufSize))⟩ ∧
      failure ⟨file, clock, [], remaining⟩ =
        failure ⟨file, clock + 1, [], remaining.drop (max 1 (min count ioBufSize))⟩ := by
  cases block : remaining.take (max 1 (min count ioBufSize)) with
  | nil =>
      rcases List.take_eq_nil_iff.mp block with none | empty
      · omega
      · exact absurd empty more
  | cons byte rest =>
      have got : getChar ⟨file, clock, [], remaining⟩ =
          (some byte, ⟨file, clock + 1, rest, remaining.drop (max 1 (min count ioBufSize))⟩) := by
        simp only [getChar, Response.retry_eq, answer, block]
      obtain ⟨bytes, ending⟩ := delivered_buffered file (clock + 1) rest (remaining.drop (max 1 (min count ioBufSize)))
      rw [delivered_of_some got, failure_of_some got, bytes, ending]
      exact ⟨rfl, rfl⟩

/-- A read without one ends the delivery. -/
theorem delivered_error {file : ProcFile} {clock : Nat} {errno : Errno}
    (answer : (file.read clock).result = .error errno) (remaining : Bytes) :
    delivered ⟨file, clock, [], remaining⟩ = [] ∧ failure ⟨file, clock, [], remaining⟩ = some errno := by
  have got : getChar ⟨file, clock, [], remaining⟩ = (none, ⟨file, clock + 1, [], remaining⟩) := by
    simp only [getChar, Response.retry_eq, answer]
  refine ⟨delivered_of_none got, ?_⟩
  rw [failure]
  split
  · simp only [Response.retry_eq, answer]
  · rename_i byte later found
    cases got.symm.trans found

/-! ## The loops over the reader -/

/-- A character of a hexadecimal number. -/
def isHexDigit (ch : Byte) : Bool := (hexNibble ch).isSome

/-- `get_hex_helper` reads the digits in front. -/
theorem getHexLoop_eq (hex : UInt64) (cur : Option Byte) (io : Io) :
    (getHexLoop hex cur io).1 = headerStart hex (pending cur io) ∧
      pending (getHexLoop hex cur io).2.1 (getHexLoop hex cur io).2.2 = (pending cur io).dropWhile isHexDigit := by
  fun_induction getHexLoop hex cur io with
  | case1 => exact ⟨rfl, rfl⟩
  | case2 hex io ch other =>
      simp only [pending_some, headerStart, other, List.dropWhile_cons, isHexDigit]
      exact ⟨trivial, rfl⟩
  | case3 hex io ch nibble digit ih =>
      simp only [pending_some, headerStart, digit, List.dropWhile_cons, isHexDigit, Option.isSome_some, if_true]
      rw [pending_getChar] at ih
      exact ih

theorem skipWhile_eq (test : Byte → Bool) (cur : Option Byte) (io : Io) :
    pending (skipWhile test cur io).1 (skipWhile test cur io).2 = (pending cur io).dropWhile test := by
  fun_induction skipWhile test cur io with
  | case1 => rfl
  | case2 io ch skipped ih =>
      rw [pending_some, List.dropWhile_cons_of_pos skipped, ih, pending_getChar]
  | case3 io ch stops =>
      simp only [pending_some, List.dropWhile_cons_of_neg stops]

end Io

/-- Without an error of `read(2)` the whole file is delivered. -/
theorem delivered_of_reliable {file : ProcFile} (reliable : file.Reliable) :
    (Io.new file).delivered = file.text :=
  Io.delivered_of_failure_none (@Io.failure_of_reliable (Io.new file) reliable)

end Corus.Proc
