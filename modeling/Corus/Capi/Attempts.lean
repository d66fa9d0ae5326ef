import Corus.Capi.EntryPoints

/-!
# One attempt after the other

What the loop of `dump_compressed` does, as a relation between the table and the
attempts that are made for it, and what is certain about a single attempt.
-/

namespace Corus.Capi

open Corus.Logical Corus.Platform Corus.Output Corus.Elf Corus.Dump Corus.Compress

section Loop

variable {arch : Arch} (attempts : Nat → Attempt arch) (opts : DumpOptions arch)

/-- The attempt for an entry, if it has a name and the attempt returns. -/
def attemptFor (index : Nat) (entry : CoredumperCompressor) : Option Call :=
  entry.compressor.bind fun name =>
    if name = [] then (attempts index).writePlain opts
    else (attempts index).writeCoreDumpCompressedToFdWith name (entry.argv name) opts

/-- The entry is for a compressor, and its attempt fails. -/
def FailsOver (index : Nat) (entry : CoredumperCompressor) : Prop :=
  (∃ name, entry.compressor = some name ∧ name ≠ []) ∧
    ∃ call, attemptFor attempts opts index entry = some call ∧ orErrno call.result ≠ 0

/-- The attempts that are made for a table from an index on, in order, with the entry
that is selected and the value that is returned. -/
inductive Tries : Nat → List CoredumperCompressor → List Call → Option Nat → Int → Prop where
  /-- The table is at its end. -/
  | exhausted {index : Nat} {table : List CoredumperCompressor}
      (ends : table.head?.bind CoredumperCompressor.compressor = none) : Tries index table [] none (-1)
  /-- The fallback without compression. -/
  | plain {index : Nat} {entry : CoredumperCompressor} {rest : List CoredumperCompressor} {call : Call}
      (name : entry.compressor = some []) (made : attemptFor attempts opts index entry = some call) :
      Tries index (entry :: rest) [call] (if orMinusOne call.result = 0 then some index else none)
        (orMinusOne call.result)
  /-- A compressor that succeeds. -/
  | success {index : Nat} {entry : CoredumperCompressor} {rest : List CoredumperCompressor} {name : Bytes}
      {call : Call} (named : entry.compressor = some name) (compressor : name ≠ [])
      (made : attemptFor attempts opts index entry = some call) (zero : orErrno call.result = 0) :
      Tries index (entry :: rest) [call] (some index) 0
  /-- A compressor that fails. -/
  | failure {index : Nat} {entry : CoredumperCompressor} {rest : List CoredumperCompressor} {call : Call}
      {calls : List Call} {selected : Option Nat} {rc : Int} (fails : FailsOver attempts opts index entry)
      (made : attemptFor attempts opts index entry = some call) (later : Tries (index + 1) rest calls selected rc) :
      Tries index (entry :: rest) (call :: calls) selected rc

variable {attempts opts}

theorem foldl_add_file (calls : List Call) (effects : Effects) :
    (calls.foldl Effects.add effects).file = effects.file ++ (calls.map Call.output).flatten := by
  induction calls generalizing effects with
  | nil => simp
  | cons call rest ih => simp [ih, Effects.add]

theorem foldl_add_callbacks (calls : List Call) (effects : Effects) :
    (calls.foldl Effects.add effects).callbacks = effects.callbacks ++ (calls.map Call.callbacks).flatten := by
  induction calls generalizing effects with
  | nil => simp
  | cons call rest ih => simp [ih, Effects.add]

theorem foldl_add_streams (calls : List Call) (effects : Effects) :
    (calls.foldl Effects.add effects).streams = effects.streams ++ calls.map Call.stream := by
  induction calls generalizing effects with
  | nil => simp
  | cons call rest ih => simp [ih, Effects.add]

/-- What is stored for the selection of a loop. -/
def Effects.settle (effects : Effects) (wanted : Bool) (selected : Option Nat) : Effects :=
  match selected with
  | none => effects
  | some index => effects.select wanted index

/-- The loop makes the attempts that the relation describes. -/
theorem dumpFrom_tries {wanted : Bool} {index : Nat} {table : List CoredumperCompressor} {effects after : Effects}
    {rc : Int} (ran : dumpFrom attempts opts wanted index table effects = some (rc, after)) :
    ∃ calls selected, Tries attempts opts index table calls selected rc ∧
      after = (calls.foldl Effects.add effects).settle wanted selected := by
  induction table generalizing index effects with
  | nil =>
      cases ran
      exact ⟨[], none, .exhausted rfl, rfl⟩
  | cons entry rest ih =>
      unfold dumpFrom at ran
      split at ran
      · rename_i ends
        cases ran
        exact ⟨[], none, .exhausted (by simpa using ends), rfl⟩
      rename_i name named
      split at ran
      · -- The fallback returns whatever its attempt returns.
        rename_i empty
        subst empty
        unfold dumpPlain at ran
        rw [Option.map_map, Option.map_eq_some_iff] at ran
        obtain ⟨call, made, equal⟩ := ran
        cases equal
        refine ⟨[call], _, .plain named (by simpa [attemptFor, named] using made), ?_⟩
        simp only [List.foldl_cons, List.foldl_nil]
        split
        · rfl
        · rfl
      · rename_i compressor
        split at ran
        · cases ran
        rename_i call compressed
        have made : attemptFor attempts opts index entry = some call := by
          simpa [attemptFor, named, compressor] using compressed
        split at ran
        · rename_i zero
          cases ran
          exact ⟨[call], some index, .success named compressor made zero, rfl⟩
        · rename_i nonzero
          obtain ⟨calls, selected, tries, equal⟩ := ih ran
          exact ⟨call :: calls, selected, .failure ⟨⟨name, named, compressor⟩, call, made, nonzero⟩ made tries, equal⟩

/-! ## A single attempt -/

/-- What an attempt appends if its stream gets to the compressor. -/
def producedFrom (attempts : Nat → Attempt arch) (index : Nat) (entry : CoredumperCompressor) (stream : Bytes) :
    Bytes :=
  match entry.compressor with
  | none => []
  | some name =>
      if name = [] then stream else ((attempts index).child name (entry.argv name) stream).1

/-- The parts of an attempt: `spawn` fails and nothing else happens, or the engine is
called and its stream goes to the file or to the compressor. -/
theorem attemptFor_parts {index : Nat} {entry : CoredumperCompressor} {call : Call}
    (made : attemptFor attempts opts index entry = some call) :
    (∃ errno : Errno, call = ⟨.error (.compressor errno.code), [], [], []⟩) ∨
      ∃ result, (attempts index).writeCoreDumpToFdOptions opts = some result ∧
        call.stream = (attempts index).stream opts ∧ call.callbacks = (attempts index).callbacks opts ∧
        call.output = producedFrom attempts index entry call.stream ∧
        (call.result = result ∨ result = .ok 0 ∧
          ∃ number : Int, number ≠ 0 ∧ call.result = .error (.compressor number)) := by
  obtain ⟨name, named, made⟩ := Option.bind_eq_some_iff.mp made
  split at made
  · rename_i plain
    unfold Attempt.writePlain at made
    split at made
    · cases made
    · rename_i result returned
      cases made
      exact .inr ⟨result, returned, rfl, rfl, by simp [producedFrom, named, plain], .inl rfl⟩
  · rename_i compressor
    unfold Attempt.writeCoreDumpCompressedToFdWith at made
    split at made
    · rename_i number spawned
      cases made
      obtain ⟨errno, rfl⟩ := (attempts index).spawn_error spawned
      exact .inl ⟨errno, rfl⟩
    · split at made
      · cases made
      rename_i result returned
      cases made
      exact .inr ⟨result, returned, rfl, rfl, by simp [producedFrom, named, compressor],
        (attempts index).bothSucceed_cases result⟩

/-- What an attempt returns: success after a complete core went its way, or an error
with a number. -/
theorem attemptFor_result {index : Nat} {entry : CoredumperCompressor} {call : Call}
    (allowed : (attempts index).lawful opts = true)
    (made : attemptFor attempts opts index entry = some call) :
    (call.result = .ok 0 ∧ (attempts index).Complete opts call.stream ∧
        call.output = producedFrom attempts index entry call.stream) ∨
      ∃ error, call.result = .error error ∧ error.errno ≠ 0 := by
  rcases attemptFor_parts made with ⟨errno, rfl⟩ |
    ⟨result, returned, stream, _, output, same | ⟨_, number, nonzero, failed⟩⟩
  · have positive : (errno.code : Int) ≠ 0 := by exact_mod_cast Nat.ne_of_gt errno.positive
    exact .inr ⟨_, rfl, positive⟩
  · cases result with
    | ok rc =>
        obtain ⟨rfl, complete, _⟩ := Site.ok_of_lawful allowed returned
        exact .inl ⟨same, stream ▸ complete, output⟩
    | error error => exact .inr ⟨error, same, Site.error_of_lawful allowed returned⟩
  · exact .inr ⟨_, failed, nonzero⟩

/-- The result of an attempt is read in two ways that agree on success. -/
theorem attemptFor_zero_iff {index : Nat} {entry : CoredumperCompressor} {call : Call}
    (allowed : (attempts index).lawful opts = true)
    (made : attemptFor attempts opts index entry = some call) :
    (orErrno call.result = 0 ↔ call.result = .ok 0) ∧ (orMinusOne call.result = 0 ↔ call.result = .ok 0) := by
  rcases attemptFor_result allowed made with ⟨succeeded, _⟩ | ⟨error, failed, nonzero⟩
  · rw [succeeded]
    exact ⟨⟨fun _ => rfl, fun _ => rfl⟩, ⟨fun _ => rfl, fun _ => rfl⟩⟩
  · rw [failed]
    refine ⟨⟨fun zero => absurd zero nonzero, nofun⟩, ⟨fun zero => ?_, nofun⟩⟩
    exact absurd zero (show (-1 : Int) ≠ 0 by decide)

/-- The pre-dump callback in an attempt: it is invoked at most once, an attempt that
succeeds invoked it and got a zero, and without a zero the engine writes nothing. -/
theorem attemptFor_callbacks {index : Nat} {entry : CoredumperCompressor} {call : Call}
    (allowed : (attempts index).lawful opts = true) (set : opts.callback = true)
    (made : attemptFor attempts opts index entry = some call) :
    call.callbacks.length ≤ 1 ∧ (call.result = .ok 0 → call.callbacks = [0]) ∧
      (0 ∉ call.callbacks → call.stream = []) := by
  rcases attemptFor_parts made with ⟨errno, rfl⟩ | ⟨result, returned, stream, callbacks, _, same⟩
  · exact ⟨Nat.zero_le _, nofun, fun _ => rfl⟩
  have answers : call.callbacks = List.replicate
      (((attempts index).origin opts).invocations (attempts index).choices) (attempts index).host.preDump := by
    rw [callbacks, Site.callbacks, if_pos set]
  have most := Dumping.invocations_le_one ((attempts index).origin opts) (attempts index).choices
  refine ⟨?_, ?_, ?_⟩
  · rw [answers, List.length_replicate]
    exact most
  · intro succeeded
    have ok : result = .ok 0 := by
      rcases same with equal | ⟨zero, _⟩
      · exact equal.symm.trans succeeded
      · exact zero
    subst ok
    obtain ⟨_, _, once, zero⟩ := Site.ok_of_lawful allowed returned
    rw [answers, once, zero set]
    rfl
  · intro declined
    rw [stream]
    apply Site.stream_of_idle
    apply Site.idle_of_refused
    by_cases none : ((attempts index).origin opts).invocations (attempts index).choices = 0
    · exact .inl none
    · refine .inr ⟨set, fun zero => declined ?_⟩
      rw [answers, List.mem_replicate]
      exact ⟨none, zero.symm⟩

/-! ## The attempts that are made -/

/-- All entries before a position are compressors that fail. -/
def ReachedFrom (attempts : Nat → Attempt arch) (opts : DumpOptions arch) (index : Nat)
    (table : List CoredumperCompressor) (position : Nat) : Prop :=
  ∀ earlier < position, ∃ entry, table[earlier]? = some entry ∧ FailsOver attempts opts (index + earlier) entry

theorem ReachedFrom.tail {index position : Nat} {entry : CoredumperCompressor} {rest : List CoredumperCompressor}
    (reached : ReachedFrom attempts opts index (entry :: rest) (position + 1)) :
    FailsOver attempts opts index entry ∧ ReachedFrom attempts opts (index + 1) rest position := by
  constructor
  · obtain ⟨first, same, fails⟩ := reached 0 (Nat.succ_pos _)
    cases same
    exact fails
  · intro earlier before
    obtain ⟨other, present, fails⟩ := reached (earlier + 1) (Nat.succ_lt_succ before)
    refine ⟨other, present, ?_⟩
    rw [show index + 1 + earlier = index + (earlier + 1) by omega]
    exact fails

theorem ReachedFrom.cons {index position : Nat} {entry : CoredumperCompressor} {rest : List CoredumperCompressor}
    (fails : FailsOver attempts opts index entry) (reached : ReachedFrom attempts opts (index + 1) rest position) :
    ReachedFrom attempts opts index (entry :: rest) (position + 1) := by
  intro earlier before
  cases earlier with
  | zero => exact ⟨entry, rfl, fails⟩
  | succ earlier =>
      obtain ⟨other, present, fails⟩ := reached earlier (Nat.lt_of_succ_lt_succ before)
      refine ⟨other, present, ?_⟩
      rw [show index + (earlier + 1) = index + 1 + earlier by omega]
      exact fails

variable {index : Nat} {table : List CoredumperCompressor} {calls : List Call} {selected : Option Nat} {rc : Int}

/-- The attempt at a position is the one for the entry there, and the entries before
it are compressors that fail. -/
theorem Tries.made (tries : Tries attempts opts index table calls selected rc) {position : Nat} {call : Call}
    (found : calls[position]? = some call) :
    ReachedFrom attempts opts index table position ∧
      ∃ entry, table[position]? = some entry ∧ attemptFor attempts opts (index + position) entry = some call := by
  induction tries generalizing position with
  | exhausted ends => cases found
  | @plain index entry rest own name made | @success index entry rest name own named compressor made zero =>
      cases position with
      | zero =>
          cases found
          exact ⟨nofun, entry, rfl, made⟩
      | succ position => cases found
  | @failure index entry rest own calls selected rc fails made later ih =>
      cases position with
      | zero =>
          cases found
          exact ⟨nofun, entry, rfl, made⟩
      | succ position =>
          obtain ⟨reached, other, present, call⟩ := ih found
          refine ⟨reached.cons fails, other, present, ?_⟩
          rw [show index + (position + 1) = index + 1 + position by omega]
          exact call

/-- Where all entries before a position fail, the attempt there is made. -/
theorem Tries.reached (tries : Tries attempts opts index table calls selected rc) {position : Nat}
    {entry : CoredumperCompressor} {name : Bytes} (reached : ReachedFrom attempts opts index table position)
    (present : table[position]? = some entry) (named : entry.compressor = some name) :
    ∃ call, calls[position]? = some call := by
  induction tries generalizing position with
  | @exhausted index table ends =>
      cases position with
      | zero =>
          rw [← List.head?_eq_getElem?] at present
          rw [present, Option.bind_some, named] at ends
          cases ends
      | succ position =>
          obtain ⟨first, same, ⟨other, compressor, _⟩, _⟩ := reached 0 (Nat.succ_pos _)
          rw [← List.head?_eq_getElem?] at same
          rw [same, Option.bind_some, compressor] at ends
          cases ends
  | @plain index first rest own empty made =>
      cases position with
      | zero => exact ⟨own, rfl⟩
      | succ position =>
          obtain ⟨⟨other, compressor, some⟩, _⟩ := reached.tail.1
          rw [empty] at compressor
          cases compressor
          exact absurd rfl some
  | @success index first rest _ own _ _ made zero =>
      cases position with
      | zero => exact ⟨own, rfl⟩
      | succ position =>
          obtain ⟨_, failed, same, nonzero⟩ := reached.tail.1
          cases made.symm.trans same
          exact absurd zero nonzero
  | @failure index first rest own calls selected rc fails made later ih =>
      cases position with
      | zero => exact ⟨own, rfl⟩
      | succ position => exact ih reached.tail.2 present

/-- The loop returns 0 or -1. -/
theorem Tries.returns (tries : Tries attempts opts index table calls selected rc)
    (allowed : ∀ number, (attempts number).lawful opts = true) : rc = 0 ∨ rc = -1 := by
  induction tries with
  | exhausted ends => exact .inr rfl
  | @plain index entry rest call name made =>
      rcases attemptFor_result (allowed index) made with ⟨succeeded, _⟩ | ⟨error, failed, _⟩
      · exact .inl (by rw [succeeded]; rfl)
      · exact .inr (by rw [failed]; rfl)
  | success named compressor made zero => exact .inl rfl
  | failure fails made later ih => exact ih

/-- A table that is left with success selects the entry of its last attempt, which
succeeded. -/
theorem Tries.succeeded (tries : Tries attempts opts index table calls selected rc)
    (allowed : ∀ number, (attempts number).lawful opts = true) (success : rc = 0) :
    ∃ earlier call, calls = earlier ++ [call] ∧ selected = some (index + earlier.length) ∧ call.result = .ok 0 := by
  induction tries with
  | exhausted ends => exact absurd success (by decide)
  | @plain index entry rest call name made =>
      rw [if_pos success]
      exact ⟨[], call, rfl, rfl, (attemptFor_zero_iff (allowed index) made).2.mp success⟩
  | @success index entry rest name call named compressor made zero =>
      exact ⟨[], call, rfl, rfl, (attemptFor_zero_iff (allowed index) made).1.mp zero⟩
  | @failure index entry rest own calls selected rc fails made later ih =>
      obtain ⟨earlier, call, rfl, rfl, ok⟩ := ih success
      refine ⟨own :: earlier, call, rfl, ?_, ok⟩
      rw [List.length_cons, show index + 1 + earlier.length = index + (earlier.length + 1) by omega]

end Loop

end Corus.Capi
