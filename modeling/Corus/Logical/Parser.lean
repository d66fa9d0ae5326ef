import Corus.Logical.Bytes

/-!
# Prefix parsers

A parser consumes a prefix of its input and returns what it read together with
the untouched suffix. `Parses` says that a byte sequence is read back as a given
value whatever follows it, so that round trips compose by `Parses.bind`.
-/

namespace Corus.Logical

/-- Read a value from the front of the input, or refuse the input. -/
def Parser (Value : Type) : Type := Bytes → Option (Value × Bytes)

namespace Parser

variable {Value Other : Type}

protected def pure (value : Value) : Parser Value := fun input => some (value, input)

protected def bind (first : Parser Value) (next : Value → Parser Other) : Parser Other :=
  fun input =>
    match first input with
    | some (value, rest) => next value rest
    | none => none

instance : Monad Parser where
  pure := Parser.pure
  bind := Parser.bind

theorem pure_apply (value : Value) (input : Bytes) :
    (pure value : Parser Value) input = some (value, input) := rfl

/-- The second parser gets what the first one leaves. -/
theorem bind_apply (first : Parser Value) (next : Value → Parser Other) (input : Bytes) :
    (first >>= next) input =
      match first input with
      | some (value, rest) => next value rest
      | none => none := rfl

/-- The next `count` bytes, refused when the input is shorter. -/
def take (count : Nat) : Parser Bytes := fun input =>
  if count ≤ input.length then some (input.take count, input.drop count) else none

/-- The next `count` bytes as a fixed-size array. -/
def array (count : Nat) : Parser (Vector Byte count) := fun input =>
  if enough : count ≤ input.length then
    some (⟨(input.take count).toArray, by simp [enough]⟩, input.drop count)
  else none

/-- The next `width` bytes as a little-endian number. -/
def word (width : Nat) : Parser Nat := fun input =>
  match take width input with
  | some (bytes, rest) => some (leValue bytes, rest)
  | none => none

/-- The bytes before the next NUL; the NUL itself is consumed and dropped. -/
def untilNul : Parser Bytes
  | [] => none
  | byte :: rest =>
      if byte = 0 then some ([], rest)
      else
        match untilNul rest with
        | some (name, after) => some (byte :: name, after)
        | none => none

/-- The same parser `count` times in a row. -/
def times : Nat → Parser Value → Parser (List Value)
  | 0, _ => Parser.pure []
  | count + 1, parser =>
      Parser.bind parser fun head => Parser.bind (times count parser) fun tail =>
        Parser.pure (head :: tail)

/-- The same parser `count` times in a row, as a fixed-size array. -/
def vector (count : Nat) (parser : Parser Value) : Parser (Vector Value count) := fun input =>
  match times count parser input with
  | some (items, rest) =>
      if complete : items.length = count then some (⟨items.toArray, by simp [complete]⟩, rest) else none
  | none => none

end Parser

/-- `bytes` is read as `value`, leaving every continuation of it untouched. -/
def Parses {Value : Type} (parser : Parser Value) (bytes : Bytes) (value : Value) : Prop :=
  ∀ rest, parser (bytes ++ rest) = some (value, rest)

namespace Parses

variable {Value Other : Type}

/-- Nothing is read for a constant. -/
theorem pure (value : Value) : Parses (Pure.pure value : Parser Value) [] value := fun _ => rfl

/-- Sequencing parsers reads the concatenation of what each of them reads. -/
theorem bind {first : Parser Value} {next : Value → Parser Other}
    {firstBytes nextBytes : Bytes} {value : Value} {result : Other}
    (head : Parses first firstBytes value) (tail : Parses (next value) nextBytes result) :
    Parses (first >>= next) (firstBytes ++ nextBytes) result := by
  intro rest
  change Parser.bind first next (firstBytes ++ nextBytes ++ rest) = _
  rw [Parser.bind, List.append_assoc, head]
  exact tail rest

/-- A parser that reads a whole input reads it alone. -/
theorem whole {parser : Parser Value} {bytes : Bytes} {value : Value}
    (reads : Parses parser bytes value) : parser bytes = some (value, []) := by
  simpa using reads []

/-- A run of bytes is read back as it is. -/
theorem take (bytes : Bytes) : Parses (Parser.take bytes.length) bytes bytes := by
  intro rest
  simp [Parser.take]

/-- A run of bytes is read back under any number that is its length. -/
theorem take_of_length {count : Nat} {bytes : Bytes} (spans : bytes.length = count) :
    Parses (Parser.take count) bytes bytes := by
  subst spans
  exact take bytes

/-- An array is as many bytes as it has places. -/
theorem array {count : Nat} (value : Vector Byte count) :
    Parses (Parser.array count) value.toList value := by
  intro rest
  have spans : value.toList.length = count := by simp
  have enough : count ≤ (value.toList ++ rest).length := by simp
  have taken : (value.toList ++ rest).take count = value.toList := List.take_left' spans
  have dropped : (value.toList ++ rest).drop count = rest := List.drop_left' spans
  simp only [Parser.array, dif_pos enough, taken, dropped]
  rfl

/-- A written word is read back modulo its width. -/
theorem word (width value : Nat) :
    Parses (Parser.word width) (leBytes width value) (value % 256 ^ width) := by
  intro rest
  have reads := take_of_length (length_leBytes width value) rest
  simp only [Parser.word, reads, leValue_leBytes]

/-- A NUL-free name followed by its terminator is read back. -/
theorem untilNul {name : Bytes} (free : ∀ byte ∈ name, byte ≠ 0) :
    Parses Parser.untilNul (name ++ [0]) name := by
  intro rest
  induction name with
  | nil => simp [Parser.untilNul]
  | cons byte tail ih =>
      have headFree : byte ≠ 0 := free byte List.mem_cons_self
      have tailReads := ih fun other member => free other (List.mem_cons_of_mem _ member)
      simp only [List.cons_append, Parser.untilNul, headFree, if_false, tailReads]

/-- Repetition reads the concatenation of the encodings of a list. -/
theorem times {parser : Parser Value} {Source : Type} {encode : Source → Bytes}
    {decode : Source → Value} {items : List Source}
    (each : ∀ item ∈ items, Parses parser (encode item) (decode item)) :
    Parses (Parser.times items.length parser) (items.flatMap encode) (items.map decode) := by
  induction items with
  | nil => exact Parses.pure []
  | cons head tail ih =>
      have headReads := each head List.mem_cons_self
      have tailReads := ih fun item member => each item (List.mem_cons_of_mem _ member)
      have consReads : Parses
          (Parser.times tail.length parser >>= fun rest => Pure.pure (decode head :: rest))
          (tail.flatMap encode ++ []) (decode head :: tail.map decode) :=
        Parses.bind tailReads (Parses.pure _)
      rw [List.append_nil] at consReads
      exact Parses.bind headReads consReads

/-- An array written element by element is read back. -/
theorem vector {parser : Parser Value} {encode : Value → Bytes} {count : Nat}
    (each : ∀ value, Parses parser (encode value) value) (values : Vector Value count) :
    Parses (Parser.vector count parser) (values.toList.flatMap encode) values := by
  intro rest
  have spans : values.toList.length = count := by simp
  have items : Parses (Parser.times values.toList.length parser) (values.toList.flatMap encode)
      (values.toList.map id) := Parses.times fun value _ => each value
  rw [spans, List.map_id] at items
  simp only [Parser.vector, items rest, dif_pos spans]
  rfl

end Parses

/-! ## Machine words

Fixed-width integers are written as their exact number of little-endian bytes;
signed ones through their two's complement image. -/

def u16Bytes (value : UInt16) : Bytes := leBytes 2 value.toNat
def u32Bytes (value : UInt32) : Bytes := leBytes 4 value.toNat
def u64Bytes (value : UInt64) : Bytes := leBytes 8 value.toNat
def i32Bytes (value : Int32) : Bytes := u32Bytes value.toUInt32
def i64Bytes (value : Int64) : Bytes := u64Bytes value.toUInt64

@[simp] theorem length_u16Bytes (value : UInt16) : (u16Bytes value).length = 2 := length_leBytes _ _
@[simp] theorem length_u32Bytes (value : UInt32) : (u32Bytes value).length = 4 := length_leBytes _ _
@[simp] theorem length_u64Bytes (value : UInt64) : (u64Bytes value).length = 8 := length_leBytes _ _
@[simp] theorem length_i32Bytes (value : Int32) : (i32Bytes value).length = 4 := length_leBytes _ _
@[simp] theorem length_i64Bytes (value : Int64) : (i64Bytes value).length = 8 := length_leBytes _ _

namespace Parser

def u8 : Parser UInt8
  | [] => none
  | byte :: rest => some (byte, rest)

def u16 : Parser UInt16 := fun input => (word 2 input).map fun read => (UInt16.ofNat read.1, read.2)
def u32 : Parser UInt32 := fun input => (word 4 input).map fun read => (UInt32.ofNat read.1, read.2)
def u64 : Parser UInt64 := fun input => (word 8 input).map fun read => (UInt64.ofNat read.1, read.2)
def i32 : Parser Int32 := fun input => (u32 input).map fun read => (read.1.toInt32, read.2)
def i64 : Parser Int64 := fun input => (u64 input).map fun read => (read.1.toInt64, read.2)

end Parser

namespace Parses

/-- A byte is its own encoding. -/
theorem u8 (value : UInt8) : Parses Parser.u8 [value] value := fun _ => rfl

/-- Words are read back from their little-endian bytes. -/
theorem u16 (value : UInt16) : Parses Parser.u16 (u16Bytes value) value := by
  intro rest
  simp [Parser.u16, u16Bytes, word 2 value.toNat rest]

theorem u32 (value : UInt32) : Parses Parser.u32 (u32Bytes value) value := by
  intro rest
  simp [Parser.u32, u32Bytes, word 4 value.toNat rest]

theorem u64 (value : UInt64) : Parses Parser.u64 (u64Bytes value) value := by
  intro rest
  simp [Parser.u64, u64Bytes, word 8 value.toNat rest]

/-- A signed word is read as its two's complement. -/
theorem i32 (value : Int32) : Parses Parser.i32 (i32Bytes value) value := by
  intro rest
  simp [Parser.i32, i32Bytes, u32 value.toUInt32 rest]

theorem i64 (value : Int64) : Parses Parser.i64 (i64Bytes value) value := by
  intro rest
  simp [Parser.i64, i64Bytes, u64 value.toUInt64 rest]

end Parses

/-! ## Reading on

What a parser reads does not depend on what follows it, so a reader of the
beginning of a file sees what a reader of the whole file sees there. -/

/-- What is read from an input is read from every continuation of it. -/
def Parser.Steady {Value : Type} (parser : Parser Value) : Prop :=
  ∀ (input rest : Bytes) (value : Value), parser input = some (value, rest) →
    ∀ more, parser (input ++ more) = some (value, rest ++ more)

namespace Parser.Steady

variable {Value Other : Type}

/-- A constant looks at no input. -/
theorem pure (value : Value) : Steady (Pure.pure value : Parser Value) := by
  intro input rest other read more
  cases read
  rfl

/-- What is read behind a steady parser is found behind it in the longer input as well. -/
theorem bind {first : Parser Value} {next : Value → Parser Other} (head : Steady first)
    (tail : ∀ value, Steady (next value)) : Steady (first >>= next) := by
  intro input rest result read more
  rw [bind_apply] at read ⊢
  cases begun : first input with
  | none =>
      rw [begun] at read
      cases read
  | some pair =>
      rw [begun] at read
      rw [head input pair.2 pair.1 begun more]
      exact tail pair.1 _ _ _ read more

/-- A run that is there is there in every longer input. -/
theorem take (count : Nat) : Steady (Parser.take count) := by
  intro input rest bytes read more
  unfold Parser.take at read ⊢
  split at read
  · rename_i enough
    cases read
    have longer : count ≤ (input ++ more).length := by
      rw [List.length_append]
      omega
    rw [if_pos longer, List.take_append_of_le_length enough, List.drop_append_of_le_length enough]
  · cases read

theorem array (count : Nat) : Steady (Parser.array count) := by
  intro input rest bytes read more
  unfold Parser.array at read ⊢
  split at read
  · rename_i enough
    cases read
    have longer : count ≤ (input ++ more).length := by
      rw [List.length_append]
      omega
    simp only [dif_pos longer, List.take_append_of_le_length enough, List.drop_append_of_le_length enough]
  · cases read

/-- Converting what was read. -/
theorem map {parser : Parser Value} (steady : Steady parser) (convert : Value → Other) :
    Steady fun input => (parser input).map fun read => (convert read.1, read.2) := by
  intro input rest result read more
  obtain ⟨pair, begun, converted⟩ := Option.map_eq_some_iff.mp read
  cases converted
  simp only [steady input _ _ begun more, Option.map_some]

/-- A word is a run of bytes, converted. -/
theorem word (width : Nat) : Steady (Parser.word width) := by
  have same : Parser.word width =
      fun input => (Parser.take width input).map fun read => (leValue read.1, read.2) := by
    funext input
    unfold Parser.word
    split <;> rename_i read <;> rw [read] <;> rfl
  rw [same]
  exact (take width).map leValue

theorem u16 : Steady Parser.u16 := (word 2).map UInt16.ofNat
theorem u32 : Steady Parser.u32 := (word 4).map UInt32.ofNat
theorem u64 : Steady Parser.u64 := (word 8).map UInt64.ofNat

/-- A steady parser can be repeated. -/
theorem times {parser : Parser Value} (steady : Steady parser) (count : Nat) :
    Steady (Parser.times count parser) := by
  induction count with
  | zero => exact pure []
  | succ count ih => exact bind steady fun head => bind ih fun tail => pure (head :: tail)

end Parser.Steady

end Corus.Logical
