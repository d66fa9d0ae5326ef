import Corus.Compress.Pipeline

/-!
# Compressor tables

The tables of the C interface, the choice of a suffix by `resolve_compressor` and the
attempts of `dump_compressed`, one entry after the other.
-/

namespace Corus.Capi

open Corus.Logical Corus.Platform Corus.Output Corus.Elf Corus.Dump Corus.Compress

/-- `CoredumperCompressor`, with `none` for a null pointer. `args` comes without its
terminator. -/
structure CoredumperCompressor where
  compressor : Option Bytes
  args : Option (List Bytes)
  suffix : Option Bytes
deriving DecidableEq, Repr

/-- The slots of the `argv` buffer in `dump_compressed`. -/
def argvSlots : Nat := 8

/-- The argument vector for an entry, cut so that its terminator fits. -/
def CoredumperCompressor.argv (entry : CoredumperCompressor) (name : Bytes) : List Bytes :=
  match entry.args with
  | none => [name]
  | some args => args.take (argvSlots - 1)

/-- The index of the entry that ends a table. -/
def terminal : List CoredumperCompressor → Nat
  | [] => 0
  | entry :: rest => if entry.compressor.isNone then 0 else terminal rest + 1

/-- The loop of `resolve_compressor` from an index on. -/
def resolveFrom (pathExists : Bytes → Bool) : Nat → List CoredumperCompressor → Option Nat
  | _, [] => none
  | index, entry :: rest =>
      match entry.compressor with
      | none => none
      | some name =>
          if name = [] then some index
          else if name.head? = some 0x2f ∧ pathExists name = true then some index
          else resolveFrom pathExists (index + 1) rest

/-- `resolve_compressor`. -/
def resolveCompressor (pathExists : Bytes → Bool) (compressors : Option (List CoredumperCompressor)) : Option Nat :=
  match compressors with
  | none => none
  | some table => resolveFrom pathExists 0 table

/-- What `dump_compressed` has done: the bytes in the output file and the index of the
entry stored in `*selected`; for the observer, the streams of the engine and what the
pre-dump callback returned. -/
structure Effects where
  file : Bytes
  selected : Option Nat
  streams : List Bytes
  callbacks : List Int32
deriving DecidableEq, Repr

/-- An attempt appends its output: all of them share one descriptor and its offset. -/
def Effects.add (effects : Effects) (call : Call) : Effects :=
  { effects with
    file := effects.file ++ call.output
    streams := effects.streams ++ [call.stream]
    callbacks := effects.callbacks ++ call.callbacks }

/-- `set_selected`. -/
def Effects.select (effects : Effects) (wanted : Bool) (index : Nat) : Effects :=
  { effects with selected := if wanted then some index else effects.selected }

/-- `unwrap_or(-1)`. -/
def orMinusOne : Except CoreDumpError Int32 → Int
  | .ok rc => rc.toInt
  | .error _ => -1

/-- `unwrap_or_else(|error| error.errno())`. -/
def orErrno : Except CoreDumpError Int32 → Int
  | .ok rc => rc.toInt
  | .error error => error.errno

section Dump

variable {arch : Arch} (attempts : Nat → Attempt arch) (opts : DumpOptions arch) (wanted : Bool)

/-- A dump without compression. -/
def dumpPlain (index : Nat) (effects : Effects) : Option (Int × Effects) :=
  ((attempts index).writePlain opts).map fun call => (orMinusOne call.result, effects.add call)

/-- The loop of `dump_compressed` from an index on. -/
def dumpFrom : Nat → List CoredumperCompressor → Effects → Option (Int × Effects)
  | _, [], effects => some (-1, effects)
  | index, entry :: rest, effects =>
      match entry.compressor with
      | none => some (-1, effects)
      | some name =>
          if name = [] then
            (dumpPlain attempts opts index effects).map fun (rc, after) =>
              (rc, if rc = 0 then after.select wanted index else after)
          else
            match (attempts index).writeCoreDumpCompressedToFdWith name (entry.argv name) opts with
            | none => none
            | some call =>
                if orErrno call.result = 0 then some (0, (effects.add call).select wanted index)
                else dumpFrom (index + 1) rest (effects.add call)

/-- `dump_compressed`; an attempt has the number of its entry. -/
def dumpCompressed (compressors : Option (List CoredumperCompressor)) (effects : Effects) :
    Option (Int × Effects) :=
  match compressors with
  | none => dumpPlain attempts opts 0 effects
  | some table => dumpFrom attempts opts wanted 0 table (effects.select wanted (terminal table))

end Dump

end Corus.Capi
