import Corus.Platform.Process

/-!
# The task directory

Records of `/proc/<pid>/task` and the thread ids they name, and the answers that
the system calls of the lister and of its caller can get.
-/

namespace Corus.Threads

open Corus.Logical Corus.Platform

/-- The fields of `KernelDirent` that are read; `dName` is the whole name field,
NUL and what follows it included. -/
structure Dirent where
  dIno : Int64
  dReclen : UInt16
  dName : Bytes
deriving DecidableEq, Repr

/-- What a successful call hands back: the value it returned, the word it stored
through a pointer (an inode, a peeked word or a wait status) and the directory
records it filled a buffer with. -/
structure Success where
  returned : UInt64
  stored : UInt64
  entries : List Dirent
deriving Repr

/-- The answer to a system call. -/
abbrev Reply := Except Errno Success

/-- A `usize` cast to `c_int`. -/
def cInt (value : UInt64) : Int32 := value.toUInt32.toInt32

/-- `u8::is_ascii_digit`. -/
def isAsciiDigit (byte : Byte) : Bool := 0x30 ≤ byte && byte ≤ 0x39

/-- The digit loop of `local_atoi`. -/
def atoiDigits : Int32 → Bytes → Int32
  | number, [] => number
  | number, byte :: rest =>
      if isAsciiDigit byte then atoiDigits (number * 10 + Int32.ofNat (byte - 0x30).toNat) rest
      else number

/-- `local_atoi`. -/
def localAtoi (text : Bytes) : Int32 :=
  if text.head? = some 0x2d then -atoiDigits 0 text.tail else atoiDigits 0 text

/-- `parse_tid`: some kernels put a dot in front of the name. -/
def parseTid (dName : Bytes) : Option Int32 :=
  let text := if dName.head? = some 0x2e then dName.tail else dName
  let text := text.takeWhile fun byte => byte != 0
  match text with
  | [] => none
  | first :: _ => if isAsciiDigit first then some (localAtoi text) else none

/-- The thread that a record in use names. -/
def Dirent.thread (dirent : Dirent) : Option Int32 :=
  if dirent.dIno = 0 then none else (parseTid dirent.dName).filter fun pid => pid != 0

/-- The threads named by a list of records. -/
def threadsOf (entries : List Dirent) : List Int32 := entries.filterMap Dirent.thread

example : parseTid [0x31, 0x32, 0x33, 0x34, 0] = some 1234 := by decide

example : parseTid [0x2e, 0x35, 0x36, 0x37, 0x38, 0] = some 5678 := by decide

example : parseTid [0x63, 0x67, 0x72, 0x6f, 0x75, 0x70, 0] = none := by decide

end Corus.Threads
