import Mathlib.Data.List.TakeWhile
import Corus.Elf.Structs
import Corus.Threads.Convergence
import Corus.Threads.IdText

/-!
# The format of directory records

The two layouts of `KernelDirent`, the records that the kernel fills a buffer with, and
what the walk over the buffer makes of them. The name field is longer than most records,
so that a record is read together with what follows it.
-/

namespace Corus.Threads

open Corus.Logical Corus.Elf

/-! ## The source -/

/-- The offset of `d_name`: on aarch64 `getdents64` puts the file type in front of it. -/
def dNameOffset : Arch → Nat
  | .x86_64 => 18
  | .aarch64 => 19

/-- The length of `d_name`. -/
def dNameLen : Nat := 256

/-- The `KernelDirent` at an offset of the buffer, whatever the memory holds behind it. -/
def readDirent (arch : Arch) (dirbuf : Bytes) (off : Nat) : Dirent where
  dIno := (UInt64.ofNat (leValue (window dirbuf off 8))).toInt64
  dReclen := UInt16.ofNat (leValue (window dirbuf (off + 16) 2))
  dName := window dirbuf (off + dNameOffset arch) dNameLen

/-! ## Records -/

/-- A record as the kernel writes it. `fill` is what it leaves between the end of the name
and the next record; with the legacy call its last byte is the file type. -/
structure DirentRecord (arch : Arch) where
  ino : UInt64
  next : UInt64
  kind : Byte
  name : Bytes
  fill : Bytes
  solid : 0 ∉ name
  short : name.length < dNameLen
  bounded : dNameOffset arch + name.length + 1 + fill.length < 2 ^ 16

namespace DirentRecord

variable {arch : Arch} (record : DirentRecord arch)

/-- `d_reclen`. -/
def reclen : Nat := dNameOffset arch + record.name.length + 1 + record.fill.length

/-- The bytes between `d_reclen` and the name. -/
def typeBytes : Bytes :=
  match arch with
  | .x86_64 => []
  | .aarch64 => [record.kind]

/-- The bytes of the record. -/
def bytes : Bytes :=
  leBytes 8 record.ino.toNat ++ (leBytes 8 record.next.toNat ++ (leBytes 2 record.reclen ++ (record.typeBytes ++
    (record.name ++ 0 :: record.fill))))

/-- What a record is to be read as, if these bytes follow it. -/
def dirent (after : Bytes) : Dirent where
  dIno := record.ino.toInt64
  dReclen := UInt16.ofNat record.reclen
  dName := (record.name ++ 0 :: (record.fill ++ after)).take dNameLen

theorem length_typeBytes : 18 + record.typeBytes.length = dNameOffset arch := by
  cases arch <;> rfl

theorem length_bytes : record.bytes.length = record.reclen := by
  have typed := record.length_typeBytes
  simp only [bytes, reclen, List.length_append, length_leBytes, List.length_cons]
  omega

theorem reclen_pos : 0 < record.reclen := by
  unfold reclen
  omega

theorem dReclen_toNat (after : Bytes) : (record.dirent after).dReclen.toNat = record.reclen :=
  UInt16.toNat_ofNat_of_lt' record.bounded

theorem dReclen_ne_zero (after : Bytes) : (record.dirent after).dReclen ≠ 0 := by
  intro zero
  have length := record.dReclen_toNat after
  have positive := record.reclen_pos
  rw [zero] at length
  exact absurd length (Nat.ne_of_lt positive)

/-- A record is read as what the kernel wrote. -/
theorem readDirent_bytes (before after : Bytes) :
    readDirent arch (before ++ (record.bytes ++ after)) before.length = record.dirent after := by
  have typed := record.length_typeBytes
  have ino : window (before ++ (record.bytes ++ after)) before.length 8 = leBytes 8 record.ino.toNat := by
    rw [bytes, List.append_assoc]
    exact window_append rfl (length_leBytes _ _)
  have reclen : window (before ++ (record.bytes ++ after)) (before.length + 16) 2 = leBytes 2 record.reclen := by
    have split : before ++ (record.bytes ++ after) =
        (before ++ (leBytes 8 record.ino.toNat ++ leBytes 8 record.next.toNat)) ++ (leBytes 2 record.reclen ++
          (record.typeBytes ++ (record.name ++ 0 :: record.fill) ++ after)) := by
      simp only [bytes, List.append_assoc]
    rw [split]
    exact window_append (by simp) (length_leBytes _ _)
  have name : window (before ++ (record.bytes ++ after)) (before.length + dNameOffset arch) dNameLen =
      (record.name ++ 0 :: (record.fill ++ after)).take dNameLen := by
    have split : before ++ (record.bytes ++ after) =
        (before ++ (leBytes 8 record.ino.toNat ++ (leBytes 8 record.next.toNat ++ (leBytes 2 record.reclen ++
          record.typeBytes)))) ++ (record.name ++ 0 :: (record.fill ++ after)) := by
      simp only [bytes, List.append_assoc, List.cons_append]
    rw [split, window, List.drop_left' (by simp; omega)]
  have inoValue : leValue (leBytes 8 record.ino.toNat) = record.ino.toNat := by
    rw [leValue_leBytes]
    exact Nat.mod_eq_of_lt record.ino.toNat_lt
  have reclenValue : leValue (leBytes 2 record.reclen) = record.reclen := by
    rw [leValue_leBytes]
    exact Nat.mod_eq_of_lt record.bounded
  rw [readDirent, ino, reclen, name, inoValue, reclenValue, UInt64.ofNat_toNat]
  rfl

/-- The thread that the name of a record in use spells. -/
def thread : Option Int32 :=
  if record.ino = 0 then none else (parseTid record.name).filter fun pid => pid != 0

end DirentRecord

/-- A name is read up to its terminator. -/
theorem parseTid_terminated {name : Bytes} (solid : 0 ∉ name) (tail : Bytes) :
    parseTid (name ++ 0 :: tail) = parseTid name := by
  have ends : ∀ text : Bytes, 0 ∉ text →
      (text ++ 0 :: tail).takeWhile (fun byte => byte != 0) = text.takeWhile fun byte => byte != 0 := by
    intro text free
    have whole : ∀ byte ∈ text, (byte != 0) = true := by
      rintro byte member
      simp only [bne_iff_ne, ne_eq]
      rintro rfl
      exact free member
    rw [List.takeWhile_append_of_pos whole, List.takeWhile_cons_of_neg (by decide), List.append_nil]
    exact (List.takeWhile_eq_self_iff.mpr whole).symm
  cases name with
  | nil => rfl
  | cons first rest =>
      have later : 0 ∉ rest := fun member => solid (List.mem_cons_of_mem _ member)
      unfold parseTid
      simp only [List.cons_append, List.head?_cons, List.tail_cons]
      by_cases dot : first = 0x2e
      · simp only [dot, if_true, ends rest later]
      · have other : ¬ (some first = some (0x2e : Byte)) := fun same => dot (Option.some.inj same)
        have whole := ends (first :: rest) solid
        simp only [List.cons_append] at whole
        simp only [other, if_false, whole]

namespace DirentRecord

variable {arch : Arch} (record : DirentRecord arch)

/-- What follows a record does not matter to the thread that it names. -/
theorem thread_dirent (after : Bytes) : (record.dirent after).thread = record.thread := by
  have unused : (record.dirent after).dIno = 0 ↔ record.ino = 0 := by
    constructor
    · intro zero
      exact congrArg Int64.toUInt64 zero
    · intro zero
      rw [dirent, zero]
      rfl
  have name : (record.dirent after).dName =
      record.name ++ 0 :: (record.fill ++ after).take (dNameLen - record.name.length - 1) := by
    have short := record.short
    have rest : dNameLen - record.name.length = dNameLen - record.name.length - 1 + 1 := by omega
    rw [dirent, List.take_append, List.take_of_length_le (Nat.le_of_lt short), rest, List.take_succ_cons]
    rfl
  unfold Dirent.thread thread
  rw [name, parseTid_terminated record.solid]
  simp only [unused]

end DirentRecord

/-! ## Buffers -/

/-- The buffer after a `getdents` that filled it with some records. `stale` is what follows
them, in the buffer and behind it. -/
structure DirentBuffer (arch : Arch) where
  records : List (DirentRecord arch)
  stale : Bytes

namespace DirentBuffer

variable {arch : Arch} (buffer : DirentBuffer arch)

/-- The bytes that were filled in. -/
def filled : Bytes := buffer.records.flatMap DirentRecord.bytes

/-- The memory from the start of the buffer on. -/
def dirbuf : Bytes := buffer.filled ++ buffer.stale

/-- Every record has a byte at least. -/
theorem length_records_le : buffer.records.length ≤ buffer.filled.length := by
  unfold filled
  induction buffer.records with
  | nil => exact Nat.le_refl _
  | cons record records ih =>
      have positive := record.reclen_pos
      rw [List.flatMap_cons, List.length_append, record.length_bytes, List.length_cons]
      omega

end DirentBuffer

/-- The walk over the records that are left sees the thread of each of them. -/
theorem walkDirents_records {arch : Arch} (records : List (DirentRecord arch)) (before stale : Bytes) {fuel : Nat}
    (enough : records.length < fuel) :
    ∃ dirents, walkDirents (readDirent arch (before ++ (records.flatMap DirentRecord.bytes ++ stale)))
        (before.length + (records.flatMap DirentRecord.bytes).length) fuel before.length = some dirents ∧
      dirents.map Dirent.thread = records.map DirentRecord.thread := by
  induction records generalizing before fuel with
  | nil =>
      obtain ⟨fuel, rfl⟩ := Nat.exists_eq_succ_of_ne_zero (Nat.ne_of_gt (Nat.zero_lt_of_lt enough))
      refine ⟨[], ?_, rfl⟩
      simp [walkDirents]
  | cons record records ih =>
      obtain ⟨fuel, rfl⟩ := Nat.exists_eq_succ_of_ne_zero (Nat.ne_of_gt (Nat.zero_lt_of_lt enough))
      rw [List.length_cons] at enough
      obtain ⟨dirents, walked, threads⟩ := @ih (before ++ record.bytes) fuel (by omega)
      have length := record.length_bytes
      have positive := record.reclen_pos
      have here := record.readDirent_bytes before (records.flatMap DirentRecord.bytes ++ stale)
      rw [List.append_assoc, List.length_append, Nat.add_assoc] at walked
      rw [List.flatMap_cons, List.append_assoc, List.length_append]
      refine ⟨record.dirent (records.flatMap DirentRecord.bytes ++ stale) :: dirents, ?_, ?_⟩
      · rw [walkDirents, if_pos (by omega)]
        simp only [here]
        rw [if_neg (record.dReclen_ne_zero _), record.dReclen_toNat, ← length, walked]
        rfl
      · rw [List.map_cons, List.map_cons, threads, record.thread_dirent]

/-! ## The task directory -/

/-- Records that show some tasks: one for each, those of the directory itself and of its
parent, and those that are not in use. -/
inductive Shows {arch : Arch} : List (DirentRecord arch) → List Int32 → Prop where
  | nil : Shows [] []
  | task {record : DirentRecord arch} {records : List (DirentRecord arch)} {tid : Int32} {tasks : List Int32}
      (used : record.ino ≠ 0) (positive : 0 < tid) (named : record.name = decimalText tid.toInt)
      (rest : Shows records tasks) : Shows (record :: records) (tid :: tasks)
  | dots {record : DirentRecord arch} {records : List (DirentRecord arch)} {tasks : List Int32}
      (named : record.name = [0x2e] ∨ record.name = [0x2e, 0x2e]) (rest : Shows records tasks) :
      Shows (record :: records) tasks
  | unused {record : DirentRecord arch} {records : List (DirentRecord arch)} {tasks : List Int32}
      (unused : record.ino = 0) (rest : Shows records tasks) : Shows (record :: records) tasks

/-- The records of a directory name its tasks. -/
theorem Shows.threads {arch : Arch} {records : List (DirentRecord arch)} {tasks : List Int32}
    (shows : Shows records tasks) : records.filterMap DirentRecord.thread = tasks := by
  induction shows with
  | nil => rfl
  | @task record records tid tasks used positive named rest ih =>
      have parsed := @parseTid_text tid positive false []
      rw [if_neg (by decide), List.nil_append, ← named, parseTid_terminated record.solid] at parsed
      have nonzero : (tid != 0) = true := by
        simp only [bne_iff_ne, ne_eq]
        rintro rfl
        cases positive
      have thread : record.thread = some tid := by
        rw [DirentRecord.thread, if_neg used, parsed, Option.filter_some, if_pos nonzero]
      rw [List.filterMap_cons_some thread, ih]
  | @dots record records tasks named rest ih =>
      have thread : record.thread = none := by
        unfold DirentRecord.thread
        rcases named with single | double
        · rw [single]
          split
          · rfl
          · rfl
        · rw [double]
          split
          · rfl
          · rfl
      rw [List.filterMap_cons_none thread, ih]
  | @unused record records tasks unused rest ih =>
      have thread : record.thread = none := by rw [DirentRecord.thread, if_pos unused]
      rw [List.filterMap_cons_none thread, ih]

/-- What the walk over a buffer sees. -/
def DirentBuffer.walk {arch : Arch} (buffer : DirentBuffer arch) : Option (List Dirent) :=
  walkDirents (readDirent arch buffer.dirbuf) buffer.filled.length (buffer.filled.length + 1) 0

/-- The walk over a buffer ends, and sees the threads of its records. -/
theorem DirentBuffer.walk_eq {arch : Arch} (buffer : DirentBuffer arch) : ∃ dirents, buffer.walk = some dirents ∧
    threadsOf dirents = buffer.records.filterMap DirentRecord.thread := by
  have many := buffer.length_records_le
  obtain ⟨dirents, walked, threads⟩ := @walkDirents_records arch buffer.records [] buffer.stale
    (buffer.filled.length + 1) (by omega)
  rw [List.nil_append, List.length_nil, Nat.zero_add] at walked
  refine ⟨dirents, walked, ?_⟩
  have mapped := congrArg (List.filterMap id) threads
  rw [List.filterMap_map, List.filterMap_map, Function.id_comp, Function.id_comp] at mapped
  exact mapped

/-- The walks over several buffers see the threads of all records. -/
theorem threadsOf_walks {arch : Arch} (buffers : List (DirentBuffer arch)) {reads : List (List Dirent)}
    (walked : reads.map some = buffers.map DirentBuffer.walk) :
    threadsOf reads.flatten = (buffers.flatMap DirentBuffer.records).filterMap DirentRecord.thread := by
  induction buffers generalizing reads with
  | nil =>
      rw [List.map_nil, List.map_eq_nil_iff] at walked
      rw [walked]
      rfl
  | cons buffer buffers ih =>
      obtain ⟨dirents, ends, threads⟩ := buffer.walk_eq
      rw [List.map_cons, List.map_eq_cons_iff] at walked
      obtain ⟨first, rest, rfl, here, later⟩ := walked
      rw [ends, Option.some.injEq] at here
      have others := ih later
      rw [threadsOf] at threads others
      rw [threadsOf, List.flatten_cons, List.filterMap_append, List.flatMap_cons, List.filterMap_append, others, here,
        threads]

/-! ## A pass of the lister -/

namespace Lister

variable {callback : Callback}

/-- The records that a step of the lister gets from `getdents`. -/
def received (lister : Lister callback) (reply : Reply) : List Dirent :=
  match lister.pc, reply with
  | .getdents, .ok answer => answer.entries
  | _, _ => []

/-- What each successful `getdents` brings while the lister gets these answers. -/
def receivedAll : Lister callback → List Reply → List (List Dirent)
  | _, [] => []
  | lister, reply :: rest =>
      match lister.received reply with
      | [] => receivedAll (lister.step reply) rest
      | dirents => dirents :: receivedAll (lister.step reply) rest

theorem listed_advance (lister : Lister callback) : lister.advance.history.listed = lister.history.listed := by
  obtain ⟨entries, skipped, equal⟩ := lister.advance_eq
  rw [equal]

/-- Records come with a successful `getdents` only. -/
theorem received_eq_nil {lister : Lister callback} (elsewhere : lister.pc ≠ .getdents) (reply : Reply) :
    lister.received reply = [] := by
  unfold received
  split
  · rename_i pc
    exact absurd pc elsewhere
  · rfl

theorem received_rests {lister : Lister callback} {reply : Reply} (rests : lister.pc.Rests reply) :
    lister.received reply = [] := by
  by_cases reading : lister.pc = .getdents
  · rw [reading] at rests
    cases rests
    simp only [received, reading]
  · exact received_eq_nil reading reply

/-- The last, empty read brings nothing. -/
theorem received_turn {lister : Lister callback} {reply : Reply} {later : Pc callback.Local}
    (turn : lister.Turn lister.pc reply later) : lister.received reply = [] := by
  by_cases reading : lister.pc = .getdents
  · rw [reading] at turn
    cases turn with
    | again last | settled last =>
        simp only [received, reading]
        exact List.isEmpty_iff.mp last
    | unlisted failed => simp only [received, reading]
    | mismatch mismatches => cases mismatches
  · exact received_eq_nil reading reply

/-- As long as no pass begins, what was listed grows by the threads of the records received. -/
theorem listed_step (lister : Lister callback) (within : lister.pc ≠ .rewind) (reply : Reply) :
    (lister.step reply).history.listed = lister.history.listed ++ threadsOf (lister.received reply) := by
  have same : lister.received reply = [] → lister.history.listed =
      lister.history.listed ++ threadsOf (lister.received reply) := by
    intro nothing
    rw [nothing, threadsOf, List.filterMap_nil, List.append_nil]
  have moves := lister.step_moves reply
  generalize lister.step reply = after at moves
  cases moves with
  | rewind here => exact absurd here within
  | reads here ok more => simp only [received, here, ok]
  | rests rests => exact same (received_rests rests)
  | turns here turn =>
      subst here
      exact same (received_turn turn)
  | failsEarly here fails => exact same (received_eq_nil (by cases fails <;> simp [here]) reply)
  | passes here passed =>
      rw [listed_advance]
      exact same (received_eq_nil (by cases passed <;> simp [here]) reply)
  | advances here | drops here | publishes here =>
      rw [listed_advance]
      exact same (received_eq_nil (by simp [here]) reply)
  | _ here => exact same (received_eq_nil (by simp [here]) reply)

/-- What is listed after any number of steps of one pass. -/
theorem listed_foldl (replies : List Reply) (lister : Lister callback)
    (within : ∀ count < replies.length, ((replies.take count).foldl step lister).pc ≠ .rewind) :
    (replies.foldl step lister).history.listed =
      lister.history.listed ++ threadsOf (lister.receivedAll replies).flatten := by
  induction replies generalizing lister with
  | nil => simp [receivedAll, threadsOf]
  | cons reply replies ih =>
      have first := lister.listed_step (within 0 (by simp)) reply
      have later := ih (lister.step reply) fun count below => within (count + 1) (by simpa using below)
      rw [List.foldl_cons, later, first, receivedAll]
      cases lister.received reply with
      | nil => rw [threadsOf, List.filterMap_nil, List.append_nil]
      | cons dirent dirents =>
          simp only [threadsOf, List.flatten_cons, List.filterMap_append, List.append_assoc]

/-- A pass lists exactly the tasks that the kernel shows, in order: whatever the layout of
the records, what they are filled up with, how the listing is split over the buffers, what
the buffers held before, and however the calls between the reads end. -/
theorem pass_lists_tasks {arch : Arch} (buffers : List (DirentBuffer arch)) {tasks : List Int32}
    (shows : Shows (buffers.flatMap DirentBuffer.records) tasks) {lister : Lister callback}
    (begins : lister.pc = .rewind) (reply : Reply) (replies : List Reply)
    (within : ∀ count < replies.length, ((replies.take count).foldl step (lister.step reply)).pc ≠ .rewind)
    (answered : ((lister.step reply).receivedAll replies).map some = buffers.map DirentBuffer.walk) :
    (replies.foldl step (lister.step reply)).history.listed = tasks := by
  have nothing : (lister.step reply).history.listed = [] := by
    simp only [Lister.step, begins]
  rw [listed_foldl replies _ within, nothing, List.nil_append, threadsOf_walks buffers answered, shows.threads]

/-- The record of a name, behind which the kernel leaves two bytes. -/
def sampleRecord (ino : UInt64) (name : Bytes) (solid : 0 ∉ name) (short : name.length < dNameLen) :
    DirentRecord .aarch64 where
  ino := ino
  next := 7
  kind := 4
  name := name
  fill := [0x31, 0x32]
  solid := solid
  short := short
  bounded := by
    have limit : dNameLen = 256 := rfl
    have offset : dNameOffset .aarch64 = 19 := rfl
    simp only [List.length_cons, List.length_nil]
    omega

/-- The directory and task 100, and in a second buffer a task that is gone and task 102. -/
def sampleBuffers : List (DirentBuffer .aarch64) :=
  [⟨[sampleRecord 1 [0x2e] (by decide) (by decide), sampleRecord 2 [0x31, 0x30, 0x30] (by decide) (by decide)],
      [0x39, 0x39]⟩,
    ⟨[sampleRecord 0 [0x31, 0x30, 0x31] (by decide) (by decide),
      sampleRecord 4 [0x31, 0x30, 0x32] (by decide) (by decide)], []⟩]

theorem sampleBuffers_show : Shows (sampleBuffers.flatMap DirentBuffer.records) [100, 102] := by
  refine .dots (.inl rfl) (.task (by decide) (by decide) ?_ (.unused rfl (.task (by decide) (by decide) ?_ .nil)))
  · decide
  · decide

/-- The answers of a pass over these buffers in which no other call succeeds. -/
def sampleAnswers : List Reply :=
  sampleBuffers.flatMap fun buffer =>
    .ok ⟨UInt64.ofNat buffer.filled.length, 0, buffer.walk.getD []⟩ :: List.replicate 4 (.error .eperm)

theorem pass_lists_tasks_sample :
    (sampleAnswers.foldl step ({ newborn with pc := .rewind }.step (.error .eperm))).history.listed = [100, 102] :=
  @pass_lists_tasks _ _ sampleBuffers _ sampleBuffers_show { newborn with pc := .rewind } rfl (.error .eperm)
    sampleAnswers (by decide +kernel) (by decide +kernel)

end Lister

end Corus.Threads
