import Corus.Elf.NoteSection
import Corus.Reference.Assembly

/-!
# The order of the notes

The C library writes the auxiliary vector before the threads, and the threads behind the
first one from the last to the first. Its status records know more of the process. To a
debugger, which takes the first note of a type, the two libraries write the same notes
but for those records.
-/

namespace Corus.Reference

open Corus.Logical Corus.Elf Corus.Proc

variable {arch : Arch}

/-! ## The same notes -/

/-- The status record of a thread, on top of what is known of its process. -/
def statusOn (prstatus : Prstatus arch) (thread : ThreadState arch) : Prstatus arch :=
  { prstatus with prPid := thread.pid, prReg := thread.regs }

def notesOn (prstatus : Prstatus arch) (thread : ThreadState arch) : List Note :=
  [Note.core ntPrstatus (statusOn prstatus thread).asBytes, Note.core ntPrfpreg (FpRegs.asBytes thread.fpregs)]

section Notes

variable (inputs : CoreInputs arch) (prstatus : Prstatus arch)

/-- The process that crashed, in front of its threads. -/
def processNotes : List Note :=
  Note.core ntPrpsinfo inputs.prpsinfo.asBytes :: (inputs.user.toList.map fun user => Note.core ntPrxreg user.asBytes)

def auxvNotes : List Note :=
  if inputs.auxv.isEmpty then [] else [Note.core ntAuxv (AuxvT.sliceAsBytes inputs.auxv)]

/-- The notes behind the threads. -/
def laterNotes : List Note := inputs.notes.map ExtraNote.note ++ inputs.fileNotes

/-- The notes of the port with other status records. -/
def notesWith : List Note :=
  processNotes inputs ++ (inputs.threadOrder.flatMap (notesOn prstatus) ++ (auxvNotes inputs ++ laterNotes inputs))

theorem noteList_eq : inputs.noteList = notesWith inputs Prstatus.zeroed := by
  simp only [CoreInputs.noteList, notesWith, processNotes, auxvNotes, laterNotes, List.append_assoc, List.cons_append,
    List.nil_append]
  rfl

/-- The arguments that the C library has for the inputs of the port. -/
def callOf (maxLength : UInt64) : CoreCall arch where
  prpsinfo := inputs.prpsinfo
  user := inputs.user
  prstatus
  threads := inputs.threads
  pagesize := inputs.pagesize
  prioritizeMaxLength := maxLength
  mainPid := (inputs.threads[inputs.main]?.map ThreadState.pid).getD 0
  extraNotes := inputs.notes
  auxv := inputs.auxv

/-- The threads in the order of the C library. -/
def callOrder (call : CoreCall arch) : List (ThreadState arch) :=
  (call.threads.reverse.find? fun thread => thread.pid == call.mainPid).toList ++
    call.threads.reverse.filter fun thread => thread.pid != call.mainPid

/-- The notes of the C library. -/
def referenceNotes (call : CoreCall arch) : List Note :=
  processNotes inputs ++ (auxvNotes inputs ++ ((callOrder call).flatMap (notesOn prstatus) ++ laterNotes inputs))

end Notes

/-! ## Threads -/

/-- Where every key is there once, the first item with a key is all of them. -/
theorem find?_toList_of_nodup {Item Key : Type} [DecidableEq Key] {key : Item → Key} {items : List Item}
    (distinct : (items.map key).Nodup) (wanted : Key) :
    (items.find? fun item => key item == wanted).toList = items.filter fun item => key item == wanted := by
  induction items with
  | nil => rfl
  | cons item rest ih =>
      rw [List.map_cons, List.nodup_cons] at distinct
      by_cases here : key item = wanted
      · have found : (key item == wanted) = true := by simpa using here
        have nowhere : (rest.filter fun item => key item == wanted) = [] := by
          apply List.filter_eq_nil_iff.mpr
          intro other member same
          have equal : key other = wanted := by simpa using same
          exact distinct.1 (here ▸ equal ▸ List.mem_map_of_mem member)
        rw [List.find?_cons_of_pos (p := fun item => key item == wanted) found,
          List.filter_cons_of_pos (p := fun item => key item == wanted) found, nowhere]
        rfl
      · have other : ¬ (key item == wanted) = true := by simpa using here
        rw [List.find?_cons_of_neg (p := fun item => key item == wanted) other,
          List.filter_cons_of_neg (p := fun item => key item == wanted) other, ih distinct.2]

section Threads

variable {inputs : CoreInputs arch} {prstatus : Prstatus arch} {maxLength : UInt64}

theorem callOrder_perm {call : CoreCall arch} (distinct : (call.threads.map ThreadState.pid).Nodup) :
    (callOrder call).Perm call.threads := by
  have reversed : (call.threads.reverse.map ThreadState.pid).Nodup := by
    rw [List.map_reverse]
    exact List.nodup_reverse.mpr distinct
  rw [callOrder, find?_toList_of_nodup reversed]
  exact (List.filter_append_perm _ _).trans (List.reverse_perm _)

/-- Both libraries begin with the thread that crashed. -/
theorem callOrder_head (distinct : (inputs.threads.map ThreadState.pid).Nodup) :
    (callOrder (callOf inputs prstatus maxLength)).head? = inputs.threadOrder.head? := by
  by_cases none : inputs.threads = []
  · simp [callOrder, callOf, CoreInputs.threadOrder, none]
  have inside := inputs.main_lt none
  obtain ⟨main, listed⟩ : ∃ main, inputs.threads[inputs.main]? = some main :=
    ⟨_, List.getElem?_eq_getElem inside⟩
  have member : main ∈ inputs.threads := List.mem_of_getElem? listed
  have found : (inputs.threads.reverse.find? fun thread => thread.pid == main.pid) = some main := by
    cases first : inputs.threads.reverse.find? fun thread => thread.pid == main.pid with
    | none =>
        have absent := List.find?_eq_none.mp first main (List.mem_reverse.mpr member)
        simp at absent
    | some thread =>
        have same : thread.pid = main.pid := by simpa using List.find?_some first
        have other := List.mem_reverse.mp (List.mem_of_find?_eq_some first)
        rw [List.inj_on_of_nodup_map distinct other member same]
  simp only [callOrder, callOf, listed, Option.map_some, Option.getD_some, found, CoreInputs.threadOrder,
    Option.toList_some, List.singleton_append, List.head?_cons]

theorem referenceNotes_perm (distinct : (inputs.threads.map ThreadState.pid).Nodup) :
    (referenceNotes inputs prstatus (callOf inputs prstatus maxLength)).Perm (notesWith inputs prstatus) := by
  have threads : (callOrder (callOf inputs prstatus maxLength)).Perm inputs.threadOrder :=
    (callOrder_perm distinct).trans inputs.threadOrder_perm.symm
  have swapped : (auxvNotes inputs ++ ((callOrder (callOf inputs prstatus maxLength)).flatMap (notesOn prstatus) ++
      laterNotes inputs)).Perm
      (inputs.threadOrder.flatMap (notesOn prstatus) ++ (auxvNotes inputs ++ laterNotes inputs)) := by
    rw [← List.append_assoc, ← List.append_assoc]
    exact ((List.perm_append_comm).trans ((threads.flatMap_right _).append_right _)).append_right _
  exact swapped.append_left _

end Threads

/-- Other status records are as long as the ones of the port. -/
theorem notesWith_representable {inputs : CoreInputs arch} {prstatus : Prstatus arch} (valid : inputs.Representable) :
    ∀ note ∈ notesWith inputs prstatus, note.Representable := by
  intro note member
  have listed := valid.notes
  rw [noteList_eq] at listed
  rw [notesWith, List.mem_append, List.mem_append] at member
  rcases member with process | threads | later
  · exact listed note (List.mem_append_left _ process)
  · obtain ⟨thread, _, member⟩ := List.mem_flatMap.mp threads
    have sizes : Prstatus.size arch < 2 ^ 32 ∧ arch.fpRegsSize < 2 ^ 32 := by cases arch <;> decide
    rw [notesOn, List.mem_cons, List.mem_singleton] at member
    rcases member with rfl | rfl
    · exact Note.core_representable (by rw [Prstatus.length_asBytes]; exact sizes.1)
    · exact Note.core_representable (by rw [FpRegs.length_asBytes]; exact sizes.2)
  · exact listed note (List.mem_append_right _ (List.mem_append_right _ later))

/-! ## First notes -/

/-- The first note with a type. -/
def firstOf (nType : UInt32) (notes : List Note) : Option Note :=
  notes.find? fun note => note = Note.core nType note.desc

section First

variable {inputs : CoreInputs arch} {prstatus : Prstatus arch} {maxLength : UInt64} {nType : UInt32}

theorem firstOf_append (first rest : List Note) :
    firstOf nType (first ++ rest) = (firstOf nType first).or (firstOf nType rest) := List.find?_append

theorem firstOf_core (other : UInt32) (desc : Bytes) (rest : List Note) :
    firstOf nType (Note.core other desc :: rest) =
      if other = nType then some (Note.core other desc) else firstOf nType rest := by
  by_cases same : other = nType
  · subst same
    rw [if_pos rfl]
    exact List.find?_cons_of_pos (p := fun note => decide (note = Note.core other note.desc)) (decide_eq_true rfl)
  · have differs : ¬ Note.core other desc = Note.core nType desc := by
      intro equal
      exact same (congrArg Note.nType equal)
    rw [if_neg same, firstOf, List.find?_cons_of_neg (by simpa [Note.core] using differs)]
    rfl

/-- Threads have status records and floating point registers, of which the first counts. -/
theorem firstOf_threads (threads : List (ThreadState arch)) :
    firstOf nType (threads.flatMap (notesOn prstatus)) =
      if nType = ntPrstatus ∨ nType = ntPrfpreg then
        threads.head?.bind fun thread => firstOf nType (notesOn prstatus thread)
      else none := by
  induction threads with
  | nil => simp [firstOf]
  | cons thread rest ih =>
      rw [List.flatMap_cons, firstOf_append, List.head?_cons, Option.bind_some]
      by_cases registers : nType = ntPrstatus ∨ nType = ntPrfpreg
      · rw [if_pos registers]
        have here : (firstOf nType (notesOn prstatus thread)).isSome := by
          rcases registers with rfl | rfl
          · simp [notesOn, firstOf_core]
          · simp [notesOn, firstOf_core, ntPrstatus, ntPrfpreg]
        exact Option.or_of_isSome here
      · rw [if_neg registers] at ih ⊢
        obtain ⟨noStatus, noRegisters⟩ := not_or.mp registers
        rw [ih, notesOn, firstOf_core, firstOf_core, if_neg (Ne.symm noStatus), if_neg (Ne.symm noRegisters)]
        rfl

theorem firstOf_auxv (differs : nType ≠ ntAuxv) : firstOf nType (auxvNotes inputs) = none := by
  unfold auxvNotes
  split
  · rfl
  · rw [firstOf_core, if_neg (Ne.symm differs)]
    rfl

/-- The order of the auxiliary vector and the threads does not matter. -/
theorem firstOf_swapped (threads : List (ThreadState arch)) :
    (firstOf nType (auxvNotes inputs)).or (firstOf nType (threads.flatMap (notesOn prstatus))) =
      (firstOf nType (threads.flatMap (notesOn prstatus))).or (firstOf nType (auxvNotes inputs)) := by
  by_cases auxv : nType = ntAuxv
  · have none : firstOf nType (threads.flatMap (notesOn prstatus)) = none := by
      rw [firstOf_threads, if_neg]
      rw [auxv]
      decide
    rw [none, Option.or_none, Option.none_or]
  · rw [firstOf_auxv auxv, Option.or_none, Option.none_or]

/-- A debugger takes the same thread as the one that crashed, and the same note of every
type but the status record. -/
theorem firstOf_reference (distinct : (inputs.threads.map ThreadState.pid).Nodup) :
    firstOf nType (referenceNotes inputs prstatus (callOf inputs prstatus maxLength)) =
      firstOf nType (notesWith inputs prstatus) := by
  have threads : firstOf nType ((callOrder (callOf inputs prstatus maxLength)).flatMap (notesOn prstatus)) =
      firstOf nType (inputs.threadOrder.flatMap (notesOn prstatus)) := by
    rw [firstOf_threads, firstOf_threads, callOrder_head distinct]
  have moved : ∀ later, (firstOf nType (auxvNotes inputs)).or
      ((firstOf nType (inputs.threadOrder.flatMap (notesOn prstatus))).or later) =
      (firstOf nType (inputs.threadOrder.flatMap (notesOn prstatus))).or
        ((firstOf nType (auxvNotes inputs)).or later) := by
    intro later
    rw [← Option.or_assoc, firstOf_swapped, Option.or_assoc]
  simp only [referenceNotes, notesWith, firstOf_append, threads, moved]

theorem firstOf_status (other : nType ≠ ntPrstatus) :
    firstOf nType (notesWith inputs prstatus) = firstOf nType inputs.noteList := by
  have registers : ∀ (status : Prstatus arch) thread,
      firstOf nType (notesOn status thread) = firstOf nType [Note.core ntPrfpreg (FpRegs.asBytes thread.fpregs)] := by
    intro status thread
    rw [notesOn, firstOf_core, if_neg (Ne.symm other)]
  have threads : firstOf nType (inputs.threadOrder.flatMap (notesOn prstatus)) =
      firstOf nType (inputs.threadOrder.flatMap (notesOn Prstatus.zeroed)) := by
    simp only [firstOf_threads, registers]
  rw [noteList_eq, notesWith, notesWith]
  simp only [firstOf_append, threads]

/-- The status record that comes first is that of the thread that crashed. -/
theorem firstOf_main {thread : ThreadState arch} (main : inputs.threads[inputs.main]? = some thread) :
    firstOf ntPrstatus (notesWith inputs prstatus) = some (Note.core ntPrstatus (statusOn prstatus thread).asBytes) := by
  have before : firstOf ntPrstatus (processNotes inputs) = none := by
    cases user : inputs.user <;>
      simp only [processNotes, user, Option.toList_none, Option.toList_some, List.map_nil, List.map_cons, firstOf_core,
        ntPrstatus, ntPrpsinfo, ntPrxreg] <;> rfl
  have threads : firstOf ntPrstatus (inputs.threadOrder.flatMap (notesOn prstatus)) =
      some (Note.core ntPrstatus (statusOn prstatus thread).asBytes) := by
    rw [firstOf_threads, if_pos (.inl rfl), CoreInputs.threadOrder, main, Option.toList_some, List.singleton_append,
      List.head?_cons, Option.bind_some, notesOn, firstOf_core, if_pos rfl]
  simp only [notesWith, firstOf_append, before, threads, Option.none_or, Option.some_or]

end First

end Corus.Reference
