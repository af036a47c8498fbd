import Mathlib.Data.List.FinRange
import PcmWrapper.CounterRecorder
import PcmWrapper.Library.Interleaving
import PcmWrapper.PcmContext

/-!
# Printing from several threads

At the end of `work` every thread prints its core, the header and its rows, in a block of its own
that begins with `std::lock_guard<std::mutex> lock_guard(mutex);`. The mutex of the program is
called `mtx`. The name `mutex` is that of the type `std::mutex`, so the statement declares a
function `lock_guard` that takes a mutex and returns a guard, and the block holds no mutex at all.

With that, the output consists of whole blocks under every schedule exactly when there is at most
one thread (`blockwise_workGuard_iff`). A guard object would have been enough for any number of them
(`blockwise_guardObject`).
-/

set_option autoImplicit false
set_option relaxedAutoImplicit false

namespace PcmWrapper

open Library

/-- A thread in `work` when it comes to its printing block. -/
structure Worker where
  core : ℕ
  recorder : CounterRecorder

/-- The insertions of `operator<<` for a recorder. -/
def CounterRecorder.insertions (recorder : CounterRecorder) : List Text :=
  match print.run (.fresh recorder) with
  | .ok insertions _ => insertions
  | .error _ _ => []

/-- The insertions of the printing block, one for each `<<`. -/
def blockInsertions (header : EventHeader) (worker : Worker) : List Text :=
  ["core: ".toList, decimal worker.core, endl] ++ (header.insertions ++ [endl]) ++
    (worker.recorder.insertions ++ [endl])

/-- What the statement at the start of a block can be. -/
inductive GuardStatement
  | functionDeclaration
  | guardObject
  deriving DecidableEq

/-- The steps of a block behind such a statement. A declaration does nothing; an object acquires the
mutex and releases it at the end of the block. -/
def GuardStatement.steps : GuardStatement → List Text → List (Step Text)
  | .functionDeclaration, insertions => unguarded insertions
  | .guardObject, insertions => guarded insertions

/-- The statement in `work`, where `mutex` is a type. -/
def workGuard : GuardStatement := .functionDeclaration

/-- The threads at their printing blocks. -/
def startWorkers (guard : GuardStatement) (header : EventHeader) (workers : List Worker) :
    Threads (Fin workers.length) Text :=
  .start fun i ↦ guard.steps (blockInsertions header workers[i])

/-- What has been written to the standard output. -/
def standardOutput {ι : Type} (threads : Threads ι Text) : Text :=
  (threads.output.map Prod.snd).flatten

/-- The text of a whole block. -/
def blockText (header : EventHeader) (worker : Worker) : Text :=
  (blockInsertions header worker).flatten

/-- Under every schedule, the output consists of the whole blocks of the threads in some order. -/
def Blockwise (guard : GuardStatement) (header : EventHeader) (workers : List Worker) : Prop :=
  ∀ schedule final, runSchedule schedule (startWorkers guard header workers) = some final →
    final.Finished → ∃ order : List Worker, order.Perm workers ∧
      standardOutput final = order.flatMap (blockText header)

section Blocks

variable {header : EventHeader} {workers : List Worker}

/-- The text of an output that consists of whole blocks. -/
theorem flatten_flatMap_blockInsertions (order : List (Fin workers.length)) :
    ((order.flatMap fun i ↦ (blockInsertions header workers[i]).map (i, ·)).map Prod.snd).flatten =
      (order.map fun i ↦ workers[i]).flatMap (blockText header) := by
  induction order with
  | nil => rfl
  | cons i order ih =>
    rw [List.flatMap_cons, List.map_append, List.flatten_append, ih, List.map_cons,
      List.flatMap_cons, blockText, List.map_map]
    exact congrArg (·.flatten ++ _) (List.map_id _)

/-- With a guard object, the output consists of whole blocks. -/
theorem blockwise_guardObject (header : EventHeader) (workers : List Worker) :
    Blockwise .guardObject header workers := by
  intro schedule final hrun hfinished
  obtain ⟨order, hnodup, hall, houtput⟩ := exists_order_of_guarded hrun hfinished
  have htext : standardOutput final =
      (order.map fun i ↦ workers[i]).flatMap (blockText header) := by
    rw [standardOutput, houtput]
    exact flatten_flatMap_blockInsertions order
  refine ⟨order.map fun i ↦ workers[i], ?_, htext⟩
  have hperm : order.Perm (List.finRange workers.length) :=
    (List.perm_ext_iff_of_nodup hnodup (List.nodup_finRange _)).mpr fun i ↦
      ⟨fun _ ↦ List.mem_finRange i, fun _ ↦ hall i⟩
  have hworkers := hperm.map fun i : Fin workers.length ↦ workers[i]
  rwa [show (List.finRange workers.length).map (fun i ↦ workers[i]) = workers from
    List.map_getElem_finRange workers] at hworkers

/-- Without threads there is no output. -/
theorem blockwise_nil (header : EventHeader) : Blockwise .functionDeclaration header [] := by
  intro schedule final hrun hfinished
  have hempty : final.output = [] :=
    List.eq_nil_iff_forall_not_mem.mpr fun entry _ ↦ entry.1.elim0
  refine ⟨[], List.Perm.refl _, ?_⟩
  rw [standardOutput, hempty]
  rfl

/-- A single thread prints its block. -/
theorem blockwise_singleton (header : EventHeader) (worker : Worker) :
    Blockwise .functionDeclaration header [worker] := by
  intro schedule final hrun hfinished
  have hput : final.putBy ⟨0, Nat.zero_lt_one⟩ = blockInsertions header worker :=
    putBy_of_unguarded hrun hfinished ⟨0, Nat.zero_lt_one⟩
  have hall : final.output.filter (fun entry ↦ entry.1 = ⟨0, Nat.zero_lt_one⟩) =
      final.output :=
    List.filter_eq_self.mpr fun entry _ ↦ decide_eq_true (Fin.ext (Nat.lt_one_iff.mp entry.1.isLt))
  rw [Threads.putBy, hall] at hput
  refine ⟨[worker], List.Perm.refl _, ?_⟩
  rw [standardOutput, hput, List.flatMap_singleton, blockText]

/-- What the text of a block begins with. -/
theorem blockText_eq (header : EventHeader) (worker : Worker) :
    ∃ rest, blockText header worker = "core: ".toList ++ (decimal worker.core ++ rest) :=
  ⟨_, rfl⟩

/-- Without the mutex two threads can begin with their first texts, and then the output does not
consist of whole blocks: what follows the first `core: ` is not a number. -/
theorem not_blockwise_of_two (header : EventHeader) (first second : Worker)
    (workers : List Worker) :
    ¬ Blockwise .functionDeclaration header (first :: second :: workers) := by
  intro hblockwise
  let block : Fin (first :: second :: workers).length → List Text :=
    fun i ↦ blockInsertions header (first :: second :: workers)[i]
  have hfirst : block 0 = "core: ".toList :: (blockInsertions header first).tail := rfl
  have hsecond : block 1 = "core: ".toList :: (blockInsertions header second).tail := rfl
  have hne : (1 : Fin (first :: second :: workers).length) ≠ 0 := Fin.ne_of_val_ne Nat.one_ne_zero
  obtain ⟨schedule, final, hrun, hfinished, later, houtput⟩ :=
    exists_finished_of_two List.mem_finRange block hne hfirst hsecond
  obtain ⟨order, hperm, htext⟩ := hblockwise schedule final hrun hfinished
  have hwritten : standardOutput final =
      "core: ".toList ++ ("core: ".toList ++ (later.map Prod.snd).flatten) := by
    rw [standardOutput, houtput]
    rfl
  obtain ⟨worker, others, rfl⟩ : ∃ worker others, order = worker :: others :=
    List.exists_cons_of_ne_nil fun hnil ↦ by
      rw [hnil] at hperm
      exact absurd hperm.length_eq (Nat.succ_ne_zero _).symm
  obtain ⟨rest, hblock⟩ := blockText_eq header worker
  rw [hwritten, List.flatMap_cons, hblock, List.append_assoc, List.append_assoc] at htext
  obtain ⟨digit, digits, hdecimal⟩ := List.exists_cons_of_ne_nil (decimal_ne_nil worker.core)
  have hdigit : digit.isDigit := isDigit_of_mem_decimal (hdecimal ▸ List.mem_cons_self)
  have hsame := List.append_cancel_left htext
  rw [hdecimal] at hsame
  have hc : 'c' = digit := (List.cons.inj hsame).1
  rw [← hc] at hdigit
  exact absurd hdigit (by decide)

/-- The output consists of the whole blocks of the threads under every schedule exactly when there
is at most one thread. -/
theorem blockwise_workGuard_iff (header : EventHeader) (workers : List Worker) :
    Blockwise workGuard header workers ↔ workers.length ≤ 1 := by
  constructor
  · intro hblockwise
    match workers with
    | [] => exact Nat.zero_le 1
    | [_] => exact Nat.le_refl 1
    | first :: second :: rest =>
      exact absurd hblockwise (not_blockwise_of_two header first second rest)
  · intro hlength
    match workers with
    | [] => exact blockwise_nil header
    | [worker] => exact blockwise_singleton header worker
    | _ :: _ :: _ => exact absurd hlength (by simp)

end Blocks

/-- A thread on a core after one measurement. -/
def recordedWorker (core : ℕ) : Worker where
  core := core
  recorder := (after ((recordCounter defaultFatalHandler ⟨fun _ ↦ 7, 11, 13⟩).run
    (.fresh (.make 1000 .four)))).state

/-- The threads of two cores may mix their blocks. -/
theorem not_blockwise_two_cores :
    ¬ Blockwise workGuard ⟨initialEvents⟩ [recordedWorker 4, recordedWorker 5] :=
  not_blockwise_of_two ⟨initialEvents⟩ (recordedWorker 4) (recordedWorker 5) []

end PcmWrapper
