import PcmWrapper.RepeatedLoads

/-!
# What a failed load leaves behind

`loadCounters` converts and merges the elements of a file one by one, and nothing takes the records
back that were merged when a later element does not convert. `precedingRecords` are these records,
and `state_after_loadCounters` says that a load merges exactly them, however it ends.

`unchanged_after_failure_iff` is the exact condition for a load that throws to leave the events of
all models as they are: its first element was the bad one, or no element was reached at all. What
the models get of the events, their names and codes, is the same in one more case: the model of the
load had the names of all preceding records already.
-/

set_option autoImplicit false
set_option relaxedAutoImplicit false

namespace PcmWrapper

open Library

/-! ### The records in front of a failure -/

/-- The records in front of the first element that does not convert. -/
def convertedBeforeFailure : List Json → List HwEvent
  | [] => []
  | element :: rest =>
    match convert element with
    | .ok counter => counter :: convertedBeforeFailure rest
    | .error _ => []

/-- The records a load of the file gets to. -/
def precedingRecords (env : Environment) (filePath : String) : List HwEvent :=
  convertedBeforeFailure ((fileElements env filePath).getD [])

/-- No element of the file converts before one fails: the file does not open, it does not parse, or
its first element does not convert. -/
def FailsFirst (env : Environment) (filePath : String) : Prop :=
  ∀ element rest, fileElements env filePath = some (element :: rest) →
    ∀ counter, convert element ≠ .ok counter

theorem precedingRecords_eq_nil_iff {env : Environment} {filePath : String} :
    precedingRecords env filePath = [] ↔ FailsFirst env filePath := by
  unfold precedingRecords FailsFirst
  cases fileElements env filePath with
  | none => simp [convertedBeforeFailure]
  | some elements =>
    cases elements with
    | nil => simp [convertedBeforeFailure]
    | cons element rest =>
      cases hconvert : convert element with
      | error cause => simp [convertedBeforeFailure, hconvert]
      | ok counter => simp [convertedBeforeFailure, hconvert]

/-- A preceding record is a record of the file. -/
theorem mem_records_of_mem_precedingRecords {env : Environment} {filePath : String}
    {counter : HwEvent} (h : counter ∈ precedingRecords env filePath) :
    counter ∈ records env filePath := by
  have hsubset : ∀ elements : List Json, convertedBeforeFailure elements ⊆
      elements.filterMap fun element ↦ (convert element).toOption := by
    intro elements
    induction elements with
    | nil => exact List.Subset.refl []
    | cons element rest ih =>
      cases hconvert : convert element with
      | error cause => simp [convertedBeforeFailure, hconvert]
      | ok counter =>
        simp only [convertedBeforeFailure, hconvert, List.filterMap_cons, Except.toOption]
        exact List.cons_subset_cons counter ih
  exact hsubset _ h

/-! ### What a load merges -/

/-- The loop merges the records in front of the first failure, however it ends. -/
theorem after_loadElements (cpuModel : ℤ) (elements : List Json)
    (m : Machine Event HwCounterJsonReader) : after ((loadElements cpuModel elements).run m) =
      ⟨m.state.addCounters (convertedBeforeFailure elements) cpuModel, m.trace⟩ := by
  induction elements generalizing m with
  | nil => rfl
  | cons element rest ih =>
    rw [loadElements]
    cases hconvert : convert element with
    | error cause =>
      rw [run_bind_of_error (run_fromExcept_error cause m), convertedBeforeFailure, hconvert]
      rfl
    | ok counter =>
      rw [run_bind_of_ok (run_fromExcept_ok counter m), run_bind_of_ok (run_modifyState _ m), ih,
        convertedBeforeFailure, hconvert]
      rfl

/-- A load merges the records it gets to, however it ends. -/
theorem state_after_loadCounters (handler : FatalHandler) (env : Environment) (filePath : String)
    (cpuModel : ℤ) (m : Machine Event HwCounterJsonReader) :
    (after ((loadCounters handler env filePath cpuModel).run m)).state =
      m.state.addCounters (precedingRecords env filePath) cpuModel := by
  unfold loadCounters precedingRecords fileElements
  cases hread : env.readFile filePath with
  | none =>
    simp only [EStateM.run_bind, run_handleFatalError]
    cases handler (cString ("Could not open file " ++ filePath)) <;> rfl
  | some text =>
    cases hparse : env.parseJson text with
    | error exception => simp [hparse, Except.toOption, convertedBeforeFailure,
        HwCounterJsonReader.addCounters]
    | ok j => simp [hparse, Except.toOption, after_loadElements]

/-- Merging any record at all changes the event its model gets for its name. -/
theorem getCounters_addCounters_eq_iff {reader : HwCounterJsonReader} {counters : List HwEvent}
    {cpuModel : ℤ} (hmodels : ∀ counter ∈ counters, counter.supportedCpuModels = []) :
    (∀ model event, event ∈ (reader.addCounters counters cpuModel).getCounters model ↔
      event ∈ reader.getCounters model) ↔ counters = [] := by
  constructor
  · intro hsame
    refine List.eq_nil_iff_forall_not_mem.mpr fun counter hcounter ↦ ?_
    obtain ⟨merged, hmerged, hname⟩ :=
      List.mem_map.mp (name_mem_addCounters reader cpuModel hmodels counter hcounter)
    -- the event the model gets for the name was there before the merge
    have hbefore := (HwCounterJsonReader.mem_getCounters.mp ((hsame _ _).mp hmerged)).1
    have hafter := (HwCounterJsonReader.mem_getCounters.mp hmerged).1
    rw [lookup_addCounters_eq_some hbefore] at hafter
    have hlists := congrArg HwEvent.supportedCpuModels (Option.some.inj hafter)
    have hnamed : namedCounters counters cpuModel merged.name = [] :=
      List.map_eq_nil_iff.mp (List.append_right_eq_self.mp hlists)
    have hmem : (counter, cpuModel) ∈ namedCounters counters cpuModel merged.name :=
      mem_namedCounters.mpr ⟨hcounter, rfl, hname.symm⟩
    rw [hnamed] at hmem
    exact List.not_mem_nil hmem
  · rintro rfl model event
    rfl

/-! ### The exact condition -/

/-- A load that throws has merged the records in front of the failure and nothing else. It leaves
the events of every model as they were exactly when no element of the file converts before one
fails, and the names and codes of every model exactly when the model of the load had the names of
these records. -/
theorem unchanged_after_failure_iff {handler : FatalHandler} {env : Environment}
    {filePath : String} {cpuModel : ℤ} {m m' : Machine Event HwCounterJsonReader}
    {exception : Exception}
    (hload : (loadCounters handler env filePath cpuModel).run m =
      .error (.thrown exception) m') :
    m'.state = m.state.addCounters (precedingRecords env filePath) cpuModel ∧
    ((∀ model event, event ∈ m'.state.getCounters model ↔ event ∈ m.state.getCounters model) ↔
      FailsFirst env filePath) ∧
    ((∀ model, encodings m'.state model = encodings m.state model) ↔
      ∀ counter ∈ precedingRecords env filePath,
        counter.name ∈ (m.state.getCounters cpuModel).map HwEvent.name) := by
  have hstate := state_after_loadCounters handler env filePath cpuModel m
  rw [hload, after_error] at hstate
  have hmodels : ∀ counter ∈ precedingRecords env filePath, counter.supportedCpuModels = [] :=
    fun _ hcounter ↦
      supportedCpuModels_of_mem_records (mem_records_of_mem_precedingRecords hcounter)
  rw [hstate, ← precedingRecords_eq_nil_iff]
  exact ⟨rfl, getCounters_addCounters_eq_iff hmodels, encodings_addCounters_eq_iff hmodels⟩

/-- A file whose first record has an umask that is no number. -/
def brokenFirstExcerpt : ExcerptFile where
  filePath := "db/broken_first.json"
  records := [
    excerptRecord "MEM_LOAD_UOPS_RETIRED.L1_MISS" "0xD1" "xyz" "0",
    excerptRecord "DTLB_LOAD_MISSES.WALK_COMPLETED" "0x08" "0x0e" "0"]

/-- A file whose second record has an umask that is no number. -/
def brokenSecondExcerpt : ExcerptFile where
  filePath := "db/broken_second.json"
  records := [
    excerptRecord "DTLB_LOAD_MISSES.WALK_COMPLETED" "0x08" "0x0e" "0",
    excerptRecord "MEM_LOAD_UOPS_RETIRED.L1_MISS" "0xD1" "xyz" "0"]

def brokenFiles : Environment := .ofExcerpts [brokenFirstExcerpt, brokenSecondExcerpt]

/-- A load that fails on its first record leaves all events as they are. -/
theorem unchanged_after_failure_brokenFirst :
    let m := after ((loadCounters defaultFatalHandler brokenFiles
      brokenFirstExcerpt.filePath 60).run (.fresh .empty))
    ∀ model event, event ∈ m.state.getCounters model ↔
      event ∈ HwCounterJsonReader.empty.getCounters model := by
  intro m
  have hload : (loadCounters defaultFatalHandler brokenFiles
      brokenFirstExcerpt.filePath 60).run (.fresh .empty) =
      .error (.thrown (.invalidArgument "stoi")) m := eq_error_of_thrown (by decide +kernel)
  refine (unchanged_after_failure_iff hload).2.1.mpr (precedingRecords_eq_nil_iff.mp ?_)
  decide +kernel

/-- A load that fails on its second record gives its model the event of the first. -/
theorem brokenSecond_merges_first : ∃ exception m',
    (loadCounters defaultFatalHandler brokenFiles
      brokenSecondExcerpt.filePath 60).run (.fresh .empty) = .error (.thrown exception) m' ∧
    ¬ ∀ model event, event ∈ m'.state.getCounters model ↔
      event ∈ HwCounterJsonReader.empty.getCounters model := by
  refine ⟨.invalidArgument "stoi", _, eq_error_of_thrown (by decide +kernel), fun hsame ↦ ?_⟩
  have hevent := (hsame 60 ⟨0x08, 0x0e, "DTLB_LOAD_MISSES.WALK_COMPLETED", [60]⟩).mp
    (by decide +kernel)
  exact absurd hevent (by decide +kernel)

end PcmWrapper
