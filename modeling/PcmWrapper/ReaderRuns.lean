import PcmWrapper.DirectoryLoads

/-!
# Runs of a reader

A reader can be given any number of files and directories, and its caller may go on behind a load
that throws. `ReaderCall` is such a load and `ReaderCall.reached` the records it gets to, which are
all of the load when it succeeds and those in front of the failure when it does not.

`getCounters_after_run` says what a CPU model gets after any run of such calls, however they end:
one event for each name that a record was reached of for the model, with the codes of the first
record of that name that was reached for any model. So nothing that fails takes anything back, and
nothing is made up.
-/

set_option autoImplicit false
set_option relaxedAutoImplicit false

namespace PcmWrapper

open Library

variable {handler : FatalHandler} {env : Environment} {enumValue : SupportedCPUModel → ℤ}

/-- The loads of a reader, a directory with its listing. -/
inductive ReaderCall
  | loadCounters (filePath : String) (cpuModel : ℤ)
  | loadFromDirectory (directory : String) (listing : Option (List Dirent))

/-- Make a call. -/
def ReaderCall.perform (handler : FatalHandler) (env : Environment)
    (enumValue : SupportedCPUModel → ℤ) : ReaderCall → Program HwCounterJsonReader Unit
  | .loadCounters filePath cpuModel => PcmWrapper.loadCounters handler env filePath cpuModel
  | .loadFromDirectory directory listing =>
    PcmWrapper.loadFromDirectory handler env enumValue directory listing

/-- The records a call gets to, with the CPU models it reads them for. -/
def ReaderCall.reached (env : Environment) (enumValue : SupportedCPUModel → ℤ) :
    ReaderCall → List (HwEvent × ℤ)
  | .loadCounters filePath cpuModel => (precedingRecords env filePath).map (·, cpuModel)
  | .loadFromDirectory directory listing =>
    reachedRecords env enumValue directory (listing.getD [])

/-- A call merges the records it gets to, however it ends. Assumes: the CPU models of PCM have no
negative numbers. -/
theorem hwCounters_after_perform (henum : ∀ cpuModel, 0 ≤ enumValue cpuModel) (call : ReaderCall)
    (m : Machine Event HwCounterJsonReader) :
    (after ((call.perform handler env enumValue).run m)).state.hwCounters =
      (call.reached env enumValue).foldl (upsert mergeKey mergeCreate mergeExtend)
        m.state.hwCounters := by
  cases call with
  | loadCounters filePath cpuModel =>
    rw [ReaderCall.perform, state_after_loadCounters, HwCounterJsonReader.hwCounters_addCounters]
    rfl
  | loadFromDirectory directory listing =>
    exact hwCounters_after_loadFromDirectory handler env directory henum listing m

/-! ### Records come from files -/

/-- A record that a call gets to is one of a file, and has no CPU models of its own. -/
theorem supportedCpuModels_of_mem_reached {call : ReaderCall} {record : HwEvent × ℤ}
    (h : record ∈ call.reached env enumValue) : record.1.supportedCpuModels = [] := by
  have hfile : ∀ {filePath cpuModel}, record ∈ (precedingRecords env filePath).map (·, cpuModel) →
      record.1.supportedCpuModels = [] := by
    intro filePath cpuModel hrecord
    obtain ⟨counter, hcounter, rfl⟩ := List.mem_map.mp hrecord
    exact supportedCpuModels_of_mem_records (mem_records_of_mem_precedingRecords hcounter)
  cases call with
  | loadCounters filePath cpuModel => exact hfile h
  | loadFromDirectory directory listing =>
    rw [ReaderCall.reached] at h
    generalize listing.getD [] = entries at h
    induction entries with
    | nil => cases h
    | cons ent entries ih =>
      rw [reachedRecords, List.mem_append] at h
      rcases h with hent | hentries
      · rw [entryRecords] at hent
        split_ifs at hent
        · obtain ⟨load, -, hload⟩ := List.mem_flatMap.mp hent
          exact hfile hload
        · cases hent
      · split_ifs at hentries
        · exact ih hentries
        · cases hentries

/-- What a map of merged records has under a name: the codes of the first record of that name, and
the models of all of them. Assumes: the records have no models of their own. -/
theorem lookup_merged_eq_some {records : List (HwEvent × ℤ)}
    (hmodels : ∀ record ∈ records, record.1.supportedCpuModels = []) {name : String}
    {event : HwEvent} :
    (records.foldl (upsert mergeKey mergeCreate mergeExtend) ∅).lookup name = some event ↔
      ∃ first later, records.filter (mergeKey · = name) = first :: later ∧
        event = mergedEvent first later := by
  rw [lookup_foldl_upsert_empty_eq_some]
  refine exists_congr fun first ↦ exists_congr fun later ↦ and_congr_right fun hnamed ↦ ?_
  have hfirst : first ∈ records.filter (mergeKey · = name) := hnamed ▸ List.mem_cons_self
  have hvalue : later.foldl mergeExtend (mergeCreate first) = mergedEvent first later := by
    rw [foldl_mergeExtend, mergeCreate, HwEvent.addSupportedCpuModel,
      hmodels first (List.mem_filter.mp hfirst).1]
    rfl
  rw [hvalue]

/-! ### Whole runs -/

/-- A run of loads of files and directories performs its calls up to some point, all of them unless
the process ends. Then a CPU model gets an event exactly when a record of its name was reached for
the model, and the event has the codes of the first record of that name that was reached. This is so
whichever of the loads failed, and whatever the handler does. Assumes: the CPU models of PCM have no
negative numbers. -/
theorem getCounters_after_run (handler : FatalHandler) (env : Environment)
    (henum : ∀ cpuModel, 0 ≤ enumValue cpuModel) (calls : List ReaderCall) :
    let run := (runCalls (ReaderCall.perform handler env enumValue) calls).run (.fresh .empty)
    ∃ performed, performed <+: calls ∧ (returned run = true → performed = calls) ∧
      ∀ cpuModel event, event ∈ (after run).state.getCounters cpuModel ↔
        ∃ first later, (performed.flatMap (ReaderCall.reached env enumValue)).filter
            (mergeKey · = event.name) = first :: later ∧
          event = mergedEvent first later ∧ cpuModel ∈ (first :: later).map Prod.snd := by
  intro run
  have hstep : ∀ (call : ReaderCall) (m : Machine Event HwCounterJsonReader) performed,
      m.state.hwCounters = (performed.flatMap (ReaderCall.reached env enumValue)).foldl
        (upsert mergeKey mergeCreate mergeExtend) ∅ →
      (after ((call.perform handler env enumValue).run m)).state.hwCounters =
        ((performed ++ [call]).flatMap (ReaderCall.reached env enumValue)).foldl
          (upsert mergeKey mergeCreate mergeExtend) ∅ := by
    intro call m performed hm
    rw [hwCounters_after_perform henum, hm, List.flatMap_append, List.foldl_append,
      List.flatMap_singleton]
  have hempty : (Machine.fresh .empty : Machine Event HwCounterJsonReader).state.hwCounters =
      (([] : List ReaderCall).flatMap (ReaderCall.reached env enumValue)).foldl
        (upsert mergeKey mergeCreate mergeExtend) ∅ := rfl
  obtain ⟨performed, hprefix, hall, hcounters⟩ :=
    exists_performed_of_runCalls hstep calls hempty
  rw [List.nil_append] at hcounters
  have hmodels : ∀ record ∈ performed.flatMap (ReaderCall.reached env enumValue),
      record.1.supportedCpuModels = [] := by
    intro record hrecord
    obtain ⟨call, -, hcall⟩ := List.mem_flatMap.mp hrecord
    exact supportedCpuModels_of_mem_reached hcall
  refine ⟨performed, hprefix, hall, fun cpuModel event ↦ ?_⟩
  rw [HwCounterJsonReader.mem_getCounters, hcounters, lookup_merged_eq_some hmodels]
  constructor
  · rintro ⟨⟨first, later, hnamed, hevent⟩, hsupports⟩
    refine ⟨first, later, hnamed, hevent, ?_⟩
    rw [hevent, HwEvent.supports, List.contains_iff_mem] at hsupports
    exact hsupports
  · rintro ⟨first, later, hnamed, hevent, hmodel⟩
    refine ⟨⟨first, later, hnamed, hevent⟩, ?_⟩
    rw [hevent, HwEvent.supports, List.contains_iff_mem]
    exact hmodel

/-- A directory with a database that breaks off at its second record. -/
def brokenListing : List Dirent :=
  [⟨.regular, "broken_second.json".toList, by decide, by decide⟩,
    ⟨.regular, "haswell_second.json".toList, by decide, by decide⟩,
    ⟨.regular, "ivybridge_core_v19.json".toList, by decide, by decide⟩]

/-- The same broken file, under a name that has a CPU model. -/
def brokenHaswellExcerpt : ExcerptFile :=
  { brokenSecondExcerpt with filePath := "db/haswell_second.json" }

/-- The record in front of the broken one stays, the directory is gone through no further, and a
database that is loaded later gets the codes that are there already. -/
theorem getCounters_after_brokenListing :
    let env := Environment.ofExcerpts [brokenHaswellExcerpt, ivybridgeExcerpt, skylakeExcerpt]
    let calls := [.loadFromDirectory "db" (some brokenListing),
      .loadCounters skylakeExcerpt.filePath 94]
    let run := (runCalls (ReaderCall.perform defaultFatalHandler env pcmNumber) calls).run
      (.fresh .empty)
    (⟨0x08, 0x0e, "DTLB_LOAD_MISSES.WALK_COMPLETED", [60, 94]⟩ : HwEvent) ∈
      (after run).state.getCounters 94 := by
  intro env calls run
  have hreturned : returned run = true := by decide +kernel
  obtain ⟨performed, -, hall, hcounters⟩ :=
    getCounters_after_run defaultFatalHandler env pcmNumber_nonneg calls
  rw [hall hreturned] at hcounters
  refine (hcounters 94 _).mpr ⟨(⟨0x08, 0x0e, "DTLB_LOAD_MISSES.WALK_COMPLETED", []⟩, 60),
    [(⟨0x08, 0x0E, "DTLB_LOAD_MISSES.WALK_COMPLETED", []⟩, 94)], ?_, ?_⟩
  · decide +kernel
  · decide +kernel

end PcmWrapper
