import PcmWrapper.DatabaseEncodings

/-!
# What one more load changes

All CPU models share one map, and a load changes entries that other models get as well. What a model
gets, its names and codes, is nevertheless changed by its own loads alone: a record whose name is
there adds nothing but its model to the event, and a record whose name is new creates an event for
its model only. `lookup_addCounters_of_some` and `lookup_addCounters_of_none` say so for the merge
of any records into any reader, and `encodings_after_load` collects what follows for a load: other
models keep what they get, the model itself loses nothing and gains names of the file only, and the
same load once more changes nothing.
-/

set_option autoImplicit false
set_option relaxedAutoImplicit false

namespace PcmWrapper

open Library

/-- A model gets an encoding when the event stored under its name has it and supports the model. -/
theorem mem_encodings {reader : HwCounterJsonReader} {cpuModel : ℤ} {encoding : String × ℤ × ℤ} :
    encoding ∈ encodings reader cpuModel ↔ ∃ event,
      reader.hwCounters.lookup encoding.1 = some event ∧ event.encoding = encoding ∧
        event.supports cpuModel := by
  constructor
  · rintro ⟨event, hevent, rfl⟩
    obtain ⟨hlookup, hsupports⟩ := HwCounterJsonReader.mem_getCounters.mp hevent
    exact ⟨event, hlookup, rfl, hsupports⟩
  · rintro ⟨event, hlookup, rfl, hsupports⟩
    exact ⟨event, HwCounterJsonReader.mem_getCounters.mpr ⟨hlookup, hsupports⟩, rfl⟩

section Merge

variable {reader : HwCounterJsonReader} {counters : List HwEvent} {cpuModel : ℤ} {name : String}

/-- The records of one name, for the model they are loaded for. -/
def namedCounters (counters : List HwEvent) (cpuModel : ℤ) (name : String) :
    List (HwEvent × ℤ) :=
  (counters.map (·, cpuModel)).filter (mergeKey · = name)

theorem mem_namedCounters {record : HwEvent × ℤ} :
    record ∈ namedCounters counters cpuModel name ↔
      record.1 ∈ counters ∧ record.2 = cpuModel ∧ record.1.name = name := by
  obtain ⟨counter, model⟩ := record
  simp [namedCounters, mergeKey, and_assoc, eq_comm]

/-- What a name is stored for after a merge comes from its own records. -/
theorem lookup_addCounters : (reader.addCounters counters cpuModel).hwCounters.lookup name =
    (namedCounters counters cpuModel name).foldl (absorb mergeCreate mergeExtend)
      (reader.hwCounters.lookup name) := by
  rw [HwCounterJsonReader.hwCounters_addCounters, lookup_foldl_upsert]
  rfl

/-- Records of other names leave the event of a name as it is. -/
theorem lookup_addCounters_of_forall_ne (hnames : ∀ counter ∈ counters, counter.name ≠ name) :
    (reader.addCounters counters cpuModel).hwCounters.lookup name =
      reader.hwCounters.lookup name := by
  have hnone : namedCounters counters cpuModel name = [] := by
    refine List.eq_nil_iff_forall_not_mem.mpr fun record hrecord ↦ ?_
    obtain ⟨hcounter, _, hname⟩ := mem_namedCounters.mp hrecord
    exact hnames record.1 hcounter hname
  rw [lookup_addCounters, hnone, List.foldl_nil]

/-- An event that is there is stored again, with the model of the load once more for each record of
its name. -/
theorem lookup_addCounters_eq_some {event : HwEvent}
    (h : reader.hwCounters.lookup name = some event) :
    (reader.addCounters counters cpuModel).hwCounters.lookup name =
      some { event with supportedCpuModels := event.supportedCpuModels ++
        (namedCounters counters cpuModel name).map Prod.snd } := by
  rw [lookup_addCounters, h, foldl_absorb_some, foldl_mergeExtend]

/-- An event that is there keeps its codes, and gains the model when one of the records has its
name. -/
theorem lookup_addCounters_of_some {event : HwEvent}
    (h : reader.hwCounters.lookup name = some event) (counters : List HwEvent) (cpuModel : ℤ) :
    ∃ merged,
      (reader.addCounters counters cpuModel).hwCounters.lookup name = some merged ∧
      merged.encoding = event.encoding ∧ ∀ other, merged.supports other ↔
        event.supports other ∨ other = cpuModel ∧ ∃ counter ∈ counters, counter.name = name := by
  refine ⟨_, lookup_addCounters_eq_some h, rfl, fun other ↦ ?_⟩
  simp only [HwEvent.supports, List.contains_iff_mem, List.mem_append, List.mem_map,
    mem_namedCounters]
  refine or_congr_right ⟨?_, ?_⟩
  · rintro ⟨record, ⟨hcounter, hmodel, hname⟩, rfl⟩
    exact ⟨hmodel, record.1, hcounter, hname⟩
  · rintro ⟨rfl, counter, hcounter, hname⟩
    exact ⟨(counter, other), ⟨hcounter, rfl, hname⟩, rfl⟩

/-- A name that is new is stored with its first record, and the models of all its records. -/
theorem lookup_addCounters_of_cons {first : HwEvent × ℤ} {later : List (HwEvent × ℤ)}
    (h : reader.hwCounters.lookup name = none)
    (hnamed : namedCounters counters cpuModel name = first :: later) :
    (reader.addCounters counters cpuModel).hwCounters.lookup name =
      some { mergeCreate first with supportedCpuModels :=
        (mergeCreate first).supportedCpuModels ++ later.map Prod.snd } := by
  rw [lookup_addCounters, h, hnamed, ← foldl_mergeExtend, ← foldl_absorb_some mergeCreate]
  rfl

/-- A name that is new is stored for the model of the load alone. -/
theorem lookup_addCounters_of_none (cpuModel : ℤ) (h : reader.hwCounters.lookup name = none)
    (hmodels : ∀ counter ∈ counters, counter.supportedCpuModels = [])
    (hname : ∃ counter ∈ counters, counter.name = name) : ∃ merged,
      (reader.addCounters counters cpuModel).hwCounters.lookup name = some merged ∧
      ∀ other, merged.supports other ↔ other = cpuModel := by
  obtain ⟨counter, hcounter, hcounterName⟩ := hname
  have hmem : (counter, cpuModel) ∈ namedCounters counters cpuModel name :=
    mem_namedCounters.mpr ⟨hcounter, rfl, hcounterName⟩
  cases hnamed : namedCounters counters cpuModel name with
  | nil =>
    rw [hnamed] at hmem
    exact absurd hmem List.not_mem_nil
  | cons first later =>
    have hmodel : ∀ record ∈ first :: later, record.2 = cpuModel := fun record hrecord ↦
      (mem_namedCounters.mp (hnamed ▸ hrecord)).2.1
    have hfirst : first.1.supportedCpuModels = [] :=
      hmodels _ (mem_namedCounters.mp (hnamed ▸ List.mem_cons_self)).1
    refine ⟨_, lookup_addCounters_of_cons h hnamed, fun other ↦ ?_⟩
    simp only [HwEvent.supports, mergeCreate, HwEvent.addSupportedCpuModel, hfirst,
      List.contains_iff_mem, List.nil_append, List.mem_append, List.mem_singleton, List.mem_map]
    constructor
    · rintro (rfl | ⟨record, hrecord, rfl⟩)
      · exact hmodel first List.mem_cons_self
      · exact hmodel record (List.mem_cons_of_mem _ hrecord)
    · rintro rfl
      exact .inl (hmodel first List.mem_cons_self).symm

/-- Another model gets the same after a merge. -/
theorem encodings_addCounters_of_ne
    (hmodels : ∀ counter ∈ counters, counter.supportedCpuModels = []) {other : ℤ}
    (hother : other ≠ cpuModel) :
    encodings (reader.addCounters counters cpuModel) other = encodings reader other := by
  ext encoding
  rw [mem_encodings, mem_encodings]
  cases hlookup : reader.hwCounters.lookup encoding.1 with
  | some event =>
    obtain ⟨merged, hmerged, hcodes, hsupports⟩ :=
      lookup_addCounters_of_some hlookup counters cpuModel
    simp [hmerged, hcodes, hsupports, hother]
  | none =>
    by_cases hname : ∃ counter ∈ counters, counter.name = encoding.1
    · obtain ⟨merged, hmerged, hsupports⟩ :=
        lookup_addCounters_of_none cpuModel hlookup hmodels hname
      simp [hmerged, hsupports, hother]
    · have hnames : ∀ counter ∈ counters, counter.name ≠ encoding.1 := fun counter hcounter heq ↦
        hname ⟨counter, hcounter, heq⟩
      rw [lookup_addCounters_of_forall_ne hnames, hlookup]

/-- What a model gets is not lost in a merge. -/
theorem encodings_subset_addCounters (reader : HwCounterJsonReader) (counters : List HwEvent)
    (cpuModel other : ℤ) :
    encodings reader other ⊆ encodings (reader.addCounters counters cpuModel) other := by
  intro encoding hencoding
  obtain ⟨event, hlookup, hcodes, hsupports⟩ := mem_encodings.mp hencoding
  obtain ⟨merged, hmerged, hmergedCodes, hmergedSupports⟩ :=
    lookup_addCounters_of_some hlookup counters cpuModel
  exact mem_encodings.mpr
    ⟨merged, hmerged, hmergedCodes.trans hcodes, (hmergedSupports other).mpr (.inl hsupports)⟩

/-- What a model gains in a merge has the name of a record. -/
theorem exists_counter_of_mem_encodings_addCounters {other : ℤ} {encoding : String × ℤ × ℤ}
    (hafter : encoding ∈ encodings (reader.addCounters counters cpuModel) other)
    (hbefore : encoding ∉ encodings reader other) :
    ∃ counter ∈ counters, counter.name = encoding.1 := by
  by_contra hname
  have hnames : ∀ counter ∈ counters, counter.name ≠ encoding.1 := fun counter hcounter heq ↦
    hname ⟨counter, hcounter, heq⟩
  rw [mem_encodings, lookup_addCounters_of_forall_ne hnames, ← mem_encodings] at hafter
  exact hbefore hafter

/-- The model has the names of the records after a merge. -/
theorem name_mem_addCounters (reader : HwCounterJsonReader) (cpuModel : ℤ)
    (hmodels : ∀ counter ∈ counters, counter.supportedCpuModels = []) :
    ∀ counter ∈ counters, counter.name ∈
      ((reader.addCounters counters cpuModel).getCounters cpuModel).map HwEvent.name := by
  intro counter hcounter
  have hname : ∃ other ∈ counters, other.name = counter.name := ⟨counter, hcounter, rfl⟩
  have hstored : ∃ merged, (reader.addCounters counters cpuModel).hwCounters.lookup counter.name =
      some merged ∧ merged.supports cpuModel := by
    cases hlookup : reader.hwCounters.lookup counter.name with
    | some event =>
      obtain ⟨merged, hmerged, _, hsupports⟩ :=
        lookup_addCounters_of_some hlookup counters cpuModel
      exact ⟨merged, hmerged, (hsupports cpuModel).mpr (.inr ⟨rfl, hname⟩)⟩
    | none =>
      obtain ⟨merged, hmerged, hsupports⟩ :=
        lookup_addCounters_of_none cpuModel hlookup hmodels hname
      exact ⟨merged, hmerged, (hsupports cpuModel).mpr rfl⟩
  obtain ⟨merged, hmerged, hsupports⟩ := hstored
  have hmergedName := HwCounterJsonReader.keyed _ _ _ hmerged
  refine List.mem_map.mpr ⟨merged, HwCounterJsonReader.mem_getCounters.mpr ⟨?_, hsupports⟩,
    hmergedName⟩
  rw [hmergedName]
  exact hmerged

/-- A merge gives no model anything else exactly when its model had all the names before. -/
theorem encodings_addCounters_eq_iff
    (hmodels : ∀ counter ∈ counters, counter.supportedCpuModels = []) :
    (∀ other, encodings (reader.addCounters counters cpuModel) other = encodings reader other) ↔
      ∀ counter ∈ counters, counter.name ∈ (reader.getCounters cpuModel).map HwEvent.name := by
  constructor
  · intro hsame counter hcounter
    obtain ⟨merged, hmerged, hname⟩ :=
      List.mem_map.mp (name_mem_addCounters reader cpuModel hmodels counter hcounter)
    have hencoding : merged.encoding ∈ encodings reader cpuModel := by
      rw [← hsame cpuModel]
      exact ⟨merged, hmerged, rfl⟩
    obtain ⟨event, hevent, hcodes⟩ := hencoding
    exact List.mem_map.mpr ⟨event, hevent, (congrArg Prod.fst hcodes).trans hname⟩
  · intro hnames other
    by_cases hother : other = cpuModel
    · subst hother
      refine Set.ext fun encoding ↦ ⟨fun hafter ↦ ?_, fun hbefore ↦
        encodings_subset_addCounters reader counters other other hbefore⟩
      by_contra hbefore
      obtain ⟨counter, hcounter, hname⟩ :=
        exists_counter_of_mem_encodings_addCounters hafter hbefore
      obtain ⟨event, hevent, heventName⟩ := List.mem_map.mp (hnames counter hcounter)
      obtain ⟨hlookup, hsupports⟩ := HwCounterJsonReader.mem_getCounters.mp hevent
      rw [heventName, hname] at hlookup
      obtain ⟨merged, hmerged, hcodes, _⟩ := lookup_addCounters_of_some hlookup counters other
      obtain ⟨stored, hstored, hstoredCodes, _⟩ := mem_encodings.mp hafter
      rw [hmerged] at hstored
      cases hstored
      exact hbefore
        (mem_encodings.mpr ⟨event, hlookup, hcodes.symm.trans hstoredCodes, hsupports⟩)
    · exact encodings_addCounters_of_ne hmodels hother

end Merge

/-- A load that succeeds, on whatever reader, leaves what other models get as it is. Its own model
keeps what it got and gains names of the file only. The same load succeeds again, and then no model
gets anything else. -/
theorem encodings_after_load {handler : FatalHandler} {env : Environment} {filePath : String}
    {cpuModel : ℤ} {m m' : Machine Event HwCounterJsonReader}
    (hload : (loadCounters handler env filePath cpuModel).run m = .ok () m') :
    (∀ other, other ≠ cpuModel → encodings m'.state other = encodings m.state other) ∧
    encodings m.state cpuModel ⊆ encodings m'.state cpuModel ∧
    (∀ encoding ∈ encodings m'.state cpuModel, encoding ∉ encodings m.state cpuModel →
      ∃ record ∈ records env filePath, record.name = encoding.1) ∧
    ∃ m'', (loadCounters handler env filePath cpuModel).run m' = .ok () m'' ∧
      ∀ other, encodings m''.state other = encodings m'.state other := by
  obtain ⟨hloadable, rfl⟩ := run_loadCounters_eq_ok.mp hload
  have hmodels : ∀ record ∈ records env filePath, record.supportedCpuModels = [] :=
    fun _ hrecord ↦ supportedCpuModels_of_mem_records hrecord
  refine ⟨fun other hother ↦ encodings_addCounters_of_ne hmodels hother,
    encodings_subset_addCounters _ _ _ _,
    fun encoding hafter hbefore ↦ exists_counter_of_mem_encodings_addCounters hafter hbefore,
    _, run_loadCounters_eq_ok.mpr ⟨hloadable, rfl⟩,
    (encodings_addCounters_eq_iff hmodels).mpr (name_mem_addCounters _ _ hmodels)⟩

/-- A load for Ivy Bridge behind one for Haswell leaves what Haswell gets as it is. -/
theorem encodings_after_load_ivybridge :
    let m := after ((loadCounters defaultFatalHandler excerptFiles haswellLoad.filePath 60).run
      (.fresh .empty))
    let m' := after
      ((loadCounters defaultFatalHandler excerptFiles ivybridgeLoad.filePath 58).run m)
    encodings m'.state 60 = encodings m.state 60 := by
  intro m m'
  have hload : (loadCounters defaultFatalHandler excerptFiles ivybridgeLoad.filePath 58).run m =
      .ok () m' := eq_ok_of_returned (by decide +kernel)
  exact (encodings_after_load hload).1 60 (by decide)

end PcmWrapper
