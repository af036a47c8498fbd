import PcmWrapper.DatabaseLoads

/-!
# Whose codes an event carries

All CPU models share one map keyed by name, and a record whose name is already there leaves only its
model behind. The event a model gets therefore carries the codes of the first record of its name
that was loaded for any model. `encodedByOwnModel_and_orderIndependent_iff` says when that does no
harm: given that the records of each model agree among themselves, every model gets its own codes,
in every order of the loads, exactly when the records of one name agree across the models too.

The shipped databases do not. `DTLB_LOAD_MISSES.WALK_COMPLETED` has the umask `0x0e` in
`haswell_core_v26.json` and `0x82` in `ivybridge_core_v19.json`, and
`walkCompleted_not_encodedByOwnModel` loads the two records in this order.
-/

set_option autoImplicit false
set_option relaxedAutoImplicit false

namespace PcmWrapper

open Library

variable {handler : FatalHandler} {env : Environment} {loads : List Load}
  {reader : HwCounterJsonReader}

/-- The records loaded for any one model agree on the codes of each name. -/
def AgreePerModel (env : Environment) (loads : List Load) : Prop :=
  ∀ first ∈ mergedRecords env loads, ∀ second ∈ mergedRecords env loads,
    first.2 = second.2 → first.1.name = second.1.name → first.1.encoding = second.1.encoding

/-- The records loaded for all models agree on the codes of each name. -/
def AgreeAcrossModels (env : Environment) (loads : List Load) : Prop :=
  ∀ first ∈ mergedRecords env loads, ∀ second ∈ mergedRecords env loads,
    first.1.name = second.1.name → first.1.encoding = second.1.encoding

instance (env : Environment) (loads : List Load) : Decidable (AgreePerModel env loads) :=
  inferInstanceAs (Decidable (∀ first ∈ mergedRecords env loads,
    ∀ second ∈ mergedRecords env loads, first.2 = second.2 → first.1.name = second.1.name →
      first.1.encoding = second.1.encoding))

instance (env : Environment) (loads : List Load) : Decidable (AgreeAcrossModels env loads) :=
  inferInstanceAs (Decidable (∀ first ∈ mergedRecords env loads,
    ∀ second ∈ mergedRecords env loads, first.1.name = second.1.name →
      first.1.encoding = second.1.encoding))

/-- Every event a model gets has the name and the codes of a record loaded for that model. -/
def EncodedByOwnModel (env : Environment) (loads : List Load) (reader : HwCounterJsonReader) :
    Prop :=
  ∀ cpuModel, ∀ event ∈ reader.getCounters cpuModel,
    ∃ record, (record, cpuModel) ∈ mergedRecords env loads ∧ record.encoding = event.encoding

/-- The names and codes a model gets. -/
def encodings (reader : HwCounterJsonReader) (cpuModel : ℤ) : Set (String × ℤ × ℤ) :=
  {encoding | ∃ event ∈ reader.getCounters cpuModel, event.encoding = encoding}

/-- Every permutation of the loads succeeds too and leads to the same names and codes. -/
def OrderIndependent (handler : FatalHandler) (env : Environment) (loads : List Load)
    (reader : HwCounterJsonReader) : Prop :=
  ∀ otherLoads, loads.Perm otherLoads →
    (∃ otherReader, SuccessfulLoads handler env otherLoads otherReader) ∧
    ∀ otherReader, SuccessfulLoads handler env otherLoads otherReader →
      ∀ cpuModel, encodings otherReader cpuModel = encodings reader cpuModel

/-- The event a model gets for a name has the codes of a record of that name, of some model. -/
theorem exists_record_of_mem_getCounters (h : SuccessfulLoads handler env loads reader)
    {cpuModel : ℤ} {event : HwEvent} (hevent : event ∈ reader.getCounters cpuModel) :
    ∃ record ∈ mergedRecords env loads, record.1.encoding = event.encoding := by
  obtain ⟨-, first, later, hnamed, hmerged⟩ := (mem_getCounters_iff h).mp hevent
  have hfirst : first ∈ recordsNamed env loads event.name := hnamed ▸ List.mem_cons_self
  exact ⟨first, (List.mem_filter.mp hfirst).1, by rw [hmerged]; rfl⟩

/-- A record loaded for a model gives the model an event of its name. -/
theorem exists_event_of_mem_mergedRecords (h : SuccessfulLoads handler env loads reader)
    {record : HwEvent} {cpuModel : ℤ} (hrecord : (record, cpuModel) ∈ mergedRecords env loads) :
    ∃ event ∈ reader.getCounters cpuModel, event.name = record.name := by
  obtain ⟨load, hload, hmodel, hmem⟩ := mem_mergedRecords.mp hrecord
  exact List.mem_map.mp ((mem_names_iff h).mpr ⟨load, hload, hmodel, record, hmem, rfl⟩)

/-- The events two models get for one name have the same codes, whatever their records say. -/
theorem encoding_eq_of_name_eq {first second : HwEvent} {firstModel secondModel : ℤ}
    (hfirst : first ∈ reader.getCounters firstModel)
    (hsecond : second ∈ reader.getCounters secondModel) (hname : first.name = second.name) :
    first.encoding = second.encoding := by
  have hlookup := (HwCounterJsonReader.mem_getCounters.mp hfirst).1
  rw [hname, (HwCounterJsonReader.mem_getCounters.mp hsecond).1] at hlookup
  rw [Option.some.inj hlookup]

/-- When the records agree across models, a model gets exactly the encodings of its own records. -/
theorem encodings_of_agreeAcrossModels (h : SuccessfulLoads handler env loads reader)
    (hagree : AgreeAcrossModels env loads) (cpuModel : ℤ) : encodings reader cpuModel =
      {encoding | ∃ record, (record, cpuModel) ∈ mergedRecords env loads ∧
        record.encoding = encoding} := by
  have hname : ∀ {first second : HwEvent}, first.encoding = second.encoding →
      first.name = second.name := fun hencoding ↦ congrArg Prod.fst hencoding
  ext encoding
  constructor
  · rintro ⟨event, hevent, rfl⟩
    obtain ⟨source, hsource, hcodes⟩ := exists_record_of_mem_getCounters h hevent
    obtain ⟨load, hload, hmodel, record, hmem, hrecord⟩ := ((mem_getCounters_iff h).mp hevent).1
    have hown := mem_mergedRecords.mpr ⟨load, hload, hmodel, hmem⟩
    refine ⟨record, hown, ?_⟩
    rw [← hcodes]
    exact hagree _ hown source hsource (hrecord.trans (hname hcodes).symm)
  · rintro ⟨record, hrecord, rfl⟩
    obtain ⟨event, hevent, heventName⟩ := exists_event_of_mem_mergedRecords h hrecord
    obtain ⟨source, hsource, hcodes⟩ := exists_record_of_mem_getCounters h hevent
    refine ⟨event, hevent, ?_⟩
    rw [← hcodes]
    exact hagree source hsource _ hrecord ((hname hcodes).trans heventName)

/-- When every model gets its own codes, the records agree across models, because two models get
one event for a name they share. -/
theorem agreeAcrossModels_of_encodedByOwnModel (h : SuccessfulLoads handler env loads reader)
    (hagree : AgreePerModel env loads) (hown : EncodedByOwnModel env loads reader) :
    AgreeAcrossModels env loads := by
  -- a record has the codes of the event its own model gets for its name
  have hcodes : ∀ record ∈ mergedRecords env loads, ∃ event ∈ reader.getCounters record.2,
      event.name = record.1.name ∧ event.encoding = record.1.encoding := by
    intro record hrecord
    obtain ⟨event, hevent, hname⟩ := exists_event_of_mem_mergedRecords h hrecord
    obtain ⟨source, hsource, hencoding⟩ := hown record.2 event hevent
    refine ⟨event, hevent, hname, ?_⟩
    rw [← hencoding]
    exact hagree _ hsource record hrecord rfl ((congrArg Prod.fst hencoding).trans hname)
  intro first hfirst second hsecond hname
  obtain ⟨firstEvent, hfirstEvent, hfirstName, hfirstCodes⟩ := hcodes first hfirst
  obtain ⟨secondEvent, hsecondEvent, hsecondName, hsecondCodes⟩ := hcodes second hsecond
  rw [← hfirstCodes, ← hsecondCodes]
  exact encoding_eq_of_name_eq hfirstEvent hsecondEvent
    (hfirstName.trans (hname.trans hsecondName.symm))

/-- Given that the records of each model agree among themselves, every model gets the codes of its
own records, and the same ones in every order of the loads, exactly when the records of one name
agree across all models. Assumes: the loads all succeeded. -/
theorem encodedByOwnModel_and_orderIndependent_iff
    (h : SuccessfulLoads handler env loads reader) (hagree : AgreePerModel env loads) :
    EncodedByOwnModel env loads reader ∧ OrderIndependent handler env loads reader ↔
      AgreeAcrossModels env loads := by
  constructor
  · rintro ⟨hown, -⟩
    exact agreeAcrossModels_of_encodedByOwnModel h hagree hown
  · intro hacross
    refine ⟨fun cpuModel event hevent ↦ ?_, fun otherLoads hperm ↦ ⟨?_, ?_⟩⟩
    · have hmem : event.encoding ∈ encodings reader cpuModel := ⟨event, hevent, rfl⟩
      rw [encodings_of_agreeAcrossModels h hacross] at hmem
      exact hmem
    · obtain ⟨trace, hrun⟩ := h
      exact exists_successfulLoads handler fun load hload ↦
        (run_loadAll_eq_ok hrun).1 load (hperm.mem_iff.mpr hload)
    · intro otherReader hother cpuModel
      have hmerged : ∀ record, record ∈ mergedRecords env otherLoads ↔
          record ∈ mergedRecords env loads := by
        rintro ⟨record, model⟩
        simp only [mem_mergedRecords, hperm.mem_iff]
      have hotherAgree : AgreeAcrossModels env otherLoads := fun first hfirst second hsecond ↦
        hacross first ((hmerged first).mp hfirst) second ((hmerged second).mp hsecond)
      rw [encodings_of_agreeAcrossModels h hacross,
        encodings_of_agreeAcrossModels hother hotherAgree]
      simp only [hmerged]

/-- The records of the Haswell and of the Skylake excerpt agree, so each model gets its own. -/
theorem encodedByOwnModel_haswell_skylake : ∃ reader,
    SuccessfulLoads defaultFatalHandler excerptFiles [haswellLoad, skylakeLoad] reader ∧
    EncodedByOwnModel excerptFiles [haswellLoad, skylakeLoad] reader ∧
    OrderIndependent defaultFatalHandler excerptFiles [haswellLoad, skylakeLoad] reader := by
  have hloadable : ∀ load ∈ [haswellLoad, skylakeLoad],
      Loadable excerptFiles load.filePath := fun load hload ↦
    loadable_excerpts load (List.Sublist.subset (.cons_cons _ (.cons _ (.refl _))) hload)
  obtain ⟨reader, hreader⟩ := exists_successfulLoads defaultFatalHandler hloadable
  exact ⟨reader, hreader, (encodedByOwnModel_and_orderIndependent_iff hreader
    (by decide +kernel)).mpr (by decide +kernel)⟩

/-- Loaded behind the Haswell excerpt, the Ivy Bridge excerpt leaves its model with the umask of the
Haswell record. -/
theorem walkCompleted_not_encodedByOwnModel : ∃ reader,
    SuccessfulLoads defaultFatalHandler excerptFiles [haswellLoad, ivybridgeLoad] reader ∧
    AgreePerModel excerptFiles [haswellLoad, ivybridgeLoad] ∧
    ¬ (EncodedByOwnModel excerptFiles [haswellLoad, ivybridgeLoad] reader ∧
      OrderIndependent defaultFatalHandler excerptFiles [haswellLoad, ivybridgeLoad] reader) := by
  have hloadable : ∀ load ∈ [haswellLoad, ivybridgeLoad],
      Loadable excerptFiles load.filePath := fun load hload ↦
    loadable_excerpts load
      (List.Sublist.subset (.cons_cons _ (.cons_cons _ (.cons _ .slnil))) hload)
  obtain ⟨reader, hreader⟩ := exists_successfulLoads defaultFatalHandler hloadable
  have hagree : AgreePerModel excerptFiles [haswellLoad, ivybridgeLoad] := by decide +kernel
  refine ⟨reader, hreader, hagree, fun ⟨hown, _⟩ ↦ ?_⟩
  have hacross := agreeAcrossModels_of_encodedByOwnModel hreader hagree hown
  exact absurd hacross (by decide +kernel)

end PcmWrapper
