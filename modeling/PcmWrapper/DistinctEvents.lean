import PcmWrapper.EventProgramming

/-!
# Which records of a database are told apart

A record selects a hardware condition by its event code and umask together with modifiers: a counter
mask, inversion, edge detection, any thread, the value of an extra register. Of these `convert`
reads the code and the umask, and a `CustomCoreEventDescription` has no room for more. So the
programmings of two records of a file differ exactly when their parsed codes or umasks do
(`programmings_differ_iff`), and records that only differ in a modifier are measured as the same
event (`counterMask_not_programmed`).

What is programmed for a name are the codes of its first record that was loaded, for any model.
Where the records of a name agree, they are the codes of each of them.
-/

set_option autoImplicit false
set_option relaxedAutoImplicit false

namespace PcmWrapper

open Library

/-- Choose a name for a register and start monitoring. -/
def chooseAndStart (handler : FatalHandler) (register : CounterRegister) (eventName : String)
    (status : ErrorCode) : Program PcmContext Unit := do
  setCounter handler register eventName
  startMonitoring handler status

/-- The records of one name agree with the given one on the codes. -/
def AgreesOnName (env : Environment) (loads : List Load) (record : HwEvent) : Prop :=
  ∀ other ∈ mergedRecords env loads, other.1.name = record.name →
    other.1.encoding = record.encoding

instance (env : Environment) (loads : List Load) (record : HwEvent) :
    Decidable (AgreesOnName env loads record) :=
  inferInstanceAs (Decidable (∀ other ∈ mergedRecords env loads, other.1.name = record.name →
    other.1.encoding = record.encoding))

/-- The programming of the first record of a name that was loaded. -/
def firstDescription (env : Environment) (loads : List Load) (name : String) :
    Option CustomCoreEventDescription :=
  (recordsNamed env loads name).head?.map fun record ↦ record.1.description

/-- Every event of the CPU model is stored under its name. -/
def HasEvents (reader : HwCounterJsonReader) (cpuModel : ℤ) (context : PcmContext) : Prop :=
  ∀ event ∈ reader.getCounters cpuModel, context.counters.lookup event.name = some event

/-- An `init` that returns has stored the events of the CPU model, whatever errors it reported. -/
theorem hasEvents_init {handler : FatalHandler} {reader : HwCounterJsonReader} {cpuModel : ℤ}
    {m₀ : Machine Event PcmContext}
    (hinit : (init handler cpuModel reader).run (.fresh .fresh) = .ok () m₀) :
    HasEvents reader cpuModel m₀.state := by
  intro event hevent
  rw [counters_of_run_init hinit]
  exact lookup_initialised.mpr ⟨hevent, rfl⟩

/-- No call loses an event of the CPU model or changes its codes, however it ends. -/
theorem hasEvents_perform (handler : FatalHandler) {reader : HwCounterJsonReader} {cpuModel : ℤ}
    {m : Machine Event PcmContext} (h : HasEvents reader cpuModel m.state) (call : ContextCall) :
    HasEvents reader cpuModel (after ((call.perform handler).run m)).state := by
  intro event hevent
  cases call with
  | setCounter register eventName =>
    rw [ContextCall.perform, counters_after_setCounter handler register eventName m]
    exact h event hevent
  | startMonitoring status =>
    obtain ⟨_, _, _, hstate⟩ := after_startMonitoring handler status m
    rw [ContextCall.perform, hstate]
    exact PcmContext.lookup_described_of_some (h event hevent)
  | resetMsrIfBusy => exact h event hevent

/-- The events of the CPU model are still there after a run. -/
theorem hasEvents_runCalls {handler : FatalHandler} {reader : HwCounterJsonReader} {cpuModel : ℤ}
    {m₀ m : Machine Event PcmContext} (h : HasEvents reader cpuModel m₀.state)
    {calls : List ContextCall}
    (hrun : (runCalls (ContextCall.perform handler) calls).run m₀ = .ok () m) :
    HasEvents reader cpuModel m.state := by
  have hstep : ∀ call (current : Machine Event PcmContext),
      HasEvents reader cpuModel current.state →
      HasEvents reader cpuModel (after ((ContextCall.perform handler call).run current)).state :=
    fun call _ hcurrent ↦ hasEvents_perform handler hcurrent call
  have hafter := runCalls_invariant hstep calls h
  rwa [hrun, after_ok] at hafter

/-- Choosing the name of an event of the CPU model and starting programs PCM once, with its codes.
-/
theorem emitted_chooseAndStart (handler : FatalHandler) {reader : HwCounterJsonReader}
    {cpuModel : ℤ} {m : Machine Event PcmContext} (h : HasEvents reader cpuModel m.state)
    (register : CounterRegister) {event : HwEvent} (hevent : event ∈ reader.getCounters cpuModel)
    (status : ErrorCode) : ∃ description rest,
      emitted (chooseAndStart handler register event.name status) m =
        .program description :: rest ∧ (∀ other, Event.program other ∉ rest) ∧
      description[register.toNat]? = some event.description := by
  have hmem : event.name ∈ m.state.counters :=
    AList.lookup_isSome.mp (Option.isSome_iff_exists.mpr ⟨event, h event hevent⟩)
  obtain ⟨rest, hemitted, hrest, _⟩ := after_startMonitoring handler status
    { m with state := m.state.choose register event.name }
  refine ⟨(m.state.choose register event.name).programming, rest, ?_, hrest, ?_⟩
  · rw [← hemitted, emitted, chooseAndStart,
      run_bind_of_ok (run_setCounter_of_mem handler register hmem)]
    rfl
  · have hchosen : (m.state.choose register event.name).chosenEvents register = event.name :=
      Function.update_self ..
    have hstored : (m.state.choose register event.name).counters.lookup event.name =
        some event := h event hevent
    rw [getElem?_programming, hchosen, hstored, Option.getD_some]

/-- The event of a name is programmed as the first record of that name that was loaded. -/
theorem firstDescription_of_mem_getCounters {handler : FatalHandler} {env : Environment}
    {loads : List Load} {reader : HwCounterJsonReader}
    (h : SuccessfulLoads handler env loads reader) {cpuModel : ℤ} {event : HwEvent}
    (hevent : event ∈ reader.getCounters cpuModel) :
    firstDescription env loads event.name = some event.description := by
  obtain ⟨-, first, later, hnamed, hmerged⟩ := (mem_getCounters_iff h).mp hevent
  rw [firstDescription, hnamed, List.head?_cons, Option.map_some]
  rw [hmerged]
  rfl

/-- Where the records of a name agree, the first one stands for all. -/
theorem firstDescription_of_agreesOnName {env : Environment} {loads : List Load}
    {record : HwEvent} {cpuModel : ℤ} (hrecord : (record, cpuModel) ∈ mergedRecords env loads)
    (hagrees : AgreesOnName env loads record) :
    firstDescription env loads record.name = some record.description := by
  have hnamed : (record, cpuModel) ∈ recordsNamed env loads record.name :=
    List.mem_filter.mpr ⟨hrecord, decide_eq_true rfl⟩
  obtain ⟨first, later, hlist⟩ := List.exists_cons_of_ne_nil (List.ne_nil_of_mem hnamed)
  have hfirst : first ∈ recordsNamed env loads record.name := hlist ▸ List.mem_cons_self
  obtain ⟨hmerged, hname⟩ := List.mem_filter.mp hfirst
  have hcodes := hagrees first hmerged (of_decide_eq_true hname)
  have hdescription : first.1.description = record.description :=
    congrArg (fun encoding ↦ CustomCoreEventDescription.mk encoding.2.1 encoding.2.2) hcodes
  rw [firstDescription, hlist, List.head?_cons, Option.map_some, hdescription]

/-- Two programmings are the same exactly when their codes and their umasks are. -/
theorem description_ne_iff {first second : HwEvent} : first.description ≠ second.description ↔
    first.eventNumber ≠ second.eventNumber ∨ first.umaskValue ≠ second.umaskValue := by
  rw [HwEvent.description, HwEvent.description, Ne, CustomCoreEventDescription.mk.injEq, not_and_or]

/-- Choosing the name of a record of a file and starting programs the first record of that name that
was loaded. Assumes: the loads succeeded, and the context has the events of the file's model. -/
theorem programming_of_record {loadHandler : FatalHandler} {env : Environment}
    {loads : List Load} {reader : HwCounterJsonReader}
    (hloads : SuccessfulLoads loadHandler env loads reader) {load : Load} (hload : load ∈ loads)
    {record : HwEvent} (hrecord : record ∈ records env load.filePath)
    {m : Machine Event PcmContext} (h : HasEvents reader load.cpuModel m.state)
    (handler : FatalHandler) (register : CounterRegister) (status : ErrorCode) :
    ∃ description rest, emitted (chooseAndStart handler register record.name status) m =
        .program description :: rest ∧ (∀ other, Event.program other ∉ rest) ∧
      description[register.toNat]? = firstDescription env loads record.name := by
  have hnamed : record.name ∈ (reader.getCounters load.cpuModel).map HwEvent.name :=
    (mem_names_iff hloads).mpr ⟨load, hload, rfl, record, hrecord, rfl⟩
  obtain ⟨event, hevent, hname⟩ := List.mem_map.mp hnamed
  rw [← hname, firstDescription_of_mem_getCounters hloads hevent]
  exact emitted_chooseAndStart handler h register hevent status

/-- The elements of a loaded file convert to its records. -/
theorem exists_record_of_mem_elements {loadHandler : FatalHandler} {env : Environment}
    {loads : List Load} {reader : HwCounterJsonReader}
    (hloads : SuccessfulLoads loadHandler env loads reader) {load : Load} (hload : load ∈ loads)
    {elements : List Json} (helements : fileElements env load.filePath = some elements)
    {element : Json} (helement : element ∈ elements) :
    ∃ record ∈ records env load.filePath, convert element = .ok record := by
  obtain ⟨trace, hrun⟩ := hloads
  obtain ⟨others, hothers, hconvert⟩ := (run_loadAll_eq_ok hrun).1 load hload
  rw [helements] at hothers
  cases hothers
  obtain ⟨record, hrecord⟩ := hconvert element helement
  refine ⟨record, ?_, hrecord⟩
  rw [records, helements]
  exact List.mem_filterMap.mpr ⟨element, helement, by rw [hrecord]; rfl⟩

/-- Take two records of a file loaded for the CPU model, and choose the name of the one or the other
for a register before starting, at any time after `init`. PCM is programmed once, and the register
as the first record of that name that was loaded. Where the records of each of the two names agree
on the codes, the two programmings differ exactly when the parsed event codes or umasks of the two
records do. Assumes: the loads succeeded, and `init` returned. -/
theorem programmings_differ_iff {handler loadHandler : FatalHandler} {env : Environment}
    {loads : List Load} {reader : HwCounterJsonReader}
    (hloads : SuccessfulLoads loadHandler env loads reader)
    {load : Load} (hload : load ∈ loads) {elements : List Json}
    (helements : fileElements env load.filePath = some elements)
    {firstElement secondElement : Json} (hfirst : firstElement ∈ elements)
    (hsecond : secondElement ∈ elements) {m₀ m : Machine Event PcmContext}
    (hinit : (init handler load.cpuModel reader).run (.fresh .fresh) = .ok () m₀)
    {calls : List ContextCall}
    (hrun : (runCalls (ContextCall.perform handler) calls).run m₀ = .ok () m)
    (register : CounterRegister) (status : ErrorCode) :
    ∃ first second, convert firstElement = .ok first ∧ convert secondElement = .ok second ∧
      ∃ firstProgrammed firstRest secondProgrammed secondRest,
        emitted (chooseAndStart handler register first.name status) m =
          .program firstProgrammed :: firstRest ∧
        (∀ other, Event.program other ∉ firstRest) ∧
        firstProgrammed[register.toNat]? = firstDescription env loads first.name ∧
        emitted (chooseAndStart handler register second.name status) m =
          .program secondProgrammed :: secondRest ∧
        (∀ other, Event.program other ∉ secondRest) ∧
        secondProgrammed[register.toNat]? = firstDescription env loads second.name ∧
        (AgreesOnName env loads first → AgreesOnName env loads second →
          (firstProgrammed[register.toNat]? ≠ secondProgrammed[register.toNat]? ↔
            first.eventNumber ≠ second.eventNumber ∨ first.umaskValue ≠ second.umaskValue)) := by
  have hm := hasEvents_runCalls (hasEvents_init hinit) hrun
  obtain ⟨first, hfirstRecord, hfirstConvert⟩ :=
    exists_record_of_mem_elements hloads hload helements hfirst
  obtain ⟨second, hsecondRecord, hsecondConvert⟩ :=
    exists_record_of_mem_elements hloads hload helements hsecond
  obtain ⟨firstProgrammed, firstRest, hfirstEmitted, hfirstOnce, hfirstDescription⟩ :=
    programming_of_record hloads hload hfirstRecord hm handler register status
  obtain ⟨secondProgrammed, secondRest, hsecondEmitted, hsecondOnce, hsecondDescription⟩ :=
    programming_of_record hloads hload hsecondRecord hm handler register status
  refine ⟨first, second, hfirstConvert, hsecondConvert, firstProgrammed, firstRest,
    secondProgrammed, secondRest, hfirstEmitted, hfirstOnce, hfirstDescription, hsecondEmitted,
    hsecondOnce, hsecondDescription, fun hfirstAgrees hsecondAgrees ↦ ?_⟩
  have hfirstMerged := mem_mergedRecords.mpr ⟨load, hload, rfl, hfirstRecord⟩
  have hsecondMerged := mem_mergedRecords.mpr ⟨load, hload, rfl, hsecondRecord⟩
  rw [hfirstDescription, hsecondDescription,
    firstDescription_of_agreesOnName hfirstMerged hfirstAgrees,
    firstDescription_of_agreesOnName hsecondMerged hsecondAgrees, Ne, Option.some.injEq, ← Ne,
    description_ne_iff]

/-- The Skylake records of the misses of the first and of the second cache level are told apart. -/
theorem programmings_differ_iff_skylake :
    let m := after ((init defaultFatalHandler 94 (loadedReader excerptFiles [skylakeLoad])).run
      (.fresh .fresh))
    ∃ firstProgrammed firstRest secondProgrammed secondRest,
      emitted (chooseAndStart defaultFatalHandler .two "MEM_LOAD_RETIRED.L1_MISS" .success) m =
        .program firstProgrammed :: firstRest ∧
      emitted (chooseAndStart defaultFatalHandler .two "MEM_LOAD_RETIRED.L2_MISS" .success) m =
        .program secondProgrammed :: secondRest ∧
      firstProgrammed[CounterRegister.two.toNat]? ≠
        secondProgrammed[CounterRegister.two.toNat]? := by
  intro m
  have hloads : SuccessfulLoads defaultFatalHandler excerptFiles [skylakeLoad]
      (loadedReader excerptFiles [skylakeLoad]) :=
    successfulLoads_loadedReader fun load hload ↦ loadable_excerpts load
      (List.mem_cons_of_mem _ (List.mem_cons_of_mem _ hload))
  have hinit : (init defaultFatalHandler skylakeLoad.cpuModel
      (loadedReader excerptFiles [skylakeLoad])).run (.fresh .fresh) = .ok () m :=
    eq_ok_of_returned (returned_init_skylake defaultFatalHandler)
  obtain ⟨first, second, hfirst, hsecond, firstProgrammed, firstRest, secondProgrammed,
      secondRest, hfirstEmitted, _, _, hsecondEmitted, _, _, hdiffer⟩ :=
    programmings_differ_iff hloads List.mem_cons_self fileElements_skylakeExcerpt
      (List.mem_of_getElem? (i := 3) rfl) (List.mem_of_getElem? (i := 4) rfl) hinit
      (run_runCalls_nil (ContextCall.perform defaultFatalHandler) m) .two .success
  have hfirstRecord : convert (excerptElement "MEM_LOAD_RETIRED.L1_MISS" "0xD1" "0x08" "0") =
      .ok ⟨0xD1, 0x08, "MEM_LOAD_RETIRED.L1_MISS", []⟩ := by rfl
  have hsecondRecord : convert (excerptElement "MEM_LOAD_RETIRED.L2_MISS" "0xD1" "0x10" "0") =
      .ok ⟨0xD1, 0x10, "MEM_LOAD_RETIRED.L2_MISS", []⟩ := by rfl
  cases hfirst.symm.trans hfirstRecord
  cases hsecond.symm.trans hsecondRecord
  exact ⟨firstProgrammed, firstRest, secondProgrammed, secondRest, hfirstEmitted, hsecondEmitted,
    (hdiffer (by decide +kernel) (by decide +kernel)).mpr (.inr (by decide))⟩

/-- Two Skylake records that only differ in the counter mask, cycles with at least one and with at
least two executed operations, are programmed as the same event. -/
theorem counterMask_not_programmed :
    let m := after ((init defaultFatalHandler 94 (loadedReader excerptFiles [skylakeLoad])).run
      (.fresh .fresh))
    ∃ elements, fileElements excerptFiles skylakeLoad.filePath = some elements ∧
      ∃ first ∈ elements, ∃ second ∈ elements,
        first.member "CounterMask" = some (.string "1") ∧
        second.member "CounterMask" = some (.string "2") ∧
        first.member c_EventName = some (.string "UOPS_EXECUTED.CYCLES_GE_1_UOP_EXEC") ∧
        second.member c_EventName = some (.string "UOPS_EXECUTED.CYCLES_GE_2_UOPS_EXEC") ∧
        ∃ description, emitted (chooseAndStart defaultFatalHandler .one
              "UOPS_EXECUTED.CYCLES_GE_1_UOP_EXEC" .success) m =
            [.program description, .output "OK\n"] ∧
          emitted (chooseAndStart defaultFatalHandler .one
              "UOPS_EXECUTED.CYCLES_GE_2_UOPS_EXEC" .success) m =
            [.program description, .output "OK\n"] := by
  refine ⟨_, fileElements_skylakeExcerpt,
    excerptElement "UOPS_EXECUTED.CYCLES_GE_1_UOP_EXEC" "0xB1" "0x01" "1",
    List.mem_of_getElem? (i := 1) rfl,
    excerptElement "UOPS_EXECUTED.CYCLES_GE_2_UOPS_EXEC" "0xB1" "0x01" "2",
    List.mem_of_getElem? (i := 2) rfl, rfl, rfl, rfl, rfl,
    [⟨0xB1, 0x01⟩, ⟨0xD1, 0x10⟩, ⟨0xD1, 0x20⟩, ⟨0x08, 0x0E⟩], ?_⟩
  decide +kernel

end PcmWrapper
