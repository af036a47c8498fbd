import Mathlib.Logic.Function.Basic
import PcmWrapper.CounterRecorder
import PcmWrapper.HwCounterJsonReader

/-!
# Choosing events and programming the counter registers

A `PcmContext` holds the events of the CPU model it runs on, by name, and the name chosen for each
of the four counter registers. `setCounter` checks a name before it chooses it; `startMonitoring`
looks the chosen names up with `m_counters[...]`, which silently inserts an event of zeros under a
name that is not there, and hands the codes to PCM; `init` fills the map from the database and
chooses four events of its own. The header of a printed table names the events chosen at the time of
printing.

The CPU model that PCM reports and the code `PCM::program` returns are parameters. Every function
has its outcomes stated as lemmas: what it does with a name that is there, and what without.
-/

set_option autoImplicit false
set_option relaxedAutoImplicit false

namespace PcmWrapper

open Library

/-- `EventHeader`, with the name in each of its four places. -/
structure EventHeader where
  chosenEvents : CounterRegister → String

/-- `PcmContext`, without its `m_pcm`, which has no value before the first `init`. -/
structure PcmContext where
  counters : AList fun _ : String ↦ HwEvent
  chosenEvents : CounterRegister → String
  resetBusyDevice : Bool

/-- A context that has not been initialised. -/
def PcmContext.fresh : PcmContext := ⟨∅, fun _ ↦ "", false⟩

/-- `getEventName`. -/
def PcmContext.getEventName (context : PcmContext) (register : CounterRegister) : String :=
  context.chosenEvents register

/-- `getEventHeader`. -/
def PcmContext.getEventHeader (context : PcmContext) : EventHeader := ⟨context.chosenEvents⟩

/-- `m_chosenEvents[order] = eventName`. -/
def PcmContext.choose (context : PcmContext) (register : CounterRegister) (eventName : String) :
    PcmContext :=
  { context with chosenEvents := Function.update context.chosenEvents register eventName }

/-- `resetMsrIfBusy`. -/
def resetMsrIfBusy : Program PcmContext Unit :=
  modifyState fun context ↦ { context with resetBusyDevice := true }

/-- What `checkEventValidity` reports. -/
def eventNotFound (eventName : String) : String :=
  cString ("Event not found in passed db: " ++ eventName)

/-- `PcmContext::checkEventValidity`. -/
def checkEventValidity (handler : FatalHandler) (eventName : String) :
    Program PcmContext Unit := do
  let context ← readState
  match context.counters.lookup eventName with
  | some _ => pure ()
  | none => handleFatalError handler (eventNotFound eventName)

/-- `PcmContext::setCounter`. -/
def setCounter (handler : FatalHandler) (register : CounterRegister) (eventName : String) :
    Program PcmContext Unit := do
  checkEventValidity handler eventName
  modifyState (·.choose register eventName)

/-- `setCounter` for each register in turn. -/
def setCounters (handler : FatalHandler) (names : CounterRegister → String) :
    Program PcmContext Unit := do
  setCounter handler .one (names .one)
  setCounter handler .two (names .two)
  setCounter handler .three (names .three)
  setCounter handler .four (names .four)

/-- The events `init` chooses. -/
def initialEvents : CounterRegister → String
  | .one => "MEM_LOAD_RETIRED.L1_MISS"
  | .two => "MEM_LOAD_RETIRED.L2_MISS"
  | .three => "MEM_LOAD_RETIRED.L3_MISS"
  | .four => "DTLB_LOAD_MISSES.WALK_COMPLETED"

/-- The check of `init`. -/
def checkCounters (handler : FatalHandler) (counters : List HwEvent) : Program PcmContext Unit :=
  if counters.isEmpty then handleFatalError handler "No counters supported for this model"
  else pure ()

/-- `PcmContext::init`, on a CPU of the given model. -/
def init (handler : FatalHandler) (cpuModel : ℤ) (reader : HwCounterJsonReader) :
    Program PcmContext Unit := do
  checkCounters handler (reader.getCounters cpuModel)
  modifyState fun context ↦ { context with
    counters := insertAll HwEvent.name (reader.getCounters cpuModel) context.counters }
  setCounters handler initialEvents

/-! ### Programming -/

/-- `m_counters[eventName]`. -/
def lookupCounter (eventName : String) : Program PcmContext HwEvent := do
  let context ← readState
  match context.counters.lookup eventName with
  | some counter => return counter
  | none =>
    modifyState fun context ↦
      { context with counters := context.counters.insert eventName .default }
    return .default

/-- The programming of an event. -/
def HwEvent.description (counter : HwEvent) : CustomCoreEventDescription :=
  ⟨counter.eventNumber, counter.umaskValue⟩

/-- The loop body of `startMonitoring`. -/
def describe (register : CounterRegister) :
    Program PcmContext (List CustomCoreEventDescription) := do
  let context ← readState
  let counter ← lookupCounter (context.chosenEvents register)
  return [counter.description]

/-- `PcmContext::handlePcmProgramError`. -/
def handlePcmProgramError (handler : FatalHandler) (ec : ErrorCode) : Program PcmContext Unit :=
  match ec with
  | .success => pure ()
  | .msrAccessDenied =>
    handleFatalError handler
      "PcmContext::startMonitoring failed because access to PCM was denied"
  | .pmuBusy => do
    let context ← readState
    if context.resetBusyDevice then
      emit .resetPMU
      handleFatalError handler
        "PcmContext::startMontoring failed because PMU is busy, resetting device"
    else
      handleFatalError handler "PcmContext::startMontoring failed because PMU is busy"
  | .unknownError =>
    handleFatalError handler "PcmContext::startMonitoring failed because of unknown error"

/-- What `startMonitoring` does with the code `PCM::program` returned. -/
def reportStatus (handler : FatalHandler) (status : ErrorCode) : Program PcmContext Unit :=
  if status = .success then emit (.output "OK\n") else handlePcmProgramError handler status

/-- `PcmContext::startMonitoring`, when `PCM::program` returns the given code. -/
def startMonitoring (handler : FatalHandler) (status : ErrorCode) : Program PcmContext Unit := do
  let description ← collect describe CounterRegister.all
  emit (.program description)
  reportStatus handler status

/-! ### The header of a table -/

/-- The insertions of `operator<<` for an `EventHeader`. -/
def EventHeader.insertions (eventHeader : EventHeader) : List Text :=
  [c_commonCounterHeaders, [c_csvDelim],
    (eventHeader.chosenEvents .one).toList, [c_csvDelim],
    (eventHeader.chosenEvents .two).toList, [c_csvDelim],
    (eventHeader.chosenEvents .three).toList, [c_csvDelim],
    (eventHeader.chosenEvents .four).toList]

/-! ### Choosing a name -/

variable {handler : FatalHandler} {eventName : String} {register : CounterRegister}
  {m m' : Machine Event PcmContext}

/-- A name that is there is chosen without further ado. -/
theorem run_setCounter_of_mem (handler : FatalHandler) (register : CounterRegister)
    (h : eventName ∈ m.state.counters) : (setCounter handler register eventName).run m =
      .ok () { m with state := m.state.choose register eventName } := by
  obtain ⟨counter, hcounter⟩ := Option.isSome_iff_exists.mp (AList.lookup_isSome.mpr h)
  have hcheck : (checkEventValidity handler eventName).run m = .ok () m := by
    rw [checkEventValidity, run_bind_of_ok (run_readState m), hcounter]
    rfl
  rw [setCounter, run_bind_of_ok hcheck, run_modifyState]

/-- A name that is not there is a fatal error before anything else. -/
theorem run_setCounter_of_notMem (handler : FatalHandler) (register : CounterRegister)
    (h : eventName ∉ m.state.counters) : (setCounter handler register eventName).run m =
      (handleFatalError handler (eventNotFound eventName) >>= fun _ ↦
        modifyState (·.choose register eventName)).run m := by
  have hnone : m.state.counters.lookup eventName = none := AList.lookup_eq_none.mpr h
  have hcheck : (checkEventValidity handler eventName).run m =
      (handleFatalError handler (eventNotFound eventName)).run m := by
    rw [checkEventValidity, run_bind_of_ok (run_readState m), hnone]
  rw [setCounter, EStateM.run_bind, EStateM.run_bind, hcheck]

/-- A refused name changes no choice, when the handler never returns. -/
theorem run_setCounter_of_notMem_of_neverReturns (hhandler : handler.NeverReturns)
    (register : CounterRegister) (h : eventName ∉ m.state.counters) : ∃ cause,
      (setCounter handler register eventName).run m =
        .error cause (afterFatalError (eventNotFound eventName) m) := by
  obtain ⟨cause, herror⟩ :=
    run_handleFatalError_of_ne_returns (hhandler (eventNotFound eventName)) m
  exact ⟨cause, (run_setCounter_of_notMem handler register h).trans (run_bind_of_error herror _)⟩

/-- A choice goes through without an ignored error exactly when the name is there. -/
theorem run_setCounter_eq_ok_iff : (setCounter handler register eventName).run m = .ok () m' ∧
      NoErrorIgnored handler m' ↔ eventName ∈ m.state.counters ∧ NoErrorIgnored handler m ∧
        m' = { m with state := m.state.choose register eventName } := by
  by_cases h : eventName ∈ m.state.counters
  · rw [run_setCounter_of_mem handler register h]
    constructor
    · rintro ⟨hok, hnone⟩
      cases hok
      exact ⟨h, hnone, rfl⟩
    · rintro ⟨_, hnone, rfl⟩
      exact ⟨rfl, hnone⟩
  · refine ⟨fun ⟨hok, hnone⟩ ↦ ?_, fun ⟨hmem, _⟩ ↦ absurd hmem h⟩
    rw [run_setCounter_of_notMem handler register h, run_bind_eq_ok] at hok
    obtain ⟨_, m'', hfatal, hchoose⟩ := hok
    by_cases hreturns : handler (eventNotFound eventName) = .returns
    · rw [run_handleFatalError_of_returns hreturns] at hfatal
      cases hfatal
      cases hchoose
      have hmem : Event.fatalError (eventNotFound eventName) ∈
          m.trace ++ [.cleanup, .fatalError (eventNotFound eventName)] :=
        List.mem_append_right _ (List.mem_cons_of_mem _ List.mem_cons_self)
      exact absurd hnone (not_noErrorIgnored_of_mem hreturns hmem)
    · obtain ⟨cause, herror⟩ := run_handleFatalError_of_ne_returns hreturns m
      rw [herror] at hfatal
      cases hfatal

/-- A choice for each register replaces all of them. -/
theorem choose_all (context : PcmContext) (names : CounterRegister → String) :
    (((context.choose .one (names .one)).choose .two (names .two)).choose .three
      (names .three)).choose .four (names .four) = { context with chosenEvents := names } := by
  have hnames : ((((context.choose .one (names .one)).choose .two (names .two)).choose .three
      (names .three)).choose .four (names .four)).chosenEvents = names := by
    funext register
    cases register <;> rfl
  exact congrArg (fun chosenEvents ↦ { context with chosenEvents }) hnames

/-- Four names that are there are chosen without further ado. -/
theorem run_setCounters_of_mem (handler : FatalHandler) {names : CounterRegister → String}
    (h : ∀ register, names register ∈ m.state.counters) : (setCounters handler names).run m =
      .ok () { m with state := { m.state with chosenEvents := names } } := by
  have hchosen : ∀ (context : PcmContext) register, context.counters = m.state.counters →
      (setCounter handler register (names register)).run ⟨context, m.trace⟩ =
        .ok () ⟨context.choose register (names register), m.trace⟩ := by
    intro context register hsame
    have hregister : names register ∈ context.counters := hsame ▸ h register
    exact run_setCounter_of_mem handler register hregister
  have hone := hchosen m.state .one rfl
  have htwo := hchosen (m.state.choose .one (names .one)) .two rfl
  have hthree := hchosen ((m.state.choose .one (names .one)).choose .two (names .two)) .three rfl
  have hfour := hchosen (((m.state.choose .one (names .one)).choose .two (names .two)).choose
    .three (names .three)) .four rfl
  rw [setCounters, run_bind_of_ok hone, run_bind_of_ok htwo, run_bind_of_ok hthree, hfour,
    choose_all]

/-- Four choices go through without an ignored error exactly when all the names are there. -/
theorem run_setCounters_eq_ok_iff {names : CounterRegister → String} :
    (setCounters handler names).run m = .ok () m' ∧ NoErrorIgnored handler m' ↔
      (∀ register, names register ∈ m.state.counters) ∧ NoErrorIgnored handler m ∧
        m' = { m with state := { m.state with chosenEvents := names } } := by
  constructor
  · rintro ⟨hrun, hnone⟩
    obtain ⟨_, m₁, hone, hrun⟩ := run_bind_eq_ok.mp hrun
    obtain ⟨_, m₂, htwo, hrun⟩ := run_bind_eq_ok.mp hrun
    obtain ⟨_, m₃, hthree, hfour⟩ := run_bind_eq_ok.mp hrun
    obtain ⟨hmemFour, hnone, rfl⟩ := run_setCounter_eq_ok_iff.mp ⟨hfour, hnone⟩
    obtain ⟨hmemThree, hnone, rfl⟩ := run_setCounter_eq_ok_iff.mp ⟨hthree, hnone⟩
    obtain ⟨hmemTwo, hnone, rfl⟩ := run_setCounter_eq_ok_iff.mp ⟨htwo, hnone⟩
    obtain ⟨hmemOne, hnone, rfl⟩ := run_setCounter_eq_ok_iff.mp ⟨hone, hnone⟩
    refine ⟨fun register ↦ ?_, hnone, by rw [← choose_all]⟩
    cases register with
    | one => exact hmemOne
    | two => exact hmemTwo
    | three => exact hmemThree
    | four => exact hmemFour
  · rintro ⟨hmem, hnone, rfl⟩
    exact ⟨run_setCounters_of_mem handler hmem, hnone⟩

/-- Choosing names leaves the map as it is, however it ends. -/
theorem counters_after_setCounter (handler : FatalHandler) (register : CounterRegister)
    (eventName : String) (m : Machine Event PcmContext) :
    (after ((setCounter handler register eventName).run m)).state.counters =
      m.state.counters := by
  by_cases h : eventName ∈ m.state.counters
  · rw [run_setCounter_of_mem handler register h]
    rfl
  · rw [run_setCounter_of_notMem handler register h]
    by_cases hreturns : handler (eventNotFound eventName) = .returns
    · rw [run_bind_of_ok (run_handleFatalError_of_returns hreturns m)]
      rfl
    · obtain ⟨cause, herror⟩ := run_handleFatalError_of_ne_returns hreturns m
      rw [run_bind_of_error herror]
      rfl

/-- Four choices that return leave the map as it is. -/
theorem counters_of_run_setCounters {names : CounterRegister → String}
    (hrun : (setCounters handler names).run m = .ok () m') :
    m'.state.counters = m.state.counters := by
  have hstep : ∀ {register m₁ m₂}, (setCounter handler register (names register)).run m₁ =
      .ok () m₂ → m₂.state.counters = m₁.state.counters := by
    intro register m₁ m₂ hchoose
    have hcounters := counters_after_setCounter handler register (names register) m₁
    rwa [hchoose, after_ok] at hcounters
  obtain ⟨_, m₁, hone, hrun⟩ := run_bind_eq_ok.mp hrun
  obtain ⟨_, m₂, htwo, hrun⟩ := run_bind_eq_ok.mp hrun
  obtain ⟨_, m₃, hthree, hfour⟩ := run_bind_eq_ok.mp hrun
  rw [hstep hfour, hstep hthree, hstep htwo, hstep hone]

/-! ### Initialising -/

/-- The names of the events of a CPU model. -/
def HwCounterJsonReader.eventNames (reader : HwCounterJsonReader) (cpuModel : ℤ) : List String :=
  (reader.getCounters cpuModel).map HwEvent.name

/-- The context after `init` on a fresh one. -/
def initialised (cpuModel : ℤ) (reader : HwCounterJsonReader) : PcmContext where
  counters := insertAll HwEvent.name (reader.getCounters cpuModel) ∅
  chosenEvents := initialEvents
  resetBusyDevice := false

/-- The map of an initialised context: the events of the CPU model under their names. -/
theorem lookup_initialised {reader : HwCounterJsonReader} {cpuModel : ℤ} {name : String}
    {event : HwEvent} : (initialised cpuModel reader).counters.lookup name = some event ↔
      event ∈ reader.getCounters cpuModel ∧ event.name = name := by
  rw [initialised, lookup_insertAll_eq_some HwEvent.name fun _ hfirst _ hsecond ↦
    HwCounterJsonReader.eq_of_name_eq hfirst hsecond, AList.lookup_empty]
  simp

/-- The keys of an initialised context are the names of the events of the CPU model. -/
theorem mem_counters_initialised {reader : HwCounterJsonReader} {cpuModel : ℤ} {name : String} :
    name ∈ (initialised cpuModel reader).counters ↔ name ∈ reader.eventNames cpuModel := by
  rw [← AList.lookup_isSome, Option.isSome_iff_exists, HwCounterJsonReader.eventNames, List.mem_map]
  simp only [lookup_initialised]

/-- The check of `init` leaves the context as it is, and with counters it does nothing at all. -/
theorem run_checkCounters_eq_ok {counters : List HwEvent}
    (hrun : (checkCounters handler counters).run m = .ok () m') :
    m'.state = m.state ∧ (counters ≠ [] → m' = m) := by
  rw [checkCounters] at hrun
  split_ifs at hrun with hempty
  · have hafter := after_run_handleFatalError handler "No counters supported for this model" m
    rw [hrun, after_ok] at hafter
    rw [hafter]
    exact ⟨rfl, fun hne ↦ absurd (List.isEmpty_iff.mp hempty) hne⟩
  · cases hrun
    exact ⟨rfl, fun _ ↦ rfl⟩

section Init

variable {cpuModel : ℤ} {reader : HwCounterJsonReader}

/-- The parts of an `init` that returned. -/
theorem run_init_eq_ok (hrun : (init handler cpuModel reader).run (.fresh .fresh) = .ok () m') :
    ∃ m₁, (checkCounters handler (reader.getCounters cpuModel)).run (.fresh .fresh) =
        .ok () m₁ ∧
      (setCounters handler initialEvents).run ⟨{ m₁.state with
        counters := insertAll HwEvent.name (reader.getCounters cpuModel) m₁.state.counters },
          m₁.trace⟩ = .ok () m' := by
  obtain ⟨_, m₁, hcheck, hrun⟩ := run_bind_eq_ok.mp hrun
  obtain ⟨_, m₂, hinsert, hchoose⟩ := run_bind_eq_ok.mp hrun
  cases hinsert
  exact ⟨m₁, hcheck, hchoose⟩

/-- An `init` that returns has put the events of the CPU model into the map, whatever errors it has
reported. -/
theorem counters_of_run_init
    (hrun : (init handler cpuModel reader).run (.fresh .fresh) = .ok () m') :
    m'.state.counters = (initialised cpuModel reader).counters := by
  obtain ⟨m₁, hcheck, hchoose⟩ := run_init_eq_ok hrun
  rw [counters_of_run_setCounters hchoose, (run_checkCounters_eq_ok hcheck).1]
  rfl

/-- `init` on a fresh context goes through without an ignored error exactly when the CPU model has
all the events it chooses. -/
theorem run_init_eq_ok_iff :
    (init handler cpuModel reader).run (.fresh .fresh) = .ok () m' ∧ NoErrorIgnored handler m' ↔
      (∀ register, initialEvents register ∈ reader.eventNames cpuModel) ∧
        m' = .fresh (initialised cpuModel reader) := by
  constructor
  · rintro ⟨hrun, hnone⟩
    obtain ⟨m₁, hcheck, hchoose⟩ := run_init_eq_ok hrun
    obtain ⟨hmem, _, rfl⟩ := run_setCounters_eq_ok_iff.mp ⟨hchoose, hnone⟩
    obtain ⟨hstate, hfresh⟩ := run_checkCounters_eq_ok hcheck
    have hnames : ∀ register, initialEvents register ∈ reader.eventNames cpuModel := by
      intro register
      have hregister := hmem register
      rw [hstate] at hregister
      exact mem_counters_initialised.mp hregister
    have hne : reader.getCounters cpuModel ≠ [] := by
      intro hempty
      have hone := hnames .one
      rw [HwCounterJsonReader.eventNames, hempty] at hone
      exact absurd hone List.not_mem_nil
    rw [hfresh hne]
    exact ⟨hnames, rfl⟩
  · rintro ⟨hnames, rfl⟩
    have hne : (reader.getCounters cpuModel).isEmpty = false := by
      obtain ⟨event, hevent, _⟩ := List.mem_map.mp (hnames .one)
      exact List.isEmpty_eq_false_iff_exists_mem.mpr ⟨event, hevent⟩
    have hcheck : (checkCounters handler (reader.getCounters cpuModel)).run
        (.fresh .fresh) = .ok () (.fresh .fresh) := by
      rw [checkCounters, hne]
      rfl
    constructor
    · rw [init, run_bind_of_ok hcheck, run_bind_of_ok (run_modifyState _ _)]
      exact run_setCounters_of_mem handler fun register ↦
        mem_counters_initialised.mpr (hnames register)
    · exact .inr fun _ hevent ↦ absurd hevent List.not_mem_nil

end Init

/-! ### Programming what was chosen -/

/-- What the lookups of `startMonitoring` find, an event of zeros where a name is not there. -/
def PcmContext.descriptions (context : PcmContext) (registers : List CounterRegister) :
    List CustomCoreEventDescription :=
  registers.map fun register ↦
    ((context.counters.lookup (context.chosenEvents register)).getD .default).description

/-- The four descriptions PCM is programmed with. -/
def PcmContext.programming (context : PcmContext) : List CustomCoreEventDescription :=
  context.descriptions CounterRegister.all

/-- The programming of a register is in its place. -/
theorem getElem?_programming (context : PcmContext) (register : CounterRegister) :
    context.programming[register.toNat]? = some
      ((context.counters.lookup (context.chosenEvents register)).getD .default).description := by
  cases register <;> rfl

/-- The context after `m_counters[eventName]`. -/
def PcmContext.lookedUp (context : PcmContext) (eventName : String) : PcmContext :=
  { context with counters := touch .default context.counters eventName }

/-- The context after the lookups of `startMonitoring`. -/
def PcmContext.described (context : PcmContext) (registers : List CounterRegister) : PcmContext :=
  registers.foldl (fun context register ↦ context.lookedUp (context.chosenEvents register)) context

section Lookups

variable {context : PcmContext} {registers : List CounterRegister}

/-- The descriptions of registers do not depend on a name looked up before. -/
theorem PcmContext.descriptions_lookedUp (context : PcmContext) (eventName : String)
    (registers : List CounterRegister) :
    (context.lookedUp eventName).descriptions registers = context.descriptions registers := by
  refine List.map_congr_left fun register _ ↦ ?_
  exact congrArg HwEvent.description (getD_lookup_touch _ context.counters eventName _)

/-- With the chosen names there, the lookups of `startMonitoring` change nothing. -/
theorem PcmContext.described_of_mem
    (h : ∀ register, context.chosenEvents register ∈ context.counters) :
    context.described registers = context := by
  induction registers with
  | nil => rfl
  | cons register registers ih =>
    rw [described, List.foldl_cons, lookedUp, touch_of_mem _ (h register)]
    exact ih

/-- The lookups of `startMonitoring` keep what is stored. -/
theorem PcmContext.lookup_described_of_some {name : String} {event : HwEvent}
    (h : context.counters.lookup name = some event) :
    (context.described registers).counters.lookup name = some event := by
  induction registers generalizing context with
  | nil => exact h
  | cons register registers ih => exact ih (lookup_touch_of_some _ h _)

end Lookups

/-- What `m_counters[eventName]` returns and leaves behind. -/
theorem run_lookupCounter (eventName : String) (m : Machine Event PcmContext) :
    (lookupCounter eventName).run m = .ok
      ((m.state.counters.lookup eventName).getD .default)
      { m with state := m.state.lookedUp eventName } := by
  rw [lookupCounter, run_bind_of_ok (run_readState m), PcmContext.lookedUp, touch]
  cases m.state.counters.lookup eventName <;> rfl

/-- What the lookups of `startMonitoring` return and leave behind. -/
theorem run_collect_describe (registers : List CounterRegister) (m : Machine Event PcmContext) :
    (collect describe registers).run m = .ok (m.state.descriptions registers)
      { m with state := m.state.described registers } := by
  induction registers generalizing m with
  | nil => rfl
  | cons register registers ih =>
    have hfirst : (describe register).run m = .ok (m.state.descriptions [register])
        { m with state := m.state.lookedUp (m.state.chosenEvents register) } := by
      rw [describe, run_bind_of_ok (run_readState m), run_bind_of_ok (run_lookupCounter _ m)]
      rfl
    rw [collect, run_bind_of_ok hfirst, run_bind_of_ok (ih _), PcmContext.descriptions_lookedUp]
    rfl

/-- PCM is programmed with what the lookups find, and the rest is up to the code it returns. -/
theorem run_startMonitoring (handler : FatalHandler) (status : ErrorCode)
    (m : Machine Event PcmContext) : (startMonitoring handler status).run m =
      (reportStatus handler status).run
        ⟨m.state.described CounterRegister.all, m.trace ++ [.program m.state.programming]⟩ := by
  rw [startMonitoring, run_bind_of_ok (run_collect_describe _ m), run_bind_of_ok (run_emit _ _)]
  rfl

/-- When PCM reports success, that is printed. -/
theorem run_startMonitoring_success (handler : FatalHandler)
    (h : ∀ register, m.state.chosenEvents register ∈ m.state.counters) :
    (startMonitoring handler .success).run m = .ok ()
      { m with trace := m.trace ++ [.program m.state.programming, .output "OK\n"] } := by
  rw [run_startMonitoring, PcmContext.described_of_mem h, reportStatus, if_pos rfl, run_emit,
    List.append_assoc]
  rfl

/-- Whatever PCM returns and the handler does, what follows programs nothing and leaves the context
as it is. -/
theorem after_reportStatus (handler : FatalHandler) (status : ErrorCode)
    (m : Machine Event PcmContext) : ∃ rest,
      after ((reportStatus handler status).run m) = { m with trace := m.trace ++ rest } ∧
        ∀ description, Event.program description ∉ rest := by
  have hfatal : ∀ (message : String) (m : Machine Event PcmContext),
      after ((handleFatalError handler message).run m) =
        { m with trace := m.trace ++ [.cleanup, .fatalError message] } :=
    fun message m ↦ after_run_handleFatalError handler message m
  rw [reportStatus]
  split_ifs with hsuccess
  · exact ⟨[.output "OK\n"], rfl, by simp⟩
  · cases status with
    | success => exact absurd rfl hsuccess
    | msrAccessDenied => exact ⟨_, hfatal _ m, by simp⟩
    | unknownError => exact ⟨_, hfatal _ m, by simp⟩
    | pmuBusy =>
      rw [handlePcmProgramError, run_bind_of_ok (run_readState m)]
      split_ifs with hreset
      · refine ⟨[.resetPMU, .cleanup, .fatalError
          "PcmContext::startMontoring failed because PMU is busy, resetting device"], ?_, by simp⟩
        rw [run_bind_of_ok (run_emit _ _), hfatal, List.append_assoc]
        rfl
      · exact ⟨_, hfatal _ m, by simp⟩

/-- `startMonitoring` programs PCM once, with what the lookups find, and leaves behind what they
do. -/
theorem after_startMonitoring (handler : FatalHandler) (status : ErrorCode)
    (m : Machine Event PcmContext) : ∃ rest,
      emitted (startMonitoring handler status) m = .program m.state.programming :: rest ∧
      (∀ description, Event.program description ∉ rest) ∧
      (after ((startMonitoring handler status).run m)).state =
        m.state.described CounterRegister.all := by
  obtain ⟨rest, hafter, hrest⟩ := after_reportStatus handler status
    ⟨m.state.described CounterRegister.all, m.trace ++ [.program m.state.programming]⟩
  rw [← run_startMonitoring handler status m] at hafter
  refine ⟨rest, emitted_of_trace ?_, hrest, ?_⟩
  · rw [hafter, List.append_assoc]
    rfl
  · rw [hafter]

end PcmWrapper
