import PcmWrapper.EventProgramming
import PcmWrapper.Library.Throughout

/-!
# Names that are no events

`setCounter` checks the name before it assigns it, but the check is a call of the fatal error
handler, and the assignment follows whenever the handler returns. A refused name is chosen all the
same then, and the next start looks it up with `m_counters[...]`, which inserts an event of zeros:
PCM is programmed with a description of no event, and the name passes the check from then on.

`refusals_hold_throughout_iff` says which runs from a completed `init` on never see this: those in
which every name is an event of the CPU model, the four names of `init` included. The handler in
force during `init` need not be the one in force later.
-/

set_option autoImplicit false
set_option relaxedAutoImplicit false

namespace PcmWrapper

open Library

/-! ### What refusing a name should mean -/

/-- The names refused so far: a choice is refused when it reports a fatal error. -/
def refusedNames (handler : FatalHandler) (m : Machine Event PcmContext) (refused : List String) :
    ContextCall → List String
  | .setCounter register eventName =>
    if Raises (PcmWrapper.setCounter handler register eventName) m then refused ++ [eventName]
    else refused
  | .startMonitoring _ => refused
  | .resetMsrIfBusy => refused

/-- Each chosen name is an event of the CPU model. -/
def ChoosesEvents (reader : HwCounterJsonReader) (cpuModel : ℤ) (m : Machine Event PcmContext) :
    Prop :=
  ∀ register, m.state.getEventName register ∈ reader.eventNames cpuModel

/-- A name that is no event of the CPU model is refused with a fatal error and leaves the choices
and the map as they are, a name refused before is refused again, and what PCM is programmed with are
the codes of events of the CPU model. -/
def RefusesUnknown (handler : FatalHandler) (reader : HwCounterJsonReader) (cpuModel : ℤ)
    (m : Machine Event PcmContext) (refused : List String) : ContextCall → Prop
  | .setCounter register eventName =>
    let choice := PcmWrapper.setCounter handler register eventName
    (eventName ∉ reader.eventNames cpuModel → Raises choice m ∧
      (after (choice.run m)).state.chosenEvents = m.state.chosenEvents ∧
      (after (choice.run m)).state.counters = m.state.counters) ∧
    (eventName ∈ refused → Raises choice m)
  | .startMonitoring status => ∀ description,
    Event.program description ∈ emitted (PcmWrapper.startMonitoring handler status) m →
      ∀ code ∈ description, ∃ event ∈ reader.getCounters cpuModel, code = event.description
  | .resetMsrIfBusy => True

/-- A name that is chosen is one of the given names. -/
def ContextCall.NamesEvent (names : List String) : ContextCall → Prop
  | .setCounter _ eventName => eventName ∈ names
  | .startMonitoring _ => True
  | .resetMsrIfBusy => True

instance (names : List String) : DecidablePred (ContextCall.NamesEvent names)
  | .setCounter _ eventName => inferInstanceAs (Decidable (eventName ∈ names))
  | .startMonitoring _ => .isTrue trivial
  | .resetMsrIfBusy => .isTrue trivial

/-! ### Choosing behind the check -/

section Choosing

variable {handler : FatalHandler} {register : CounterRegister} {eventName : String}
  {m m' : Machine Event PcmContext}

/-- A choice that returns has assigned the name, whether or not it was refused. -/
theorem state_of_run_setCounter (hrun : (setCounter handler register eventName).run m = .ok () m') :
    m'.state = m.state.choose register eventName := by
  by_cases h : eventName ∈ m.state.counters
  · rw [run_setCounter_of_mem handler register h] at hrun
    cases hrun
    rfl
  · rw [run_setCounter_of_notMem handler register h, run_bind_eq_ok] at hrun
    obtain ⟨_, m'', hfatal, hchoose⟩ := hrun
    have hafter := after_run_handleFatalError handler (eventNotFound eventName) m
    rw [hfatal, after_ok] at hafter
    cases hchoose
    rw [hafter]
    rfl

/-- Four choices that return have assigned their names. -/
theorem chosenEvents_of_run_setCounters {names : CounterRegister → String}
    (hrun : (setCounters handler names).run m = .ok () m') : m'.state.chosenEvents = names := by
  obtain ⟨_, m₁, hone, hrun⟩ := run_bind_eq_ok.mp hrun
  obtain ⟨_, m₂, htwo, hrun⟩ := run_bind_eq_ok.mp hrun
  obtain ⟨_, m₃, hthree, hfour⟩ := run_bind_eq_ok.mp hrun
  rw [state_of_run_setCounter hfour, state_of_run_setCounter hthree, state_of_run_setCounter htwo,
    state_of_run_setCounter hone, choose_all]

/-- A choice reports a fatal error exactly when the name is not there. -/
theorem raises_setCounter_iff :
    Raises (setCounter handler register eventName) m ↔ eventName ∉ m.state.counters := by
  by_cases h : eventName ∈ m.state.counters
  · have htrace : (after ((setCounter handler register eventName).run m)).trace =
        m.trace ++ [] := by
      rw [run_setCounter_of_mem handler register h, after_ok, List.append_nil]
    have hquiet := (not_raises_iff htrace).mpr fun _ hevent ↦ absurd hevent List.not_mem_nil
    exact ⟨fun hraises ↦ absurd hraises hquiet, fun hnotMem ↦ absurd h hnotMem⟩
  · have htrace : (after ((setCounter handler register eventName).run m)).trace =
        m.trace ++ [.cleanup, .fatalError (eventNotFound eventName)] := by
      rw [run_setCounter_of_notMem handler register h, trace_after_bind_modifyState,
        after_run_handleFatalError, trace_afterFatalError]
    exact ⟨fun _ ↦ h, fun _ ↦ raises_of_fatalError htrace⟩

/-- Behind a handler that returns, a start returns. -/
theorem run_reportStatus_of_returns (hhandler : handler.AlwaysReturns) (status : ErrorCode)
    (m : Machine Event PcmContext) : ∃ m', (reportStatus handler status).run m = .ok () m' := by
  have hfatal : ∀ (message : String) (m : Machine Event PcmContext),
      (handleFatalError handler message).run m = .ok () (afterFatalError message m) :=
    fun message ↦ run_handleFatalError_of_returns (hhandler message)
  rw [reportStatus]
  split_ifs with hsuccess
  · exact ⟨_, run_emit _ m⟩
  · cases status with
    | success => exact absurd rfl hsuccess
    | msrAccessDenied => exact ⟨_, hfatal _ m⟩
    | unknownError => exact ⟨_, hfatal _ m⟩
    | pmuBusy =>
      rw [handlePcmProgramError, run_bind_of_ok (run_readState m)]
      split_ifs with hreset
      · exact ⟨_, (run_bind_of_ok (run_emit _ m) _).trans (hfatal _ _)⟩
      · exact ⟨_, hfatal _ m⟩

end Choosing

/-! ### One call -/

section Calls

variable {handler : FatalHandler} {reader : HwCounterJsonReader} {cpuModel : ℤ}
  {m m' : Machine Event PcmContext}

/-- The context holds the events of the CPU model, all choices are among them, and no name has been
refused. -/
def MonitorsUnrefused (reader : HwCounterJsonReader) (cpuModel : ℤ) (m : Machine Event PcmContext)
    (refused : List String) : Prop :=
  (∃ selection, Monitors reader cpuModel m.state selection) ∧ refused = []

/-- What PCM is programmed with are the codes of events of the CPU model. -/
theorem exists_event_of_mem_programming {selection : CounterRegister → String}
    (h : Monitors reader cpuModel m.state selection) {code : CustomCoreEventDescription}
    (hcode : code ∈ m.state.programming) :
    ∃ event ∈ reader.getCounters cpuModel, code = event.description := by
  obtain ⟨register, _, rfl⟩ := List.mem_map.mp hcode
  obtain ⟨event, hevent, _, _, hprogrammed⟩ := h.programmed register
  rw [getElem?_programming] at hprogrammed
  exact ⟨event, hevent, Option.some.inj hprogrammed⟩

/-- While all choices are events of the CPU model, a choice of another one is fine. -/
theorem MonitorsUnrefused.refusesUnknown {refused : List String}
    (h : MonitorsUnrefused reader cpuModel m refused) {call : ContextCall}
    (hnames : call.NamesEvent (reader.eventNames cpuModel)) :
    RefusesUnknown handler reader cpuModel m refused call := by
  obtain ⟨⟨selection, hm⟩, rfl⟩ := h
  cases call with
  | setCounter register eventName =>
    exact ⟨fun hunknown ↦ absurd hnames hunknown, fun hrefused ↦ absurd hrefused List.not_mem_nil⟩
  | startMonitoring status =>
    intro description hprogram code hcode
    obtain ⟨rest, hemitted, hrest, _⟩ := after_startMonitoring handler status m
    rw [hemitted, List.mem_cons] at hprogram
    have hdescription := Event.program.inj (hprogram.resolve_right (hrest description))
    rw [hdescription] at hcode
    exact exists_event_of_mem_programming hm hcode
  | resetMsrIfBusy => exact True.intro

/-- A call that names an event of the CPU model, or none, is survived and keeps the invariant.
Assumes: the handler always returns. -/
theorem MonitorsUnrefused.perform (hhandler : handler.AlwaysReturns) {refused : List String}
    (h : MonitorsUnrefused reader cpuModel m refused) {call : ContextCall}
    (hnames : call.NamesEvent (reader.eventNames cpuModel)) :
    ∃ m', survive ((call.perform handler).run m) = .ok () m' ∧
      MonitorsUnrefused reader cpuModel m' (refusedNames handler m refused call) := by
  obtain ⟨⟨selection, hm⟩, rfl⟩ := h
  cases call with
  | setCounter register eventName =>
    have hmem := hm.mem_counters_iff.mpr hnames
    have hquiet : ¬ Raises (PcmWrapper.setCounter handler register eventName) m :=
      mt raises_setCounter_iff.mp (not_not.mpr hmem)
    rw [ContextCall.perform, run_setCounter_of_mem handler register hmem, refusedNames,
      if_neg hquiet]
    exact ⟨_, rfl, ⟨_, hm.choose register hnames⟩, rfl⟩
  | startMonitoring status =>
    obtain ⟨_, _, _, hstate⟩ := after_startMonitoring handler status m
    obtain ⟨m', hrun⟩ := run_reportStatus_of_returns hhandler status
      ⟨m.state.described CounterRegister.all, m.trace ++ [.program m.state.programming]⟩
    rw [← run_startMonitoring] at hrun
    rw [hrun, after_ok, PcmContext.described_of_mem hm.chosen_mem_counters] at hstate
    refine ⟨m', ?_, ⟨selection, ?_⟩, rfl⟩
    · rw [ContextCall.perform, hrun, survive]
    · rw [hstate]
      exact hm
  | resetMsrIfBusy =>
    exact ⟨_, rfl, ⟨selection, hm.counters_eq, hm.chosen_eq, hm.chosen_mem⟩, rfl⟩

/-- A choice of a name that is no event replaces one that is. Assumes: the handler always
returns. -/
theorem MonitorsUnrefused.not_refusesUnknown (hhandler : handler.AlwaysReturns)
    {refused : List String} (h : MonitorsUnrefused reader cpuModel m refused) {call : ContextCall}
    (hunknown : ¬ call.NamesEvent (reader.eventNames cpuModel)) :
    ¬ RefusesUnknown handler reader cpuModel m refused call := by
  obtain ⟨⟨selection, hm⟩, rfl⟩ := h
  cases call with
  | setCounter register eventName =>
    intro hrefuses
    have hkept := (hrefuses.1 hunknown).2.1
    have hnotMem := mt hm.mem_counters_iff.mp hunknown
    have hfatal := run_handleFatalError_of_returns (hhandler (eventNotFound eventName)) m
    rw [run_setCounter_of_notMem handler register hnotMem, run_bind_of_ok hfatal] at hkept
    have hself : (m.state.choose register eventName).chosenEvents register = eventName := by
      simp [PcmContext.choose]
    have hchosen := (congrFun hkept register).symm.trans hself
    exact hnotMem (hchosen ▸ hm.chosen_mem_counters register)
  | startMonitoring status => exact absurd True.intro hunknown
  | resetMsrIfBusy => exact absurd True.intro hunknown

end Calls

/-- From a completed `init` on, in every reachable state each chosen name is an event of the CPU
model, a choice of another name is refused and changes nothing, again and again, and
`startMonitoring` programs codes of events of the CPU model only, exactly when the CPU model has the
four events of `init` and every name chosen later. Assumes: the handler always returns, and `init`
completed, with whatever handler. -/
theorem refusals_hold_throughout_iff {initialHandler handler : FatalHandler}
    (hhandler : handler.AlwaysReturns) {reader : HwCounterJsonReader} {cpuModel : ℤ}
    {m₀ : Machine Event PcmContext}
    (hinit : (init initialHandler cpuModel reader).run (.fresh .fresh) = .ok () m₀)
    (calls : List ContextCall) :
    Throughout (ContextCall.perform handler) (refusedNames handler)
      (fun m _ ↦ ChoosesEvents reader cpuModel m) (RefusesUnknown handler reader cpuModel) calls
      m₀ [] ↔
        (∀ register, initialEvents register ∈ reader.eventNames cpuModel) ∧
          ∀ call ∈ calls, call.NamesEvent (reader.eventNames cpuModel) := by
  obtain ⟨_, _, hchoose⟩ := run_init_eq_ok hinit
  have hchosen := chosenEvents_of_run_setCounters hchoose
  have hcounters := counters_of_run_init hinit
  by_cases hnames : ∀ register, initialEvents register ∈ reader.eventNames cpuModel
  · rw [and_iff_right hnames]
    refine throughout_iff (MonitorsUnrefused reader cpuModel)
      (fun _ _ ↦ ContextCall.NamesEvent (reader.eventNames cpuModel))
      (fun calls _ ↦ ∀ call ∈ calls, ContextCall.NamesEvent (reader.eventNames cpuModel) call)
      ?_ (fun _ _ _ hm ↦ hm.refusesUnknown) ?_ ?_ ?_ ?_
      ⟨⟨initialEvents, hcounters, hchosen, hnames⟩, rfl⟩
    · rintro m _ ⟨⟨selection, hm⟩, _⟩ register
      rw [PcmContext.getEventName, hm.chosen_eq]
      exact hm.chosen_mem register
    · intro m refused call m' hm hallowed hsurvived
      obtain ⟨next, hnext, hkept⟩ := hm.perform hhandler hallowed
      rw [hnext] at hsurvived
      cases hsurvived
      exact hkept
    · intro m refused call hm hnot hrefuses
      exact absurd hrefuses (hm.not_refusesUnknown hhandler hnot)
    · exact fun _ _ _ _ hcall ↦ absurd hcall List.not_mem_nil
    · intro m refused call calls hm
      rw [List.forall_mem_cons]
      refine and_congr_right fun hallowed ↦ ?_
      obtain ⟨next, hnext, _⟩ := hm.perform hhandler hallowed
      exact ⟨fun hcalls _ _ ↦ hcalls, fun hcalls ↦ hcalls next hnext⟩
  · refine iff_of_false (fun hholds ↦ hnames fun register ↦ ?_) fun hboth ↦ hnames hboth.1
    have hstart := hholds.start register
    rw [PcmContext.getEventName, hchosen] at hstart
    exact hstart

/-- On Skylake, a run with a choice and a start. -/
theorem refusals_hold_throughout_skylake :
    let reader := loadedReader excerptFiles [skylakeLoad]
    let handler : FatalHandler := fun _ ↦ .returns
    Throughout (ContextCall.perform handler) (refusedNames handler)
      (fun m _ ↦ ChoosesEvents reader 94 m) (RefusesUnknown handler reader 94)
      [.setCounter .one "UOPS_EXECUTED.CYCLES_GE_1_UOP_EXEC", .startMonitoring .pmuBusy]
      (after ((init defaultFatalHandler 94 reader).run (.fresh .fresh))) [] := by
  intro reader handler
  have hinit : (init defaultFatalHandler 94 reader).run (.fresh .fresh) =
      .ok () (after ((init defaultFatalHandler 94 reader).run (.fresh .fresh))) :=
    eq_ok_of_returned (returned_init_skylake defaultFatalHandler)
  exact (refusals_hold_throughout_iff (fun _ ↦ rfl) hinit _).mpr (by decide +kernel)

/-- On Skylake, a name that is no event is chosen behind the fatal error. -/
theorem unknownName_chosen :
    let reader := loadedReader excerptFiles [skylakeLoad]
    let handler : FatalHandler := fun _ ↦ .returns
    ¬ Throughout (ContextCall.perform handler) (refusedNames handler)
      (fun m _ ↦ ChoosesEvents reader 94 m) (RefusesUnknown handler reader 94)
      [.setCounter .one "NO_SUCH_EVENT"]
      (after ((init defaultFatalHandler 94 reader).run (.fresh .fresh))) [] := by
  intro reader handler h
  obtain ⟨_, hchosen⟩ := h.final (eq_ok_of_returned (by decide +kernel))
  exact absurd (hchosen .one) (by decide +kernel)

end PcmWrapper
