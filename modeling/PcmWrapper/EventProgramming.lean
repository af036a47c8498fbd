import Mathlib.Data.List.Induction
import PcmWrapper.DatabaseLoads
import PcmWrapper.PcmContext

/-!
# Which events are programmed

`startMonitoring` reads the map of events with an operator that inserts, so that what it programs
rests on an invariant: after `init` the keys of the map are the names of the CPU model and never
change, and every chosen name is one of them. `Monitors` is that invariant together with the
choices, and every call keeps it (`monitors_perform`).

`startMonitoring_programs_chosenEvents` reads off what PCM gets at any time: for each register the
codes of the one event whose name was chosen last. `eventHeader_names_programmed_iff` compares it
with the header of a printed table, which names the choices of the moment: the two agree until
another name is chosen for a register behind the latest start.
-/

set_option autoImplicit false
set_option relaxedAutoImplicit false

namespace PcmWrapper

open Library

/-! ### Calls and choices -/

/-- The calls of an initialised context, with the code `PCM::program` returns. -/
inductive ContextCall
  | setCounter (register : CounterRegister) (eventName : String)
  | startMonitoring (status : ErrorCode)
  | resetMsrIfBusy
  deriving DecidableEq

/-- Make a call. -/
def ContextCall.perform (handler : FatalHandler) : ContextCall → Program PcmContext Unit
  | .setCounter register eventName => PcmWrapper.setCounter handler register eventName
  | .startMonitoring status => PcmWrapper.startMonitoring handler status
  | .resetMsrIfBusy => PcmWrapper.resetMsrIfBusy

/-- The choices after a call, when the given names are there. -/
def select (names : List String) (selection : CounterRegister → String) :
    ContextCall → CounterRegister → String
  | .setCounter register eventName =>
    if eventName ∈ names then Function.update selection register eventName else selection
  | .startMonitoring _ => selection
  | .resetMsrIfBusy => selection

/-- The context holds the events of the CPU model, and the choices are among them. -/
structure Monitors (reader : HwCounterJsonReader) (cpuModel : ℤ) (context : PcmContext)
    (selection : CounterRegister → String) : Prop where
  counters_eq : context.counters = (initialised cpuModel reader).counters
  chosen_eq : context.chosenEvents = selection
  chosen_mem : ∀ register, selection register ∈ reader.eventNames cpuModel

section Invariant

variable {handler : FatalHandler} {reader : HwCounterJsonReader} {cpuModel : ℤ}
  {m : Machine Event PcmContext} {selection : CounterRegister → String}

/-- The keys of the map are the names of the CPU model. -/
theorem Monitors.mem_counters_iff (h : Monitors reader cpuModel m.state selection)
    {name : String} : name ∈ m.state.counters ↔ name ∈ reader.eventNames cpuModel := by
  rw [h.counters_eq, mem_counters_initialised]

/-- All choices are keys of the map. -/
theorem Monitors.chosen_mem_counters (h : Monitors reader cpuModel m.state selection)
    (register : CounterRegister) : m.state.chosenEvents register ∈ m.state.counters := by
  rw [h.mem_counters_iff, h.chosen_eq]
  exact h.chosen_mem register

/-- Choosing a name of the CPU model for a register. -/
theorem Monitors.choose (h : Monitors reader cpuModel m.state selection)
    (register : CounterRegister) {eventName : String}
    (hname : eventName ∈ reader.eventNames cpuModel) :
    Monitors reader cpuModel (m.state.choose register eventName)
      (Function.update selection register eventName) where
  counters_eq := h.counters_eq
  chosen_eq := by
    rw [PcmContext.choose, h.chosen_eq]
  chosen_mem := by
    intro other
    rw [Function.update_apply]
    split_ifs with hother
    · exact hname
    · exact h.chosen_mem other

/-- Every call keeps the invariant and changes the choices as it should, however it ends. Assumes:
the handler never returns. -/
theorem monitors_perform (hhandler : handler.NeverReturns)
    (h : Monitors reader cpuModel m.state selection) (call : ContextCall) :
    Monitors reader cpuModel (after ((call.perform handler).run m)).state
      (select (reader.eventNames cpuModel) selection call) := by
  cases call with
  | setCounter register eventName =>
    by_cases hname : eventName ∈ reader.eventNames cpuModel
    · have hmem := h.mem_counters_iff.mpr hname
      rw [ContextCall.perform, run_setCounter_of_mem handler register hmem, after_ok, select,
        if_pos hname]
      exact h.choose register hname
    · have hnotMem := mt h.mem_counters_iff.mp hname
      obtain ⟨cause, hrun⟩ := run_setCounter_of_notMem_of_neverReturns hhandler register hnotMem
      rw [ContextCall.perform, hrun, after_error, select, if_neg hname]
      exact h
  | startMonitoring status =>
    obtain ⟨_, _, _, hstate⟩ := after_startMonitoring handler status m
    rw [ContextCall.perform, hstate, PcmContext.described_of_mem h.chosen_mem_counters]
    exact h
  | resetMsrIfBusy => exact ⟨h.counters_eq, h.chosen_eq, h.chosen_mem⟩

/-- After `init` the invariant holds, with the choices `init` makes. -/
theorem monitors_init {m₀ : Machine Event PcmContext}
    (hinit : (init handler cpuModel reader).run (.fresh .fresh) = .ok () m₀)
    (hnone : NoErrorIgnored handler m₀) : Monitors reader cpuModel m₀.state initialEvents := by
  obtain ⟨hnames, rfl⟩ := run_init_eq_ok_iff.mp ⟨hinit, hnone⟩
  exact ⟨rfl, rfl, hnames⟩

/-- After a run that is still going the invariant holds, with the names of the accepted choices.
Assumes: the handler never returns. -/
theorem monitors_runCalls (hhandler : handler.NeverReturns)
    (h : Monitors reader cpuModel m.state selection) {calls : List ContextCall}
    {final : Machine Event PcmContext}
    (hrun : (runCalls (ContextCall.perform handler) calls).run m = .ok () final) :
    Monitors reader cpuModel final.state
      (calls.foldl (select (reader.eventNames cpuModel)) selection) := by
  have hstep : ∀ call m m' selection, Monitors reader cpuModel m.state selection →
      survive ((ContextCall.perform handler call).run m) = .ok () m' →
      Monitors reader cpuModel m'.state
        (select (reader.eventNames cpuModel) selection call) := by
    intro call m m' selection hselection hcall
    rw [← after_of_survive_eq_ok hcall]
    exact monitors_perform hhandler hselection call
  exact runCalls_simulates hstep h hrun

/-- What is programmed into a register are the codes of the one event with the chosen name. -/
theorem Monitors.programmed (h : Monitors reader cpuModel m.state selection)
    (register : CounterRegister) : ∃ event ∈ reader.getCounters cpuModel,
      event.name = selection register ∧
      (∀ other ∈ reader.getCounters cpuModel, other.name = selection register → other = event) ∧
      m.state.programming[register.toNat]? = some event.description := by
  obtain ⟨event, hevent, hname⟩ := List.mem_map.mp (h.chosen_mem register)
  refine ⟨event, hevent, hname, fun other hother hotherName ↦ ?_, ?_⟩
  · exact HwCounterJsonReader.eq_of_name_eq hother hevent (hotherName.trans hname.symm)
  · have hlookup := lookup_initialised.mpr ⟨hevent, hname⟩
    rw [getElem?_programming, h.chosen_eq, h.counters_eq, hlookup, Option.getD_some]

end Invariant

/-- From a completed `init` on, whatever is called, the keys of the map of events stay the same.
While the run goes on, every register has the name of its last accepted choice, a choice is accepted
exactly when the CPU model has the name, and `startMonitoring` programs PCM once, with four
descriptions: for each register the codes of the one event of the CPU model with the chosen name.
Assumes: the handler never returns, and `init` completed. -/
theorem startMonitoring_programs_chosenEvents {handler : FatalHandler}
    (hhandler : handler.NeverReturns) {cpuModel : ℤ} {reader : HwCounterJsonReader}
    {m₀ : Machine Event PcmContext}
    (hinit : (init handler cpuModel reader).run (.fresh .fresh) = .ok () m₀)
    (calls : List ContextCall) :
    let run := (runCalls (ContextCall.perform handler) calls).run m₀
    (∀ name, name ∈ (after run).state.counters ↔ name ∈ m₀.state.counters) ∧
    ∀ m, run = .ok () m →
      (∀ register, m.state.getEventName register =
        calls.foldl (select (reader.eventNames cpuModel)) initialEvents register) ∧
      (∀ register eventName, (∃ m', (setCounter handler register eventName).run m = .ok () m') ↔
        eventName ∈ reader.eventNames cpuModel) ∧
      ∀ status, ∃ description rest,
        emitted (startMonitoring handler status) m = .program description :: rest ∧
        (∀ other, Event.program other ∉ rest) ∧ description.length = 4 ∧
        ∀ register, ∃ event ∈ reader.getCounters cpuModel,
          event.name = m.state.getEventName register ∧
          (∀ other ∈ reader.getCounters cpuModel,
            other.name = m.state.getEventName register → other = event) ∧
          description[register.toNat]? = some ⟨event.eventNumber, event.umaskValue⟩ := by
  intro run
  have hnew := monitors_init hinit (.inl hhandler)
  constructor
  · have hstep : ∀ call m, (∃ selection, Monitors reader cpuModel m.state selection) →
        ∃ selection, Monitors reader cpuModel
          (after ((ContextCall.perform handler call).run m)).state selection :=
      fun call m ⟨_, hm⟩ ↦ ⟨_, monitors_perform hhandler hm call⟩
    obtain ⟨_, hreached⟩ := runCalls_invariant hstep calls ⟨_, hnew⟩
    intro name
    rw [hreached.mem_counters_iff, hnew.mem_counters_iff]
  · intro m hrun
    have hm := monitors_runCalls hhandler hnew hrun
    refine ⟨fun register ↦ congrFun hm.chosen_eq register, fun register eventName ↦ ?_,
      fun status ↦ ?_⟩
    · rw [← hm.mem_counters_iff]
      constructor
      · rintro ⟨m', hok⟩
        exact (run_setCounter_eq_ok_iff.mp ⟨hok, .inl hhandler⟩).1
      · exact fun hmem ↦ ⟨_, run_setCounter_of_mem handler register hmem⟩
    · obtain ⟨rest, hemitted, hrest, _⟩ := after_startMonitoring handler status m
      refine ⟨m.state.programming, rest, hemitted, hrest, rfl, fun register ↦ ?_⟩
      rw [PcmContext.getEventName, hm.chosen_eq]
      exact hm.programmed register

/-- Skylake has the events `init` chooses. -/
theorem returned_init_skylake (handler : FatalHandler) :
    returned ((init handler 94 (loadedReader excerptFiles [skylakeLoad])).run (.fresh .fresh)) =
      true := by
  have hnames : ∀ register,
      initialEvents register ∈ (loadedReader excerptFiles [skylakeLoad]).eventNames 94 := by
    decide +kernel
  have hrun : (init handler 94 (loadedReader excerptFiles [skylakeLoad])).run (.fresh .fresh) =
      .ok () _ := And.left (run_init_eq_ok_iff.mpr ⟨hnames, rfl⟩)
  rw [hrun, returned]

/-- On Skylake, a choice that is accepted, one that is refused, and what is programmed then. -/
theorem startMonitoring_programs_chosenEvents_skylake :
    let handler : FatalHandler := fun _ ↦ .throws
    let m₀ := after ((init handler 94 (loadedReader excerptFiles [skylakeLoad])).run
      (.fresh .fresh))
    let m := after ((runCalls (ContextCall.perform handler)
      [.setCounter .one "UOPS_EXECUTED.CYCLES_GE_1_UOP_EXEC", .setCounter .two "NO_SUCH_EVENT",
        .startMonitoring .success]).run m₀)
    m.state.getEventName .one = "UOPS_EXECUTED.CYCLES_GE_1_UOP_EXEC" ∧
      m.state.getEventName .two = "MEM_LOAD_RETIRED.L2_MISS" ∧
      ∃ description rest, emitted (startMonitoring handler .pmuBusy) m =
        .program description :: rest ∧ description.length = 4 := by
  intro handler m₀ m
  have hhandler : handler.NeverReturns := fun _ ↦ by decide
  have hinit : (init handler 94 (loadedReader excerptFiles [skylakeLoad])).run (.fresh .fresh) =
      .ok () m₀ := eq_ok_of_returned (returned_init_skylake handler)
  have hrun : (runCalls (ContextCall.perform handler)
      [.setCounter .one "UOPS_EXECUTED.CYCLES_GE_1_UOP_EXEC", .setCounter .two "NO_SUCH_EVENT",
        .startMonitoring .success]).run m₀ = .ok () m := eq_ok_of_returned (by decide +kernel)
  obtain ⟨hchosen, _, hstart⟩ :=
    (startMonitoring_programs_chosenEvents hhandler hinit _).2 m hrun
  obtain ⟨description, rest, hemitted, _, hlength, _⟩ := hstart .pmuBusy
  refine ⟨(hchosen .one).trans ?_, (hchosen .two).trans ?_, description, rest, hemitted, hlength⟩
  · decide +kernel
  · decide +kernel

/-! ### What the header of a table names -/

/-- The call is not refused. -/
def ContextCall.Accepted (names : List String) : ContextCall → Prop
  | .setCounter _ eventName => eventName ∈ names
  | .startMonitoring status => status = .success
  | .resetMsrIfBusy => True

instance (names : List String) : DecidablePred (ContextCall.Accepted names) := fun call ↦ by
  cases call <;> unfold ContextCall.Accepted <;> infer_instance

/-- The name a call chooses for a register. -/
def ContextCall.chosenFor (register : CounterRegister) : ContextCall → Option String
  | .setCounter other eventName => if other = register then some eventName else none
  | _ => none

/-- The name chosen for a register last. -/
def lastChosen (register : CounterRegister) (calls : List ContextCall) : Option String :=
  (calls.filterMap (ContextCall.chosenFor register)).getLast?

/-- After accepted calls a register has the name chosen last, if there was one. -/
theorem foldl_select_of_accepted {names : List String} {selection : CounterRegister → String}
    (register : CounterRegister) {calls : List ContextCall}
    (haccepted : ∀ call ∈ calls, call.Accepted names) :
    calls.foldl (select names) selection register =
      (lastChosen register calls).getD (selection register) := by
  induction calls using List.reverseRecOn with
  | nil => rfl
  | append_singleton calls call ih =>
    have hearlier := ih fun other hother ↦ haccepted other (List.mem_append_left _ hother)
    have hcall := haccepted call (List.mem_append_right _ List.mem_cons_self)
    rw [lastChosen] at hearlier ⊢
    rw [List.foldl_append, List.foldl_cons, List.foldl_nil, List.filterMap_append]
    cases call with
    | setCounter other eventName =>
      have hname : eventName ∈ names := hcall
      rw [select, if_pos hname, Function.update_apply]
      by_cases hother : other = register
      · subst hother
        simp [ContextCall.chosenFor]
      · rw [if_neg (Ne.symm hother), hearlier]
        simp [ContextCall.chosenFor, hother]
    | startMonitoring status =>
      rw [select, hearlier]
      simp [ContextCall.chosenFor]
    | resetMsrIfBusy =>
      rw [select, hearlier]
      simp [ContextCall.chosenFor]

section Header

variable {handler : FatalHandler} {reader : HwCounterJsonReader} {cpuModel : ℤ}
  {m : Machine Event PcmContext} {selection : CounterRegister → String}

/-- An accepted call returns, whatever the handler would do, and keeps the invariant. Only starts
show in the trace. -/
theorem monitors_perform_of_accepted (handler : FatalHandler)
    (h : Monitors reader cpuModel m.state selection) {call : ContextCall}
    (haccepted : call.Accepted (reader.eventNames cpuModel)) :
    ∃ m', survive ((call.perform handler).run m) = .ok () m' ∧
      Monitors reader cpuModel m'.state (select (reader.eventNames cpuModel) selection call) ∧
      ((∀ status, call ≠ .startMonitoring status) → m'.trace = m.trace) := by
  cases call with
  | setCounter register eventName =>
    have hname : eventName ∈ reader.eventNames cpuModel := haccepted
    have hmem := h.mem_counters_iff.mpr hname
    refine ⟨{ m with state := m.state.choose register eventName }, ?_, ?_, fun _ ↦ rfl⟩
    · rw [ContextCall.perform, run_setCounter_of_mem handler register hmem, survive]
    · rw [select, if_pos hname]
      exact h.choose register hname
  | startMonitoring status =>
    have hsuccess : status = .success := haccepted
    subst hsuccess
    have hstart := run_startMonitoring_success handler h.chosen_mem_counters
    refine ⟨{ m with trace := m.trace ++ [.program m.state.programming, .output "OK\n"] }, ?_, h,
      fun hne ↦ absurd rfl (hne .success)⟩
    rw [ContextCall.perform, hstart, survive]
  | resetMsrIfBusy =>
    exact ⟨{ m with state := { m.state with resetBusyDevice := true } }, rfl,
      ⟨h.counters_eq, h.chosen_eq, h.chosen_mem⟩, fun _ ↦ rfl⟩

/-- A run of accepted calls goes on to its end and leaves the names chosen last. Without a start
nothing shows in the trace. -/
theorem monitors_runCalls_of_accepted (handler : FatalHandler)
    (h : Monitors reader cpuModel m.state selection) {calls : List ContextCall}
    (haccepted : ∀ call ∈ calls, call.Accepted (reader.eventNames cpuModel)) :
    ∃ final, (runCalls (ContextCall.perform handler) calls).run m = .ok () final ∧
      Monitors reader cpuModel final.state
        (fun register ↦ (lastChosen register calls).getD (selection register)) ∧
      ((∀ status, .startMonitoring status ∉ calls) → final.trace = m.trace) := by
  have hstep : ∀ call ∈ calls, ∀ current chosen,
      Monitors reader cpuModel current.state chosen ∧
        ((∀ status, .startMonitoring status ∉ calls) → current.trace = m.trace) →
      ∃ next, survive ((ContextCall.perform handler call).run current) = .ok () next ∧
        Monitors reader cpuModel next.state (select (reader.eventNames cpuModel) chosen call) ∧
        ((∀ status, .startMonitoring status ∉ calls) → next.trace = m.trace) := by
    intro call hcall current chosen ⟨hcurrent, htrace⟩
    obtain ⟨next, hrun, hnext, hquiet⟩ :=
      monitors_perform_of_accepted handler hcurrent (haccepted call hcall)
    refine ⟨next, hrun, hnext, fun hnoStart ↦ ?_⟩
    have hne : ∀ status, call ≠ .startMonitoring status := fun status heq ↦
      hnoStart status (heq ▸ hcall)
    rw [hquiet hne, htrace hnoStart]
  obtain ⟨final, hrun, hfinal, htrace⟩ := runCalls_follows hstep ⟨h, fun _ ↦ rfl⟩
  have hselection : calls.foldl (select (reader.eventNames cpuModel)) selection =
      fun register ↦ (lastChosen register calls).getD (selection register) :=
    funext fun register ↦ foldl_select_of_accepted register haccepted
  exact ⟨final, hrun, hselection ▸ hfinal, htrace⟩

end Header

/-- In a run of accepted calls, look at its latest start, with the calls before and since. It
programs each register with the codes of the event whose name was chosen then, and nothing is
programmed since. The header names that event for the register exactly when no call since then has
chosen another name for it. Assumes: `init` completed without an ignored error, the calls are
accepted, and there is no start since. -/
theorem eventHeader_names_programmed_iff {handler : FatalHandler} {cpuModel : ℤ}
    {reader : HwCounterJsonReader} {m₀ : Machine Event PcmContext}
    (hinit : (init handler cpuModel reader).run (.fresh .fresh) = .ok () m₀)
    (hnone : NoErrorIgnored handler m₀) (before since : List ContextCall)
    (haccepted : ∀ call ∈ before ++ since, call.Accepted (reader.eventNames cpuModel))
    (hsince : ∀ status, .startMonitoring status ∉ since) :
    ∃ m₁ m₂ m₃, (runCalls (ContextCall.perform handler) before).run m₀ = .ok () m₁ ∧
      (startMonitoring handler .success).run m₁ = .ok () m₂ ∧
      (runCalls (ContextCall.perform handler) since).run m₂ = .ok () m₃ ∧
      emitted (runCalls (ContextCall.perform handler) since) m₂ = [] ∧
      ∃ description, emitted (startMonitoring handler .success) m₁ =
          [.program description, .output "OK\n"] ∧
        ∀ register, ∃ event ∈ reader.getCounters cpuModel,
          event.name = m₁.state.getEventName register ∧
          description[register.toNat]? = some event.description ∧
          (m₃.state.getEventHeader.chosenEvents register = event.name ↔
            ∀ name, lastChosen register since = some name → name = event.name) := by
  have hnew := monitors_init hinit hnone
  obtain ⟨m₁, hbefore, hm₁, _⟩ := monitors_runCalls_of_accepted handler hnew
    fun call hcall ↦ haccepted call (List.mem_append_left since hcall)
  have hstart := run_startMonitoring_success handler hm₁.chosen_mem_counters
  obtain ⟨m₂, hm₂⟩ : ∃ m₂ : Machine Event PcmContext, m₂ = { m₁ with trace := m₁.trace ++
    [.program m₁.state.programming, .output "OK\n"] } := ⟨_, rfl⟩
  rw [← hm₂] at hstart
  have hmonitors : Monitors reader cpuModel m₂.state
      fun register ↦ (lastChosen register before).getD (initialEvents register) := by
    rw [hm₂]
    exact hm₁
  obtain ⟨m₃, hrun, hm₃, htrace⟩ := monitors_runCalls_of_accepted handler hmonitors
    fun call hcall ↦ haccepted call (List.mem_append_right before hcall)
  refine ⟨m₁, m₂, m₃, hbefore, hstart, hrun, ?_, m₁.state.programming, ?_, fun register ↦ ?_⟩
  · exact emitted_of_trace (by rw [hrun, after_ok, htrace hsince, List.append_nil])
  · exact emitted_of_trace (by rw [hstart, after_ok, hm₂])
  · obtain ⟨event, hevent, hname, _, hprogrammed⟩ := hm₁.programmed register
    refine ⟨event, hevent, ?_, hprogrammed, ?_⟩
    · rw [PcmContext.getEventName, hm₁.chosen_eq, hname]
    · have hheader : m₃.state.getEventHeader.chosenEvents register =
          (lastChosen register since).getD event.name := by
        rw [PcmContext.getEventHeader, hm₃.chosen_eq, hname]
      rw [hheader]
      cases lastChosen register since with
      | none => simp
      | some name => simp

/-- On Skylake, with a choice for the first register before the start and one for the second since,
the header names what is programmed into the first. -/
theorem eventHeader_names_programmed_iff_skylake :
    let reader := loadedReader excerptFiles [skylakeLoad]
    ∃ description m₁ m₂ m₃, emitted (startMonitoring defaultFatalHandler .success) m₁ =
        [.program description, .output "OK\n"] ∧
      (startMonitoring defaultFatalHandler .success).run m₁ = .ok () m₂ ∧
      (runCalls (ContextCall.perform defaultFatalHandler)
        [.setCounter .two "MEM_LOAD_RETIRED.L3_MISS"]).run m₂ = .ok () m₃ ∧
      ∃ event ∈ reader.getCounters 94,
        description[CounterRegister.one.toNat]? = some event.description ∧
        m₃.state.getEventHeader.chosenEvents .one = event.name := by
  intro reader
  have hinit : (init defaultFatalHandler 94 reader).run (.fresh .fresh) =
      .ok () (after ((init defaultFatalHandler 94 reader).run (.fresh .fresh))) :=
    eq_ok_of_returned (returned_init_skylake defaultFatalHandler)
  obtain ⟨m₁, m₂, m₃, _, hstart, hrun, _, description, hemitted, hregisters⟩ :=
    eventHeader_names_programmed_iff hinit (.inl defaultFatalHandler_neverReturns)
      [.setCounter .one "UOPS_EXECUTED.CYCLES_GE_1_UOP_EXEC"]
      [.setCounter .two "MEM_LOAD_RETIRED.L3_MISS"] (by decide +kernel)
      (fun status hmem ↦ by cases List.mem_singleton.mp hmem)
  obtain ⟨event, hevent, _, hprogrammed, hheader⟩ := hregisters .one
  have hnone : lastChosen .one [.setCounter .two "MEM_LOAD_RETIRED.L3_MISS"] = none := by decide
  refine ⟨description, m₁, m₂, m₃, hemitted, hstart, hrun, event, hevent, hprogrammed,
    hheader.mpr ?_⟩
  intro name hname
  rw [hnone] at hname
  cases hname

/-- On Skylake, the event the header names for the first register after another choice is not what
has been programmed into it. -/
theorem eventHeader_not_programmed :
    let reader := loadedReader excerptFiles [skylakeLoad]
    let starting := (init defaultFatalHandler 94 reader).run (.fresh .fresh)
    let started := (startMonitoring defaultFatalHandler .success).run (after starting)
    let chosen := (setCounter defaultFatalHandler .one "UOPS_EXECUTED.CYCLES_GE_1_UOP_EXEC").run
      (after started)
    let description := (after starting).state.programming
    returned starting ∧ returned started ∧ returned chosen ∧
      emitted (startMonitoring defaultFatalHandler .success) (after starting) =
        [.program description, .output "OK\n"] ∧
      ¬ ∃ event ∈ reader.getCounters 94,
        event.name = (after chosen).state.getEventHeader.chosenEvents .one ∧
        description[CounterRegister.one.toNat]? = some event.description := by
  decide +kernel

end PcmWrapper
