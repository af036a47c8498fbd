import PcmWrapper.PcmContext

/-!
# Runs of a context from its construction

A `PcmContext` can be used in ways the two programs do not use it: `init` can be called again, with
other databases, names can be chosen in front of it, and its caller can go on behind an `init` that
threw in the middle. What it cannot be asked is to start before any `init`: `m_pcm` has no
initialiser, and `startMonitoring` goes through it. A `PcmRun` is a run of calls without that.
`Programmer` says what the context is for, without its map: which event a name stands for, which
name each register has, and what PCM has been programmed with so far. `programmer_refined` is the
refinement, for every handler and every `PcmRun`, whether or not the process ends.

Two things show there. An `init` adds to what earlier ones have left, so a name that only an earlier
database has is still good. And the lookups of `startMonitoring` store an event of zeros under the
name of a register that has none, after which that name is good too.
-/

set_option autoImplicit false
set_option relaxedAutoImplicit false

namespace PcmWrapper

open Library

variable {handler : FatalHandler}

/-! ### Calls and what they are for -/

/-- The calls of a `PcmContext`, with what PCM and its environment answer. -/
inductive PcmCall
  | init (cpuModel : ℤ) (reader : HwCounterJsonReader)
  | resetMsrIfBusy
  | setCounter (register : CounterRegister) (eventName : String)
  | startMonitoring (status : ErrorCode)

/-- Make a call. What is said of a `startMonitoring` is about contexts behind an `init`, whose first
act is to set `m_pcm`. -/
def PcmCall.perform (handler : FatalHandler) : PcmCall → Program PcmContext Unit
  | .init cpuModel reader => PcmWrapper.init handler cpuModel reader
  | .resetMsrIfBusy => PcmWrapper.resetMsrIfBusy
  | .setCounter register eventName => PcmWrapper.setCounter handler register eventName
  | .startMonitoring status => PcmWrapper.startMonitoring handler status

/-- No call goes through `m_pcm` in front of the first `init`. -/
def UsesPcmBehindInit : List PcmCall → Prop
  | [] => True
  | .init _ _ :: _ => True
  | .resetMsrIfBusy :: calls => UsesPcmBehindInit calls
  | .setCounter _ _ :: calls => UsesPcmBehindInit calls
  | .startMonitoring _ :: _ => False

/-- A run of calls on a new context. An `init` that throws has set `m_pcm` before it does. -/
structure PcmRun where
  calls : List PcmCall
  behindInit : UsesPcmBehindInit calls

/-- How a run ends on a new context. -/
def PcmRun.result (handler : FatalHandler) (run : PcmRun) :
    EStateM.Result (Interrupt Exception) (Machine Event PcmContext) Unit :=
  (runCalls (PcmCall.perform handler) run.calls).run (.fresh .fresh)

/-- The events that names stand for, the names of the registers, and what PCM has been programmed
with, oldest first. -/
structure Programmer where
  known : String → Option HwEvent
  chosen : CounterRegister → String
  programmed : List (List CustomCoreEventDescription)

/-- Nothing is known, and the registers have empty names. -/
def Programmer.start : Programmer := ⟨fun _ ↦ none, fun _ ↦ "", []⟩

/-- Choose a name for a register; none when it is refused. A handler that returns refuses nothing.
-/
def Programmer.choose (handler : FatalHandler) (programmer : Programmer)
    (register : CounterRegister) (eventName : String) : Option Programmer :=
  if (programmer.known eventName).isSome ∨ handler (eventNotFound eventName) = .returns then
    some { programmer with chosen := Function.update programmer.chosen register eventName }
  else none

/-- Choose names for registers, up to the first that is refused. -/
def Programmer.chooseAll (handler : FatalHandler) (names : CounterRegister → String) :
    List CounterRegister → Programmer → Programmer
  | [], programmer => programmer
  | register :: registers, programmer =>
    match programmer.choose handler register (names register) with
    | some programmer => chooseAll handler names registers programmer
    | none => programmer

/-- The events of a database come in front of those that are known. -/
def Programmer.learn (programmer : Programmer) (events : List HwEvent) : Programmer :=
  { programmer with
    known := fun name ↦ (events.find? (·.name = name)).or (programmer.known name) }

/-- What PCM is programmed with: the codes of the chosen events, zeros where there is none. -/
def Programmer.programming (programmer : Programmer) : List CustomCoreEventDescription :=
  CounterRegister.all.map fun register ↦
    ((programmer.known (programmer.chosen register)).getD .default).description

/-- The names of the registers stand for an event of zeros, unless they stand for another. -/
def Programmer.settle (programmer : Programmer) (registers : List CounterRegister) : Programmer :=
  { programmer with
    known := fun name ↦ (programmer.known name).or
      (if ∃ register ∈ registers, programmer.chosen register = name then some .default else none) }

/-- What a call does. -/
def Programmer.step (handler : FatalHandler) (programmer : Programmer) : PcmCall → Programmer
  | .init cpuModel reader =>
    if reader.getCounters cpuModel = [] ∧
        handler "No counters supported for this model" ≠ .returns then programmer
    else (programmer.learn (reader.getCounters cpuModel)).chooseAll handler initialEvents
      CounterRegister.all
  | .resetMsrIfBusy => programmer
  | .setCounter register eventName =>
    programmer.chooseAll handler (fun _ ↦ eventName) [register]
  | .startMonitoring _ =>
    { programmer.settle CounterRegister.all with
      programmed := programmer.programmed ++ [programmer.programming] }

/-- What PCM has been programmed with in a trace. -/
def programmings (trace : List Event) : List (List CustomCoreEventDescription) :=
  trace.filterMap fun event ↦
    match event with
    | .program description => some description
    | _ => none

/-- The machine does what the programmer says. -/
structure Refines (m : Machine Event PcmContext) (programmer : Programmer) : Prop where
  counters : ∀ name, m.state.counters.lookup name = programmer.known name
  chosenEvents : m.state.chosenEvents = programmer.chosen
  programmed : programmings m.trace = programmer.programmed

/-! ### The map of a context -/

/-- The events of a CPU model come in front of what the map holds. -/
theorem lookup_insertAll_getCounters (reader : HwCounterJsonReader) (cpuModel : ℤ)
    (store : AList fun _ : String ↦ HwEvent) (name : String) :
    (insertAll HwEvent.name (reader.getCounters cpuModel) store).lookup name =
      ((reader.getCounters cpuModel).find? (·.name = name)).or (store.lookup name) := by
  refine Option.ext fun event ↦ ?_
  rw [lookup_insertAll_eq_some HwEvent.name fun _ hfirst _ hsecond ↦
    HwCounterJsonReader.eq_of_name_eq hfirst hsecond]
  cases hfind : (reader.getCounters cpuModel).find? (·.name = name) with
  | none =>
    have hnone : ∀ other ∈ reader.getCounters cpuModel, other.name ≠ name :=
      fun other hother heq ↦ List.find?_eq_none.mp hfind other hother (decide_eq_true heq)
    rw [Option.none_or]
    exact ⟨fun h ↦ h.elim (fun ⟨hmem, hname⟩ ↦ absurd hname (hnone event hmem)) And.right,
      fun h ↦ Or.inr ⟨hnone, h⟩⟩
  | some found =>
    have hfound : found ∈ reader.getCounters cpuModel := List.mem_of_find?_eq_some hfind
    have hname : found.name = name := by simpa using List.find?_some hfind
    rw [Option.some_or, Option.some.injEq]
    constructor
    · rintro (⟨hmem, heq⟩ | ⟨hnone, -⟩)
      · exact HwCounterJsonReader.eq_of_name_eq hfound hmem (hname.trans heq.symm)
      · exact absurd hname (hnone found hfound)
    · rintro rfl
      exact Or.inl ⟨hfound, hname⟩

/-- A lookup stores the event of zeros under a name that is not there. -/
theorem lookup_lookedUp (context : PcmContext) (eventName name : String) :
    (context.lookedUp eventName).counters.lookup name =
      (context.counters.lookup name).or (if eventName = name then some .default else none) := by
  show (touch _ context.counters eventName).lookup name = _
  rw [touch]
  by_cases heq : eventName = name
  · subst heq
    rw [if_pos rfl]
    cases h : context.counters.lookup eventName with
    | some event => exact h
    | none => exact AList.lookup_insert _
  · rw [if_neg heq, Option.or_none]
    cases context.counters.lookup eventName with
    | some event => rfl
    | none => exact AList.lookup_insert_ne (Ne.symm heq)

/-- So do those of `startMonitoring`. -/
theorem lookup_described (context : PcmContext) (registers : List CounterRegister)
    (name : String) : (context.described registers).counters.lookup name =
      (context.counters.lookup name).or
        (if ∃ register ∈ registers, context.chosenEvents register = name then some .default
          else none) := by
  induction registers generalizing context with
  | nil => simp [PcmContext.described]
  | cons register registers ih =>
    have hfirst := lookup_lookedUp context (context.chosenEvents register) name
    rw [PcmContext.described, List.foldl_cons]
    refine (ih (context.lookedUp (context.chosenEvents register))).trans ?_
    rw [hfirst, Option.or_assoc]
    refine congrArg _ ?_
    by_cases hname : context.chosenEvents register = name
    · rw [if_pos hname, Option.some_or, if_pos ⟨register, List.mem_cons_self, hname⟩]
    · rw [if_neg hname, Option.none_or]
      simp only [List.mem_cons, exists_eq_or_imp, hname, false_or]
      rfl

/-! ### Calls refine the programmer -/

section Refinement

variable {m m' : Machine Event PcmContext} {programmer : Programmer}

@[simp] theorem programmings_append (earlier later : List Event) :
    programmings (earlier ++ later) = programmings earlier ++ programmings later :=
  List.filterMap_append

/-- A trace without programming. -/
theorem programmings_eq_nil {trace : List Event}
    (h : ∀ description, Event.program description ∉ trace) : programmings trace = [] := by
  refine List.filterMap_eq_nil_iff.mpr fun event hevent ↦ ?_
  cases event with
  | program description => exact absurd hevent (h description)
  | _ => rfl

/-- A fatal error changes nothing the programmer says. -/
theorem Refines.afterFatalError (h : Refines m programmer) (message : String) :
    Refines (afterFatalError message m) programmer where
  counters := h.counters
  chosenEvents := h.chosenEvents
  programmed := by
    rw [trace_afterFatalError, programmings_append, h.programmed]
    exact List.append_nil _

/-- A name that is accepted is chosen. -/
theorem Refines.run_setCounter_of_some (h : Refines m programmer) {register : CounterRegister}
    {eventName : String} {next : Programmer}
    (hchoose : programmer.choose handler register eventName = some next) :
    ∃ m', (setCounter handler register eventName).run m = .ok () m' ∧ Refines m' next := by
  rw [Programmer.choose] at hchoose
  split_ifs at hchoose with hallowed
  cases hchoose
  by_cases hmem : eventName ∈ m.state.counters
  · refine ⟨_, run_setCounter_of_mem handler register hmem, h.counters, ?_, h.programmed⟩
    exact congrArg (Function.update · register eventName) h.chosenEvents
  · have hreturns : handler (eventNotFound eventName) = .returns := by
      refine hallowed.resolve_left fun hsome ↦ hmem ?_
      rw [← h.counters] at hsome
      exact AList.lookup_isSome.mp hsome
    have hafter := h.afterFatalError (eventNotFound eventName)
    refine ⟨_, (run_setCounter_of_notMem handler register hmem).trans
      (run_bind_of_ok (run_handleFatalError_of_returns hreturns m) _), hafter.counters, ?_,
      hafter.programmed⟩
    exact congrArg (Function.update · register eventName) hafter.chosenEvents

/-- A name that is refused ends the call. -/
theorem Refines.run_setCounter_of_none (h : Refines m programmer) {register : CounterRegister}
    {eventName : String} (hchoose : programmer.choose handler register eventName = none) :
    ∃ cause m', (setCounter handler register eventName).run m = .error cause m' ∧
      Refines m' programmer := by
  rw [Programmer.choose] at hchoose
  split_ifs at hchoose with hallowed
  have hnotMem : eventName ∉ m.state.counters := by
    intro hmem
    have hsome := AList.lookup_isSome.mpr hmem
    rw [h.counters] at hsome
    exact hallowed (Or.inl hsome)
  have hreturns : handler (eventNotFound eventName) ≠ .returns := fun heq ↦ hallowed (Or.inr heq)
  obtain ⟨cause, herror⟩ := run_handleFatalError_of_ne_returns hreturns m
  exact ⟨cause, _, (run_setCounter_of_notMem handler register hnotMem).trans
    (run_bind_of_error herror _), h.afterFatalError (eventNotFound eventName)⟩

/-- Choices in front of others: what follows matters only where the first is accepted. -/
theorem Refines.after_bind_setCounter (h : Refines m programmer)
    {names : CounterRegister → String} (register : CounterRegister)
    (registers : List CounterRegister) {next : Unit → Program PcmContext Unit}
    (hnext : ∀ {m' programmer'}, Refines m' programmer' → Refines (after ((next ()).run m'))
      (programmer'.chooseAll handler names registers)) :
    Refines (after ((setCounter handler register (names register) >>= next).run m))
      (programmer.chooseAll handler names (register :: registers)) := by
  rw [Programmer.chooseAll]
  cases hchoose : programmer.choose handler register (names register) with
  | some programmer' =>
    obtain ⟨m', hrun, hrefines⟩ := h.run_setCounter_of_some hchoose
    rw [run_bind_of_ok hrun]
    exact hnext hrefines
  | none =>
    obtain ⟨cause, m', hrun, hrefines⟩ := h.run_setCounter_of_none hchoose
    rw [run_bind_of_error hrun]
    exact hrefines

/-- A single choice. -/
theorem Refines.after_setCounter (h : Refines m programmer) (names : CounterRegister → String)
    (register : CounterRegister) :
    Refines (after ((setCounter handler register (names register)).run m))
      (programmer.chooseAll handler names [register]) := by
  rw [← bind_pure_unit (x := setCounter handler register (names register))]
  exact h.after_bind_setCounter register [] fun h ↦ h

/-- The choices of `init`. -/
theorem Refines.after_setCounters (h : Refines m programmer) (names : CounterRegister → String) :
    Refines (after ((setCounters handler names).run m))
      (programmer.chooseAll handler names CounterRegister.all) :=
  h.after_bind_setCounter .one _ fun h ↦ h.after_bind_setCounter .two _ fun h ↦
    h.after_bind_setCounter .three _ fun h ↦ h.after_setCounter names .four

/-- The events of a database are learned. -/
theorem Refines.learn (h : Refines m programmer) (reader : HwCounterJsonReader) (cpuModel : ℤ) :
    Refines ⟨{ m.state with
      counters := insertAll HwEvent.name (reader.getCounters cpuModel) m.state.counters }, m.trace⟩
      (programmer.learn (reader.getCounters cpuModel)) where
  counters := fun name ↦ by
    rw [lookup_insertAll_getCounters, h.counters]
    rfl
  chosenEvents := h.chosenEvents
  programmed := h.programmed

/-- An `init`, however it ends. -/
theorem Refines.after_init (h : Refines m programmer) (cpuModel : ℤ)
    (reader : HwCounterJsonReader) : Refines (after ((init handler cpuModel reader).run m))
      (programmer.step handler (.init cpuModel reader)) := by
  have hrest : ∀ {m'}, Refines m' programmer →
      (checkCounters handler (reader.getCounters cpuModel)).run m = .ok () m' →
      Refines (after ((init handler cpuModel reader).run m))
        ((programmer.learn (reader.getCounters cpuModel)).chooseAll handler initialEvents
          CounterRegister.all) := by
    intro m' hm' hcheck
    rw [init, run_bind_of_ok hcheck, run_bind_of_ok (run_modifyState _ m')]
    exact (hm'.learn reader cpuModel).after_setCounters initialEvents
  rw [Programmer.step]
  by_cases hempty : reader.getCounters cpuModel = []
  · have hcheck : checkCounters handler (reader.getCounters cpuModel) =
        handleFatalError handler "No counters supported for this model" := by
      rw [checkCounters, hempty]
      rfl
    by_cases hreturns : handler "No counters supported for this model" = .returns
    · rw [if_neg fun hboth ↦ hboth.2 hreturns]
      refine hrest (h.afterFatalError "No counters supported for this model") ?_
      rw [hcheck, run_handleFatalError_of_returns hreturns]
    · rw [if_pos ⟨hempty, hreturns⟩, init, hcheck]
      obtain ⟨cause, herror⟩ := run_handleFatalError_of_ne_returns hreturns m
      rw [run_bind_of_error herror]
      exact h.afterFatalError _
  · rw [if_neg fun hboth ↦ hempty hboth.1]
    refine hrest h ?_
    rw [checkCounters, if_neg (by rw [List.isEmpty_iff]; exact hempty)]
    rfl

/-- The lookups of `startMonitoring` leave the choices alone. -/
theorem chosenEvents_described (context : PcmContext) (registers : List CounterRegister) :
    (context.described registers).chosenEvents = context.chosenEvents := by
  induction registers generalizing context with
  | nil => rfl
  | cons register registers ih => exact ih (context.lookedUp (context.chosenEvents register))

/-- A `startMonitoring`, however it ends. -/
theorem Refines.after_startMonitoring (h : Refines m programmer) (status : ErrorCode) :
    Refines (after ((startMonitoring handler status).run m))
      (programmer.step handler (.startMonitoring status)) := by
  have hprogramming : m.state.programming = programmer.programming := by
    rw [PcmContext.programming, PcmContext.descriptions, Programmer.programming, h.chosenEvents]
    simp only [h.counters]
  obtain ⟨rest, hafter, hrest⟩ := after_reportStatus handler status
    ⟨m.state.described CounterRegister.all, m.trace ++ [.program m.state.programming]⟩
  rw [run_startMonitoring, hafter]
  refine ⟨fun name ↦ ?_, ?_, ?_⟩
  · show (m.state.described CounterRegister.all).counters.lookup name = _
    rw [lookup_described, h.counters, h.chosenEvents]
    rfl
  · exact (chosenEvents_described m.state CounterRegister.all).trans h.chosenEvents
  · show programmings (m.trace ++ [.program m.state.programming] ++ rest) = _
    rw [programmings_append, programmings_append, programmings_eq_nil hrest, h.programmed,
      hprogramming]
    exact List.append_nil _

/-- Every call does what the programmer says, however it ends. -/
theorem Refines.after_perform (h : Refines m programmer) (call : PcmCall) :
    Refines (after ((call.perform handler).run m)) (programmer.step handler call) := by
  cases call with
  | init cpuModel reader => exact h.after_init cpuModel reader
  | resetMsrIfBusy => exact ⟨h.counters, h.chosenEvents, h.programmed⟩
  | setCounter register eventName => exact h.after_setCounter (fun _ ↦ eventName) register
  | startMonitoring status => exact h.after_startMonitoring status

end Refinement

/-! ### Whole runs -/

/-- After any run the context does what the programmer says after the calls that were performed. -/
theorem PcmRun.exists_refines (run : PcmRun) (handler : FatalHandler) : ∃ performed,
    performed <+: run.calls ∧ (returned (run.result handler) = true → performed = run.calls) ∧
    Refines (after (run.result handler)) (performed.foldl (Programmer.step handler) .start) := by
  have hstep : ∀ (call : PcmCall) (m : Machine Event PcmContext) performed,
      Refines m (performed.foldl (Programmer.step handler) .start) →
      Refines (after ((call.perform handler).run m))
        ((performed ++ [call]).foldl (Programmer.step handler) .start) := by
    intro call m performed h
    rw [List.foldl_append]
    exact h.after_perform call
  have hstart : Refines (.fresh .fresh)
      (([] : List PcmCall).foldl (Programmer.step handler) .start) :=
    ⟨fun _ ↦ rfl, rfl, rfl⟩
  exact exists_performed_of_runCalls hstep run.calls hstart

/-- Whatever is called on a new context in whatever order, as long as nothing is started in front of
the first `init`, and whatever the handler does: the run performs its calls up to some point, all of
them unless the process ends, and then the map stands for the events, the registers have the names,
and PCM has been programmed as the programmer says after these calls. -/
theorem programmer_refined (handler : FatalHandler) (run : PcmRun) :
    ∃ performed, performed <+: run.calls ∧
      (returned (run.result handler) = true → performed = run.calls) ∧
      let m := after (run.result handler)
      let programmer := performed.foldl (Programmer.step handler) .start
      (∀ name, m.state.counters.lookup name = programmer.known name) ∧
      m.state.getEventHeader.chosenEvents = programmer.chosen ∧
      programmings m.trace = programmer.programmed := by
  obtain ⟨performed, hprefix, hall, h⟩ := run.exists_refines handler
  exact ⟨performed, hprefix, hall, h.counters, h.chosenEvents, h.programmed⟩

/-! ### Where programming comes from -/

/-- The event is that of zeros, or the databases of an `init` have it. -/
def HwEvent.IsKnownFrom (calls : List PcmCall) (event : HwEvent) : Prop :=
  event = .default ∨
    ∃ cpuModel reader, .init cpuModel reader ∈ calls ∧ event ∈ reader.getCounters cpuModel

/-- The programmer knows no other events and has programmed no others. -/
structure Programmer.Honest (calls : List PcmCall) (programmer : Programmer) : Prop where
  known : ∀ {name event}, programmer.known name = some event → event.IsKnownFrom calls
  programmed : ∀ description ∈ programmer.programmed,
    (∃ status, .startMonitoring status ∈ calls) ∧ description.length = 4 ∧
      ∀ entry ∈ description, ∃ event : HwEvent,
        event.IsKnownFrom calls ∧ event.description = entry

section Honesty

variable {calls : List PcmCall} {programmer : Programmer}

/-- Choosing names teaches nothing. -/
theorem Programmer.Honest.chooseAll (h : programmer.Honest calls) (handler : FatalHandler)
    (names : CounterRegister → String) (registers : List CounterRegister) :
    (programmer.chooseAll handler names registers).Honest calls := by
  induction registers generalizing programmer with
  | nil => exact h
  | cons register registers ih =>
    rw [Programmer.chooseAll]
    cases hchoose : programmer.choose handler register (names register) with
    | none => exact h
    | some next =>
      rw [Programmer.choose] at hchoose
      split_ifs at hchoose
      cases hchoose
      exact ih ⟨h.known, h.programmed⟩

/-- What is programmed is known, or zeros. -/
theorem Programmer.Honest.programming (h : programmer.Honest calls) :
    ∀ entry ∈ programmer.programming, ∃ event : HwEvent,
      event.IsKnownFrom calls ∧ event.description = entry := by
  intro entry hentry
  obtain ⟨register, -, rfl⟩ := List.mem_map.mp hentry
  cases hknown : programmer.known (programmer.chosen register) with
  | some event => exact ⟨event, h.known hknown, rfl⟩
  | none => exact ⟨.default, Or.inl rfl, rfl⟩

/-- Every call keeps the programmer honest. -/
theorem Programmer.Honest.step (h : programmer.Honest calls) (handler : FatalHandler)
    {call : PcmCall} (hcall : call ∈ calls) : (programmer.step handler call).Honest calls := by
  cases call with
  | init cpuModel reader =>
    rw [Programmer.step]
    split_ifs
    · exact h
    · have hlearned : (programmer.learn (reader.getCounters cpuModel)).Honest calls := by
        refine ⟨fun hknown ↦ ?_, h.programmed⟩
        rcases Option.or_eq_some_iff.mp hknown with hfound | ⟨-, hknown⟩
        · exact Or.inr ⟨cpuModel, reader, hcall, List.mem_of_find?_eq_some hfound⟩
        · exact h.known hknown
      exact hlearned.chooseAll handler _ _
  | resetMsrIfBusy => exact h
  | setCounter register eventName => exact h.chooseAll handler _ _
  | startMonitoring status =>
    refine ⟨fun hknown ↦ ?_, fun description hdescription ↦ ?_⟩
    · rcases Option.or_eq_some_iff.mp hknown with hknown | ⟨-, hsettled⟩
      · exact h.known hknown
      · split_ifs at hsettled
        exact Or.inl (Option.some.inj hsettled).symm
    · rcases List.mem_append.mp hdescription with hold | hnew
      · exact h.programmed description hold
      · rw [List.mem_singleton.mp hnew]
        exact ⟨⟨status, hcall⟩, rfl, h.programming⟩

/-- What starts is behind an `init`. -/
theorem UsesPcmBehindInit.exists_init (h : UsesPcmBehindInit calls) {status : ErrorCode}
    (hstart : .startMonitoring status ∈ calls) :
    ∃ cpuModel reader, .init cpuModel reader ∈ calls := by
  induction calls with
  | nil => exact absurd hstart List.not_mem_nil
  | cons call calls ih =>
    have hlater : UsesPcmBehindInit calls → PcmCall.startMonitoring status ∈ calls →
        ∃ cpuModel reader, .init cpuModel reader ∈ call :: calls := by
      intro hset hmem
      obtain ⟨cpuModel, reader, hinit⟩ := ih hset hmem
      exact ⟨cpuModel, reader, List.mem_cons_of_mem call hinit⟩
    cases call with
    | init cpuModel reader => exact ⟨cpuModel, reader, List.mem_cons_self⟩
    | resetMsrIfBusy => exact hlater h (List.mem_of_ne_of_mem PcmCall.noConfusion hstart)
    | setCounter register eventName =>
      exact hlater h (List.mem_of_ne_of_mem PcmCall.noConfusion hstart)
    | startMonitoring other => exact h.elim

end Honesty

/-- Whatever a run calls and whatever the handler does, PCM is programmed only where there is an
`init`, and always with four entries. Each of them is all zeros or has the codes of an event that a
database passed to `init` has for its CPU model. -/
theorem programmings_of_databases (handler : FatalHandler) (run : PcmRun) :
    ∀ description ∈ programmings (after (run.result handler)).trace,
      (∃ cpuModel reader, .init cpuModel reader ∈ run.calls) ∧ description.length = 4 ∧
        ∀ entry ∈ description, entry = ⟨0, 0⟩ ∨
          ∃ cpuModel reader, .init cpuModel reader ∈ run.calls ∧
            ∃ event ∈ reader.getCounters cpuModel, event.description = entry := by
  obtain ⟨performed, hprefix, -, hrefines⟩ := run.exists_refines handler
  have hhonest : ∀ performed ⊆ run.calls, ∀ programmer : Programmer,
      programmer.Honest run.calls →
      (performed.foldl (Programmer.step handler) programmer).Honest run.calls := by
    intro performed
    induction performed with
    | nil => exact fun _ _ h ↦ h
    | cons call performed ih =>
      intro hsubset programmer h
      obtain ⟨hcall, hperformed⟩ := List.cons_subset.mp hsubset
      exact ih hperformed _ (h.step handler hcall)
  have hfinal := hhonest performed hprefix.subset .start ⟨nofun, nofun⟩
  intro description hdescription
  rw [hrefines.programmed] at hdescription
  obtain ⟨⟨status, hstart⟩, hlength, hentries⟩ := hfinal.programmed description hdescription
  refine ⟨run.behindInit.exists_init hstart, hlength, fun entry hentry ↦ ?_⟩
  obtain ⟨event, rfl | ⟨cpuModel, reader, hinit, hevent⟩, rfl⟩ := hentries entry hentry
  · exact Or.inl rfl
  · exact Or.inr ⟨cpuModel, reader, hinit, event, hevent, rfl⟩

/-- An `init` that throws at its second event leaves the first one to be programmed. -/
theorem programmings_of_databases_partial :
    let reader := HwCounterJsonReader.empty.addCounter
      ⟨0xD1, 0x08, "MEM_LOAD_RETIRED.L1_MISS", []⟩ 94
    ∃ event ∈ reader.getCounters 94, event.description = ⟨0xD1, 0x08⟩ := by
  intro reader
  have hprogrammed : [⟨0xD1, 0x08⟩, ⟨0, 0⟩, ⟨0, 0⟩, ⟨0, 0⟩] ∈ programmings
      (after (PcmRun.result (fun _ ↦ .throws)
        ⟨[.init 94 reader, .startMonitoring .success], trivial⟩)).trace := by
    decide +kernel
  obtain ⟨-, -, hentries⟩ := programmings_of_databases (fun _ ↦ .throws)
    ⟨[.init 94 reader, .startMonitoring .success], trivial⟩ _ hprogrammed
  rcases hentries ⟨0xD1, 0x08⟩ List.mem_cons_self with hzero | ⟨cpuModel, other, hinit, hevent⟩
  · exact absurd hzero (by decide)
  · obtain ⟨rfl, rfl⟩ : cpuModel = 94 ∧ other = reader := by simpa using hinit
    exact hevent

end PcmWrapper
