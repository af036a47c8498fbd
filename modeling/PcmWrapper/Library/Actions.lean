import Mathlib.Data.List.Basic

/-!
# Interruptible actions and runs of calls

An action of a program whose errors go through a replaceable handler ends in one of three ways: it
returns a value, it lets an exception through to its caller, or it ends the process. `Action` is
the monad of such actions. Its state is a `Machine`: the objects of the program together with the
trace of the events the actions caused, oldest first.

`attempt` is a caller that survives exceptions, and `runCalls` a caller that makes a list of calls
one after the other, surviving exceptions and stopping where the process ends. `zoom` runs an
action of a part on the whole.

Four induction rules are proved once. `runCalls_invariant` is for properties that every call keeps,
however the run ended, and `exists_performed_of_runCalls` for what it keeps between the machine and
the calls performed so far. `runCalls_simulates` is for relations to an abstract state that every
call keeps: they relate the state after a run that is still going to the abstract run.
`runCalls_follows` adds that the run is still going.
-/

set_option autoImplicit false
set_option relaxedAutoImplicit false

namespace PcmWrapper.Library

variable {χ ε σ τ α β ι κ ρ : Type}

/-! ### Machines and actions -/

/-- The ways an action ends early: an exception reaches the caller, or the process ends. -/
inductive Interrupt (χ : Type)
  | thrown (exception : χ)
  | terminated
  deriving DecidableEq

/-- The objects of a program and the events its actions caused, oldest first. -/
structure Machine (ε σ : Type) where
  state : σ
  trace : List ε

/-- A machine with nothing in its trace. -/
def Machine.fresh (state : σ) : Machine ε σ := ⟨state, []⟩

/-- Actions with exceptions in `χ`, events in `ε`, objects in `σ` and values in `α`. -/
abbrev Action (χ ε σ α : Type) := EStateM (Interrupt χ) (Machine ε σ) α

/-- The machine an action leaves behind, however it ended. -/
def after : EStateM.Result (Interrupt χ) (Machine ε σ) α → Machine ε σ
  | .ok _ m => m
  | .error _ m => m

/-- The action returned. -/
def returned : EStateM.Result (Interrupt χ) (Machine ε σ) α → Bool
  | .ok _ _ => true
  | .error _ _ => false

/-- The exception that reached the caller. -/
def thrown? : EStateM.Result (Interrupt χ) (Machine ε σ) α → Option χ
  | .error (.thrown exception) _ => some exception
  | _ => none

/-- The events an action adds to the trace. -/
def emitted (action : Action χ ε σ α) (m : Machine ε σ) : List ε :=
  (after (action.run m)).trace.drop m.trace.length

/-- Record an event. -/
def emit (event : ε) : Action χ ε σ Unit :=
  fun m ↦ .ok () { m with trace := m.trace ++ [event] }

/-- Read the objects. -/
def readState : Action χ ε σ σ := fun m ↦ .ok m.state m

/-- Change the objects. -/
def modifyState (f : σ → σ) : Action χ ε σ Unit :=
  fun m ↦ .ok () { m with state := f m.state }

/-- End early. -/
def interrupt (cause : Interrupt χ) : Action χ ε σ α := fun m ↦ .error cause m

/-- A computation without state, as an action. -/
def fromExcept : Except (Interrupt χ) α → Action χ ε σ α
  | .ok a => pure a
  | .error cause => interrupt cause

/-- The outcome of a part, as the outcome of the whole. -/
def embed (put : σ → τ → τ) (whole : τ) :
    EStateM.Result (Interrupt χ) (Machine ε σ) α → EStateM.Result (Interrupt χ) (Machine ε τ) α
  | .ok a part => .ok a ⟨put part.state whole, part.trace⟩
  | .error cause part => .error cause ⟨put part.state whole, part.trace⟩

/-- Run an action of a part on the whole. -/
def zoom (get : τ → σ) (put : σ → τ → τ) (action : Action χ ε σ α) : Action χ ε τ α :=
  fun m ↦ embed put m.state (action.run ⟨get m.state, m.trace⟩)

/-- The outcome a caller sees that survives exceptions. -/
def survive : EStateM.Result (Interrupt χ) (Machine ε σ) α →
    EStateM.Result (Interrupt χ) (Machine ε σ) Unit
  | .ok _ m => .ok () m
  | .error (.thrown _) m => .ok () m
  | .error .terminated m => .error .terminated m

/-- Make a call and survive its exceptions. -/
def attempt (action : Action χ ε σ α) : Action χ ε σ Unit := fun m ↦ survive (action.run m)

/-- Make calls one after the other, surviving exceptions, until the process ends. -/
def runCalls (perform : κ → Action χ ε σ α) : List κ → Action χ ε σ Unit
  | [] => pure ()
  | call :: calls => do
    attempt (perform call)
    runCalls perform calls

/-- Run an action for each index in turn and collect the lists it returns. -/
def collect (action : ι → Action χ ε σ (List β)) : List ι → Action χ ε σ (List β)
  | [] => pure []
  | index :: indices => do
    let first ← action index
    let later ← collect action indices
    pure (first ++ later)

/-- Whatever happened before, the action returns a value, leaves the given objects behind and adds
the given events. -/
def Yields (action : Action χ ε σ α) (state : σ) (a : α) (state' : σ) (events : List ε) : Prop :=
  ∀ trace, action.run ⟨state, trace⟩ = .ok a ⟨state', trace ++ events⟩

/-- Total correctness: the action returns, adds only allowed events, and what it returns and leaves
behind satisfies the postcondition. -/
def Achieves (allowed : ε → Prop) (action : Action χ ε σ α) (state : σ)
    (post : α → σ → Prop) : Prop :=
  ∃ a state' events, Yields action state a state' events ∧ (∀ event ∈ events, allowed event) ∧
    post a state'

/-- However it ends, the action keeps the trace and only adds to it. -/
def Extends (action : Action χ ε σ α) : Prop :=
  ∀ m : Machine ε σ, m.trace <+: (after (action.run m)).trace

/-- However it ends, the action keeps the trace and adds only allowed events to it. -/
def Emits (allowed : ε → Prop) (action : Action χ ε σ α) : Prop :=
  ∀ m : Machine ε σ, ∃ events, (after (action.run m)).trace = m.trace ++ events ∧
    ∀ event ∈ events, allowed event

/-- If it returns, the action keeps the trace and adds only allowed events to it. -/
def EmitsOnReturn (allowed : ε → Prop) (action : Action χ ε σ α) : Prop :=
  ∀ (m : Machine ε σ) a m', action.run m = .ok a m' → ∃ events, m'.trace = m.trace ++ events ∧
    ∀ event ∈ events, allowed event

/-- The action returns a value, leaves the objects as they are and adds only allowed events. -/
def Observes (allowed : ε → Prop) (action : Action χ ε σ α) (state : σ) (a : α) : Prop :=
  ∃ events, Yields action state a state events ∧ ∀ event ∈ events, allowed event

/-! ### Equations -/

@[simp] theorem after_ok (a : α) (m : Machine ε σ) :
    after (.ok a m : EStateM.Result (Interrupt χ) (Machine ε σ) α) = m := rfl

@[simp] theorem after_error (cause : Interrupt χ) (m : Machine ε σ) :
    after (.error cause m : EStateM.Result (Interrupt χ) (Machine ε σ) α) = m := rfl

/-- A result that is known to be a value, as that value. -/
theorem eq_ok_of_returned {result : EStateM.Result (Interrupt χ) (Machine ε σ) Unit}
    (h : returned result = true) : result = .ok () (after result) := by
  cases result with
  | ok _ _ => rfl
  | error _ _ => cases h

/-- A result that is known to be an exception, as that exception. -/
theorem eq_error_of_thrown {result : EStateM.Result (Interrupt χ) (Machine ε σ) α} {exception : χ}
    (h : thrown? result = some exception) :
    result = .error (.thrown exception) (after result) := by
  cases result with
  | ok _ _ => cases h
  | error cause m =>
    cases cause with
    | thrown other =>
      cases h
      rfl
    | terminated => cases h

@[simp] theorem run_emit (event : ε) (m : Machine ε σ) :
    (emit event : Action χ ε σ Unit).run m = .ok () { m with trace := m.trace ++ [event] } := rfl

@[simp] theorem run_readState (m : Machine ε σ) :
    (readState : Action χ ε σ σ).run m = .ok m.state m := rfl

@[simp] theorem run_modifyState (f : σ → σ) (m : Machine ε σ) :
    (modifyState f : Action χ ε σ Unit).run m = .ok () { m with state := f m.state } := rfl

@[simp] theorem run_interrupt (cause : Interrupt χ) (m : Machine ε σ) :
    (interrupt cause : Action χ ε σ α).run m = .error cause m := rfl

@[simp] theorem run_fromExcept_ok (a : α) (m : Machine ε σ) :
    (fromExcept (.ok a) : Action χ ε σ α).run m = .ok a m := rfl

@[simp] theorem run_fromExcept_error (cause : Interrupt χ) (m : Machine ε σ) :
    (fromExcept (.error cause) : Action χ ε σ α).run m = .error cause m := rfl

/-- A step that returns is followed by the rest. -/
theorem run_bind_of_ok {action : Action χ ε σ α} {m m' : Machine ε σ} {a : α}
    (h : action.run m = .ok a m') (next : α → Action χ ε σ β) :
    (action >>= next).run m = (next a).run m' := by
  rw [EStateM.run_bind, h]

/-- A step that ends early ends the whole action. -/
theorem run_bind_of_error {action : Action χ ε σ α} {m m' : Machine ε σ} {cause : Interrupt χ}
    (h : action.run m = .error cause m') (next : α → Action χ ε σ β) :
    (action >>= next).run m = .error cause m' := by
  rw [EStateM.run_bind, h]

/-- Changing the objects behind an action adds nothing to the trace. -/
theorem trace_after_bind_modifyState (action : Action χ ε σ α) (f : σ → σ) (m : Machine ε σ) :
    (after ((action >>= fun _ ↦ modifyState f).run m)).trace = (after (action.run m)).trace := by
  rw [EStateM.run_bind]
  cases action.run m <;> rfl

/-- A sequence returns exactly when both of its parts do. -/
theorem run_bind_eq_ok {action : Action χ ε σ α} {next : α → Action χ ε σ β}
    {m final : Machine ε σ} {b : β} : (action >>= next).run m = .ok b final ↔
      ∃ a m', action.run m = .ok a m' ∧ (next a).run m' = .ok b final := by
  rw [EStateM.run_bind]
  cases h : action.run m with
  | ok a m' => simp
  | error cause m' => simp

/-- A computation without state in two steps has a value exactly when both steps do. -/
theorem except_bind_eq_ok {first : Except χ α} {next : α → Except χ β} {b : β} :
    (first >>= next) = .ok b ↔ ∃ a, first = .ok a ∧ next a = .ok b := by
  constructor
  · intro h
    cases first with
    | ok a => exact ⟨a, rfl, h⟩
    | error cause => cases h
  · rintro ⟨a, rfl, h⟩
    exact h

/-- The events of an action whose final trace extends the first one. -/
theorem emitted_of_trace {action : Action χ ε σ α} {m : Machine ε σ} {events : List ε}
    (h : (after (action.run m)).trace = m.trace ++ events) : emitted action m = events := by
  rw [emitted, h, List.drop_left]

/-- A call survived is a call that did not end the process. -/
theorem survive_eq_ok {result : EStateM.Result (Interrupt χ) (Machine ε σ) α} {m : Machine ε σ} :
    survive result = .ok () m ↔
      (∃ a, result = .ok a m) ∨ ∃ exception, result = .error (.thrown exception) m := by
  rcases result with ⟨a, m'⟩ | ⟨_ | _, m'⟩ <;> simp [survive]

/-- What is left behind after a call that was survived. -/
theorem after_of_survive_eq_ok {result : EStateM.Result (Interrupt χ) (Machine ε σ) α}
    {m : Machine ε σ} (h : survive result = .ok () m) : after result = m := by
  rcases survive_eq_ok.mp h with ⟨a, hok⟩ | ⟨exception, herror⟩
  · rw [hok, after_ok]
  · rw [herror, after_error]

@[simp] theorem run_attempt (action : Action χ ε σ α) (m : Machine ε σ) :
    (attempt action).run m = survive (action.run m) := rfl

@[simp] theorem run_zoom (get : τ → σ) (put : σ → τ → τ) (action : Action χ ε σ α)
    (m : Machine ε τ) : (zoom get put action).run m =
      embed put m.state (action.run ⟨get m.state, m.trace⟩) := rfl

@[simp] theorem after_embed (put : σ → τ → τ) (whole : τ)
    (result : EStateM.Result (Interrupt χ) (Machine ε σ) α) :
    after (embed put whole result) =
      ⟨put (after result).state whole, (after result).trace⟩ := by
  cases result <;> rfl

@[simp] theorem run_runCalls_nil (perform : κ → Action χ ε σ α) (m : Machine ε σ) :
    (runCalls perform []).run m = .ok () m := rfl

/-- A run is still going after its first call and the others exactly when it was after each. -/
theorem run_runCalls_cons_eq_ok {perform : κ → Action χ ε σ α} {call : κ} {calls : List κ}
    {m final : Machine ε σ} : (runCalls perform (call :: calls)).run m = .ok () final ↔
      ∃ m', survive ((perform call).run m) = .ok () m' ∧
        (runCalls perform calls).run m' = .ok () final := by
  rw [runCalls, run_bind_eq_ok]
  constructor
  · rintro ⟨_, m', h⟩
    exact ⟨m', h⟩
  · rintro ⟨m', h⟩
    exact ⟨(), m', h⟩

/-! ### Actions that return -/

theorem Yields.pure (a : α) (state : σ) : Yields (pure a : Action χ ε σ α) state a state [] := by
  intro trace
  rw [List.append_nil]
  rfl

theorem Yields.emit (event : ε) (state : σ) :
    Yields (emit event : Action χ ε σ Unit) state () state [event] :=
  fun _ ↦ rfl

theorem Yields.readState (state : σ) :
    Yields (readState : Action χ ε σ σ) state state state [] := by
  intro trace
  rw [List.append_nil]
  rfl

theorem Yields.modifyState (f : σ → σ) (state : σ) :
    Yields (modifyState f : Action χ ε σ Unit) state () (f state) [] := by
  intro trace
  rw [List.append_nil]
  rfl

/-- Two actions that return, one after the other. -/
theorem Yields.bind {action : Action χ ε σ α} {next : α → Action χ ε σ β}
    {state state' state'' : σ} {a : α} {b : β} {first second : List ε}
    (haction : Yields action state a state' first)
    (hnext : Yields (next a) state' b state'' second) :
    Yields (action >>= next) state b state'' (first ++ second) := by
  intro trace
  rw [run_bind_of_ok (haction trace), hnext, List.append_assoc]

/-- Collecting from actions that return and change nothing, at each index in turn. -/
theorem Yields.collect {action : ι → Action χ ε σ (List β)} {state : σ} {values : ι → List β}
    {events : ι → List ε} (h : ∀ index, Yields (action index) state (values index) state
      (events index)) (indices : List ι) : Yields (collect action indices) state
      (indices.flatMap values) state (indices.flatMap events) := by
  induction indices with
  | nil => exact Yields.pure [] state
  | cons index indices ih =>
    rw [List.flatMap_cons, List.flatMap_cons, ← List.append_nil (indices.flatMap events)]
    exact (h index).bind (ih.bind (Yields.pure _ state))

/-- What an action adds to the trace is determined. -/
theorem Yields.events_eq {action : Action χ ε σ α} {state state' state'' : σ} {a b : α}
    {first second : List ε} (hfirst : Yields action state a state' first)
    (hsecond : Yields action state b state'' second) : first = second := by
  have hrun := (hfirst []).symm.trans (hsecond [])
  rw [List.nil_append, List.nil_append] at hrun
  injection hrun with _ hmachine
  exact congrArg Machine.trace hmachine

/-! ### Total correctness -/

variable {allowed : ε → Prop}

/-- An action that returns achieves what its result satisfies. -/
theorem Yields.achieves {action : Action χ ε σ α} {state state' : σ} {a : α} {events : List ε}
    {post : α → σ → Prop} (h : Yields action state a state' events)
    (hallowed : ∀ event ∈ events, allowed event) (hpost : post a state') :
    Achieves allowed action state post :=
  ⟨a, state', events, h, hallowed, hpost⟩

/-- The rule for sequences: what the first action achieves is what the second one needs. -/
theorem Achieves.bind {action : Action χ ε σ α} {next : α → Action χ ε σ β} {state : σ}
    {middle : α → σ → Prop} {post : β → σ → Prop} (haction : Achieves allowed action state middle)
    (hnext : ∀ a state', middle a state' → Achieves allowed (next a) state' post) :
    Achieves allowed (action >>= next) state post := by
  obtain ⟨a, state', first, hfirst, hallowedFirst, hmiddle⟩ := haction
  obtain ⟨b, state'', second, hsecond, hallowedSecond, hpost⟩ := hnext a state' hmiddle
  have hallowed := List.forall_mem_append.mpr ⟨hallowedFirst, hallowedSecond⟩
  exact (hfirst.bind hsecond).achieves hallowed hpost

theorem Observes.pure (a : α) (state : σ) :
    Observes allowed (pure a : Action χ ε σ α) state a :=
  ⟨[], Yields.pure a state, fun _ hevent ↦ absurd hevent List.not_mem_nil⟩

theorem Observes.readState (state : σ) :
    Observes allowed (readState : Action χ ε σ σ) state state :=
  ⟨[], Yields.readState state, fun _ hevent ↦ absurd hevent List.not_mem_nil⟩

theorem Observes.emit {event : ε} (h : allowed event) (state : σ) :
    Observes allowed (emit event : Action χ ε σ Unit) state () :=
  ⟨[event], Yields.emit event state, fun _ hevent ↦ List.mem_singleton.mp hevent ▸ h⟩

/-- Less is allowed than what may be allowed. -/
theorem Observes.mono {other : ε → Prop} {action : Action χ ε σ α} {state : σ} {a : α}
    (h : Observes allowed action state a) (himp : ∀ event, allowed event → other event) :
    Observes other action state a := by
  obtain ⟨events, hyields, hallowed⟩ := h
  exact ⟨events, hyields, fun event hevent ↦ himp event (hallowed event hevent)⟩

/-- Two actions that only look, one after the other. -/
theorem Observes.bind {action : Action χ ε σ α} {next : α → Action χ ε σ β} {state : σ} {a : α}
    {b : β} (haction : Observes allowed action state a)
    (hnext : Observes allowed (next a) state b) : Observes allowed (action >>= next) state b := by
  obtain ⟨first, hfirst, hallowedFirst⟩ := haction
  obtain ⟨second, hsecond, hallowedSecond⟩ := hnext
  have hallowed := List.forall_mem_append.mpr ⟨hallowedFirst, hallowedSecond⟩
  exact ⟨first ++ second, hfirst.bind hsecond, hallowed⟩

/-- Collecting from actions that only look, at each index in turn. -/
theorem Observes.collect {action : ι → Action χ ε σ (List β)} {state : σ} {values : ι → List β}
    {indices : List ι}
    (h : ∀ index ∈ indices, Observes allowed (action index) state (values index)) :
    Observes allowed (collect action indices) state (indices.flatMap values) := by
  induction indices with
  | nil => exact Observes.pure [] state
  | cons index indices ih =>
    have hfirst := h index List.mem_cons_self
    have hlater := ih fun other hother ↦ h other (List.mem_cons_of_mem index hother)
    exact hfirst.bind (hlater.bind (Observes.pure _ state))

/-! ### Actions that only add to the trace -/

theorem Extends.pure (a : α) : Extends (pure a : Action χ ε σ α) := fun m ↦ m.trace.prefix_refl

theorem Extends.emit (event : ε) : Extends (emit event : Action χ ε σ Unit) :=
  fun m ↦ m.trace.prefix_append [event]

theorem Extends.readState : Extends (readState : Action χ ε σ σ) := fun m ↦ m.trace.prefix_refl

theorem Extends.modifyState (f : σ → σ) : Extends (modifyState f : Action χ ε σ Unit) :=
  fun m ↦ m.trace.prefix_refl

/-- What follows an action only adds to what the action leaves in the trace. -/
theorem prefix_after_bind {next : α → Action χ ε σ β} (hnext : ∀ a, Extends (next a))
    (action : Action χ ε σ α) (m : Machine ε σ) :
    (after (action.run m)).trace <+: (after ((action >>= next).run m)).trace := by
  rw [EStateM.run_bind]
  cases action.run m with
  | ok a m' => exact hnext a m'
  | error cause m' => exact m'.trace.prefix_refl

/-- Two actions that only add to the trace, one after the other. -/
theorem Extends.bind {action : Action χ ε σ α} {next : α → Action χ ε σ β}
    (haction : Extends action) (hnext : ∀ a, Extends (next a)) : Extends (action >>= next) :=
  fun m ↦ (haction m).trans (prefix_after_bind hnext action m)

/-- A part that only adds to the trace, as an action of the whole. -/
theorem Extends.zoom {action : Action χ ε σ α} (h : Extends action) (get : τ → σ)
    (put : σ → τ → τ) : Extends (zoom get put action) := by
  intro m
  rw [run_zoom, after_embed]
  exact h ⟨get m.state, m.trace⟩

/-- Collecting only adds to the trace when every action does. -/
theorem Extends.collect {action : ι → Action χ ε σ (List β)} (h : ∀ index, Extends (action index))
    (indices : List ι) : Extends (collect action indices) := by
  induction indices with
  | nil => exact Extends.pure []
  | cons index indices ih =>
    exact (h index).bind fun _ ↦ ih.bind fun _ ↦ Extends.pure _

/-! ### Actions that add only allowed events, however they end -/

/-- An action that leaves the trace alone. -/
theorem Emits.of_trace_eq {action : Action χ ε σ α}
    (h : ∀ m : Machine ε σ, (after (action.run m)).trace = m.trace) : Emits allowed action :=
  fun m ↦ ⟨[], (h m).trans (List.append_nil _).symm, fun _ hevent ↦ absurd hevent List.not_mem_nil⟩

theorem Emits.pure (a : α) : Emits allowed (pure a : Action χ ε σ α) := .of_trace_eq fun _ ↦ rfl

theorem Emits.readState : Emits allowed (readState : Action χ ε σ σ) := .of_trace_eq fun _ ↦ rfl

theorem Emits.modifyState (f : σ → σ) : Emits allowed (modifyState f : Action χ ε σ Unit) :=
  .of_trace_eq fun _ ↦ rfl

theorem Emits.interrupt (cause : Interrupt χ) :
    Emits allowed (interrupt cause : Action χ ε σ α) := .of_trace_eq fun _ ↦ rfl

theorem Emits.fromExcept (result : Except (Interrupt χ) α) :
    Emits allowed (fromExcept result : Action χ ε σ α) :=
  .of_trace_eq fun _ ↦ by cases result <;> rfl

theorem Emits.emit {event : ε} (h : allowed event) :
    Emits allowed (emit event : Action χ ε σ Unit) :=
  fun _ ↦ ⟨[event], rfl, fun _ hevent ↦ List.mem_singleton.mp hevent ▸ h⟩

/-- Two actions one after the other. -/
theorem Emits.bind {action : Action χ ε σ α} {next : α → Action χ ε σ β}
    (haction : Emits allowed action) (hnext : ∀ a, Emits allowed (next a)) :
    Emits allowed (action >>= next) := by
  intro m
  obtain ⟨first, hfirst, hallowedFirst⟩ := haction m
  rw [EStateM.run_bind]
  cases hrun : action.run m with
  | ok a m' =>
    rw [hrun, after_ok] at hfirst
    obtain ⟨second, hsecond, hallowedSecond⟩ := hnext a m'
    refine ⟨first ++ second, ?_, List.forall_mem_append.mpr ⟨hallowedFirst, hallowedSecond⟩⟩
    rw [← List.append_assoc, ← hfirst]
    exact hsecond
  | error cause m' =>
    rw [hrun] at hfirst
    exact ⟨first, hfirst, hallowedFirst⟩

/-- An action of a part, as an action of the whole. -/
theorem Emits.zoom {action : Action χ ε σ α} (h : Emits allowed action) (get : τ → σ)
    (put : σ → τ → τ) : Emits allowed (zoom get put action) := by
  intro m
  rw [run_zoom, after_embed]
  exact h ⟨get m.state, m.trace⟩

theorem Emits.onReturn {action : Action χ ε σ α} (h : Emits allowed action) :
    EmitsOnReturn allowed action := by
  intro m a m' hrun
  obtain ⟨events, htrace, hallowed⟩ := h m
  rw [hrun] at htrace
  exact ⟨events, htrace, hallowed⟩

/-- Two actions one after the other, of which the second matters only where the first returns. -/
theorem EmitsOnReturn.bind {action : Action χ ε σ α} {next : α → Action χ ε σ β}
    (haction : EmitsOnReturn allowed action) (hnext : ∀ a, EmitsOnReturn allowed (next a)) :
    EmitsOnReturn allowed (action >>= next) := by
  intro m b m'' hrun
  obtain ⟨a, m', hfirst, hsecond⟩ := run_bind_eq_ok.mp hrun
  obtain ⟨first, htrace, hallowedFirst⟩ := haction m a m' hfirst
  obtain ⟨second, htrace', hallowedSecond⟩ := hnext a m' b m'' hsecond
  refine ⟨first ++ second, ?_, List.forall_mem_append.mpr ⟨hallowedFirst, hallowedSecond⟩⟩
  rw [htrace', htrace, List.append_assoc]

/-- What an action that returns adds to the trace is allowed in every way it is known to be. -/
theorem EmitsOnReturn.of_yields {action : Action χ ε σ α} {state state' : σ} {a : α}
    {events : List ε} (h : EmitsOnReturn allowed action)
    (hyields : Yields action state a state' events) : ∀ event ∈ events, allowed event := by
  obtain ⟨others, hothers, hallowed⟩ := h _ _ _ (hyields [])
  rw [List.append_cancel_left hothers]
  exact hallowed

/-- Collecting from actions, at each index in turn. -/
theorem Emits.collect {action : ι → Action χ ε σ (List β)}
    (h : ∀ index, Emits allowed (action index)) (indices : List ι) :
    Emits allowed (collect action indices) := by
  induction indices with
  | nil => exact Emits.pure []
  | cons index indices ih => exact (h index).bind fun _ ↦ ih.bind fun _ ↦ Emits.pure _

/-! ### Induction over runs -/

/-- What every call keeps holds after every run, whether or not the process ended. -/
theorem runCalls_invariant {perform : κ → Action χ ε σ α} {invariant : Machine ε σ → Prop}
    (hstep : ∀ call m, invariant m → invariant (after ((perform call).run m))) (calls : List κ)
    {m : Machine ε σ} (hm : invariant m) : invariant (after ((runCalls perform calls).run m)) := by
  induction calls generalizing m with
  | nil => exact hm
  | cons call calls ih =>
    have hcall := hstep call m hm
    rw [runCalls, EStateM.run_bind, run_attempt]
    rcases h : (perform call).run m with ⟨a, m'⟩ | ⟨_ | _, m'⟩
    · exact ih (by simpa [h] using hcall)
    · exact ih (by simpa [h] using hcall)
    · simpa [h, survive] using hcall

/-- A relation to an abstract state that every survived call keeps relates the machine of a run
that is still going to the abstract run of the same calls. -/
theorem runCalls_simulates {perform : κ → Action χ ε σ α} {related : Machine ε σ → ρ → Prop}
    {abstractStep : ρ → κ → ρ}
    (hstep : ∀ call m m' r, related m r → survive ((perform call).run m) = .ok () m' →
      related m' (abstractStep r call)) {calls : List κ} {m final : Machine ε σ} {r : ρ}
    (hm : related m r) (hrun : (runCalls perform calls).run m = .ok () final) :
    related final (calls.foldl abstractStep r) := by
  induction calls generalizing m r with
  | nil =>
    rw [run_runCalls_nil] at hrun
    cases hrun
    exact hm
  | cons call calls ih =>
    obtain ⟨m', hcall, hrest⟩ := run_runCalls_cons_eq_ok.mp hrun
    exact ih (hstep call m m' r hm hcall) hrest

/-- When every call of a run is survived from related machines and keeps the relation, the run goes
on to its end, and the relation holds there. -/
theorem runCalls_follows {perform : κ → Action χ ε σ α} {related : Machine ε σ → ρ → Prop}
    {abstractStep : ρ → κ → ρ} {calls : List κ}
    (hstep : ∀ call ∈ calls, ∀ m r, related m r →
      ∃ m', survive ((perform call).run m) = .ok () m' ∧ related m' (abstractStep r call))
    {m : Machine ε σ} {r : ρ} (hm : related m r) :
    ∃ final, (runCalls perform calls).run m = .ok () final ∧
      related final (calls.foldl abstractStep r) := by
  induction calls generalizing m r with
  | nil => exact ⟨m, rfl, hm⟩
  | cons call calls ih =>
    obtain ⟨m', hcall, hrelated⟩ := hstep call List.mem_cons_self m r hm
    obtain ⟨final, hrest, hfinal⟩ :=
      ih (fun other hother ↦ hstep other (List.mem_cons_of_mem call hother)) hrelated
    exact ⟨final, run_runCalls_cons_eq_ok.mpr ⟨m', hcall, hrest⟩, hfinal⟩

/-- A run performs its calls up to some point, all of them when it is still going. What every call
keeps between the machine and the calls performed so far holds there. -/
theorem exists_performed_of_runCalls {perform : κ → Action χ ε σ α}
    {related : Machine ε σ → List κ → Prop}
    (hstep : ∀ call m performed, related m performed →
      related (after ((perform call).run m)) (performed ++ [call])) (calls : List κ)
    {m : Machine ε σ} {earlier : List κ} (h : related m earlier) : ∃ performed,
      performed <+: calls ∧
      (returned ((runCalls perform calls).run m) = true → performed = calls) ∧
      related (after ((runCalls perform calls).run m)) (earlier ++ performed) := by
  induction calls generalizing m earlier with
  | nil => exact ⟨[], List.prefix_refl [], fun _ ↦ rfl, by rw [List.append_nil]; exact h⟩
  | cons call calls ih =>
    have hcall := hstep call m earlier h
    rw [runCalls, EStateM.run_bind, run_attempt]
    rcases hrun : (perform call).run m with ⟨a, m'⟩ | ⟨exception | _, m'⟩
    · rw [hrun, after_ok] at hcall
      obtain ⟨performed, hprefix, hall, hrelated⟩ := ih hcall
      rw [List.append_assoc] at hrelated
      exact ⟨call :: performed, (List.prefix_cons_inj call).mpr hprefix,
        fun hreturned ↦ congrArg (call :: ·) (hall hreturned), hrelated⟩
    · rw [hrun, after_error] at hcall
      obtain ⟨performed, hprefix, hall, hrelated⟩ := ih hcall
      rw [List.append_assoc] at hrelated
      exact ⟨call :: performed, (List.prefix_cons_inj call).mpr hprefix,
        fun hreturned ↦ congrArg (call :: ·) (hall hreturned), hrelated⟩
    · rw [hrun, after_error] at hcall
      exact ⟨[call], (List.prefix_cons_inj call).mpr (List.nil_prefix), nofun, hcall⟩

end PcmWrapper.Library
