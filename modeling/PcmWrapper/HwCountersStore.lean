import PcmWrapper.ErrorHandling
import PcmWrapper.Library.Throughout

/-!
# The store of hardware counters

`HwCounterStore` is a vector of a fixed size with an index behind the values appended so far. Both
`append` and `operator[]` check the index with `ASSERT`, which calls the fatal error handler and
falls through when the handler returns.

What the store is for is a list with a bound: an append to a full list is refused, and so is a read
behind its end. `store_refines_bounded_list_iff` says in which runs the store is that list. A
handler that terminates or throws is fine. A handler that returns from a refused call is not: the
append writes the cell behind the vector and moves the index behind it, and the read reads a cell
that no accepted append has written.
-/

set_option autoImplicit false
set_option relaxedAutoImplicit false

namespace PcmWrapper

open Library

/-! ### The store -/

/-- `HwCounterStore`. -/
structure HwCounterStore where
  counters : List UInt64
  index : UInt64

namespace HwCounterStore

/-- The constructor `HwCounterStore::HwCounterStore`, for capacities up to the `max_size` of its
vector. Above that it throws `std::length_error` and there is no store. -/
def make (capacity : UInt64) : HwCounterStore where
  counters := List.replicate capacity.toNat 0
  index := 0

/-- `HwCounterStore::append`. -/
def append (handler : FatalHandler) (count : UInt64) : Program HwCounterStore Unit := do
  let store ← readState
  assert handler (store.index.toNat < store.counters.length) "index out of bounds"
    "m_index < m_counters.size()"
  emit (.write .counters store.index.toNat store.counters.length)
  modifyState fun store ↦
    { counters := store.counters.set store.index.toNat count, index := store.index + 1 }

/-- `HwCounterStore::operator[]`. -/
def get (handler : FatalHandler) (index : UInt64) : Program HwCounterStore UInt64 := do
  let store ← readState
  assert handler (index < store.index) "index out of bounds" "index < m_index"
  emit (.read .counters index.toNat store.counters.length)
  return store.counters.getD index.toNat 0

/-- `HwCounterStore::size`. -/
def size : Program HwCounterStore UInt64 := do
  let store ← readState
  return store.index

end HwCounterStore

/-- The calls of a store. -/
inductive StoreCall
  | append (count : UInt64)
  | get (index : UInt64)
  | size

/-- Make a call; the value is what it returns, if anything. -/
def StoreCall.perform (handler : FatalHandler) :
    StoreCall → Program HwCounterStore (Option UInt64)
  | .append count => do
    HwCounterStore.append handler count
    return none
  | .get index => do
    let count ← HwCounterStore.get handler index
    return some count
  | .size => do
    let size ← HwCounterStore.size
    return some size

/-! ### The bounded list -/

/-- What a list with room for `capacity` values refuses, with the message of the store. -/
def refusal (capacity : UInt64) (accepted : List UInt64) : StoreCall → Option String
  | .append _ =>
    if accepted.length < capacity.toNat then none
    else some (strConcat "index out of bounds" "m_index < m_counters.size()")
  | .get index =>
    if index.toNat < accepted.length then none
    else some (strConcat "index out of bounds" "index < m_index")
  | .size => none

/-- The list accepts an append unless it is full. -/
def accept (capacity : UInt64) (accepted : List UInt64) : StoreCall → List UInt64
  | .append count => if accepted.length < capacity.toNat then accepted ++ [count] else accepted
  | .get _ => accepted
  | .size => accepted

/-- The event writes a cell of a vector. -/
def Event.IsWrite : Event → Prop
  | .write _ _ _ => True
  | _ => False

/-- The event reads no cell from the given one on. -/
def Event.ReadsBelow (count : ℕ) : Event → Prop
  | .read _ index _ => index < count
  | _ => True

/-- The store contains the accepted values, and its size is their number. -/
structure Stores (capacity : UInt64) (m : Machine Event HwCounterStore)
    (accepted : List UInt64) : Prop where
  length_counters : m.state.counters.length = capacity.toNat
  index_eq : m.state.index.toNat = accepted.length
  length_le : accepted.length ≤ capacity.toNat
  contents : m.state.counters.take accepted.length = accepted

/-- A call that is refused: it reports a fatal error, writes no cell, reads no cell but those of the
accepted values, and leaves the store as it is. -/
structure Refuses {α : Type} (action : Program HwCounterStore α)
    (m : Machine Event HwCounterStore) (accepted : List UInt64) : Prop where
  raises : Raises action m
  writes_nothing : ∀ event ∈ emitted action m, ¬ event.IsWrite
  reads_accepted : ∀ event ∈ emitted action m, event.ReadsBelow accepted.length
  state_eq : (after (action.run m)).state = m.state

/-- A call that is answered: it returns the value and reports nothing. -/
def Answers {α : Type} (action : Program HwCounterStore α) (m : Machine Event HwCounterStore)
    (value : α) : Prop :=
  ¬ Raises action m ∧ ∃ m', action.run m = .ok value m'

/-- The store answers a call as the list of the accepted values does. -/
def AnswersAsList (handler : FatalHandler) (capacity : UInt64)
    (m : Machine Event HwCounterStore) (accepted : List UInt64) : StoreCall → Prop
  | .append count =>
    if accepted.length < capacity.toNat then Answers (HwCounterStore.append handler count) m ()
    else Refuses (HwCounterStore.append handler count) m accepted
  | .get index =>
    if h : index.toNat < accepted.length then
      Answers (HwCounterStore.get handler index) m accepted[index.toNat]
    else Refuses (HwCounterStore.get handler index) m accepted
  | .size => Answers HwCounterStore.size m m.state.index

/-- The handler does not return from any refused call the process gets to. -/
def NoRefusalIgnored (handler : FatalHandler) (capacity : UInt64) :
    List StoreCall → List UInt64 → Prop
  | [], _ => True
  | call :: calls, accepted =>
    match refusal capacity accepted call with
    | none => NoRefusalIgnored handler capacity calls (accept capacity accepted call)
    | some message => match handler message with
      | .terminates => True
      | .throws => NoRefusalIgnored handler capacity calls accepted
      | .returns => False

/-! ### One call -/

section Calls

variable {handler : FatalHandler} {capacity : UInt64} {m m' : Machine Event HwCounterStore}
  {accepted : List UInt64}

/-- A new store contains nothing. -/
theorem stores_make (capacity : UInt64) : Stores capacity (.fresh (.make capacity)) [] where
  length_counters := List.length_replicate
  index_eq := rfl
  length_le := Nat.zero_le _
  contents := rfl

/-- An action that is over with a fatal error has refused. -/
theorem refuses_of_error {α : Type} {action : Program HwCounterStore α}
    {cause : Interrupt Exception} {message : String}
    (h : action.run m = .error cause (afterFatalError message m)) : Refuses action m accepted := by
  have hemitted : emitted action m = [.cleanup, .fatalError message] :=
    emitted_of_trace (by rw [h, after_error, trace_afterFatalError])
  refine ⟨?_, ?_, ?_, by rw [h]; rfl⟩
  · exact raises_of_fatalError (by rw [h, after_error, trace_afterFatalError])
  · simp [hemitted, Event.IsWrite]
  · simp [hemitted, Event.ReadsBelow]

/-- An append within the vector writes its cell and moves the index behind it. -/
theorem run_append_of_lt (h : m.state.index.toNat < m.state.counters.length)
    (handler : FatalHandler) (count : UInt64) : (HwCounterStore.append handler count).run m =
      .ok () ⟨⟨m.state.counters.set m.state.index.toNat count, m.state.index + 1⟩,
        m.trace ++ [.write .counters m.state.index.toNat m.state.counters.length]⟩ :=
  run_assert_bind_of_true (decide_eq_true h) handler _ _ _ m

/-- A read below the index returns its cell. -/
theorem run_get_of_lt {index : UInt64} (h : index < m.state.index) (handler : FatalHandler) :
    (HwCounterStore.get handler index).run m = .ok (m.state.counters.getD index.toNat 0)
      ⟨m.state, m.trace ++ [.read .counters index.toNat m.state.counters.length]⟩ :=
  run_assert_bind_of_true (decide_eq_true h) handler _ _ _ m

/-- With room for another value, the store contains it behind an append. -/
theorem Stores.append (h : Stores capacity m accepted) (hroom : accepted.length < capacity.toNat)
    (count : UInt64) (trace : List Event) : Stores capacity
      ⟨⟨m.state.counters.set m.state.index.toNat count, m.state.index + 1⟩, trace⟩
      (accepted ++ [count]) where
  length_counters := by rw [List.length_set, h.length_counters]
  index_eq := by
    have hsize := UInt64.toNat_lt_size capacity
    show (m.state.index + 1).toNat = _
    rw [UInt64.toNat_add, h.index_eq, List.length_append, List.length_singleton]
    exact Nat.mod_eq_of_lt (Nat.lt_of_le_of_lt hroom hsize)
  length_le := by
    rw [List.length_append, List.length_singleton]
    exact hroom
  contents := by
    have hcell : accepted.length < m.state.counters.length := by
      rw [h.length_counters]
      exact hroom
    show (m.state.counters.set m.state.index.toNat count).take _ = _
    rw [h.index_eq, List.length_append, List.length_singleton, List.take_add_one,
      List.take_set_of_le (Nat.le_refl _), h.contents, List.getElem?_set_self hcell]
    rfl

/-- What a store contains does not depend on what has happened. -/
theorem Stores.of_state_eq (h : Stores capacity m accepted) (hstate : m'.state = m.state) :
    Stores capacity m' accepted := by
  obtain ⟨hlength, hindex, hle, hcontents⟩ := h
  rw [← hstate] at hlength hindex hcontents
  exact ⟨hlength, hindex, hle, hcontents⟩

/-- The cells below the index are the accepted values. -/
theorem Stores.getD_eq (h : Stores capacity m accepted) {i : ℕ} (hi : i < accepted.length) :
    m.state.counters.getD i 0 = accepted[i] := by
  have hcell : (m.state.counters.take accepted.length)[i]? = m.state.counters[i]? :=
    List.getElem?_take_of_lt hi
  rw [h.contents, List.getElem?_eq_getElem hi] at hcell
  rw [List.getD_eq_getElem?_getD, ← hcell]
  rfl

/-- An action that adds nothing but an access to a vector to the trace answers. -/
theorem answers_of_run {α : Type} {action : Program HwCounterStore α} {value : α}
    {events : List Event} {state : HwCounterStore}
    (h : action.run m = .ok value ⟨state, m.trace ++ events⟩)
    (hquiet : ∀ event ∈ events, ¬ event.IsFatal) : Answers action m value :=
  ⟨(not_raises_iff (by rw [h, after_ok])).mpr hquiet, _, h⟩

/-- The check of `append` asks what the list asks. -/
theorem Stores.append_check_iff (h : Stores capacity m accepted) :
    m.state.index.toNat < m.state.counters.length ↔ accepted.length < capacity.toNat := by
  rw [h.index_eq, h.length_counters]

/-- The check of `operator[]` asks what the list asks. -/
theorem Stores.get_check_iff (h : Stores capacity m accepted) (index : UInt64) :
    index < m.state.index ↔ index.toNat < accepted.length := by
  rw [UInt64.lt_iff_toNat_lt, h.index_eq]

/-- A call the list accepts is answered, and the store contains what the list does. -/
theorem Stores.accepts (h : Stores capacity m accepted) (handler : FatalHandler) {call : StoreCall}
    (haccepted : refusal capacity accepted call = none) :
    AnswersAsList handler capacity m accepted call ∧
      ∃ m', survive ((call.perform handler).run m) = .ok () m' ∧
        Stores capacity m' (accept capacity accepted call) := by
  cases call with
  | append count =>
    have hroom : accepted.length < capacity.toNat := by
      by_contra hfull
      exact Option.some_ne_none _ ((if_neg hfull).symm.trans haccepted)
    have hrun := run_append_of_lt (h.append_check_iff.mpr hroom) handler count
    rw [AnswersAsList, if_pos hroom, accept, if_pos hroom, StoreCall.perform, run_bind_of_ok hrun]
    exact ⟨answers_of_run hrun (by simp [Event.IsFatal]), _, rfl, h.append hroom count _⟩
  | get index =>
    have hbound : index.toNat < accepted.length := by
      by_contra hout
      exact Option.some_ne_none _ ((if_neg hout).symm.trans haccepted)
    have hrun := run_get_of_lt ((h.get_check_iff index).mpr hbound) handler
    rw [h.getD_eq hbound] at hrun
    rw [AnswersAsList, dif_pos hbound, StoreCall.perform, run_bind_of_ok hrun]
    exact ⟨answers_of_run hrun (by simp [Event.IsFatal]), _, rfl, h.of_state_eq rfl⟩
  | size =>
    refine ⟨⟨?_, m, rfl⟩, m, rfl, h⟩
    exact (not_raises_iff (List.append_nil _).symm).mpr fun _ hevent ↦
      absurd hevent List.not_mem_nil

/-- What it means that the list refuses an append, and which message the store has for it. -/
theorem refusal_append_eq_some {count : UInt64} {message : String}
    (h : refusal capacity accepted (.append count) = some message) :
    ¬ accepted.length < capacity.toNat ∧
      message = strConcat "index out of bounds" "m_index < m_counters.size()" := by
  rw [refusal] at h
  split_ifs at h with hroom
  exact ⟨hroom, (Option.some.inj h).symm⟩

/-- What it means that the list refuses a read, and which message the store has for it. -/
theorem refusal_get_eq_some {index : UInt64} {message : String}
    (h : refusal capacity accepted (.get index) = some message) :
    ¬ index.toNat < accepted.length ∧
      message = strConcat "index out of bounds" "index < m_index" := by
  rw [refusal] at h
  split_ifs at h with hbound
  exact ⟨hbound, (Option.some.inj h).symm⟩

/-- A call the list refuses ends with the fatal error and leaves everything as it is. Assumes: the
handler does not return. -/
theorem Stores.refuses (h : Stores capacity m accepted) {call : StoreCall} {message : String}
    (hrefused : refusal capacity accepted call = some message)
    (hhandler : handler message ≠ .returns) :
    AnswersAsList handler capacity m accepted call ∧ (call.perform handler).run m =
      .error (if handler message = .terminates then .terminated else .thrown (.fatal message))
        (afterFatalError message m) := by
  cases call with
  | append count =>
    obtain ⟨hfull, rfl⟩ := refusal_append_eq_some hrefused
    have hcheck := decide_eq_false (mt h.append_check_iff.mp hfull)
    have hrun : (HwCounterStore.append handler count).run m = _ :=
      run_assert_bind_of_ne_returns hcheck hhandler _ m
    rw [AnswersAsList, if_neg hfull]
    exact ⟨refuses_of_error hrun, run_bind_of_error hrun _⟩
  | get index =>
    obtain ⟨hout, rfl⟩ := refusal_get_eq_some hrefused
    have hcheck := decide_eq_false (mt (h.get_check_iff index).mp hout)
    have hrun : (HwCounterStore.get handler index).run m = _ :=
      run_assert_bind_of_ne_returns hcheck hhandler _ m
    rw [AnswersAsList, dif_neg hout]
    exact ⟨refuses_of_error hrun, run_bind_of_error hrun _⟩
  | size => cases hrefused

/-- When the handler returns from a refused call, the append writes a cell and the read reads one
behind the accepted values. -/
theorem Stores.not_answersAsList (h : Stores capacity m accepted) {call : StoreCall}
    {message : String} (hrefused : refusal capacity accepted call = some message)
    (hreturns : handler message = .returns) : ¬ AnswersAsList handler capacity m accepted call := by
  have hmem : ∀ {α : Type} {action : Program HwCounterStore α} {event : Event},
      (after (action.run m)).trace = m.trace ++ [.cleanup, .fatalError message] ++ [event] →
      event ∈ emitted action m := by
    intro α action event htrace
    rw [List.append_assoc] at htrace
    rw [emitted_of_trace htrace]
    exact List.mem_append_right _ List.mem_cons_self
  cases call with
  | append count =>
    obtain ⟨hfull, rfl⟩ := refusal_append_eq_some hrefused
    have hcheck := decide_eq_false (mt h.append_check_iff.mp hfull)
    have hrun : (HwCounterStore.append handler count).run m = _ :=
      run_assert_bind_of_returns hcheck hreturns _ m
    rw [AnswersAsList, if_neg hfull]
    intro hrefuses
    exact hrefuses.writes_nothing _ (hmem (congrArg (Machine.trace ∘ after) hrun)) True.intro
  | get index =>
    obtain ⟨hout, rfl⟩ := refusal_get_eq_some hrefused
    have hcheck := decide_eq_false (mt (h.get_check_iff index).mp hout)
    have hrun : (HwCounterStore.get handler index).run m = _ :=
      run_assert_bind_of_returns hcheck hreturns _ m
    rw [AnswersAsList, dif_neg hout]
    intro hrefuses
    exact hout (hrefuses.reads_accepted (.read .counters index.toNat m.state.counters.length)
      (hmem (congrArg (Machine.trace ∘ after) hrun)))
  | size => cases hrefused

/-- A refused call changes nothing in the list. -/
theorem accept_of_refusal {call : StoreCall} {message : String}
    (h : refusal capacity accepted call = some message) :
    accept capacity accepted call = accepted := by
  cases call with
  | append count => exact if_neg (refusal_append_eq_some h).1
  | get index => rfl
  | size => rfl

/-- No refusal of a run is ignored exactly when none is at its first call and none behind it. -/
theorem Stores.noRefusalIgnored_cons_iff (h : Stores capacity m accepted) (call : StoreCall)
    (calls : List StoreCall) : NoRefusalIgnored handler capacity (call :: calls) accepted ↔
      (∀ message, refusal capacity accepted call = some message → handler message ≠ .returns) ∧
        ∀ m', survive ((call.perform handler).run m) = .ok () m' →
          NoRefusalIgnored handler capacity calls (accept capacity accepted call) := by
  rw [NoRefusalIgnored]
  cases hcall : refusal capacity accepted call with
  | none =>
    obtain ⟨_, m', hsurvived, _⟩ := h.accepts handler hcall
    constructor
    · intro hcalls
      exact ⟨fun message hmessage ↦ absurd hmessage.symm (Option.some_ne_none message),
        fun _ _ ↦ hcalls⟩
    · intro hcalls
      exact hcalls.2 m' hsurvived
  | some message =>
    simp only [Option.some.injEq, forall_eq', accept_of_refusal hcall]
    cases hout : handler message with
    | terminates =>
      have hne : handler message ≠ .returns := by rw [hout]; decide
      obtain ⟨_, herror⟩ := h.refuses hcall hne
      rw [hout, if_pos rfl] at herror
      simp [herror, survive]
    | throws =>
      have hne : handler message ≠ .returns := by rw [hout]; decide
      obtain ⟨_, herror⟩ := h.refuses hcall hne
      rw [hout, if_neg (by decide)] at herror
      simp [herror, survive]
    | returns => simp

end Calls

/-- Whatever the capacity and the handler, a run of appends, reads and size calls goes as it would
on a list with room for `capacity` values exactly when the handler does not return from any refused
call the process gets to. -/
theorem store_refines_bounded_list_iff (handler : FatalHandler) (capacity : UInt64)
    (calls : List StoreCall) :
    Throughout (StoreCall.perform handler) (fun _ ↦ accept capacity) (Stores capacity)
      (AnswersAsList handler capacity) calls (.fresh (.make capacity)) [] ↔
        NoRefusalIgnored handler capacity calls [] := by
  refine throughout_iff (Stores capacity)
    (fun _ accepted call ↦ ∀ message, refusal capacity accepted call = some message →
      handler message ≠ .returns)
    (NoRefusalIgnored handler capacity) (fun _ _ hm ↦ hm) ?_ ?_ ?_ (fun _ _ _ ↦ True.intro)
    (fun _ _ call calls hm ↦ hm.noRefusalIgnored_cons_iff call calls) (stores_make capacity)
  · intro m accepted call hm hallowed
    cases hcall : refusal capacity accepted call with
    | none => exact (hm.accepts handler hcall).1
    | some message => exact (hm.refuses hcall (hallowed message hcall)).1
  · intro m accepted call m' hm hallowed hsurvived
    cases hcall : refusal capacity accepted call with
    | none =>
      obtain ⟨_, next, hnext, hstores⟩ := hm.accepts handler hcall
      rw [hnext] at hsurvived
      cases hsurvived
      exact hstores
    | some message =>
      obtain ⟨_, herror⟩ := hm.refuses hcall (hallowed message hcall)
      have hstate := congrArg Machine.state (after_of_survive_eq_ok hsurvived)
      rw [herror] at hstate
      rw [accept_of_refusal hcall]
      exact hm.of_state_eq hstate.symm
  · intro m accepted call hm hnot hanswers
    refine absurd (fun message hcall hreturns ↦ ?_) hnot
    exact hm.not_answersAsList hcall hreturns hanswers

/-- Five appends to a store with room for five values and another one, as
`hw_counter_store_test.cpp` makes them: with a handler that returns, the size is six. -/
theorem sixthAppend_not_refused :
    ¬ Throughout (StoreCall.perform fun _ ↦ .returns) (fun _ ↦ accept 5) (Stores 5)
      (AnswersAsList (fun _ ↦ .returns) 5)
      [.append 0, .append 1, .append 2, .append 3, .append 4, .append 5] (.fresh (.make 5)) [] := by
  intro h
  obtain ⟨reached, hreached⟩ := h.final (eq_ok_of_returned (by decide +kernel))
  have hsize := Nat.le_trans (Nat.le_of_eq hreached.index_eq) hreached.length_le
  exact absurd hsize (by decide +kernel)

end PcmWrapper
