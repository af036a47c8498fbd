import PcmWrapper.CounterRecorder
import PcmWrapper.Library.FlatTable

/-!
# The recorder is a bounded log of measurements

With a fatal handler that never returns, a `CounterHandleRecorder` behaves like a list of rows with
room for `operationCount` of them: `onEnd` appends the differences between the snapshot of the
latest `onStart` and its own, a full list refuses with a fatal error, `reset` empties it, and
`print` writes it out. `MeasurementLog` is that list, and `recorder_refines_measurementLog` the
refinement, for every run of calls.

A handler that returns makes no difference as long as no fatal error has been reported
(`represents_runCalls`). Nor do cells that a vector has beyond the rows: what is said of one record
and of `print` holds for a recorder with any spare cells.

`Holds` relates a recorder to the rows of the log. Row `j` of the log is row `j` of both flat
vectors, with the strides `2` and `counterCount`. A record writes the cells of row `index` only
(`Filling`), so the rows below stay, and all of its writes are in bounds because `index` is below
`operationCount`: the guard of the common counts does not say so, but the guards of the event counts
have been passed by then.
-/

set_option autoImplicit false
set_option relaxedAutoImplicit false

namespace PcmWrapper

open Library

/-! ### The log and the calls -/

variable {Snapshot : Type}

/-- The calls of a `CounterHandleRecorder`, with the snapshots the handle takes. -/
inductive RecorderCall (Snapshot : Type)
  | onStart (snapshot : Snapshot)
  | onEnd (snapshot : Snapshot)
  | reset
  | print

/-- Make a call; the texts are what it inserts into the stream. -/
def RecorderCall.perform (handler : FatalHandler) (handle : CounterHandle Snapshot) :
    RecorderCall Snapshot → Program (CounterHandleRecorder Snapshot) (List Text)
  | .onStart snapshot => do
    PcmWrapper.onStart snapshot
    return []
  | .onEnd snapshot => do
    PcmWrapper.onEnd handler handle snapshot
    return []
  | .reset => do
    onRecorder PcmWrapper.reset
    return []
  | .print => onRecorder PcmWrapper.print

/-- What the recorder is for: the snapshot of the latest `onStart` and the recorded rows. -/
structure MeasurementLog (Snapshot : Type) where
  latestStart : Snapshot
  rows : List CounterState

/-- The log with room for `operationCount` rows. -/
def MeasurementLog.step (handle : CounterHandle Snapshot) (operationCount : ℕ)
    (log : MeasurementLog Snapshot) : RecorderCall Snapshot → MeasurementLog Snapshot
  | .onStart snapshot => { log with latestStart := snapshot }
  | .onEnd snapshot =>
    if log.rows.length < operationCount then
      { log with rows := log.rows ++ [handle.between log.latestStart snapshot] }
    else log
  | .reset => { log with rows := [] }
  | .print => log

/-- The registers a recorder has columns for. -/
def columns (counterCount : CounterRegister) : List CounterRegister :=
  CounterRegister.all.take (counterCount.toNat + 1)

/-- The numbers of a row: instructions, cycles, and the events in the order of their registers. -/
def rowFields (counterCount : CounterRegister) (row : CounterState) : List ℕ :=
  row.getExecutedInstructions.toNat :: row.getExecutedCycles.toNat ::
    (columns counterCount).map fun register ↦ (row.getEventCounts register).toNat

/-- The event neither reports an error nor touches a cell that does not exist. -/
def Event.IsClean (event : Event) : Prop := event.InBounds ∧ ¬ event.IsFatal

/-! ### Which rows a recorder holds -/

/-- The recorder has room for `operationCount` rows and holds the given ones. -/
structure Holds (operationCount : ℕ) (counterCount : CounterRegister) (recorder : CounterRecorder)
    (rows : List CounterState) : Prop where
  counterCount_eq : recorder.counterCount = counterCount.toNat + 1
  length_commonCounts : recorder.commonCounts.length = operationCount * 2
  length_eventCounts :
    recorder.eventCounts.length = operationCount * (counterCount.toNat + 1)
  index_eq : recorder.index = rows.length
  length_le : rows.length ≤ operationCount
  common : ∀ j (hj : j < rows.length), row recorder.commonCounts 2 j =
    [(rows[j]).getExecutedInstructions, (rows[j]).getExecutedCycles]
  events : ∀ j (hj : j < rows.length), row recorder.eventCounts (counterCount.toNat + 1) j =
    (columns counterCount).map (rows[j]).getEventCounts

/-- A new recorder holds no rows. Assumes: the sizes of its vectors do not wrap. -/
theorem holds_make {operationCount : ℕ} {counterCount : CounterRegister}
    (hcommon : operationCount * 2 < 2 ^ 64)
    (hevents : operationCount * (counterCount.toNat + 1) < 2 ^ 64) :
    Holds operationCount counterCount (.make operationCount counterCount) [] where
  counterCount_eq := rfl
  length_commonCounts := by
    rw [CounterRecorder.make, List.length_replicate, sizeT_of_lt hcommon]
  length_eventCounts := by
    rw [CounterRecorder.make, List.length_replicate, sizeT_of_lt hevents]
  index_eq := rfl
  length_le := Nat.zero_le operationCount
  common := fun _ hj ↦ absurd hj (Nat.not_lt_zero _)
  events := fun _ hj ↦ absurd hj (Nat.not_lt_zero _)

/-- After a reset a recorder holds no rows. -/
theorem Holds.reset {operationCount : ℕ} {counterCount : CounterRegister}
    {recorder : CounterRecorder} {rows : List CounterState}
    (h : Holds operationCount counterCount recorder rows) :
    Holds operationCount counterCount { recorder with index := 0 } [] where
  counterCount_eq := h.counterCount_eq
  length_commonCounts := h.length_commonCounts
  length_eventCounts := h.length_eventCounts
  index_eq := rfl
  length_le := Nat.zero_le operationCount
  common := fun _ hj ↦ absurd hj (Nat.not_lt_zero _)
  events := fun _ hj ↦ absurd hj (Nat.not_lt_zero _)

/-- The recorder with spare cells behind those of its vectors. -/
def CounterRecorder.withSpare (recorder : CounterRecorder) (common events : List UInt64) :
    CounterRecorder :=
  { recorder with
    commonCounts := recorder.commonCounts ++ common
    eventCounts := recorder.eventCounts ++ events }

@[simp] theorem CounterRecorder.withSpare_nil (recorder : CounterRecorder) :
    recorder.withSpare [] [] = recorder := by
  rw [withSpare, List.append_nil, List.append_nil]

section Recording

variable {operationCount : ℕ} {counterCount : CounterRegister} {handler : FatalHandler}
  {recorder : CounterRecorder} {rows : List CounterState} {state : CounterState}
  {common events : List UInt64}

/-- The recorder holds the rows and has stored the counts of some registers behind them. -/
structure Filling (operationCount : ℕ) (counterCount : CounterRegister) (rows : List CounterState)
    (state : CounterState) (stored : List CounterRegister) (recorder : CounterRecorder) : Prop where
  holds : Holds operationCount counterCount recorder rows
  current : ∀ register ∈ stored, register.toNat < counterCount.toNat + 1 →
    (row recorder.eventCounts (counterCount.toNat + 1) rows.length)[register.toNat]? =
      some (state.getEventCounts register)

theorem Holds.filling (h : Holds operationCount counterCount recorder rows) :
    Filling operationCount counterCount rows state [] recorder :=
  ⟨h, fun _ hregister ↦ absurd hregister List.not_mem_nil⟩

/-- Registers have different values. -/
theorem CounterRegister.toNat_injective {first second : CounterRegister}
    (h : first.toNat = second.toNat) : first = second := by
  cases first <;> cases second <;> first | rfl | cases h

/-- The recorder with one event count stored in the row behind the held ones. -/
def storeEvent (counterCount : CounterRegister) (rows : List CounterState) (state : CounterState)
    (register : CounterRegister) (recorder : CounterRecorder) : CounterRecorder :=
  { recorder with
    eventCounts := recorder.eventCounts.set
      (rows.length * (counterCount.toNat + 1) + register.toNat) (state.getEventCounts register) }

/-- Storing a count behind the held rows keeps them and fills its cell. -/
theorem Filling.storeEvent {stored : List CounterRegister} {register : CounterRegister}
    (h : Filling operationCount counterCount rows state stored recorder)
    (hroom : rows.length < operationCount) (hregister : register.toNat < counterCount.toNat + 1) :
    Filling operationCount counterCount rows state (register :: stored)
      (storeEvent counterCount rows state register recorder) where
  holds :=
    { counterCount_eq := h.holds.counterCount_eq
      length_commonCounts := h.holds.length_commonCounts
      length_eventCounts := by
        rw [PcmWrapper.storeEvent, List.length_set, h.holds.length_eventCounts]
      index_eq := h.holds.index_eq
      length_le := h.holds.length_le
      common := h.holds.common
      events := fun j hj ↦ by
        rw [PcmWrapper.storeEvent, row_set_of_ne _ hregister hj.ne, h.holds.events j hj] }
  current := by
    intro other hother hcolumn
    have hlength := length_row h.holds.length_eventCounts hroom
    rw [PcmWrapper.storeEvent, row_set_self _ hregister]
    by_cases heq : other = register
    · subst heq
      rw [List.getElem?_set_self (by rw [hlength]; exact hcolumn)]
    · have hne : register.toNat ≠ other.toNat := fun hnat ↦
        heq (CounterRegister.toNat_injective hnat).symm
      rw [List.getElem?_set_ne hne]
      exact h.current other ((List.mem_cons.mp hother).resolve_left heq) hcolumn

/-- Storing an event count fills its cell and leaves spare cells alone. Assumes: the event counts do
not wrap, and there is room for another row. -/
theorem achieves_storeCounterDifference
    (hevents : operationCount * (counterCount.toNat + 1) < 2 ^ 64)
    {stored : List CounterRegister} (register : CounterRegister)
    (h : Filling operationCount counterCount rows state stored recorder)
    (hroom : rows.length < operationCount) :
    Achieves Event.IsClean (storeCounterDifference handler state register)
      (recorder.withSpare common events) fun _ recorder' ↦
        ∃ filled, recorder' = filled.withSpare common events ∧
          Filling operationCount counterCount rows state (register :: stored) filled := by
  by_cases hregister : register.toNat < counterCount.toNat + 1
  · have hcell := cell_lt hroom hregister
    have hindx : sizeT (rows.length * (counterCount.toNat + 1)) =
        rows.length * (counterCount.toNat + 1) := sizeT_of_lt (by omega)
    have hsum : sizeT (rows.length * (counterCount.toNat + 1) + register.toNat) =
        rows.length * (counterCount.toNat + 1) + register.toNat := sizeT_of_lt (by omega)
    have hinside : rows.length * (counterCount.toNat + 1) + register.toNat <
        recorder.eventCounts.length := by
      rw [h.holds.length_eventCounts]
      exact hcell
    have hguard : rows.length * (counterCount.toNat + 1) + register.toNat <
        recorder.eventCounts.length + events.length := Nat.lt_add_right _ hinside
    have hyields : Yields (storeCounterDifference handler state register)
        (recorder.withSpare common events) ()
        ((storeEvent counterCount rows state register recorder).withSpare common events)
        [.write .eventCounts (rows.length * (counterCount.toNat + 1) + register.toNat)
          (recorder.eventCounts.length + events.length)] := by
      intro trace
      simp [storeCounterDifference, writeEventCount, CounterRecorder.withSpare,
        h.holds.counterCount_eq, h.holds.index_eq, hindx, hsum, hregister, hguard, storeEvent,
        List.set_append_left _ _ hinside]
    refine hyields.achieves (fun event hevent ↦ ?_) ⟨_, rfl, h.storeEvent hroom hregister⟩
    rw [List.mem_singleton.mp hevent]
    exact ⟨hguard, not_false⟩
  · have hyields : Yields (storeCounterDifference handler state register)
        (recorder.withSpare common events) () (recorder.withSpare common events) [] := by
      intro trace
      simp [storeCounterDifference, CounterRecorder.withSpare, h.holds.counterCount_eq, hregister]
    refine hyields.achieves (fun _ hevent ↦ absurd hevent List.not_mem_nil)
      ⟨recorder, rfl, h.holds, ?_⟩
    intro other hother hcolumn
    rcases List.mem_cons.mp hother with heq | hmem
    · exact absurd (heq ▸ hcolumn) hregister
    · exact h.current other hmem hcolumn

/-- The recorder with the common counts stored in the row behind the held ones. -/
def storeCommon (rows : List CounterState) (state : CounterState) (recorder : CounterRecorder) :
    CounterRecorder :=
  { recorder with
    commonCounts := (recorder.commonCounts.set (rows.length * 2 + 0)
      state.getExecutedInstructions).set (rows.length * 2 + 1) state.getExecutedCycles }

/-- The recorder has stored a whole row behind the held ones. -/
structure Filled (operationCount : ℕ) (counterCount : CounterRegister) (rows : List CounterState)
    (state : CounterState) (recorder : CounterRecorder) : Prop
    extends Filling operationCount counterCount rows state CounterRegister.all recorder where
  currentCommon : row recorder.commonCounts 2 rows.length =
    [state.getExecutedInstructions, state.getExecutedCycles]

/-- A list of two cells with both of them set. -/
theorem set_set_eq_pair {α : Type} {cells : List α} (h : cells.length = 2) (first second : α) :
    (cells.set 0 first).set 1 second = [first, second] := by
  obtain ⟨_, _, rfl⟩ := List.length_eq_two.mp h
  rfl

/-- Storing the common counts behind the held rows keeps them and completes the row. -/
theorem Filling.storeCommon
    (h : Filling operationCount counterCount rows state CounterRegister.all recorder)
    (hroom : rows.length < operationCount) :
    Filled operationCount counterCount rows state (storeCommon rows state recorder) where
  holds :=
    { counterCount_eq := h.holds.counterCount_eq
      length_commonCounts := by
        rw [PcmWrapper.storeCommon, List.length_set, List.length_set, h.holds.length_commonCounts]
      length_eventCounts := h.holds.length_eventCounts
      index_eq := h.holds.index_eq
      length_le := h.holds.length_le
      common := fun j hj ↦ by
        rw [PcmWrapper.storeCommon, row_set_of_ne _ (by decide) hj.ne,
          row_set_of_ne _ (by decide) hj.ne, h.holds.common j hj]
      events := h.holds.events }
  current := h.current
  currentCommon := by
    rw [PcmWrapper.storeCommon, row_set_self _ (by decide), row_set_self _ (by decide)]
    exact set_set_eq_pair (length_row h.holds.length_commonCounts hroom) _ _

/-- Storing the common counts completes the row and leaves spare cells alone. Assumes: the common
counts do not wrap, and there is room for another row. -/
theorem achieves_storeCommonCounters (hcommon : operationCount * 2 < 2 ^ 64)
    (h : Filling operationCount counterCount rows state CounterRegister.all recorder)
    (hroom : rows.length < operationCount) :
    Achieves Event.IsClean (storeCommonCounters handler state)
      (recorder.withSpare common events) fun _ recorder' ↦
        ∃ filled, recorder' = filled.withSpare common events ∧
          Filled operationCount counterCount rows state filled := by
  have hindx : sizeT (rows.length * 2) = rows.length * 2 := sizeT_of_lt (by omega)
  have hsum : sizeT (rows.length * 2 + 1) = rows.length * 2 + 1 := sizeT_of_lt (by omega)
  have hnext : sizeT (rows.length + 1) = rows.length + 1 := sizeT_of_lt (by omega)
  have hguard : rows.length + 1 < operationCount * 2 + common.length := by omega
  have hfirst : rows.length * 2 < recorder.commonCounts.length := by
    rw [h.holds.length_commonCounts]
    omega
  have hsecond : rows.length * 2 + 1 < recorder.commonCounts.length := by
    rw [h.holds.length_commonCounts]
    omega
  have hyields : Yields (storeCommonCounters handler state) (recorder.withSpare common events) ()
      ((storeCommon rows state recorder).withSpare common events)
      [.write .commonCounts (rows.length * 2) (recorder.commonCounts.length + common.length),
        .write .commonCounts (rows.length * 2 + 1)
          (recorder.commonCounts.length + common.length)] := by
    intro trace
    simp [storeCommonCounters, writeCommonCount, c_commonCounterCount, CounterRecorder.withSpare,
      h.holds.index_eq, h.holds.length_commonCounts, hindx, hsum, hnext, hguard, storeCommon,
      List.set_append_left _ _ hfirst]
    rw [List.set_append_left _ _ (by rw [List.length_set]; exact hsecond)]
  refine hyields.achieves (fun event hevent ↦ ?_) ⟨_, rfl, h.storeCommon hroom⟩
  rw [List.mem_cons, List.mem_singleton] at hevent
  rcases hevent with heq | heq
  · rw [heq]
    exact ⟨Nat.lt_add_right _ hfirst, not_false⟩
  · rw [heq]
    exact ⟨Nat.lt_add_right _ hsecond, not_false⟩

/-- The column of a register among the columns of a recorder. -/
theorem getElem?_columns {register : CounterRegister}
    (h : register.toNat < counterCount.toNat + 1) :
    (columns counterCount)[register.toNat]? = some register := by
  revert h
  cases counterCount <;> cases register <;> decide

/-- Every column has a register. -/
theorem exists_register {column : ℕ} (h : column < counterCount.toNat + 1) :
    ∃ register : CounterRegister, register.toNat = column := by
  have hbound : counterCount.toNat ≤ 3 := by cases counterCount <;> decide
  have hcolumn : column = 0 ∨ column = 1 ∨ column = 2 ∨ column = 3 := by omega
  rcases hcolumn with rfl | rfl | rfl | rfl
  · exact ⟨.one, rfl⟩
  · exact ⟨.two, rfl⟩
  · exact ⟨.three, rfl⟩
  · exact ⟨.four, rfl⟩

@[simp] theorem length_columns : (columns counterCount).length = counterCount.toNat + 1 := by
  cases counterCount <;> rfl

/-- The event counts of a completed row are those of the state recorded. -/
theorem Filled.row_eventCounts (h : Filled operationCount counterCount rows state recorder)
    (hroom : rows.length < operationCount) :
    row recorder.eventCounts (counterCount.toNat + 1) rows.length =
      (columns counterCount).map state.getEventCounts := by
  have hlength := length_row h.holds.length_eventCounts hroom
  refine List.ext_getElem? fun column ↦ ?_
  by_cases hcolumn : column < counterCount.toNat + 1
  · obtain ⟨register, rfl⟩ := exists_register hcolumn
    rw [h.current register register.mem_all hcolumn, List.getElem?_map, getElem?_columns hcolumn]
    rfl
  · have hlong := not_lt.mp hcolumn
    rw [List.getElem?_eq_none (by rw [hlength]; exact hlong),
      List.getElem?_eq_none (by rw [List.length_map, length_columns]; exact hlong)]

/-- What holds of the held rows and of the recorded state holds of the rows with the state behind
them. -/
theorem forall_rows_concat {p : ℕ → CounterState → Prop}
    (hrows : ∀ j (hj : j < rows.length), p j rows[j]) (hstate : p rows.length state) :
    ∀ j (hj : j < (rows ++ [state]).length), p j (rows ++ [state])[j] := by
  intro j hj
  by_cases hold : j < rows.length
  · rw [List.getElem_append_left hold]
    exact hrows j hold
  · have hlast : j = rows.length := by
      rw [List.length_append, List.length_singleton] at hj
      omega
    subst hlast
    rw [List.getElem_concat_length rfl]
    exact hstate

/-- Advancing the index turns a completed row into a held one. -/
theorem Filled.advance (hcommon : operationCount * 2 < 2 ^ 64)
    (h : Filled operationCount counterCount rows state recorder)
    (hroom : rows.length < operationCount) :
    Holds operationCount counterCount { recorder with index := sizeT (recorder.index + 1) }
      (rows ++ [state]) where
  counterCount_eq := h.holds.counterCount_eq
  length_commonCounts := h.holds.length_commonCounts
  length_eventCounts := h.holds.length_eventCounts
  index_eq := by
    show sizeT (recorder.index + 1) = _
    rw [h.holds.index_eq, sizeT_of_lt (by omega), List.length_append, List.length_singleton]
  length_le := by
    rw [List.length_append, List.length_singleton]
    exact hroom
  common := forall_rows_concat (p := fun j held ↦ row recorder.commonCounts 2 j =
    [held.getExecutedInstructions, held.getExecutedCycles]) h.holds.common h.currentCommon
  events := forall_rows_concat (p := fun j held ↦
    row recorder.eventCounts (counterCount.toNat + 1) j =
      (columns counterCount).map held.getEventCounts) h.holds.events (h.row_eventCounts hroom)

/-- With room for another row, a record appends one and leaves spare cells alone. Assumes: the sizes
do not wrap. -/
theorem achieves_recordCounter_withSpare (handler : FatalHandler) (state : CounterState)
    (hcommon : operationCount * 2 < 2 ^ 64)
    (hevents : operationCount * (counterCount.toNat + 1) < 2 ^ 64)
    (h : Holds operationCount counterCount recorder rows) (hroom : rows.length < operationCount)
    (common events : List UInt64) :
    Achieves Event.IsClean (recordCounter handler state) (recorder.withSpare common events)
      fun _ recorder' ↦ ∃ filled, recorder' = filled.withSpare common events ∧
        Holds operationCount counterCount filled (rows ++ [state]) := by
  refine (achieves_storeCounterDifference hevents .one h.filling hroom).bind ?_
  rintro _ _ ⟨_, rfl, hone⟩
  refine (achieves_storeCounterDifference hevents .two hone hroom).bind ?_
  rintro _ _ ⟨_, rfl, htwo⟩
  refine (achieves_storeCounterDifference hevents .three htwo hroom).bind ?_
  rintro _ _ ⟨_, rfl, hthree⟩
  refine (achieves_storeCounterDifference hevents .four hthree hroom).bind ?_
  rintro _ _ ⟨_, rfl, hfour⟩
  have hall : Filling operationCount counterCount rows state CounterRegister.all _ :=
    ⟨hfour.holds, fun register _ ↦ hfour.current register (by cases register <;> decide)⟩
  refine (achieves_storeCommonCounters hcommon hall hroom).bind ?_
  rintro _ _ ⟨filled, rfl, hfilled⟩
  exact (Yields.modifyState _ _).achieves (fun _ hevent ↦ absurd hevent List.not_mem_nil)
    ⟨_, rfl, hfilled.advance hcommon hroom⟩

/-- With room for another row, a record appends one. Assumes: the sizes do not wrap. -/
theorem achieves_recordCounter (handler : FatalHandler) (state : CounterState)
    (hcommon : operationCount * 2 < 2 ^ 64)
    (hevents : operationCount * (counterCount.toNat + 1) < 2 ^ 64)
    (h : Holds operationCount counterCount recorder rows) (hroom : rows.length < operationCount) :
    Achieves Event.IsClean (recordCounter handler state) recorder
      fun _ recorder' ↦ Holds operationCount counterCount recorder' (rows ++ [state]) := by
  obtain ⟨_, _, traced, hyields, hclean, filled, rfl, hholds⟩ :=
    achieves_recordCounter_withSpare handler state hcommon hevents h hroom [] []
  rw [recorder.withSpare_nil, filled.withSpare_nil] at hyields
  exact hyields.achieves hclean hholds

/-- What a full recorder reports. -/
def fullMessage : String := "Storing event count outside the eventCounts structure"

/-- Without room for another row, the first store reports a fatal error. Assumes: the event counts
do not wrap. -/
theorem run_storeCounterDifference_of_full (handler : FatalHandler) (state : CounterState)
    (hevents : operationCount * (counterCount.toNat + 1) < 2 ^ 64)
    (h : Holds operationCount counterCount recorder rows) (hfull : rows.length = operationCount)
    (trace : List Event) : (storeCounterDifference handler state .one).run ⟨recorder, trace⟩ =
      (handleFatalError handler fullMessage).run ⟨recorder, trace⟩ := by
  have hindx : sizeT (operationCount * (counterCount.toNat + 1)) =
      operationCount * (counterCount.toNat + 1) := sizeT_of_lt hevents
  have hone : CounterRegister.one.toNat = 0 := rfl
  simp [storeCounterDifference, h.counterCount_eq, h.index_eq, hfull, hone, hindx,
    h.length_eventCounts, fullMessage]

/-- Without room for another row, a record is over with its first store. Assumes: the handler never
returns, and the event counts do not wrap. -/
theorem run_recordCounter_of_full (hhandler : handler.NeverReturns) (state : CounterState)
    (hevents : operationCount * (counterCount.toNat + 1) < 2 ^ 64)
    (h : Holds operationCount counterCount recorder rows) (hfull : rows.length = operationCount)
    (trace : List Event) : ∃ cause, (recordCounter handler state).run ⟨recorder, trace⟩ =
      .error cause (afterFatalError fullMessage ⟨recorder, trace⟩) := by
  obtain ⟨cause, herror⟩ :=
    run_handleFatalError_of_ne_returns (hhandler fullMessage) ⟨recorder, trace⟩
  have hfirst := run_storeCounterDifference_of_full handler state hevents h hfull trace
  exact ⟨cause, run_bind_of_error (hfirst.trans herror) _⟩

/-- Without room for another row, a record leaves a fatal error in the trace, whatever the handler
does. Assumes: the event counts do not wrap. -/
theorem fatalError_mem_recordCounter_of_full (handler : FatalHandler) (state : CounterState)
    (hevents : operationCount * (counterCount.toNat + 1) < 2 ^ 64)
    (h : Holds operationCount counterCount recorder rows) (hfull : rows.length = operationCount)
    (trace : List Event) : .fatalError fullMessage ∈
      (after ((recordCounter handler state).run ⟨recorder, trace⟩)).trace := by
  have hkept := prefix_after_bind (fun _ ↦ extends_recordCounter_rest handler state)
    (storeCounterDifference handler state .one) ⟨recorder, trace⟩
  rw [run_storeCounterDifference_of_full handler state hevents h hfull, after_run_handleFatalError,
    trace_afterFatalError] at hkept
  exact hkept.subset (List.mem_append_right _ (List.mem_cons_of_mem _ List.mem_cons_self))

end Recording

/-! ### What is printed -/

/-- The insertions of a row: its numbers in base ten with delimiters between them, and a line end.
-/
def rowInsertions (counterCount : CounterRegister) (row : CounterState) : List Text :=
  ((rowFields counterCount row).map decimal).intersperse [c_csvDelim] ++ [endl]

section Printing

variable {operationCount : ℕ} {counterCount : CounterRegister} {recorder : CounterRecorder}
  {rows : List CounterState} {common events : List UInt64}

/-- The event counts of a row, column by column. -/
def eventFields (counterCount : CounterRegister) (row : CounterState) : List UInt64 :=
  (columns counterCount).map row.getEventCounts

/-- Printing the event counts with delimiters between them, as the loop and the last read do. -/
theorem printed_eventFields (counterCount : CounterRegister) (row : CounterState) :
    (List.range counterCount.toNat).flatMap
        (fun k ↦ [decimal ((eventFields counterCount row).getD k 0).toNat, [c_csvDelim]]) ++
      [decimal ((eventFields counterCount row).getD counterCount.toNat 0).toNat] =
    ((eventFields counterCount row).map fun count ↦ decimal count.toNat).intersperse
      [c_csvDelim] := by
  cases counterCount <;> rfl

/-- Reading an event count of a held row. Assumes: the event counts do not wrap. -/
theorem observes_readEventCount (hevents : operationCount * (counterCount.toNat + 1) < 2 ^ 64)
    (h : Holds operationCount counterCount recorder rows) {j k : ℕ} (hj : j < rows.length)
    (hk : k < counterCount.toNat + 1) : Observes Event.IsClean
      (readEventCount (sizeT (sizeT (j * (counterCount.toNat + 1)) + k)))
      (recorder.withSpare common events) ((eventFields counterCount rows[j]).getD k 0) := by
  have hcell := cell_lt (hj.trans_le h.length_le) hk
  have hindx : sizeT (j * (counterCount.toNat + 1)) = j * (counterCount.toNat + 1) :=
    sizeT_of_lt (by omega)
  have hsum : sizeT (j * (counterCount.toNat + 1) + k) = j * (counterCount.toNat + 1) + k :=
    sizeT_of_lt (by omega)
  have hinside : j * (counterCount.toNat + 1) + k < recorder.eventCounts.length := by
    rw [h.length_eventCounts]
    exact hcell
  have hvalue : (recorder.eventCounts ++ events).getD (j * (counterCount.toNat + 1) + k) 0 =
      (eventFields counterCount rows[j]).getD k 0 := by
    rw [List.getD_eq_getElem?_getD, List.getD_eq_getElem?_getD, List.getElem?_append_left hinside,
      ← getElem?_row _ hk, h.events j hj, eventFields]
  have hclean : (Event.read .eventCounts (j * (counterCount.toNat + 1) + k)
      (recorder.eventCounts ++ events).length).IsClean := by
    refine ⟨?_, not_false⟩
    show _ < (recorder.eventCounts ++ events).length
    rw [List.length_append]
    exact Nat.lt_add_right _ hinside
  rw [hindx, hsum, ← hvalue]
  exact (Observes.readState _).bind ((Observes.emit hclean _).bind (Observes.pure _ _))

/-- Reading a common count of a held row, when its cell does not wrap. -/
theorem observes_readCommonCount (h : Holds operationCount counterCount recorder rows) {j k : ℕ}
    (hj : j < rows.length) (hk : k < 2) : Observes Event.IsClean
      (readCommonCount (j * 2 + k)) (recorder.withSpare common events)
      ([rows[j].getExecutedInstructions, rows[j].getExecutedCycles].getD k 0) := by
  have hcell := cell_lt (hj.trans_le h.length_le) hk
  have hinside : j * 2 + k < recorder.commonCounts.length := by
    rw [h.length_commonCounts]
    exact hcell
  have hvalue : (recorder.commonCounts ++ common).getD (j * 2 + k) 0 =
      [rows[j].getExecutedInstructions, rows[j].getExecutedCycles].getD k 0 := by
    rw [List.getD_eq_getElem?_getD, List.getD_eq_getElem?_getD, List.getElem?_append_left hinside,
      ← getElem?_row _ hk, h.common j hj]
  have hclean : (Event.read .commonCounts (j * 2 + k)
      (recorder.commonCounts ++ common).length).IsClean := by
    refine ⟨?_, not_false⟩
    show _ < (recorder.commonCounts ++ common).length
    rw [List.length_append]
    exact Nat.lt_add_right _ hinside
  rw [← hvalue]
  exact (Observes.readState _).bind ((Observes.emit hclean _).bind (Observes.pure _ _))

/-- Printing the common counts of a held row. Assumes: the common counts do not wrap. -/
theorem observes_printCommonCounters (hcommon : operationCount * 2 < 2 ^ 64)
    (h : Holds operationCount counterCount recorder rows) {j : ℕ} (hj : j < rows.length) :
    Observes Event.IsClean (printCommonCounters j) (recorder.withSpare common events)
      [decimal rows[j].getExecutedInstructions.toNat, [c_csvDelim],
        decimal rows[j].getExecutedCycles.toNat] := by
  have hroom := hj.trans_le h.length_le
  have hindx : sizeT (j * 2) = j * 2 := sizeT_of_lt (by omega)
  have hsum : sizeT (j * 2 + 1) = j * 2 + 1 := sizeT_of_lt (by omega)
  rw [printCommonCounters, c_commonCounterCount, hindx, hsum]
  exact (observes_readCommonCount h hj (by decide : 0 < 2)).bind
    ((observes_readCommonCount h hj (by decide : 1 < 2)).bind (Observes.pure _ _))

/-- Printing the event counts of a held row. Assumes: the event counts do not wrap. -/
theorem observes_printEventCounters (hevents : operationCount * (counterCount.toNat + 1) < 2 ^ 64)
    (h : Holds operationCount counterCount recorder rows) {j : ℕ} (hj : j < rows.length) :
    Observes Event.IsClean (printEventCounters j) (recorder.withSpare common events)
      (((eventFields counterCount rows[j]).map fun count ↦ decimal count.toNat).intersperse
        [c_csvDelim]) := by
  have hcounter : ∀ k ∈ List.range counterCount.toNat, Observes Event.IsClean
      (printEventCounter (sizeT (j * (counterCount.toNat + 1))) k)
      (recorder.withSpare common events)
      [decimal ((eventFields counterCount rows[j]).getD k 0).toNat, [c_csvDelim]] := by
    intro k hk
    have hbound : k < counterCount.toNat + 1 := (List.mem_range.mp hk).trans (Nat.lt_succ_self _)
    exact (observes_readEventCount hevents h hj hbound).bind (Observes.pure _ _)
  have hlast : Observes Event.IsClean
      (readEventCount (sizeT (sizeT (j * (counterCount.toNat + 1)) + counterCount.toNat)))
      (recorder.withSpare common events)
      ((eventFields counterCount rows[j]).getD counterCount.toNat 0) :=
    observes_readEventCount hevents h hj (Nat.lt_succ_self counterCount.toNat)
  have hwidth : (recorder.withSpare common events).counterCount = counterCount.toNat + 1 :=
    h.counterCount_eq
  rw [← printed_eventFields]
  refine (Observes.readState _).bind ?_
  rw [hwidth, Nat.add_sub_cancel]
  exact (Observes.collect hcounter).bind (hlast.bind (Observes.pure _ _))

/-- Printing a held row. Assumes: the sizes do not wrap. -/
theorem observes_printRow (hcommon : operationCount * 2 < 2 ^ 64)
    (hevents : operationCount * (counterCount.toNat + 1) < 2 ^ 64)
    (h : Holds operationCount counterCount recorder rows) {j : ℕ} (hj : j < rows.length) :
    Observes Event.IsClean (printRow j) (recorder.withSpare common events)
      (rowInsertions counterCount rows[j]) := by
  have hjoin : [decimal rows[j].getExecutedInstructions.toNat, [c_csvDelim],
      decimal rows[j].getExecutedCycles.toNat] ++ [[c_csvDelim]] ++
        ((eventFields counterCount rows[j]).map fun count ↦ decimal count.toNat).intersperse
          [c_csvDelim] ++ [endl] = rowInsertions counterCount rows[j] := by
    cases counterCount <;> rfl
  rw [← hjoin]
  exact (observes_printCommonCounters hcommon h hj).bind
    ((observes_printEventCounters hevents h hj).bind (Observes.pure _ _))

/-- Going through a list by its indices. -/
theorem flatMap_range_length {α β : Type} (xs : List α) (f : α → List β) :
    ((List.range xs.length).flatMap fun j ↦ (xs[j]?.map f).getD []) = xs.flatMap f := by
  induction xs with
  | nil => rfl
  | cons x xs ih =>
    rw [List.length_cons, List.range_succ_eq_map, List.flatMap_cons, List.flatMap_map,
      List.flatMap_cons, ← ih]
    rfl

/-- Printing inserts the held rows in their order. Assumes: the sizes do not wrap. -/
theorem observes_print_withSpare (hcommon : operationCount * 2 < 2 ^ 64)
    (hevents : operationCount * (counterCount.toNat + 1) < 2 ^ 64)
    (h : Holds operationCount counterCount recorder rows) (common events : List UInt64) :
    Observes Event.IsClean print (recorder.withSpare common events)
      (rows.flatMap (rowInsertions counterCount)) := by
  have hrow : ∀ j ∈ List.range rows.length, Observes Event.IsClean (printRow j)
      (recorder.withSpare common events)
      ((rows[j]?.map (rowInsertions counterCount)).getD []) := by
    intro j hj
    have hlt := List.mem_range.mp hj
    rw [List.getElem?_eq_getElem hlt]
    exact observes_printRow hcommon hevents h hlt
  have hindex : (recorder.withSpare common events).index = rows.length := h.index_eq
  rw [← flatMap_range_length]
  refine (Observes.readState _).bind ?_
  rw [hindex]
  exact Observes.collect hrow

/-- Printing without spare cells. Assumes: the sizes do not wrap. -/
theorem observes_print (hcommon : operationCount * 2 < 2 ^ 64)
    (hevents : operationCount * (counterCount.toNat + 1) < 2 ^ 64)
    (h : Holds operationCount counterCount recorder rows) :
    Observes Event.IsClean print recorder (rows.flatMap (rowInsertions counterCount)) := by
  have hprint := observes_print_withSpare hcommon hevents h [] []
  rw [recorder.withSpare_nil] at hprint
  exact hprint

end Printing

/-! ### Reading a printed table -/

/-- The line of a row, without its end. -/
def rowLine (counterCount : CounterRegister) (row : CounterState) : Text :=
  [c_csvDelim].intercalate ((rowFields counterCount row).map decimal)

/-- The text consists of whole lines, and the decimals between the delimiters of its lines are the
numbers of the table. -/
def IsTable (text : Text) (table : List (List ℕ)) : Prop :=
  text = (lines '\n' text).flatMap (· ++ endl) ∧
    (lines '\n' text).map (fun line ↦ (fields c_csvDelim line).map readDecimal) =
      table.map fun numbers ↦ numbers.map some

/-- A line has no line end inside. -/
theorem newline_notMem_rowLine (counterCount : CounterRegister) (row : CounterState) :
    '\n' ∉ rowLine counterCount row := by
  refine notMem_intercalate (by decide) fun field hfield ↦ ?_
  obtain ⟨n, _, rfl⟩ := List.mem_map.mp hfield
  exact notMem_decimal (by decide) n

/-- The numbers of a row are read back from its line. -/
theorem fields_rowLine (counterCount : CounterRegister) (row : CounterState) :
    (fields c_csvDelim (rowLine counterCount row)).map readDecimal =
      (rowFields counterCount row).map some := by
  rw [rowLine, fields_intercalate (by rw [rowFields]; exact List.cons_ne_nil _ _), List.map_map]
  · exact List.map_congr_left fun n _ ↦ readDecimal_decimal n
  · intro field hfield
    obtain ⟨n, _, rfl⟩ := List.mem_map.mp hfield
    exact notMem_decimal (by decide) n

/-- What is printed is the lines of the rows. -/
theorem flatten_flatMap_rowInsertions (counterCount : CounterRegister) (rows : List CounterState) :
    (rows.flatMap (rowInsertions counterCount)).flatten =
      (rows.map (rowLine counterCount)).flatMap (· ++ endl) := by
  induction rows with
  | nil => rfl
  | cons row rows ih =>
    rw [List.flatMap_cons, List.flatten_append, ih, List.map_cons, List.flatMap_cons, rowInsertions,
      List.flatten_append, rowLine, List.intercalate, List.flatten_singleton]

/-- The rows are read back from what is printed. -/
theorem isTable_rows (counterCount : CounterRegister) (rows : List CounterState) :
    IsTable (rows.flatMap (rowInsertions counterCount)).flatten
      (rows.map (rowFields counterCount)) := by
  have hlines : lines '\n' ((rows.map (rowLine counterCount)).flatMap (· ++ endl)) =
      rows.map (rowLine counterCount) := by
    refine lines_flatMap fun line hline ↦ ?_
    obtain ⟨row, _, rfl⟩ := List.mem_map.mp hline
    exact newline_notMem_rowLine counterCount row
  rw [flatten_flatMap_rowInsertions, IsTable, hlines, List.map_map, List.map_map]
  exact ⟨rfl, List.map_congr_left fun row _ ↦ fields_rowLine counterCount row⟩

/-! ### Calls on the log -/

section Refinement

variable {operationCount : ℕ} {counterCount : CounterRegister} {handler : FatalHandler}
  {handle : CounterHandle Snapshot} {m : Machine Event (CounterHandleRecorder Snapshot)}
  {log : MeasurementLog Snapshot}

/-- The machine holds the log, and all cells touched so far exist. -/
structure Represents (operationCount : ℕ) (counterCount : CounterRegister)
    (m : Machine Event (CounterHandleRecorder Snapshot)) (log : MeasurementLog Snapshot) :
    Prop where
  latestStart : m.state.startState = log.latestStart
  holds : Holds operationCount counterCount m.state.recorder log.rows
  inBounds : ∀ event ∈ m.trace, event.InBounds

/-- What `print` puts on the stream. -/
def printedText (m : Machine Event (CounterHandleRecorder Snapshot)) : Option Text :=
  match (onRecorder PcmWrapper.print).run m with
  | .ok texts _ => some texts.flatten
  | .error _ _ => none

/-- Trace events that are clean keep a trace in bounds. -/
theorem inBounds_append {trace events : List Event} (htrace : ∀ event ∈ trace, event.InBounds)
    (hevents : ∀ event ∈ events, event.IsClean) : ∀ event ∈ trace ++ events, event.InBounds :=
  List.forall_mem_append.mpr ⟨htrace, fun event hevent ↦ (hevents event hevent).1⟩

/-- `onEnd` records what was measured since the latest `onStart`. -/
theorem run_onEnd (snapshot : Snapshot) : (onEnd handler handle snapshot).run m =
    embed (fun recorder mixin ↦ { mixin with recorder }) { m.state with endState := snapshot }
      ((recordCounter handler (handle.between m.state.startState snapshot)).run
        ⟨m.state.recorder, m.trace⟩) := rfl

variable (hcommon : operationCount * 2 < 2 ^ 64)
  (hevents : operationCount * (counterCount.toNat + 1) < 2 ^ 64)

include hcommon hevents in
/-- With room in the log, `onEnd` appends a row without any error. -/
theorem run_onEnd_of_room (handler : FatalHandler) (handle : CounterHandle Snapshot)
    (h : Represents operationCount counterCount m log)
    (hroom : log.rows.length < operationCount) (snapshot : Snapshot) : ∃ recorder events,
    (onEnd handler handle snapshot).run m =
      .ok () ⟨{ m.state with endState := snapshot, recorder }, m.trace ++ events⟩ ∧
    (∀ event ∈ events, event.IsClean) ∧ Holds operationCount counterCount recorder
      (log.rows ++ [handle.between log.latestStart snapshot]) := by
  obtain ⟨_, recorder, events, hyields, hclean, hholds⟩ :=
    achieves_recordCounter handler (handle.between log.latestStart snapshot) hcommon hevents
      h.holds hroom
  refine ⟨recorder, events, ?_, hclean, hholds⟩
  rw [run_onEnd, h.latestStart, hyields m.trace]
  rfl

include hevents in
/-- With a full log, `onEnd` reports a fatal error and leaves the recorder as it is. -/
theorem run_onEnd_of_full (handle : CounterHandle Snapshot) (hhandler : handler.NeverReturns)
    (h : Represents operationCount counterCount m log) (hfull : log.rows.length = operationCount)
    (snapshot : Snapshot) : ∃ cause, (onEnd handler handle snapshot).run m =
      .error cause (afterFatalError fullMessage
        ⟨{ m.state with endState := snapshot }, m.trace⟩) := by
  obtain ⟨cause, herror⟩ := run_recordCounter_of_full hhandler
    (handle.between m.state.startState snapshot) hevents h.holds hfull m.trace
  refine ⟨cause, ?_⟩
  rw [run_onEnd, herror]
  rfl

include hevents in
/-- With a full log, `onEnd` leaves a fatal error in the trace, whatever the handler does. -/
theorem fatalError_mem_onEnd_of_full (handler : FatalHandler) (handle : CounterHandle Snapshot)
    (h : Represents operationCount counterCount m log) (hfull : log.rows.length = operationCount)
    (snapshot : Snapshot) : .fatalError fullMessage ∈
      (after ((RecorderCall.perform handler handle (.onEnd snapshot)).run m)).trace := by
  have hkept := prefix_after_bind (fun _ ↦ Extends.pure ([] : List Text))
    (onEnd handler handle snapshot) m
  rw [run_onEnd, after_embed] at hkept
  exact hkept.subset (fatalError_mem_recordCounter_of_full handler _ hevents h.holds hfull m.trace)

include hcommon hevents in
/-- Printing puts the rows of the log on the stream and changes nothing. -/
theorem run_print (h : Represents operationCount counterCount m log) : ∃ events,
    (onRecorder PcmWrapper.print).run m =
      .ok (log.rows.flatMap (rowInsertions counterCount)) ⟨m.state, m.trace ++ events⟩ ∧
    ∀ event ∈ events, event.IsClean := by
  obtain ⟨events, hyields, hclean⟩ := observes_print hcommon hevents h.holds
  refine ⟨events, ?_, hclean⟩
  rw [onRecorder, run_zoom, hyields m.trace]
  rfl

include hcommon hevents in
/-- The text of the rows of the log. -/
theorem printedText_eq (h : Represents operationCount counterCount m log) :
    printedText m = some (log.rows.flatMap (rowInsertions counterCount)).flatten := by
  obtain ⟨events, hrun, _⟩ := run_print hcommon hevents h
  rw [printedText, hrun]

/-- However a call ends, what is in the trace stays there. -/
theorem extends_perform (handler : FatalHandler) (handle : CounterHandle Snapshot)
    (call : RecorderCall Snapshot) : Extends (call.perform handler handle) := by
  cases call with
  | onStart snapshot => exact (Extends.modifyState _).bind fun _ ↦ Extends.pure []
  | onEnd snapshot =>
    have honEnd : Extends (onEnd handler handle snapshot) :=
      (Extends.modifyState _).bind fun _ ↦ Extends.readState.bind fun _ ↦
        (extends_recordCounter handler _).zoom _ _
    exact honEnd.bind fun _ ↦ Extends.pure []
  | reset => exact ((Extends.modifyState _).zoom _ _).bind fun _ ↦ Extends.pure []
  | print =>
    show Extends (onRecorder PcmWrapper.print)
    exact extends_print.zoom _ _

include hcommon hevents in
/-- Every call does to the machine what it does to the log, also when it ends early. Assumes: no
fatal error has been passed over. -/
theorem represents_perform (handle : CounterHandle Snapshot)
    (h : Represents operationCount counterCount m log) (call : RecorderCall Snapshot)
    (hnone : NoErrorIgnored handler (after ((call.perform handler handle).run m))) :
    Represents operationCount counterCount (after ((call.perform handler handle).run m))
      (log.step handle operationCount call) := by
  cases call with
  | onStart snapshot => exact ⟨rfl, h.holds, h.inBounds⟩
  | onEnd snapshot =>
    by_cases hroom : log.rows.length < operationCount
    · obtain ⟨recorder, events, hrun, hclean, hholds⟩ :=
        run_onEnd_of_room hcommon hevents handler handle h hroom snapshot
      rw [RecorderCall.perform, run_bind_of_ok hrun, MeasurementLog.step, if_pos hroom]
      exact ⟨h.latestStart, hholds, inBounds_append h.inBounds hclean⟩
    · have hfull : log.rows.length = operationCount :=
        le_antisymm h.holds.length_le (not_lt.mp hroom)
      have hhandler := hnone.resolve_right fun hclean ↦
        hclean _ (fatalError_mem_onEnd_of_full hevents handler handle h hfull snapshot) True.intro
      obtain ⟨cause, hrun⟩ := run_onEnd_of_full hevents handle hhandler h hfull snapshot
      rw [RecorderCall.perform, run_bind_of_error hrun, MeasurementLog.step, if_neg hroom]
      exact ⟨h.latestStart, h.holds, List.forall_mem_append.mpr
        ⟨h.inBounds, fun _ hevent ↦ inBounds_of_mem_fatalError hevent⟩⟩
  | reset =>
    exact ⟨h.latestStart, h.holds.reset, h.inBounds⟩
  | print =>
    obtain ⟨events, hrun, hclean⟩ := run_print hcommon hevents h
    rw [RecorderCall.perform, hrun]
    exact ⟨h.latestStart, h.holds, inBounds_append h.inBounds hclean⟩

include hcommon hevents in
/-- `onEnd` reports a fatal error exactly when the log is full. -/
theorem raises_onEnd_iff (handle : CounterHandle Snapshot) (hhandler : handler.NeverReturns)
    (h : Represents operationCount counterCount m log) (snapshot : Snapshot) :
    Raises (onEnd handler handle snapshot) m ↔ log.rows.length = operationCount := by
  constructor
  · intro hraises
    by_contra hne
    have hroom : log.rows.length < operationCount := lt_of_le_of_ne h.holds.length_le hne
    obtain ⟨recorder, events, hrun, hclean, _⟩ :=
      run_onEnd_of_room hcommon hevents handler handle h hroom snapshot
    have hquiet := (not_raises_iff (by rw [hrun, after_ok])).mpr fun event hmem ↦
      (hclean event hmem).2
    exact hquiet hraises
  · intro hfull
    obtain ⟨cause, hrun⟩ := run_onEnd_of_full hevents handle hhandler h hfull snapshot
    exact raises_of_fatalError (by rw [hrun, after_error, trace_afterFatalError])

include hcommon hevents in
/-- An `onEnd` that reports a fatal error leaves what `print` writes as it is. -/
theorem printedText_of_raises (handle : CounterHandle Snapshot) (hhandler : handler.NeverReturns)
    (h : Represents operationCount counterCount m log) {snapshot : Snapshot}
    (hraises : Raises (onEnd handler handle snapshot) m) :
    printedText (after ((onEnd handler handle snapshot).run m)) = printedText m := by
  have hfull := (raises_onEnd_iff hcommon hevents handle hhandler h snapshot).mp hraises
  obtain ⟨cause, hrun⟩ := run_onEnd_of_full hevents handle hhandler h hfull snapshot
  have hafter := represents_perform hcommon hevents handle h (.onEnd snapshot) (.inl hhandler)
  rw [RecorderCall.perform, run_bind_of_error hrun, MeasurementLog.step,
    if_neg (not_lt.mpr hfull.ge)] at hafter
  rw [hrun, printedText_eq hcommon hevents h]
  exact printedText_eq hcommon hevents hafter

end Refinement

/-- A new recorder, with the snapshots its handle starts with. -/
def newRecorder (operationCount : ℕ) (counterCount : CounterRegister)
    (startState endState : Snapshot) : Machine Event (CounterHandleRecorder Snapshot) :=
  .fresh ⟨startState, endState, .make operationCount counterCount⟩

/-- A new recorder stands for an empty log. Assumes: the sizes of its vectors do not wrap. -/
theorem represents_newRecorder {operationCount : ℕ} {counterCount : CounterRegister}
    (hcommon : operationCount * 2 < 2 ^ 64)
    (hevents : operationCount * (counterCount.toNat + 1) < 2 ^ 64)
    (startState endState : Snapshot) : Represents operationCount counterCount
      (newRecorder operationCount counterCount startState endState)
      (⟨startState, []⟩ : MeasurementLog Snapshot) where
  latestStart := rfl
  holds := holds_make hcommon hevents
  inBounds := fun _ hevent ↦ absurd hevent List.not_mem_nil

/-- A run that is still going has led to the log of its calls. Assumes: no fatal error has been
passed over, and the sizes of the vectors do not wrap. -/
theorem represents_runCalls {handler : FatalHandler} (handle : CounterHandle Snapshot)
    {operationCount : ℕ} {counterCount : CounterRegister} (hcommon : operationCount * 2 < 2 ^ 64)
    (hevents : operationCount * (counterCount.toNat + 1) < 2 ^ 64)
    {startState endState : Snapshot} {calls : List (RecorderCall Snapshot)}
    {m : Machine Event (CounterHandleRecorder Snapshot)}
    (hrun : (runCalls (RecorderCall.perform handler handle) calls).run
      (newRecorder operationCount counterCount startState endState) = .ok () m)
    (hnone : NoErrorIgnored handler m) : Represents operationCount counterCount m
      (calls.foldl (MeasurementLog.step handle operationCount) ⟨startState, []⟩) := by
  have hstep : ∀ call m m' reached,
      (NoErrorIgnored handler m → Represents operationCount counterCount m reached) →
      survive ((RecorderCall.perform handler handle call).run m) = .ok () m' →
      NoErrorIgnored handler m' → Represents operationCount counterCount m'
        (MeasurementLog.step handle operationCount reached call) := by
    intro call m m' reached hreached hcall hnone'
    rw [← after_of_survive_eq_ok hcall] at hnone' ⊢
    have hbefore := hnone'.of_earlier (extends_perform handler handle call m)
    exact represents_perform hcommon hevents handle (hreached hbefore) call hnone'
  exact runCalls_simulates hstep
    (fun _ ↦ represents_newRecorder hcommon hevents startState endState) hrun hnone

/-- Whatever calls are made and however the run ends, every cell touched exists. While the run goes
on, `onEnd` reports a fatal error exactly when the log is full and then leaves what `print` writes
as it is, and `print` writes one line for each row of the log, with its numbers in base ten.
Assumes: the handler never returns, and the sizes of the vectors do not wrap. -/
theorem recorder_refines_measurementLog {handler : FatalHandler} (hhandler : handler.NeverReturns)
    (handle : CounterHandle Snapshot) {operationCount : ℕ} {counterCount : CounterRegister}
    (hcommon : operationCount * 2 < 2 ^ 64)
    (hevents : operationCount * (counterCount.toNat + 1) < 2 ^ 64)
    (startState endState : Snapshot) (calls : List (RecorderCall Snapshot)) :
    let run := (runCalls (RecorderCall.perform handler handle) calls).run
      (newRecorder operationCount counterCount startState endState)
    let log := calls.foldl (MeasurementLog.step handle operationCount) ⟨startState, []⟩
    (∀ event ∈ (after run).trace, event.InBounds) ∧
    ∀ m, run = .ok () m →
      (∀ snapshot, Raises (onEnd handler handle snapshot) m ↔ log.rows.length = operationCount) ∧
      (∀ snapshot, Raises (onEnd handler handle snapshot) m →
        printedText (after ((onEnd handler handle snapshot).run m)) = printedText m) ∧
      ∃ text, printedText m = some text ∧
        IsTable text (log.rows.map (rowFields counterCount)) := by
  intro run log
  constructor
  · have hstep : ∀ call m, (∃ reached, Represents operationCount counterCount m reached) →
        ∃ reached, Represents operationCount counterCount
          (after ((RecorderCall.perform handler handle call).run m)) reached :=
      fun call m ⟨reached, hm⟩ ↦
        ⟨_, represents_perform hcommon hevents handle hm call (.inl hhandler)⟩
    have hnew := represents_newRecorder hcommon hevents startState endState
    obtain ⟨_, hrepresents⟩ := runCalls_invariant hstep calls ⟨_, hnew⟩
    exact hrepresents.inBounds
  · intro m hrun
    have hm := represents_runCalls handle hcommon hevents hrun (.inl hhandler)
    refine ⟨raises_onEnd_iff hcommon hevents handle hhandler hm,
      fun snapshot ↦ printedText_of_raises hcommon hevents handle hhandler hm,
      _, printedText_eq hcommon hevents hm, isTable_rows counterCount log.rows⟩

/-- A handle whose getters subtract the snapshots. -/
def differenceHandle : CounterHandle UInt64 where
  getEventCounts := fun _ startState endState ↦ endState - startState
  getExecutedInstructions := fun startState endState ↦ endState - startState
  getExecutedCycles := fun startState endState ↦ endState - startState

/-- The refinement at a recorder with room for one row, after one measurement: the next `onEnd`
reports a fatal error, and one line is printed. -/
theorem recorder_refines_measurementLog_one :
    let handler : FatalHandler := fun _ ↦ .throws
    let m := after ((runCalls (RecorderCall.perform handler differenceHandle)
      [.onStart 3, .onEnd 10]).run (newRecorder 1 .two 0 0))
    (∀ snapshot, Raises (onEnd handler differenceHandle snapshot) m) ∧
      ∃ text, printedText m = some text ∧ IsTable text [[7, 7, 7, 7]] := by
  intro handler m
  have hhandler : handler.NeverReturns := fun _ ↦ by decide
  let log := [RecorderCall.onStart 3, .onEnd 10].foldl (MeasurementLog.step differenceHandle 1)
    ⟨0, []⟩
  have hlog : log.rows.length = 1 ∧ log.rows.map (rowFields .two) = [[7, 7, 7, 7]] := by
    decide +kernel
  have hrefines := recorder_refines_measurementLog hhandler differenceHandle
    (by decide : 1 * 2 < 2 ^ 64) (by decide : 1 * (CounterRegister.two.toNat + 1) < 2 ^ 64) 0 0
    [.onStart 3, .onEnd 10]
  have hrun : (runCalls (RecorderCall.perform handler differenceHandle)
      [.onStart 3, .onEnd 10]).run (newRecorder 1 .two 0 0) = .ok () m :=
    eq_ok_of_returned (by decide +kernel)
  obtain ⟨hraises, _, hprinted⟩ := hrefines.2 m hrun
  rw [← hlog.2]
  exact ⟨fun snapshot ↦ (hraises snapshot).mpr hlog.1, hprinted⟩

end PcmWrapper
