import PcmWrapper.BoundedRecording
import PcmWrapper.Library.Throughout
import PcmWrapper.RecorderGuards

/-!
# Recording into a full recorder

A record into a full recorder reports a fatal error, and with a handler that returns the code goes
on behind it: the other stores follow, and the index advances all the same. From then on the
recorder counts a row it does not hold, and `print`, which checks nothing, reads past the vectors.

`rows_printed_throughout_iff` says which runs of records, resets and prints never see this: those
that never record more often without a reset in between than there is room. `roomFor` is that room,
the number of rows both vectors have cells for; it is the operation count unless a size wraps.
-/

set_option autoImplicit false
set_option relaxedAutoImplicit false

namespace PcmWrapper

open Library

/-! ### Calls and recorded rows -/

/-- The calls of a `CounterRecorder`. -/
inductive TableCall
  | recordCounter (state : CounterState)
  | reset
  | print

/-- Make a call; the texts are what it inserts into the stream. -/
def TableCall.perform (handler : FatalHandler) : TableCall → Program CounterRecorder (List Text)
  | .recordCounter state => do
    PcmWrapper.recordCounter handler state
    return []
  | .reset => do
    PcmWrapper.reset
    return []
  | .print => PcmWrapper.print

/-- The call without the prints, which change nothing. -/
def TableCall.recording : TableCall → Option RecordingCall
  | .recordCounter state => some (.recordCounter state)
  | .reset => some .reset
  | .print => none

/-- The rows recorded successfully since the last reset: a record counts unless it reports a fatal
error. -/
def recordedRows (handler : FatalHandler) (m : Machine Event CounterRecorder)
    (rows : List CounterState) : TableCall → List CounterState
  | .recordCounter state =>
    if Raises (PcmWrapper.recordCounter handler state) m then rows else rows ++ [state]
  | .reset => []
  | .print => rows

/-- The index is within the operation count, and `print` emits exactly the given rows and reads only
cells that exist. -/
structure PrintsRows (operationCount : ℕ) (counterCount : CounterRegister)
    (m : Machine Event CounterRecorder) (rows : List CounterState) : Prop where
  index_le : m.state.index ≤ operationCount
  prints : Observes Event.InBounds print m.state (rows.flatMap (rowInsertions counterCount))

/-- A record that reports a fatal error leaves the index and the recorded rows as they are. -/
def RefusesCleanly (handler : FatalHandler) (counterCount : CounterRegister)
    (m : Machine Event CounterRecorder) (rows : List CounterState) : TableCall → Prop
  | .recordCounter state => Raises (PcmWrapper.recordCounter handler state) m →
    let recorder := (after ((PcmWrapper.recordCounter handler state).run m)).state
    recorder.index = m.state.index ∧ ∀ j < rows.length,
      row recorder.commonCounts 2 j = row m.state.commonCounts 2 j ∧
      row recorder.eventCounts (counterCount.toNat + 1) j =
        row m.state.eventCounts (counterCount.toNat + 1) j
  | .reset => True
  | .print => True

/-! ### The room of a recorder -/

/-- For how many rows both vectors have cells. -/
def roomFor (operationCount : ℕ) (counterCount : CounterRegister) : ℕ :=
  min (rowCount operationCount)
    (sizeT (operationCount * (counterCount.toNat + 1)) / (counterCount.toNat + 1))

section Room

variable (operationCount : ℕ) (counterCount : CounterRegister)

theorem roomFor_le_rowCount : roomFor operationCount counterCount ≤ rowCount operationCount :=
  min_le_left _ _

/-- The rows there is room for are within the cells of the event counts. -/
theorem roomFor_mul_le : roomFor operationCount counterCount * (counterCount.toNat + 1) ≤
    sizeT (operationCount * (counterCount.toNat + 1)) :=
  (Nat.mul_le_mul_right _ (min_le_right _ _)).trans (Nat.div_mul_le_self _ _)

theorem sizeT_lt (n : ℕ) : sizeT n < 2 ^ 64 := Nat.mod_lt n (by decide)

theorem roomFor_mul_two_lt : roomFor operationCount counterCount * 2 < 2 ^ 64 := by
  have hrows : rowCount operationCount < 2 ^ 63 := Nat.mod_lt _ (by decide)
  have hle := roomFor_le_rowCount operationCount counterCount
  omega

theorem roomFor_mul_lt :
    roomFor operationCount counterCount * (counterCount.toNat + 1) < 2 ^ 64 :=
  (roomFor_mul_le operationCount counterCount).trans_lt (sizeT_lt _)

/-- The common counts behind the rows there is room for. -/
def spareCommon : List UInt64 :=
  List.replicate (rowCount operationCount * 2 - roomFor operationCount counterCount * 2) 0

/-- The event counts behind the rows there is room for. -/
def spareEvents : List UInt64 :=
  List.replicate (sizeT (operationCount * (counterCount.toNat + 1)) -
    roomFor operationCount counterCount * (counterCount.toNat + 1)) 0

/-- The recorder holds the rows in the cells there is room for. -/
def HoldsWithinRoom (m : Machine Event CounterRecorder) (rows : List CounterState) : Prop :=
  ∃ recorder, m.state = recorder.withSpare (spareCommon operationCount counterCount)
    (spareEvents operationCount counterCount) ∧
      Holds (roomFor operationCount counterCount) counterCount recorder rows

end Room

section Within

variable {operationCount : ℕ} {counterCount : CounterRegister} {handler : FatalHandler}
  {m : Machine Event CounterRecorder} {rows : List CounterState}

/-- A new recorder holds no rows. -/
theorem holdsWithinRoom_make (operationCount : ℕ) (counterCount : CounterRegister) :
    HoldsWithinRoom operationCount counterCount
      (.fresh (.make operationCount counterCount)) [] := by
  have hcommon := Nat.mul_le_mul_right 2 (roomFor_le_rowCount operationCount counterCount)
  have hevents := roomFor_mul_le operationCount counterCount
  let recorder : CounterRecorder :=
    { operationCount
      counterCount := counterCount.toNat + 1
      commonCounts := List.replicate (roomFor operationCount counterCount * 2) 0
      eventCounts := List.replicate
        (roomFor operationCount counterCount * (counterCount.toNat + 1)) 0
      index := 0 }
  refine ⟨recorder, ?_, ?_⟩
  · simp only [Machine.fresh, CounterRecorder.make, CounterRecorder.withSpare, spareCommon,
      spareEvents, recorder, List.replicate_append_replicate, sizeT_mul_two,
      Nat.add_sub_cancel' hcommon, Nat.add_sub_cancel' hevents]
  · exact
      { counterCount_eq := rfl
        length_commonCounts := List.length_replicate
        length_eventCounts := List.length_replicate
        index_eq := rfl
        length_le := Nat.zero_le _
        common := fun _ hj ↦ absurd hj (Nat.not_lt_zero _)
        events := fun _ hj ↦ absurd hj (Nat.not_lt_zero _) }

/-- A recorder that holds the rows prints them. -/
theorem HoldsWithinRoom.printsRows (h : HoldsWithinRoom operationCount counterCount m rows) :
    PrintsRows operationCount counterCount m rows := by
  obtain ⟨recorder, heq, hholds⟩ := h
  have hcount := hholds.length_le.trans (roomFor_le_rowCount operationCount counterCount)
  have hprint := observes_print_withSpare (roomFor_mul_two_lt operationCount counterCount)
    (roomFor_mul_lt operationCount counterCount) hholds (spareCommon operationCount counterCount)
    (spareEvents operationCount counterCount)
  rw [← heq] at hprint
  refine ⟨?_, hprint.mono fun _ hclean ↦ hclean.1⟩
  rw [heq]
  show recorder.index ≤ operationCount
  rw [hholds.index_eq]
  exact hcount.trans (Nat.mod_le _ _)

/-- With room for another row, a record reports nothing and appends its row. -/
theorem HoldsWithinRoom.record (h : HoldsWithinRoom operationCount counterCount m rows)
    (handler : FatalHandler) (hroom : rows.length < roomFor operationCount counterCount)
    (state : CounterState) : ¬ Raises (recordCounter handler state) m ∧
      ∃ m', (recordCounter handler state).run m = .ok () m' ∧
      HoldsWithinRoom operationCount counterCount m' (rows ++ [state]) := by
  obtain ⟨recorder, heq, hholds⟩ := h
  obtain ⟨_, _, events, hyields, hclean, filled, rfl, hfilled⟩ :=
    achieves_recordCounter_withSpare handler state (roomFor_mul_two_lt operationCount counterCount)
      (roomFor_mul_lt operationCount counterCount) hholds hroom
      (spareCommon operationCount counterCount) (spareEvents operationCount counterCount)
  have hrun := hyields m.trace
  rw [← heq] at hrun
  have hquiet : ¬ Raises (recordCounter handler state) m :=
    (not_raises_iff (by rw [hrun, after_ok])).mpr fun event hevent ↦ (hclean event hevent).2
  exact ⟨hquiet, _, hrun, filled, rfl, hfilled⟩

end Within

/-! ### Printing too many rows -/

section Printing

theorem yields_readCommonCount (recorder : CounterRecorder) (cell : ℕ) :
    Yields (readCommonCount cell) recorder (recorder.commonCounts.getD cell 0) recorder
      [.read .commonCounts cell recorder.commonCounts.length] :=
  (Yields.readState _).bind ((Yields.emit _ _).bind (Yields.pure _ _))

theorem yields_readEventCount (recorder : CounterRecorder) (cell : ℕ) :
    Yields (readEventCount cell) recorder (recorder.eventCounts.getD cell 0) recorder
      [.read .eventCounts cell recorder.eventCounts.length] :=
  (Yields.readState _).bind ((Yields.emit _ _).bind (Yields.pure _ _))

/-- Printing a row returns, whether or not its cells exist, and reads a common count. -/
theorem yields_printRow (recorder : CounterRecorder) (i : ℕ) : ∃ texts events,
    Yields (printRow i) recorder texts recorder events ∧
      .read .commonCounts (sizeT (i * 2)) recorder.commonCounts.length ∈ events := by
  have hcommon : Yields (printCommonCounters i) recorder _ recorder _ :=
    (yields_readCommonCount recorder _).bind
      ((yields_readCommonCount recorder _).bind (Yields.pure _ _))
  have hcounter : ∀ counter, Yields (printEventCounter (sizeT (i * recorder.counterCount)) counter)
      recorder _ recorder _ := fun counter ↦
    (yields_readEventCount recorder _).bind (Yields.pure _ _)
  have hevents : Yields (printEventCounters i) recorder _ recorder _ :=
    (Yields.readState recorder).bind ((Yields.collect hcounter _).bind
      ((yields_readEventCount recorder _).bind (Yields.pure _ _)))
  exact ⟨_, _, hcommon.bind (hevents.bind (Yields.pure _ _)),
    List.mem_append_left _ List.mem_cons_self⟩

/-- Printing reads a cell that does not exist when the index counts a row without cells. -/
theorem not_observes_print {recorder : CounterRecorder} {i : ℕ} (hi : i < recorder.index)
    (hcell : ¬ sizeT (i * 2) < recorder.commonCounts.length) (texts : List Text) :
    ¬ Observes Event.InBounds print recorder texts := by
  rintro ⟨events, hprint, hinBounds⟩
  choose rowTexts rowEvents hyields hread using yields_printRow recorder
  have hrows : Yields print recorder _ recorder _ :=
    (Yields.readState recorder).bind (Yields.collect hyields (List.range recorder.index))
  have hmem : .read .commonCounts (sizeT (i * 2)) recorder.commonCounts.length ∈ events := by
    rw [hprint.events_eq hrows]
    exact List.mem_flatMap.mpr ⟨i, List.mem_range.mpr hi, hread i⟩
  exact hcell (hinBounds _ hmem)

end Printing

/-! ### Recording into a full recorder -/

section Overfull

variable {operationCount : ℕ} {counterCount : CounterRegister} {handler : FatalHandler}
  {m : Machine Event CounterRecorder} {rows : List CounterState}

/-- The index and the sizes of a recorder that holds rows within its room. -/
theorem HoldsWithinRoom.shape (h : HoldsWithinRoom operationCount counterCount m rows) :
    m.state.index = rows.length ∧ m.state.counterCount = counterCount.toNat + 1 ∧
      m.state.commonCounts.length = rowCount operationCount * 2 ∧
      m.state.eventCounts.length = sizeT (operationCount * (counterCount.toNat + 1)) := by
  obtain ⟨recorder, heq, hholds⟩ := h
  have hcommon := Nat.mul_le_mul_right 2 (roomFor_le_rowCount operationCount counterCount)
  have hevents := roomFor_mul_le operationCount counterCount
  rw [heq]
  refine ⟨hholds.index_eq, hholds.counterCount_eq, ?_, ?_⟩
  · rw [CounterRecorder.withSpare, List.length_append, hholds.length_commonCounts, spareCommon,
      List.length_replicate, Nat.add_sub_cancel' hcommon]
  · rw [CounterRecorder.withSpare, List.length_append, hholds.length_eventCounts, spareEvents,
      List.length_replicate, Nat.add_sub_cancel' hevents]

/-- When the event counts end first, the register behind their last full row has no cell there. -/
theorem roomFor_eq_rowCount_of_guardsPass (h : HoldsWithinRoom operationCount counterCount m rows)
    (hfull : rows.length = roomFor operationCount counterCount) (hpass : GuardsPass m.state) :
    roomFor operationCount counterCount = rowCount operationCount := by
  obtain ⟨hindex, hwidth, _, hcells⟩ := h.shape
  by_contra hne
  let cells := sizeT (operationCount * (counterCount.toNat + 1))
  have hroom : roomFor operationCount counterCount = cells / (counterCount.toNat + 1) := by
    have hcases := min_choice (rowCount operationCount) (cells / (counterCount.toNat + 1))
    exact hcases.resolve_left hne
  have hcolumn : cells % (counterCount.toNat + 1) < counterCount.toNat + 1 :=
    Nat.mod_lt _ (Nat.succ_pos _)
  obtain ⟨register, hregister⟩ := exists_register hcolumn
  have hguard := hpass.1 register
  have hcell : cells / (counterCount.toNat + 1) * (counterCount.toNat + 1) + register.toNat =
      cells := by
    rw [hregister, Nat.div_add_mod']
  have hlt : cells < 2 ^ 64 := sizeT_lt _
  have hstart := sizeT_of_lt ((Nat.div_mul_le_self cells (counterCount.toNat + 1)).trans_lt hlt)
  rw [EventGuardPasses, hindex, hwidth, hcells, hfull, hroom, hstart, hcell,
    sizeT_of_lt hlt] at hguard
  exact lt_irrefl _ (hguard (by rw [hregister]; exact hcolumn))

/-- A record into a full recorder reports a fatal error and advances the index, or leaves a recorder
behind that prints what it does not hold. Assumes: the handler always returns. -/
theorem HoldsWithinRoom.overfull (h : HoldsWithinRoom operationCount counterCount m rows)
    (hhandler : handler.AlwaysReturns)
    (hfull : rows.length = roomFor operationCount counterCount) {state : CounterState}
    (hclean : RefusesCleanly handler counterCount m rows (.recordCounter state)) :
    ∃ m', (recordCounter handler state).run m = .ok () m' ∧
      ∀ recorded, ¬ PrintsRows operationCount counterCount m' recorded := by
  obtain ⟨hindex, _, hcells, _⟩ := h.shape
  obtain ⟨recorder', events, hyields, hlength, hindex', _, hquiet⟩ :=
    yields_recordCounter_of_returns hhandler state m.state
  have hrun : (recordCounter handler state).run m = .ok () ⟨recorder', m.trace ++ events⟩ :=
    hyields m.trace
  have hbound := roomFor_mul_two_lt operationCount counterCount
  have hnext : sizeT (m.state.index + 1) = rows.length + 1 := by
    rw [hindex]
    exact sizeT_of_lt (by omega)
  rw [hnext] at hindex'
  have hraises : ¬ Raises (recordCounter handler state) m := by
    intro hraises
    have hkept := (hclean hraises).1
    rw [hrun, after_ok, hindex', hindex] at hkept
    exact Nat.succ_ne_self _ hkept
  rw [not_raises_iff (by rw [hrun, after_ok]), hquiet] at hraises
  have hrows := roomFor_eq_rowCount_of_guardsPass h hfull hraises
  refine ⟨_, hrun, fun recorded hprints ↦ ?_⟩
  refine not_observes_print (i := rows.length) ?_ ?_ _ hprints.prints
  · show rows.length < recorder'.index
    rw [hindex']
    exact Nat.lt_succ_self _
  · show ¬ sizeT (rows.length * 2) < recorder'.commonCounts.length
    rw [hlength, hcells, ← hrows, ← hfull, sizeT_of_lt (by omega)]
    exact lt_irrefl _

end Overfull

/-! ### Runs -/

/-- A run stays within a bound exactly when what it brings along and what it adds do. -/
theorem longest_foldl_le_iff {calls : List RecordingCall} {current longest room : ℕ}
    (hle : current ≤ longest) :
    (calls.foldl Stretches.step ⟨current, longest⟩).longest ≤ room ↔
      longest ≤ room ∧ (calls.foldl Stretches.step ⟨current, current⟩).longest ≤ room := by
  induction calls generalizing current longest with
  | nil =>
    simp only [List.foldl_nil]
    omega
  | cons call calls ih =>
    cases call with
    | recordCounter state =>
      simp only [List.foldl_cons, Stretches.step]
      rw [ih (le_max_right longest (current + 1)), ih (le_max_right current (current + 1))]
      omega
    | reset =>
      simp only [List.foldl_cons, Stretches.step]
      rw [ih (Nat.zero_le longest), ih (Nat.zero_le current)]
      omega

/-- The calls never record more often without a reset in between than there is room, with the given
rows recorded before. -/
def StaysWithin (room : ℕ) (calls : List TableCall) (rows : List CounterState) : Prop :=
  ((calls.filterMap TableCall.recording).foldl Stretches.step
    ⟨rows.length, rows.length⟩).longest ≤ room

/-- There is room for what the call records. -/
def HasRoom (room : ℕ) (rows : List CounterState) : TableCall → Prop
  | .recordCounter _ => rows.length < room
  | .reset => True
  | .print => True

theorem staysWithin_record_iff {room : ℕ} {calls : List TableCall} {rows : List CounterState}
    {state : CounterState} : StaysWithin room (.recordCounter state :: calls) rows ↔
      rows.length < room ∧ StaysWithin room calls (rows ++ [state]) := by
  rw [StaysWithin, List.filterMap_cons_some (by rfl), List.foldl_cons, Stretches.step,
    longest_foldl_le_iff (le_max_right _ _), StaysWithin, List.length_append, List.length_singleton,
    max_eq_right (Nat.le_succ _), Nat.succ_le_iff]

theorem staysWithin_reset_iff {room : ℕ} {calls : List TableCall} {rows : List CounterState}
    (hrows : rows.length ≤ room) :
    StaysWithin room (.reset :: calls) rows ↔ StaysWithin room calls [] := by
  rw [StaysWithin, List.filterMap_cons_some (by rfl), List.foldl_cons, Stretches.step,
    longest_foldl_le_iff (Nat.zero_le _), StaysWithin, List.length_nil]
  exact and_iff_right hrows

section Calls

variable {operationCount : ℕ} {counterCount : CounterRegister} {handler : FatalHandler}
  {m m' : Machine Event CounterRecorder} {rows : List CounterState}

/-- A record that returns, as a call of a run. -/
theorem survive_record {state : CounterState}
    (h : (recordCounter handler state).run m = .ok () m') :
    survive ((TableCall.perform handler (.recordCounter state)).run m) = .ok () m' := by
  rw [TableCall.perform, run_bind_of_ok h]
  rfl

/-- A call there is room for keeps the rows within the room. -/
theorem HoldsWithinRoom.perform (h : HoldsWithinRoom operationCount counterCount m rows)
    {call : TableCall} (hroom : HasRoom (roomFor operationCount counterCount) rows call)
    (hcall : survive ((call.perform handler).run m) = .ok () m') :
    HoldsWithinRoom operationCount counterCount m' (recordedRows handler m rows call) := by
  cases call with
  | recordCounter state =>
    obtain ⟨hquiet, next, hrun, hnext⟩ := h.record handler hroom state
    rw [survive_record hrun] at hcall
    cases hcall
    rw [recordedRows, if_neg hquiet]
    exact hnext
  | reset =>
    cases hcall
    obtain ⟨recorder, heq, hholds⟩ := h
    refine ⟨{ recorder with index := 0 }, ?_, hholds.reset⟩
    show { m.state with index := 0 } = _
    rw [heq]
    rfl
  | print =>
    obtain ⟨events, hyields, _⟩ := h.printsRows.prints
    rw [TableCall.perform, hyields m.trace] at hcall
    cases hcall
    exact h

/-- A record there is room for reports nothing. -/
theorem HoldsWithinRoom.refusesCleanly (h : HoldsWithinRoom operationCount counterCount m rows)
    {call : TableCall} (hroom : HasRoom (roomFor operationCount counterCount) rows call) :
    RefusesCleanly handler counterCount m rows call := by
  cases call with
  | recordCounter state => exact fun hraises ↦ absurd hraises (h.record handler hroom state).1
  | reset => exact True.intro
  | print => exact True.intro

/-- A run stays within the room when its first call does and the others do behind it. -/
theorem HoldsWithinRoom.staysWithin_cons_iff
    (h : HoldsWithinRoom operationCount counterCount m rows) (call : TableCall)
    (calls : List TableCall) :
    StaysWithin (roomFor operationCount counterCount) (call :: calls) rows ↔
      HasRoom (roomFor operationCount counterCount) rows call ∧
        ∀ m', survive ((call.perform handler).run m) = .ok () m' →
          StaysWithin (roomFor operationCount counterCount) calls
            (recordedRows handler m rows call) := by
  cases call with
  | recordCounter state =>
    rw [staysWithin_record_iff]
    refine and_congr_right fun hroom ↦ ?_
    obtain ⟨hquiet, next, hrun, _⟩ := h.record handler hroom state
    rw [recordedRows, if_neg hquiet]
    exact ⟨fun hcalls _ _ ↦ hcalls, fun hcalls ↦ hcalls next (survive_record hrun)⟩
  | reset =>
    have hle : rows.length ≤ roomFor operationCount counterCount := by
      obtain ⟨_, _, hholds⟩ := h
      exact hholds.length_le
    rw [staysWithin_reset_iff hle]
    exact ⟨fun hcalls ↦ ⟨True.intro, fun _ _ ↦ hcalls⟩, fun hcalls ↦ hcalls.2 _ rfl⟩
  | print =>
    obtain ⟨events, hyields, _⟩ := h.printsRows.prints
    have hrun : survive ((TableCall.perform handler .print).run m) = .ok () _ :=
      congrArg survive (hyields m.trace)
    exact ⟨fun hcalls ↦ ⟨True.intro, fun _ _ ↦ hcalls⟩, fun hcalls ↦ hcalls.2 _ hrun⟩

end Calls

/-- In a run of records, resets and prints the index is always within the operation count, `print`
emits exactly the rows recorded successfully since the last reset and reads only cells that exist,
and a record that reports a fatal error leaves the index and these rows as they are, exactly when
the run never records more often without a reset in between than there is room for. Assumes: the
handler always returns. -/
theorem rows_printed_throughout_iff {handler : FatalHandler} (hhandler : handler.AlwaysReturns)
    (operationCount : ℕ) (counterCount : CounterRegister) (calls : List TableCall) :
    Throughout (TableCall.perform handler) (recordedRows handler)
      (PrintsRows operationCount counterCount) (RefusesCleanly handler counterCount) calls
      (.fresh (.make operationCount counterCount)) [] ↔
        longestStretch (calls.filterMap TableCall.recording) ≤
          roomFor operationCount counterCount := by
  refine throughout_iff (HoldsWithinRoom operationCount counterCount)
    (fun _ ↦ HasRoom (roomFor operationCount counterCount))
    (StaysWithin (roomFor operationCount counterCount))
    (fun m rows hm ↦ hm.printsRows) (fun m rows call hm hroom ↦ hm.refusesCleanly hroom)
    (fun m rows call m' hm hroom hcall ↦ hm.perform hroom hcall) ?_ ?_
    (fun m rows call calls hm ↦ hm.staysWithin_cons_iff call calls)
    (holdsWithinRoom_make operationCount counterCount)
  · intro m rows call hm hroom hclean
    cases call with
    | recordCounter state =>
      obtain ⟨_, _, hholds⟩ := id hm
      have hfull := le_antisymm hholds.length_le (not_lt.mp hroom)
      obtain ⟨m', hrun, hwrong⟩ := hm.overfull hhandler hfull hclean
      exact ⟨m', survive_record hrun, hwrong _⟩
    | reset => exact absurd True.intro hroom
    | print => exact absurd True.intro hroom
  · rintro m rows ⟨_, _, hholds⟩
    exact hholds.length_le

/-- Two records, a print, a reset and another record. -/
def twoRows : List TableCall :=
  [.recordCounter zeroState, .recordCounter zeroState, .print, .reset, .recordCounter zeroState]

/-- With room for two rows, two records in a row are fine. -/
theorem rows_printed_throughout_two :
    longestStretch (twoRows.filterMap TableCall.recording) = 2 ∧
      Throughout (TableCall.perform fun _ ↦ .returns) (recordedRows fun _ ↦ .returns)
        (PrintsRows 2 .four) (RefusesCleanly (fun _ ↦ .returns) .four) twoRows
        (.fresh (.make 2 .four)) [] :=
  ⟨by decide, (rows_printed_throughout_iff (fun _ ↦ rfl) 2 .four twoRows).mpr (by decide)⟩

/-- With room for two rows, the third record reports a fatal error and advances the index to
three. -/
theorem thirdRecord_not_refused :
    ¬ Throughout (TableCall.perform fun _ ↦ .returns) (recordedRows fun _ ↦ .returns)
      (PrintsRows 2 .four) (RefusesCleanly (fun _ ↦ .returns) .four)
      [.recordCounter zeroState, .recordCounter zeroState, .recordCounter zeroState]
      (.fresh (.make 2 .four)) [] := by
  intro h
  obtain ⟨reached, hreached⟩ := h.final (eq_ok_of_returned (by decide +kernel))
  exact absurd hreached.index_le (by decide +kernel)

end PcmWrapper
