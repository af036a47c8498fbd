import Mathlib.Order.MinMax
import PcmWrapper.CounterRecorder

/-!
# The guards of the recorder when the handler returns

A fatal handler may return, and then a record goes on behind its first failed guard, with an index
that keeps growing. Every guard has to be right on its own then. The guard of the event counts is:
it compares the cell it protects. The guard of the common counts compares the next index with the
size of a vector that has two cells for each index, so it lets the index `operationCount` pass,
whose cells do not exist.

`writes_inBounds_iff` says exactly which runs only write cells that exist: those that never record
more often than there is room for without a reset in between. Two sizes are apart. A recorder
without any room refuses every write, and with room for one row the guard only fails when the index
is about to wrap.
-/

set_option autoImplicit false
set_option relaxedAutoImplicit false

namespace PcmWrapper

open Library

/-! ### One record -/

section Record

variable {handler : FatalHandler} {recorder : CounterRecorder}

/-- Everything but the event counts is as before. -/
def SameCommon (before recorder : CounterRecorder) : Prop :=
  recorder.commonCounts = before.commonCounts ∧ recorder.index = before.index

/-- At most event counts have changed, and none has been added. -/
structure StoredEvents (before recorder : CounterRecorder) : Prop where
  common : SameCommon before recorder
  counterCount_eq : recorder.counterCount = before.counterCount
  length_eventCounts : recorder.eventCounts.length = before.eventCounts.length

/-- The guard of the event counts lets the count of a register pass. A register without a column has
no guard. -/
def EventGuardPasses (recorder : CounterRecorder) (register : CounterRegister) : Prop :=
  register.toNat < recorder.counterCount →
    sizeT (sizeT (recorder.index * recorder.counterCount) + register.toNat) <
      recorder.eventCounts.length

/-- Storing event counts leaves the guards as they are. -/
theorem StoredEvents.eventGuardPasses_iff {before : CounterRecorder}
    (h : StoredEvents before recorder) (register : CounterRegister) :
    EventGuardPasses recorder register ↔ EventGuardPasses before register := by
  unfold EventGuardPasses
  rw [h.counterCount_eq, h.common.2, h.length_eventCounts]

/-- The guard of the event counts admits a write only when its cell exists, and reports a fatal
error otherwise. Assumes: the handler always returns. -/
theorem yields_storeCounterDifference_of_returns (hhandler : handler.AlwaysReturns)
    (state : CounterState) (register : CounterRegister) {before : CounterRecorder}
    (h : StoredEvents before recorder) : ∃ recorder' events,
    Yields (storeCounterDifference handler state register) recorder () recorder' events ∧
      StoredEvents before recorder' ∧ (∀ event ∈ events, event.InBounds) ∧
      ((∀ event ∈ events, ¬ event.IsFatal) ↔ EventGuardPasses before register) := by
  rw [← h.eventGuardPasses_iff]
  by_cases hregister : register.toNat < recorder.counterCount
  · let cell := sizeT (sizeT (recorder.index * recorder.counterCount) + register.toNat)
    by_cases hguard : cell < recorder.eventCounts.length
    · refine ⟨{ recorder with
          eventCounts := recorder.eventCounts.set cell (state.getEventCounts register) },
        [.write .eventCounts cell recorder.eventCounts.length], fun trace ↦ ?_,
        ⟨h.common, h.counterCount_eq, by rw [List.length_set, h.length_eventCounts]⟩, ?_, ?_⟩
      · simp [storeCounterDifference, writeEventCount, hregister, hguard, cell]
      · simpa [Event.InBounds] using hguard
      · simpa [Event.IsFatal, EventGuardPasses, hregister] using hguard
    · refine ⟨recorder,
        [.cleanup, .fatalError "Storing event count outside the eventCounts structure"],
        fun trace ↦ ?_, h, fun event hevent ↦ inBounds_of_mem_fatalError hevent, ?_⟩
      · simp [storeCounterDifference, hregister, hguard, cell,
          run_handleFatalError_of_returns (hhandler _), afterFatalError]
      · simpa [Event.IsFatal, EventGuardPasses, hregister] using hguard
  · refine ⟨recorder, [], fun trace ↦ ?_, h, fun _ hevent ↦ absurd hevent List.not_mem_nil, ?_⟩
    · simp [storeCounterDifference, hregister]
    · simp [EventGuardPasses, hregister]

/-- When the guard of the common counts passes at an index, both of its cells exist. -/
def CommonGuardHolds (index size : ℕ) : Prop :=
  sizeT (index + 1) < size →
    sizeT (index * 2) < size ∧ sizeT (sizeT (index * 2) + 1) < size

/-- Storing the common counts writes cells that exist exactly when the guard holds what it promises,
and reports a fatal error when it does not pass. Assumes: the handler always returns. -/
theorem yields_storeCommonCounters_of_returns (hhandler : handler.AlwaysReturns)
    (state : CounterState) (recorder : CounterRecorder) : ∃ recorder' events,
    Yields (storeCommonCounters handler state) recorder () recorder' events ∧
      recorder'.commonCounts.length = recorder.commonCounts.length ∧
      recorder'.index = recorder.index ∧
      ((∀ event ∈ events, event.InBounds) ↔
        CommonGuardHolds recorder.index recorder.commonCounts.length) ∧
      ((∀ event ∈ events, ¬ event.IsFatal) ↔
        sizeT (recorder.index + 1) < recorder.commonCounts.length) := by
  by_cases hguard : sizeT (recorder.index + 1) < recorder.commonCounts.length
  · let cell := sizeT (recorder.index * 2)
    refine ⟨{ recorder with commonCounts := (recorder.commonCounts.set cell
        state.getExecutedInstructions).set (sizeT (cell + 1)) state.getExecutedCycles },
      [.write .commonCounts cell recorder.commonCounts.length,
        .write .commonCounts (sizeT (cell + 1)) recorder.commonCounts.length],
      fun trace ↦ ?_, ?_, rfl, ?_, ?_⟩
    · simp [storeCommonCounters, writeCommonCount, c_commonCounterCount, hguard, cell]
    · rw [List.length_set, List.length_set]
    · simp [CommonGuardHolds, hguard, Event.InBounds, cell]
    · simp [Event.IsFatal, hguard]
  · refine ⟨recorder,
      [.cleanup, .fatalError "Storing common event outside commonCounts structure"],
      fun trace ↦ ?_, rfl, rfl, ?_, ?_⟩
    · simp [storeCommonCounters, hguard, run_handleFatalError_of_returns (hhandler _),
        afterFatalError]
    · simp [CommonGuardHolds, hguard, Event.InBounds]
    · simp [Event.IsFatal, hguard]

/-- Every guard a record asks lets it pass. -/
def GuardsPass (recorder : CounterRecorder) : Prop :=
  (∀ register, EventGuardPasses recorder register) ∧
    sizeT (recorder.index + 1) < recorder.commonCounts.length

/-- A record returns and moves to the next index. It writes cells that exist exactly when the guard
of the common counts holds what it promises, and it reports a fatal error unless every guard passes.
Assumes: the handler always returns. -/
theorem yields_recordCounter_of_returns (hhandler : handler.AlwaysReturns)
    (state : CounterState) (recorder : CounterRecorder) : ∃ recorder' events,
    Yields (recordCounter handler state) recorder () recorder' events ∧
      recorder'.commonCounts.length = recorder.commonCounts.length ∧
      recorder'.index = sizeT (recorder.index + 1) ∧
      ((∀ event ∈ events, event.InBounds) ↔
        CommonGuardHolds recorder.index recorder.commonCounts.length) ∧
      ((∀ event ∈ events, ¬ event.IsFatal) ↔ GuardsPass recorder) := by
  obtain ⟨_, first, hone, hone', hfirst, hfirstPasses⟩ :=
    yields_storeCounterDifference_of_returns hhandler state .one
      (⟨⟨rfl, rfl⟩, rfl, rfl⟩ : StoredEvents recorder recorder)
  obtain ⟨_, second, htwo, htwo', hsecond, hsecondPasses⟩ :=
    yields_storeCounterDifference_of_returns hhandler state .two hone'
  obtain ⟨_, third, hthree, hthree', hthird, hthirdPasses⟩ :=
    yields_storeCounterDifference_of_returns hhandler state .three htwo'
  obtain ⟨stored, fourth, hfour, hstored, hfourth, hfourthPasses⟩ :=
    yields_storeCounterDifference_of_returns hhandler state .four hthree'
  obtain ⟨recorder', common, hcommon, hlength, hindex', hiff, hcommonPasses⟩ :=
    yields_storeCommonCounters_of_returns hhandler state stored
  obtain ⟨hcounts, hindex⟩ := hstored.common
  refine ⟨{ recorder' with index := sizeT (recorder'.index + 1) }, _,
    hone.bind (htwo.bind (hthree.bind (hfour.bind
      (hcommon.bind (Yields.modifyState _ recorder'))))), ?_, ?_, ?_, ?_⟩
  · rw [hlength, hcounts]
  · rw [hindex', hindex]
  · rw [hcounts, hindex] at hiff
    simp only [List.forall_mem_append, hiff, List.append_nil]
    exact ⟨fun h ↦ h.2.2.2.2, fun h ↦ ⟨hfirst, hsecond, hthird, hfourth, h⟩⟩
  · rw [hcounts, hindex] at hcommonPasses
    simp only [List.forall_mem_append, List.append_nil, hfirstPasses, hsecondPasses, hthirdPasses,
      hfourthPasses, hcommonPasses]
    constructor
    · rintro ⟨hone, htwo, hthree, hfour, hpasses⟩
      refine ⟨fun register ↦ ?_, hpasses⟩
      cases register with
      | one => exact hone
      | two => exact htwo
      | three => exact hthree
      | four => exact hfour
    · rintro ⟨hevents, hpasses⟩
      exact ⟨hevents .one, hevents .two, hevents .three, hevents .four, hpasses⟩

end Record

/-! ### Runs of records and resets -/

/-- The calls that change a recorder. -/
inductive RecordingCall
  | recordCounter (state : CounterState)
  | reset

/-- Make a call. -/
def RecordingCall.perform (handler : FatalHandler) : RecordingCall → Program CounterRecorder Unit
  | .recordCounter state => PcmWrapper.recordCounter handler state
  | .reset => PcmWrapper.reset

/-- How often a run has recorded since its last reset, and how often at most between two resets. -/
structure Stretches where
  current : ℕ
  longest : ℕ

/-- A record makes the current stretch longer, a reset starts a new one. -/
def Stretches.step (stretches : Stretches) : RecordingCall → Stretches
  | .recordCounter _ =>
    ⟨stretches.current + 1, max stretches.longest (stretches.current + 1)⟩
  | .reset => { stretches with current := 0 }

/-- The largest number of records in a run without a reset in between. -/
def longestStretch (calls : List RecordingCall) : ℕ :=
  (calls.foldl Stretches.step ⟨0, 0⟩).longest

/-- For how many rows `m_commonCounts` has cells. -/
def rowCount (operationCount : ℕ) : ℕ := operationCount % 2 ^ 63

theorem sizeT_mul_two (operationCount : ℕ) :
    sizeT (operationCount * 2) = rowCount operationCount * 2 := by
  rw [sizeT, rowCount]
  omega

/-- After how many records without a reset the guard of the common counts goes wrong. -/
def guardLimit (operationCount : ℕ) : ℕ :=
  if rowCount operationCount = 1 then 2 ^ 64 - 1 else rowCount operationCount

/-- Up to the limit, the guard of the common counts goes wrong at the limit only. Assumes: there is
room for a row. -/
theorem commonGuardHolds_iff {operationCount current : ℕ} (hroom : rowCount operationCount ≠ 0)
    (hcurrent : current ≤ guardLimit operationCount) :
    CommonGuardHolds (sizeT current) (rowCount operationCount * 2) ↔
      current < guardLimit operationCount := by
  have hrows : rowCount operationCount < 2 ^ 63 := Nat.mod_lt _ (by decide)
  unfold CommonGuardHolds sizeT
  unfold guardLimit at *
  by_cases hone : rowCount operationCount = 1
  · rw [if_pos hone] at *
    rw [hone]
    omega
  · rw [if_neg hone] at *
    omega

/-- Without room for a row the guard of the common counts never passes. -/
theorem commonGuardHolds_of_rowCount_eq_zero {operationCount : ℕ}
    (hroom : rowCount operationCount = 0) (index : ℕ) :
    CommonGuardHolds index (rowCount operationCount * 2) := by
  intro hguard
  rw [hroom] at hguard
  exact absurd hguard (Nat.not_lt_zero _)

/-- What a run has done so far: it stands at the index of its current stretch, and it has only
written cells that exist exactly when its longest stretch is within the limit. -/
structure Tracks (operationCount : ℕ) (m : Machine Event CounterRecorder)
    (stretches : Stretches) : Prop where
  length_eq : m.state.commonCounts.length = rowCount operationCount * 2
  index_eq : m.state.index = sizeT stretches.current
  current_le : stretches.current ≤ stretches.longest
  inBounds_iff : (∀ event ∈ m.trace, event.InBounds) ↔
    rowCount operationCount = 0 ∨ stretches.longest ≤ guardLimit operationCount

/-- Recording once more keeps a run within the limit exactly when it was and the guard of the common
counts holds what it promises. -/
theorem within_limit_succ_iff {operationCount : ℕ} {stretches : Stretches}
    (hcurrent : stretches.current ≤ stretches.longest) :
    (rowCount operationCount = 0 ∨
        max stretches.longest (stretches.current + 1) ≤ guardLimit operationCount) ↔
      (rowCount operationCount = 0 ∨ stretches.longest ≤ guardLimit operationCount) ∧
        CommonGuardHolds (sizeT stretches.current) (rowCount operationCount * 2) := by
  by_cases hroom : rowCount operationCount = 0
  · have hguard := commonGuardHolds_of_rowCount_eq_zero hroom (sizeT stretches.current)
    exact ⟨fun _ ↦ ⟨.inl hroom, hguard⟩, fun _ ↦ .inl hroom⟩
  · have hguard := fun hlongest : stretches.longest ≤ guardLimit operationCount ↦
      commonGuardHolds_iff hroom (hcurrent.trans hlongest)
    rw [or_iff_right hroom, or_iff_right hroom, max_le_iff]
    exact and_congr_right fun hlongest ↦ (hguard hlongest).symm

/-- Every call of a run returns and keeps the account of the run. Assumes: the handler always
returns. -/
theorem tracks_perform {handler : FatalHandler} (hhandler : handler.AlwaysReturns)
    {operationCount : ℕ} {m : Machine Event CounterRecorder} {stretches : Stretches}
    (h : Tracks operationCount m stretches) (call : RecordingCall) :
    ∃ m', survive ((call.perform handler).run m) = .ok () m' ∧
      Tracks operationCount m' (stretches.step call) := by
  cases call with
  | recordCounter state =>
    obtain ⟨recorder, events, hyields, hlength, hindex, hiff, _⟩ :=
      yields_recordCounter_of_returns hhandler state m.state
    have hrun : (RecordingCall.perform handler (.recordCounter state)).run m =
        .ok () ⟨recorder, m.trace ++ events⟩ := hyields m.trace
    refine ⟨⟨recorder, m.trace ++ events⟩, ?_, ?_, ?_, le_max_right _ _, ?_⟩
    · rw [hrun, survive]
    · rw [hlength, h.length_eq]
    · show recorder.index = sizeT (stretches.current + 1)
      rw [hindex, h.index_eq]
      unfold sizeT
      omega
    · rw [h.index_eq, h.length_eq] at hiff
      rw [List.forall_mem_append, h.inBounds_iff, hiff]
      exact (within_limit_succ_iff h.current_le).symm
  | reset =>
    exact ⟨{ m with state := { m.state with index := 0 } }, rfl, h.length_eq, rfl,
      Nat.zero_le _, h.inBounds_iff⟩

/-- With a handler that returns, a run of records and resets only writes cells that exist exactly
when the recorder has no room at all or the run never records more often than the limit without a
reset in between. Assumes: the handler always returns. -/
theorem writes_inBounds_iff {handler : FatalHandler} (hhandler : handler.AlwaysReturns)
    (operationCount : ℕ) (counterCount : CounterRegister) (calls : List RecordingCall) :
    (∀ event ∈ (after ((runCalls (RecordingCall.perform handler) calls).run
      (.fresh (.make operationCount counterCount)))).trace, event.InBounds) ↔
        rowCount operationCount = 0 ∨ longestStretch calls ≤ guardLimit operationCount := by
  have hnew : Tracks operationCount (.fresh (.make operationCount counterCount)) ⟨0, 0⟩ := by
    refine ⟨?_, rfl, le_rfl, ?_⟩
    · show (List.replicate (sizeT (operationCount * 2)) 0).length = _
      rw [List.length_replicate, sizeT_mul_two]
    · exact ⟨fun _ ↦ .inr (Nat.zero_le _), fun _ _ hevent ↦ absurd hevent List.not_mem_nil⟩
  have hstep : ∀ call ∈ calls, ∀ m stretches, Tracks operationCount m stretches →
      ∃ m', survive ((RecordingCall.perform handler call).run m) = .ok () m' ∧
        Tracks operationCount m' (stretches.step call) :=
    fun call _ _ _ hm ↦ tracks_perform hhandler hm call
  obtain ⟨final, hrun, hfinal⟩ := runCalls_follows hstep hnew
  rw [hrun, after_ok]
  exact hfinal.inBounds_iff

/-- A state all of whose counts are zero. -/
def zeroState : CounterState := ⟨fun _ ↦ 0, 0, 0⟩

/-- Two records, a reset and two more records. -/
def twoStretches : List RecordingCall :=
  [.recordCounter zeroState, .recordCounter zeroState, .reset, .recordCounter zeroState,
    .recordCounter zeroState]

/-- With room for two rows, two stretches of two records are fine. -/
theorem writes_inBounds_two :
    longestStretch twoStretches = 2 ∧
      ∀ event ∈ (after ((runCalls (RecordingCall.perform fun _ ↦ .returns) twoStretches).run
        (.fresh (.make 2 .one)))).trace, event.InBounds :=
  ⟨by decide, (writes_inBounds_iff (fun _ ↦ rfl) 2 .one twoStretches).mpr (by decide)⟩

/-- With room for two rows, the third record writes the common counts at the cells four and five of
a vector of four. -/
theorem thirdRecord_not_inBounds :
    ¬ ∀ event ∈ (after ((runCalls (RecordingCall.perform fun _ ↦ .returns)
      [.recordCounter zeroState, .recordCounter zeroState, .recordCounter zeroState]).run
        (.fresh (.make 2 .one)))).trace, event.InBounds := by
  decide +kernel

end PcmWrapper
