import PcmWrapper.RdpmcCounterHandle

/-!
# What the columns of a table add up to

A thread that measures with `rdpmc` takes one pair of readings after the other, and the recorder
keeps a row for each. `column_total` says that a recorder with room for them takes them all without
an error, whatever is counted, and what the column of a counter adds up to in terms of the true
counts when the counter grows by less than `2 ^ width` in each measurement: the growth of the
counter inside the measurements, and `2 ^ 64 - 2 ^ width` more for each measurement in which it
passed a multiple of `2 ^ width`. Measurements do not overlap, so with no such passing nothing is
counted twice: the column adds up to no more than the counter has grown from the first start to the
last end. Nothing of the kind holds of a counter that grows by more, since the register forgets
whole turns.
-/

set_option autoImplicit false
set_option relaxedAutoImplicit false

namespace PcmWrapper

open Library

/-- The true counts at the start and at the end of a measurement. -/
structure Measurement where
  start : UInt32 → ℕ
  stop : UInt32 → ℕ

/-- `onStart` and `onEnd`, with the readings they take. -/
def Measurement.calls (width : ℕ) (measurement : Measurement) :
    List (RecorderCall RDPMCState) :=
  [.onStart (.take width measurement.start), .onEnd (.take width measurement.stop)]

/-- What the getters return behind a measurement. -/
def Measurement.row (width : ℕ) (measurement : Measurement) : CounterState :=
  RDPMCCountersHandle.between (.take width measurement.start) (.take width measurement.stop)

/-- By how much the counter has grown. -/
def Measurement.growth (counter : HardwareCounter) (measurement : Measurement) : ℕ :=
  measurement.stop counter.operand - measurement.start counter.operand

/-- The counter has passed a multiple of `2 ^ width`. -/
def Measurement.Passes (width : ℕ) (counter : HardwareCounter) (measurement : Measurement) : Prop :=
  measurement.start counter.operand / 2 ^ width ≠ measurement.stop counter.operand / 2 ^ width

instance (width : ℕ) (counter : HardwareCounter) :
    DecidablePred (Measurement.Passes width counter) := fun measurement ↦
  inferInstanceAs (Decidable (measurement.start counter.operand / 2 ^ width ≠
    measurement.stop counter.operand / 2 ^ width))

/-- The counter grows by less than a turn. -/
def Measurement.IsShort (width : ℕ) (counter : HardwareCounter) (measurement : Measurement) :
    Prop :=
  measurement.start counter.operand ≤ measurement.stop counter.operand ∧
    measurement.stop counter.operand < measurement.start counter.operand + 2 ^ width

/-! ### One row -/

/-- The difference of two readings, taken modulo something larger, is too large by what is missing
to that when the counter has passed the end of a turn. -/
theorem wrapped_sub_eq {s e turn modulus : ℕ} (hle : s ≤ e) (hlt : e < s + turn)
    (hturn : turn < modulus) : (modulus - s % turn + e % turn) % modulus =
      e - s + if s / turn ≠ e / turn then modulus - turn else 0 := by
  by_cases hsame : s / turn = e / turn
  · rw [(wrapped_sub_eq_iff hle hlt hturn).mpr hsame, if_neg (not_not.mpr hsame), Nat.add_zero]
  · rw [if_pos hsame]
    have hpos : 0 < turn := by omega
    have hs := Nat.div_add_mod s turn
    have he := Nat.div_add_mod e turn
    have hsmod := Nat.mod_lt s hpos
    have hemod := Nat.mod_lt e hpos
    have hnext : e / turn ≤ s / turn + 1 := by
      rw [← Nat.add_div_right s hpos]
      exact Nat.div_le_div_right hlt.le
    have hturns : e / turn = s / turn + 1 :=
      le_antisymm hnext (lt_of_le_of_ne (Nat.div_le_div_right hle) hsame)
    rw [hturns, Nat.mul_succ] at he
    rw [Nat.mod_eq_of_lt (by omega)]
    omega

/-- What a getter returns: the growth, and too much when the counter has passed. -/
theorem toNat_measured_row {width : ℕ} (hwidth : width < 64) {counter : HardwareCounter}
    {measurement : Measurement} (hshort : measurement.IsShort width counter) :
    (counter.measured (measurement.row width)).toNat = measurement.growth counter +
      if measurement.Passes width counter then 2 ^ 64 - 2 ^ width else 0 := by
  rw [Measurement.row, toNat_measured hwidth]
  exact wrapped_sub_eq hshort.1 hshort.2 (Nat.pow_lt_pow_right (by decide) hwidth)

/-! ### A run of measurements -/

section Runs

variable {width operationCount : ℕ} {counterCount : CounterRegister} {handler : FatalHandler}

/-- With room for it, a measurement appends its row without an error. Assumes: the sizes of the
vectors do not wrap. -/
theorem represents_measurement (handler : FatalHandler) (width : ℕ)
    (hcommon : operationCount * 2 < 2 ^ 64)
    (hevents : operationCount * (counterCount.toNat + 1) < 2 ^ 64)
    {m : Machine Event (CounterHandleRecorder RDPMCState)} {log : MeasurementLog RDPMCState}
    (h : Represents operationCount counterCount m log) (hroom : log.rows.length < operationCount)
    (htrace : ∀ event ∈ m.trace, event.IsClean) (measurement : Measurement) : ∃ m₁ m₂,
    survive ((RecorderCall.perform handler RDPMCCountersHandle
      (.onStart (.take width measurement.start))).run m) = .ok () m₁ ∧
    survive ((RecorderCall.perform handler RDPMCCountersHandle
      (.onEnd (.take width measurement.stop))).run m₁) = .ok () m₂ ∧
    Represents operationCount counterCount m₂
      ⟨.take width measurement.start, log.rows ++ [measurement.row width]⟩ ∧
    ∀ event ∈ m₂.trace, event.IsClean := by
  let started : Machine Event (CounterHandleRecorder RDPMCState) :=
    ⟨{ m.state with startState := .take width measurement.start }, m.trace⟩
  have hstarted : Represents operationCount counterCount started
      ⟨.take width measurement.start, log.rows⟩ := ⟨rfl, h.holds, h.inBounds⟩
  obtain ⟨recorder, events, hend, hclean, hholds⟩ := run_onEnd_of_room hcommon hevents handler
    RDPMCCountersHandle hstarted hroom (.take width measurement.stop)
  refine ⟨started, ⟨{ started.state with
    endState := .take width measurement.stop, recorder }, m.trace ++ events⟩, rfl, ?_,
    ⟨rfl, hholds, inBounds_append h.inBounds hclean⟩,
    List.forall_mem_append.mpr ⟨htrace, hclean⟩⟩
  rw [RecorderCall.perform, run_bind_of_ok hend]
  rfl

/-- With room for them, measurements append their rows without an error. Assumes: the sizes of the
vectors do not wrap. -/
theorem represents_measurements (handler : FatalHandler) (width : ℕ)
    (hcommon : operationCount * 2 < 2 ^ 64)
    (hevents : operationCount * (counterCount.toNat + 1) < 2 ^ 64)
    {measurements : List Measurement} {m : Machine Event (CounterHandleRecorder RDPMCState)}
    {log : MeasurementLog RDPMCState} (h : Represents operationCount counterCount m log)
    (hroom : log.rows.length + measurements.length ≤ operationCount)
    (htrace : ∀ event ∈ m.trace, event.IsClean) : ∃ m' latest,
    (runCalls (RecorderCall.perform handler RDPMCCountersHandle)
      (measurements.flatMap (·.calls width))).run m = .ok () m' ∧
      Represents operationCount counterCount m'
        ⟨latest, log.rows ++ measurements.map (·.row width)⟩ ∧
      ∀ event ∈ m'.trace, event.IsClean := by
  induction measurements generalizing m log with
  | nil =>
    refine ⟨m, log.latestStart, rfl, ?_, htrace⟩
    rw [List.map_nil, List.append_nil]
    exact h
  | cons measurement measurements ih =>
    rw [List.length_cons] at hroom
    obtain ⟨m₁, m₂, hstart, hend, hfirst, hclean⟩ := represents_measurement handler width hcommon
      hevents h (by omega) htrace measurement
    have hlength : (log.rows ++ [measurement.row width]).length + measurements.length ≤
        operationCount := by
      rw [List.length_append, List.length_singleton]
      omega
    obtain ⟨m', latest, hrun, hlater, hcleanLater⟩ := ih hfirst hlength hclean
    refine ⟨m', latest, run_runCalls_cons_eq_ok.mpr ⟨m₁, hstart,
      run_runCalls_cons_eq_ok.mpr ⟨m₂, hend, hrun⟩⟩, ?_, hcleanLater⟩
    rw [List.append_assoc] at hlater
    exact hlater

end Runs

/-- The column of a counter, as far as there are rows. -/
def HardwareCounter.column (counter : HardwareCounter) (recorder : CounterRecorder) :
    List (Option UInt64) :=
  (List.range recorder.index).map (counter.cell recorder)

/-- A column has what the getters returned. -/
theorem column_of_holds {operationCount : ℕ} {counterCount : CounterRegister}
    {recorder : CounterRecorder} {rows : List CounterState}
    (h : Holds operationCount counterCount recorder rows) {counter : HardwareCounter}
    (hcolumn : counter.HasColumn counterCount) :
    counter.column recorder = (rows.map counter.measured).map some := by
  rw [HardwareCounter.column, h.index_eq]
  refine List.ext_getElem (by simp) fun j hj _ ↦ ?_
  have hlt : j < rows.length := by simpa using hj
  rw [List.getElem_map, List.getElem_map, List.getElem_map, List.getElem_range]
  exact cell_of_held_row h hcolumn hlt

/-! ### Totals -/

section Totals

variable {width : ℕ} {counter : HardwareCounter} {measurements : List Measurement}

/-- The numbers of a column add up to the growth in the measurements, and too much for each in which
the counter has passed. -/
theorem sum_measured (hwidth : width < 64)
    (hshort : ∀ measurement ∈ measurements, measurement.IsShort width counter) :
    (measurements.map fun measurement ↦ (counter.measured (measurement.row width)).toNat).sum =
      (measurements.map (·.growth counter)).sum +
        measurements.countP (·.Passes width counter) * (2 ^ 64 - 2 ^ width) := by
  induction measurements with
  | nil => simp
  | cons measurement measurements ih =>
    obtain ⟨hfirst, hlater⟩ := List.forall_mem_cons.mp hshort
    rw [List.map_cons, List.map_cons, List.sum_cons, List.sum_cons, ih hlater,
      toNat_measured_row hwidth hfirst, List.countP_cons]
    by_cases hpasses : measurement.Passes width counter
    · simp only [hpasses, if_true, decide_true]
      rw [Nat.add_mul, Nat.one_mul]
      omega
    · simp only [hpasses, if_false, decide_false, Bool.false_eq_true, Nat.add_zero]
      omega

/-- Measurements that follow each other grow together by no more than what lies between the first
start and the last end. -/
theorem sum_growth_le {first : Measurement}
    (hgrows : ∀ measurement ∈ first :: measurements,
      measurement.start counter.operand ≤ measurement.stop counter.operand)
    (hfollows : (first :: measurements).IsChain fun earlier later ↦
      earlier.stop counter.operand ≤ later.start counter.operand) :
    ((first :: measurements).map (·.growth counter)).sum + first.start counter.operand ≤
      ((first :: measurements).getLast (List.cons_ne_nil _ _)).stop counter.operand := by
  induction measurements generalizing first with
  | nil =>
    have hfirst := hgrows first List.mem_cons_self
    simp only [List.map_cons, List.map_nil, List.sum_cons, List.sum_nil, Measurement.growth,
      List.getLast_singleton]
    omega
  | cons second measurements ih =>
    obtain ⟨hfirst, hlater⟩ := List.forall_mem_cons.mp hgrows
    obtain ⟨hnext, hchain⟩ := List.isChain_cons_cons.mp hfollows
    have hrest := ih hlater hchain
    rw [List.map_cons, List.sum_cons, List.getLast_cons (List.cons_ne_nil _ _)]
    rw [Measurement.growth]
    omega

end Totals

/-- A new recorder with room for them takes any number of measurements: the run returns, touches
only cells that exist, reports no error, and leaves a number in the column of a counter for each
measurement. Where the counter grows by less than `2 ^ width` in each, the column adds up to the
growth of the counter inside the measurements, and `2 ^ 64 - 2 ^ width` more for each in which the
counter has passed a multiple of `2 ^ width`. When it has passed none, and the measurements follow
each other, that is no more than the counter has grown from the first start to the last end.
Assumes: counters of less than 64 bits, and a recorder that has the column and whose sizes do not
wrap. -/
theorem column_total {width : ℕ} (hwidth : width < 64) (handler : FatalHandler)
    {operationCount : ℕ} {counterCount : CounterRegister} (hcommon : operationCount * 2 < 2 ^ 64)
    (hevents : operationCount * (counterCount.toNat + 1) < 2 ^ 64) {counter : HardwareCounter}
    (hcolumn : counter.HasColumn counterCount) {measurements : List Measurement}
    (hroom : measurements.length ≤ operationCount) (startState endState : RDPMCState) :
    ∃ m, ∃ counts : List UInt64,
      (runCalls (RecorderCall.perform handler RDPMCCountersHandle)
          (measurements.flatMap (·.calls width))).run
        (newRecorder operationCount counterCount startState endState) = .ok () m ∧
      (∀ event ∈ m.trace, event.IsClean) ∧
      counter.column m.state.recorder = counts.map some ∧ counts.length = measurements.length ∧
      ((∀ measurement ∈ measurements, measurement.IsShort width counter) →
        (counts.map UInt64.toNat).sum = (measurements.map (·.growth counter)).sum +
          measurements.countP (·.Passes width counter) * (2 ^ 64 - 2 ^ width) ∧
        ∀ first later, measurements = first :: later →
          (∀ measurement ∈ measurements, ¬ measurement.Passes width counter) →
          (measurements.IsChain fun earlier later ↦
            earlier.stop counter.operand ≤ later.start counter.operand) →
          (counts.map UInt64.toNat).sum + first.start counter.operand ≤
            ((first :: later).getLast (List.cons_ne_nil _ _)).stop counter.operand) := by
  have hempty := represents_newRecorder hcommon hevents startState endState
  obtain ⟨m, latest, hrun, hm, hclean⟩ := represents_measurements handler width hcommon hevents
    hempty (by rw [List.length_nil, Nat.zero_add]; exact hroom)
    fun _ hevent ↦ absurd hevent List.not_mem_nil
  have hrows : counter.column m.state.recorder =
      ((measurements.map (·.row width)).map counter.measured).map some :=
    column_of_holds hm.holds hcolumn
  refine ⟨m, _, hrun, hclean, hrows, by rw [List.length_map, List.length_map], fun hshort ↦ ?_⟩
  have htotal : (((measurements.map (·.row width)).map counter.measured).map UInt64.toNat).sum =
      (measurements.map (·.growth counter)).sum +
        measurements.countP (·.Passes width counter) * (2 ^ 64 - 2 ^ width) := by
    rw [List.map_map, List.map_map]
    exact sum_measured hwidth hshort
  refine ⟨htotal, ?_⟩
  rintro first later rfl hnone hfollows
  have hzero : (first :: later).countP (·.Passes width counter) = 0 :=
    List.countP_eq_zero.mpr fun measurement hmem ↦ by simpa using hnone measurement hmem
  rw [htotal, hzero, Nat.zero_mul, Nat.add_zero]
  exact sum_growth_le (fun measurement hmem ↦ (hshort measurement hmem).1) hfollows

/-- Ten cycles within a turn, and ten across the end of one. -/
def tenCyclesTwice : List Measurement :=
  [⟨cycleCounts (2 ^ 48 - 30), cycleCounts (2 ^ 48 - 20)⟩,
    ⟨cycleCounts (2 ^ 48 - 5), cycleCounts (2 ^ 48 + 5)⟩]

/-- They add up to twenty, and too much once. -/
theorem column_total_cycles : ∃ m, ∃ counts : List UInt64,
    (runCalls (RecorderCall.perform defaultFatalHandler RDPMCCountersHandle)
        (tenCyclesTwice.flatMap (·.calls 48))).run
      (newRecorder 2 .four (.take 48 (cycleCounts 0)) (.take 48 (cycleCounts 0))) = .ok () m ∧
    (∀ event ∈ m.trace, event.IsClean) ∧
    HardwareCounter.cycles.column m.state.recorder = counts.map some ∧ counts.length = 2 ∧
    (counts.map UInt64.toNat).sum = 20 + (2 ^ 64 - 2 ^ 48) := by
  have hshort : ∀ measurement ∈ tenCyclesTwice, measurement.IsShort 48 .cycles := by
    rw [tenCyclesTwice, List.forall_mem_cons, List.forall_mem_singleton]
    exact ⟨⟨by decide, by decide⟩, ⟨by decide, by decide⟩⟩
  have hcolumn : HardwareCounter.cycles.HasColumn .four := by
    rw [HardwareCounter.HasColumn]
    exact True.intro
  have hroom : tenCyclesTwice.length ≤ 2 := le_rfl
  obtain ⟨m, counts, hrun, hclean, hcounts, hlength, htotals⟩ := column_total (by decide : 48 < 64)
    defaultFatalHandler (by decide : 2 * 2 < 2 ^ 64)
    (by decide : 2 * (CounterRegister.four.toNat + 1) < 2 ^ 64)
    hcolumn hroom (.take 48 (cycleCounts 0)) (.take 48 (cycleCounts 0))
  exact ⟨m, counts, hrun, hclean, hcounts, hlength, (htotals hshort).1.trans (by decide)⟩

end PcmWrapper
