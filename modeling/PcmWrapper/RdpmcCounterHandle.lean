import PcmWrapper.BoundedRecording

/-!
# Counting with `rdpmc`

`RDPMCCountersHandle` reads six hardware counters at `onStart` and again at `onEnd`, and its getters
subtract. A counter has fewer than 64 bits, and `rdpmc` fills the rest of `edx:eax` with zeros, so
the readings live modulo `2 ^ width` while the subtraction is one of `std::uint64_t`. A counter that
passes `2 ^ width` between the two readings makes the difference come out too large by
`2 ^ 64 - 2 ^ width`.

`measured_eq_growth_iff` says so for all six counters and every pair of true counts less than
`2 ^ width` apart, for what the getter returns and for the cell in which `onEnd` stores it.
-/

set_option autoImplicit false
set_option relaxedAutoImplicit false

namespace PcmWrapper

open Library

/-! ### Reading the counters -/

/-- `RETIRED_INSTRUCTION`. -/
def retiredInstruction : UInt32 := (1 : UInt32) <<< (30 : UInt32)

/-- `EXECUTED_CYCLES`. -/
def executedCycles : UInt32 := retiredInstruction + 1

/-- `eax` and `edx` after `rdpmc`: the low `width` bits of the true count, zero-extended. -/
def rdpmc (width count : ℕ) : UInt32 × UInt32 :=
  (UInt32.ofNat (count % 2 ^ width % 2 ^ 32), UInt32.ofNat (count % 2 ^ width / 2 ^ 32))

/-- `RDPMC`, at a moment when the counters have the given true counts. -/
def RDPMC (width : ℕ) (counts : UInt32 → ℕ) (counter : UInt32) : UInt64 :=
  let (a, d) := rdpmc width (counts counter)
  a.toUInt64 ||| (d.toUInt64 <<< (32 : UInt64))

/-- `getRetiredInstructions`. -/
def getRetiredInstructions (width : ℕ) (counts : UInt32 → ℕ) : UInt64 :=
  RDPMC width counts retiredInstruction

/-- `getExecutedCycles`. -/
def getExecutedCycles (width : ℕ) (counts : UInt32 → ℕ) : UInt64 :=
  RDPMC width counts executedCycles

/-- `RDPMCCountersHandle::CounterState`. -/
structure RDPMCState where
  instructions : UInt64
  cycles : UInt64
  p : CounterRegister → UInt64

/-- What `RDPMCCountersHandle::onStart` and `onEnd` store. -/
def RDPMCState.take (width : ℕ) (counts : UInt32 → ℕ) : RDPMCState where
  instructions := getRetiredInstructions width counts
  cycles := getExecutedCycles width counts
  p := fun register ↦ RDPMC width counts (UInt32.ofNat register.toNat)

/-- `RDPMCCountersHandle`. -/
def RDPMCCountersHandle : CounterHandle RDPMCState where
  getEventCounts := fun order startState endState ↦ endState.p order - startState.p order
  getExecutedInstructions := fun startState endState ↦
    endState.instructions - startState.instructions
  getExecutedCycles := fun startState endState ↦ endState.cycles - startState.cycles

/-! ### The six counters -/

/-- The counters of a handle. -/
inductive HardwareCounter
  | instructions
  | cycles
  | programmable (register : CounterRegister)

/-- What `rdpmc` is given to read the counter. -/
def HardwareCounter.operand : HardwareCounter → UInt32
  | .instructions => retiredInstruction
  | .cycles => executedCycles
  | .programmable register => UInt32.ofNat register.toNat

/-- What the getter of the counter returns. -/
def HardwareCounter.measured (state : CounterState) : HardwareCounter → UInt64
  | .instructions => state.getExecutedInstructions
  | .cycles => state.getExecutedCycles
  | .programmable register => state.getEventCounts register

/-- A recorder has a column for the counter. -/
def HardwareCounter.HasColumn (counterCount : CounterRegister) : HardwareCounter → Prop
  | .instructions => True
  | .cycles => True
  | .programmable register => register.toNat < counterCount.toNat + 1

/-- The cell of the counter in a row of a recorder. -/
def HardwareCounter.cell (recorder : CounterRecorder) (index : ℕ) :
    HardwareCounter → Option UInt64
  | .instructions => recorder.commonCounts[index * 2]?
  | .cycles => recorder.commonCounts[index * 2 + 1]?
  | .programmable register => recorder.eventCounts[index * recorder.counterCount + register.toNat]?

/-! ### Readings and differences -/

/-- `edx:eax` holds the low bits of the count. -/
theorem toNat_RDPMC {width : ℕ} (hwidth : width < 64) (counts : UInt32 → ℕ) (counter : UInt32) :
    (RDPMC width counts counter).toNat = counts counter % 2 ^ width := by
  have hlow : counts counter % 2 ^ width < 2 ^ 64 :=
    (Nat.mod_lt _ (Nat.two_pow_pos width)).trans (Nat.pow_lt_pow_right (by decide) hwidth)
  obtain ⟨low, hlow_eq⟩ : ∃ low, low = counts counter % 2 ^ width := ⟨_, rfl⟩
  rw [← hlow_eq] at hlow ⊢
  have heax : (UInt32.ofNat (low % 2 ^ 32)).toUInt64.toNat = low % 2 ^ 32 := by
    rw [UInt32.toNat_toUInt64, UInt32.toNat_ofNat']
    omega
  have hedx : ((UInt32.ofNat (low / 2 ^ 32)).toUInt64 <<< (32 : UInt64)).toNat =
      2 ^ 32 * (low / 2 ^ 32) := by
    have hhigh : (UInt32.ofNat (low / 2 ^ 32)).toUInt64.toNat = low / 2 ^ 32 := by
      rw [UInt32.toNat_toUInt64, UInt32.toNat_ofNat']
      omega
    have hshift : (32 : UInt64).toNat % 64 = 32 := by decide
    rw [UInt64.toNat_shiftLeft, hhigh, hshift, Nat.shiftLeft_eq]
    omega
  have hjoin : 2 ^ 32 * (low / 2 ^ 32) + low % 2 ^ 32 = 2 ^ 32 * (low / 2 ^ 32) ||| low % 2 ^ 32 :=
    Nat.two_pow_add_eq_or_of_lt (Nat.mod_lt _ (by decide)) _
  simp only [RDPMC, rdpmc, ← hlow_eq]
  rw [UInt64.toNat_or, heax, hedx, Nat.or_comm, ← hjoin, Nat.div_add_mod]

/-- The difference of two readings, taken modulo something larger, is the difference of the counts
exactly when the counts lie in the same turn of the counter. -/
theorem wrapped_sub_eq_iff {s e turn modulus : ℕ} (hle : s ≤ e) (hlt : e < s + turn)
    (hturn : turn < modulus) :
    (modulus - s % turn + e % turn) % modulus = e - s ↔ s / turn = e / turn := by
  have hpos : 0 < turn := by omega
  have hs := Nat.div_add_mod s turn
  have he := Nat.div_add_mod e turn
  have hsmod := Nat.mod_lt s hpos
  have hemod := Nat.mod_lt e hpos
  have hnext : e / turn ≤ s / turn + 1 := by
    rw [← Nat.add_div_right s hpos]
    exact Nat.div_le_div_right hlt.le
  rcases (Nat.div_le_div_right hle).eq_or_lt with hsame | hpassed
  · refine iff_of_true ?_ hsame
    rw [← hsame] at he
    have hsum : modulus - s % turn + e % turn = e - s + modulus := by omega
    rw [hsum, Nat.add_mod_right]
    exact Nat.mod_eq_of_lt (by omega)
  · have hturns : e / turn = s / turn + 1 := by omega
    refine iff_of_false ?_ hpassed.ne
    rw [hturns, Nat.mul_succ] at he
    rw [Nat.mod_eq_of_lt (by omega)]
    omega

section Measuring

variable {width : ℕ} {startCounts endCounts : UInt32 → ℕ}

/-- The getter of a counter subtracts its two readings. -/
theorem toNat_measured (hwidth : width < 64) (startCounts endCounts : UInt32 → ℕ)
    (counter : HardwareCounter) :
    (counter.measured (RDPMCCountersHandle.between (.take width startCounts)
      (.take width endCounts))).toNat =
        (2 ^ 64 - startCounts counter.operand % 2 ^ width +
          endCounts counter.operand % 2 ^ width) % 2 ^ 64 := by
  have hdifference : counter.measured (RDPMCCountersHandle.between (.take width startCounts)
      (.take width endCounts)) =
        RDPMC width endCounts counter.operand - RDPMC width startCounts counter.operand := by
    cases counter <;> rfl
  rw [hdifference, UInt64.toNat_sub, toNat_RDPMC hwidth, toNat_RDPMC hwidth]

/-- A getter returns the difference of the true counts exactly when the counter has not passed
`2 ^ width` between the readings. -/
theorem toNat_measured_eq_iff (hwidth : width < 64) {counter : HardwareCounter}
    (hle : startCounts counter.operand ≤ endCounts counter.operand)
    (hlt : endCounts counter.operand < startCounts counter.operand + 2 ^ width) :
    (counter.measured (RDPMCCountersHandle.between (.take width startCounts)
      (.take width endCounts))).toNat =
        endCounts counter.operand - startCounts counter.operand ↔
      startCounts counter.operand / 2 ^ width = endCounts counter.operand / 2 ^ width := by
  rw [toNat_measured hwidth]
  exact wrapped_sub_eq_iff hle hlt (Nat.pow_lt_pow_right (by decide) hwidth)

/-- The cells of the held rows contain what the getters returned. -/
theorem cell_of_held_row {operationCount : ℕ} {counterCount : CounterRegister}
    {recorder : CounterRecorder} {rows : List CounterState}
    (h : Holds operationCount counterCount recorder rows) {counter : HardwareCounter}
    (hcolumn : counter.HasColumn counterCount) {j : ℕ} (hj : j < rows.length) :
    counter.cell recorder j = some (counter.measured rows[j]) := by
  have hcommon := h.common j hj
  have hevents := h.events j hj
  cases counter with
  | instructions =>
    have hcell := getElem?_row recorder.commonCounts (by decide : 0 < 2) j
    rw [hcommon] at hcell
    exact hcell.symm
  | cycles =>
    have hcell := getElem?_row recorder.commonCounts (by decide : 1 < 2) j
    rw [hcommon] at hcell
    exact hcell.symm
  | programmable register =>
    have hcell := getElem?_row recorder.eventCounts hcolumn j
    rw [hevents, List.getElem?_map, getElem?_columns hcolumn] at hcell
    rw [HardwareCounter.cell, h.counterCount_eq]
    exact hcell.symm

/-- So do those of the row that was recorded last. -/
theorem cell_of_holds {operationCount : ℕ} {counterCount : CounterRegister}
    {recorder : CounterRecorder} {rows : List CounterState} {state : CounterState}
    (h : Holds operationCount counterCount recorder (rows ++ [state])) {counter : HardwareCounter}
    (hcolumn : counter.HasColumn counterCount) :
    counter.cell recorder rows.length = some (counter.measured state) := by
  have hlt : rows.length < (rows ++ [state]).length := by
    rw [List.length_append, List.length_singleton]
    exact Nat.lt_succ_self _
  have hlast : (rows ++ [state])[rows.length] = state := List.getElem_concat_length rfl _
  rw [cell_of_held_row h hcolumn hlt, hlast]

end Measuring

/-- In every run of a recorder that still has room, an end stores the given number in the cell of
the counter, if the recorder has a column for it: the latest start has seen the first counts, the
end sees the others, no fatal error has been passed over, and the sizes of the vectors do not wrap.
-/
def OnEndStores (width : ℕ) (startCounts endCounts : UInt32 → ℕ) (counter : HardwareCounter)
    (number : ℕ) : Prop :=
  ∀ (handler : FatalHandler) (operationCount : ℕ) (counterCount : CounterRegister)
    (startState endState : RDPMCState) (calls : List (RecorderCall RDPMCState))
    (m : Machine Event (CounterHandleRecorder RDPMCState)),
    operationCount * 2 < 2 ^ 64 → operationCount * (counterCount.toNat + 1) < 2 ^ 64 →
    (runCalls (RecorderCall.perform handler RDPMCCountersHandle) calls).run
      (newRecorder operationCount counterCount startState endState) = .ok () m →
    NoErrorIgnored handler m → m.state.startState = .take width startCounts →
    m.state.recorder.index < operationCount → ∃ m',
      (onEnd handler RDPMCCountersHandle (.take width endCounts)).run m = .ok () m' ∧
      (counter.HasColumn counterCount →
        (counter.cell m'.state.recorder m.state.recorder.index).map UInt64.toNat = some number)

/-- What `onEnd` stores is what the getter returns. -/
theorem onEndStores_measured (width : ℕ) (startCounts endCounts : UInt32 → ℕ)
    (counter : HardwareCounter) : OnEndStores width startCounts endCounts counter
      (counter.measured (RDPMCCountersHandle.between (.take width startCounts)
        (.take width endCounts))).toNat := by
  intro handler operationCount counterCount startState endState calls m hcommon hevents hrun hnone
    hstart hroom
  have hm := represents_runCalls RDPMCCountersHandle hcommon hevents hrun hnone
  rw [hm.holds.index_eq] at hroom ⊢
  obtain ⟨recorder, events, honEnd, _, hholds⟩ :=
    run_onEnd_of_room hcommon hevents handler RDPMCCountersHandle hm hroom (.take width endCounts)
  rw [← hm.latestStart, hstart] at hholds
  refine ⟨_, honEnd, fun hcolumn ↦ ?_⟩
  rw [cell_of_holds hholds hcolumn, Option.map_some]

/-- For each of the six counters, when its true count grows by less than `2 ^ width` between the
start and the end, the getter returns that growth, and `onEnd` stores it, exactly when the counter
has not passed a multiple of `2 ^ width` in between. Assumes: counters of less than 64 bits. -/
theorem measured_eq_growth_iff {width : ℕ} (hwidth : width < 64)
    {startCounts endCounts : UInt32 → ℕ} (counter : HardwareCounter)
    (hle : startCounts counter.operand ≤ endCounts counter.operand)
    (hlt : endCounts counter.operand < startCounts counter.operand + 2 ^ width) :
    let growth := endCounts counter.operand - startCounts counter.operand
    (counter.measured (RDPMCCountersHandle.between (.take width startCounts)
        (.take width endCounts))).toNat = growth ∧
      OnEndStores width startCounts endCounts counter growth ↔
        startCounts counter.operand / 2 ^ width = endCounts counter.operand / 2 ^ width := by
  intro growth
  rw [← toNat_measured_eq_iff hwidth hle hlt]
  refine ⟨fun h ↦ h.1, fun hgrowth ↦ ⟨hgrowth, ?_⟩⟩
  have hstores := onEndStores_measured width startCounts endCounts counter
  rw [hgrowth] at hstores
  exact hstores

/-- The cycles at a start and at an end, with all other counters at zero. -/
def cycleCounts (cycles : ℕ) : UInt32 → ℕ := fun counter ↦
  if counter = executedCycles then cycles else 0

/-- Ten cycles within a turn of a counter of 48 bits are counted as ten. -/
theorem measured_eq_growth_ten :
    (HardwareCounter.cycles.measured (RDPMCCountersHandle.between
      (.take 48 (cycleCounts (2 ^ 48 + 5)))
      (.take 48 (cycleCounts (2 ^ 48 + 15))))).toNat = 10 := by
  have hle : cycleCounts (2 ^ 48 + 5) executedCycles ≤
      cycleCounts (2 ^ 48 + 15) executedCycles := by decide
  exact ((measured_eq_growth_iff (by decide : 48 < 64) .cycles hle (by decide)).mpr (by decide)).1

/-- Ten cycles across the end of a turn of a counter of 48 bits are not counted as ten. -/
theorem wrappedCycles_not_counted :
    let measured := HardwareCounter.cycles.measured (RDPMCCountersHandle.between
      (.take 48 (cycleCounts (2 ^ 48 - 5))) (.take 48 (cycleCounts (2 ^ 48 + 5))))
    measured.toNat = 2 ^ 64 - 2 ^ 48 + 10 ∧ measured.toNat ≠ (2 ^ 48 + 5) - (2 ^ 48 - 5) := by
  decide +kernel

end PcmWrapper
