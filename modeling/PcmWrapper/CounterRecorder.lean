import Mathlib.Algebra.Group.Nat.Defs
import PcmWrapper.ErrorHandling
import PcmWrapper.Library.DelimitedText

/-!
# Recording counter differences

`CounterRecorder` has room for `operationCount` rows. A row is two common counts, in
`commonCounts` with stride two, and one count for each of `counterCount` events, in
`eventCounts` with that stride; both vectors share one index. Every store has a guard of its own,
which reports a fatal error when it fails, and the code goes on when the handler returns. `print`
writes the recorded rows as lines of comma separated decimals, without any check.

All index arithmetic is done in `std::size_t`, which wraps at `2 ^ 64`.

`CounterHandleRecorder` adds a recorder to a counter handle, which takes a snapshot at `onStart` and
one at `onEnd`. What the getters of a handle compute from two snapshots is left open.
-/

set_option autoImplicit false
set_option relaxedAutoImplicit false

namespace PcmWrapper

open Library

/-- A result of `std::size_t` arithmetic. -/
def sizeT (n : ℕ) : ℕ := n % 2 ^ 64

theorem sizeT_of_lt {n : ℕ} (h : n < 2 ^ 64) : sizeT n = n := Nat.mod_eq_of_lt h

/-- `CounterRegister`. -/
inductive CounterRegister
  | one
  | two
  | three
  | four
  deriving DecidableEq

/-- The value of the enumerator. -/
def CounterRegister.toNat : CounterRegister → ℕ
  | .one => 0
  | .two => 1
  | .three => 2
  | .four => 3

/-- The counter registers in their order. -/
def CounterRegister.all : List CounterRegister := [.one, .two, .three, .four]

theorem CounterRegister.mem_all (register : CounterRegister) : register ∈ all := by
  cases register <;> decide

instance (p : CounterRegister → Prop) [DecidablePred p] : Decidable (∀ register, p register) :=
  decidable_of_iff (∀ register ∈ CounterRegister.all, p register)
    ⟨fun h register ↦ h register register.mem_all, fun h register _ ↦ h register⟩

/-- What `recordCounter` asks of its argument, the `COUNTER_STATE`. -/
structure CounterState where
  getEventCounts : CounterRegister → UInt64
  getExecutedInstructions : UInt64
  getExecutedCycles : UInt64

/-- A text on an output stream. -/
abbrev Text := List Char

def c_csvDelim : Char := ','
def c_commonCounterHeaders : Text := "INSTRUCTIONS,CYCLES".toList
def c_commonCounterCount : ℕ := 2

/-! ### The recorder -/

/-- `CounterRecorder`. -/
structure CounterRecorder where
  operationCount : ℕ
  counterCount : ℕ
  commonCounts : List UInt64
  eventCounts : List UInt64
  index : ℕ

/-- The constructor `CounterRecorder::CounterRecorder`, for sizes up to the `max_size` of its
vectors. Above that it throws `std::length_error` and there is no recorder. -/
def CounterRecorder.make (operationCount : ℕ) (counterCount : CounterRegister) :
    CounterRecorder where
  operationCount := operationCount
  counterCount := counterCount.toNat + 1
  commonCounts := List.replicate (sizeT (operationCount * 2)) 0
  eventCounts := List.replicate (sizeT (operationCount * (counterCount.toNat + 1))) 0
  index := 0

/-- `m_eventCounts[cell] = value`. -/
def writeEventCount (cell : ℕ) (value : UInt64) : Program CounterRecorder Unit := do
  let recorder ← readState
  emit (.write .eventCounts cell recorder.eventCounts.length)
  modifyState fun recorder ↦ { recorder with eventCounts := recorder.eventCounts.set cell value }

/-- `m_commonCounts[cell] = value`. -/
def writeCommonCount (cell : ℕ) (value : UInt64) : Program CounterRecorder Unit := do
  let recorder ← readState
  emit (.write .commonCounts cell recorder.commonCounts.length)
  modifyState fun recorder ↦
    { recorder with commonCounts := recorder.commonCounts.set cell value }

/-- `CounterRecorder::storeCounterDifference`. -/
def storeCounterDifference (handler : FatalHandler) (state : CounterState)
    (register : CounterRegister) : Program CounterRecorder Unit := do
  let recorder ← readState
  if register.toNat < recorder.counterCount then
    let indx := sizeT (recorder.index * recorder.counterCount)
    if sizeT (indx + register.toNat) < recorder.eventCounts.length then
      writeEventCount (sizeT (indx + register.toNat)) (state.getEventCounts register)
    else
      handleFatalError handler "Storing event count outside the eventCounts structure"

/-- `CounterRecorder::storeCommonCounters`. Its guard looks at the next index, not at a cell. -/
def storeCommonCounters (handler : FatalHandler) (state : CounterState) :
    Program CounterRecorder Unit := do
  let recorder ← readState
  let indx := sizeT (recorder.index * c_commonCounterCount)
  if sizeT (recorder.index + 1) < recorder.commonCounts.length then
    writeCommonCount indx state.getExecutedInstructions
    writeCommonCount (sizeT (indx + 1)) state.getExecutedCycles
  else
    handleFatalError handler "Storing common event outside commonCounts structure"

/-- `m_index += 1`. -/
def advanceIndex : Program CounterRecorder Unit :=
  modifyState fun recorder ↦ { recorder with index := sizeT (recorder.index + 1) }

/-- `CounterRecorder::recordCounter`. -/
def recordCounter (handler : FatalHandler) (state : CounterState) :
    Program CounterRecorder Unit := do
  storeCounterDifference handler state .one
  storeCounterDifference handler state .two
  storeCounterDifference handler state .three
  storeCounterDifference handler state .four
  storeCommonCounters handler state
  advanceIndex

/-- `CounterRecorder::reset`. -/
def reset : Program CounterRecorder Unit :=
  modifyState fun recorder ↦ { recorder with index := 0 }

/-! ### Printing

What is printed is the list of texts inserted into the stream, one for each `<<`. -/

/-- `m_eventCounts[cell]`. -/
def readEventCount (cell : ℕ) : Program CounterRecorder UInt64 := do
  let recorder ← readState
  emit (.read .eventCounts cell recorder.eventCounts.length)
  return recorder.eventCounts.getD cell 0

/-- `m_commonCounts[cell]`. -/
def readCommonCount (cell : ℕ) : Program CounterRecorder UInt64 := do
  let recorder ← readState
  emit (.read .commonCounts cell recorder.commonCounts.length)
  return recorder.commonCounts.getD cell 0

/-- `CounterRecorder::printCommonCounters`. -/
def printCommonCounters (measurementIndx : ℕ) : Program CounterRecorder (List Text) := do
  let indx := sizeT (measurementIndx * c_commonCounterCount)
  let instructions ← readCommonCount indx
  let cycles ← readCommonCount (sizeT (indx + 1))
  return [decimal instructions.toNat, [c_csvDelim], decimal cycles.toNat]

/-- The loop body of `printEventCounters`. -/
def printEventCounter (indx counter : ℕ) : Program CounterRecorder (List Text) := do
  let count ← readEventCount (sizeT (indx + counter))
  return [decimal count.toNat, [c_csvDelim]]

/-- `CounterRecorder::printEventCounters`. -/
def printEventCounters (measurementIndx : ℕ) : Program CounterRecorder (List Text) := do
  let recorder ← readState
  let indx := sizeT (measurementIndx * recorder.counterCount)
  let counters ← collect (printEventCounter indx) (List.range (recorder.counterCount - 1))
  let last ← readEventCount (sizeT (indx + recorder.counterCount - 1))
  return counters ++ [decimal last.toNat]

/-- `std::endl`. -/
def endl : Text := ['\n']

/-- The loop body of `print`. -/
def printRow (i : ℕ) : Program CounterRecorder (List Text) := do
  let common ← printCommonCounters i
  let events ← printEventCounters i
  return common ++ [[c_csvDelim]] ++ events ++ [endl]

/-- `CounterRecorder::print`, which `operator<<` calls. -/
def print : Program CounterRecorder (List Text) := do
  let recorder ← readState
  collect printRow (List.range recorder.index)

/-! ### What the trace keeps

However an operation of the recorder ends, what is in the trace stays there. -/

theorem extends_writeEventCount (cell : ℕ) (value : UInt64) :
    Extends (writeEventCount cell value) :=
  Extends.readState.bind fun _ ↦ (Extends.emit _).bind fun _ ↦ Extends.modifyState _

theorem extends_writeCommonCount (cell : ℕ) (value : UInt64) :
    Extends (writeCommonCount cell value) :=
  Extends.readState.bind fun _ ↦ (Extends.emit _).bind fun _ ↦ Extends.modifyState _

theorem extends_storeCounterDifference (handler : FatalHandler) (state : CounterState)
    (register : CounterRegister) : Extends (storeCounterDifference handler state register) := by
  refine Extends.readState.bind fun recorder ↦ ?_
  split_ifs
  · show Extends (ite _ _ _)
    split_ifs
    · exact extends_writeEventCount _ _
    · exact extends_handleFatalError handler _
  · exact Extends.pure ()

theorem extends_storeCommonCounters (handler : FatalHandler) (state : CounterState) :
    Extends (storeCommonCounters handler state) := by
  refine Extends.readState.bind fun recorder ↦ ?_
  split_ifs
  · exact (extends_writeCommonCount _ _).bind fun _ ↦ extends_writeCommonCount _ _
  · exact extends_handleFatalError handler _

/-- What a record does behind its first store only adds to the trace. -/
theorem extends_recordCounter_rest (handler : FatalHandler) (state : CounterState) :
    Extends (do
      storeCounterDifference handler state .two
      storeCounterDifference handler state .three
      storeCounterDifference handler state .four
      storeCommonCounters handler state
      advanceIndex) :=
  (extends_storeCounterDifference handler state .two).bind fun _ ↦
    (extends_storeCounterDifference handler state .three).bind fun _ ↦
      (extends_storeCounterDifference handler state .four).bind fun _ ↦
        (extends_storeCommonCounters handler state).bind fun _ ↦ Extends.modifyState _

theorem extends_recordCounter (handler : FatalHandler) (state : CounterState) :
    Extends (recordCounter handler state) :=
  (extends_storeCounterDifference handler state .one).bind fun _ ↦
    extends_recordCounter_rest handler state

theorem extends_readEventCount (cell : ℕ) : Extends (readEventCount cell) :=
  Extends.readState.bind fun _ ↦ (Extends.emit _).bind fun _ ↦ Extends.pure _

theorem extends_readCommonCount (cell : ℕ) : Extends (readCommonCount cell) :=
  Extends.readState.bind fun _ ↦ (Extends.emit _).bind fun _ ↦ Extends.pure _

theorem extends_printRow (i : ℕ) : Extends (printRow i) := by
  have hcommon : Extends (printCommonCounters i) :=
    (extends_readCommonCount _).bind fun _ ↦
      (extends_readCommonCount _).bind fun _ ↦ Extends.pure _
  have hcounter : ∀ indx counter, Extends (printEventCounter indx counter) := fun _ _ ↦
    (extends_readEventCount _).bind fun _ ↦ Extends.pure _
  have hevents : Extends (printEventCounters i) :=
    Extends.readState.bind fun _ ↦ (Extends.collect (hcounter _) _).bind fun _ ↦
      (extends_readEventCount _).bind fun _ ↦ Extends.pure _
  exact hcommon.bind fun _ ↦ hevents.bind fun _ ↦ Extends.pure _

theorem extends_print : Extends print :=
  Extends.readState.bind fun _ ↦ Extends.collect extends_printRow _

/-! ### Recording what a handle measures -/

/-- The getters of a counter handle `T`, as functions of the snapshots of `onStart` and `onEnd`. -/
structure CounterHandle (Snapshot : Type) where
  getEventCounts : CounterRegister → Snapshot → Snapshot → UInt64
  getExecutedInstructions : Snapshot → Snapshot → UInt64
  getExecutedCycles : Snapshot → Snapshot → UInt64

variable {Snapshot : Type}

/-- What the getters return between two snapshots. -/
def CounterHandle.between (handle : CounterHandle Snapshot) (startState endState : Snapshot) :
    CounterState where
  getEventCounts := fun register ↦ handle.getEventCounts register startState endState
  getExecutedInstructions := handle.getExecutedInstructions startState endState
  getExecutedCycles := handle.getExecutedCycles startState endState

/-- `CounterHandleRecorder<T>`: the snapshots of the handle and the recorder. -/
structure CounterHandleRecorder (Snapshot : Type) where
  startState : Snapshot
  endState : Snapshot
  recorder : CounterRecorder

/-- An action of the recorder that a `CounterHandleRecorder` inherits. -/
def onRecorder {α : Type} (action : Program CounterRecorder α) :
    Program (CounterHandleRecorder Snapshot) α :=
  zoom CounterHandleRecorder.recorder (fun recorder mixin ↦ { mixin with recorder }) action

/-- `T::onStart`, with the snapshot it takes. -/
def onStart (snapshot : Snapshot) : Program (CounterHandleRecorder Snapshot) Unit :=
  modifyState fun mixin ↦ { mixin with startState := snapshot }

/-- `CounterHandleRecorder::onEnd`, with the snapshot `T::onEnd` takes. -/
def onEnd (handler : FatalHandler) (handle : CounterHandle Snapshot) (snapshot : Snapshot) :
    Program (CounterHandleRecorder Snapshot) Unit := do
  modifyState fun mixin ↦ { mixin with endState := snapshot }
  let mixin ← readState
  onRecorder (recordCounter handler (handle.between mixin.startState mixin.endState))

end PcmWrapper
