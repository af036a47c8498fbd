import PcmWrapper.CsvTable
import PcmWrapper.MonitoringSession

/-!
# The program `main.cpp`

The program takes a directory of databases as its only argument, starts to monitor core 2 with the
events `init` chooses, measures two pieces of work with a recorder that has room for two rows, and
prints a table. It never replaces the fatal error handler.

Three results say what it does in every world. It runs to its end exactly when there is one argument
and the world is ready for its directory; then it prints what is expected, and otherwise nothing
(`printed_main`). It programs PCM once at most, with the codes the databases of the directory give
to the events (`programmed_main`). And whether or not it runs to its end, all cells it touches
exist, it resets the PMU only when PCM reports that it is busy, and whenever it has programmed PCM
it cleans up behind that (`main_cleansUp`).

The work that is measured reads two vectors of the program's own, which it has filled with random
numbers: cells of the one in order, and cells of it that the other one names. Only the filling,
which reads nothing, is left out.
-/

set_option autoImplicit false
set_option relaxedAutoImplicit false

namespace PcmWrapper

open Library

/-! ### The program -/

/-- `SIZE`, the number of cells of `values` and of `indices`. -/
def vectorSize : ℕ := 1024 * 1024 * 512

/-- `MAX`, the largest number that `dist` draws. -/
def maxDraw : ℕ := 1024

/-- What the program finds: a world, the handle and the snapshots of the core it measures, what
`set_signal_handlers` and `exit_cleanup` of PCM print, and the numbers it draws with `dist(gen)`,
the first ones for `values` and those behind them for `indices`. -/
structure MainWorld (Snapshot : Type) extends World where
  handle : CounterHandle Snapshot
  defaultState : Snapshot
  coreCounterState : ℕ → Snapshot
  setSignalHandlers : String
  exitCleanup : String
  dist : ℕ → ℕ
  dist_mem : ∀ n, 1 ≤ dist n ∧ dist n ≤ maxDraw

/-- The session, and the recorder with its handle. -/
structure MainState (Snapshot : Type) where
  session : Session
  mixin : CounterHandleRecorder Snapshot

variable {Snapshot : Type}

/-- An action of the session. -/
def onSession {α : Type} (action : Program Session α) : Program (MainState Snapshot) α :=
  zoom MainState.session (fun session state ↦ { state with session }) action

/-- An action of the recorder. -/
def onMixin {α : Type} (action : Program (CounterHandleRecorder Snapshot) α) :
    Program (MainState Snapshot) α :=
  zoom MainState.mixin (fun mixin state ↦ { state with mixin }) action

/-- A line on the standard output. -/
def Event.line (text : Text) : Event := .output (String.ofList (text ++ endl))

/-- `cout << text << endl`. -/
def printLine {σ : Type} (text : Text) : Program σ Unit := emit (.line text)

/-- `values[i]`. -/
def MainWorld.readValue (world : MainWorld Snapshot) (i : ℕ) :
    Program (MainState Snapshot) ℕ := do
  emit (.read .values i vectorSize)
  return if i < vectorSize then world.dist i else 0

/-- `indices[i]`. -/
def MainWorld.readIndex (world : MainWorld Snapshot) (i : ℕ) :
    Program (MainState Snapshot) ℕ := do
  emit (.read .indices i vectorSize)
  return if i < vectorSize then world.dist (vectorSize + i) else 0

/-- `values[indices[i]]`. -/
def MainWorld.readIndexed (world : MainWorld Snapshot) (i : ℕ) :
    Program (MainState Snapshot) ℕ := do
  let index ← world.readIndex i
  world.readValue index

/-- The first rounds of a loop that adds what it reads to `sum`. Two hundred numbers of at most
`MAX` are added in all, so the `int` of the source does not overflow. -/
def addRounds {σ : Type} (read : ℕ → Program σ ℕ) (sum : ℕ) : ℕ → Program σ ℕ
  | 0 => pure sum
  | i + 1 => do
    let sum ← addRounds read sum i
    let value ← read i
    return sum + value

/-- The statements of `main` behind `startMonitoring`, with the destructor of the context. -/
def measureAndPrint (world : MainWorld Snapshot) : Program (MainState Snapshot) Unit := do
  modifyState fun state ↦
    { state with mixin := ⟨world.defaultState, world.defaultState, .make 2 .four⟩ }
  emit (.output world.setSignalHandlers)
  printLine "FILL START".toList
  printLine "FILL END".toList
  onMixin (onStart (world.coreCounterState 0))
  let sum ← addRounds world.readValue 0 100
  onMixin (onEnd defaultFatalHandler world.handle (world.coreCounterState 1))
  printLine "RANDOM".toList
  onMixin (onStart (world.coreCounterState 2))
  let _ ← addRounds world.readIndexed sum 100
  onMixin (onEnd defaultFatalHandler world.handle (world.coreCounterState 3))
  let state ← readState
  printLine state.session.context.getEventHeader.insertions.flatten
  let rows ← onMixin (onRecorder print)
  printLine rows.flatten
  emit (.output world.exitCleanup)
  emit .cleanup

/-- `main`, on the arguments behind the name of the program. -/
def main (world : MainWorld Snapshot) (arguments : List String) :
    Program (MainState Snapshot) Unit := do
  assert defaultFatalHandler (arguments.length + 1 = 2) "AA" "argc == 2"
  match arguments with
  | [] => interrupt .terminated
  | directory :: _ => do
    onSession (setUp defaultFatalHandler world.toWorld directory)
    measureAndPrint world

/-- The objects before `main` constructs them. -/
def MainWorld.start (world : MainWorld Snapshot) : Machine Event (MainState Snapshot) :=
  .fresh ⟨.fresh, ⟨world.defaultState, world.defaultState, .make 2 .four⟩⟩

/-- What is on the standard output. -/
def printed (trace : List Event) : Text :=
  trace.flatMap fun event ↦
    match event with
    | .output text => text.toList
    | _ => []

@[simp] theorem printed_append (earlier later : List Event) :
    printed (earlier ++ later) = printed earlier ++ printed later := List.flatMap_append

/-! ### What the recorder adds to the trace -/

/-- The event is an access to a vector. -/
def Event.IsAccess : Event → Prop
  | .read _ _ _ => True
  | .write _ _ _ => True
  | _ => False

theorem isAccess_read (storage : Storage) (index size : ℕ) :
    (Event.read storage index size).IsAccess := True.intro

theorem isAccess_write (storage : Storage) (index size : ℕ) :
    (Event.write storage index size).IsAccess := True.intro

/-- A record that returns has added nothing but accesses to the trace, unless a fatal error has been
passed over. -/
theorem emitsOnReturn_recordCounter {handler : FatalHandler} (hhandler : handler.NeverReturns)
    (state : CounterState) : EmitsOnReturn Event.IsAccess (recordCounter handler state) := by
  have hfatal : ∀ message, EmitsOnReturn Event.IsAccess
      (handleFatalError handler message : Program CounterRecorder Unit) := by
    intro message m _ m' hrun
    obtain ⟨cause, herror⟩ := run_handleFatalError_of_ne_returns (hhandler message) m
    rw [herror] at hrun
    cases hrun
  have hevent : ∀ cell value, Emits Event.IsAccess (writeEventCount cell value) := fun _ _ ↦
    Emits.readState.bind fun _ ↦ (Emits.emit (isAccess_write _ _ _)).bind fun _ ↦
      Emits.modifyState _
  have hcommon : ∀ cell value, Emits Event.IsAccess (writeCommonCount cell value) := fun _ _ ↦
    Emits.readState.bind fun _ ↦ (Emits.emit (isAccess_write _ _ _)).bind fun _ ↦
      Emits.modifyState _
  have hstore : ∀ register,
      EmitsOnReturn Event.IsAccess (storeCounterDifference handler state register) := by
    refine fun register ↦ Emits.readState.onReturn.bind fun recorder ↦ ?_
    split_ifs
    · show EmitsOnReturn _ (ite _ _ _)
      split_ifs
      · exact (hevent _ _).onReturn
      · exact hfatal _
    · exact (Emits.pure ()).onReturn
  have hcommons : EmitsOnReturn Event.IsAccess (storeCommonCounters handler state) := by
    refine Emits.readState.onReturn.bind fun recorder ↦ ?_
    split_ifs
    · exact ((hcommon _ _).bind fun _ ↦ hcommon _ _).onReturn
    · exact hfatal _
  exact (hstore .one).bind fun _ ↦ (hstore .two).bind fun _ ↦ (hstore .three).bind fun _ ↦
    (hstore .four).bind fun _ ↦ hcommons.bind fun _ ↦ (Emits.modifyState _).onReturn

/-- Printing adds nothing but accesses to the trace. -/
theorem emits_print : Emits Event.IsAccess print := by
  have hevent : ∀ cell, Emits Event.IsAccess (readEventCount cell) := fun _ ↦
    Emits.readState.bind fun _ ↦ (Emits.emit (isAccess_read _ _ _)).bind fun _ ↦ Emits.pure _
  have hcommon : ∀ cell, Emits Event.IsAccess (readCommonCount cell) := fun _ ↦
    Emits.readState.bind fun _ ↦ (Emits.emit (isAccess_read _ _ _)).bind fun _ ↦ Emits.pure _
  have hcommons : ∀ i, Emits Event.IsAccess (printCommonCounters i) := fun _ ↦
    (hcommon _).bind fun _ ↦ (hcommon _).bind fun _ ↦ Emits.pure _
  have hevents : ∀ i, Emits Event.IsAccess (printEventCounters i) := fun _ ↦
    Emits.readState.bind fun _ ↦
      (Emits.collect (fun _ ↦ (hevent _).bind fun _ ↦ Emits.pure _) _).bind fun _ ↦
        (hevent _).bind fun _ ↦ Emits.pure _
  exact Emits.readState.bind fun _ ↦ Emits.collect (fun _ ↦ (hcommons _).bind fun _ ↦
    (hevents _).bind fun _ ↦ Emits.pure _) _

/-- The event is an access to a cell that exists. -/
def Event.IsQuiet (event : Event) : Prop := event.InBounds ∧ event.IsAccess

/-- Accesses print nothing. -/
theorem printed_of_isQuiet {events : List Event} (h : ∀ event ∈ events, event.IsQuiet) :
    printed events = [] := by
  refine List.flatMap_eq_nil_iff.mpr fun event hevent ↦ ?_
  cases event with
  | output text => exact (h _ hevent).2.elim
  | _ => rfl

/-! ### Actions that print -/

section Printing

variable {σ α β : Type} {action : Program σ α} {state state' state'' : σ} {a : α} {b : β}

/-- The action returns, does nothing but look at cells that exist and print a text, and leaves the
closing events behind. -/
def Prints (action : Program σ α) (state : σ) (a : α) (state' : σ) (text : Text)
    (closing : List Event) : Prop :=
  ∃ events, Yields action state a state' (events ++ closing) ∧
    (∀ event ∈ events, event.IsQuiet ∨ ∃ text, event = .output text) ∧ printed events = text

/-- What only looks prints nothing. -/
theorem prints_of_isQuiet {events : List Event} (h : Yields action state a state' events)
    (hquiet : ∀ event ∈ events, event.IsQuiet) : Prints action state a state' [] [] := by
  rw [← List.append_nil events] at h
  exact ⟨events, h, fun event hevent ↦ Or.inl (hquiet event hevent), printed_of_isQuiet hquiet⟩

theorem prints_output (text : String) (state : σ) :
    Prints (emit (.output text)) state () state text.toList [] := by
  refine ⟨[.output text], Yields.emit _ state, fun event hevent ↦ ?_, List.append_nil _⟩
  exact Or.inr ⟨text, List.mem_singleton.mp hevent⟩

theorem prints_line (text : Text) (state : σ) :
    Prints (printLine text) state () state (text ++ endl) [] := by
  have houtput := prints_output (String.ofList (text ++ endl)) state
  rwa [String.toList_ofList] at houtput

theorem prints_cleanup (state : σ) : Prints (emit .cleanup) state () state [] [.cleanup] :=
  ⟨[], Yields.emit _ state, List.forall_mem_nil _, rfl⟩

/-- Two actions that print, one after the other. -/
theorem Prints.bind {next : α → Program σ β} {text later : Text} {closing : List Event}
    (h : Prints action state a state' text [])
    (hnext : Prints (next a) state' b state'' later closing) :
    Prints (action >>= next) state b state'' (text ++ later) closing := by
  obtain ⟨first, hfirst, hclean, rfl⟩ := h
  obtain ⟨second, hsecond, hcleanNext, rfl⟩ := hnext
  have hboth := hfirst.bind hsecond
  rw [List.append_nil, ← List.append_assoc] at hboth
  exact ⟨first ++ second, hboth, List.forall_mem_append.mpr ⟨hclean, hcleanNext⟩,
    printed_append first second⟩

end Printing

/-! ### Measuring and printing -/

section Measuring

variable {operationCount : ℕ} {counterCount : CounterRegister} {rows : List CounterState}

/-- With room for another row, the end of a measurement appends one. Assumes: the sizes do not wrap,
and no fatal error is passed over. -/
theorem yields_onEnd {handler : FatalHandler} (hhandler : handler.NeverReturns)
    (handle : CounterHandle Snapshot) (hcommon : operationCount * 2 < 2 ^ 64)
    (hevents : operationCount * (counterCount.toNat + 1) < 2 ^ 64)
    (mixin : CounterHandleRecorder Snapshot)
    (h : Holds operationCount counterCount mixin.recorder rows)
    (hroom : rows.length < operationCount) (endState : Snapshot) :
    ∃ recorder events, Yields (onEnd handler handle endState) mixin ()
        ⟨mixin.startState, endState, recorder⟩ events ∧ (∀ event ∈ events, event.IsQuiet) ∧
      Holds operationCount counterCount recorder
        (rows ++ [handle.between mixin.startState endState]) := by
  obtain ⟨⟨⟩, recorder, events, hrecord, hclean, hholds⟩ :=
    achieves_recordCounter handler (handle.between mixin.startState endState) hcommon hevents h
      hroom
  have hrecorder : Yields (onRecorder (recordCounter handler
      (handle.between mixin.startState endState))) ⟨mixin.startState, endState, mixin.recorder⟩ ()
      ⟨mixin.startState, endState, recorder⟩ events := by
    intro trace
    rw [onRecorder, run_zoom, hrecord trace]
    rfl
  have hquiet : ∀ event ∈ events, event.IsQuiet := fun event hevent ↦
    ⟨(hclean event hevent).1,
      (emitsOnReturn_recordCounter hhandler _).of_yields hrecord event hevent⟩
  exact ⟨recorder, events, (Yields.modifyState _ _).bind ((Yields.readState _).bind hrecorder),
    hquiet, hholds⟩

/-- Printing inserts the rows. Assumes: the sizes do not wrap. -/
theorem yields_print (hcommon : operationCount * 2 < 2 ^ 64)
    (hevents : operationCount * (counterCount.toNat + 1) < 2 ^ 64)
    (mixin : CounterHandleRecorder Snapshot)
    (h : Holds operationCount counterCount mixin.recorder rows) : ∃ events,
    Yields (onRecorder print) mixin (rows.flatMap (rowInsertions counterCount)) mixin events ∧
      ∀ event ∈ events, event.IsQuiet := by
  obtain ⟨events, hprint, hclean⟩ := observes_print hcommon hevents h
  refine ⟨events, fun trace ↦ ?_, fun event hevent ↦
    ⟨(hclean event hevent).1, emits_print.onReturn.of_yields hprint event hevent⟩⟩
  rw [onRecorder, run_zoom, hprint trace]
  rfl

end Measuring

/-- What the recorder yields, as part of the program. -/
theorem yields_onMixin {α : Type} {action : Program (CounterHandleRecorder Snapshot) α}
    {mixin mixin' : CounterHandleRecorder Snapshot} {a : α} {events : List Event}
    (h : Yields action mixin a mixin' events) (session : Session) :
    Yields (onMixin action) ⟨session, mixin⟩ a ⟨session, mixin'⟩ events := by
  intro trace
  rw [onMixin, run_zoom, h trace]
  rfl

/-- The rows of the two measurements. -/
def MainWorld.rows (world : MainWorld Snapshot) : List CounterState :=
  [world.handle.between (world.coreCounterState 0) (world.coreCounterState 1),
    world.handle.between (world.coreCounterState 2) (world.coreCounterState 3)]

/-- What `measureAndPrint` prints, below a header. -/
def MainWorld.output (world : MainWorld Snapshot) (header : EventHeader) : Text :=
  world.setSignalHandlers.toList ++ "FILL START\nFILL END\nRANDOM\n".toList ++
    (headerLine header ++ endl) ++ ((world.rows.map (rowLine .four)).flatMap (· ++ endl) ++ endl) ++
    world.exitCleanup.toList

/-- Two measurements of a new recorder and a print, on their own. -/
theorem yields_measurements (world : MainWorld Snapshot) :
    ∃ first second firstEvents secondEvents printEvents,
      Yields (onEnd defaultFatalHandler world.handle (world.coreCounterState 1))
        ⟨world.coreCounterState 0, world.defaultState, .make 2 .four⟩ ()
        ⟨world.coreCounterState 0, world.coreCounterState 1, first⟩ firstEvents ∧
      Yields (onEnd defaultFatalHandler world.handle (world.coreCounterState 3))
        ⟨world.coreCounterState 2, world.coreCounterState 1, first⟩ () second secondEvents ∧
      Yields (onRecorder print) second (world.rows.flatMap (rowInsertions .four)) second
        printEvents ∧
      (∀ event ∈ firstEvents, event.IsQuiet) ∧ (∀ event ∈ secondEvents, event.IsQuiet) ∧
      ∀ event ∈ printEvents, event.IsQuiet := by
  have hcommon : 2 * 2 < 2 ^ 64 := by decide
  have hevents : 2 * (CounterRegister.four.toNat + 1) < 2 ^ 64 := by decide
  have hempty : Holds 2 .four (.make 2 .four) [] := holds_make hcommon hevents
  obtain ⟨first, firstEvents, hfirst, hquietFirst, hrow⟩ :=
    yields_onEnd defaultFatalHandler_neverReturns world.handle hcommon hevents
      ⟨world.coreCounterState 0, world.defaultState, .make 2 .four⟩ hempty Nat.two_pos
      (world.coreCounterState 1)
  obtain ⟨second, secondEvents, hsecond, hquietSecond, hrows⟩ :=
    yields_onEnd defaultFatalHandler_neverReturns world.handle hcommon hevents
      ⟨world.coreCounterState 2, world.coreCounterState 1, first⟩ hrow Nat.one_lt_two
      (world.coreCounterState 3)
  obtain ⟨printEvents, hprint, hquietPrint⟩ := yields_print hcommon hevents
    ⟨world.coreCounterState 2, world.coreCounterState 3, second⟩ hrows
  exact ⟨_, _, firstEvents, secondEvents, printEvents, hfirst, hsecond, hprint, hquietFirst,
    hquietSecond, hquietPrint⟩

/-! ### The work that is measured -/

section Work

variable {world : MainWorld Snapshot} {state : MainState Snapshot}

/-- A cell of `values` holds a number of the first draws. -/
theorem observes_readValue {i : ℕ} (hi : i < vectorSize) :
    Observes Event.IsQuiet (world.readValue i) state (world.dist i) := by
  rw [MainWorld.readValue, if_pos hi]
  exact (Observes.emit ⟨hi, isAccess_read _ _ _⟩ state).bind (Observes.pure _ state)

/-- A cell of `indices` holds a number of the later draws. -/
theorem observes_readIndex {i : ℕ} (hi : i < vectorSize) :
    Observes Event.IsQuiet (world.readIndex i) state (world.dist (vectorSize + i)) := by
  rw [MainWorld.readIndex, if_pos hi]
  exact (Observes.emit ⟨hi, isAccess_read _ _ _⟩ state).bind (Observes.pure _ state)

/-- All numbers that are drawn are indices of `values`. -/
theorem MainWorld.dist_lt (world : MainWorld Snapshot) (n : ℕ) : world.dist n < vectorSize :=
  (world.dist_mem n).2.trans_lt (by decide)

theorem observes_readIndexed {i : ℕ} (hi : i < vectorSize) :
    Observes Event.IsQuiet (world.readIndexed i) state
      (world.dist (world.dist (vectorSize + i))) :=
  (observes_readIndex hi).bind (observes_readValue (world.dist_lt _))

/-- A loop whose rounds only look adds up what they see. -/
theorem observes_addRounds {σ : Type} {state : σ} {read : ℕ → Program σ ℕ} {value : ℕ → ℕ}
    (sum : ℕ) {n : ℕ} (h : ∀ i < n, Observes Event.IsQuiet (read i) state (value i)) :
    Observes Event.IsQuiet (addRounds read sum n) state
      (sum + ((List.range n).map value).sum) := by
  induction n with
  | zero => exact Observes.pure sum state
  | succ n ih =>
    have hearlier := ih fun i hi ↦ h i (Nat.lt_succ_of_lt hi)
    have htotal : sum + ((List.range (n + 1)).map value).sum =
        sum + ((List.range n).map value).sum + value n := by
      rw [List.range_succ, List.map_append, List.sum_append, List.map_singleton,
        List.sum_singleton, Nat.add_assoc]
    rw [htotal]
    exact hearlier.bind ((h n n.lt_succ_self).bind (Observes.pure _ state))

/-- The work of both measurements only looks at cells that exist, whatever `sum` is. -/
theorem observes_work (world : MainWorld Snapshot) (state : MainState Snapshot) (sum : ℕ) :
    (∃ total, Observes Event.IsQuiet (addRounds world.readValue sum 100) state total) ∧
      ∃ total, Observes Event.IsQuiet (addRounds world.readIndexed sum 100) state total := by
  have hsmall : ∀ {i : ℕ}, i < 100 → i < vectorSize := fun hi ↦ hi.trans (by decide)
  exact ⟨⟨_, observes_addRounds sum fun i hi ↦ observes_readValue (hsmall hi)⟩,
    ⟨_, observes_addRounds sum fun i hi ↦ observes_readIndexed (hsmall hi)⟩⟩

end Work

/-- What `measureAndPrint` prints, from piece to piece. -/
theorem MainWorld.output_eq (world : MainWorld Snapshot) (header : EventHeader) :
    world.output header = world.setSignalHandlers.toList ++ ("FILL START".toList ++ endl ++
      ("FILL END".toList ++ endl ++ ("RANDOM".toList ++ endl ++
        (header.insertions.flatten ++ endl ++
          ((world.rows.flatMap (rowInsertions .four)).flatten ++ endl ++
            world.exitCleanup.toList))))) := by
  have hlines : "FILL START\nFILL END\nRANDOM\n".toList = "FILL START".toList ++ endl ++
      ("FILL END".toList ++ endl) ++ ("RANDOM".toList ++ endl) := by
    decide +kernel
  rw [MainWorld.output, hlines, flatten_insertions, flatten_flatMap_rowInsertions]
  simp only [List.append_assoc]

/-- The statements behind `startMonitoring` run to their end, and clean up last. -/
theorem prints_measureAndPrint (world : MainWorld Snapshot) (state : MainState Snapshot) :
    ∃ state', Prints (measureAndPrint world) state () state'
      (world.output state.session.context.getEventHeader) [.cleanup] := by
  obtain ⟨first, second, firstEvents, secondEvents, printEvents, hfirst, hsecond, hprint,
    hquietFirst, hquietSecond, hquietPrint⟩ := yields_measurements world
  obtain ⟨session, mixin⟩ := state
  let new : CounterHandleRecorder Snapshot :=
    ⟨world.defaultState, world.defaultState, .make 2 .four⟩
  let started : CounterHandleRecorder Snapshot :=
    { new with startState := world.coreCounterState 0 }
  let ended : CounterHandleRecorder Snapshot :=
    ⟨world.coreCounterState 0, world.coreCounterState 1, first⟩
  let restarted : CounterHandleRecorder Snapshot :=
    { ended with startState := world.coreCounterState 2 }
  obtain ⟨sum, inOrder, hinOrder, hquietInOrder⟩ := (observes_work world ⟨session, started⟩ 0).1
  obtain ⟨total, indexed, hindexed, hquietIndexed⟩ :=
    (observes_work world ⟨session, restarted⟩ sum).2
  have hnew : Prints (modifyState fun state : MainState Snapshot ↦ { state with mixin := new })
      ⟨session, mixin⟩ () ⟨session, new⟩ [] [] :=
    prints_of_isQuiet (Yields.modifyState _ _) (List.forall_mem_nil _)
  have hstart : Prints (onMixin (onStart (world.coreCounterState 0))) ⟨session, new⟩ ()
      ⟨session, started⟩ [] [] :=
    prints_of_isQuiet (yields_onMixin (Yields.modifyState _ _) session) (List.forall_mem_nil _)
  have hrestart : Prints (onMixin (onStart (world.coreCounterState 2))) ⟨session, ended⟩ ()
      ⟨session, restarted⟩ [] [] :=
    prints_of_isQuiet (yields_onMixin (Yields.modifyState _ _) session) (List.forall_mem_nil _)
  refine ⟨⟨session, second⟩, ?_⟩
  rw [MainWorld.output_eq]
  refine hnew.bind ((prints_output _ _).bind ((prints_line _ _).bind ((prints_line _ _).bind ?_)))
  refine hstart.bind ((prints_of_isQuiet hinOrder hquietInOrder).bind ?_)
  refine (prints_of_isQuiet (yields_onMixin hfirst session) hquietFirst).bind ?_
  refine (prints_line _ _).bind ?_
  refine hrestart.bind ((prints_of_isQuiet hindexed hquietIndexed).bind ?_)
  refine (prints_of_isQuiet (yields_onMixin hsecond session) hquietSecond).bind ?_
  refine (prints_of_isQuiet (Yields.readState _) (List.forall_mem_nil _)).bind ?_
  refine (prints_line _ _).bind ?_
  refine (prints_of_isQuiet (yields_onMixin hprint session) hquietPrint).bind ?_
  refine (prints_line _ _).bind ?_
  rw [← List.append_nil world.exitCleanup.toList]
  exact (prints_output _ _).bind (prints_cleanup _)

/-! ### The runs of the program -/

section Runs

variable {world : MainWorld Snapshot} {arguments : List String}

/-- The program is called with one argument, and the world is ready for it. -/
def MainWorld.Measurable (world : MainWorld Snapshot) (arguments : List String) : Prop :=
  ∃ directory, arguments = [directory] ∧ world.Ready directory

/-- The trace of a program that has failed: reports, behind which PCM has not been programmed; or
the programming, the reset of a busy PMU, and reports with a cleanup among them. -/
def FailureTrace (status : ErrorCode) (trace : List Event) : Prop :=
  (∀ event ∈ trace, event.IsReport) ∨ ∃ description rest, trace = .program description :: rest ∧
    status ≠ .success ∧ .cleanup ∈ rest ∧
    ∀ event ∈ rest, event.IsReport ∨ event = .resetPMU ∧ status = .pmuBusy

/-- With one argument the check of the arguments passes. -/
theorem run_main_singleton (directory : String) (m : Machine Event (MainState Snapshot)) :
    (main world [directory]).run m = (do
      onSession (setUp defaultFatalHandler world.toWorld directory)
      measureAndPrint world : Program (MainState Snapshot) Unit).run m :=
  run_assert_bind_of_true (decide_eq_true rfl) _ _ _ _ _

/-- In a world that is ready the program runs to its end. Assumes: the CPU models of PCM have no
negative numbers. -/
theorem run_main_of_ready (henum : ∀ cpuModel, 0 ≤ world.enumValue cpuModel) {directory : String}
    (hready : world.Ready directory) : ∃ state events,
    (main world [directory]).run world.start = .ok () ⟨state,
      [.program (world.programming defaultFatalHandler directory), .output "OK\n"] ++
        (events ++ [.cleanup])⟩ ∧
    (∀ event ∈ events, event.IsQuiet ∨ ∃ text, event = .output text) ∧
    printed events = world.output ⟨initialEvents⟩ := by
  have hsetUp : (onSession (setUp defaultFatalHandler world.toWorld directory)).run world.start =
      .ok () ⟨⟨world.session defaultFatalHandler directory, world.start.state.mixin⟩,
        [.program (world.programming defaultFatalHandler directory), .output "OK\n"]⟩ := by
    rw [onSession, run_zoom]
    exact congrArg (embed _ _) (run_setUp_of_ready henum hready)
  obtain ⟨state, events, hyields, hevents, hprinted⟩ := prints_measureAndPrint world
    ⟨world.session defaultFatalHandler directory, world.start.state.mixin⟩
  refine ⟨state, events, ?_, hevents, hprinted⟩
  rw [run_main_singleton, run_bind_of_ok hsetUp]
  exact hyields _

/-- Otherwise it does not, and leaves the trace of a failure. Assumes: the CPU models of PCM have no
negative numbers. -/
theorem run_main_of_not_measurable (henum : ∀ cpuModel, 0 ≤ world.enumValue cpuModel)
    (h : ¬ world.Measurable arguments) : ∃ cause m,
    (main world arguments).run world.start = .error cause m ∧
      FailureTrace world.programStatus m.trace := by
  by_cases hcount : arguments.length = 1
  · obtain ⟨directory, rfl⟩ := List.length_eq_one_iff.mp hcount
    have hnot : ¬ world.Ready directory := fun hready ↦ h ⟨directory, rfl, hready⟩
    obtain ⟨cause, m, hrun, htrace⟩ :=
      setUp_failure henum defaultFatalHandler_neverReturns hnot
    have hsetUp : (onSession (setUp defaultFatalHandler world.toWorld directory)).run world.start =
        .error cause ⟨⟨m.state, world.start.state.mixin⟩, m.trace⟩ := by
      rw [onSession, run_zoom]
      exact congrArg (embed _ _) hrun
    have hfailure : FailureTrace world.programStatus m.trace :=
      htrace.imp id fun ⟨rest, hrest⟩ ↦ ⟨_, rest, hrest⟩
    have hmain : (main world [directory]).run world.start =
        .error cause ⟨⟨m.state, world.start.state.mixin⟩, m.trace⟩ := by
      rw [run_main_singleton]
      exact run_bind_of_error hsetUp _
    exact ⟨cause, _, hmain, hfailure⟩
  · have hcheck : decide (arguments.length + 1 = 2) = false :=
      decide_eq_false fun heq ↦ hcount (Nat.succ.inj heq)
    refine ⟨_, _, run_assert_bind_of_ne_returns hcheck (defaultFatalHandler_neverReturns _) _ _,
      Or.inl fun event hevent ↦ ?_⟩
    rw [trace_afterFatalError] at hevent
    rcases List.mem_cons.mp hevent with rfl | hevent
    · exact True.intro
    · rw [List.mem_singleton.mp hevent]
      exact True.intro

/-- A failure prints nothing. -/
theorem FailureTrace.printed_eq {status : ErrorCode} {trace : List Event}
    (h : FailureTrace status trace) : printed trace = [] := by
  have hsilent : ∀ {events : List Event}, (∀ event ∈ events, event.IsReport ∨
      event = .resetPMU ∧ status = .pmuBusy) → printed events = [] := by
    refine fun hevents ↦ List.flatMap_eq_nil_iff.mpr fun event hevent ↦ ?_
    cases event with
    | output text => exact (hevents _ hevent).elim False.elim nofun
    | _ => rfl
  rcases h with h | ⟨_, rest, rfl, -, -, hrest⟩
  · exact hsilent fun event hevent ↦ Or.inl (h event hevent)
  · have hrestNil : printed rest = [] := hsilent hrest
    exact hrestNil

theorem Event.IsReport.inBounds {event : Event} (h : event.IsReport) : event.InBounds := by
  cases event with
  | read => exact h.elim
  | write => exact h.elim
  | _ => exact True.intro

theorem FailureTrace.inBounds {status : ErrorCode} {trace : List Event}
    (h : FailureTrace status trace) : ∀ event ∈ trace, event.InBounds := by
  rcases h with h | ⟨_, rest, rfl, -, -, hrest⟩
  · exact fun event hevent ↦ (h event hevent).inBounds
  · intro event hevent
    rcases List.mem_cons.mp hevent with rfl | hevent
    · exact True.intro
    · rcases hrest event hevent with hreport | ⟨rfl, -⟩
      · exact hreport.inBounds
      · exact True.intro

theorem FailureTrace.pmuBusy {status : ErrorCode} {trace : List Event}
    (h : FailureTrace status trace) (hreset : .resetPMU ∈ trace) : status = .pmuBusy := by
  rcases h with h | ⟨_, rest, rfl, -, -, hrest⟩
  · exact (h _ hreset).elim
  · rcases List.mem_cons.mp hreset with heq | hreset
    · cases heq
    · exact (hrest _ hreset).elim False.elim And.right

/-- Behind a failure PCM has been cleaned up if it has been programmed. -/
theorem FailureTrace.cleanup_mem {status : ErrorCode} {trace earlier later : List Event}
    {description : List CustomCoreEventDescription} (h : FailureTrace status trace)
    (hsplit : trace = earlier ++ .program description :: later) : .cleanup ∈ later := by
  have hnever : ∀ {event : Event}, event.IsReport ∨ event = .resetPMU ∧ status = .pmuBusy →
      event ≠ .program description := by
    rintro event (hreport | ⟨rfl, -⟩) heq
    · rw [heq] at hreport
      exact hreport
    · cases heq
  rcases h with h | ⟨_, rest, rfl, -, hcleanup, hrest⟩
  · have hmem : .program description ∈ trace := by
      rw [hsplit]
      exact List.mem_append_right _ List.mem_cons_self
    exact absurd rfl (hnever (Or.inl (h _ hmem)))
  · cases earlier with
    | nil =>
      rw [(List.cons.inj hsplit).2] at hcleanup
      exact hcleanup
    | cons first earlier =>
      have hmem : .program description ∈ rest := by
        rw [(List.cons.inj hsplit).2]
        exact List.mem_append_right _ List.mem_cons_self
      exact absurd rfl (hnever (hrest _ hmem))

/-- What comes last in a list comes behind everything else. -/
theorem last_mem_of_split {α : Type} {init earlier later : List α} {last a : α}
    (hsplit : init ++ [last] = earlier ++ a :: later) (hne : a ≠ last) : last ∈ later := by
  rcases List.eq_nil_or_concat later with rfl | ⟨others, final, rfl⟩
  · exact absurd (List.cons.inj (List.append_inj_right' hsplit rfl)).1.symm hne
  · rw [List.concat_eq_append, ← List.cons_append, ← List.append_assoc] at hsplit
    rw [List.concat_eq_append, (List.cons.inj (List.append_inj_right' hsplit rfl)).1]
    exact List.mem_append_right _ (List.mem_singleton_self final)

/-- The program runs to its end exactly when it is called with one argument and the world is ready
for the directory of that name. Then it prints that PCM has been programmed, where it is, and a
table with the events `init` chooses above the rows of its two measurements. Otherwise it prints
nothing. Assumes: the CPU models of PCM have no negative numbers. -/
theorem printed_main {world : MainWorld Snapshot} {arguments : List String}
    (henum : ∀ cpuModel, 0 ≤ world.enumValue cpuModel) :
    let final := (main world arguments).run world.start
    (returned final ↔ ∃ directory, arguments = [directory] ∧ world.Ready directory) ∧
      printed (after final).trace =
        if returned final then "OK\n".toList ++ world.output ⟨initialEvents⟩ else [] := by
  intro final
  by_cases h : world.Measurable arguments
  · obtain ⟨directory, rfl, hready⟩ := h
    obtain ⟨state, events, hrun, -, hprinted⟩ := run_main_of_ready henum hready
    have hreturned : returned final = true := congrArg returned hrun
    have htrace : (after final).trace =
        [.program (world.programming defaultFatalHandler directory), .output "OK\n"] ++
          (events ++ [.cleanup]) := congrArg (fun result ↦ (after result).trace) hrun
    refine ⟨iff_of_true hreturned ⟨directory, rfl, hready⟩, ?_⟩
    rw [if_pos hreturned, htrace, printed_append, printed_append, hprinted]
    rw [show printed [Event.cleanup] = [] from rfl, List.append_nil]
    rfl
  · obtain ⟨cause, m, hrun, htrace⟩ := run_main_of_not_measurable henum h
    have hreturned : returned final = false := congrArg returned hrun
    have hfailure : (after final).trace = m.trace :=
      congrArg (fun result ↦ (after result).trace) hrun
    refine ⟨iff_of_false (by rw [hreturned]; exact Bool.false_ne_true) h, ?_⟩
    rw [if_neg (by rw [hreturned]; exact Bool.false_ne_true), hfailure, htrace.printed_eq]

/-- In a world that is ready PCM is programmed once, before anything is measured. What each of the
four registers gets are the codes of the first record of its event in the databases of the
directory, in the order of the listing and whichever CPU model they are for. Assumes: the CPU models
of PCM have no negative numbers, and the texts of the files are those of the given databases. -/
theorem programmed_main (henum : ∀ cpuModel, 0 ≤ world.enumValue cpuModel) {directory : String}
    (hready : world.Ready directory) {databases : Load → List HwEvent}
    (hdatabases : ∀ load ∈ world.loads directory, world.Provides load (databases load)) :
    ∃ description later, (after ((main world [directory]).run world.start)).trace =
        .program description :: later ∧
      (∀ other, .program other ∉ later) ∧ description.length = 4 ∧
      ∀ register : CounterRegister, ∃ record,
        ((world.loads directory).flatMap databases).find? (·.name = initialEvents register) =
            some record ∧
          description[register.toNat]? = some record.description := by
  obtain ⟨state, events, hrun, hevents, -⟩ := run_main_of_ready henum hready
  have htrace : (after ((main world [directory]).run world.start)).trace =
      .program (world.programming defaultFatalHandler directory) ::
        .output "OK\n" :: (events ++ [.cleanup]) :=
    congrArg (fun result ↦ (after result).trace) hrun
  refine ⟨_, _, htrace, fun other hother ↦ ?_, rfl,
    getElem?_programming_of_ready henum hready hdatabases⟩
  rw [List.mem_cons, List.mem_append, List.mem_singleton] at hother
  rcases hother with heq | hmem | heq
  · cases heq
  · rcases hevents _ hmem with hquiet | ⟨_, heq⟩
    · exact hquiet.2
    · cases heq
  · cases heq

/-- The Skylake world, cores that count one more at every snapshot, and draws that take turns. -/
def skylakeMainWorld : MainWorld UInt64 where
  toWorld := skylakeWorld
  handle := differenceHandle
  defaultState := 0
  coreCounterState := UInt64.ofNat
  setSignalHandlers := ""
  exitCleanup := ""
  dist := fun n ↦ n % 1024 + 1
  dist_mem := fun n ↦ ⟨Nat.succ_pos _, Nat.mod_lt n (Nat.succ_pos 1023)⟩

/-- The Skylake database alone is enough for a run to the end. -/
theorem printed_main_skylake :
    let final := (main skylakeMainWorld ["db"]).run skylakeMainWorld.start
    returned final ∧ printed (after final).trace =
      "OK\n".toList ++ skylakeMainWorld.output ⟨initialEvents⟩ := by
  intro final
  have hmain := @printed_main _ skylakeMainWorld ["db"] pcmNumber_nonneg
  have hreturned : returned final = true := hmain.1.mpr ⟨"db", rfl, ready_skylakeWorld⟩
  exact ⟨hreturned, hmain.2.trans (if_pos hreturned)⟩

/-- What the Skylake database says is programmed. -/
theorem programmed_main_skylake :
    ∃ description later, (after ((main skylakeMainWorld ["db"]).run skylakeMainWorld.start)).trace =
        .program description :: later ∧
      description[0]? = some ⟨0xD1, 0x08⟩ := by
  have hloads : skylakeMainWorld.loads "db" = [skylakeLoad] := by decide +kernel
  have hprovides : ∀ load ∈ skylakeMainWorld.loads "db",
      skylakeMainWorld.Provides load skylakeCounters := by
    rw [hloads]
    exact fun load hload ↦ List.mem_singleton.mp hload ▸ provides_skylakeCounters
  obtain ⟨description, later, htrace, -, -, hregisters⟩ :=
    programmed_main pcmNumber_nonneg ready_skylakeWorld hprovides
  obtain ⟨record, hrecord, hdescription⟩ := hregisters .one
  have hfirst : (((skylakeMainWorld.loads "db").flatMap fun _ ↦ skylakeCounters).find?
      (·.name = initialEvents .one)).map HwEvent.description = some ⟨0xD1, 0x08⟩ := by
    rw [hloads]
    decide +kernel
  rw [hrecord, Option.map_some] at hfirst
  exact ⟨description, later, htrace, hdescription.trans hfirst⟩

/-- However a run ends and whatever has been drawn, all cells it has touched exist, those of the
recorder and those of `values` and `indices`. The PMU has been reset only if PCM said that it is
busy, and what has been programmed has been cleaned up later. Assumes: the CPU models of PCM have no
negative numbers. -/
theorem main_cleansUp {world : MainWorld Snapshot} {arguments : List String}
    (henum : ∀ cpuModel, 0 ≤ world.enumValue cpuModel) :
    let trace := (after ((main world arguments).run world.start)).trace
    (∀ event ∈ trace, event.InBounds) ∧
      (.resetPMU ∈ trace → world.programStatus = .pmuBusy) ∧
      ∀ earlier description later, trace = earlier ++ .program description :: later →
        .cleanup ∈ later := by
  intro trace
  by_cases h : world.Measurable arguments
  · obtain ⟨directory, rfl, hready⟩ := h
    obtain ⟨state, events, hrun, hevents, -⟩ := run_main_of_ready henum hready
    have htrace : trace =
        [.program (world.programming defaultFatalHandler directory), .output "OK\n"] ++
          (events ++ [.cleanup]) := congrArg (fun result ↦ (after result).trace) hrun
    have hcases : ∀ event ∈ trace,
        event = .program (world.programming defaultFatalHandler directory) ∨ event.IsQuiet ∨
          (∃ text, event = .output text) ∨ event = .cleanup := by
      intro event hevent
      rw [htrace, List.mem_append, List.mem_append, List.mem_pair, List.mem_singleton] at hevent
      rcases hevent with (rfl | rfl) | hevent | rfl
      · exact Or.inl rfl
      · exact Or.inr (Or.inr (Or.inl ⟨_, rfl⟩))
      · exact Or.inr ((hevents event hevent).imp id Or.inl)
      · exact Or.inr (Or.inr (Or.inr rfl))
    refine ⟨fun event hevent ↦ ?_, fun hreset ↦ ?_, fun earlier other later hsplit ↦ ?_⟩
    · rcases hcases event hevent with rfl | hquiet | ⟨_, rfl⟩ | rfl
      · exact True.intro
      · exact hquiet.1
      · exact True.intro
      · exact True.intro
    · rcases hcases _ hreset with heq | hquiet | ⟨_, heq⟩ | heq
      · cases heq
      · exact hquiet.2.elim
      · cases heq
      · cases heq
    · rw [htrace, ← List.append_assoc] at hsplit
      exact last_mem_of_split hsplit Event.noConfusion
  · obtain ⟨cause, m, hrun, hfailure⟩ := run_main_of_not_measurable henum h
    have htrace : trace = m.trace := congrArg (fun result ↦ (after result).trace) hrun
    rw [htrace]
    exact ⟨hfailure.inBounds, hfailure.pmuBusy, fun _ _ _ ↦ hfailure.cleanup_mem⟩

/-- In the Skylake world a run ends with a cleanup. -/
theorem main_cleansUp_skylake :
    let trace := (after ((main skylakeMainWorld ["db"]).run skylakeMainWorld.start)).trace
    (∀ event ∈ trace, event.InBounds) ∧ .resetPMU ∉ trace := by
  have hmain := @main_cleansUp _ skylakeMainWorld ["db"] pcmNumber_nonneg
  exact ⟨hmain.1, fun hreset ↦ ErrorCode.noConfusion (hmain.2.1 hreset)⟩

end Runs

end PcmWrapper
