import PcmWrapper.MainProgram
import PcmWrapper.PrintingBlock

/-!
# The program `main_multithreaded.cpp`

The program begins like the other one, and then starts five threads. Each is pinned to a core of its
own, makes a thousand empty measurements there, and prints them. The main thread waits for all of
them and cleans up. The threads share the standard output and nothing else that they change, so a
schedule of their insertions is all there is to choose, and `mainMultithreaded` takes one: any list
of turns, in which a thread that has nothing left to do lets its turn pass.

`printed_mainMultithreaded` says for every world and every schedule what has been printed when the
turns are over. No thread starts unless the world is ready. The insertions of a thread come in their
order, as many as the thread has had turns, but there is nothing that would keep those of different
threads apart. The program ends exactly when each thread has had enough turns for its whole block,
and not before that it cleans up.

The affinity of the threads and the random numbers they do not use are left out.
-/

set_option autoImplicit false
set_option relaxedAutoImplicit false

namespace PcmWrapper

open Library

variable {Snapshot : Type}

/-! ### The threads -/

/-- What the program finds: a world, the handle of a core, the snapshots of each core in the order
in which they are taken, whether PCM uses `perf`, and what its functions print. -/
structure MultithreadedWorld (Snapshot : Type) extends World where
  handle : CounterHandle Snapshot
  defaultState : Snapshot
  coreCounterState : ℕ → ℕ → Snapshot
  usePerf : Bool
  setSignalHandlers : String
  exitCleanup : String

/-- What the `i`th measurement on a core measures. -/
def MultithreadedWorld.measured (world : MultithreadedWorld Snapshot) (core i : ℕ) : CounterState :=
  world.handle.between (world.coreCounterState core (2 * i))
    (world.coreCounterState core (2 * i + 1))

/-- The first rounds of the loop in `work`. -/
def measureRounds (world : MultithreadedWorld Snapshot) (core : ℕ) :
    ℕ → Program (CounterHandleRecorder Snapshot) Unit
  | 0 => pure ()
  | i + 1 => do
    measureRounds world core i
    onStart (world.coreCounterState core (2 * i))
    onEnd defaultFatalHandler world.handle (world.coreCounterState core (2 * i + 1))

/-- `work` up to its printing block. -/
def work (world : MultithreadedWorld Snapshot) (core : ℕ) :
    Program (CounterHandleRecorder Snapshot) Unit := do
  modifyState fun _ ↦ ⟨world.defaultState, world.defaultState, .make 1000 .four⟩
  measureRounds world core 1000

/-- The handle and the recorder of a thread before `work` constructs them. -/
def MultithreadedWorld.unmeasured (world : MultithreadedWorld Snapshot) :
    CounterHandleRecorder Snapshot :=
  ⟨world.defaultState, world.defaultState, .make 0 .one⟩

/-- The thread of a core when it comes to its printing block. -/
def MultithreadedWorld.worker (world : MultithreadedWorld Snapshot) (core : ℕ) : Worker where
  core := core
  recorder := (after ((work world core).run (.fresh world.unmeasured))).state.recorder

/-- The threads `main` starts. -/
def MultithreadedWorld.workers (world : MultithreadedWorld Snapshot) : List Worker :=
  (List.range' 4 5).map world.worker

/-! ### The program -/

/-- Put texts on the standard output, one after the other. -/
def putAll {σ : Type} : List Text → Program σ Unit
  | [] => pure ()
  | text :: texts => do
    emit (.output (String.ofList text))
    putAll texts

/-- The line that is printed when PCM uses `perf`. -/
def reportPerf (world : MultithreadedWorld Snapshot) : Program Session Unit :=
  if world.usePerf then printLine "USING PERF".toList else pure ()

/-- `main` behind its loop over `join`, which it gets to when all threads have returned, with the
destructor of the context; the value says whether it does. -/
def leave (world : MultithreadedWorld Snapshot) (finished : Bool) : Program Session Bool :=
  if finished then do
    emit (.output world.exitCleanup)
    emit .cleanup
    pure true
  else pure false

/-- `main` behind `startMonitoring`, when its threads have taken the turns of a schedule. -/
def runWorkers (world : MultithreadedWorld Snapshot)
    (schedule : List (Fin world.workers.length)) : Program Session Bool := do
  emit (.output world.setSignalHandlers)
  reportPerf world
  let session ← readState
  let threads := runTurns schedule
    (startWorkers workGuard session.context.getEventHeader world.workers)
  putAll (threads.output.map Prod.snd)
  leave world (decide (∀ i, threads.remaining i = []))

/-- `main`, when its threads have taken the turns of a schedule. -/
def mainMultithreaded (world : MultithreadedWorld Snapshot) (directory : String)
    (schedule : List (Fin world.workers.length)) : Program Session Bool := do
  setUp defaultFatalHandler world.toWorld directory
  runWorkers world schedule

/-! ### What a thread prints -/

section Workers

variable {world : MultithreadedWorld Snapshot} {operationCount : ℕ} {counterCount : CounterRegister}

/-- The rounds of a thread append their rows. Assumes: the sizes do not wrap, and the recorder has
room for the rows. -/
theorem yields_measureRounds (core : ℕ) (hcommon : operationCount * 2 < 2 ^ 64)
    (hevents : operationCount * (counterCount.toNat + 1) < 2 ^ 64)
    (mixin : CounterHandleRecorder Snapshot)
    (h : Holds operationCount counterCount mixin.recorder []) {n : ℕ} (hn : n ≤ operationCount) :
    ∃ mixin' events, Yields (measureRounds world core n) mixin () mixin' events ∧
      (∀ event ∈ events, event.IsQuiet) ∧
      Holds operationCount counterCount mixin'.recorder
        ((List.range n).map (world.measured core)) := by
  induction n with
  | zero => exact ⟨mixin, [], Yields.pure () mixin, nofun, h⟩
  | succ n ih =>
    obtain ⟨mixin', earlier, hearlier, hquietEarlier, hrows⟩ := ih (Nat.le_of_succ_le hn)
    have hroom : ((List.range n).map (world.measured core)).length < operationCount := by
      rw [List.length_map, List.length_range]
      exact hn
    obtain ⟨recorder, later, hlater, hquietLater, hrow⟩ := yields_onEnd
      defaultFatalHandler_neverReturns world.handle hcommon hevents
      { mixin' with startState := world.coreCounterState core (2 * n) } hrows hroom
      (world.coreCounterState core (2 * n + 1))
    refine ⟨_, _, hearlier.bind ((Yields.modifyState _ _).bind hlater), ?_, ?_⟩
    · exact List.forall_mem_append.mpr ⟨hquietEarlier, hquietLater⟩
    · rw [List.range_succ, List.map_append]
      exact hrow

/-- The rows of a thread. -/
def MultithreadedWorld.rows (world : MultithreadedWorld Snapshot) (core : ℕ) : List CounterState :=
  (List.range 1000).map (world.measured core)

/-- A thread comes to its printing block with its rows, and touches only cells that exist. -/
theorem yields_work (world : MultithreadedWorld Snapshot) (core : ℕ) : ∃ mixin events,
    Yields (work world core) world.unmeasured () mixin events ∧ (∀ event ∈ events, event.IsQuiet) ∧
      Holds 1000 .four mixin.recorder (world.rows core) := by
  have hcommon : 1000 * 2 < 2 ^ 64 := by decide
  have hevents : 1000 * (CounterRegister.four.toNat + 1) < 2 ^ 64 := by decide
  have hempty : Holds 1000 .four (.make 1000 .four) [] := holds_make hcommon hevents
  obtain ⟨mixin, events, hyields, hquiet, hrows⟩ := yields_measureRounds core hcommon hevents
    ⟨world.defaultState, world.defaultState, .make 1000 .four⟩ hempty le_rfl
  exact ⟨mixin, events, (Yields.modifyState _ _).bind hyields, hquiet, hrows⟩

theorem holds_worker (world : MultithreadedWorld Snapshot) (core : ℕ) :
    Holds 1000 .four (world.worker core).recorder (world.rows core) := by
  obtain ⟨mixin, events, hyields, -, hrows⟩ := yields_work world core
  have hrun : (work world core).run (.fresh world.unmeasured) = .ok () ⟨mixin, [] ++ events⟩ :=
    hyields []
  rw [MultithreadedWorld.worker, hrun, after_ok]
  exact hrows

/-- What `operator<<` inserts for the recorder of a thread. -/
theorem insertions_worker (world : MultithreadedWorld Snapshot) (core : ℕ) :
    (world.worker core).recorder.insertions = (world.rows core).flatMap (rowInsertions .four) := by
  have hcommon : 1000 * 2 < 2 ^ 64 := by decide
  have hevents : 1000 * (CounterRegister.four.toNat + 1) < 2 ^ 64 := by decide
  obtain ⟨events, hprint, -⟩ := observes_print hcommon hevents (holds_worker world core)
  have hrun : print.run (.fresh (world.worker core).recorder) =
      .ok ((world.rows core).flatMap (rowInsertions .four)) _ := hprint []
  rw [CounterRecorder.insertions, hrun]

/-- The number of insertions for rows of six numbers. -/
theorem length_flatMap_rowInsertions (rows : List CounterState) :
    (rows.flatMap (rowInsertions .four)).length = rows.length * 12 := by
  have hrow : ∀ row, (rowInsertions .four row).length = 12 := fun _ ↦ rfl
  induction rows with
  | nil => rfl
  | cons row rows ih =>
    rw [List.flatMap_cons, List.length_append, hrow, ih, List.length_cons]
    omega

/-- The number of insertions in the block of a thread. -/
theorem length_blockInsertions (header : EventHeader) (core : ℕ) :
    (blockInsertions header (world.worker core)).length = 12014 := by
  have hheader : header.insertions.length = 9 := rfl
  rw [blockInsertions, insertions_worker, List.length_append, List.length_append,
    List.length_append, List.length_append, length_flatMap_rowInsertions, hheader,
    MultithreadedWorld.rows, List.length_map, List.length_range]
  simp only [List.length_cons, List.length_nil]

/-- The text of the block of a thread: its core, the header, and its rows. -/
theorem blockText_worker (header : EventHeader) (core : ℕ) :
    blockText header (world.worker core) = "core: ".toList ++ decimal core ++ endl ++
      (headerLine header ++ endl) ++
        (((world.rows core).map (rowLine .four)).flatMap (· ++ endl) ++ endl) := by
  rw [blockText, blockInsertions, insertions_worker, List.flatten_append, List.flatten_append,
    List.flatten_append, List.flatten_append, flatten_insertions, flatten_flatMap_rowInsertions,
    show (world.worker core).core = core from rfl]
  simp

/-- On every core the thousand rounds run to their end, and neither they nor the print behind them
do anything but touch cells that exist. What the thread prints is its core, the header, and a row
for each round, in the order of the rounds. -/
theorem work_prints (world : MultithreadedWorld Snapshot) (header : EventHeader) (core : ℕ) :
    ∃ m, (work world core).run (.fresh world.unmeasured) = .ok () m ∧
      (∀ event ∈ m.trace ++ emitted (onRecorder print) m, event.IsQuiet) ∧
      blockText header (world.worker core) = "core: ".toList ++ decimal core ++ endl ++
        (headerLine header ++ endl) ++
          ((((List.range 1000).map (world.measured core)).map (rowLine .four)).flatMap
            (· ++ endl) ++ endl) := by
  have hcommon : 1000 * 2 < 2 ^ 64 := by decide
  have hevents : 1000 * (CounterRegister.four.toNat + 1) < 2 ^ 64 := by decide
  obtain ⟨mixin, events, hyields, hquiet, hrows⟩ := yields_work world core
  obtain ⟨printEvents, hprint, hquietPrint⟩ := yields_print hcommon hevents mixin hrows
  have hrun : (work world core).run (.fresh world.unmeasured) = .ok () ⟨mixin, [] ++ events⟩ :=
    hyields []
  refine ⟨_, hrun, ?_, blockText_worker header core⟩
  rw [emitted, hprint, after_ok, List.drop_left]
  exact List.forall_mem_append.mpr ⟨hquiet, hquietPrint⟩

end Workers

/-! ### Runs of the program -/

theorem prints_putAll {σ : Type} (texts : List Text) (state : σ) :
    Prints (putAll texts) state () state texts.flatten [] := by
  induction texts with
  | nil => exact prints_of_isQuiet (Yields.pure () state) (List.forall_mem_nil _)
  | cons text texts ih =>
    have hfirst := prints_output (String.ofList text) state
    rw [String.toList_ofList] at hfirst
    exact hfirst.bind ih

section Runs

variable {world : MultithreadedWorld Snapshot} {directory : String}
  {schedule : List (Fin world.workers.length)}

/-- What the program prints between its beginning and its threads. -/
def MultithreadedWorld.announcement (world : MultithreadedWorld Snapshot) : Text :=
  world.setSignalHandlers.toList ++ if world.usePerf then "USING PERF\n".toList else []

theorem prints_reportPerf (world : MultithreadedWorld Snapshot) (session : Session) :
    Prints (reportPerf world) session () session
      (if world.usePerf then "USING PERF\n".toList else []) [] := by
  rw [reportPerf]
  split_ifs
  · have hline : "USING PERF\n".toList = "USING PERF".toList ++ endl := by decide +kernel
    rw [hline]
    exact prints_line _ session
  · exact prints_of_isQuiet (Yields.pure () session) (List.forall_mem_nil _)

theorem prints_leave (world : MultithreadedWorld Snapshot) (finished : Bool) (session : Session) :
    Prints (leave world finished) session finished session
      (if finished then world.exitCleanup.toList else [])
      (if finished then [.cleanup] else []) := by
  cases finished with
  | true =>
    have hcleanup : Prints (emit .cleanup >>= fun _ ↦ pure true) session true session []
        [.cleanup] :=
      ⟨[], (Yields.emit _ session).bind (Yields.pure true session), List.forall_mem_nil _, rfl⟩
    have hboth : Prints (leave world true) session true session
        (world.exitCleanup.toList ++ []) [.cleanup] :=
      (prints_output world.exitCleanup session).bind hcleanup
    rwa [List.append_nil] at hboth
  | false => exact prints_of_isQuiet (Yields.pure false session) (List.forall_mem_nil _)

/-- The threads when they have taken the turns of a schedule. -/
def MultithreadedWorld.threads (world : MultithreadedWorld Snapshot) (header : EventHeader)
    (schedule : List (Fin world.workers.length)) : Threads (Fin world.workers.length) Text :=
  runTurns schedule (startWorkers workGuard header world.workers)

/-- The threads and the main thread behind the beginning. -/
theorem prints_runWorkers (world : MultithreadedWorld Snapshot)
    (schedule : List (Fin world.workers.length)) (session : Session) : ∃ done : Bool,
    (done = true ↔ (world.threads session.context.getEventHeader schedule).Finished) ∧
      Prints (runWorkers world schedule) session done session
        (world.announcement ++
          (standardOutput (world.threads session.context.getEventHeader schedule) ++
            if done then world.exitCleanup.toList else []))
        (if done then [.cleanup] else []) := by
  let threads := world.threads session.context.getEventHeader schedule
  refine ⟨decide (∀ i, threads.remaining i = []), decide_eq_true_iff, ?_⟩
  rw [MultithreadedWorld.announcement, List.append_assoc]
  refine (prints_output _ session).bind ((prints_reportPerf world session).bind ?_)
  refine (prints_of_isQuiet (Yields.readState session) (List.forall_mem_nil _)).bind ?_
  exact (prints_putAll _ session).bind (prints_leave world _ session)

/-- Every thread is that of a core. -/
theorem workers_getElem (world : MultithreadedWorld Snapshot) (i : Fin world.workers.length) :
    ∃ core, world.workers[i] = world.worker core := by
  obtain ⟨core, -, hcore⟩ := List.mem_map.mp (List.getElem_mem (l := world.workers) i.isLt)
  exact ⟨core, hcore.symm⟩

/-- The threads have put as many insertions as they have had turns. -/
theorem putBy_threads (world : MultithreadedWorld Snapshot) (header : EventHeader)
    (schedule : List (Fin world.workers.length)) (i : Fin world.workers.length) :
    (world.threads header schedule).putBy i =
      (blockInsertions header world.workers[i]).take (schedule.count i) :=
  putBy_runTurns (fun i ↦ blockInsertions header world.workers[i]) schedule i

/-- The threads have finished when each has had a turn for each of its insertions. -/
theorem finished_threads_iff (world : MultithreadedWorld Snapshot) (header : EventHeader)
    (schedule : List (Fin world.workers.length)) :
    (world.threads header schedule).Finished ↔ ∀ i, 12014 ≤ schedule.count i := by
  have hiff : (world.threads header schedule).Finished ↔
      ∀ i, (blockInsertions header world.workers[i]).length ≤ schedule.count i :=
    finished_runTurns_iff (fun i ↦ blockInsertions header world.workers[i]) schedule
  rw [hiff]
  refine forall_congr' fun i ↦ ?_
  obtain ⟨core, hcore⟩ := workers_getElem world i
  rw [hcore, length_blockInsertions]

/-- The program gets past its beginning exactly when the world is ready for its directory, and
prints nothing if it does not. If it does, then whatever turns its threads have taken, what has been
printed between the beginning and the end are insertions of the threads: of each thread the first
ones of its block, as many as it has had turns. The program has come to its end exactly when each
thread has had a turn for each of the 12014 insertions of its block, and exactly then it has cleaned
up. Assumes: the CPU models of PCM have no negative numbers. -/
theorem printed_mainMultithreaded {world : MultithreadedWorld Snapshot} {directory : String}
    {schedule : List (Fin world.workers.length)}
    (henum : ∀ cpuModel, 0 ≤ world.enumValue cpuModel) :
    let final := (mainMultithreaded world directory schedule).run (.fresh .fresh)
    (returned final ↔ world.Ready directory) ∧
      (returned final = false → printed (after final).trace = []) ∧
      ∀ done m, final = .ok done m → ∃ puts : List (Fin world.workers.length × Text),
        printed m.trace = "OK\n".toList ++ (world.announcement ++ ((puts.map Prod.snd).flatten ++
          if done then world.exitCleanup.toList else [])) ∧
        (∀ i, (puts.filter fun put ↦ put.1 = i).map Prod.snd =
          (blockInsertions ⟨initialEvents⟩ world.workers[i]).take (schedule.count i)) ∧
        (done = true ↔ ∀ i, 12014 ≤ schedule.count i) ∧
        (.cleanup ∈ m.trace ↔ done = true) := by
  intro final
  by_cases h : world.Ready directory
  · obtain ⟨done, hdone, events, hyields, hclean, hprinted⟩ :=
      prints_runWorkers world schedule (world.session defaultFatalHandler directory)
    have hfinal : final = .ok done ⟨world.session defaultFatalHandler directory,
        [.program (world.programming defaultFatalHandler directory), .output "OK\n"] ++
          (events ++ if done then [.cleanup] else [])⟩ :=
      (run_bind_of_ok (run_setUp_of_ready henum h) _).trans (hyields _)
    have hreturned : returned final = true := congrArg returned hfinal
    refine ⟨iff_of_true hreturned h, fun hnot ↦ absurd (hnot.symm.trans hreturned) nofun, ?_⟩
    intro other m hm
    cases hfinal.symm.trans hm
    refine ⟨(world.threads ⟨initialEvents⟩ schedule).output, ?_, fun i ↦ ?_, ?_, ?_⟩
    · have hclosing : printed (if done then [Event.cleanup] else []) = [] := by cases done <;> rfl
      rw [printed_append, printed_append, hprinted, hclosing, List.append_nil]
      rfl
    · exact putBy_threads world ⟨initialEvents⟩ schedule i
    · rw [hdone]
      exact finished_threads_iff world ⟨initialEvents⟩ schedule
    · have hnotMem : Event.cleanup ∉ events := by
        intro hmem
        rcases hclean _ hmem with hquiet | ⟨_, heq⟩
        · exact hquiet.2
        · cases heq
      rw [List.mem_append, List.mem_append, or_iff_right hnotMem]
      cases done <;> simp
  · obtain ⟨cause, m, hrun, htrace⟩ := setUp_failure henum defaultFatalHandler_neverReturns h
    have hfinal : final = .error cause m := run_bind_of_error hrun _
    have hreturned : returned final = false := congrArg returned hfinal
    have hfailure : FailureTrace world.programStatus m.trace :=
      htrace.imp id fun ⟨rest, hrest⟩ ↦ ⟨_, rest, hrest⟩
    refine ⟨iff_of_false (by rw [hreturned]; exact Bool.false_ne_true) h, fun _ ↦ ?_, ?_⟩
    · rw [hfinal, after_error]
      exact hfailure.printed_eq
    · intro done m hm
      rw [hfinal] at hm
      cases hm

/-- The Skylake world, with the snapshots of each core numbered from zero. -/
def skylakeThreadsWorld : MultithreadedWorld UInt64 where
  toWorld := skylakeWorld
  handle := differenceHandle
  defaultState := 0
  coreCounterState := fun _ ↦ UInt64.ofNat
  usePerf := false
  setSignalHandlers := ""
  exitCleanup := ""

/-- The threads of that world, which are those of the cores 4 to 8. -/
def skylakeThread (i : Fin 5) : Fin skylakeThreadsWorld.workers.length :=
  i.cast ((List.length_map _).trans List.length_range').symm

/-- The second thread has its first turn between two of the first one, and nothing keeps what they
print apart. -/
theorem printed_mainMultithreaded_skylake :
    let schedule := [skylakeThread 0, skylakeThread 1, skylakeThread 0]
    let final := (mainMultithreaded skylakeThreadsWorld "db" schedule).run (.fresh .fresh)
    ∃ (m : Machine Event Session) (puts : List (Fin skylakeThreadsWorld.workers.length × Text)),
      final = .ok false m ∧ .cleanup ∉ m.trace ∧
      printed m.trace = "OK\n".toList ++ (puts.map Prod.snd).flatten ∧
      (puts.filter fun put ↦ put.1 = skylakeThread 0).map Prod.snd =
        ["core: ".toList, "4".toList] ∧
      (puts.filter fun put ↦ put.1 = skylakeThread 1).map Prod.snd = ["core: ".toList] := by
  intro schedule final
  have hmain := @printed_mainMultithreaded _ skylakeThreadsWorld "db" schedule pcmNumber_nonneg
  have hreturned : returned final = true := hmain.1.mpr ready_skylakeWorld
  obtain ⟨done, m, hfinal⟩ : ∃ done m, final = .ok done m := by
    cases hfinal : final with
    | ok done m => exact ⟨done, m, rfl⟩
    | error cause m =>
      rw [hfinal] at hreturned
      cases hreturned
  obtain ⟨puts, hprinted, hputs, hdone, hcleanup⟩ := hmain.2.2 done m hfinal
  have hcounts : schedule.count (skylakeThread 0) = 2 ∧ schedule.count (skylakeThread 1) = 1 := by
    decide
  obtain rfl : done = false := by
    refine Bool.eq_false_iff.mpr fun hdone' ↦ ?_
    have hturns := hdone.mp hdone' (skylakeThread 0)
    rw [hcounts.1] at hturns
    exact absurd hturns (by decide)
  refine ⟨m, puts, hfinal, fun hmem ↦ Bool.false_ne_true (hcleanup.mp hmem), ?_, ?_, ?_⟩
  · rw [hprinted, if_neg Bool.false_ne_true, List.append_nil]
    rfl
  · rw [hputs, hcounts.1]
    decide +kernel
  · rw [hputs, hcounts.2]
    rfl

end Runs

end PcmWrapper
