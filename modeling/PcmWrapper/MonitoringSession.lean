import PcmWrapper.DirectoryLoads
import PcmWrapper.PcmContext

/-!
# From a directory to a running measurement

Both programs begin alike: they load the directory named on the command line into a reader,
initialise a context with it, and start to monitor. `setUp` is this beginning, and a `World` what it
finds around it: directories and files, and what PCM reports of the CPU and of its programming.

`World.Ready` says for which worlds the beginning goes through, in terms of the texts of the files:
the directory loads, the databases of the CPU model name the four events `init` chooses, and PCM
accepts the programming. `run_setUp_of_ready` says what the session holds then, and `setUp_failure`
what the trace looks like otherwise: PCM has not been programmed, or it has been cleaned up again.
-/

set_option autoImplicit false
set_option relaxedAutoImplicit false

namespace PcmWrapper

open Library

/-! ### What the programs find and what they hold -/

/-- The directories and files, the CPU model PCM reports and the numbers it gives the models, and
the code that `PCM::program` returns. -/
structure World where
  readDirectory : String → Option (List Dirent)
  readFile : String → Option String
  enumValue : SupportedCPUModel → ℤ
  cpuModel : ℤ
  programStatus : ErrorCode

/-- The reader and the context. -/
structure Session where
  reader : HwCounterJsonReader
  context : PcmContext

/-- A session that has not begun. -/
def Session.fresh : Session := ⟨.empty, .fresh⟩

/-- An action of the reader. -/
def onReader {α : Type} (action : Program HwCounterJsonReader α) : Program Session α :=
  zoom Session.reader (fun reader session ↦ { session with reader }) action

/-- An action of the context. -/
def onContext {α : Type} (action : Program PcmContext α) : Program Session α :=
  zoom Session.context (fun context session ↦ { session with context }) action

/-- `reader.loadFromDirectory(directory)`. -/
def World.load (world : World) (handler : FatalHandler) (directory : String) :
    Program HwCounterJsonReader Unit :=
  loadFromDirectory handler (.ofFiles world.readFile) world.enumValue directory
    (world.readDirectory directory)

/-- The statements both programs begin with. -/
def setUp (handler : FatalHandler) (world : World) (directory : String) :
    Program Session Unit := do
  onReader (world.load handler directory)
  let session ← readState
  onContext (init handler world.cpuModel session.reader)
  onContext resetMsrIfBusy
  onContext (startMonitoring handler world.programStatus)

/-! ### Worlds in which the beginning goes through -/

/-- The entries of a directory, none if it cannot be opened. -/
def World.entries (world : World) (directory : String) : List Dirent :=
  (world.readDirectory directory).getD []

/-- The file of a load has the text of a database with the given records. -/
def World.Provides (world : World) (load : Load) (counters : List HwEvent) : Prop :=
  ∃ text, world.readFile load.filePath = some text ∧ IsDatabase text counters

/-- What a measurement needs of the world. -/
structure World.Ready (world : World) (directory : String) : Prop where
  loads : ∀ ent ∈ world.entries directory, (ent.type = .regular → 4 ≤ ent.name.length) ∧
    ∀ load, expectedLoad world.enumValue directory ent = some load →
      ∃ counters, world.Provides load counters
  events : ∀ register, ∃ ent ∈ world.entries directory, ∃ load counters,
    expectedLoad world.enumValue directory ent = some load ∧ load.cpuModel = world.cpuModel ∧
      world.Provides load counters ∧ ∃ counter ∈ counters, counter.name = initialEvents register
  status : world.programStatus = .success

/-! ### What the beginning adds to the trace -/

/-- The event is part of the report of a fatal error. -/
def Event.IsReport : Event → Prop
  | .cleanup => True
  | .fatalError _ => True
  | _ => False

theorem emits_handleFatalError {σ : Type} (handler : FatalHandler) (message : String) :
    Emits Event.IsReport (handleFatalError handler message : Program σ Unit) := by
  refine (Emits.emit True.intro).bind fun _ ↦ (Emits.emit True.intro).bind fun _ ↦ ?_
  cases handler message with
  | terminates => exact Emits.interrupt _
  | throws => exact Emits.interrupt _
  | returns => exact Emits.pure ()

theorem emits_loadElements (cpuModel : ℤ) (elements : List Json) :
    Emits Event.IsReport (loadElements cpuModel elements) := by
  induction elements with
  | nil => exact Emits.pure ()
  | cons element elements ih =>
    exact (Emits.fromExcept _).bind fun _ ↦ (Emits.modifyState _).bind fun _ ↦ ih

theorem emits_loadCounters (handler : FatalHandler) (env : Environment) (filePath : String)
    (cpuModel : ℤ) : Emits Event.IsReport (loadCounters handler env filePath cpuModel) := by
  rw [loadCounters]
  cases env.readFile filePath with
  | none => exact (emits_handleFatalError handler _).bind fun _ ↦ Emits.interrupt _
  | some text =>
    cases hparse : env.parseJson text with
    | error exception =>
      simp only [hparse]
      exact Emits.interrupt _
    | ok j =>
      simp only [hparse]
      exact emits_loadElements cpuModel j.elements

/-- Loading from a directory adds nothing but reports to the trace. -/
theorem emits_load (world : World) (handler : FatalHandler) (directory : String) :
    Emits Event.IsReport (world.load handler directory) := by
  unfold World.load loadFromDirectory loadFromDirectoryWith
  cases world.readDirectory directory with
  | none => exact Emits.pure ()
  | some entries =>
    simp only
    induction entries with
    | nil => exact Emits.pure ()
    | cons ent entries ih =>
      rw [processEntries]
      refine Emits.bind ?_ fun _ ↦ ih
      rw [processEntry]
      split_ifs
      · refine (Emits.fromExcept _).bind fun json ↦ ?_
        split_ifs
        · rw [loadCounterFunctor]
          split_ifs
          · exact emits_loadCounters handler _ _ _
          · exact Emits.pure ()
        · exact Emits.pure ()
      · exact Emits.pure ()

/-- `init` adds nothing but reports to the trace. -/
theorem emits_init (handler : FatalHandler) (cpuModel : ℤ) (reader : HwCounterJsonReader) :
    Emits Event.IsReport (init handler cpuModel reader) := by
  have hcheck : Emits Event.IsReport (checkCounters handler (reader.getCounters cpuModel)) := by
    rw [checkCounters]
    split_ifs
    · exact emits_handleFatalError handler _
    · exact Emits.pure ()
  have hchoose : ∀ register eventName,
      Emits Event.IsReport (setCounter handler register eventName) := by
    intro register eventName
    refine Emits.bind (Emits.readState.bind fun context ↦ ?_) fun _ ↦ Emits.modifyState _
    cases context.counters.lookup eventName with
    | none => exact emits_handleFatalError handler _
    | some counter => exact Emits.pure ()
  exact hcheck.bind fun _ ↦ (Emits.modifyState _).bind fun _ ↦ (hchoose _ _).bind fun _ ↦
    (hchoose _ _).bind fun _ ↦ (hchoose _ _).bind fun _ ↦ hchoose _ _

/-! ### How the beginning ends -/

section Outcomes

variable {handler : FatalHandler} {world : World} {directory : String}

/-- What the reader holds when the directory has been gone through. -/
def World.reader (world : World) (handler : FatalHandler) (directory : String) :
    HwCounterJsonReader :=
  (after ((world.load handler directory).run (.fresh .empty))).state

/-- The context of a measurement that has started. -/
def startedContext (cpuModel : ℤ) (reader : HwCounterJsonReader) : PcmContext :=
  { initialised cpuModel reader with resetBusyDevice := true }

/-- A directory that loads makes the expected loads and leaves nothing in the trace. Assumes: the
CPU models of PCM have no negative numbers. -/
theorem run_load_eq_ok (henum : ∀ cpuModel, 0 ≤ world.enumValue cpuModel)
    {m : Machine Event HwCounterJsonReader}
    (h : (world.load handler directory).run (.fresh .empty) = .ok () m) :
    m = .fresh (world.reader handler directory) ∧
      SuccessfulLoads handler (.ofFiles world.readFile)
        (expectedLoads world.enumValue directory (world.readDirectory directory))
        (world.reader handler directory) := by
  have hreader : world.reader handler directory = m.state := by rw [World.reader, h, after_ok]
  have hloads := run_loadAll_of_loadFromDirectory handler _ directory henum h
  have htrace : m.trace = [] := trace_of_run_loadAll handler _ hloads
  have hm : m = .fresh (world.reader handler directory) := by
    rw [hreader, Machine.fresh, ← htrace]
  exact ⟨hm, m.trace, by rw [hreader]; exact hloads⟩

/-- Both databases and reader say which names a CPU model has. Assumes: the CPU models of PCM have
no negative numbers, and the directory loads. -/
theorem mem_eventNames_iff (henum : ∀ cpuModel, 0 ≤ world.enumValue cpuModel)
    {m : Machine Event HwCounterJsonReader}
    (h : (world.load handler directory).run (.fresh .empty) = .ok () m) {name : String} :
    name ∈ (world.reader handler directory).eventNames world.cpuModel ↔
      ∃ ent ∈ world.entries directory, ∃ load counters,
        expectedLoad world.enumValue directory ent = some load ∧ load.cpuModel = world.cpuModel ∧
          world.Provides load counters ∧ ∃ counter ∈ counters, counter.name = name := by
  rw [HwCounterJsonReader.eventNames, mem_names_iff (run_load_eq_ok henum h).2]
  constructor
  · rintro ⟨load, hload, hmodel, record, hrecord, hname⟩
    obtain ⟨ent, hent, hexpected⟩ := List.mem_filterMap.mp hload
    have hloads := run_loadAll_of_loadFromDirectory handler _ directory henum h
    have hloadable := (run_loadAll_eq_ok hloads).1 load hload
    exact ⟨ent, hent, load, _, hexpected, hmodel, loadable_ofFiles.mp ⟨hloadable, rfl⟩, record,
      hrecord, hname⟩
  · rintro ⟨ent, hent, load, counters, hexpected, hmodel, hprovides, counter, hcounter, hname⟩
    obtain ⟨-, rfl⟩ := loadable_ofFiles.mpr hprovides
    exact ⟨load, List.mem_filterMap.mpr ⟨ent, hent, hexpected⟩, hmodel, counter, hcounter, hname⟩

/-- The directory loads, and the CPU model has the events `init` chooses, when the databases say so.
Assumes: the CPU models of PCM have no negative numbers. -/
theorem World.ready_iff (henum : ∀ cpuModel, 0 ≤ world.enumValue cpuModel) :
    world.Ready directory ↔
      (∃ m, (world.load handler directory).run (.fresh .empty) = .ok () m) ∧
      (∀ register, initialEvents register ∈
        (world.reader handler directory).eventNames world.cpuModel) ∧
      world.programStatus = .success := by
  have hloads : (∃ m, (world.load handler directory).run (.fresh .empty) = .ok () m) ↔
      ∀ ent ∈ world.entries directory, (ent.type = .regular → 4 ≤ ent.name.length) ∧
        ∀ load, expectedLoad world.enumValue directory ent = some load →
          ∃ counters, world.Provides load counters := by
    rw [World.load, exists_run_loadFromDirectory_iff handler _ directory henum]
    simp only [passes_ofFiles_iff, World.Provides, exists_comm (α := String)]
    rfl
  constructor
  · intro h
    obtain ⟨m, hrun⟩ := hloads.mpr h.loads
    exact ⟨⟨m, hrun⟩, fun register ↦ (mem_eventNames_iff henum hrun).mpr (h.events register),
      h.status⟩
  · rintro ⟨⟨m, hrun⟩, hevents, hstatus⟩
    exact ⟨hloads.mp ⟨m, hrun⟩,
      fun register ↦ (mem_eventNames_iff henum hrun).mp (hevents register), hstatus⟩

/-- A status that is no success is a fatal error, with the PMU reset before if it is busy. -/
theorem run_reportStatus_of_ne (hhandler : handler.NeverReturns) {status : ErrorCode}
    (hstatus : status ≠ .success) (m : Machine Event PcmContext) : ∃ cause rest,
    (reportStatus handler status).run m = .error cause { m with trace := m.trace ++ rest } ∧
      .cleanup ∈ rest ∧
      ∀ event ∈ rest, event.IsReport ∨ event = .resetPMU ∧ status = .pmuBusy := by
  have hfatal : ∀ (message : String) (m : Machine Event PcmContext), ∃ cause,
      (handleFatalError handler message).run m =
        .error cause { m with trace := m.trace ++ [.cleanup, .fatalError message] } :=
    fun message m ↦ run_handleFatalError_of_ne_returns (hhandler message) m
  have hreport : ∀ (message : String) (event : Event), event ∈ [.cleanup, .fatalError message] →
      event.IsReport := by
    intro message event hevent
    rcases List.mem_cons.mp hevent with rfl | hevent
    · exact True.intro
    · rw [List.mem_singleton.mp hevent]
      exact True.intro
  rw [reportStatus, if_neg hstatus]
  cases status with
  | success => exact absurd rfl hstatus
  | msrAccessDenied =>
    obtain ⟨cause, hrun⟩ := hfatal _ m
    exact ⟨cause, _, hrun, List.mem_cons_self, fun event hevent ↦ Or.inl (hreport _ event hevent)⟩
  | unknownError =>
    obtain ⟨cause, hrun⟩ := hfatal _ m
    exact ⟨cause, _, hrun, List.mem_cons_self, fun event hevent ↦ Or.inl (hreport _ event hevent)⟩
  | pmuBusy =>
    rw [handlePcmProgramError, run_bind_of_ok (run_readState m)]
    split_ifs with hreset
    · rw [run_bind_of_ok (run_emit _ m)]
      obtain ⟨cause, hrun⟩ := hfatal _ ⟨m.state, m.trace ++ [.resetPMU]⟩
      refine ⟨cause, [Event.resetPMU, .cleanup, .fatalError
        "PcmContext::startMontoring failed because PMU is busy, resetting device"],
        hrun.trans ?_, List.mem_cons_of_mem _ List.mem_cons_self, ?_⟩
      · rw [List.append_assoc]
        rfl
      · intro event hevent
        rcases List.mem_cons.mp hevent with rfl | hevent
        · exact Or.inr ⟨rfl, rfl⟩
        · exact Or.inl (hreport _ event hevent)
    · obtain ⟨cause, hrun⟩ := hfatal _ m
      exact ⟨cause, _, hrun, List.mem_cons_self, fun event hevent ↦
        Or.inl (hreport _ event hevent)⟩

/-- The programming of a measurement that has started. -/
def World.programming (world : World) (handler : FatalHandler) (directory : String) :
    List CustomCoreEventDescription :=
  (startedContext world.cpuModel (world.reader handler directory)).programming

/-- The session of a measurement that has started. -/
def World.session (world : World) (handler : FatalHandler) (directory : String) : Session :=
  ⟨world.reader handler directory, startedContext world.cpuModel (world.reader handler directory)⟩

/-- Behind a directory that loads and an `init` that goes through, it is up to PCM. -/
theorem run_setUp_of_init (henum : ∀ cpuModel, 0 ≤ world.enumValue cpuModel)
    {m : Machine Event HwCounterJsonReader}
    (hload : (world.load handler directory).run (.fresh .empty) = .ok () m)
    (hevents : ∀ register, initialEvents register ∈
      (world.reader handler directory).eventNames world.cpuModel) :
    (setUp handler world directory).run (.fresh .fresh) =
      embed (fun context session ↦ { session with context }) (world.session handler directory)
        ((reportStatus handler world.programStatus).run
          ⟨startedContext world.cpuModel (world.reader handler directory),
            [.program (world.programming handler directory)]⟩) := by
  obtain ⟨rfl, -⟩ := run_load_eq_ok henum hload
  have hinit : (init handler world.cpuModel (world.reader handler directory)).run
      (.fresh .fresh) =
        .ok () (.fresh (initialised world.cpuModel (world.reader handler directory))) :=
    (run_init_eq_ok_iff.mpr ⟨hevents, rfl⟩).1
  have hmem : ∀ register, (startedContext world.cpuModel
      (world.reader handler directory)).chosenEvents register ∈
        (startedContext world.cpuModel (world.reader handler directory)).counters :=
    fun register ↦ mem_counters_initialised.mpr (hevents register)
  have hfirst : (onReader (world.load handler directory)).run (.fresh .fresh) =
      .ok () (.fresh ⟨world.reader handler directory, .fresh⟩) := by
    rw [onReader, run_zoom]
    exact congrArg (embed _ _) hload
  have hsecond : (onContext (init handler world.cpuModel (world.reader handler directory))).run
      (.fresh ⟨world.reader handler directory, .fresh⟩) = .ok () (.fresh
        ⟨world.reader handler directory,
          initialised world.cpuModel (world.reader handler directory)⟩) := by
    rw [onContext, run_zoom]
    exact congrArg (embed _ _) hinit
  have hthird : (onContext resetMsrIfBusy).run (.fresh ⟨world.reader handler directory,
      initialised world.cpuModel (world.reader handler directory)⟩) =
        .ok () (.fresh (world.session handler directory)) := rfl
  rw [setUp, run_bind_of_ok hfirst, run_bind_of_ok (run_readState _)]
  refine (run_bind_of_ok hsecond _).trans ?_
  rw [run_bind_of_ok hthird, onContext, run_zoom]
  refine congrArg (embed _ _) ?_
  refine (run_startMonitoring handler world.programStatus _).trans ?_
  exact congrArg (fun context ↦ (reportStatus handler world.programStatus).run ⟨context,
    [.program (world.programming handler directory)]⟩) (PcmContext.described_of_mem hmem)

/-- The loads of a directory. -/
def World.loads (world : World) (directory : String) : List Load :=
  expectedLoads world.enumValue directory (world.readDirectory directory)

/-- What a register is programmed with are the codes of the first record of its event, whichever CPU
model that is for. Assumes: the CPU models of PCM have no negative numbers, the directory loads, and
its databases name the event. -/
theorem getElem?_programming_of_ready (henum : ∀ cpuModel, 0 ≤ world.enumValue cpuModel)
    (hready : world.Ready directory) {databases : Load → List HwEvent}
    (hdatabases : ∀ load ∈ world.loads directory, world.Provides load (databases load))
    (register : CounterRegister) : ∃ record,
    ((world.loads directory).flatMap databases).find? (·.name = initialEvents register) =
        some record ∧
      (world.programming handler directory)[register.toNat]? = some record.description := by
  obtain ⟨⟨m, hload⟩, hevents, -⟩ :
    (∃ m, (world.load handler directory).run (.fresh .empty) = .ok () m) ∧ _ :=
      (World.ready_iff henum).mp hready
  obtain ⟨-, hloads⟩ := run_load_eq_ok henum hload
  obtain ⟨event, hevent, hname⟩ := List.mem_map.mp (hevents register)
  obtain ⟨-, first, later, hnamed, hmerged⟩ := (mem_getCounters_iff hloads).mp hevent
  have hrecords : (mergedRecords (.ofFiles world.readFile) (world.loads directory)).map Prod.fst =
      (world.loads directory).flatMap databases := by
    rw [mergedRecords, List.map_flatMap]
    refine List.flatMap_congr fun load hmem ↦ ?_
    obtain ⟨-, hdatabase⟩ := loadable_ofFiles.mpr (hdatabases load hmem)
    rw [List.map_map, ← hdatabase]
    exact List.map_id _
  have hfind : (mergedRecords (.ofFiles world.readFile) (world.loads directory)).find?
      (mergeKey · = event.name) = some first := by
    rw [← List.head?_filter]
    exact congrArg List.head? hnamed
  have hdescription : event.description = first.1.description := by rw [hmerged]; rfl
  refine ⟨first.1, ?_, ?_⟩
  · rw [← hrecords, List.find?_map, ← hname]
    exact congrArg (Option.map Prod.fst) hfind
  · have hlookup : (startedContext world.cpuModel (world.reader handler directory)).counters.lookup
        ((startedContext world.cpuModel (world.reader handler directory)).chosenEvents register) =
          some event := lookup_initialised.mpr ⟨hevent, hname⟩
    rw [World.programming, getElem?_programming, hlookup, Option.getD_some, hdescription]

/-- In a world that is ready the beginning programs PCM with the chosen events and prints `OK`.
Assumes: the CPU models of PCM have no negative numbers. -/
theorem run_setUp_of_ready (henum : ∀ cpuModel, 0 ≤ world.enumValue cpuModel)
    (hready : world.Ready directory) : (setUp handler world directory).run (.fresh .fresh) =
      .ok () ⟨world.session handler directory,
        [.program (world.programming handler directory), .output "OK\n"]⟩ := by
  obtain ⟨⟨m, hload⟩, hevents, hstatus⟩ :
    (∃ m, (world.load handler directory).run (.fresh .empty) = .ok () m) ∧ _ :=
      (World.ready_iff henum).mp hready
  rw [run_setUp_of_init henum hload hevents, hstatus, reportStatus, if_pos rfl]
  rfl

/-- In a world that is not ready the beginning does not return. What it leaves in the trace are
reports; or PCM has been programmed, has reported an error, and has been cleaned up. Assumes: the
CPU models of PCM have no negative numbers, and the handler never returns. -/
theorem setUp_failure (henum : ∀ cpuModel, 0 ≤ world.enumValue cpuModel)
    (hhandler : handler.NeverReturns) (hnot : ¬ world.Ready directory) : ∃ cause m,
    (setUp handler world directory).run (.fresh .fresh) = .error cause m ∧
      ((∀ event ∈ m.trace, event.IsReport) ∨
        ∃ rest, m.trace = .program (world.programming handler directory) :: rest ∧
          world.programStatus ≠ .success ∧ .cleanup ∈ rest ∧
          ∀ event ∈ rest, event.IsReport ∨ event = .resetPMU ∧ world.programStatus = .pmuBusy) := by
  have hreports : ∀ {action : Program Session Unit} {session : Session} {cause m},
      Emits Event.IsReport action → action.run (.fresh session) = .error cause m →
      ∀ event ∈ m.trace, event.IsReport := by
    intro action session cause m hemits hrun
    obtain ⟨events, hevents, hall⟩ := hemits (.fresh session)
    rw [hrun, after_error] at hevents
    rw [hevents]
    exact hall
  cases hload : (world.load handler directory).run (.fresh .empty) with
  | error cause m =>
    have hfirst : (onReader (world.load handler directory)).run (.fresh .fresh) =
        .error cause ⟨⟨m.state, .fresh⟩, m.trace⟩ := by
      rw [onReader, run_zoom]
      exact congrArg (embed _ _) hload
    exact ⟨cause, _, run_bind_of_error hfirst _,
      Or.inl (hreports ((emits_load world handler directory).zoom _ _) hfirst)⟩
  | ok _ m =>
    by_cases hevents : ∀ register, initialEvents register ∈
        (world.reader handler directory).eventNames world.cpuModel
    · have hstatus : world.programStatus ≠ .success := fun hsuccess ↦
        hnot ((World.ready_iff henum).mpr ⟨⟨m, hload⟩, hevents, hsuccess⟩)
      obtain ⟨cause, rest, hrun, hcleanup, hrest⟩ := run_reportStatus_of_ne hhandler hstatus
        ⟨startedContext world.cpuModel (world.reader handler directory),
          [.program (world.programming handler directory)]⟩
      rw [run_setUp_of_init henum hload hevents, hrun]
      exact ⟨cause, _, rfl, Or.inr ⟨rest, rfl, hstatus, hcleanup, hrest⟩⟩
    · obtain ⟨rfl, -⟩ := run_load_eq_ok henum hload
      have hfirst : (onReader (world.load handler directory)).run (.fresh .fresh) =
          .ok () (.fresh ⟨world.reader handler directory, .fresh⟩) := by
        rw [onReader, run_zoom]
        exact congrArg (embed _ _) hload
      cases hinit : (init handler world.cpuModel (world.reader handler directory)).run
          (.fresh .fresh) with
      | ok _ m => exact absurd (run_init_eq_ok_iff.mp ⟨hinit, .inl hhandler⟩).1 hevents
      | error cause m =>
        have hsecond : (onContext (init handler world.cpuModel
            (world.reader handler directory))).run
              (.fresh ⟨world.reader handler directory, .fresh⟩) =
              .error cause ⟨⟨world.reader handler directory, m.state⟩, m.trace⟩ := by
          rw [onContext, run_zoom]
          exact congrArg (embed _ _) hinit
        refine ⟨cause, _, ?_, Or.inl (hreports
          ((emits_init handler world.cpuModel (world.reader handler directory)).zoom _ _) hsecond)⟩
        rw [setUp, run_bind_of_ok hfirst, run_bind_of_ok (run_readState _)]
        exact run_bind_of_error hsecond _

end Outcomes

/-! ### A world that is ready -/

/-- One of the shipped databases alone in a directory, on a CPU it is for. -/
def skylakeWorld : World where
  readDirectory := fun directory ↦
    if directory = "db" then
      some (databaseListing.filter (·.name = "skylake_core_v30.json".toList))
    else none
  readFile := excerptFiles.readFile
  enumValue := pcmNumber
  cpuModel := 94
  programStatus := .success

/-- The records of the database. -/
def skylakeCounters : List HwEvent :=
  skylakeExcerpt.json.elements.filterMap fun element ↦ (convert element).toOption

theorem provides_skylakeCounters : skylakeWorld.Provides skylakeLoad skylakeCounters := by
  have hrecords : ∀ element ∈ skylakeExcerpt.json.elements, ∃ counter,
      convert element = .ok counter := by
    intro element helement
    have hconvert : (skylakeExcerpt.json.elements.all fun element ↦
        (convert element).toOption.isSome) = true := by
      decide +kernel
    have hsome := List.all_eq_true.mp hconvert element helement
    cases hresult : convert element with
    | ok counter => exact ⟨counter, rfl⟩
    | error cause =>
      rw [hresult] at hsome
      cases hsome
  have hplain := isPlain_excerpts skylakeExcerpt (by simp)
  exact ⟨skylakeExcerpt.text, by decide +kernel, skylakeExcerpt.json,
    parse_eq_ok.mp (parse_text hplain), forall₂_isRecord_iff.mpr ⟨hrecords, rfl⟩⟩

theorem ready_skylakeWorld : skylakeWorld.Ready "db" := by
  have hexpected : ∀ ent ∈ skylakeWorld.entries "db",
      expectedLoad pcmNumber "db" ent = some skylakeLoad ∧ 4 ≤ ent.name.length := by
    decide +kernel
  obtain ⟨database, hdatabase⟩ : ∃ database, database ∈ skylakeWorld.entries "db" :=
    List.exists_mem_of_ne_nil _ (by decide +kernel)
  have hnames : ∀ register, initialEvents register ∈ skylakeCounters.map HwEvent.name := by
    decide +kernel
  refine ⟨fun ent hent ↦ ⟨fun _ ↦ (hexpected ent hent).2, fun load hload ↦ ?_⟩,
    fun register ↦ ?_, rfl⟩
  · obtain rfl := Option.some.inj ((hexpected ent hent).1.symm.trans hload)
    exact ⟨skylakeCounters, provides_skylakeCounters⟩
  · obtain ⟨counter, hcounter, hname⟩ := List.mem_map.mp (hnames register)
    exact ⟨database, hdatabase, skylakeLoad, skylakeCounters, (hexpected database hdatabase).1,
      rfl, provides_skylakeCounters, counter, hcounter, hname⟩

end PcmWrapper
