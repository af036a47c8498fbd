import PcmWrapper.HwCounterJsonReader

/-!
# Sequences of successful loads

`loadFromDirectory` loads one file after the other, in an order nobody chose. This module says
what the reader holds after any sequence of loads that all succeeded. `records` are the converted
records of a file and `mergedRecords` those of a sequence of loads, each with its CPU model.
`lookup_eq_some_iff` is the whole content of the map: a name is there exactly when it has a record,
and its event has the codes of the first record of that name, whatever its model, and supports the
models of all of them.

The names a model gets are then exactly the names in the files loaded for it, one event for each
(`names_of_successfulLoads`), in every order and however often a file is loaded.
-/

set_option autoImplicit false
set_option relaxedAutoImplicit false

namespace PcmWrapper

open Library

/-! ### Loads and their records -/

/-- A call of `loadCounters`. -/
structure Load where
  filePath : String
  cpuModel : ℤ
  deriving DecidableEq

/-- The calls of `loadCounters`, each of which must succeed for the next to be made. -/
def loadAll (handler : FatalHandler) (env : Environment) :
    List Load → Program HwCounterJsonReader Unit
  | [] => pure ()
  | load :: loads => do
    loadCounters handler env load.filePath load.cpuModel
    loadAll handler env loads

/-- The loads all succeeded, on a reader that had loaded nothing, and led to the given reader. -/
def SuccessfulLoads (handler : FatalHandler) (env : Environment) (loads : List Load)
    (reader : HwCounterJsonReader) : Prop :=
  ∃ trace, (loadAll handler env loads).run (Machine.fresh .empty) = .ok () ⟨reader, trace⟩

/-- The elements of a file, when it can be opened and parsed. -/
def fileElements (env : Environment) (filePath : String) : Option (List Json) := do
  let text ← env.readFile filePath
  let j ← (env.parseJson text).toOption
  return j.elements

/-- The converted records of a file. -/
def records (env : Environment) (filePath : String) : List HwEvent :=
  ((fileElements env filePath).getD []).filterMap fun element ↦ (convert element).toOption

/-- The records of a sequence of loads in their order, each with the model it is loaded for. -/
def mergedRecords (env : Environment) (loads : List Load) : List (HwEvent × ℤ) :=
  loads.flatMap fun load ↦ (records env load.filePath).map (·, load.cpuModel)

/-- A file can be loaded: it opens, it parses, and all its elements convert. -/
def Loadable (env : Environment) (filePath : String) : Prop :=
  ∃ elements, fileElements env filePath = some elements ∧
    ∀ element ∈ elements, ∃ counter, convert element = .ok counter

instance (env : Environment) (filePath : String) : Decidable (Loadable env filePath) :=
  decidable_of_iff
    ((fileElements env filePath).any fun elements ↦
      elements.all fun element ↦ (convert element).toOption.isSome) <| by
    unfold Loadable
    cases fileElements env filePath with
    | none => simp
    | some elements =>
      have helement : ∀ element, (convert element).toOption.isSome ↔
          ∃ counter, convert element = .ok counter := by
        intro element
        cases convert element <;> simp [Except.toOption]
      simp [helement]

theorem mergedRecords_cons (env : Environment) (load : Load) (loads : List Load) :
    mergedRecords env (load :: loads) =
      (records env load.filePath).map (·, load.cpuModel) ++ mergedRecords env loads :=
  List.flatMap_cons

theorem mem_mergedRecords {env : Environment} {loads : List Load} {record : HwEvent}
    {cpuModel : ℤ} : (record, cpuModel) ∈ mergedRecords env loads ↔
      ∃ load ∈ loads, load.cpuModel = cpuModel ∧ record ∈ records env load.filePath := by
  simp only [mergedRecords, List.mem_flatMap, List.mem_map, Prod.mk.injEq]
  constructor
  · rintro ⟨load, hload, other, hother, rfl, rfl⟩
    exact ⟨load, hload, rfl, hother⟩
  · rintro ⟨load, hload, rfl, hrecord⟩
    exact ⟨load, hload, record, hrecord, rfl, rfl⟩

/-- A converted record supports no model yet. -/
theorem supportedCpuModels_of_mem_records {env : Environment} {filePath : String}
    {record : HwEvent} (h : record ∈ records env filePath) : record.supportedCpuModels = [] := by
  obtain ⟨element, -, helement⟩ := List.mem_filterMap.mp h
  cases hconvert : convert element with
  | error cause =>
    rw [hconvert] at helement
    cases helement
  | ok counter =>
    rw [hconvert] at helement
    cases helement
    obtain ⟨_, _, _, _, _, _, _, hmodels⟩ := convert_eq_ok.mp hconvert
    exact hmodels

/-! ### What successful loads leave in the map -/

/-- Merge converted records in their order. -/
def HwCounterJsonReader.addCounters (reader : HwCounterJsonReader) (counters : List HwEvent)
    (cpuModel : ℤ) : HwCounterJsonReader :=
  counters.foldl (·.addCounter · cpuModel) reader

/-- The map after merging records is the keyed store they make. -/
theorem HwCounterJsonReader.hwCounters_addCounters (reader : HwCounterJsonReader)
    (counters : List HwEvent) (cpuModel : ℤ) :
    (reader.addCounters counters cpuModel).hwCounters =
      (counters.map (·, cpuModel)).foldl (upsert mergeKey mergeCreate mergeExtend)
        reader.hwCounters := by
  induction counters generalizing reader with
  | nil => rfl
  | cons counter rest ih =>
    have hrest := ih (reader.addCounter counter cpuModel)
    rw [addCounters, List.foldl_cons, List.map_cons, List.foldl_cons, ← mergeCounter_eq_upsert]
    exact hrest

/-- The loop over the elements of a file succeeds exactly when all of them convert, and then merges
the converted records. -/
theorem run_loadElements_eq_ok {cpuModel : ℤ} {elements : List Json}
    {m final : Machine Event HwCounterJsonReader} :
    (loadElements cpuModel elements).run m = .ok () final ↔
      (∀ element ∈ elements, ∃ counter, convert element = .ok counter) ∧
      final = ⟨m.state.addCounters
        (elements.filterMap fun element ↦ (convert element).toOption) cpuModel, m.trace⟩ := by
  induction elements generalizing m with
  | nil => simp [loadElements, HwCounterJsonReader.addCounters, eq_comm]
  | cons element rest ih =>
    rw [loadElements]
    cases hconvert : convert element with
    | error cause => simp [hconvert]
    | ok counter =>
      rw [run_bind_of_ok (run_fromExcept_ok counter m), run_bind_of_ok (run_modifyState _ m), ih]
      simp [hconvert, Except.toOption, HwCounterJsonReader.addCounters]

/-- `loadCounters` succeeds exactly on a file that can be loaded, and then merges its records. -/
theorem run_loadCounters_eq_ok {handler : FatalHandler} {env : Environment} {filePath : String}
    {cpuModel : ℤ} {m final : Machine Event HwCounterJsonReader} :
    (loadCounters handler env filePath cpuModel).run m = .ok () final ↔
      Loadable env filePath ∧
        final = ⟨m.state.addCounters (records env filePath) cpuModel, m.trace⟩ := by
  unfold loadCounters Loadable records fileElements
  cases hread : env.readFile filePath with
  | none =>
    simp only [run_bind_eq_ok]
    simp
  | some text =>
    cases hparse : env.parseJson text with
    | error exception => simp [hparse, Except.toOption]
    | ok j => simp [hparse, Except.toOption, run_loadElements_eq_ok]

/-- The loads succeed exactly when every file can be loaded, and then the map is the keyed store
of all their records. -/
theorem run_loadAll_eq_ok {handler : FatalHandler} {env : Environment} {loads : List Load}
    {m final : Machine Event HwCounterJsonReader}
    (h : (loadAll handler env loads).run m = .ok () final) :
    (∀ load ∈ loads, Loadable env load.filePath) ∧ final.state.hwCounters =
      (mergedRecords env loads).foldl (upsert mergeKey mergeCreate mergeExtend)
        m.state.hwCounters := by
  induction loads generalizing m with
  | nil =>
    cases h
    exact ⟨fun load hload ↦ absurd hload List.not_mem_nil, rfl⟩
  | cons load loads ih =>
    obtain ⟨_, m', hload, hrest⟩ := run_bind_eq_ok.mp h
    obtain ⟨hloadable, rfl⟩ := run_loadCounters_eq_ok.mp hload
    obtain ⟨hothers, hfinal⟩ := ih hrest
    refine ⟨fun other hother ↦ ?_, ?_⟩
    · rcases List.mem_cons.mp hother with rfl | hother
      · exact hloadable
      · exact hothers other hother
    · rw [hfinal, HwCounterJsonReader.hwCounters_addCounters, mergedRecords_cons,
        List.foldl_append]

/-- Loads of files that can be loaded succeed. -/
theorem exists_successfulLoads (handler : FatalHandler) {env : Environment} {loads : List Load}
    (h : ∀ load ∈ loads, Loadable env load.filePath) :
    ∃ reader, SuccessfulLoads handler env loads reader := by
  have hrun : ∀ m : Machine Event HwCounterJsonReader,
      ∃ final, (loadAll handler env loads).run m = .ok () final := by
    induction loads with
    | nil => exact fun m ↦ ⟨m, rfl⟩
    | cons load loads ih =>
      intro m
      have hload : ∃ m', (loadCounters handler env load.filePath load.cpuModel).run m =
          .ok () m' := ⟨_, run_loadCounters_eq_ok.mpr ⟨h load List.mem_cons_self, rfl⟩⟩
      obtain ⟨m', hload⟩ := hload
      obtain ⟨final, hfinal⟩ := ih (fun other hother ↦ h other (List.mem_cons_of_mem load hother)) _
      exact ⟨final, run_bind_eq_ok.mpr ⟨(), _, hload, hfinal⟩⟩
  obtain ⟨final, hfinal⟩ := hrun (Machine.fresh .empty)
  exact ⟨final.state, final.trace, hfinal⟩

/-- The records of one name, in the order in which they were loaded. -/
def recordsNamed (env : Environment) (loads : List Load) (name : String) : List (HwEvent × ℤ) :=
  (mergedRecords env loads).filter (mergeKey · = name)

/-- Later records of a name only add their models. -/
theorem foldl_mergeExtend (later : List (HwEvent × ℤ)) (event : HwEvent) :
    later.foldl mergeExtend event =
      { event with supportedCpuModels := event.supportedCpuModels ++ later.map Prod.snd } := by
  induction later generalizing event with
  | nil => simp
  | cons record later ih =>
    rw [List.foldl_cons, ih]
    simp [mergeExtend, HwEvent.addSupportedCpuModel]

/-- The event of a name with the given records: the codes of the first and all the models. -/
def mergedEvent (first : HwEvent × ℤ) (later : List (HwEvent × ℤ)) : HwEvent :=
  ⟨first.1.eventNumber, first.1.umaskValue, first.1.name, (first :: later).map Prod.snd⟩

/-- The content of the map after successful loads: the event of a name has the codes of the first
record of that name and supports the models of all of them. -/
theorem lookup_eq_some_iff {handler : FatalHandler} {env : Environment} {loads : List Load}
    {reader : HwCounterJsonReader} (h : SuccessfulLoads handler env loads reader) {name : String}
    {event : HwEvent} : reader.hwCounters.lookup name = some event ↔
      ∃ first later, recordsNamed env loads name = first :: later ∧
        event = mergedEvent first later := by
  obtain ⟨trace, hrun⟩ := h
  have hmap : reader.hwCounters =
      (mergedRecords env loads).foldl (upsert mergeKey mergeCreate mergeExtend) ∅ :=
    (run_loadAll_eq_ok hrun).2
  have hvalue : ∀ first later, recordsNamed env loads name = first :: later →
      later.foldl mergeExtend (mergeCreate first) = mergedEvent first later := by
    intro first later hnamed
    have hfirst : first ∈ recordsNamed env loads name := hnamed ▸ List.mem_cons_self
    obtain ⟨load, -, -, hrecord⟩ := mem_mergedRecords.mp (List.mem_filter.mp hfirst).1
    rw [foldl_mergeExtend, mergeCreate, HwEvent.addSupportedCpuModel,
      supportedCpuModels_of_mem_records hrecord]
    rfl
  rw [hmap, lookup_foldl_upsert_empty_eq_some]
  constructor
  · rintro ⟨first, later, hnamed, rfl⟩
    exact ⟨first, later, hnamed, hvalue first later hnamed⟩
  · rintro ⟨first, later, hnamed, rfl⟩
    exact ⟨first, later, hnamed, (hvalue first later hnamed).symm⟩

/-! ### What a CPU model gets -/

/-- The name occurs in a file loaded for the model. -/
def NamedFor (env : Environment) (loads : List Load) (cpuModel : ℤ) (name : String) : Prop :=
  ∃ load ∈ loads, load.cpuModel = cpuModel ∧
    ∃ record ∈ records env load.filePath, record.name = name

/-- A name is in the files of a model exactly when a record of that name was loaded for it. -/
theorem namedFor_iff {env : Environment} {loads : List Load} {cpuModel : ℤ} {name : String} :
    NamedFor env loads cpuModel name ↔
      cpuModel ∈ (recordsNamed env loads name).map Prod.snd := by
  constructor
  · rintro ⟨load, hload, rfl, record, hrecord, rfl⟩
    have hmerged := mem_mergedRecords.mpr ⟨load, hload, rfl, hrecord⟩
    exact List.mem_map.mpr ⟨(record, load.cpuModel),
      List.mem_filter.mpr ⟨hmerged, decide_eq_true rfl⟩, rfl⟩
  · intro hmodel
    obtain ⟨⟨record, _⟩, hnamed, rfl⟩ := List.mem_map.mp hmodel
    obtain ⟨hmerged, hname⟩ := List.mem_filter.mp hnamed
    obtain ⟨load, hload, hcpuModel, hrecord⟩ := mem_mergedRecords.mp hmerged
    exact ⟨load, hload, hcpuModel, record, hrecord, of_decide_eq_true hname⟩

/-- The events of a model after successful loads: one for each name in its files, with the codes of
the first record of that name that was loaded for any model. -/
theorem mem_getCounters_iff {handler : FatalHandler} {env : Environment} {loads : List Load}
    {reader : HwCounterJsonReader} (h : SuccessfulLoads handler env loads reader) {cpuModel : ℤ}
    {event : HwEvent} : event ∈ reader.getCounters cpuModel ↔
      NamedFor env loads cpuModel event.name ∧
        ∃ first later, recordsNamed env loads event.name = first :: later ∧
          event = mergedEvent first later := by
  rw [HwCounterJsonReader.mem_getCounters, lookup_eq_some_iff h, and_comm]
  refine and_congr_left ?_
  rintro ⟨first, later, hnamed, hevent⟩
  have hmodels : event.supportedCpuModels = (recordsNamed env loads event.name).map Prod.snd := by
    rw [hnamed, hevent]
    rfl
  rw [namedFor_iff, ← hmodels, HwEvent.supports, List.contains_iff_mem]

/-- A model gets an event exactly for the names in its files. -/
theorem mem_names_iff {handler : FatalHandler} {env : Environment} {loads : List Load}
    {reader : HwCounterJsonReader} (h : SuccessfulLoads handler env loads reader) {cpuModel : ℤ}
    {name : String} : name ∈ (reader.getCounters cpuModel).map HwEvent.name ↔
      NamedFor env loads cpuModel name := by
  rw [List.mem_map]
  constructor
  · rintro ⟨event, hevent, rfl⟩
    exact ((mem_getCounters_iff h).mp hevent).1
  · intro hname
    cases hnamed : recordsNamed env loads name with
    | nil =>
      rw [namedFor_iff, hnamed] at hname
      cases hname
    | cons first later =>
      have hfirst : first ∈ recordsNamed env loads name := hnamed ▸ List.mem_cons_self
      have hfirstName : first.1.name = name := of_decide_eq_true (List.mem_filter.mp hfirst).2
      refine ⟨mergedEvent first later, ?_, hfirstName⟩
      have hmergedName : (mergedEvent first later).name = name := hfirstName
      rw [mem_getCounters_iff h, hmergedName]
      exact ⟨hname, first, later, hnamed, rfl⟩

/-! ### Excerpts of the shipped databases -/

/-- A file of records whose members are all strings, as the shipped databases are. -/
structure ExcerptFile where
  filePath : String
  records : List (List (String × String))
  deriving DecidableEq

/-- The text of the file. -/
def ExcerptFile.text (file : ExcerptFile) : String :=
  let member (m : String × String) := "\"" ++ m.1 ++ "\": \"" ++ m.2 ++ "\""
  let record (r : List (String × String)) :=
    "\x7b" ++ String.intercalate ", " (r.map member) ++ "\x7d"
  "[" ++ String.intercalate ", " (file.records.map record) ++ "]"

/-- The value the text parses to. -/
def ExcerptFile.json (file : ExcerptFile) : Json :=
  .array (file.records.map fun r ↦ .object (r.map fun m ↦ (m.1, .string m.2)))

/-- The files alone, with a parser for their texts. -/
def Environment.ofExcerpts (files : List ExcerptFile) : Environment where
  readFile := fun filePath ↦ (files.find? (·.filePath = filePath)).map ExcerptFile.text
  parseJson := fun text ↦
    match files.find? (·.text = text) with
    | some file => .ok file.json
    | none => .error (.invalidArgument "parse error")

/-- Reading and parsing a file gives the elements of its value back. -/
theorem fileElements_ofExcerpts {files : List ExcerptFile} {filePath : String} {file : ExcerptFile}
    (hpath : files.find? (·.filePath = filePath) = some file)
    (htext : files.find? (·.text = file.text) = some file) :
    fileElements (.ofExcerpts files) filePath = some file.json.elements := by
  simp [fileElements, Environment.ofExcerpts, hpath, htext, Except.toOption]

/-- A record, with the fields by which events of the excerpts differ. -/
def excerptRecord (eventName eventCode umask counterMask : String) : List (String × String) :=
  [("CounterMask", counterMask), (c_EventCode, eventCode), (c_EventName, eventName),
    (c_UMask, umask)]

def haswellExcerpt : ExcerptFile where
  filePath := "db/haswell_core_v26.json"
  records := [
    excerptRecord "DTLB_LOAD_MISSES.WALK_COMPLETED" "0x08" "0x0e" "0",
    excerptRecord "MEM_LOAD_UOPS_RETIRED.L1_MISS" "0xD1" "0x08" "0"]

def ivybridgeExcerpt : ExcerptFile where
  filePath := "db/ivybridge_core_v19.json"
  records := [excerptRecord "DTLB_LOAD_MISSES.WALK_COMPLETED" "0x08" "0x82" "0"]

def skylakeExcerpt : ExcerptFile where
  filePath := "db/skylake_core_v30.json"
  records := [
    excerptRecord "DTLB_LOAD_MISSES.WALK_COMPLETED" "0x08" "0x0E" "0",
    excerptRecord "UOPS_EXECUTED.CYCLES_GE_1_UOP_EXEC" "0xB1" "0x01" "1",
    excerptRecord "UOPS_EXECUTED.CYCLES_GE_2_UOPS_EXEC" "0xB1" "0x01" "2",
    excerptRecord "MEM_LOAD_RETIRED.L1_MISS" "0xD1" "0x08" "0",
    excerptRecord "MEM_LOAD_RETIRED.L2_MISS" "0xD1" "0x10" "0",
    excerptRecord "MEM_LOAD_RETIRED.L3_MISS" "0xD1" "0x20" "0"]

/-- An element of an excerpt. -/
def excerptElement (eventName eventCode umask counterMask : String) : Json :=
  .object ((excerptRecord eventName eventCode umask counterMask).map fun m ↦ (m.1, .string m.2))

/-- The three excerpts. -/
def excerptFiles : Environment := .ofExcerpts [haswellExcerpt, ivybridgeExcerpt, skylakeExcerpt]

/-- Load an excerpt for `PCM::HASWELL`. -/
def haswellLoad : Load := ⟨haswellExcerpt.filePath, 60⟩

/-- Load an excerpt for `PCM::IVY_BRIDGE`. -/
def ivybridgeLoad : Load := ⟨ivybridgeExcerpt.filePath, 58⟩

/-- Load an excerpt for `PCM::SKL`. -/
def skylakeLoad : Load := ⟨skylakeExcerpt.filePath, 94⟩

/-- The excerpts can be loaded. -/
theorem loadable_excerpts : ∀ load ∈ [haswellLoad, ivybridgeLoad, skylakeLoad],
    Loadable excerptFiles load.filePath := by
  decide +kernel

theorem fileElements_skylakeExcerpt :
    fileElements excerptFiles skylakeLoad.filePath = some skylakeExcerpt.json.elements :=
  fileElements_ofExcerpts (by decide +kernel) (by decide +kernel)

/-- The reader that a sequence of loads leads to. -/
def loadedReader (env : Environment) (loads : List Load) : HwCounterJsonReader :=
  (after ((loadAll defaultFatalHandler env loads).run (Machine.fresh .empty))).state

/-- Loadable files lead to that reader. -/
theorem successfulLoads_loadedReader {env : Environment} {loads : List Load}
    (h : ∀ load ∈ loads, Loadable env load.filePath) :
    SuccessfulLoads defaultFatalHandler env loads (loadedReader env loads) := by
  obtain ⟨reader, trace, hrun⟩ := exists_successfulLoads defaultFatalHandler h
  have hreader : loadedReader env loads = reader := by rw [loadedReader, hrun, after_ok]
  rw [hreader]
  exact ⟨trace, hrun⟩

/-! ### The names of a model -/

/-- The names of a model are exactly those in the files loaded for it, with one event each. Neither
the order of the loads nor repeating one matters: loads of the same files for the same models lead
to the same names. Assumes: the loads all succeeded. -/
theorem names_of_successfulLoads {handler : FatalHandler} {env : Environment} {loads : List Load}
    {reader : HwCounterJsonReader} (h : SuccessfulLoads handler env loads reader) (cpuModel : ℤ) :
    (∀ name, NamedFor env loads cpuModel name →
      ((reader.getCounters cpuModel).map HwEvent.name).count name = 1) ∧
    (∀ event ∈ reader.getCounters cpuModel, NamedFor env loads cpuModel event.name) ∧
    ∀ (otherLoads : List Load) (otherReader : HwCounterJsonReader),
      (∀ load, load ∈ otherLoads ↔ load ∈ loads) →
      SuccessfulLoads handler env otherLoads otherReader →
      ∀ name, name ∈ (otherReader.getCounters cpuModel).map HwEvent.name ↔
        name ∈ (reader.getCounters cpuModel).map HwEvent.name := by
  refine ⟨fun name hname ↦ ?_, fun event hevent ↦ ?_, ?_⟩
  · exact List.count_eq_one_of_mem (reader.nodup_names cpuModel) ((mem_names_iff h).mpr hname)
  · exact (mem_names_iff h).mp (List.mem_map_of_mem hevent)
  · intro otherLoads otherReader hsame hother name
    rw [mem_names_iff hother, mem_names_iff h, NamedFor, NamedFor]
    simp only [hsame]

/-- A name that all three excerpts have is there once for a model of one of them. -/
theorem names_of_successfulLoads_excerpts : ∃ reader,
    SuccessfulLoads defaultFatalHandler excerptFiles [haswellLoad, ivybridgeLoad, skylakeLoad]
      reader ∧
    ((reader.getCounters 60).map HwEvent.name).count "DTLB_LOAD_MISSES.WALK_COMPLETED" = 1 := by
  obtain ⟨reader, hreader⟩ := exists_successfulLoads defaultFatalHandler loadable_excerpts
  refine ⟨reader, hreader, (names_of_successfulLoads hreader 60).1 _ ?_⟩
  exact ⟨haswellLoad, List.mem_cons_self, rfl, by decide +kernel⟩

end PcmWrapper
