import PcmWrapper.BoundedRecording
import PcmWrapper.DatabaseLoads
import PcmWrapper.PcmContext

/-!
# The header and the rows as one table

Both programs print an `EventHeader`, a line end, and a recorder, as a table of comma separated
values. The header always has the names of all four registers. A row has as many event counts as the
recorder has columns, which is up to its constructor. So the first fields of a row are the counts of
what the header names there, and the table is rectangular exactly when the recorder has four columns
or nothing was recorded (`csvTable_fields`). The names are written as they are, so this is only said
of names without a delimiter or a line end; the databases have no others.
-/

set_option autoImplicit false
set_option relaxedAutoImplicit false

namespace PcmWrapper

open Library

variable {Snapshot : Type}

/-- The text of a header, a line end, and what `print` writes. -/
def printedTable (header : EventHeader) (m : Machine Event (CounterHandleRecorder Snapshot)) :
    Option Text :=
  (printedText m).map fun printed ↦ header.insertions.flatten ++ endl ++ printed

/-- What the fields of a header name. -/
def headerFields (header : EventHeader) : List Text :=
  "INSTRUCTIONS".toList :: "CYCLES".toList ::
    CounterRegister.all.map fun register ↦ (header.chosenEvents register).toList

/-- The counts of a row, each with the name of what it counts. -/
def labelledCounts (header : EventHeader) (counterCount : CounterRegister) (row : CounterState) :
    List (Text × ℕ) :=
  ("INSTRUCTIONS".toList, row.getExecutedInstructions.toNat) ::
    ("CYCLES".toList, row.getExecutedCycles.toNat) ::
      (columns counterCount).map fun register ↦
        ((header.chosenEvents register).toList, (row.getEventCounts register).toNat)

/-- A name that can stand in a table as it is. -/
def PlainName (name : String) : Prop := c_csvDelim ∉ name.toList ∧ '\n' ∉ name.toList

instance : DecidablePred PlainName := fun name ↦
  inferInstanceAs (Decidable (c_csvDelim ∉ name.toList ∧ '\n' ∉ name.toList))

/-- The line of a header, without its end. -/
def headerLine (header : EventHeader) : Text := [c_csvDelim].intercalate (headerFields header)

section Lines

variable {header : EventHeader}

/-- The insertions of a header make its line. -/
theorem flatten_insertions (header : EventHeader) :
    header.insertions.flatten = headerLine header := by
  have hcommon : c_commonCounterHeaders =
      "INSTRUCTIONS".toList ++ c_csvDelim :: "CYCLES".toList := by
    decide +kernel
  rw [EventHeader.insertions, headerLine, headerFields, hcommon]
  generalize "INSTRUCTIONS".toList = instructions
  generalize "CYCLES".toList = cycles
  simp only [CounterRegister.all, List.map_cons, List.map_nil, List.intercalate_cons_cons,
    List.intercalate_singleton, List.flatten_cons, List.flatten_nil, List.append_assoc,
    List.append_nil, List.cons_append, List.nil_append]

/-- A field of a header is plain when the chosen names are. -/
theorem plain_of_mem_headerFields (hnames : ∀ register, PlainName (header.chosenEvents register))
    {field : Text} (hfield : field ∈ headerFields header) : c_csvDelim ∉ field ∧ '\n' ∉ field := by
  rw [headerFields, List.mem_cons, List.mem_cons, List.mem_map] at hfield
  rcases hfield with rfl | rfl | ⟨register, _, rfl⟩
  · decide
  · decide
  · exact hnames register

/-- The fields of a header are read back from its line. -/
theorem fields_headerLine (hnames : ∀ register, PlainName (header.chosenEvents register)) :
    fields c_csvDelim (headerLine header) = headerFields header :=
  fields_intercalate (List.cons_ne_nil _ _) fun _ hfield ↦
    (plain_of_mem_headerFields hnames hfield).1

/-- The lines of a table are read back from its text. -/
theorem lines_table (hnames : ∀ register, PlainName (header.chosenEvents register))
    (counterCount : CounterRegister) (rows : List CounterState) :
    lines '\n' ((headerLine header :: rows.map (rowLine counterCount)).flatMap (· ++ endl)) =
      headerLine header :: rows.map (rowLine counterCount) := by
  refine lines_flatMap fun line hline ↦ ?_
  rcases List.mem_cons.mp hline with rfl | hrow
  · exact notMem_intercalate (by decide) fun _ hfield ↦
      (plain_of_mem_headerFields hnames hfield).2
  · obtain ⟨row, _, rfl⟩ := List.mem_map.mp hrow
    exact newline_notMem_rowLine counterCount row

/-- The fields of a header name the counts of a row, as far as the row goes. -/
theorem zip_headerFields (header : EventHeader) (counterCount : CounterRegister)
    (row : CounterState) : (headerFields header).zip (rowFields counterCount row) =
      labelledCounts header counterCount row := by
  cases counterCount <;> rfl

/-- A row has two fields more than the recorder has columns. -/
theorem length_rowFields (counterCount : CounterRegister) (row : CounterState) :
    (rowFields counterCount row).length = counterCount.toNat + 3 := by
  rw [rowFields, List.length_cons, List.length_cons, List.length_map, length_columns]

/-- The number of fields in the line of a row. -/
theorem length_fields_rowLine (counterCount : CounterRegister) (row : CounterState) :
    (fields c_csvDelim (rowLine counterCount row)).length = counterCount.toNat + 3 := by
  have hlength := congrArg List.length (fields_rowLine counterCount row)
  rwa [List.length_map, List.length_map, length_rowFields] at hlength

end Lines

/-- The rows of a table are as long as its header exactly when the recorder has all four columns, or
there are no rows. -/
theorem rectangular_iff (counterCount : CounterRegister) (rows : List CounterState) :
    (∀ line ∈ rows.map (rowLine counterCount), (fields c_csvDelim line).length = 6) ↔
      counterCount = .four ∨ rows = [] := by
  constructor
  · intro h
    by_cases hrows : rows = []
    · exact .inr hrows
    · obtain ⟨row, rest, rfl⟩ := List.exists_cons_of_ne_nil hrows
      have hlength := h _ (List.mem_map_of_mem List.mem_cons_self)
      rw [length_fields_rowLine] at hlength
      have hfour : counterCount.toNat = CounterRegister.four.toNat := Nat.add_right_cancel hlength
      exact .inl (CounterRegister.toNat_injective hfour)
  · rintro (rfl | rfl) line hline
    · obtain ⟨row, _, rfl⟩ := List.mem_map.mp hline
      exact length_fields_rowLine .four row
    · exact absurd hline List.not_mem_nil

/-- After any run of a recorder, the text of a header and the rows is a sequence of whole lines: one
for the header, which names instructions, cycles and the four chosen events, and one for each
recorded row. The header names what the fields of a row count, as far as the row goes, and a row
goes as far as the recorder has columns. The rows are as long as the header exactly when that is
four columns, or there are no rows. Assumes: the chosen names have no delimiter and no line end, no
fatal error has been passed over, and the sizes of the vectors do not wrap. -/
theorem csvTable_fields {header : EventHeader}
    (hnames : ∀ register, PlainName (header.chosenEvents register)) {handler : FatalHandler}
    (handle : CounterHandle Snapshot) {operationCount : ℕ} {counterCount : CounterRegister}
    (hcommon : operationCount * 2 < 2 ^ 64)
    (hevents : operationCount * (counterCount.toNat + 1) < 2 ^ 64) {startState endState : Snapshot}
    {calls : List (RecorderCall Snapshot)} {m : Machine Event (CounterHandleRecorder Snapshot)}
    (hrun : (runCalls (RecorderCall.perform handler handle) calls).run
      (newRecorder operationCount counterCount startState endState) = .ok () m)
    (hnone : NoErrorIgnored handler m) :
    let log := calls.foldl (MeasurementLog.step handle operationCount) ⟨startState, []⟩
    ∃ text headerLine rowLines, printedTable header m = some text ∧
      text = (headerLine :: rowLines).flatMap (· ++ endl) ∧
      lines '\n' text = headerLine :: rowLines ∧
      fields c_csvDelim headerLine = headerFields header ∧
      (rowLines.map fun line ↦ (fields c_csvDelim headerLine).zip
          ((fields c_csvDelim line).map readDecimal)) =
        (log.rows.map fun row ↦ (labelledCounts header counterCount row).map fun count ↦
          (count.1, some count.2)) ∧
      (∀ line ∈ rowLines, (fields c_csvDelim line).length = 2 + (counterCount.toNat + 1)) ∧
      ((∀ line ∈ rowLines,
          (fields c_csvDelim line).length = (fields c_csvDelim headerLine).length) ↔
        counterCount = .four ∨ log.rows = []) := by
  intro log
  have hm := represents_runCalls handle hcommon hevents hrun hnone
  have htext : printedTable header m =
      some ((headerLine header :: log.rows.map (rowLine counterCount)).flatMap (· ++ endl)) := by
    rw [printedTable, printedText_eq hcommon hevents hm, Option.map_some, flatten_insertions,
      flatten_flatMap_rowInsertions, List.flatMap_cons]
  refine ⟨_, headerLine header, log.rows.map (rowLine counterCount), htext, rfl,
    lines_table hnames counterCount log.rows, fields_headerLine hnames, ?_, ?_, ?_⟩
  · rw [fields_headerLine hnames, List.map_map]
    refine List.map_congr_left fun row _ ↦ ?_
    rw [Function.comp_apply, fields_rowLine, ← zip_headerFields, List.zip_map_right]
    rfl
  · intro line hline
    obtain ⟨row, _, rfl⟩ := List.mem_map.mp hline
    rw [length_fields_rowLine]
    omega
  · rw [fields_headerLine hnames]
    exact rectangular_iff counterCount log.rows

/-- The fields of a table with two columns and one row, under the names `init` chooses. -/
theorem csvTable_fields_two :
    let m := after ((runCalls (RecorderCall.perform defaultFatalHandler differenceHandle)
      [.onStart 3, .onEnd 10]).run (newRecorder 2 .two 0 0))
    ∃ text, printedTable ⟨initialEvents⟩ m = some text ∧
      ∀ line ∈ (lines '\n' text).tail, (fields c_csvDelim line).length = 4 := by
  intro m
  have hnames : ∀ register, PlainName ((⟨initialEvents⟩ : EventHeader).chosenEvents register) := by
    decide +kernel
  have hrun : (runCalls (RecorderCall.perform defaultFatalHandler differenceHandle)
      [.onStart 3, .onEnd 10]).run (newRecorder 2 .two 0 0) = .ok () m :=
    eq_ok_of_returned (by decide +kernel)
  obtain ⟨text, headerLine, rowLines, htext, _, hlines, _, _, hlength, _⟩ :=
    csvTable_fields hnames differenceHandle (by decide) (by decide) hrun
      (.inl defaultFatalHandler_neverReturns)
  refine ⟨text, htext, fun line hline ↦ ?_⟩
  rw [hlines, List.tail_cons] at hline
  exact hlength line hline

/-- The Skylake excerpt with an event that has a delimiter in its name. -/
def delimiterExcerpt : ExcerptFile where
  filePath := skylakeExcerpt.filePath
  records := excerptRecord "L1,L2" "0xD1" "0x18" "0" :: skylakeExcerpt.records

/-- The number of fields in each line of the table printed for a header after one measurement. -/
def fieldCounts (header : EventHeader) (counterCount : CounterRegister) : Option (List ℕ) :=
  (printedTable header (after ((runCalls
    (RecorderCall.perform defaultFatalHandler differenceHandle) [.onStart 3, .onEnd 10]).run
      (newRecorder 1 counterCount 0 0)))).map fun text ↦
        (lines '\n' text).map fun line ↦ (fields c_csvDelim line).length

/-- With one column, a header of six fields stands above a row of three. With four, a chosen name
that has a delimiter inside gives the header a seventh. -/
theorem csvTable_not_rectangular :
    let reader := loadedReader (.ofExcerpts [delimiterExcerpt]) [skylakeLoad]
    let initialised := (init defaultFatalHandler 94 reader).run (.fresh .fresh)
    let chosen := (setCounter defaultFatalHandler .one "L1,L2").run (after initialised)
    returned initialised ∧ returned chosen ∧
      fieldCounts (after initialised).state.getEventHeader .one = some [6, 3] ∧
      fieldCounts (after chosen).state.getEventHeader .four = some [7, 6] := by
  decide +kernel

end PcmWrapper
