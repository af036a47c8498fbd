import PcmWrapper.CodeNumerals
import PcmWrapper.FailedLoads
import PcmWrapper.JsonResults

/-!
# Databases as texts

With the parser of the JSON library the reader can be followed from the text of a file to the events
in its map. `IsDatabase` says that a text is a database with certain records, in terms of the JSON
grammar and of the numerals in it, and a load succeeds exactly on such a text and merges exactly
these records (`run_loadCounters_eq_ok_iff`). Where a load fails, `loadCounters_failure` says why,
with which exception, and what it has merged by then.

The other way round, `parse_text` reads the text of a file of string records back, so that the
parser can stand where the excerpts of the shipped databases have a table of their texts
(`loadCounters_ofFiles`).
-/

set_option autoImplicit false
set_option relaxedAutoImplicit false

namespace PcmWrapper

open Library

/-- The files of a program, parsed as the JSON library does. -/
def Environment.ofFiles (readFile : String → Option String) : Environment := ⟨readFile, parse⟩

/-! ### What a load reads -/

/-- The JSON value is the record of an event: an object with the name, and with two texts that begin
with hexadecimal numerals for an `int`. -/
def IsRecord (record : Json) (counter : HwEvent) : Prop :=
  ∃ (hexaEventMask hexaUMask : String) (code : Decomposition hexaEventMask)
    (umask : Decomposition hexaUMask),
    record.member c_EventCode = some (.string hexaEventMask) ∧
    record.member c_UMask = some (.string hexaUMask) ∧
    record.member c_EventName = some (.string counter.name) ∧
    code.FitsInt ∧ umask.FitsInt ∧ counter = ⟨code.number, umask.number, counter.name, []⟩

/-- The text is JSON, and its elements are the records of the events. -/
def IsDatabase (text : String) (counters : List HwEvent) : Prop :=
  ∃ value, Denotes (withoutMark text.toList) value ∧ List.Forall₂ IsRecord value.elements counters

/-- `convert` returns the event of a record. -/
theorem convert_eq_ok_iff {record : Json} {counter : HwEvent} :
    convert record = .ok counter ↔ IsRecord record counter := by
  rw [convert_eq_ok]
  constructor
  · rintro ⟨hexaEventMask, hexaUMask, hcode, humask, hname, hcodeValue, humaskValue, hmodels⟩
    obtain ⟨code, hcodeFits, hcodeNumber⟩ := stoi_eq_ok.mp hcodeValue
    obtain ⟨umask, humaskFits, humaskNumber⟩ := stoi_eq_ok.mp humaskValue
    refine ⟨_, _, code, umask, hcode, humask, hname, hcodeFits, humaskFits, ?_⟩
    rw [hcodeNumber, humaskNumber, ← hmodels]
  · rintro ⟨hexaEventMask, hexaUMask, code, umask, hcode, humask, hname, hcodeFits, humaskFits,
      hcounter⟩
    rw [hcounter]
    exact ⟨_, _, hcode, humask, hname, stoi_eq_ok.mpr ⟨code, hcodeFits, rfl⟩,
      stoi_eq_ok.mpr ⟨umask, humaskFits, rfl⟩, rfl⟩

/-- Elements that all convert are the records of what they convert to. -/
theorem forall₂_isRecord_iff {elements : List Json} {counters : List HwEvent} :
    List.Forall₂ IsRecord elements counters ↔
      (∀ element ∈ elements, ∃ counter, convert element = .ok counter) ∧
        counters = elements.filterMap fun element ↦ (convert element).toOption := by
  induction elements generalizing counters with
  | nil => simp
  | cons element elements ih =>
    rw [List.forall₂_cons_left_iff, List.forall_mem_cons]
    constructor
    · rintro ⟨counter, rest, hrecord, hrest, rfl⟩
      rw [← convert_eq_ok_iff] at hrecord
      obtain ⟨hall, rfl⟩ := ih.mp hrest
      exact ⟨⟨⟨counter, hrecord⟩, hall⟩, by rw [List.filterMap_cons, hrecord]; rfl⟩
    · rintro ⟨⟨⟨counter, hrecord⟩, hall⟩, rfl⟩
      refine ⟨counter, _, convert_eq_ok_iff.mp hrecord, ih.mpr ⟨hall, rfl⟩, ?_⟩
      rw [List.filterMap_cons, hrecord]
      rfl

/-- The elements of a file are those of the value its text has. -/
theorem fileElements_ofFiles {readFile : String → Option String} {filePath : String}
    {elements : List Json} : fileElements (.ofFiles readFile) filePath = some elements ↔
      ∃ text value, readFile filePath = some text ∧ Denotes (withoutMark text.toList) value ∧
        value.elements = elements := by
  simp only [fileElements, Environment.ofFiles, Option.bind_eq_bind, Option.bind_eq_some_iff,
    Option.pure_def, Option.some.injEq, ← parse_eq_ok]
  refine exists_congr fun text ↦ ?_
  cases parse text <;> simp [Except.toOption]

/-- A file can be loaded when it has the text of a database, and its records are those of the
database. -/
theorem loadable_ofFiles {readFile : String → Option String} {filePath : String}
    {counters : List HwEvent} : Loadable (.ofFiles readFile) filePath ∧
        records (.ofFiles readFile) filePath = counters ↔
      ∃ text, readFile filePath = some text ∧ IsDatabase text counters := by
  rw [Loadable, records]
  constructor
  · rintro ⟨⟨elements, helements, hall⟩, rfl⟩
    obtain ⟨text, value, hread, hvalue, rfl⟩ := fileElements_ofFiles.mp helements
    rw [helements]
    exact ⟨text, hread, value, hvalue, forall₂_isRecord_iff.mpr ⟨hall, rfl⟩⟩
  · rintro ⟨text, hread, value, hvalue, hrecords⟩
    obtain ⟨hall, rfl⟩ := forall₂_isRecord_iff.mp hrecords
    have helements := fileElements_ofFiles.mpr ⟨text, value, hread, hvalue, rfl⟩
    rw [helements]
    exact ⟨⟨_, rfl, hall⟩, rfl⟩

/-- A load succeeds exactly on the text of a database, and then it has merged the records of the
database and nothing else. -/
theorem run_loadCounters_eq_ok_iff {handler : FatalHandler} {readFile : String → Option String}
    {filePath : String} {cpuModel : ℤ} {m final : Machine Event HwCounterJsonReader} :
    (loadCounters handler (.ofFiles readFile) filePath cpuModel).run m = .ok () final ↔
      ∃ text counters, readFile filePath = some text ∧ IsDatabase text counters ∧
        final = ⟨m.state.addCounters counters cpuModel, m.trace⟩ := by
  rw [run_loadCounters_eq_ok]
  constructor
  · rintro ⟨hloadable, rfl⟩
    obtain ⟨text, hread, hdatabase⟩ := loadable_ofFiles.mp ⟨hloadable, rfl⟩
    exact ⟨text, _, hread, hdatabase, rfl⟩
  · rintro ⟨text, counters, hread, hdatabase, rfl⟩
    obtain ⟨hloadable, rfl⟩ := loadable_ofFiles.mpr ⟨text, hread, hdatabase⟩
    exact ⟨hloadable, rfl⟩

/-- A loop over elements that fails has merged the records in front of the first element that is no
record. -/
theorem loadElements_failure {cpuModel : ℤ} {elements : List Json}
    {m m' : Machine Event HwCounterJsonReader} {cause : Interrupt Exception}
    (h : (loadElements cpuModel elements).run m = .error cause m') :
    ∃ earlier element later counters, elements = earlier ++ element :: later ∧
      List.Forall₂ IsRecord earlier counters ∧ convert element = .error cause ∧
      m' = ⟨m.state.addCounters counters cpuModel, m.trace⟩ := by
  induction elements generalizing m with
  | nil => cases h
  | cons element elements ih =>
    rw [loadElements] at h
    cases hconvert : convert element with
    | error other =>
      rw [hconvert, run_bind_of_error (run_fromExcept_error other m)] at h
      cases h
      exact ⟨[], element, elements, [], rfl, .nil, hconvert, rfl⟩
    | ok counter =>
      rw [hconvert, run_bind_of_ok (run_fromExcept_ok counter m),
        run_bind_of_ok (run_modifyState _ m)] at h
      obtain ⟨earlier, failing, later, counters, rfl, hearlier, hfailing, rfl⟩ := ih h
      exact ⟨element :: earlier, failing, later, counter :: counters, rfl,
        .cons (convert_eq_ok_iff.mp hconvert) hearlier, hfailing, rfl⟩

/-- Why a load fails, with which exception, and what it has merged by then. The file does not open;
or its text is no JSON; or the text is JSON and has an element that is no record, and the records in
front of it are merged. -/
theorem loadCounters_failure {handler : FatalHandler} {readFile : String → Option String}
    {filePath : String} {cpuModel : ℤ} {m m' : Machine Event HwCounterJsonReader}
    {cause : Interrupt Exception}
    (h : (loadCounters handler (.ofFiles readFile) filePath cpuModel).run m = .error cause m') :
    (readFile filePath = none ∧
      m' = afterFatalError (cString ("Could not open file " ++ filePath)) m ∧
      cause = match handler (cString ("Could not open file " ++ filePath)) with
        | .terminates => .terminated
        | .throws => .thrown (.fatal (cString ("Could not open file " ++ filePath)))
        | .returns => .thrown (.invalidArgument "stream error")) ∨
    (∃ text, readFile filePath = some text ∧
      (∀ value, ¬ Denotes (withoutMark text.toList) value) ∧
      (∃ exception, cause = .thrown exception ∧ IsParseError exception) ∧ m' = m) ∨
    ∃ text value earlier element later counters, readFile filePath = some text ∧
      Denotes (withoutMark text.toList) value ∧ value.elements = earlier ++ element :: later ∧
      List.Forall₂ IsRecord earlier counters ∧ (∀ counter, ¬ IsRecord element counter) ∧
      convert element = .error cause ∧
      m' = ⟨m.state.addCounters counters cpuModel, m.trace⟩ := by
  rw [loadCounters] at h
  cases hread : readFile filePath with
  | none =>
    have hnone : (Environment.ofFiles readFile).readFile filePath = none := hread
    refine Or.inl ⟨rfl, ?_⟩
    simp only [hnone, EStateM.run_bind, run_handleFatalError] at h
    cases hout : handler (cString ("Could not open file " ++ filePath)) <;> rw [hout] at h <;>
      cases h <;> exact ⟨rfl, rfl⟩
  | some text =>
    refine Or.inr ?_
    have hsome : (Environment.ofFiles readFile).readFile filePath = some text := hread
    simp only [hsome] at h
    cases hparse : parse text with
    | error exception =>
      have hthrown : (Environment.ofFiles readFile).parseJson text = .error exception := hparse
      simp only [hthrown] at h
      cases h
      refine Or.inl ⟨text, rfl, fun value hvalue ↦ ?_, ⟨exception, rfl, parse_failure hparse⟩, rfl⟩
      rw [← parse_eq_ok, hparse] at hvalue
      cases hvalue
    | ok value =>
      have hok : (Environment.ofFiles readFile).parseJson text = .ok value := hparse
      simp only [hok] at h
      obtain ⟨earlier, element, later, counters, helements, hearlier, hfailing, hm'⟩ :=
        loadElements_failure h
      refine Or.inr ⟨text, value, earlier, element, later, counters, rfl, parse_eq_ok.mp hparse,
        helements, hearlier, fun counter hrecord ↦ ?_, hfailing, hm'⟩
      rw [← convert_eq_ok_iff, hfailing] at hrecord
      cases hrecord

theorem loadCounters_failure_number : ∃ value element,
    Denotes (withoutMark "[7]".toList) value ∧ element ∈ value.elements ∧
      ∀ counter, ¬ IsRecord element counter := by
  have hthrown : thrown? ((loadCounters defaultFatalHandler (.ofFiles fun _ ↦ some "[7]")
      "skylake.json" 94).run (.fresh .empty)) =
        some (.domainError "cannot use operator[] with number") := by
    decide +kernel
  rcases loadCounters_failure (eq_error_of_thrown hthrown) with ⟨hnone, -⟩ |
    ⟨text, -, -, ⟨exception, hcause, what, hwhat, -⟩, -⟩ |
    ⟨text, value, earlier, element, later, counters, htext, hvalue, helements, -, hrecord, -⟩
  · cases hnone
  · rw [hwhat] at hcause
    cases hcause
  · cases htext
    exact ⟨value, element, hvalue, by simp [helements], hrecord⟩

/-! ### Texts of string records -/

/-- The text can stand between quotation marks as it is: UTF-8 without control characters,
quotation marks and backslashes. -/
def IsUnescaped (text : String) : Prop :=
  ∃ codepoints : List Char, text.toList = codepoints.flatMap utf8 ∧
    ∀ c ∈ codepoints, 0x20 ≤ c.toNat ∧ c ≠ '"' ∧ c ≠ '\\'

/-- The members of the records are in key order, and all their texts can stand as they are. -/
def ExcerptFile.IsPlain (file : ExcerptFile) : Prop :=
  ∀ r ∈ file.records, Ordered keyBefore r ∧ ∀ m ∈ r, IsUnescaped m.1 ∧ IsUnescaped m.2

/-- Printable characters of ASCII can stand as they are. -/
theorem isUnescaped_of_ascii {text : String}
    (h : ∀ c ∈ text.toList, 0x20 ≤ c.toNat ∧ c.toNat < 0x80 ∧ c ≠ '"' ∧ c ≠ '\\') :
    IsUnescaped text := by
  refine ⟨text.toList, ?_, fun c hc ↦ ⟨(h c hc).1, (h c hc).2.2⟩⟩
  have hbytes : ∀ {chars : List Char}, (∀ c ∈ chars, c.toNat < 0x80) →
      chars = chars.flatMap utf8 := by
    intro chars hchars
    induction chars with
    | nil => rfl
    | cons c chars ih =>
      rw [List.forall_mem_cons] at hchars
      rw [List.flatMap_cons, utf8_of_lt hchars.1, ← ih hchars.2, List.singleton_append]
  exact hbytes fun c hc ↦ (h c hc).2.1

/-- The literal of a text that can stand as it is. -/
theorem exists_literal {text : String} (h : IsUnescaped text) :
    ∃ literal : StringLiteral, literal.text = text.toList ∧ literal.value = text := by
  obtain ⟨codepoints, htext, hplain⟩ := h
  have hpieces : ∃ pieces : List Piece, pieces.flatMap Piece.text = codepoints.flatMap utf8 ∧
      (pieces.flatMap fun piece ↦ utf8 piece.codepoint) = codepoints.flatMap utf8 := by
    clear htext
    induction codepoints with
    | nil => exact ⟨[], rfl, rfl⟩
    | cons c codepoints ih =>
      rw [List.forall_mem_cons] at hplain
      obtain ⟨hlow, hquote, hbackslash⟩ := hplain.1
      obtain ⟨pieces, hpieces, hvalue⟩ := ih hplain.2
      refine ⟨.unescaped c hlow hquote hbackslash :: pieces, ?_, ?_⟩
      · rw [List.flatMap_cons, List.flatMap_cons, hpieces, Piece.text]
      · rw [List.flatMap_cons, List.flatMap_cons, hvalue, Piece.codepoint]
  obtain ⟨pieces, hpieces, hvalue⟩ := hpieces
  refine ⟨⟨pieces⟩, hpieces.trans htext.symm, ?_⟩
  rw [StringLiteral.value, hvalue, ← htext, String.ofList_toList]

/-- The text stands for the tokens, whatever stands behind it. -/
def Writes (text : List Char) (tokens : List Token) : Prop :=
  ∀ ⦃rest : List Char⦄ ⦃others : List Token⦄, Spells others rest →
    Spells (tokens ++ others) (text ++ rest)

theorem writes_token (token : Token) : Writes token.text [token] :=
  fun rest _ hrest ↦ ⟨[], rest, nofun, rfl, hrest⟩

/-- Texts one behind the other stand for their tokens one behind the other. -/
theorem Writes.append {first second : List Char} {tokens others : List Token}
    (hfirst : Writes first tokens) (hsecond : Writes second others) :
    Writes (first ++ second) (tokens ++ others) := by
  intro rest more hrest
  rw [List.append_assoc, List.append_assoc]
  exact hfirst (hsecond hrest)

/-- A blank in front of a text. -/
theorem Writes.blank {text : List Char} {token : Token} {tokens : List Token}
    (h : Writes text (token :: tokens)) : Writes (' ' :: text) (token :: tokens) := by
  intro rest others hrest
  obtain ⟨gap, behind, hgap, htext, hbehind⟩ := h hrest
  refine ⟨' ' :: gap, behind, List.forall_mem_cons.mpr ⟨rfl, hgap⟩, ?_, hbehind⟩
  rw [List.cons_append, htext, List.cons_append]

/-- Texts with commas between them. -/
theorem writes_intercalate {texts : List (List Char)} {lists : List (List Token)}
    (h : List.Forall₂ (fun text tokens ↦ Writes text tokens ∧ tokens ≠ []) texts lists) :
    Writes ([',', ' '].intercalate texts) (separated lists) := by
  induction h with
  | nil => exact fun rest others hrest ↦ hrest
  | @cons text tokens texts lists hfirst hothers ih =>
    cases hothers with
    | nil =>
      rw [List.intercalate_singleton, separated, List.flatMap_nil, List.append_nil]
      exact hfirst.1
    | @cons second others texts lists hsecond hothers =>
      obtain ⟨token, more, rfl⟩ := List.exists_cons_of_ne_nil hsecond.2
      rw [separated_cons_cons, List.intercalate_cons_cons, List.append_assoc]
      exact hfirst.1.append ((writes_token ⟨.valueSeparator, [',']⟩).append ih.blank)

/-- The text of a member of a record. -/
def memberText (m : String × String) : String := "\"" ++ m.1 ++ "\": \"" ++ m.2 ++ "\""

/-- The text of a record. -/
def recordText (r : List (String × String)) : String :=
  "\x7b" ++ String.intercalate ", " (r.map memberText) ++ "\x7d"

theorem ExcerptFile.text_eq (file : ExcerptFile) :
    file.text = "[" ++ String.intercalate ", " (file.records.map recordText) ++ "]" := rfl

/-- A member, in the words of the grammar. -/
theorem exists_member {m : String × String} (hkey : IsUnescaped m.1) (hvalue : IsUnescaped m.2) :
    ∃ member : MemberText, (member.key.value, member.value) = (m.1, Json.string m.2) ∧
      Derives member.tokens member.value ∧ Writes (memberText m).toList member.all := by
  obtain ⟨key, hkeyText, hkeyValue⟩ := exists_literal hkey
  obtain ⟨value, hvalueText, hvalueValue⟩ := exists_literal hvalue
  refine ⟨⟨key, [value.token], .string value.value⟩, ?_, .string value, ?_⟩
  · rw [hkeyValue, hvalueValue]
  · have htext : (memberText m).toList =
        key.token.text ++ ([':'] ++ (' ' :: value.token.text)) := by
      simp [memberText, StringLiteral.token, hkeyText, hvalueText]
    rw [htext]
    exact (writes_token key.token).append ((writes_token ⟨.nameSeparator, [':']⟩).append
      (writes_token value.token).blank)

/-- A record with its members in key order, in the words of the grammar. -/
theorem exists_record {r : List (String × String)} (hordered : Ordered keyBefore r)
    (hplain : ∀ m ∈ r, IsUnescaped m.1 ∧ IsUnescaped m.2) : ∃ tokens,
      Derives tokens (.object (r.map fun m ↦ (m.1, .string m.2))) ∧
      Writes (recordText r).toList tokens ∧ tokens ≠ [] := by
  have hmembers : ∃ members : List MemberText,
      members.map (fun m ↦ (m.key.value, m.value)) = r.map (fun m ↦ (m.1, .string m.2)) ∧
      (∀ m ∈ members, Derives m.tokens m.value) ∧
      List.Forall₂ (fun text tokens ↦ Writes text tokens ∧ tokens ≠ [])
        ((r.map memberText).map String.toList) (members.map MemberText.all) := by
    clear hordered
    induction r with
    | nil => exact ⟨[], rfl, List.forall_mem_nil _, .nil⟩
    | cons m r ih =>
      rw [List.forall_mem_cons] at hplain
      obtain ⟨members, hvalues, hderives, hwrites⟩ := ih hplain.2
      obtain ⟨member, hvalue, hderive, hwrite⟩ := exists_member hplain.1.1 hplain.1.2
      refine ⟨member :: members, ?_, List.forall_mem_cons.mpr ⟨hderive, hderives⟩,
        .cons ⟨hwrite, List.cons_ne_nil _ _⟩ hwrites⟩
      rw [List.map_cons, List.map_cons, hvalue, hvalues]
  obtain ⟨members, hvalues, hderives, hwrites⟩ := hmembers
  have hobject : objectOf members = r.map fun m ↦ (m.1, .string m.2) := by
    rw [objectOf, hvalues]
    exact assignAll_of_ordered keyBefore (List.pairwise_map.mpr hordered)
  rw [← hobject]
  refine ⟨_, .object members hderives, ?_, List.cons_ne_nil _ _⟩
  have htext : (recordText r).toList =
      ['\x7b'] ++ ([',', ' '].intercalate ((r.map memberText).map String.toList) ++ ['\x7d']) := by
    rw [recordText, String.toList_append, String.toList_append, String.toList_intercalate,
      List.append_assoc]
    rfl
  rw [htext]
  exact (writes_token ⟨.beginObject, ['\x7b']⟩).append
    ((writes_intercalate hwrites).append (writes_token ⟨.endObject, ['\x7d']⟩))

/-- The parser reads the text of a file of string records back. Assumes: the members of the records
are in key order, and their texts need no escapes. -/
theorem parse_text {file : ExcerptFile} (h : file.IsPlain) : parse file.text = .ok file.json := by
  have hrecords : ∃ elements : List (List Token × Json),
      elements.map Prod.snd =
        file.records.map (fun r ↦ .object (r.map fun m ↦ (m.1, .string m.2))) ∧
      (∀ e ∈ elements, Derives e.1 e.2) ∧
      List.Forall₂ (fun text tokens ↦ Writes text tokens ∧ tokens ≠ [])
        ((file.records.map recordText).map String.toList) (elements.map Prod.fst) := by
    rw [ExcerptFile.IsPlain] at h
    generalize file.records = records at h
    induction records with
    | nil => exact ⟨[], rfl, nofun, .nil⟩
    | cons r records ih =>
      rw [List.forall_mem_cons] at h
      obtain ⟨elements, hvalues, hderives, hwrites⟩ := ih h.2
      obtain ⟨tokens, hderive, hwrite⟩ := exists_record h.1.1 h.1.2
      refine ⟨(tokens, _) :: elements, ?_, List.forall_mem_cons.mpr ⟨hderive, hderives⟩,
        .cons hwrite hwrites⟩
      rw [List.map_cons, List.map_cons, hvalues]
  obtain ⟨elements, hvalues, hderives, hwrites⟩ := hrecords
  have htext : file.text.toList = ['['] ++ ([',', ' '].intercalate
      ((file.records.map recordText).map String.toList) ++ [']']) := by
    rw [ExcerptFile.text_eq, String.toList_append, String.toList_append, String.toList_intercalate,
      List.append_assoc]
    rfl
  have hwhole := (writes_token ⟨.beginArray, ['[']⟩).append
    ((writes_intercalate hwrites).append (writes_token ⟨.endArray, [']']⟩))
  have hmark : withoutMark file.text.toList = file.text.toList := by
    rw [htext]
    exact if_neg Bool.false_ne_true
  rw [parse_eq_ok, hmark, htext, ExcerptFile.json, ← hvalues]
  refine ⟨_, .array elements hderives, ?_⟩
  have hspells := @hwhole [] [] ⟨[], [], nofun, rfl, nofun⟩
  rwa [List.append_nil, List.append_nil] at hspells

/-- Where the files are excerpts, the parser reads them as the table of their texts does. Assumes:
the members of the records are in key order, and their texts need no escapes. -/
theorem loadCounters_ofFiles {files : List ExcerptFile} (h : ∀ file ∈ files, file.IsPlain)
    (handler : FatalHandler) (filePath : String) (cpuModel : ℤ) :
    loadCounters handler (.ofFiles (Environment.ofExcerpts files).readFile) filePath cpuModel =
      loadCounters handler (.ofExcerpts files) filePath cpuModel := by
  have hread : (Environment.ofFiles (Environment.ofExcerpts files).readFile).readFile filePath =
      (Environment.ofExcerpts files).readFile filePath := rfl
  have hfile : (Environment.ofExcerpts files).readFile filePath =
      (files.find? (·.filePath = filePath)).map ExcerptFile.text := rfl
  rw [loadCounters, loadCounters, hread, hfile]
  cases hfound : files.find? (·.filePath = filePath) with
  | none => rfl
  | some file =>
    have hmem := List.mem_of_find?_eq_some hfound
    have hparse : (Environment.ofFiles
        (Environment.ofExcerpts files).readFile).parseJson file.text = .ok file.json :=
      parse_text (h file hmem)
    -- the table has a file with the same text, and so with the same value
    have htable : (Environment.ofExcerpts files).parseJson file.text = .ok file.json := by
      cases hother : files.find? (·.text = file.text) with
      | none => exact absurd (decide_eq_true rfl) (List.find?_eq_none.mp hother file hmem)
      | some other =>
        have htext : other.text = file.text := by simpa using List.find?_some hother
        have hvalue := parse_text (h other (List.mem_of_find?_eq_some hother))
        rw [htext, parse_text (h file hmem)] at hvalue
        simp only [Environment.ofExcerpts, hother]
        exact hvalue.symm
    simp only [Option.map_some, hparse, htable]

/-- The excerpts of the shipped databases need no escapes. -/
theorem isPlain_excerpts :
    ∀ file ∈ [haswellExcerpt, ivybridgeExcerpt, skylakeExcerpt], file.IsPlain := by
  have hordered : ∀ file ∈ [haswellExcerpt, ivybridgeExcerpt, skylakeExcerpt],
      ∀ r ∈ file.records, Ordered keyBefore r := by
    decide +kernel
  have hascii : ∀ file ∈ [haswellExcerpt, ivybridgeExcerpt, skylakeExcerpt],
      ∀ r ∈ file.records, (r.flatMap fun m ↦ m.1.toList ++ m.2.toList).all fun c ↦
        0x20 ≤ c.toNat ∧ c.toNat < 0x80 ∧ c ≠ '"' ∧ c ≠ '\\' := by
    decide +kernel
  refine fun file hfile r hr ↦ ⟨hordered file hfile r hr, fun m hm ↦ ?_⟩
  have hmember : ∀ c ∈ m.1.toList ++ m.2.toList, _ := fun c hc ↦ of_decide_eq_true
    (List.all_eq_true.mp (hascii file hfile r hr) c (List.mem_flatMap_of_mem hm hc))
  exact ⟨isUnescaped_of_ascii fun c hc ↦ hmember c (List.mem_append_left _ hc),
    isUnescaped_of_ascii fun c hc ↦ hmember c (List.mem_append_right _ hc)⟩

/-- The parser reads the excerpts as the table of their texts does. -/
theorem loadCounters_ofFiles_excerpts :
    loadCounters defaultFatalHandler (.ofFiles excerptFiles.readFile) skylakeExcerpt.filePath 94 =
      loadCounters defaultFatalHandler excerptFiles skylakeExcerpt.filePath 94 :=
  loadCounters_ofFiles isPlain_excerpts defaultFatalHandler skylakeExcerpt.filePath 94

end PcmWrapper
