import Mathlib.Data.List.Lex
import PcmWrapper.JsonParsing

/-!
# What the parser returns and throws

The parser returns the value of a text that is JSON and throws for any other (`parse_correct`). It
throws nothing but `std::invalid_argument` with one of a few texts (`parse_failure`): the branch of
`to_unicode` for code points above the last one is never reached, and the bound `parse` gives for
the depth of the descent is never too small.

A value it returns is in good order (`canonical_of_parse`): the strings and the keys are UTF-8, the
numbers are finite, and an object has one member for each key, in key order.
-/

set_option autoImplicit false
set_option relaxedAutoImplicit false

namespace PcmWrapper

open Library

/-! ### What the parser throws -/

/-- The exceptions of the parser. -/
def IsParseError (exception : Exception) : Prop :=
  ∃ what, exception = .invalidArgument what ∧
    (what ∈ ["missing low surrogate", "missing high surrogate", "missing or wrong low surrogate"] ∨
      ∃ token, what = "parse error - unexpected " ++ shown token ∨
        ∃ type, what = "parse error - unexpected " ++ shown token ++ "; expected " ++
          tokenTypeName type)

theorem isParseError_of_expect {s : ParserState} {type : TokenType} {exception : Exception}
    (h : s.expect type = .error exception) : IsParseError exception := by
  unfold ParserState.expect at h
  split_ifs at h
  cases h
  exact ⟨_, rfl, Or.inr ⟨s.lastToken, Or.inr ⟨type, rfl⟩⟩⟩

theorem isParseError_of_unexpect {s : ParserState} {type : TokenType} {exception : Exception}
    (h : s.unexpect type = .error exception) : IsParseError exception := by
  unfold ParserState.unexpect at h
  split_ifs at h
  cases h
  exact ⟨_, rfl, Or.inr ⟨s.lastToken, Or.inl rfl⟩⟩

/-- A computation in two steps fails in one of them. -/
theorem except_bind_eq_error {χ α β : Type} {first : Except χ α} {next : α → Except χ β} {cause : χ}
    (h : (first >>= next) = .error cause) :
    first = .error cause ∨ ∃ a, first = .ok a ∧ next a = .error cause := by
  cases first with
  | error other =>
    cases h
    exact Or.inl rfl
  | ok a => exact Or.inr ⟨a, rfl, h⟩

/-- `to_unicode` fails only for a high surrogate whose partner is none. -/
theorem isParseError_of_toUnicode {codepoint1 codepoint2 : ℕ} {exception : Exception}
    (hlt : codepoint1 < 0x10000) (h : toUnicode codepoint1 codepoint2 = .error exception) :
    IsParseError exception := by
  have hbytes : ∀ codepoint, codepoint ≤ 0x10FFFF →
      codepointBytes codepoint ≠ .error exception := by
    intro codepoint hle
    unfold codepointBytes
    split_ifs <;> nofun
  rw [toUnicode] at h
  by_cases hhigh : IsHigh codepoint1
  · by_cases hlow : IsLow codepoint2
    · rw [if_pos hhigh, if_pos hlow] at h
      unfold IsHigh IsLow at *
      refine absurd h (hbytes _ ?_)
      rw [Nat.shiftLeft_eq]
      omega
    · rw [if_pos hhigh, if_neg hlow] at h
      cases h
      exact ⟨_, rfl, Or.inl (by decide)⟩
  · rw [if_neg hhigh] at h
    exact absurd h (hbytes _ (by omega))

/-- `get_string` fails only for surrogates. -/
theorem isParseError_of_getString {body : List Char} {exception : Exception}
    (h : getString body = .error exception) : IsParseError exception := by
  have hrest : ∀ {rest : List Char} {f : List Char → List Char},
      (getString rest = .error exception → IsParseError exception) →
      (do return f (← getString rest)) = .error exception → IsParseError exception := by
    intro rest f ih hbind
    rcases except_bind_eq_error hbind with herror | ⟨text, -, hpure⟩
    · exact ih herror
    · cases hpure
  fun_induction getString body with
  | case1 | case3 | case10 => cases h
  | case2 c rest hc ih => exact hrest ih h
  | case4 c hc escaped rest hescaped ih => exact hrest ih h
  | case5 | case7 =>
    cases h
    exact ⟨_, rfl, Or.inl (by decide)⟩
  | case6 c hc u hu d₁ d₂ d₃ d₄ codepoint hhigh backslash u' e₁ e₂ e₃ e₄ rest hpartner ih =>
    rcases except_bind_eq_error h with herror | ⟨bytes, -, hnext⟩
    · have hfour : [d₁, d₂, d₃, d₄].length ≤ 4 := Nat.le_refl 4
      exact isParseError_of_toUnicode (codepointOf_lt hfour) herror
    · exact hrest ih hnext
  | case8 =>
    cases h
    exact ⟨_, rfl, Or.inl (by decide)⟩
  | case9 c hc u hu d₁ d₂ d₃ d₄ rest codepoint hhigh hlow ih =>
    rcases except_bind_eq_error h with herror | ⟨bytes, -, hnext⟩
    · have hfour : [d₁, d₂, d₃, d₄].length ≤ 4 := Nat.le_refl 4
      exact isParseError_of_toUnicode (codepointOf_lt hfour) herror
    · exact hrest ih hnext

/-! ### The bound for the descent -/

/-- What is left to read: nothing behind an error or the end of the input. -/
def ParserState.left (s : ParserState) : ℕ :=
  if s.lastToken.type = .parseError ∨ s.lastToken.type = .endOfInput then 0
  else s.rest.length + 1

/-- What is left to read behind a token is not more than was in front of it. -/
theorem left_getToken_le (s : ParserState) : s.getToken.left ≤ s.rest.length := by
  rw [ParserState.left]
  by_cases hend : s.getToken.lastToken.type = .parseError ∨ s.getToken.lastToken.type = .endOfInput
  · rw [if_pos hend]
    exact Nat.zero_le _
  · rw [if_neg hend]
    rw [not_or] at hend
    have hscan : scan s.rest = (s.getToken.lastToken, s.getToken.rest) := rfl
    obtain ⟨hlexeme, gap, -, htext⟩ := isLexeme_of_scan hscan hend.1 hend.2
    obtain ⟨c, letters, hletters, -⟩ := exists_head_lexeme hlexeme
    have hlength := congrArg List.length htext
    rw [hletters] at hlength
    simp only [List.length_append, List.length_cons] at hlength
    omega

/-- Going past a lexeme leaves less to read. -/
theorem left_getToken_lt {s : ParserState} (h : IsLexeme s.lastToken) :
    s.getToken.left < s.left := by
  have hleft : s.left = s.rest.length + 1 := if_neg (not_or.mpr h.type_ne)
  rw [hleft]
  exact Nat.lt_succ_of_le (left_getToken_le s)

/-- Reading lexemes leaves less to read. -/
theorem left_lt_of_reads {tokens : List Token} {s s' : ParserState} (h : s.Reads tokens s')
    (hne : tokens ≠ []) (hlexemes : ∀ token ∈ tokens, IsLexeme token) : s'.left < s.left := by
  have hle : ∀ {tokens : List Token} {s : ParserState}, s.Reads tokens s' →
      (∀ token ∈ tokens, IsLexeme token) → s'.left ≤ s.left := by
    intro tokens
    induction tokens with
    | nil =>
      rintro s rfl -
      exact Nat.le_refl _
    | cons token tokens ih =>
      rintro s ⟨rfl, hreads⟩ hlexemes
      rw [List.forall_mem_cons] at hlexemes
      exact Nat.le_trans (ih hreads hlexemes.2) (Nat.le_of_lt (left_getToken_lt hlexemes.1))
  obtain ⟨token, rest, rfl⟩ := List.exists_cons_of_ne_nil hne
  obtain ⟨rfl, hreads⟩ := h
  rw [List.forall_mem_cons] at hlexemes
  exact Nat.lt_of_le_of_lt (hle hreads hlexemes.2) (left_getToken_lt hlexemes.1)

/-- Below a bound, a part of the parser throws nothing but parse errors. -/
def FailsWell {α : Type} (parseItem : ParserState → Except Exception (α × ParserState))
    (bound : ℕ) : Prop :=
  ∀ s exception, s.Scanned → s.left < bound → parseItem s = .error exception →
    IsParseError exception

/-- The loop throws nothing but parse errors. -/
theorem isParseError_of_parseSeparated {α β : Type}
    {parseItem : ParserState → Except Exception (α × ParserState)}
    {Item : List Token → α → Prop} (haccepts : Accepts parseItem Item)
    (hitem : ∀ tokens item, Item tokens item → tokens ≠ [] ∧ ∀ token ∈ tokens, IsLexeme token)
    {bound : ℕ} (hfails : FailsWell parseItem bound) {add : β → α → β} {depth : ℕ} {result : β}
    {s : ParserState} {exception : Exception} (hs : s.passSeparator.Scanned)
    (hbound : s.passSeparator.left < bound) (hdepth : s.passSeparator.left < depth)
    (h : parseSeparated parseItem add depth result s = .error exception) :
    IsParseError exception := by
  induction depth generalizing result s with
  | zero => exact absurd hdepth (Nat.not_lt_zero _)
  | succ depth ih =>
    rw [parseSeparated] at h
    rcases except_bind_eq_error h with herror | ⟨⟨item, between⟩, hok, hnext⟩
    · exact hfails _ _ hs hbound herror
    · obtain ⟨hscanned, tokens, htokens, hreads⟩ := haccepts _ _ _ hs hok
      obtain ⟨hne, hlexemes⟩ := hitem _ _ htokens
      have hless := left_lt_of_reads hreads hne hlexemes
      dsimp only at hnext
      by_cases hcomma : between.lastToken.type = .valueSeparator
      · rw [if_pos hcomma] at hnext
        have hpass : between.passSeparator = between.getToken := if_pos hcomma
        have hlexeme := hscanned.isLexeme (by simp [hcomma]) (by simp [hcomma])
        have hlast := left_getToken_lt hlexeme
        refine ih ?_ ?_ ?_ hnext <;> rw [hpass]
        · exact scanned_getToken between
        · omega
        · omega
      · rw [if_neg hcomma] at hnext
        cases hnext

/-- A list throws nothing but parse errors, behind its opening bracket. -/
theorem isParseError_of_list {α β : Type}
    {parseItem : ParserState → Except Exception (α × ParserState)}
    {Item : List Token → α → Prop} (haccepts : Accepts parseItem Item)
    (hitem : ∀ tokens item, Item tokens item → tokens ≠ [] ∧ ∀ token ∈ tokens, IsLexeme token)
    {depth : ℕ} (hfails : FailsWell parseItem depth) {add : β → α → β} {result : β}
    {closing : TokenType} {build : β → Json} {s : ParserState} {exception : Exception}
    (hs : s.Scanned) (hbound : s.left < depth)
    (h : (do
      s.unexpect .valueSeparator
      let (final, s) ← parseSeparated parseItem add depth result s
      s.expect closing
      return (build final, s.getToken)) = .error exception) : IsParseError exception := by
  rcases except_bind_eq_error h with herror | ⟨_, hcomma, h⟩
  · exact isParseError_of_unexpect herror
  rw [unexpect_eq_ok] at hcomma
  have hpass := passSeparator_of_ne hcomma
  rcases except_bind_eq_error h with herror | ⟨⟨final, between⟩, -, h⟩
  · exact isParseError_of_parseSeparated haccepts hitem hfails (hpass.symm ▸ hs)
      (hpass.symm ▸ hbound) (hpass.symm ▸ hbound) herror
  rcases except_bind_eq_error h with herror | ⟨_, -, hpure⟩
  · exact isParseError_of_expect herror
  · cases hpure

/-- The tokens of a member are lexemes. -/
theorem isLexeme_of_derivesMember (tokens : List Token) (member : String × Json)
    (h : DerivesMember tokens member) : tokens ≠ [] ∧ ∀ token ∈ tokens, IsLexeme token := by
  obtain ⟨m, hm, rfl, -⟩ := h
  exact ⟨nofun, List.forall_mem_cons.mpr ⟨.string (isBody_text m.key),
    List.forall_mem_cons.mpr ⟨.punctuation rfl, hm.isLexeme⟩⟩⟩

/-- The tokens of a value are lexemes, and there is at least one. -/
theorem isLexeme_of_derives (tokens : List Token) (value : Json) (h : Derives tokens value) :
    tokens ≠ [] ∧ ∀ token ∈ tokens, IsLexeme token := by
  obtain ⟨token, rest, rfl, -⟩ := h.exists_head
  exact ⟨nofun, h.isLexeme⟩

/-- A member of an object throws nothing but parse errors. -/
theorem failsWell_parseMember {parseValue : ParserState → Except Exception (Json × ParserState)}
    {bound : ℕ} (hvalue : FailsWell parseValue bound) :
    FailsWell (parseMember parseValue) bound := by
  intro s exception hs hbound h
  rw [parseMember] at h
  rcases except_bind_eq_error h with herror | ⟨_, hstring, h⟩
  · exact isParseError_of_expect herror
  rcases except_bind_eq_error h with herror | ⟨text, -, h⟩
  · exact isParseError_of_getString herror
  rcases except_bind_eq_error h with herror | ⟨_, hcolon, h⟩
  · exact isParseError_of_expect herror
  rw [expect_eq_ok] at hstring hcolon
  have hkey := left_getToken_lt (hs.isLexeme (by simp [hstring]) (by simp [hstring]))
  have hname := left_getToken_lt ((scanned_getToken s).isLexeme (by simp [hcolon])
    (by simp [hcolon]))
  rcases except_bind_eq_error h with herror | ⟨⟨value, between⟩, -, hpure⟩
  · exact hvalue _ _ (scanned_getToken _) (by omega) herror
  · cases hpure

/-- `parse_internal` throws nothing but parse errors, when less is left to read than the bound. -/
theorem failsWell_parseInternal (depth : ℕ) : FailsWell (parseInternal depth) depth := by
  induction depth with
  | zero =>
    intro s exception hs hbound
    exact absurd hbound (Nat.not_lt_zero _)
  | succ depth ih =>
    intro s exception hs hbound h
    rw [parseInternal] at h
    have hunexpected : (∃ token,
        exception = .invalidArgument ("parse error - unexpected " ++ shown token)) →
          IsParseError exception := by
      rintro ⟨token, htoken⟩
      exact ⟨_, htoken, Or.inr ⟨token, Or.inl rfl⟩⟩
    cases htype : s.lastToken.type with
    | beginObject =>
      have hless := left_getToken_lt (hs.isLexeme (by simp [htype]) (by simp [htype]))
      simp only [htype] at h
      by_cases hempty : s.getToken.lastToken.type = .endObject
      · rw [if_pos hempty] at h
        cases h
      rw [if_neg hempty] at h
      exact isParseError_of_list (accepts_parseMember (accepts_parseInternal depth))
        isLexeme_of_derivesMember (failsWell_parseMember ih) (scanned_getToken s) (by omega) h
    | beginArray =>
      have hless := left_getToken_lt (hs.isLexeme (by simp [htype]) (by simp [htype]))
      simp only [htype] at h
      by_cases hempty : s.getToken.lastToken.type = .endArray
      · rw [if_pos hempty] at h
        cases h
      rw [if_neg hempty] at h
      exact isParseError_of_list (accepts_parseInternal depth) isLexeme_of_derives ih
        (scanned_getToken s) (by omega) h
    | valueString =>
      simp only [htype] at h
      rcases except_bind_eq_error h with herror | ⟨_, -, hpure⟩
      · exact isParseError_of_getString herror
      · cases hpure
    | literalNull | literalTrue | literalFalse | valueUnsigned | valueInteger | valueFloat =>
      simp only [htype] at h
      cases h
    | _ =>
      simp only [htype] at h
      cases h
      exact hunexpected ⟨_, rfl⟩

/-- A text that is not accepted makes the parser throw `std::invalid_argument`, and nothing else: a
string with a surrogate that has no partner, or a token that is unexpected where it stands. -/
theorem parse_failure {text : String} {exception : Exception}
    (h : parse text = .error exception) : IsParseError exception := by
  rw [parse] at h
  rcases except_bind_eq_error h with herror | ⟨⟨result, s⟩, -, h⟩
  · exact failsWell_parseInternal _ _ _ (scanned_getToken _)
      (Nat.lt_succ_of_le (left_getToken_le _)) herror
  · rcases except_bind_eq_error h with herror | ⟨_, -, hpure⟩
    · exact isParseError_of_expect herror
    · cases hpure

/-- The parser is right about every text: it returns a value exactly when the text is JSON, behind
the byte order mark it may begin with, and has that value, and for a text that is no JSON it throws
one of its exceptions. -/
theorem parse_correct (text : String) :
    (∀ value, parse text = .ok value ↔ Denotes (withoutMark text.toList) value) ∧
      ((∀ value, ¬ Denotes (withoutMark text.toList) value) ↔
        ∃ exception, parse text = .error exception ∧ IsParseError exception) := by
  refine ⟨fun _ ↦ parse_eq_ok, ?_⟩
  constructor
  · intro hnone
    cases hparse : parse text with
    | error exception => exact ⟨exception, rfl, parse_failure hparse⟩
    | ok value => exact absurd (parse_eq_ok.mp hparse) (hnone value)
  · rintro ⟨exception, hparse, -⟩ value hvalue
    rw [← parse_eq_ok, hparse] at hvalue
    cases hvalue

/-! ### Values in good order -/

instance : IsStrictTotalOrder Char byteBefore where
  trichotomous first second hlt hgt := by
    unfold byteBefore at hlt hgt
    exact Char.ext (UInt32.toNat_inj.mp (by
      change first.toNat = second.toNat
      omega))
  irrefl first := Nat.lt_irrefl _
  trans _ _ _ := Nat.lt_trans

instance : IsStrictTotalOrder String keyBefore where
  trichotomous _ _ hlt hgt :=
    String.toList_inj.mp (Std.Trichotomous.trichotomous (r := List.Lex byteBefore) _ _ hlt hgt)
  irrefl first := irrefl_of (List.Lex byteBefore) first.toList
  trans _ _ _ := List.lex_trans Nat.lt_trans

/-- The text is UTF-8. -/
def IsUtf8 (text : String) : Prop := ∃ codepoints : List Char, text.toList = codepoints.flatMap utf8

/-- A value in good order. -/
inductive Json.Canonical : Json → Prop
  | null : Json.Canonical .null
  | boolean (value : Bool) : Json.Canonical (.boolean value)
  | number (n : Numeral) (h : n.magnitude < infinityBound) :
      Json.Canonical (.number (String.ofList n.text))
  | string {text : String} (h : IsUtf8 text) : Json.Canonical (.string text)
  | array {elements : List Json} (h : ∀ value ∈ elements, value.Canonical) :
      Json.Canonical (.array elements)
  | object {members : List (String × Json)} (hordered : Ordered keyBefore members)
      (hkeys : ∀ member ∈ members, IsUtf8 member.1)
      (hvalues : ∀ member ∈ members, member.2.Canonical) : Json.Canonical (.object members)

/-- The value of a string literal is UTF-8. -/
theorem isUtf8_value (s : StringLiteral) : IsUtf8 s.value := by
  refine ⟨s.pieces.map Piece.codepoint, ?_⟩
  rw [StringLiteral.value, String.toList_ofList, List.flatMap_map]

/-- The grammar has values in good order only. -/
theorem Derives.canonical {tokens : List Token} {value : Json} (h : Derives tokens value) :
    value.Canonical := by
  induction h with
  | null => exact .null
  | true => exact .boolean _
  | false => exact .boolean _
  | number n =>
    rw [Numeral.value]
    split_ifs with hlarge
    · exact .null
    · exact .number n (not_le.mp hlarge)
  | string s => exact .string (isUtf8_value s)
  | array elements h ih =>
    refine .array fun value hvalue ↦ ?_
    obtain ⟨element, helement, rfl⟩ := List.mem_map.mp hvalue
    exact ih element helement
  | object members h ih =>
    have hmember : ∀ member ∈ objectOf members, ∃ m ∈ members, (m.key.value, m.value) = member :=
      fun member hmember ↦ List.mem_map.mp (mem_of_mem_assignAll keyBefore hmember)
    refine .object (ordered_assignAll keyBefore _) ?_ ?_
    · intro member hobject
      obtain ⟨m, -, rfl⟩ := hmember member hobject
      exact isUtf8_value m.key
    · intro member hobject
      obtain ⟨m, hm, rfl⟩ := hmember member hobject
      exact ih m hm

/-- What the parser returns is in good order. -/
theorem canonical_of_parse {text : String} {value : Json} (h : parse text = .ok value) :
    value.Canonical := by
  obtain ⟨tokens, hderives, -⟩ := parse_eq_ok.mp h
  exact hderives.canonical

theorem canonical_of_parse_members : ∃ value,
    parse "\x7b\"b\": 1, \"a\": [\"\\u00e9\"], \"b\": 1e999\x7d" = .ok value ∧
      value.Canonical := by
  have hcanonical : ∀ text, (parse text).isOk → ∃ value, parse text = .ok value ∧
      value.Canonical := by
    intro text hok
    cases hparse : parse text with
    | error exception =>
      rw [hparse] at hok
      cases hok
    | ok value => exact ⟨value, rfl, canonical_of_parse hparse⟩
  exact hcanonical _ (by decide +kernel)

end PcmWrapper
