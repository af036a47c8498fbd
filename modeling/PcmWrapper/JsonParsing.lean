import Mathlib.Data.List.Chain
import PcmWrapper.JsonGrammar

/-!
# What the parser accepts

The parser returns a value for a text exactly when the text is JSON and has that value
(`parse_eq_ok`). `Reads` says which tokens a part of the parser goes past, from the token it finds
to the one it leaves, and every function of the parser is described by the tokens it reads: what it
returns comes with a derivation over these tokens, and on the tokens of a derivation it returns the
value. Both are inductions along the source's recursion, on the depth of the descent, with one lemma
for the loop the objects and the arrays share.

From tokens to the text it is one step for each token, with the scanner's lemmas. A number ends
where the text does not go on with it, and in JSON no number stands directly behind another.
-/

set_option autoImplicit false
set_option relaxedAutoImplicit false

namespace PcmWrapper

open Library

/-! ### Reading tokens -/

/-- The tokens from the last one on are these, and the given state is the one behind them. -/
def ParserState.Reads : ParserState → List Token → ParserState → Prop
  | s, [], s' => s = s'
  | s, token :: tokens, s' => s.lastToken = token ∧ s.getToken.Reads tokens s'

/-- The last token comes from the scanner. -/
def ParserState.Scanned (s : ParserState) : Prop := ∃ text, scan text = (s.lastToken, s.rest)

theorem scanned_getToken (s : ParserState) : s.getToken.Scanned := ⟨s.rest, rfl⟩

theorem reads_append {first second : List Token} {s s' : ParserState} :
    s.Reads (first ++ second) s' ↔ ∃ between, s.Reads first between ∧ between.Reads second s' := by
  induction first generalizing s with
  | nil => exact ⟨fun h ↦ ⟨s, rfl, h⟩, fun ⟨_, heq, h⟩ ↦ heq ▸ h⟩
  | cons token first ih =>
    rw [List.cons_append, ParserState.Reads, ih]
    exact ⟨fun ⟨htoken, between, h⟩ ↦ ⟨between, ⟨htoken, h.1⟩, h.2⟩,
      fun ⟨between, ⟨htoken, h⟩, h'⟩ ↦ ⟨htoken, between, h, h'⟩⟩

/-- The text of the tokens that have no other. -/
def fixedText : TokenType → Option (List Char)
  | .literalTrue => some ['t', 'r', 'u', 'e']
  | .literalFalse => some ['f', 'a', 'l', 's', 'e']
  | .literalNull => some ['n', 'u', 'l', 'l']
  | .beginArray => some ['[']
  | .beginObject => some ['\x7b']
  | .endArray => some [']']
  | .endObject => some ['\x7d']
  | .nameSeparator => some [':']
  | .valueSeparator => some [',']
  | _ => none

theorem numeral_type (n : Numeral) : n.type.IsNumber := by
  unfold Numeral.type TokenType.IsNumber
  split_ifs <;> simp

/-- A lexeme with a fixed text has that text. -/
theorem IsLexeme.text_eq {token : Token} (h : IsLexeme token) {text : List Char}
    (htext : fixedText token.type = some text) : token.text = text := by
  cases h with
  | punctuation h =>
    rcases punctuation_eq_some h with ⟨rfl, rfl⟩ | ⟨rfl, rfl⟩ | ⟨rfl, rfl⟩ | ⟨rfl, rfl⟩ |
      ⟨rfl, rfl⟩ | ⟨rfl, rfl⟩ <;> exact Option.some.inj htext
  | literal h =>
    rcases literal_eq_some h with ⟨rfl, rfl, rfl⟩ | ⟨rfl, rfl, rfl⟩ | ⟨rfl, rfl, rfl⟩ <;>
      exact Option.some.inj htext
  | number n =>
    have hnone : fixedText n.type = none := by
      rcases numeral_type n with h | h | h <;> rw [h] <;> rfl
    exact absurd (hnone.symm.trans htext) nofun
  | string h => cases htext

/-- The last token is a lexeme when it is of a type that lexemes have. -/
theorem ParserState.Scanned.isLexeme {s : ParserState} (h : s.Scanned)
    (herror : s.lastToken.type ≠ .parseError) (hend : s.lastToken.type ≠ .endOfInput) :
    IsLexeme s.lastToken := by
  obtain ⟨text, hscan⟩ := h
  exact (isLexeme_of_scan hscan herror hend).1

/-- A last token of a type with a fixed text. -/
theorem ParserState.Scanned.lastToken_eq {s : ParserState} (h : s.Scanned) {type : TokenType}
    {text : List Char} (htype : s.lastToken.type = type) (htext : fixedText type = some text) :
    s.lastToken = ⟨type, text⟩ := by
  have hlexeme : IsLexeme s.lastToken := by
    refine h.isLexeme ?_ ?_ <;> rw [htype] <;> rintro rfl <;> cases htext
  have htoken : s.lastToken.text = text := hlexeme.text_eq (by rw [htype]; exact htext)
  rw [← htype, ← htoken]

/-- A last token that is a number. -/
theorem ParserState.Scanned.exists_numeral {s : ParserState} (h : s.Scanned)
    (htype : s.lastToken.type.IsNumber) : ∃ n : Numeral, s.lastToken = n.token := by
  have hne : s.lastToken.type ≠ .parseError ∧ s.lastToken.type ≠ .endOfInput := by
    rcases htype with htype | htype | htype <;> rw [htype] <;> exact ⟨nofun, nofun⟩
  have hlexeme := h.isLexeme hne.1 hne.2
  generalize s.lastToken = token at *
  cases hlexeme with
  | punctuation h =>
    rcases punctuation_eq_some h with h | h | h | h | h | h <;> rw [h.2] at htype <;>
      rcases htype with hn | hn | hn <;> cases hn
  | literal h =>
    rcases literal_eq_some h with h | h | h <;> rw [h.2.2] at htype <;>
      rcases htype with hn | hn | hn <;> cases hn
  | number n => exact ⟨n, rfl⟩
  | string h => rcases htype with hn | hn | hn <;> cases hn

/-- A last token that is a string. -/
theorem ParserState.Scanned.exists_body {s : ParserState} (h : s.Scanned)
    (htype : s.lastToken.type = .valueString) :
    ∃ body, IsBody body ∧ s.lastToken = ⟨.valueString, '"' :: (body ++ ['"'])⟩ := by
  have hlexeme := h.isLexeme (by rw [htype]; nofun) (by rw [htype]; nofun)
  generalize s.lastToken = token at *
  cases hlexeme with
  | punctuation h =>
    rcases punctuation_eq_some h with h | h | h | h | h | h <;> rw [h.2] at htype <;> cases htype
  | literal h => rcases literal_eq_some h with h | h | h <;> rw [h.2.2] at htype <;> cases htype
  | number n =>
    rcases numeral_type n with hn | hn | hn <;> rw [hn] at htype <;> cases htype
  | @string body h => exact ⟨body, h, rfl⟩

@[simp] theorem body_token (s : StringLiteral) : s.token.body = s.text := by
  simp [StringLiteral.token, Token.body]

/-- A last token that is a string for which `get_string` returns. -/
theorem ParserState.Scanned.exists_literal {s : ParserState} (h : s.Scanned)
    (htype : s.lastToken.type = .valueString) {text : List Char}
    (htext : getString s.lastToken.body = .ok text) :
    ∃ literal : StringLiteral,
      s.lastToken = literal.token ∧ String.ofList text = literal.value := by
  obtain ⟨body, hbody, hlast⟩ := h.exists_body htype
  have hbodyEq : s.lastToken.body = body := by simp [hlast, Token.body]
  rw [hbodyEq] at htext
  obtain ⟨literal, rfl⟩ := exists_literal_of_getString hbody htext
  rw [getString_text] at htext
  cases htext
  exact ⟨literal, hlast, String.ofList_toList⟩

/-! ### What the parser returns is derived -/

variable {α β : Type}

@[simp] theorem expect_eq_ok {s : ParserState} {type : TokenType} {u : Unit} :
    s.expect type = .ok u ↔ s.lastToken.type = type := by
  unfold ParserState.expect
  by_cases h : type = s.lastToken.type
  · simp [h]
  · simp [h, Ne.symm h]

@[simp] theorem unexpect_eq_ok {s : ParserState} {type : TokenType} {u : Unit} :
    s.unexpect type = .ok u ↔ s.lastToken.type ≠ type := by
  unfold ParserState.unexpect
  by_cases h : type = s.lastToken.type
  · simp [h]
  · simp [h, Ne.symm h]

/-- A comma between the first of some lists and the others. -/
theorem separated_cons_cons (first second : List Token) (others : List (List Token)) :
    separated (first :: second :: others) =
      first ++ ⟨.valueSeparator, [',']⟩ :: separated (second :: others) := by
  simp [separated]

/-- What a part of the parser returns comes with the tokens it has read. -/
def Accepts (parseItem : ParserState → Except Exception (α × ParserState))
    (Item : List Token → α → Prop) : Prop :=
  ∀ s item s', s.Scanned → parseItem s = .ok (item, s') →
    s'.Scanned ∧ ∃ tokens, Item tokens item ∧ s.Reads tokens s'

/-- The loop returns the items it has read, and stops in front of a token that is no comma. -/
theorem parseSeparated_sound {parseItem : ParserState → Except Exception (α × ParserState)}
    {Item : List Token → α → Prop} (haccepts : Accepts parseItem Item) {add : β → α → β}
    {depth : ℕ} {result final : β} {s s' : ParserState} (hs : s.passSeparator.Scanned)
    (h : parseSeparated parseItem add depth result s = .ok (final, s')) :
    s'.Scanned ∧ s'.lastToken.type ≠ .valueSeparator ∧ ∃ items : List (List Token × α),
      items ≠ [] ∧ (∀ item ∈ items, Item item.1 item.2) ∧
      final = (items.map Prod.snd).foldl add result ∧
      s.passSeparator.Reads (separated (items.map Prod.fst)) s' := by
  induction depth generalizing result s with
  | zero => cases h
  | succ depth ih =>
    rw [parseSeparated, except_bind_eq_ok] at h
    obtain ⟨⟨item, between⟩, hitem, hrest⟩ := h
    obtain ⟨hscanned, tokens, htokens, hreads⟩ := haccepts _ _ _ hs hitem
    dsimp only at hrest
    by_cases hcomma : between.lastToken.type = .valueSeparator
    · rw [if_pos hcomma] at hrest
      have hpass : between.passSeparator = between.getToken := if_pos hcomma
      obtain ⟨hs', hend, items, hne, hitems, hfinal, hothers⟩ :=
        ih (hpass ▸ scanned_getToken between) hrest
      refine ⟨hs', hend, (tokens, item) :: items, nofun, ?_, hfinal, ?_⟩
      · exact List.forall_mem_cons.mpr ⟨htokens, hitems⟩
      · obtain ⟨second, others, rfl⟩ := List.exists_cons_of_ne_nil hne
        rw [List.map_cons, List.map_cons, separated_cons_cons, reads_append]
        exact ⟨between, hreads, hscanned.lastToken_eq hcomma rfl, hpass ▸ hothers⟩
    · rw [if_neg hcomma] at hrest
      cases hrest
      refine ⟨hscanned, hcomma, [(tokens, item)], nofun, ?_, rfl, ?_⟩
      · exact List.forall_mem_singleton.mpr htokens
      · simpa [separated] using hreads

/-- A state whose last token is no comma has none to pass. -/
theorem passSeparator_of_ne {s : ParserState} (h : s.lastToken.type ≠ .valueSeparator) :
    s.passSeparator = s := if_neg h

/-- The loop and the closing bracket behind it. Assumes: the list does not begin with a comma. -/
theorem parseSeparated_closed {parseItem : ParserState → Except Exception (α × ParserState)}
    {Item : List Token → α → Prop} (haccepts : Accepts parseItem Item) {add : β → α → β}
    {depth : ℕ} {result final : β} {s s' : ParserState} (hs : s.Scanned)
    (hcomma : s.lastToken.type ≠ .valueSeparator)
    (h : parseSeparated parseItem add depth result s = .ok (final, s')) {type : TokenType}
    {text : List Char} (hend : s'.lastToken.type = type) (htext : fixedText type = some text) :
    ∃ items : List (List Token × α), (∀ item ∈ items, Item item.1 item.2) ∧
      final = (items.map Prod.snd).foldl add result ∧
      s.Reads (separated (items.map Prod.fst) ++ [⟨type, text⟩]) s'.getToken := by
  have hpass := passSeparator_of_ne hcomma
  obtain ⟨hscanned, -, items, -, hitems, hfinal, hreads⟩ :=
    parseSeparated_sound haccepts (hpass.symm ▸ hs) h
  rw [hpass] at hreads
  exact ⟨items, hitems, hfinal,
    reads_append.mpr ⟨s', hreads, hscanned.lastToken_eq hend htext, rfl⟩⟩

/-- The tokens of a member, and its key and value. -/
def DerivesMember (tokens : List Token) (member : String × Json) : Prop :=
  ∃ m : MemberText, Derives m.tokens m.value ∧ tokens = m.all ∧ member = (m.key.value, m.value)

/-- A member is read as its key, a colon and its value. -/
theorem accepts_parseMember {parseValue : ParserState → Except Exception (Json × ParserState)}
    (hvalue : Accepts parseValue Derives) : Accepts (parseMember parseValue) DerivesMember := by
  intro s member s' hs h
  rw [parseMember] at h
  simp only [except_bind_eq_ok, expect_eq_ok, exists_const] at h
  obtain ⟨hstring, text, htext, hcolon, ⟨value, between⟩, hparse, hmember⟩ := h
  obtain ⟨key, hlast, hkey⟩ := hs.exists_literal hstring htext
  obtain ⟨hscanned, tokens, htokens, hreads⟩ := hvalue _ _ _ (scanned_getToken _) hparse
  cases hmember
  refine ⟨hscanned, _, ⟨⟨key, tokens, value⟩, htokens, rfl, by rw [hkey]⟩, hlast, ?_, hreads⟩
  exact (scanned_getToken s).lastToken_eq hcolon rfl

/-- Members that were read, as members of a text. -/
theorem exists_members {items : List (List Token × String × Json)}
    (h : ∀ item ∈ items, DerivesMember item.1 item.2) : ∃ members : List MemberText,
      (∀ m ∈ members, Derives m.tokens m.value) ∧ items.map Prod.fst = members.map MemberText.all ∧
      items.map Prod.snd = members.map fun m ↦ (m.key.value, m.value) := by
  induction items with
  | nil => exact ⟨[], fun _ hmem ↦ absurd hmem List.not_mem_nil, rfl, rfl⟩
  | cons item items ih =>
    rw [List.forall_mem_cons] at h
    obtain ⟨⟨m, hm, htokens, hmember⟩, hitems⟩ := h
    obtain ⟨members, hmembers, hall, hvalues⟩ := ih hitems
    refine ⟨m :: members, List.forall_mem_cons.mpr ⟨hm, hmembers⟩, ?_, ?_⟩
    · rw [List.map_cons, List.map_cons, htokens, hall]
    · rw [List.map_cons, List.map_cons, hmember, hvalues]

/-- Elements are collected in their order. -/
theorem foldl_concat (values elements : List Json) :
    values.foldl (fun elements value ↦ elements ++ [value]) elements = elements ++ values := by
  induction values generalizing elements with
  | nil => exact (List.append_nil elements).symm
  | cons value values ih => rw [List.foldl_cons, ih, List.append_assoc, List.singleton_append]

/-- `parse_internal` returns the value of the tokens it has read. -/
theorem accepts_parseInternal (depth : ℕ) : Accepts (parseInternal depth) Derives := by
  induction depth with
  | zero =>
    intro s value s' hs h
    cases h
  | succ depth ih =>
    intro s value s' hs h
    rw [parseInternal] at h
    -- a token that is a value by itself
    have hleaf : ∀ {token : Token} {leaf : Json}, Derives [token] leaf → s.lastToken = token →
        (leaf, s.getToken) = (value, s') →
        s'.Scanned ∧ ∃ tokens, Derives tokens value ∧ s.Reads tokens s' := by
      intro token leaf hderives hlast heq
      cases heq
      exact ⟨scanned_getToken s, [token], hderives, hlast, rfl⟩
    cases htype : s.lastToken.type with
    | beginObject =>
      have hopen := hs.lastToken_eq htype rfl
      simp only [htype] at h
      by_cases hempty : s.getToken.lastToken.type = .endObject
      · rw [if_pos hempty] at h
        cases h
        exact ⟨scanned_getToken _, _, .object [] (fun _ hm ↦ absurd hm List.not_mem_nil), hopen,
          (scanned_getToken s).lastToken_eq hempty rfl, rfl⟩
      · rw [if_neg hempty] at h
        simp only [except_bind_eq_ok, unexpect_eq_ok, expect_eq_ok, exists_const] at h
        obtain ⟨hcomma, ⟨members, between⟩, hmembers, hend, hresult⟩ := h
        obtain ⟨items, hitems, hfinal, hreads⟩ := parseSeparated_closed (accepts_parseMember ih)
          (scanned_getToken s) hcomma hmembers hend rfl
        obtain ⟨texts, htexts, hall, hvalues⟩ := exists_members hitems
        have hobject : members = objectOf texts := by
          rw [hfinal, hvalues]
          rfl
        rw [hall] at hreads
        cases hresult
        subst hobject
        exact ⟨scanned_getToken _, _, .object texts htexts, hopen, hreads⟩
    | beginArray =>
      have hopen := hs.lastToken_eq htype rfl
      simp only [htype] at h
      by_cases hempty : s.getToken.lastToken.type = .endArray
      · rw [if_pos hempty] at h
        cases h
        exact ⟨scanned_getToken _, _, .array [] (fun _ he ↦ absurd he List.not_mem_nil), hopen,
          (scanned_getToken s).lastToken_eq hempty rfl, rfl⟩
      · rw [if_neg hempty] at h
        simp only [except_bind_eq_ok, unexpect_eq_ok, expect_eq_ok, exists_const] at h
        obtain ⟨hcomma, ⟨elements, between⟩, helements, hend, hresult⟩ := h
        obtain ⟨items, hitems, hfinal, hreads⟩ := parseSeparated_closed ih (scanned_getToken s)
          hcomma helements hend rfl
        have harray : elements = items.map Prod.snd := by
          rw [hfinal, foldl_concat, List.nil_append]
        cases hresult
        subst harray
        exact ⟨scanned_getToken _, _, .array items hitems, hopen, hreads⟩
    | literalNull =>
      simp only [htype] at h
      exact hleaf .null (hs.lastToken_eq htype rfl) (Except.ok.inj h)
    | literalTrue =>
      simp only [htype] at h
      exact hleaf .true (hs.lastToken_eq htype rfl) (Except.ok.inj h)
    | literalFalse =>
      simp only [htype] at h
      exact hleaf .false (hs.lastToken_eq htype rfl) (Except.ok.inj h)
    | valueString =>
      simp only [htype, except_bind_eq_ok] at h
      obtain ⟨text, htext, hresult⟩ := h
      obtain ⟨literal, hlast, hvalue⟩ := hs.exists_literal htype htext
      rw [hvalue] at hresult
      exact hleaf (.string literal) hlast (Except.ok.inj hresult)
    | valueUnsigned | valueInteger | valueFloat =>
      simp only [htype] at h
      obtain ⟨n, hn⟩ := hs.exists_numeral (by rw [htype]; decide)
      rw [hn, n.text_token, getNumber_text] at h
      exact hleaf (.number n) hn (Except.ok.inj h)
    | _ =>
      simp only [htype] at h
      cases h

/-! ### What is derived is returned -/

/-- On the tokens of an item, a part of the parser returns it. -/
def Returns (parseItem : ParserState → Except Exception (α × ParserState))
    (Item : List Token → α → Prop) (bound : ℕ) : Prop :=
  ∀ s s' tokens item, Item tokens item → tokens.length ≤ bound → s.Reads tokens s' →
    parseItem s = .ok (item, s')

/-- The types of the tokens by which a list ends or goes on. -/
def closingTypes : List TokenType := [.endArray, .endObject, .valueSeparator]

/-- The tokens of a value begin with one that ends nothing. -/
theorem Derives.exists_head {tokens : List Token} {value : Json} (h : Derives tokens value) :
    ∃ token rest, tokens = token :: rest ∧
      token.type ∉ closingTypes := by
  cases h with
  | number n =>
    have htype : n.token.type = n.type := rfl
    refine ⟨n.token, [], rfl, ?_⟩
    rw [htype]
    rcases numeral_type n with hn | hn | hn <;> rw [hn] <;> decide
  | _ => exact ⟨_, _, rfl, by simp [StringLiteral.token, closingTypes]⟩

/-- The loop returns the items it reads. -/
theorem parseSeparated_complete {parseItem : ParserState → Except Exception (α × ParserState)}
    {Item : List Token → α → Prop} {bound : ℕ} (hreturns : Returns parseItem Item bound)
    (hne : ∀ tokens item, Item tokens item → tokens ≠ []) {add : β → α → β} {depth : ℕ}
    {result : β} {s s' : ParserState} {items : List (List Token × α)} (hitems : items ≠ [])
    (hall : ∀ item ∈ items, Item item.1 item.2)
    (hbound : (separated (items.map Prod.fst)).length ≤ bound)
    (hdepth : (separated (items.map Prod.fst)).length ≤ depth)
    (hreads : s.passSeparator.Reads (separated (items.map Prod.fst)) s')
    (hend : s'.lastToken.type ≠ .valueSeparator) :
    parseSeparated parseItem add depth result s =
      .ok ((items.map Prod.snd).foldl add result, s') := by
  induction items generalizing depth result s with
  | nil => exact absurd rfl hitems
  | cons first others ih =>
    rw [List.forall_mem_cons] at hall
    have hpos := List.length_pos_of_ne_nil (hne _ _ hall.1)
    cases others with
    | nil =>
      simp only [List.map_cons, List.map_nil, separated, List.flatMap_nil, List.append_nil] at *
      cases depth with
      | zero => omega
      | succ depth =>
        have hitem := hreturns _ _ _ _ hall.1 hbound hreads
        rw [parseSeparated, hitem]
        exact if_neg hend
    | cons second others =>
      rw [List.map_cons, List.map_cons, separated_cons_cons] at hbound hdepth hreads
      simp only [List.length_append, List.length_cons] at hbound hdepth
      obtain ⟨between, hfirst, hcomma, hrest⟩ := reads_append.mp hreads
      cases depth with
      | zero => omega
      | succ depth =>
        have hitem := hreturns _ _ _ _ hall.1 (by omega) hfirst
        have htype : between.lastToken.type = .valueSeparator := by rw [hcomma]
        have hpass : between.passSeparator = between.getToken := if_pos htype
        have hothers : parseSeparated parseItem add depth (add result first.2) between =
            .ok (((second :: others).map Prod.snd).foldl add (add result first.2), s') :=
          ih nofun hall.2 (by rw [List.map_cons]; omega) (by rw [List.map_cons]; omega)
            (by rw [hpass, List.map_cons]; exact hrest)
        rw [parseSeparated, hitem]
        exact (if_pos htype).trans hothers

/-- Behind an opening bracket: the first token of the items neither ends the list nor is a comma,
and the loop returns them. -/
theorem parseSeparated_of_reads {parseItem : ParserState → Except Exception (α × ParserState)}
    {Item : List Token → α → Prop} {depth : ℕ} (hreturns : Returns parseItem Item depth)
    (hhead : ∀ tokens item, Item tokens item → ∃ token rest, tokens = token :: rest ∧
      token.type ∉ closingTypes) (add : β → α → β) (result : β) {s s' : ParserState}
    {items : List (List Token × α)} (hitems : items ≠ [])
    (hall : ∀ item ∈ items, Item item.1 item.2)
    (hdepth : (separated (items.map Prod.fst)).length ≤ depth)
    (hreads : s.Reads (separated (items.map Prod.fst)) s')
    (hend : s'.lastToken.type ≠ .valueSeparator) : s.lastToken.type ∉ closingTypes ∧
      parseSeparated parseItem add depth result s =
        .ok ((items.map Prod.snd).foldl add result, s') := by
  have hfirst : s.lastToken.type ∉ closingTypes := by
    obtain ⟨first, others, rfl⟩ := List.exists_cons_of_ne_nil hitems
    obtain ⟨token, rest, htokens, htype⟩ := hhead _ _ (hall first List.mem_cons_self)
    rw [List.map_cons, separated, htokens] at hreads
    rw [hreads.1]
    exact htype
  have hpass : s.passSeparator = s := by
    simp only [closingTypes, List.mem_cons, List.not_mem_nil, or_false, not_or] at hfirst
    exact passSeparator_of_ne hfirst.2.2
  have hne : ∀ tokens item, Item tokens item → tokens ≠ [] := by
    intro tokens item hitem
    obtain ⟨token, rest, rfl, -⟩ := hhead _ _ hitem
    exact List.cons_ne_nil _ _
  exact ⟨hfirst, parseSeparated_complete hreturns hne hitems hall hdepth hdepth
    (hpass.symm ▸ hreads) hend⟩

/-- The tokens of a member begin with its key. -/
theorem derivesMember_exists_head (tokens : List Token) (member : String × Json)
    (h : DerivesMember tokens member) : ∃ token rest, tokens = token :: rest ∧
      token.type ∉ closingTypes := by
  obtain ⟨m, -, rfl, -⟩ := h
  exact ⟨_, _, rfl, by simp [StringLiteral.token, closingTypes]⟩

/-- On the tokens of a member, `parseMember` returns its key and value. -/
theorem returns_parseMember {parseValue : ParserState → Except Exception (Json × ParserState)}
    {bound : ℕ} (hvalue : Returns parseValue Derives bound) :
    Returns (parseMember parseValue) DerivesMember bound := by
  rintro s s' _ _ ⟨m, hm, rfl, rfl⟩ hbound ⟨hkey, hcolon, hreads⟩
  have htext : getString s.lastToken.body = .ok m.key.value.toList := by
    rw [hkey, body_token, getString_text]
  have hlength : m.tokens.length ≤ bound := by
    simp only [MemberText.all, List.length_cons] at hbound
    omega
  rw [parseMember]
  simp only [except_bind_eq_ok, expect_eq_ok, exists_const]
  refine ⟨by rw [hkey]; rfl, _, htext, by rw [hcolon], _, hvalue _ _ _ _ hm hlength hreads, ?_⟩
  exact congrArg (fun key ↦ Except.ok ((key, m.value), s')) String.ofList_toList

/-- `parse_internal` returns the value of the tokens it is given. -/
theorem returns_parseInternal (depth : ℕ) : Returns (parseInternal depth) Derives depth := by
  induction depth with
  | zero =>
    intro s s' tokens value h hbound
    obtain ⟨token, rest, rfl, -⟩ := h.exists_head
    exact absurd hbound (Nat.not_succ_le_zero _)
  | succ depth ih =>
    intro s s' tokens value h hbound hreads
    rw [parseInternal]
    cases h with
    | null | true | false =>
      obtain ⟨hlast, rfl⟩ := hreads
      rw [hlast]
    | number n =>
      obtain ⟨hlast, rfl⟩ := hreads
      have htype : n.token.type = n.type := rfl
      rw [hlast]
      rcases numeral_type n with hn | hn | hn <;>
        simp only [htype, hn, Numeral.text_token, getNumber_text]
    | string literal =>
      obtain ⟨hlast, rfl⟩ := hreads
      simp only [hlast, body_token, getString_text]
      simp only [StringLiteral.token]
      exact congrArg (fun text ↦ Except.ok (Json.string text, s.getToken)) String.ofList_toList
    | array elements h =>
      obtain ⟨hopen, hreads⟩ := hreads
      obtain ⟨between, hlist, hclose, rfl⟩ := reads_append.mp hreads
      have hend : between.lastToken.type = .endArray := by rw [hclose]
      simp only [List.length_cons, List.length_append] at hbound
      simp only [hopen]
      by_cases hempty : elements = []
      · subst hempty
        obtain rfl : s.getToken = between := hlist
        rw [if_pos hend]
        rfl
      · obtain ⟨hfirst, helements⟩ := parseSeparated_of_reads ih (fun _ _ hd ↦ hd.exists_head)
          (fun elements value ↦ elements ++ [value]) [] hempty h (by omega) hlist
          (by rw [hend]; nofun)
        simp only [closingTypes, List.mem_cons, List.not_mem_nil, or_false, not_or] at hfirst
        rw [foldl_concat, List.nil_append] at helements
        rw [if_neg hfirst.1]
        simp only [except_bind_eq_ok, unexpect_eq_ok, expect_eq_ok, exists_const]
        exact ⟨hfirst.2.2, _, helements, hend, rfl⟩
    | object members h =>
      obtain ⟨hopen, hreads⟩ := hreads
      obtain ⟨between, hlist, hclose, rfl⟩ := reads_append.mp hreads
      have hend : between.lastToken.type = .endObject := by rw [hclose]
      simp only [List.length_cons, List.length_append] at hbound
      simp only [hopen]
      by_cases hempty : members = []
      · subst hempty
        obtain rfl : s.getToken = between := hlist
        rw [if_pos hend]
        rfl
      · set items := members.map fun m ↦ (m.all, m.key.value, m.value) with hitems
        have htokens : items.map Prod.fst = members.map MemberText.all := by
          rw [hitems, List.map_map]
          rfl
        have hall : ∀ item ∈ items, DerivesMember item.1 item.2 := by
          intro item hitem
          obtain ⟨m, hm, rfl⟩ := List.mem_map.mp hitem
          exact ⟨m, h m hm, rfl, rfl⟩
        rw [← htokens] at hbound hlist
        obtain ⟨hfirst, hmembers⟩ := parseSeparated_of_reads (returns_parseMember ih)
          derivesMember_exists_head (fun members m ↦ setMember m.1 m.2 members) []
          (by simpa [hitems] using hempty) hall (by omega) hlist (by rw [hend]; nofun)
        simp only [closingTypes, List.mem_cons, List.not_mem_nil, or_false, not_or] at hfirst
        rw [hitems, List.map_map] at hmembers
        rw [if_neg hfirst.2.1]
        simp only [except_bind_eq_ok, unexpect_eq_ok, expect_eq_ok, exists_const]
        exact ⟨hfirst.2.2, _, hmembers, hend, rfl⟩

/-! ### Tokens in a text -/

/-- What stands in separated lists is a comma or stands in one of them. -/
theorem mem_separated {token : Token} {lists : List (List Token)} (h : token ∈ separated lists) :
    token = ⟨.valueSeparator, [',']⟩ ∨ ∃ tokens ∈ lists, token ∈ tokens := by
  cases lists with
  | nil => cases h
  | cons first others =>
    rcases List.mem_append.mp h with hfirst | hother
    · exact Or.inr ⟨first, List.mem_cons_self, hfirst⟩
    · obtain ⟨tokens, htokens, hmem⟩ := List.mem_flatMap.mp hother
      rcases List.mem_cons.mp hmem with hcomma | hmem
      · exact Or.inl hcomma
      · exact Or.inr ⟨tokens, List.mem_cons_of_mem _ htokens, hmem⟩

/-- The tokens of a list between its brackets are lexemes when those of its items are. -/
theorem isLexeme_of_mem_list {opening closing : Token} (hopening : IsLexeme opening)
    (hclosing : IsLexeme closing) {lists : List (List Token)}
    (hlists : ∀ tokens ∈ lists, ∀ token ∈ tokens, IsLexeme token) :
    ∀ token ∈ opening :: (separated lists ++ [closing]), IsLexeme token := by
  intro token htoken
  rcases List.mem_cons.mp htoken with rfl | htoken
  · exact hopening
  rcases List.mem_append.mp htoken with hitem | hlast
  · rcases mem_separated hitem with rfl | ⟨tokens, htokens, hmem⟩
    · exact .punctuation (c := ',') rfl
    · exact hlists tokens htokens token hmem
  · exact List.mem_singleton.mp hlast ▸ hclosing

/-- The tokens of a value are lexemes. -/
theorem Derives.isLexeme {tokens : List Token} {value : Json} (h : Derives tokens value) :
    ∀ token ∈ tokens, IsLexeme token := by
  induction h with
  | null => exact List.forall_mem_singleton.mpr (.literal (c := 'n') rfl)
  | true => exact List.forall_mem_singleton.mpr (.literal (c := 't') rfl)
  | false => exact List.forall_mem_singleton.mpr (.literal (c := 'f') rfl)
  | number n => exact List.forall_mem_singleton.mpr (.number n)
  | string s => exact List.forall_mem_singleton.mpr (.string (isBody_text s))
  | array elements _ ih =>
    refine isLexeme_of_mem_list (.punctuation rfl) (.punctuation rfl) fun tokens htokens ↦ ?_
    obtain ⟨element, helement, rfl⟩ := List.mem_map.mp htokens
    exact ih element helement
  | object members _ ih =>
    refine isLexeme_of_mem_list (.punctuation rfl) (.punctuation rfl) fun tokens htokens ↦ ?_
    obtain ⟨m, hm, rfl⟩ := List.mem_map.mp htokens
    exact List.forall_mem_cons.mpr ⟨.string (isBody_text m.key),
      List.forall_mem_cons.mpr ⟨.punctuation rfl, ih m hm⟩⟩

/-- No number stands directly behind another. -/
def NumbersApart (tokens : List Token) : Prop :=
  tokens.IsChain fun first second ↦ ¬ (first.type.IsNumber ∧ second.type.IsNumber)

/-- A token that is no number keeps what is in front of it and behind it apart. -/
theorem NumbersApart.append_cons {first second : List Token} {token : Token}
    (hfirst : NumbersApart first) (htoken : ¬ token.type.IsNumber) (hsecond : NumbersApart second) :
    NumbersApart (first ++ token :: second) := by
  refine List.IsChain.append hfirst (List.IsChain.cons hsecond fun _ _ h ↦ htoken h.1) ?_
  intro _ _ other hother h
  cases hother
  exact htoken h.2

/-- Commas keep lists apart. -/
theorem numbersApart_append_flatMap {first : List Token} {others : List (List Token)}
    (hfirst : NumbersApart first) (hothers : ∀ tokens ∈ others, NumbersApart tokens) :
    NumbersApart (first ++ others.flatMap (⟨.valueSeparator, [',']⟩ :: ·)) := by
  induction others generalizing first with
  | nil => rwa [List.flatMap_nil, List.append_nil]
  | cons second others ih =>
    rw [List.forall_mem_cons] at hothers
    exact hfirst.append_cons (by decide) (ih hothers.1 hothers.2)

/-- Brackets and commas keep the items of a list apart. -/
theorem numbersApart_list {opening closing : Token} (hopening : ¬ opening.type.IsNumber)
    (hclosing : ¬ closing.type.IsNumber) {lists : List (List Token)}
    (hlists : ∀ tokens ∈ lists, NumbersApart tokens) :
    NumbersApart (opening :: (separated lists ++ [closing])) := by
  have hitems : NumbersApart (separated lists) := by
    cases lists with
    | nil => exact .nil
    | cons first others =>
      rw [List.forall_mem_cons] at hlists
      exact numbersApart_append_flatMap hlists.1 hlists.2
  exact NumbersApart.append_cons .nil hopening (hitems.append_cons hclosing .nil)

/-- In JSON no number stands directly behind another. -/
theorem Derives.numbersApart {tokens : List Token} {value : Json} (h : Derives tokens value) :
    NumbersApart tokens := by
  induction h with
  | array elements _ ih =>
    refine numbersApart_list (by decide) (by decide) fun tokens htokens ↦ ?_
    obtain ⟨element, helement, rfl⟩ := List.mem_map.mp htokens
    exact ih element helement
  | object members _ ih =>
    refine numbersApart_list (by decide) (by decide) fun tokens htokens ↦ ?_
    obtain ⟨m, hm, rfl⟩ := List.mem_map.mp htokens
    have hkey : ¬ TokenType.valueString.IsNumber := by decide
    exact NumbersApart.append_cons .nil hkey
      (NumbersApart.append_cons .nil (by decide) (ih m hm))
  | _ => exact .singleton _

/-- White space does not go on with a number. -/
theorem continuesNumber_of_isBlank {c : Char} (h : isBlank c) : continuesNumber c = false := by
  simp only [isBlank, Bool.or_eq_true, beq_iff_eq, or_assoc] at h
  rcases h with rfl | rfl | rfl | rfl <;> rfl

/-- Only a number begins like one. -/
theorem continuesNumber_of_isLexeme {token : Token} (h : IsLexeme token)
    (hnumber : ¬ token.type.IsNumber) : ∀ c ∈ token.text.head?, continuesNumber c = false := by
  intro c hc
  cases h with
  | punctuation h =>
    cases hc
    rcases punctuation_eq_some h with h | h | h | h | h | h <;> rw [h.1] <;> rfl
  | literal h =>
    cases hc
    rcases literal_eq_some h with h | h | h <;> rw [h.1] <;> rfl
  | number n => exact absurd (numeral_type n) hnumber
  | string h =>
    cases hc
    rfl

/-- A text of JSON tokens of which the first is no number does not go on with one. -/
theorem apart_of_spells {tokens : List Token} {text : List Char} (h : Spells tokens text)
    (hlexemes : ∀ token ∈ tokens, IsLexeme token)
    (hhead : ∀ token ∈ tokens.head?, ¬ token.type.IsNumber) : Apart text := by
  have hgap : ∀ {gap rest : List Char}, (∀ c ∈ gap, isBlank c) →
      (∀ c ∈ rest.head?, continuesNumber c = false) → Apart (gap ++ rest) := by
    intro gap rest hblank hrest
    cases gap with
    | nil => exact hrest
    | cons blank gap =>
      intro c hc
      cases hc
      exact continuesNumber_of_isBlank (hblank blank List.mem_cons_self)
  cases tokens with
  | nil =>
    obtain ⟨gap, rest, hblank, rfl, hnull⟩ := h
    refine hgap hblank fun c hc ↦ ?_
    rw [eq_ofNat (hnull c hc)]
    rfl
  | cons token tokens =>
    obtain ⟨gap, rest, hblank, rfl, -⟩ := h
    have hlexeme := hlexemes token List.mem_cons_self
    obtain ⟨c, more, htext, -⟩ := exists_head_lexeme hlexeme
    refine hgap hblank ?_
    have hstart := continuesNumber_of_isLexeme hlexeme (hhead token rfl)
    rw [htext] at hstart ⊢
    exact hstart

/-- The parser reads the tokens of a text and then finds its end. -/
theorem exists_reads_of_spells {tokens : List Token} {text : List Char} (h : Spells tokens text)
    (hlexemes : ∀ token ∈ tokens, IsLexeme token) (hnumbers : NumbersApart tokens)
    {s : ParserState} (hs : scan text = (s.lastToken, s.rest)) :
    ∃ s', s.Reads tokens s' ∧ s'.lastToken.type = .endOfInput := by
  induction tokens generalizing text s with
  | nil =>
    have hend := scan_type_eq_endOfInput.mpr h
    rw [hs] at hend
    exact ⟨s, rfl, hend⟩
  | cons token tokens ih =>
    obtain ⟨gap, rest, hblank, rfl, hrest⟩ := h
    rw [List.forall_mem_cons] at hlexemes
    rw [NumbersApart, List.isChain_cons] at hnumbers
    have hapart : token.type.IsNumber → Apart rest := fun hnumber ↦
      apart_of_spells hrest hlexemes.2 fun other hother hsecond ↦
        hnumbers.1 other hother ⟨hnumber, hsecond⟩
    have hscan := hs.symm.trans (scan_of_isLexeme hlexemes.1 hblank hapart)
    injection hscan with hlast hbehind
    have hnext : scan rest = (s.getToken.lastToken, s.getToken.rest) := by
      rw [← hbehind]
      rfl
    obtain ⟨s', hreads, hend⟩ := ih hrest hlexemes.2 hnumbers.2 hnext
    exact ⟨s', ⟨hlast, hreads⟩, hend⟩

/-- The tokens the parser has read stand in the text. -/
theorem spells_of_reads {tokens : List Token} {text : List Char} {s s' : ParserState}
    (h : s.Reads tokens s') (hlexemes : ∀ token ∈ tokens, IsLexeme token)
    (hend : s'.lastToken.type = .endOfInput) (hs : scan text = (s.lastToken, s.rest)) :
    Spells tokens text := by
  induction tokens generalizing text s with
  | nil =>
    obtain rfl : s = s' := h
    rw [Spells, ← scan_type_eq_endOfInput, hs]
    exact hend
  | cons token tokens ih =>
    rw [List.forall_mem_cons] at hlexemes
    obtain ⟨rfl, hreads⟩ := h
    obtain ⟨-, gap, hblank, htext⟩ :=
      isLexeme_of_scan hs hlexemes.1.type_ne.1 hlexemes.1.type_ne.2
    exact ⟨gap, s.rest, hblank, htext, ih hreads hlexemes.2 rfl⟩

/-- A text is at least as long as the list of its tokens. -/
theorem length_le_of_spells {tokens : List Token} {text : List Char} (h : Spells tokens text)
    (hlexemes : ∀ token ∈ tokens, IsLexeme token) : tokens.length ≤ text.length := by
  induction tokens generalizing text with
  | nil => exact Nat.zero_le _
  | cons token tokens ih =>
    obtain ⟨gap, rest, -, rfl, hrest⟩ := h
    rw [List.forall_mem_cons] at hlexemes
    obtain ⟨c, more, htext, -⟩ := exists_head_lexeme hlexemes.1
    have hothers := ih hrest hlexemes.2
    rw [htext]
    simp only [List.length_append, List.length_cons]
    omega

/-! ### What the lexer adds to the text -/

/-- White space in front of a text of tokens makes no difference. -/
theorem spells_append_blank {tokens : List Token} {gap text : List Char}
    (hlexemes : ∀ token ∈ tokens, IsLexeme token) (hgap : ∀ c ∈ gap, isBlank c) :
    Spells tokens (gap ++ text) ↔ Spells tokens text := by
  cases tokens with
  | nil =>
    rw [Spells, Spells, ← scan_type_eq_endOfInput, ← scan_type_eq_endOfInput,
      scan_append_blank hgap]
  | cons token tokens =>
    obtain ⟨first, letters, htext, hfirst⟩ :=
      exists_head_lexeme (hlexemes token List.mem_cons_self)
    have hdrop : ∀ {blanks rest : List Char}, (∀ c ∈ blanks, isBlank c) →
        (blanks ++ (token.text ++ rest)).dropWhile isBlank = token.text ++ rest := by
      intro blanks rest hblanks
      rw [List.dropWhile_append_of_pos hblanks, htext, List.cons_append,
        List.dropWhile_cons_of_neg (by simp [hfirst])]
    constructor
    · rintro ⟨blanks, rest, hblanks, htokens, hrest⟩
      have hbehind : text.dropWhile isBlank = token.text ++ rest := by
        rw [← hdrop hblanks, ← htokens, List.dropWhile_append_of_pos hgap]
      refine ⟨text.takeWhile isBlank, rest, all_takeWhile, ?_, hrest⟩
      rw [← hbehind, List.takeWhile_append_dropWhile]
    · rintro ⟨blanks, rest, hblanks, rfl, hrest⟩
      refine ⟨gap ++ blanks, rest, ?_, (List.append_assoc _ _ _).symm, hrest⟩
      exact fun c hc ↦ (List.mem_append.mp hc).elim (hgap c) (hblanks c)

/-- A number has no newline in it. -/
theorem ne_newline_of_mem_numeral (n : Numeral) : ∀ c ∈ n.text, c ≠ '\n' := by
  have hdigit : ∀ {digits : List Char}, (∀ c ∈ digits, c.isDigit) → ∀ c ∈ digits, c ≠ '\n' := by
    rintro digits hdigits _ hc rfl
    exact absurd (hdigits _ hc) (by decide)
  have hsign : ∀ c ∈ n.sign, c ≠ '\n' := by
    rcases n.isSign with h | h <;> simp [h]
  have hinteger := hdigit n.isInteger.2.1
  have hfraction : ∀ c ∈ n.fraction, c ≠ '\n' := by
    rcases n.isFraction with h | ⟨digits, h, -, hdigits⟩
    · simp [h]
    · rw [h, List.forall_mem_cons]
      exact ⟨by decide, hdigit hdigits⟩
  have hexponent : ∀ c ∈ n.exponent, c ≠ '\n' := by
    rcases n.isExponent with h | ⟨e, sign, digits, h, he, hs, -, hdigits⟩
    · simp [h]
    · rw [h, List.forall_mem_cons, List.forall_mem_append]
      refine ⟨?_, ?_, hdigit hdigits⟩
      · rcases he with rfl | rfl <;> decide
      · rcases hs with rfl | rfl | rfl <;> simp
  simp only [Numeral.text, List.forall_mem_append]
  exact ⟨⟨⟨hsign, hinteger⟩, hfraction⟩, hexponent⟩

/-- The last character of a lexeme is no newline. -/
theorem exists_last_lexeme {token : Token} (h : IsLexeme token) :
    ∃ letters last, token.text = letters ++ [last] ∧ last ≠ '\n' := by
  cases h with
  | @punctuation c type h =>
    refine ⟨[], c, rfl, ?_⟩
    rintro rfl
    cases h
  | @literal c letters type h =>
    rcases literal_eq_some h with ⟨-, rfl, -⟩ | ⟨-, rfl, -⟩ | ⟨-, rfl, -⟩
    · exact ⟨[c, 'r', 'u'], 'e', rfl, by decide⟩
    · exact ⟨[c, 'a', 'l', 's'], 'e', rfl, by decide⟩
    · exact ⟨[c, 'u', 'l'], 'l', rfl, by decide⟩
  | number n =>
    obtain ⟨c, rest, htext, -⟩ := exists_head_numeral n
    have hne : n.text ≠ [] := by
      rw [htext]
      exact List.cons_ne_nil _ _
    refine ⟨n.text.dropLast, n.text.getLast hne, (List.dropLast_append_getLast hne).symm, ?_⟩
    exact ne_newline_of_mem_numeral n _ (List.getLast_mem hne)
  | @string body h => exact ⟨'"' :: body, '"', rfl, by decide⟩

/-- A newline behind a text makes no difference for where it ends. -/
theorem isEnd_append_newline {text : List Char} : IsEnd (text ++ ['\n']) ↔ IsEnd text := by
  constructor
  · rintro ⟨gap, rest, hgap, htext, hrest⟩
    rcases List.eq_nil_or_concat' rest with rfl | ⟨more, last, rfl⟩
    · refine ⟨text, [], fun c hc ↦ hgap c ?_, (List.append_nil text).symm, nofun⟩
      rw [← List.append_nil gap, ← htext]
      exact List.mem_append_left _ hc
    · rw [← List.append_assoc] at htext
      obtain ⟨rfl, hlast⟩ := List.append_inj' htext rfl
      refine ⟨gap, more, hgap, rfl, ?_⟩
      cases more with
      | nil => nofun
      | cons c more => exact hrest
  · rintro ⟨gap, rest, hgap, rfl, hrest⟩
    cases rest with
    | nil =>
      refine ⟨gap ++ ['\n'], [], ?_, by simp, nofun⟩
      exact fun c hc ↦ (List.mem_append.mp hc).elim (hgap c) fun hnewline ↦
        List.mem_singleton.mp hnewline ▸ rfl
    | cons c rest => exact ⟨gap, c :: (rest ++ ['\n']), hgap, by simp, hrest⟩

/-- A newline behind a text of tokens makes no difference. -/
theorem spells_append_newline {tokens : List Token} {text : List Char}
    (hlexemes : ∀ token ∈ tokens, IsLexeme token) :
    Spells tokens (text ++ ['\n']) ↔ Spells tokens text := by
  induction tokens generalizing text with
  | nil => exact isEnd_append_newline
  | cons token tokens ih =>
    rw [List.forall_mem_cons] at hlexemes
    constructor
    · rintro ⟨gap, rest, hgap, htext, hrest⟩
      rcases List.eq_nil_or_concat' rest with rfl | ⟨more, last, rfl⟩
      · -- the newline would be the last character of the token
        obtain ⟨letters, last, hlast, hne⟩ := exists_last_lexeme hlexemes.1
        rw [hlast, List.append_nil, ← List.append_assoc] at htext
        have hnewline := (List.append_inj' htext rfl).2
        exact absurd (List.cons.inj hnewline).1.symm hne
      · rw [← List.append_assoc, ← List.append_assoc] at htext
        obtain ⟨rfl, hlast⟩ := List.append_inj' htext rfl
        cases hlast
        exact ⟨gap, more, hgap, List.append_assoc _ _ _, (ih hlexemes.2).mp hrest⟩
    · rintro ⟨gap, rest, hgap, rfl, hrest⟩
      exact ⟨gap, rest ++ ['\n'], hgap, by simp, (ih hlexemes.2).mpr hrest⟩

/-- A text without the byte order mark it may begin with. -/
def withoutMark (text : List Char) : List Char :=
  if byteOrderMark.isPrefixOf text then text.drop 3 else text

/-- What the lexer adds to a text makes no difference. -/
theorem spells_streamText {tokens : List Token} {text : String}
    (hlexemes : ∀ token ∈ tokens, IsLexeme token) :
    Spells tokens (streamText text) ↔ Spells tokens (withoutMark text.toList) := by
  have hmark : byteOrderMark.isPrefixOf (text.toList ++ ['\n']) =
      byteOrderMark.isPrefixOf text.toList := by
    match text.toList with
    | [] => rfl
    | [_] => simp [byteOrderMark, List.isPrefixOf]
    | [_, _] => simp [byteOrderMark, List.isPrefixOf]
    | _ :: _ :: _ :: _ => simp [byteOrderMark, List.isPrefixOf]
  rw [streamText, withoutMark]
  simp only [hmark]
  by_cases h : byteOrderMark.isPrefixOf text.toList = true
  · obtain ⟨rest, hrest⟩ := List.isPrefixOf_iff_prefix.mp h
    have hdrop : ∀ more : List Char, (byteOrderMark ++ more).drop 3 = more := fun _ ↦ rfl
    rw [if_pos h, if_pos h, ← hrest, List.append_assoc, hdrop, hdrop,
      spells_append_blank hlexemes (by simp [isBlank]), spells_append_newline hlexemes]
  · rw [if_neg h, if_neg h, spells_append_newline hlexemes]

/-! ### The parser and the grammar -/

/-- The parser returns a value for a text exactly when the text is JSON, behind the byte order mark
it may begin with, and has that value. -/
theorem parse_eq_ok {text : String} {value : Json} :
    parse text = .ok value ↔ Denotes (withoutMark text.toList) value := by
  set s : ParserState := ⟨⟨.uninitialized, []⟩, streamText text⟩ with hs
  have hscan : scan (streamText text) = (s.getToken.lastToken, s.getToken.rest) := rfl
  have hparse : parse text = .ok value ↔ ∃ s',
      parseInternal ((streamText text).length + 1) s.getToken = .ok (value, s') ∧
        s'.lastToken.type = .endOfInput := by
    rw [parse]
    simp only [except_bind_eq_ok, expect_eq_ok, exists_const]
    constructor
    · rintro ⟨⟨result, s'⟩, hresult, hend, heq⟩
      cases heq
      exact ⟨s', hresult, hend⟩
    · rintro ⟨s', hresult, hend⟩
      exact ⟨(value, s'), hresult, hend, rfl⟩
  rw [hparse]
  constructor
  · rintro ⟨s', hresult, hend⟩
    obtain ⟨-, tokens, hderives, hreads⟩ :=
      accepts_parseInternal _ _ _ _ (scanned_getToken s) hresult
    have hspells := spells_of_reads hreads hderives.isLexeme hend hscan
    exact ⟨tokens, hderives, (spells_streamText hderives.isLexeme).mp hspells⟩
  · rintro ⟨tokens, hderives, hwithout⟩
    have hspells := (spells_streamText hderives.isLexeme).mpr hwithout
    obtain ⟨s', hreads, hend⟩ :=
      exists_reads_of_spells hspells hderives.isLexeme hderives.numbersApart hscan
    have hlength := length_le_of_spells hspells hderives.isLexeme
    exact ⟨s', returns_parseInternal _ _ _ _ _ hderives (by omega) hreads, hend⟩

end PcmWrapper
