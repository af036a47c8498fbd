import PcmWrapper.JsonScanner

/-!
# The strings the scanner accepts

The automaton of `scan` reads a string byte by byte. This module says what it accepts without its
states: a sequence of items, each of which is an ASCII character, a well-formed sequence of bytes,
or an escape. `Leads` is a run of the automaton from a state back to the body of the string, and
`isItem_of_leads` and `leads_of_isItem` say that the runs from the body are exactly the items.
`isBody_of_scanString` and `scanString_of_isBody` follow by induction on the items.
-/

set_option autoImplicit false
set_option relaxedAutoImplicit false

namespace PcmWrapper

open Library

/-! ### Items -/

/-- One item of the body of a string: a character, a sequence of bytes, or an escape. -/
inductive IsItem : List Char → Prop
  | ascii {c : Char} (hlow : 0x20 ≤ c.toNat) (hhigh : c.toNat ≤ 0x7F) (hquote : c ≠ '"')
      (hbackslash : c ≠ '\\') : IsItem [c]
  | multibyte {bytes : List Char} (hbytes : IsMultibyte bytes) : IsItem bytes
  | escape {c : Char} (hc : c ∈ simpleEscapes) : IsItem ['\\', c]
  | unicode {digits : List Char} (hlength : digits.length = 4)
      (hdigits : ∀ c ∈ digits, (hexDigitValue c).isSome) : IsItem ('\\' :: 'u' :: digits)

/-- The body of a string. -/
inductive IsBody : List Char → Prop
  | nil : IsBody []
  | cons {item body : List Char} (hitem : IsItem item) (hbody : IsBody body) : IsBody (item ++ body)

/-! ### The automaton -/

/-- The automaton reads these characters and is back in the body of the string with the last. -/
inductive Leads : StringState → List Char → Prop
  | last {state : StringState} {c : Char} (hstep : stringStep state c = some .body) :
      Leads state [c]
  | step {state next : StringState} {c : Char} {cs : List Char}
      (hstep : stringStep state c = some next) (hnext : next ≠ .body) (hleads : Leads next cs) :
      Leads state (c :: cs)

/-- A character that ends no string takes the automaton one step on. -/
theorem scanString_cons {state next : StringState} {c : Char}
    (hquote : ¬ (state = .body ∧ c = '"')) (hstep : stringStep state c = some next)
    (rest : List Char) : scanString state (c :: rest) =
      (scanString next rest).map fun scanned ↦ (c :: scanned.1, scanned.2) := by
  rw [scanString, if_neg hquote]
  simp only [hstep]

/-- What leads back to the body is passed over. -/
theorem scanString_append {state : StringState} {cs : List Char} (h : Leads state cs)
    (hquote : state = .body → cs.head? ≠ some '"') (rest : List Char) :
    scanString state (cs ++ rest) =
      (scanString .body rest).map fun scanned ↦ (cs ++ scanned.1, scanned.2) := by
  have hhead : ∀ {state : StringState} {c : Char} {cs : List Char},
      (state = .body → (c :: cs).head? ≠ some '"') → ¬ (state = .body ∧ c = '"') := by
    rintro state c cs hne ⟨hstate, rfl⟩
    exact hne hstate rfl
  induction h with
  | last hstep => exact scanString_cons (hhead hquote) hstep rest
  | @step state next c cs hstep hnext hleads ih =>
    rw [List.cons_append, scanString_cons (hhead hquote) hstep,
      ih (fun hbody ↦ absurd hbody hnext), Option.map_map]
    rfl

/-- An accepted text leads back to the body first, unless it begins there. -/
theorem exists_leads_of_scanString {state : StringState} {text body rest : List Char}
    (hstate : state ≠ .body) (h : scanString state text = some (body, rest)) :
    ∃ cs text' body', Leads state cs ∧ text = cs ++ text' ∧ body = cs ++ body' ∧
      scanString .body text' = some (body', rest) := by
  induction text generalizing state body with
  | nil => simp [scanString] at h
  | cons c text ih =>
    cases hstep : stringStep state c with
    | none => simp [scanString, hstate, hstep] at h
    | some next =>
      rw [scanString_cons (fun hquote ↦ hstate hquote.1) hstep, Option.map_eq_some_iff] at h
      obtain ⟨⟨body', rest'⟩, hscan, heq⟩ := h
      injection heq with hbody hrest
      subst hbody hrest
      by_cases hnext : next = .body
      · subst hnext
        exact ⟨[c], text, body', .last hstep, rfl, rfl, hscan⟩
      · obtain ⟨cs, text', body'', hleads, rfl, rfl, hrest⟩ := ih hnext hscan
        exact ⟨c :: cs, text', body'', .step hstep hnext hleads, rfl, rfl, hrest⟩

theorem not_leads_nil (state : StringState) : ¬ Leads state [] := nofun

theorem leads_cons_iff {state : StringState} {c : Char} {cs : List Char} :
    Leads state (c :: cs) ↔ (cs = [] ∧ stringStep state c = some .body) ∨
      ∃ next, stringStep state c = some next ∧ next ≠ .body ∧ Leads next cs := by
  constructor
  · rintro (⟨hstep⟩ | ⟨hstep, hnext, hleads⟩)
    · exact Or.inl ⟨rfl, hstep⟩
    · exact Or.inr ⟨_, hstep, hnext, hleads⟩
  · rintro (⟨rfl, hstep⟩ | ⟨next, hstep, hnext, hleads⟩)
    · exact .last hstep
    · exact .step hstep hnext hleads

/-- A step that is taken only for some characters, and then to one state within an item. -/
theorem leads_of_step {state next : StringState} {allowed : Char → Prop} [DecidablePred allowed]
    (hstep : ∀ c, stringStep state c = if allowed c then some next else none)
    (hnext : next ≠ .body) {c : Char} {cs : List Char} :
    Leads state (c :: cs) ↔ allowed c ∧ Leads next cs := by
  rw [leads_cons_iff, hstep]
  by_cases hc : allowed c
  · simp [hc, hnext]
  · simp [hc]

/-- A step that is taken only for some characters, and then back to the body. -/
theorem leads_of_last {state : StringState} {allowed : Char → Prop} [DecidablePred allowed]
    (hstep : ∀ c, stringStep state c = if allowed c then some .body else none) {c : Char}
    {cs : List Char} : Leads state (c :: cs) ↔ allowed c ∧ cs = [] := by
  rw [leads_cons_iff, hstep]
  by_cases hc : allowed c
  · simp [hc]
  · simp [hc]

/-- A countdown of characters of one kind. -/
theorem leads_countdown {state : ℕ → StringState} {allowed : Char → Prop} [DecidablePred allowed]
    (hlast : ∀ c, stringStep (state 0) c = if allowed c then some .body else none)
    (hstep : ∀ more c, stringStep (state (more + 1)) c =
      if allowed c then some (state more) else none)
    (hstate : ∀ more, state more ≠ .body) {more : ℕ} {cs : List Char} :
    Leads (state more) cs ↔ cs.length = more + 1 ∧ ∀ c ∈ cs, allowed c := by
  induction more generalizing cs with
  | zero =>
    cases cs with
    | nil => simp [not_leads_nil]
    | cons c cs =>
      rw [leads_of_last hlast, List.forall_mem_cons, List.length_cons, Nat.add_right_cancel_iff,
        List.length_eq_zero_iff]
      constructor
      · rintro ⟨hc, rfl⟩
        exact ⟨rfl, hc, fun _ hmem ↦ absurd hmem List.not_mem_nil⟩
      · rintro ⟨rfl, hc, -⟩
        exact ⟨hc, rfl⟩
  | succ more ih =>
    cases cs with
    | nil => simp [not_leads_nil]
    | cons c cs =>
      rw [leads_of_step (hstep more) (hstate more), ih, List.forall_mem_cons, List.length_cons,
        Nat.add_right_cancel_iff]
      exact and_left_comm

instance : DecidablePred IsTail := fun c ↦
  inferInstanceAs (Decidable (0x80 ≤ c.toNat ∧ c.toNat ≤ 0xBF))

/-- The continuation bytes that are left to read. -/
theorem leads_tail_iff {more : ℕ} {cs : List Char} :
    Leads (.tail more) cs ↔ cs.length = more + 1 ∧ ∀ c ∈ cs, IsTail c :=
  @leads_countdown .tail IsTail _ (fun _ ↦ rfl) (fun _ _ ↦ rfl) (fun _ ↦ nofun) more cs

/-- The digits of an escape that are left to read. -/
theorem leads_hex_iff {more : ℕ} {cs : List Char} :
    Leads (.hex more) cs ↔ cs.length = more + 1 ∧ ∀ c ∈ cs, (hexDigitValue c).isSome :=
  @leads_countdown .hex (fun c ↦ (hexDigitValue c).isSome) _ (fun _ ↦ rfl) (fun _ _ ↦ rfl)
    (fun _ ↦ nofun) more cs

/-- What follows a backslash. -/
theorem leads_escape_iff {c : Char} {cs : List Char} : Leads .escape (c :: cs) ↔
    (c ∈ simpleEscapes ∧ cs = []) ∨
      (c = 'u' ∧ cs.length = 4 ∧ ∀ digit ∈ cs, (hexDigitValue digit).isSome) := by
  rw [leads_cons_iff]
  have hstep : stringStep .escape c =
      if c ∈ simpleEscapes then some .body else if c = 'u' then some (.hex 3) else none := rfl
  have hu : ¬ 'u' ∈ simpleEscapes := by decide
  by_cases hsimple : c ∈ simpleEscapes
  · have hne : c ≠ 'u' := fun heq ↦ hu (heq ▸ hsimple)
    simp [hstep, hsimple, hne]
  · by_cases hc : c = 'u'
    · subst hc
      simp [hstep, hu, leads_hex_iff]
    · simp [hstep, hsimple, hc]

/-! ### What leads back to the body -/

/-- The first character of an item, by the state it leads to. -/
inductive BodyStep (c : Char) : StringState → Prop
  | ascii (hlow : 0x20 ≤ c.toNat) (hhigh : c.toNat ≤ 0x7F) (hbackslash : c ≠ '\\') :
      BodyStep c .body
  | escape (hc : c = '\\') : BodyStep c .escape
  | two (hlow : 0xC2 ≤ c.toNat) (hhigh : c.toNat ≤ 0xDF) : BodyStep c (.tail 0)
  | e0 (hc : c.toNat = 0xE0) : BodyStep c .tailE0
  | ed (hc : c.toNat = 0xED) : BodyStep c .tailED
  | three (hlow : 0xE1 ≤ c.toNat) (hhigh : c.toNat ≤ 0xEF) (hne : c.toNat ≠ 0xED) :
      BodyStep c (.tail 1)
  | f0 (hc : c.toNat = 0xF0) : BodyStep c .tailF0
  | four (hlow : 0xF1 ≤ c.toNat) (hhigh : c.toNat ≤ 0xF3) : BodyStep c (.tail 2)
  | f4 (hc : c.toNat = 0xF4) : BodyStep c .tailF4

/-- The steps of the automaton from the body of a string. -/
theorem bodyStep_of_stringStep {c : Char} {next : StringState}
    (h : stringStep .body c = some next) : BodyStep c next := by
  rw [stringStep] at h
  by_cases hcontrol : c.toNat ≤ 0x1F
  · rw [if_pos hcontrol] at h
    cases h
  rw [if_neg hcontrol] at h
  by_cases hbackslash : c = '\\'
  · rw [if_pos hbackslash] at h
    cases h
    exact .escape hbackslash
  rw [if_neg hbackslash] at h
  by_cases hascii : c.toNat ≤ 0x7F
  · rw [if_pos hascii] at h
    cases h
    exact .ascii (by omega) hascii hbackslash
  rw [if_neg hascii] at h
  by_cases htail : c.toNat ≤ 0xC1
  · rw [if_pos htail] at h
    cases h
  rw [if_neg htail] at h
  by_cases htwo : c.toNat ≤ 0xDF
  · rw [if_pos htwo] at h
    cases h
    exact .two (by omega) htwo
  rw [if_neg htwo] at h
  by_cases he0 : c.toNat ≤ 0xE0
  · rw [if_pos he0] at h
    cases h
    exact .e0 (by omega)
  rw [if_neg he0] at h
  by_cases hed : c.toNat = 0xED
  · rw [if_pos hed] at h
    cases h
    exact .ed hed
  rw [if_neg hed] at h
  by_cases hthree : c.toNat ≤ 0xEF
  · rw [if_pos hthree] at h
    cases h
    exact .three (by omega) hthree hed
  rw [if_neg hthree] at h
  by_cases hf0 : c.toNat ≤ 0xF0
  · rw [if_pos hf0] at h
    cases h
    exact .f0 (by omega)
  rw [if_neg hf0] at h
  by_cases hfour : c.toNat ≤ 0xF3
  · rw [if_pos hfour] at h
    cases h
    exact .four (by omega) hfour
  rw [if_neg hfour] at h
  by_cases hf4 : c.toNat ≤ 0xF4
  · rw [if_pos hf4] at h
    cases h
    exact .f4 (by omega)
  rw [if_neg hf4] at h
  cases h

/-- The automaton takes each of these steps. -/
theorem stringStep_of_bodyStep {c : Char} {next : StringState} (h : BodyStep c next) :
    stringStep .body c = some next := by
  have hupper : 0x80 ≤ c.toNat → c ≠ '\\' := by
    rintro hc rfl
    exact absurd hc (by decide)
  rw [stringStep]
  cases h with
  | ascii hlow hhigh hbackslash => rw [if_neg (by omega), if_neg hbackslash, if_pos hhigh]
  | escape hc =>
    subst hc
    rfl
  | two hlow hhigh =>
    rw [if_neg (by omega), if_neg (hupper (by omega)), if_neg (by omega), if_neg (by omega),
      if_pos hhigh]
  | e0 hc =>
    rw [if_neg (by omega), if_neg (hupper (by omega)), if_neg (by omega), if_neg (by omega),
      if_neg (by omega), if_pos (by omega)]
  | ed hc =>
    rw [if_neg (by omega), if_neg (hupper (by omega)), if_neg (by omega), if_neg (by omega),
      if_neg (by omega), if_neg (by omega), if_pos hc]
  | three hlow hhigh hne =>
    rw [if_neg (by omega), if_neg (hupper (by omega)), if_neg (by omega), if_neg (by omega),
      if_neg (by omega), if_neg (by omega), if_neg hne, if_pos hhigh]
  | f0 hc =>
    rw [if_neg (by omega), if_neg (hupper (by omega)), if_neg (by omega), if_neg (by omega),
      if_neg (by omega), if_neg (by omega), if_neg (by omega), if_neg (by omega), if_pos (by omega)]
  | four hlow hhigh =>
    rw [if_neg (by omega), if_neg (hupper (by omega)), if_neg (by omega), if_neg (by omega),
      if_neg (by omega), if_neg (by omega), if_neg (by omega), if_neg (by omega), if_neg (by omega),
      if_pos hhigh]
  | f4 hc =>
    rw [if_neg (by omega), if_neg (hupper (by omega)), if_neg (by omega), if_neg (by omega),
      if_neg (by omega), if_neg (by omega), if_neg (by omega), if_neg (by omega), if_neg (by omega),
      if_neg (by omega), if_pos (by omega)]

/-- A first continuation byte with bounds of its own, and the others. -/
theorem leads_bounded_iff {state : StringState} {low high more : ℕ} {cs : List Char}
    (hstep : ∀ c, stringStep state c =
      if low ≤ c.toNat ∧ c.toNat ≤ high then some (.tail more) else none) :
    Leads state cs ↔ ∃ tail tails, cs = tail :: tails ∧ (low ≤ tail.toNat ∧ tail.toNat ≤ high) ∧
      tails.length = more + 1 ∧ ∀ c ∈ tails, IsTail c := by
  cases cs with
  | nil => simp [not_leads_nil]
  | cons tail tails =>
    rw [@leads_of_step state (.tail more) (fun c ↦ low ≤ c.toNat ∧ c.toNat ≤ high) _ hstep nofun,
      leads_tail_iff]
    simp

/-- One continuation byte is left. -/
theorem exists_tail {tails : List Char} (hlength : tails.length = 0 + 1)
    (htails : ∀ c ∈ tails, IsTail c) : ∃ tail, tails = [tail] ∧ IsTail tail := by
  obtain ⟨tail, rfl⟩ := List.length_eq_one_iff.mp hlength
  exact ⟨tail, rfl, htails tail List.mem_cons_self⟩

/-- Two continuation bytes are left. -/
theorem exists_two_tails {tails : List Char} (hlength : tails.length = 1 + 1)
    (htails : ∀ c ∈ tails, IsTail c) : ∃ tail tail', tails = [tail, tail'] ∧ IsTail tail ∧
      IsTail tail' := by
  obtain ⟨tail, tail', rfl⟩ := List.length_eq_two.mp hlength
  exact ⟨tail, tail', rfl, htails tail List.mem_cons_self,
    htails tail' (List.mem_cons_of_mem _ List.mem_cons_self)⟩

/-- What leads from the body back to it, and does not end the string, is an item. -/
theorem isItem_of_leads {c : Char} {cs : List Char} (h : Leads .body (c :: cs))
    (hquote : c ≠ '"') : IsItem (c :: cs) := by
  rcases leads_cons_iff.mp h with ⟨rfl, hstep⟩ | ⟨next, hstep, hnext, hleads⟩
  · cases bodyStep_of_stringStep hstep with
    | ascii hlow hhigh hbackslash => exact .ascii hlow hhigh hquote hbackslash
  · cases bodyStep_of_stringStep hstep with
    | ascii => exact absurd rfl hnext
    | escape hc =>
      subst hc
      cases cs with
      | nil => exact absurd hleads (not_leads_nil _)
      | cons escaped digits =>
        rcases leads_escape_iff.mp hleads with ⟨hsimple, rfl⟩ | ⟨rfl, hlength, hdigits⟩
        · exact .escape hsimple
        · exact .unicode hlength hdigits
    | two hlow hhigh =>
      obtain ⟨hlength, htails⟩ := leads_tail_iff.mp hleads
      obtain ⟨tail, rfl, htail⟩ := exists_tail hlength htails
      exact .multibyte (.two ⟨hlow, hhigh⟩ htail)
    | e0 hc =>
      obtain ⟨tail, tails, rfl, hbounds, hlength, htails⟩ :=
        (leads_bounded_iff fun _ ↦ rfl).mp hleads
      obtain ⟨tail', rfl, htail'⟩ := exists_tail hlength htails
      exact .multibyte (.three ⟨by omega, by omega⟩ ⟨by omega, hbounds.2⟩ htail'
        (fun _ ↦ hbounds.1) (fun hed ↦ by omega))
    | ed hc =>
      obtain ⟨tail, tails, rfl, hbounds, hlength, htails⟩ :=
        (leads_bounded_iff fun _ ↦ rfl).mp hleads
      obtain ⟨tail', rfl, htail'⟩ := exists_tail hlength htails
      exact .multibyte (.three ⟨by omega, by omega⟩ ⟨hbounds.1, by omega⟩ htail'
        (fun he0 ↦ by omega) (fun _ ↦ hbounds.2))
    | three hlow hhigh hne =>
      obtain ⟨hlength, htails⟩ := leads_tail_iff.mp hleads
      obtain ⟨tail, tail', rfl, htail, htail'⟩ := exists_two_tails hlength htails
      exact .multibyte (.three ⟨by omega, hhigh⟩ htail htail' (fun he0 ↦ by omega)
        (fun hed ↦ absurd hed hne))
    | f0 hc =>
      obtain ⟨tail, tails, rfl, hbounds, hlength, htails⟩ :=
        (leads_bounded_iff fun _ ↦ rfl).mp hleads
      obtain ⟨tail', tail'', rfl, htail', htail''⟩ := exists_two_tails hlength htails
      exact .multibyte (.four ⟨by omega, by omega⟩ ⟨by omega, hbounds.2⟩ htail' htail''
        (fun _ ↦ hbounds.1) (fun hf4 ↦ by omega))
    | four hlow hhigh =>
      obtain ⟨hlength, htails⟩ := leads_tail_iff.mp hleads
      obtain ⟨tail, tail', tail'', rfl⟩ := List.length_eq_three.mp hlength
      simp only [List.forall_mem_cons] at htails
      exact .multibyte (.four ⟨by omega, by omega⟩ htails.1 htails.2.1 htails.2.2.1
        (fun hf0 ↦ by omega) (fun hf4 ↦ by omega))
    | f4 hc =>
      obtain ⟨tail, tails, rfl, hbounds, hlength, htails⟩ :=
        (leads_bounded_iff fun _ ↦ rfl).mp hleads
      obtain ⟨tail', tail'', rfl, htail', htail''⟩ := exists_two_tails hlength htails
      exact .multibyte (.four ⟨by omega, by omega⟩ ⟨hbounds.1, by omega⟩ htail' htail''
        (fun hf0 ↦ by omega) (fun _ ↦ hbounds.2))

/-- A sequence of bytes leads from the body back to it. -/
theorem leads_of_isMultibyte {bytes : List Char} (h : IsMultibyte bytes) : Leads .body bytes := by
  cases h with
  | two hlead htail =>
    exact .step (stringStep_of_bodyStep (.two hlead.1 hlead.2)) nofun
      (leads_tail_iff.mpr ⟨rfl, by simpa using htail⟩)
  | @three lead tail tail' hlead htail htail' hlow hhigh =>
    have hlast : [tail'].length = 0 + 1 ∧ ∀ c ∈ [tail'], IsTail c := ⟨rfl, by simpa using htail'⟩
    by_cases he0 : lead.toNat = 0xE0
    · exact .step (stringStep_of_bodyStep (.e0 he0)) nofun
        ((leads_bounded_iff fun _ ↦ rfl).mpr ⟨tail, [tail'], rfl, ⟨hlow he0, htail.2⟩, hlast⟩)
    by_cases hed : lead.toNat = 0xED
    · exact .step (stringStep_of_bodyStep (.ed hed)) nofun
        ((leads_bounded_iff fun _ ↦ rfl).mpr ⟨tail, [tail'], rfl, ⟨htail.1, hhigh hed⟩, hlast⟩)
    · exact .step (stringStep_of_bodyStep (.three (by omega) hlead.2 hed)) nofun
        (leads_tail_iff.mpr ⟨rfl, by simpa using ⟨htail, htail'⟩⟩)
  | @four lead tail tail' tail'' hlead htail htail' htail'' hlow hhigh =>
    have hlast : [tail', tail''].length = 1 + 1 ∧ ∀ c ∈ [tail', tail''], IsTail c :=
      ⟨rfl, by simpa using ⟨htail', htail''⟩⟩
    by_cases hf0 : lead.toNat = 0xF0
    · exact .step (stringStep_of_bodyStep (.f0 hf0)) nofun
        ((leads_bounded_iff fun _ ↦ rfl).mpr ⟨tail, _, rfl, ⟨hlow hf0, htail.2⟩, hlast⟩)
    by_cases hf4 : lead.toNat = 0xF4
    · exact .step (stringStep_of_bodyStep (.f4 hf4)) nofun
        ((leads_bounded_iff fun _ ↦ rfl).mpr ⟨tail, _, rfl, ⟨htail.1, hhigh hf4⟩, hlast⟩)
    · exact .step (stringStep_of_bodyStep (.four (by omega) (by omega))) nofun
        (leads_tail_iff.mpr ⟨rfl, by simpa using ⟨htail, htail', htail''⟩⟩)

/-- An item leads from the body back to it. -/
theorem leads_of_isItem {item : List Char} (h : IsItem item) : Leads .body item := by
  cases h with
  | ascii hlow hhigh hquote hbackslash =>
    exact .last (stringStep_of_bodyStep (.ascii hlow hhigh hbackslash))
  | multibyte hbytes => exact leads_of_isMultibyte hbytes
  | escape hc =>
    exact .step (stringStep_of_bodyStep (.escape rfl)) nofun
      (leads_escape_iff.mpr (Or.inl ⟨hc, rfl⟩))
  | unicode hlength hdigits =>
    exact .step (stringStep_of_bodyStep (.escape rfl)) nofun
      (leads_escape_iff.mpr (Or.inr ⟨rfl, hlength, hdigits⟩))

/-- An item does not begin with a quotation mark. -/
theorem head_ne_quote_of_isItem {item : List Char} (h : IsItem item) : item.head? ≠ some '"' := by
  have hlead : ∀ {lead : Char} {low : ℕ} {tails : List Char}, 0x80 ≤ low → low ≤ lead.toNat →
      (lead :: tails).head? ≠ some '"' := by
    rintro lead low tails hlow hle heq
    cases Option.some.inj heq
    exact absurd (Nat.le_trans hlow hle) (by decide)
  cases h with
  | ascii hlow hhigh hquote hbackslash => exact fun heq ↦ hquote (Option.some.inj heq)
  | multibyte hbytes =>
    cases hbytes with
    | two hbounds htail => exact hlead (by omega) hbounds.1
    | three hbounds htail htail' hlow hhigh => exact hlead (by omega) hbounds.1
    | four hbounds htail htail' htail'' hlow hhigh => exact hlead (by omega) hbounds.1
  | escape hc => exact fun heq ↦ absurd (Option.some.inj heq) (by decide)
  | unicode hlength hdigits => exact fun heq ↦ absurd (Option.some.inj heq) (by decide)

/-! ### Scanning a string -/

/-- An item of the body of a string is passed over. -/
theorem scanString_item {item : List Char} (h : IsItem item) (rest : List Char) :
    scanString .body (item ++ rest) =
      (scanString .body rest).map fun scanned ↦ (item ++ scanned.1, scanned.2) :=
  scanString_append (leads_of_isItem h) (fun _ ↦ head_ne_quote_of_isItem h) rest

/-- An accepted text begins with the closing quotation mark or with an item. -/
theorem scanString_body_cases {text body rest : List Char}
    (h : scanString .body text = some (body, rest)) : (body = [] ∧ text = '"' :: rest) ∨
      ∃ item text' body', IsItem item ∧ text = item ++ text' ∧ body = item ++ body' ∧
        scanString .body text' = some (body', rest) := by
  cases text with
  | nil => simp [scanString] at h
  | cons c text =>
    by_cases hquote : c = '"'
    · simp only [scanString, hquote, and_self, if_true, Option.some.injEq, Prod.mk.injEq] at h
      exact Or.inl ⟨h.1.symm, by rw [hquote, h.2]⟩
    · right
      cases hstep : stringStep .body c with
      | none => simp [scanString, hquote, hstep] at h
      | some next =>
        rw [scanString_cons (fun heq ↦ hquote heq.2) hstep, Option.map_eq_some_iff] at h
        obtain ⟨⟨body', rest'⟩, hscan, heq⟩ := h
        injection heq with hbody hrest
        subst hbody hrest
        by_cases hnext : next = .body
        · subst hnext
          exact ⟨[c], text, body', isItem_of_leads (.last hstep) hquote, rfl, rfl, hscan⟩
        · obtain ⟨cs, text', body'', hleads, rfl, rfl, hrest⟩ :=
            exists_leads_of_scanString hnext hscan
          exact ⟨c :: cs, text', body'', isItem_of_leads (.step hstep hnext hleads) hquote, rfl,
            rfl, hrest⟩

/-- An item is not empty. -/
theorem length_pos_of_isItem {item : List Char} (h : IsItem item) : 0 < item.length := by
  cases h with
  | multibyte hbytes => cases hbytes <;> exact Nat.succ_pos _
  | _ => exact Nat.succ_pos _

/-- The automaton accepts the body of a string and its closing quotation mark. -/
theorem scanString_of_isBody {body : List Char} (h : IsBody body) (rest : List Char) :
    scanString .body (body ++ '"' :: rest) = some (body, rest) := by
  induction h with
  | nil => rfl
  | cons hitem hbody ih => rw [List.append_assoc, scanString_item hitem, ih, Option.map_some]

/-- The automaton accepts nothing else. -/
theorem isBody_of_scanString {text body rest : List Char}
    (h : scanString .body text = some (body, rest)) : IsBody body ∧ text = body ++ '"' :: rest := by
  induction hn : text.length using Nat.strongRecOn generalizing text body with
  | _ n ih =>
    rcases scanString_body_cases h with ⟨rfl, rfl⟩ | ⟨item, text', body', hitem, rfl, rfl, hscan⟩
    · exact ⟨.nil, rfl⟩
    · have hpos := length_pos_of_isItem hitem
      rw [List.length_append] at hn
      obtain ⟨hbody, rfl⟩ := ih _ (by omega) hscan rfl
      exact ⟨.cons hitem hbody, (List.append_assoc _ _ _).symm⟩

end PcmWrapper
