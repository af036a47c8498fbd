import Mathlib.Data.List.Basic

/-!
# UTF-8 in texts of bytes

A text that holds one character for each byte writes a code point as the one to four bytes of its
UTF-8 encoding. `utf8` is that spelling, taken from Lean's own encoder. `IsMultibyte` is the table
of the well-formed sequences of more than one byte, which leaves out overlong forms, surrogates and
everything above the last code point, and `isMultibyte_iff` says that it lists exactly the spellings
of the code points outside ASCII.
-/

set_option autoImplicit false
set_option relaxedAutoImplicit false

namespace PcmWrapper.Library

/-- The bytes of a code point, one character for each. -/
def utf8 (c : Char) : List Char := (String.utf8EncodeChar c).map fun byte ↦ Char.ofNat byte.toNat

/-- A continuation byte. -/
def IsTail (byte : Char) : Prop := 0x80 ≤ byte.toNat ∧ byte.toNat ≤ 0xBF

/-- The well-formed sequences of two, three and four bytes. -/
inductive IsMultibyte : List Char → Prop
  | two {lead tail : Char} (hlead : 0xC2 ≤ lead.toNat ∧ lead.toNat ≤ 0xDF) (htail : IsTail tail) :
      IsMultibyte [lead, tail]
  | three {lead tail tail' : Char} (hlead : 0xE0 ≤ lead.toNat ∧ lead.toNat ≤ 0xEF)
      (htail : IsTail tail) (htail' : IsTail tail') (hlow : lead.toNat = 0xE0 → 0xA0 ≤ tail.toNat)
      (hhigh : lead.toNat = 0xED → tail.toNat ≤ 0x9F) : IsMultibyte [lead, tail, tail']
  | four {lead tail tail' tail'' : Char} (hlead : 0xF0 ≤ lead.toNat ∧ lead.toNat ≤ 0xF4)
      (htail : IsTail tail) (htail' : IsTail tail') (htail'' : IsTail tail'')
      (hlow : lead.toNat = 0xF0 → 0x90 ≤ tail.toNat)
      (hhigh : lead.toNat = 0xF4 → tail.toNat ≤ 0x8F) : IsMultibyte [lead, tail, tail', tail'']

/-! ### Spelling a code point -/

/-- A number that is a code point is that of its character. -/
theorem toNat_ofNat_of_scalar {n : ℕ} (h : n < 0xD800 ∨ 0xDFFF < n ∧ n ≤ 0x10FFFF) :
    (Char.ofNat n).toNat = n := by
  have hvalid : n.isValidChar := h.imp id fun hupper ↦ ⟨hupper.1, by omega⟩
  rw [Char.ofNat, dif_pos hvalid]
  rfl

/-- A byte, as a character, and back. -/
theorem toNat_ofNat_of_lt {n : ℕ} (h : n < 256) : (Char.ofNat n).toNat = n :=
  toNat_ofNat_of_scalar (Or.inl (by omega))

/-- The character with a given number. -/
theorem eq_ofNat {c : Char} {n : ℕ} (h : c.toNat = n) : c = Char.ofNat n := by
  rw [← h, Char.ofNat_toNat]

/-- A byte of an encoding, as a character. -/
theorem ofNat_toNat_uint8 {n : ℕ} (h : n < 256) :
    Char.ofNat (UInt8.ofNat n).toNat = Char.ofNat n := by
  rw [UInt8.toNat_ofNat', Nat.mod_eq_of_lt h]

/-- ASCII stays as it is. -/
theorem utf8_of_lt {c : Char} (h : c.toNat < 0x80) : utf8 c = [c] := by
  have hval : c.val.toNat = c.toNat := rfl
  rw [utf8, String.utf8EncodeChar, if_pos (by omega), List.map_singleton, hval,
    ofNat_toNat_uint8 (by omega), Char.ofNat_toNat]

/-- The bytes of a code point of two bytes. -/
theorem utf8_two {c : Char} (hlow : 0x80 ≤ c.toNat) (hhigh : c.toNat ≤ 0x7FF) :
    utf8 c = [Char.ofNat (c.toNat / 64 + 0xC0), Char.ofNat (c.toNat % 64 + 0x80)] := by
  have hval : c.val.toNat = c.toNat := rfl
  have hlead : c.toNat / 64 % 0x20 = c.toNat / 64 := Nat.mod_eq_of_lt (by omega)
  rw [utf8, String.utf8EncodeChar, if_neg (by omega), if_pos (by omega), hval, hlead]
  simp only [List.map_cons, List.map_nil]
  rw [ofNat_toNat_uint8 (by omega), ofNat_toNat_uint8 (by omega)]

/-- The bytes of a code point of three bytes. -/
theorem utf8_three {c : Char} (hlow : 0x800 ≤ c.toNat) (hhigh : c.toNat ≤ 0xFFFF) :
    utf8 c = [Char.ofNat (c.toNat / 4096 + 0xE0), Char.ofNat (c.toNat / 64 % 64 + 0x80),
      Char.ofNat (c.toNat % 64 + 0x80)] := by
  have hval : c.val.toNat = c.toNat := rfl
  have hlead : c.toNat / 4096 % 0x10 = c.toNat / 4096 := Nat.mod_eq_of_lt (by omega)
  rw [utf8, String.utf8EncodeChar, if_neg (by omega), if_neg (by omega), if_pos (by omega), hval,
    hlead]
  simp only [List.map_cons, List.map_nil]
  rw [ofNat_toNat_uint8 (by omega), ofNat_toNat_uint8 (by omega), ofNat_toNat_uint8 (by omega)]

/-- The last code point. -/
theorem toNat_le (c : Char) : c.toNat ≤ 0x10FFFF := by
  have hvalid := c.valid
  unfold UInt32.isValidChar Nat.isValidChar at hvalid
  have hval : c.val.toNat = c.toNat := rfl
  omega

/-- The bytes of a code point of four bytes. -/
theorem utf8_four {c : Char} (hlow : 0x10000 ≤ c.toNat) :
    utf8 c = [Char.ofNat (c.toNat / 262144 + 0xF0), Char.ofNat (c.toNat / 4096 % 64 + 0x80),
      Char.ofNat (c.toNat / 64 % 64 + 0x80), Char.ofNat (c.toNat % 64 + 0x80)] := by
  have hval : c.val.toNat = c.toNat := rfl
  have hhigh := toNat_le c
  have hlead : c.toNat / 262144 % 0x08 = c.toNat / 262144 := Nat.mod_eq_of_lt (by omega)
  rw [utf8, String.utf8EncodeChar, if_neg (by omega), if_neg (by omega), if_neg (by omega), hval,
    hlead]
  simp only [List.map_cons, List.map_nil]
  rw [ofNat_toNat_uint8 (by omega), ofNat_toNat_uint8 (by omega), ofNat_toNat_uint8 (by omega),
    ofNat_toNat_uint8 (by omega)]

/-- No character is a surrogate. -/
theorem not_surrogate (c : Char) : c.toNat < 0xD800 ∨ 0xDFFF < c.toNat := by
  have hvalid := c.valid
  unfold UInt32.isValidChar Nat.isValidChar at hvalid
  have hval : c.val.toNat = c.toNat := rfl
  omega

/-! ### The table -/

/-- The spelling of a code point outside ASCII is in the table. -/
theorem isMultibyte_utf8 {c : Char} (h : 0x80 ≤ c.toNat) : IsMultibyte (utf8 c) := by
  have hlast := toNat_le c
  have hsurrogate := not_surrogate c
  have hbyte : ∀ n, n < 64 → (Char.ofNat (n + 0x80)).toNat = n + 0x80 :=
    fun n hn ↦ toNat_ofNat_of_lt (by omega)
  have htail : ∀ n, n < 64 → IsTail (Char.ofNat (n + 0x80)) := by
    intro n hn
    rw [IsTail, hbyte n hn]
    omega
  have hlast' := htail (c.toNat % 64) (by omega)
  have hmiddle := htail (c.toNat / 64 % 64) (by omega)
  have hupper := htail (c.toNat / 4096 % 64) (by omega)
  rcases (by omega : c.toNat ≤ 0x7FF ∨ (0x800 ≤ c.toNat ∧ c.toNat ≤ 0xFFFF) ∨ 0x10000 ≤ c.toNat)
    with htwo | ⟨hlow, hthree⟩ | hfour
  · rw [utf8_two h htwo]
    refine .two ?_ hlast'
    rw [toNat_ofNat_of_lt (by omega)]
    omega
  · rw [utf8_three hlow hthree]
    have hlead : (Char.ofNat (c.toNat / 4096 + 0xE0)).toNat = c.toNat / 4096 + 0xE0 :=
      toNat_ofNat_of_lt (by omega)
    refine .three ?_ hmiddle hlast' ?_ ?_
    · omega
    · rw [hlead, hbyte _ (by omega)]
      omega
    · rw [hlead, hbyte _ (by omega)]
      omega
  · rw [utf8_four hfour]
    have hlead : (Char.ofNat (c.toNat / 262144 + 0xF0)).toNat = c.toNat / 262144 + 0xF0 :=
      toNat_ofNat_of_lt (by omega)
    refine .four ?_ hupper hmiddle hlast' ?_ ?_
    · omega
    · rw [hlead, hbyte _ (by omega)]
      omega
    · rw [hlead, hbyte _ (by omega)]
      omega

/-- A sequence of the table spells a code point outside ASCII. -/
theorem exists_utf8_of_isMultibyte {bytes : List Char} (h : IsMultibyte bytes) :
    ∃ c, 0x80 ≤ c.toNat ∧ utf8 c = bytes := by
  cases h with
  | @two lead tail hlead htail =>
    unfold IsTail at htail
    have hc := toNat_ofNat_of_scalar (n := (lead.toNat - 0xC0) * 64 + (tail.toNat - 0x80))
      (Or.inl (by omega))
    refine ⟨_, by rw [hc]; omega, ?_⟩
    rw [utf8_two (by omega) (by omega), hc]
    refine congrArg₂ _ (eq_ofNat ?_).symm (congrArg₂ _ (eq_ofNat ?_).symm rfl) <;> omega
  | @three lead tail tail' hlead htail htail' hlow hhigh =>
    unfold IsTail at htail htail'
    have hc := toNat_ofNat_of_scalar
      (n := (lead.toNat - 0xE0) * 4096 + (tail.toNat - 0x80) * 64 + (tail'.toNat - 0x80)) (by omega)
    refine ⟨_, by rw [hc]; omega, ?_⟩
    rw [utf8_three (by omega) (by omega), hc]
    refine congrArg₂ _ (eq_ofNat ?_).symm (congrArg₂ _ (eq_ofNat ?_).symm
      (congrArg₂ _ (eq_ofNat ?_).symm rfl)) <;> omega
  | @four lead tail tail' tail'' hlead htail htail' htail'' hlow hhigh =>
    unfold IsTail at htail htail' htail''
    have hc := toNat_ofNat_of_scalar
      (n := (lead.toNat - 0xF0) * 262144 + (tail.toNat - 0x80) * 4096 + (tail'.toNat - 0x80) * 64 +
        (tail''.toNat - 0x80)) (by omega)
    refine ⟨_, by rw [hc]; omega, ?_⟩
    rw [utf8_four (by omega), hc]
    refine congrArg₂ _ (eq_ofNat ?_).symm (congrArg₂ _ (eq_ofNat ?_).symm
      (congrArg₂ _ (eq_ofNat ?_).symm (congrArg₂ _ (eq_ofNat ?_).symm rfl))) <;> omega

/-- The table lists exactly the spellings of the code points outside ASCII. -/
theorem isMultibyte_iff {bytes : List Char} :
    IsMultibyte bytes ↔ ∃ c, 0x80 ≤ c.toNat ∧ utf8 c = bytes := by
  refine ⟨exists_utf8_of_isMultibyte, ?_⟩
  rintro ⟨c, hc, rfl⟩
  exact isMultibyte_utf8 hc

/-- The bytes of a code point outside ASCII are outside ASCII. -/
theorem le_toNat_of_mem_utf8 {c byte : Char} (hc : 0x80 ≤ c.toNat) (hbyte : byte ∈ utf8 c) :
    0x80 ≤ byte.toNat := by
  have hall : ∀ bytes, IsMultibyte bytes → ∀ byte ∈ bytes, 0x80 ≤ byte.toNat := by
    rintro bytes (⟨hlead, htail⟩ | ⟨hlead, htail, htail', -, -⟩ |
      ⟨hlead, htail, htail', htail'', -, -⟩)
    all_goals
      unfold IsTail at *
      simp only [List.forall_mem_cons, List.not_mem_nil, false_imp_iff, implies_true, and_true]
      omega
  exact hall _ (isMultibyte_utf8 hc) byte hbyte

end PcmWrapper.Library
