import Mathlib.Data.List.AList

/-!
# Stores keyed by name, where the first record of a key decides

Records go into a store one after the other. The first record of a key creates the value stored
under it, and every later record of the same key extends that value. `upsert` is one such step on
an association list without duplicate keys. `lookup_foldl_upsert` is the closed form of a whole
sequence: the value under a key comes from the records of that key alone, in their order, the
first creating and the others extending. Nothing a record of another key does shows under it.

`insertAll` stores records over one another, and `touch` is what a lookup leaves behind that stores
a default value under a key that is not there.
-/

set_option autoImplicit false
set_option relaxedAutoImplicit false

namespace PcmWrapper.Library

section Upsert

variable {κ ν ρ : Type*} [DecidableEq κ] (key : ρ → κ) (create : ρ → ν) (extend : ν → ρ → ν)

/-- What a record of a key makes of the value stored under it. -/
def absorb (value : Option ν) (record : ρ) : Option ν :=
  some (value.elim (create record) (extend · record))

/-- Put one record into a store. -/
def upsert (store : AList fun _ : κ ↦ ν) (record : ρ) : AList fun _ : κ ↦ ν :=
  match store.lookup (key record) with
  | none => store.insert (key record) (create record)
  | some value => store.insert (key record) (extend value record)

/-- A record is absorbed under its own key and changes no other. -/
theorem lookup_upsert (store : AList fun _ : κ ↦ ν) (record : ρ) (k : κ) :
    (upsert key create extend store record).lookup k =
      if key record = k then absorb create extend (store.lookup k) record else store.lookup k := by
  by_cases hk : key record = k
  · subst hk
    rw [if_pos rfl, upsert, absorb]
    cases hlookup : store.lookup (key record) <;> simp [AList.lookup_insert]
  · rw [if_neg hk, upsert]
    cases hlookup : store.lookup (key record) <;>
      exact AList.lookup_insert_ne (Ne.symm hk)

/-- The value under a key after a sequence of records: its own records absorbed in their order. -/
theorem lookup_foldl_upsert (records : List ρ) (store : AList fun _ : κ ↦ ν) (k : κ) :
    (records.foldl (upsert key create extend) store).lookup k =
      (records.filter (key · = k)).foldl (absorb create extend) (store.lookup k) := by
  induction records generalizing store with
  | nil => rfl
  | cons record records ih =>
    rw [List.foldl_cons, ih, lookup_upsert]
    by_cases hk : key record = k <;> simp [hk]

/-- A value that was there is extended by every record. -/
theorem foldl_absorb_some (records : List ρ) (value : ν) :
    records.foldl (absorb create extend) (some value) = some (records.foldl extend value) := by
  induction records generalizing value with
  | nil => rfl
  | cons record records ih =>
    rw [List.foldl_cons, List.foldl_cons]
    exact ih (extend value record)

/-- From the empty store a key holds a value exactly when it has a record, and the value is created
by its first record and extended by the others. -/
theorem lookup_foldl_upsert_empty_eq_some {records : List ρ} {k : κ} {value : ν} :
    (records.foldl (upsert key create extend) ∅).lookup k = some value ↔
      ∃ first later, records.filter (key · = k) = first :: later ∧
        value = later.foldl extend (create first) := by
  rw [lookup_foldl_upsert, AList.lookup_empty]
  cases records.filter (key · = k) with
  | nil => simp
  | cons first later =>
    have hvalue : (first :: later).foldl (absorb create extend) none =
        some (later.foldl extend (create first)) :=
      foldl_absorb_some create extend later (create first)
    rw [hvalue, Option.some.injEq, eq_comm]
    simp

end Upsert

section Insert

variable {κ ρ : Type*} [DecidableEq κ] (key : ρ → κ)

/-- Records stored under their own keys, later ones over earlier ones. -/
def insertAll (records : List ρ) (store : AList fun _ : κ ↦ ρ) : AList fun _ : κ ↦ ρ :=
  records.foldl (fun store record ↦ store.insert (key record) record) store

/-- Records with different keys are all found again, and what was stored before shows under the
other keys only. -/
theorem lookup_insertAll_eq_some {records : List ρ} {store : AList fun _ : κ ↦ ρ}
    (hkeys : ∀ first ∈ records, ∀ second ∈ records, key first = key second → first = second)
    {k : κ} {value : ρ} : (insertAll key records store).lookup k = some value ↔
      (value ∈ records ∧ key value = k) ∨
        (∀ record ∈ records, key record ≠ k) ∧ store.lookup k = some value := by
  induction records generalizing store with
  | nil => simp [insertAll]
  | cons record records ih =>
    have hlater : ∀ first ∈ records, ∀ second ∈ records, key first = key second →
        first = second := fun first hfirst second hsecond ↦
      hkeys first (List.mem_cons_of_mem _ hfirst) second (List.mem_cons_of_mem _ hsecond)
    have hstep : (insertAll key (record :: records) store).lookup k = some value ↔
        (value ∈ records ∧ key value = k) ∨ (∀ other ∈ records, key other ≠ k) ∧
          (store.insert (key record) record).lookup k = some value := ih hlater
    rw [hstep, List.mem_cons, List.forall_mem_cons]
    by_cases hk : key record = k
    · rw [← hk, AList.lookup_insert, Option.some.injEq]
      constructor
      · rintro (⟨hmem, hvalue⟩ | ⟨_, hvalue⟩)
        · exact .inl ⟨.inr hmem, hvalue⟩
        · exact .inl ⟨.inl hvalue.symm, congrArg key hvalue.symm⟩
      · rintro (⟨hmem, hvalue⟩ | ⟨⟨hne, _⟩, _⟩)
        · by_cases hagain : record ∈ records
          · have hsame := hkeys value (List.mem_cons.mpr hmem) record List.mem_cons_self hvalue
            exact .inl ⟨hsame ▸ hagain, hvalue⟩
          · have hnone : ∀ other ∈ records, key other ≠ key record := fun other hother heq ↦
              hagain (hkeys other (List.mem_cons_of_mem _ hother) record List.mem_cons_self heq ▸
                hother)
            have hsame := hkeys value (List.mem_cons.mpr hmem) record List.mem_cons_self hvalue
            exact .inr ⟨hnone, hsame.symm⟩
        · exact absurd rfl hne
    · rw [AList.lookup_insert_ne (Ne.symm hk)]
      have hfirst : ¬ (value = record ∧ key value = k) := fun ⟨heq, hvalue⟩ ↦ hk (heq ▸ hvalue)
      constructor
      · rintro (⟨hmem, hvalue⟩ | ⟨hnone, hvalue⟩)
        · exact .inl ⟨.inr hmem, hvalue⟩
        · exact .inr ⟨⟨hk, hnone⟩, hvalue⟩
      · rintro (⟨hmem | hmem, hvalue⟩ | ⟨⟨_, hnone⟩, hvalue⟩)
        · exact absurd ⟨hmem, hvalue⟩ hfirst
        · exact .inl ⟨hmem, hvalue⟩
        · exact .inr ⟨hnone, hvalue⟩

end Insert

section Touch

variable {κ ν : Type*} [DecidableEq κ] (default : ν) {store : AList fun _ : κ ↦ ν} {k : κ}

/-- A store after a lookup that stores the default value under a key that is not there. -/
def touch (store : AList fun _ : κ ↦ ν) (k : κ) : AList fun _ : κ ↦ ν :=
  match store.lookup k with
  | some _ => store
  | none => store.insert k default

/-- A key that is there has its value already. -/
theorem touch_of_mem (h : k ∈ store) : touch default store k = store := by
  obtain ⟨value, hvalue⟩ := Option.isSome_iff_exists.mp (AList.lookup_isSome.mpr h)
  rw [touch, hvalue]

/-- What is stored stays when a key is touched. -/
theorem lookup_touch_of_some {other : κ} {value : ν} (h : store.lookup other = some value) (k : κ) :
    (touch default store k).lookup other = some value := by
  rw [touch]
  cases hk : store.lookup k with
  | some _ => exact h
  | none =>
    have hne : other ≠ k := fun heq ↦ by
      rw [heq, hk] at h
      cases h
    exact (AList.lookup_insert_ne hne).trans h

/-- Lookups with the default value do not see that a key has been touched. -/
theorem getD_lookup_touch (store : AList fun _ : κ ↦ ν) (k other : κ) :
    ((touch default store k).lookup other).getD default = (store.lookup other).getD default := by
  cases hother : store.lookup other with
  | some value => rw [lookup_touch_of_some default hother]
  | none =>
    rw [touch]
    cases hk : store.lookup k with
    | some _ => exact congrArg (Option.getD · default) hother
    | none =>
      by_cases heq : other = k
      · subst heq
        show ((store.insert other default).lookup other).getD default = default
        rw [AList.lookup_insert, Option.getD_some]
      · exact congrArg (Option.getD · default) ((AList.lookup_insert_ne heq).trans hother)

end Touch

end PcmWrapper.Library
