import Mathlib.Data.List.Induction
import Mathlib.Order.RelClasses
import Mathlib.Tactic.SplitIfs

/-!
# Maps as lists in key order

A map that keeps its members in the order of their keys, as `std::map` does, is a list on which
`assign` replaces the value of a key or puts the key where it belongs. With a strict total order it
keeps the list sorted, and so does a sequence of assignments (`ordered_assignAll`). Members that are
assigned in key order stay as they are (`assignAll_of_ordered`).
-/

set_option autoImplicit false
set_option relaxedAutoImplicit false

namespace PcmWrapper.Library

variable {κ ν : Type*} [DecidableEq κ] (before : κ → κ → Prop) [DecidableRel before]

/-- `map[key] = value`. -/
def assign (key : κ) (value : ν) : List (κ × ν) → List (κ × ν)
  | [] => [(key, value)]
  | found :: members =>
    if key = found.1 then (key, value) :: members
    else if before key found.1 then (key, value) :: found :: members
    else found :: assign key value members

/-- Assignments one after the other to an empty map. -/
def assignAll (items : List (κ × ν)) : List (κ × ν) :=
  items.foldl (fun members item ↦ assign before item.1 item.2 members) []

/-- Every key comes before those behind it. -/
def Ordered (members : List (κ × ν)) : Prop :=
  members.Pairwise fun first second ↦ before first.1 second.1

instance (members : List (κ × ν)) : Decidable (Ordered before members) :=
  inferInstanceAs (Decidable (members.Pairwise fun first second ↦ before first.1 second.1))

/-- A member is the one that was assigned, or it was there. -/
theorem mem_assign {key : κ} {value : ν} {members : List (κ × ν)} {member : κ × ν}
    (h : member ∈ assign before key value members) : member = (key, value) ∨ member ∈ members := by
  induction members with
  | nil => exact Or.inl (List.mem_singleton.mp h)
  | cons found members ih =>
    rw [assign] at h
    split_ifs at h with hkey hbefore
    · exact (List.mem_cons.mp h).imp_right (List.mem_cons_of_mem found)
    · exact List.mem_cons.mp h
    · rcases List.mem_cons.mp h with rfl | htail
      · exact Or.inr List.mem_cons_self
      · exact (ih htail).imp_right (List.mem_cons_of_mem found)

/-- The members are among those that were assigned. -/
theorem mem_of_mem_assignAll {items : List (κ × ν)} {member : κ × ν}
    (h : member ∈ assignAll before items) : member ∈ items := by
  rw [assignAll] at h
  induction items using List.reverseRecOn with
  | nil => exact h
  | append_singleton items item ih =>
    rw [List.foldl_append, List.foldl_cons, List.foldl_nil] at h
    rcases mem_assign before h with rfl | htail
    · exact List.mem_append_right items List.mem_cons_self
    · exact List.mem_append_left [item] (ih htail)

/-- A key behind all others goes to the end. -/
theorem assign_of_last [IsStrictOrder κ before] {key : κ} {value : ν} {members : List (κ × ν)}
    (h : ∀ member ∈ members, before member.1 key) :
    assign before key value members = members ++ [(key, value)] := by
  induction members with
  | nil => rfl
  | cons found members ih =>
    rw [List.forall_mem_cons] at h
    have hne : key ≠ found.1 := fun heq ↦ irrefl_of before key (heq ▸ h.1)
    rw [assign, if_neg hne, if_neg (asymm_of before h.1), ih h.2, List.cons_append]

/-- Members that are assigned in key order stay as they are. -/
theorem assignAll_of_ordered [IsStrictOrder κ before] {items : List (κ × ν)}
    (h : Ordered before items) : assignAll before items = items := by
  rw [assignAll]
  induction items using List.reverseRecOn with
  | nil => rfl
  | append_singleton items item ih =>
    obtain ⟨hitems, -, hlast⟩ := List.pairwise_append.mp h
    rw [List.foldl_append, List.foldl_cons, List.foldl_nil, ih hitems]
    exact assign_of_last before fun member hmember ↦
      hlast member hmember item List.mem_cons_self

/-- An assignment keeps the members in key order. -/
theorem ordered_assign [IsStrictTotalOrder κ before] {key : κ} {value : ν}
    {members : List (κ × ν)} (h : Ordered before members) :
    Ordered before (assign before key value members) := by
  induction members with
  | nil => exact List.pairwise_singleton _ _
  | cons found members ih =>
    obtain ⟨hfound, hmembers⟩ := List.pairwise_cons.mp h
    rw [assign]
    split_ifs with hkey hbefore
    · exact List.pairwise_cons.mpr ⟨fun member hmember ↦ hkey ▸ hfound member hmember, hmembers⟩
    · refine List.pairwise_cons.mpr ⟨List.forall_mem_cons.mpr ⟨hbefore, fun member hmember ↦ ?_⟩, h⟩
      exact trans_of before hbefore (hfound member hmember)
    · refine List.pairwise_cons.mpr ⟨fun member hmember ↦ ?_, ih hmembers⟩
      rcases mem_assign before hmember with rfl | hthere
      · -- neither the same key nor before it, so behind it
        rcases trichotomous_of before key found.1 with hlt | heq | hgt
        · exact absurd hlt hbefore
        · exact absurd heq hkey
        · exact hgt
      · exact hfound member hthere

/-- Assignments to an empty map leave it in key order. -/
theorem ordered_assignAll [IsStrictTotalOrder κ before] (items : List (κ × ν)) :
    Ordered before (assignAll before items) := by
  rw [assignAll]
  induction items using List.reverseRecOn with
  | nil => exact List.Pairwise.nil
  | append_singleton items item ih =>
    rw [List.foldl_append, List.foldl_cons, List.foldl_nil]
    exact ordered_assign before ih

end PcmWrapper.Library
