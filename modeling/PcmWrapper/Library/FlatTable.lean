import Mathlib.Data.List.Basic
import Mathlib.Tactic.Ring

/-!
# Tables stored in one flat list

A table whose rows all have the width `width` is stored row after row in one list, so the cell in
column `column` of row `index` sits at `index * width + column`. `row` reads a row back. Setting a
cell changes its own row in that column and no other row (`row_set_self`, `row_set_of_ne`), which
is all a proof about a table filled row by row needs.
-/

set_option autoImplicit false
set_option relaxedAutoImplicit false

namespace PcmWrapper.Library

variable {α : Type*}

/-- The row with the given index of a flat table of rows of the given width. -/
def row (table : List α) (width index : ℕ) : List α :=
  (table.drop (index * width)).take width

/-- A cell of one of the first `count` rows lies below `count` full rows. -/
theorem cell_lt {width count index column : ℕ} (hindex : index < count)
    (hcolumn : column < width) : index * width + column < count * width := by
  have hrows : (index + 1) * width ≤ count * width := Nat.mul_le_mul_right width hindex
  rw [Nat.succ_mul] at hrows
  omega

/-- A row inside the table has the width of the table. -/
theorem length_row {table : List α} {width count index : ℕ} (hlength : table.length = count * width)
    (hindex : index < count) : (row table width index).length = width := by
  have hrows : (index + 1) * width ≤ count * width := Nat.mul_le_mul_right width hindex
  rw [Nat.succ_mul] at hrows
  rw [row, List.length_take, List.length_drop, hlength]
  omega

/-- The cells of a row are the cells of the table in that row. -/
theorem getElem?_row (table : List α) {width column : ℕ} (hcolumn : column < width) (index : ℕ) :
    (row table width index)[column]? = table[index * width + column]? := by
  rw [row, List.getElem?_take, if_pos hcolumn, List.getElem?_drop]

/-- Two rows with the same cells are equal. -/
theorem row_ext {first second : List α} {width firstIndex secondIndex : ℕ}
    (hcells : ∀ column < width, first[firstIndex * width + column]? =
      second[secondIndex * width + column]?) :
    row first width firstIndex = row second width secondIndex := by
  refine List.ext_getElem? fun column ↦ ?_
  by_cases hcolumn : column < width
  · rw [getElem?_row first hcolumn, getElem?_row second hcolumn, hcells column hcolumn]
  · have hlong : ∀ (table : List α) index, (row table width index)[column]? = none := by
      intro table index
      rw [row, List.getElem?_take, if_neg hcolumn]
    rw [hlong, hlong]

/-- Setting a cell sets its column in its row. -/
theorem row_set_self (table : List α) {width column : ℕ} (hcolumn : column < width) (index : ℕ)
    (value : α) : row (table.set (index * width + column) value) width index =
      (row table width index).set column value := by
  refine List.ext_getElem? fun other ↦ ?_
  by_cases hother : other < width
  · rw [getElem?_row _ hother, List.getElem?_set, List.getElem?_set, getElem?_row _ hother]
    by_cases heq : column = other
    · subst heq
      have hlength : index * width + column < table.length ↔
          column < (row table width index).length := by
        rw [row, List.length_take, List.length_drop]
        omega
      simp only [if_true, hlength]
    · rw [if_neg heq, if_neg (by omega)]
  · rw [List.getElem?_set_ne (by omega), row, row, List.getElem?_take, List.getElem?_take,
      if_neg hother, if_neg hother]

/-- Setting a cell leaves the other rows as they are. -/
theorem row_set_of_ne (table : List α) {width column index other : ℕ} (hcolumn : column < width)
    (hother : other ≠ index) (value : α) :
    row (table.set (index * width + column) value) width other = row table width other := by
  refine row_ext fun otherColumn hotherColumn ↦ List.getElem?_set_ne fun heq ↦ hother ?_
  rcases Nat.lt_or_gt_of_ne hother with hlt | hgt
  · have := cell_lt hlt hotherColumn
    omega
  · have := cell_lt hgt hcolumn
    omega

end PcmWrapper.Library
