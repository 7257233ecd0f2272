import Mathlib.Data.List.Basic
import Mathlib.Data.Int.Notation
import Mathlib.Tactic.Common

/-!
# Rasters

An image has a value at some points of the plane.  Drawing one image into another at an offset changes
the points that both have, and none that the other one does not have (`blit`): whatever overhangs is
cut off.

A raster keeps an image row by row in a list.

* `blit`, `upTo`: drawing, and the rows of an image from which one draws.
* `blit_upTo_succ`: drawing row by row.
* `overwrite`: replacing a stretch of a list.
* `mem_stretch_iff`: the points of a stretch of one row.
-/

namespace Raster

variable {α : Type}

/-! ## Images -/

/-- An image: its value at each point that it has. -/
def Image (α : Type) : Type := ℤ → ℤ → Option α

/-- `src` drawn into `dst`, with its origin at `(dx, dy)`. -/
def blit (dst src : Image α) (dx dy : ℤ) : Image α := fun x y =>
  (dst x y).map fun old => (src (x - dx) (y - dy)).getD old

/-- The rows of an image below some row. -/
def upTo (src : Image α) (row : ℤ) : Image α := fun x y => if y < row then src x y else none

variable {dst src : Image α} {dx dy row x y : ℤ}

/-- Nothing is drawn where there is nothing to draw on. -/
lemma blit_of_dst_none (h : dst x y = none) : blit dst src dx dy x y = none := by
  rw [blit, h]
  rfl

/-- Nothing is drawn where there is nothing to draw. -/
lemma blit_of_none (h : src (x - dx) (y - dy) = none) : blit dst src dx dy x y = dst x y := by
  rw [blit, h]
  cases dst x y with
  | none => rfl
  | some old => rfl

lemma blit_of_some {old new : α} (hdst : dst x y = some old)
    (hsrc : src (x - dx) (y - dy) = some new) : blit dst src dx dy x y = some new := by
  rw [blit, hdst, hsrc]
  rfl

lemma upTo_of_lt (h : y < row) : upTo src row x y = src x y := if_pos h

lemma upTo_of_le (h : row ≤ y) : upTo src row x y = none := if_neg (Int.not_lt.mpr h)

lemma upTo_of_none (h : src x y = none) : upTo src row x y = none := by
  rw [upTo, h, ite_self]

/-- Drawing the rows below a row, and then this row. -/
lemma blit_upTo_succ {value : Option α} (hrow : y = dy + row → value = blit dst src dx dy x y)
    (hother : y ≠ dy + row → value = blit dst (upTo src row) dx dy x y) :
    value = blit dst (upTo src (row + 1)) dx dy x y := by
  by_cases hy : y = dy + row
  · rw [hrow hy]
    have hlt : y - dy < row + 1 := by omega
    simp only [blit, upTo_of_lt hlt]
  · rw [hother hy]
    have hsame : y - dy < row + 1 ↔ y - dy < row := by omega
    simp only [blit, upTo, hsame]

/-! ## Stretches of lists -/

/-- The list with `values` in place of what is there from `start` on. -/
def overwrite (l : List α) (start : ℕ) (values : List α) : List α :=
  l.mapIdx fun i old => if start ≤ i then values.getD (i - start) old else old

@[simp] lemma length_overwrite (l : List α) (start : ℕ) (values : List α) :
    (overwrite l start values).length = l.length := List.length_mapIdx

lemma getElem?_overwrite_inside {l values : List α} {start i : ℕ} (hle : start ≤ i)
    (hlt : i < start + values.length) (hi : i < l.length) :
    (overwrite l start values)[i]? = values[i - start]? := by
  have hvalue : i - start < values.length := by omega
  simp [overwrite, hle, hi, hvalue]

lemma getElem?_overwrite_outside {l values : List α} {start i : ℕ}
    (h : ¬ (start ≤ i ∧ i < start + values.length)) :
    (overwrite l start values)[i]? = l[i]? := by
  rw [overwrite, List.getElem?_mapIdx]
  cases l[i]? with
  | none => rfl
  | some old =>
      by_cases hle : start ≤ i
      · have hbehind : values.length ≤ i - start := by omega
        simp [hle, hbehind]
      · simp [hle]

/-! ## Rows -/

/-- **A stretch of one row has no points of another one.** -/
lemma mem_stretch_iff {width a b x y row : ℕ} (hx : x < width) (hb : b ≤ width) :
    row * width + a ≤ y * width + x ∧ y * width + x < row * width + b ↔
      y = row ∧ a ≤ x ∧ x < b := by
  constructor
  · rintro ⟨hle, hlt⟩
    have hrow : y = row := by
      have hlow : row * width < (y + 1) * width := by
        rw [Nat.succ_mul]
        omega
      have hhigh : y * width < (row + 1) * width := by
        rw [Nat.succ_mul]
        omega
      have hle' := Nat.lt_of_mul_lt_mul_right hlow
      have hge' := Nat.lt_of_mul_lt_mul_right hhigh
      omega
    subst hrow
    omega
  · rintro ⟨rfl, hle, hlt⟩
    omega

end Raster
