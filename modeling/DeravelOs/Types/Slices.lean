import DeravelOs.Types.Basic

/-!
# Slices

A slice is the list of its elements.  Each range is checked before it is cut out.
-/

namespace Deravel

variable {α : Type}

/-- `&slice[start..stop]` -/
def slice (site : Site) (l : List α) (start stop : ℕ) : Checked (List α) := do
  ensure (start ≤ stop ∧ stop ≤ l.length) (.indexOutOfBounds site)
  pure ((l.drop start).take (stop - start))

/-- `&slice[..stop]` -/
def sliceTo (site : Site) (l : List α) (stop : ℕ) : Checked (List α) := slice site l 0 stop

/-- `&slice[start..]` -/
def sliceFrom (site : Site) (l : List α) (start : ℕ) : Checked (List α) :=
  slice site l start l.length

section Slices

variable {site : Site} {l : List α} {start stop : ℕ}

lemma slice_of_le (hle : start ≤ stop) (hstop : stop ≤ l.length) :
    slice site l start stop = .ok ((l.drop start).take (stop - start)) := by
  rw [slice, ensure_pos ⟨hle, hstop⟩]
  rfl

lemma sliceTo_of_le (h : stop ≤ l.length) : sliceTo site l stop = .ok (l.take stop) :=
  slice_of_le stop.zero_le h

lemma sliceFrom_of_le (h : start ≤ l.length) : sliceFrom site l start = .ok (l.drop start) := by
  rw [sliceFrom, slice_of_le h le_rfl, List.take_of_length_le (List.length_drop).le]

/-- What stands between two other parts. -/
lemma slice_append {front middle : List α} (back : List α) (hstart : front.length = start)
    (hstop : start + middle.length = stop) :
    slice site (front ++ (middle ++ back)) start stop = .ok middle := by
  subst hstart hstop
  have hle : front.length + middle.length ≤ (front ++ (middle ++ back)).length := by
    rw [List.length_append, List.length_append]
    omega
  rw [slice_of_le (Nat.le_add_right _ _) hle, List.drop_left, Nat.add_sub_cancel_left,
    List.take_left]

lemma sliceTo_append {front : List α} (back : List α) (h : front.length = stop) :
    sliceTo site (front ++ back) stop = .ok front := by
  subst h
  rw [sliceTo_of_le, List.take_left]
  simp

lemma sliceFrom_append {front : List α} (back : List α) (h : front.length = start) :
    sliceFrom site (front ++ back) start = .ok back := by
  subst h
  rw [sliceFrom_of_le, List.drop_left]
  simp

end Slices

end Deravel
