import Mathlib.Data.Nat.ModEq
import Mathlib.Tactic.Common

/-!
# Windows of a ring

Two sides share a ring of `size` slots.  One side counts the slots that it has published, the other
one those that it is done with; between the two counts lies the window of the slots that belong to
the second side.  Count `k` has the slot `k % size`.

The counts may be kept modulo `m`: `Window.mod_eq_iff` and `Window.full_iff` say that nothing is lost
by that when there are fewer than `m` slots.

* `Window.publish`, `Window.finish`: how a window moves.
* `Window.slot_ne`, `Window.next_slot_ne`: the slots of a window are different ones, and as long as it
  is not full the next one is none of them.
-/

/-- The counts from `done` to `published` are in the window of a ring with `size` slots. -/
structure Window (size done published : ℕ) : Prop where
  le : done ≤ published
  bounded : published ≤ done + size

namespace Window

variable {size done published m i j : ℕ}

lemma publish (h : Window size done published) (hroom : published < done + size) :
    Window size done (published + 1) :=
  ⟨h.le.trans (Nat.le_succ _), hroom⟩

lemma finish (h : Window size done published) (hlt : done < published) :
    Window size (done + 1) published :=
  ⟨hlt, by have := h.bounded; omega⟩

/-- Counts that are less than `m` apart are different modulo `m`. -/
lemma mod_ne (hlt : i < j) (hroom : j < i + m) : i % m ≠ j % m := by
  intro heq
  have hdvd : m ∣ j - i := (Nat.modEq_iff_dvd' hlt.le).mp heq
  have hle := Nat.le_of_dvd (by omega) hdvd
  omega

/-- The counts of a window that is empty are the same, also modulo `m`. -/
lemma mod_eq_iff (h : Window size done published) (hm : size < m) :
    done % m = published % m ↔ done = published := by
  have hle := h.le
  have hbounded := h.bounded
  constructor
  · intro heq
    by_contra hne
    exact mod_ne (by omega) (by omega) heq
  · rintro rfl
    rfl

/-- The counts of a window that is full are `size` apart, also modulo `m`. -/
lemma full_iff (h : Window size done published) (hm : size < m) :
    published % m = (done % m + size) % m ↔ published = done + size := by
  have hle := h.le
  have hbounded := h.bounded
  rw [Nat.mod_add_mod]
  constructor
  · intro heq
    by_contra hne
    exact mod_ne (by omega) (by omega) heq
  · rintro rfl
    rfl

/-- Two counts of a window have different slots. -/
lemma slot_ne (h : Window size done published) (hi : done ≤ i) (hij : i < j) (hj : j < published) :
    i % size ≠ j % size := by
  have hbounded := h.bounded
  exact mod_ne hij (by omega)

/-- The slot that is published next is not in the window, unless that is full. -/
lemma next_slot_ne (hroom : published < done + size) (hi : done ≤ i) (hlt : i < published) :
    i % size ≠ published % size :=
  mod_ne hlt (by omega)

end Window
