import Mathlib.Data.Nat.ModEq
import Mathlib.Logic.Function.Basic

/-!
# Scanning the slots of a table in a circle

A scan starts at some slot and goes around a table once.  It empties the slots whose entry is dead,
which depends on the table as it is when the slot is visited, and stops at the first entry that is
ready.

* `slot`: the slots in the order of their visits; each of the table has one (`exists_slot`).
* `visited`: the table after some visits, slot by slot (`visited_behind`, `visited_of_ne`).
* `Stops`: where a scan stops, and that it stops at nothing only if nothing is ready
  (`Stops.eq_none_iff`).
-/

namespace CyclicScan

variable {α : Type} (dead : (ℕ → Option α) → α → Bool) (size start : ℕ) (table : ℕ → Option α)

/-- The slot of a visit. -/
def slot (n : ℕ) : ℕ := (start + n) % size

/-- The table after a slot was visited. -/
def visit (i : ℕ) : ℕ → Option α :=
  if (table i).any (dead table) then Function.update table i none else table

/-- The table after some visits. -/
def visited : ℕ → ℕ → Option α
  | 0 => table
  | n + 1 => visit dead (visited n) (slot size start n)

variable {dead size start table} {m n i : ℕ}

/-! ## Slots -/

lemma slot_inj (hm : m < size) (hn : n < size) (h : slot size start m = slot size start n) :
    m = n :=
  (Nat.ModEq.add_left_cancel' start h).eq_of_lt_of_lt hm hn

lemma slot_lt (hsize : 0 < size) : slot size start n < size := Nat.mod_lt _ hsize

/-- Every slot of the table is visited. -/
lemma exists_slot (hi : i < size) : ∃ n < size, slot size start n = i := by
  have hsize : 0 < size := by omega
  refine ⟨(i + (size - start % size)) % size, Nat.mod_lt _ hsize, ?_⟩
  have hlt := Nat.mod_lt start hsize
  rw [slot, Nat.add_mod_mod, ← Nat.mod_add_mod]
  have hsum : start % size + (i + (size - start % size)) = i + size := by omega
  rw [hsum, Nat.add_mod_right, Nat.mod_eq_of_lt hi]

/-! ## Tables -/

lemma visit_of_ne (h : i ≠ n) : visit dead table n i = table i := by
  rw [visit]
  split
  · exact Function.update_of_ne h _ _
  · rfl

lemma visit_self : visit dead table i i =
    if (table i).any (dead table) then none else table i := by
  rw [visit]
  split
  · exact Function.update_self _ _ _
  · rfl

/-- Slots that were not visited are as they were. -/
lemma visited_of_ne (h : ∀ m < n, i ≠ slot size start m) :
    visited dead size start table n i = table i := by
  induction n with
  | zero => rfl
  | succ n ih =>
      rw [visited, visit_of_ne (h n n.lt_succ_self)]
      exact ih fun m hm => h m (hm.trans n.lt_succ_self)

/-- Slots that are yet to be visited are as they were. -/
lemma visited_ahead (hle : n ≤ m) (hm : m < size) :
    visited dead size start table n (slot size start m) = table (slot size start m) :=
  visited_of_ne fun m' hm' heq => by
    have hsame := slot_inj hm (by omega) heq
    omega

/-- A slot that was visited is empty if its entry was dead then, and else as it was. -/
lemma visited_behind (hmn : m < n) (hn : n ≤ size) :
    visited dead size start table n (slot size start m) =
      if (table (slot size start m)).any (dead (visited dead size start table m)) then none
      else table (slot size start m) := by
  induction n with
  | zero => omega
  | succ n ih =>
      rw [visited]
      rcases Nat.lt_succ_iff_lt_or_eq.mp hmn with hlt | rfl
      · rw [visit_of_ne fun heq => hlt.ne (slot_inj (by omega) (by omega) heq), ih hlt (by omega)]
      · rw [visit_self, visited_ahead le_rfl (by omega)]

/-! ## Where a scan stops -/

/-- A scan passes `n` slots without a ready entry, and stops at a ready one or at the end. -/
structure Stops (ready : α → Bool) (size start : ℕ) (table : ℕ → Option α) (n : ℕ)
    (result : Option α) : Prop where
  le_size : n ≤ size
  passed : ∀ m < n, ∀ a, table (slot size start m) = some a → ready a = false
  found : ∀ a, result = some a → n < size ∧ table (slot size start n) = some a ∧ ready a = true
  exhausted : result = none → n = size

namespace Stops

variable {ready : α → Bool} {result : Option α}

/-- **A scan finds nothing only if nothing is ready.** -/
theorem eq_none_iff (h : Stops ready size start table n result) :
    result = none ↔ ∀ i < size, ∀ a, table i = some a → ready a = false := by
  constructor
  · intro hnone i hi a ha
    obtain ⟨m, hm, rfl⟩ : ∃ m < size, slot size start m = i := exists_slot hi
    exact h.passed m (h.exhausted hnone ▸ hm) a ha
  · intro hall
    cases hresult : result with
    | none => rfl
    | some a =>
        obtain ⟨hn, ha, hready⟩ := h.found a hresult
        have hnot := hall _ (slot_lt (by omega)) a ha
        rw [hready] at hnot
        cases hnot

end Stops

end CyclicScan
