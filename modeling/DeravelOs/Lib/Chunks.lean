import Mathlib.Data.List.Flatten
import Mathlib.Tactic.Common

/-!
# Sequences in chunks of one size

* `Chunks.flatten_range`: consecutive chunks of a sequence, one after the other, are the sequence.
* `Chunks.drop_flatMap`, `Chunks.length_flatMap`: skipping chunks, and how long they are together.
-/

namespace Chunks

variable {α β : Type}

/-- Consecutive chunks are consecutive elements. -/
theorem flatten_range (f : ℕ → α) (size n : ℕ) :
    ((List.range n).map fun j => (List.range size).map fun i => f (j * size + i)).flatten =
      (List.range (n * size)).map f := by
  induction n with
  | zero => simp
  | succ n ih =>
      rw [List.range_succ, List.map_append, List.flatten_append, ih, Nat.succ_mul, List.range_add,
        List.map_append, List.map_map]
      simp [Function.comp_def]

variable {f : α → List β} {size : ℕ}

lemma length_flatMap (h : ∀ a, (f a).length = size) (l : List α) :
    (l.flatMap f).length = l.length * size := by
  induction l with
  | nil => simp
  | cons a l ih =>
      rw [List.flatMap_cons, List.length_append, h, ih, List.length_cons, Nat.succ_mul, Nat.add_comm]

/-- Behind the first `n` chunks are the chunks of the elements behind the first `n`. -/
lemma drop_flatMap (h : ∀ a, (f a).length = size) (l : List α) (n : ℕ) :
    (l.flatMap f).drop (n * size) = (l.drop n).flatMap f := by
  induction n generalizing l with
  | zero => simp
  | succ n ih =>
      cases l with
      | nil => simp
      | cons a l =>
          rw [List.drop_succ_cons, ← ih l, List.flatMap_cons, Nat.succ_mul, Nat.add_comm, ← h a,
            List.drop_length_add_append]

end Chunks
