import Mathlib.Data.List.Induction
import Mathlib.Data.Nat.Digits.Defs
import Mathlib.Tactic.Common

/-!
# Decimal numerals

A numeral is the list of its digits, with the first one in front.

* `Decimal.value`: the number.
* `Decimal.read`: reading it from the left with numbers of a limited range.
* `Decimal.read_eq`: reading fails only if the number itself is out of range.
-/

namespace Decimal

/-- What the digits stand for. -/
def value (digits : List ℕ) : ℕ := Nat.ofDigits 10 digits.reverse

/-- One more digit: the product is checked, and the sum is. -/
def step (range n digit : ℕ) : Option ℕ :=
  if n * 10 < range then
    if n * 10 + digit < range then some (n * 10 + digit) else none
  else none

/-- The digits are read one after the other. -/
def read (range : ℕ) (digits : List ℕ) : Option ℕ := digits.foldlM (step range) 0

lemma value_concat (digits : List ℕ) (digit : ℕ) :
    value (digits ++ [digit]) = value digits * 10 + digit := by
  rw [value, List.reverse_append, List.reverse_singleton, List.singleton_append, Nat.ofDigits_cons,
    ← value, Nat.add_comm, Nat.mul_comm]

lemma step_eq (range n digit : ℕ) :
    step range n digit = if n * 10 + digit < range then some (n * 10 + digit) else none := by
  rw [step]
  by_cases hsum : n * 10 + digit < range
  · have hproduct : n * 10 < range := by omega
    rw [if_pos hproduct]
  · rw [if_neg hsum, ite_self]

/-- **No digit takes a number out of range that comes back**: what has been read never decreases. -/
theorem read_eq {range : ℕ} (hrange : 0 < range) (digits : List ℕ) :
    read range digits = if value digits < range then some (value digits) else none := by
  induction digits using List.reverseRecOn with
  | nil => exact (if_pos hrange).symm
  | append_singleton digits digit ih =>
      rw [read, List.foldlM_append, ← read, ih, value_concat]
      by_cases hvalue : value digits < range
      · rw [if_pos hvalue, ← step_eq]
        simp
      · have hsum : ¬ value digits * 10 + digit < range := by omega
        rw [if_neg hvalue, if_neg hsum]
        rfl

end Decimal
