import Mathlib.Order.Bounds.Basic
import Mathlib.Tactic.Common

/-!
# Giving away a range from below

A range of numbers is given away from its start.  A request is for so many numbers, the first of which
is a multiple of its alignment.  It gets the first ones that are left, unless the end of the range is
before theirs, and the range then goes on behind them.

Everything is about exact numbers here; whether a machine can compute them is another question.

* `Answers`, `Run`: one request, and one after the other.
* `Answers.eq_none_iff`: a request is refused if and only if it does not fit.
* `Run.regions_inside`, `Run.regions_stacked`: what has been granted is in the range, and one piece is
  above the other.
-/

namespace Bump

/-- So many numbers, from a multiple of the alignment on. -/
structure Request where
  size : ℕ
  align : ℕ

/-- `p` is the first multiple of the alignment at or above `start`. -/
def Request.FirstFrom (r : Request) (start p : ℕ) : Prop :=
  IsLeast {m | start ≤ m ∧ r.align ∣ m} p

/-- The answer to a request, and where the range goes on. -/
inductive Answers (stop start : ℕ) (r : Request) : Option ℕ → ℕ → Prop
  | refused {p : ℕ} (hp : r.FirstFrom start p) (hfull : stop < p + r.size) :
      Answers stop start r none start
  | granted {p : ℕ} (hp : r.FirstFrom start p) (hfits : p + r.size ≤ stop) :
      Answers stop start r (some p) (p + r.size)

/-- Requests one after the other. -/
inductive Run (stop : ℕ) : ℕ → List Request → List (Option ℕ) → ℕ → Prop
  | nil {start : ℕ} : Run stop start [] [] start
  | cons {start mid last : ℕ} {r : Request} {rs : List Request} {answer : Option ℕ}
      {answers : List (Option ℕ)} (h : Answers stop start r answer mid)
      (hrest : Run stop mid rs answers last) : Run stop start (r :: rs) (answer :: answers) last

/-- What has been granted, as starts and ends. -/
def regions : List Request → List (Option ℕ) → List (ℕ × ℕ)
  | r :: rs, some p :: answers => (p, p + r.size) :: regions rs answers
  | _ :: rs, none :: answers => regions rs answers
  | _, _ => []

variable {stop start next last p : ℕ} {r : Request} {rs : List Request} {answer : Option ℕ}
  {answers : List (Option ℕ)}

/-- **A request is refused if and only if it does not fit.** -/
theorem Answers.eq_none_iff (h : Answers stop start r answer next) (hp : r.FirstFrom start p) :
    answer = none ↔ stop < p + r.size := by
  cases h with
  | refused hq hfull => simp [hp.unique hq, hfull]
  | granted hq hfits => simp [hp.unique hq, hfits]

lemma Answers.le (h : Answers stop start r answer next) : start ≤ next := by
  cases h with
  | refused _ _ => exact le_rfl
  | granted hp _ => exact hp.1.1.trans (Nat.le_add_right _ _)

/-- **What is granted is in the range.** -/
theorem Run.regions_inside (h : Run stop start rs answers last) :
    ∀ g ∈ regions rs answers, start ≤ g.1 ∧ g.1 ≤ g.2 ∧ g.2 ≤ stop := by
  induction h with
  | nil => simp [regions]
  | cons hanswer _ ih =>
      cases hanswer with
      | refused _ _ => exact ih
      | granted hp hfits =>
          intro g hg
          rcases List.mem_cons.mp hg with rfl | hg
          · exact ⟨hp.1.1, Nat.le_add_right _ _, hfits⟩
          · have hle := hp.1.1
            obtain ⟨hstart, hrest⟩ := ih g hg
            exact ⟨by omega, hrest⟩

/-- **What is granted later is above what was granted before.** -/
theorem Run.regions_stacked (h : Run stop start rs answers last) :
    (regions rs answers).Pairwise fun g g' => g.2 ≤ g'.1 := by
  induction h with
  | nil => exact List.Pairwise.nil
  | cons hanswer hrest ih =>
      cases hanswer with
      | refused _ _ => exact ih
      | granted hp hfits =>
          exact List.pairwise_cons.mpr ⟨fun g hg => (hrest.regions_inside g hg).1, ih⟩

end Bump
