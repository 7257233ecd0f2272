import Mathlib.Tactic.Common

/-!
# Loops that count

A loop `for i in first..first + count` whose body may fail.

* `CountedLoop.run`: the loop.
* `CountedLoop.run_total`: if each turn returns and leads from the invariant of its number to that of the
  next one, the loop returns and ends in the last one.
* `CountedLoop.run_error`: if there is a turn that always fails, the loop fails.
* `CountedLoop.first_of_run`: the first turn of a loop that returns has returned.
-/

namespace CountedLoop

variable {ε σ : Type}

/-- The loop over `first, first + 1, .., first + count - 1`. -/
def run (body : σ → ℕ → Except ε σ) (first count : ℕ) (s : σ) : Except ε σ :=
  (List.range' first count).foldlM body s

variable {body : σ → ℕ → Except ε σ} {first count : ℕ} {s : σ}

lemma run_zero : run body first 0 s = .ok s := rfl

lemma run_succ : run body first (count + 1) s = body s first >>= run body (first + 1) count := by
  rw [run, List.range'_succ, List.foldlM_cons]
  rfl

/-- If the loop returns, so does its first turn. -/
lemma first_of_run {t : σ} (hcount : 0 < count) (h : run body first count s = .ok t) :
    ∃ u, body s first = .ok u := by
  obtain ⟨rest, rfl⟩ := Nat.exists_eq_add_of_lt hcount
  rw [Nat.zero_add, run_succ] at h
  cases hbody : body s first with
  | error e =>
      rw [hbody] at h
      cases h
  | ok u => exact ⟨u, rfl⟩

/-- **A loop whose turns return returns**, with the invariant of the number behind its last one. -/
theorem run_total (I : ℕ → σ → Prop)
    (hstep : ∀ i t, first ≤ i → i < first + count → I i t → ∃ u, body t i = .ok u ∧ I (i + 1) u)
    (h : I first s) : ∃ t, run body first count s = .ok t ∧ I (first + count) t := by
  induction count generalizing first s with
  | zero => exact ⟨s, run_zero, h⟩
  | succ count ih =>
      obtain ⟨u, hbody, hu⟩ := hstep first s (Nat.le_refl first) (by omega) h
      obtain ⟨t, hrun, ht⟩ := ih (fun i t hle hlt => hstep i t (by omega) (by omega)) hu
      refine ⟨t, ?_, ?_⟩
      · rw [run_succ, hbody]
        exact hrun
      · rwa [show first + (count + 1) = first + 1 + count by omega]

/-- **A loop with a turn that always fails fails.** -/
theorem run_error {i : ℕ} (hle : first ≤ i) (hlt : i < first + count)
    (h : ∀ t, ∃ e, body t i = .error e) : ∃ e, run body first count s = .error e := by
  induction count generalizing first s with
  | zero => omega
  | succ count ih =>
      rw [run_succ]
      cases hbody : body s first with
      | error e => exact ⟨e, rfl⟩
      | ok t =>
          -- it was not this turn, so it is one of those that follow
          have hne : first ≠ i := by
            rintro rfl
            obtain ⟨e, he⟩ := h s
            rw [he] at hbody
            cases hbody
          exact ih (by omega) (by omega)

end CountedLoop
