import Mathlib.Data.Set.Finite.Basic
import Mathlib.Logic.Relation
import Mathlib.Tactic.Common

/-!
# Loops that may run forever

A `loop { .. }` whose body either goes on with new values of its variables or leaves with a result.
`Loop.run` bounds the number of turns; "the loop ends with `r`" is `∃ fuel, run body fuel s = some r`.

* `Loop.run_eq_some`, `Loop.run_of_visits`: a loop that ends does so in a state that it visits.
* `Loop.ends_unique`: it does not matter which bound was given.
* `Loop.invariant`: what one turn keeps holds where the loop ends.
* `Loop.ends_iff_of_finite`, `Loop.ends_iff`: with finitely many states, a loop ends unless it comes
  back to where it was.
-/

namespace Loop

/-- One turn of a loop. -/
inductive Turn (σ ρ : Type) : Type
  | next (s : σ)
  | done (r : ρ)

variable {σ ρ : Type} {body : σ → Turn σ ρ} {s : σ} {r : ρ}

/-- At most `fuel` turns. -/
def run (body : σ → Turn σ ρ) : (fuel : ℕ) → σ → Option ρ
  | 0, _ => none
  | fuel + 1, s =>
      match body s with
      | .next t => run body fuel t
      | .done r => some r

/-- The loop reaches `t` from `s`. -/
def Visits (body : σ → Turn σ ρ) : σ → σ → Prop :=
  Relation.ReflTransGen fun s t => body s = .next t

lemma run_next {fuel : ℕ} {t : σ} (h : body s = .next t) :
    run body (fuel + 1) s = run body fuel t := by
  simp only [run, h]

lemma run_done {fuel : ℕ} (h : body s = .done r) : run body (fuel + 1) s = some r := by
  simp only [run, h]

/-- A loop that ends leaves from a state it visits. -/
theorem run_eq_some {fuel : ℕ} (h : run body fuel s = some r) :
    ∃ t, Visits body s t ∧ body t = .done r := by
  induction fuel generalizing s with
  | zero => cases h
  | succ fuel ih =>
      cases hbody : body s with
      | next t =>
          rw [run_next hbody] at h
          obtain ⟨u, hvisits, hdone⟩ := ih h
          exact ⟨u, Relation.ReflTransGen.head hbody hvisits, hdone⟩
      | done r' =>
          rw [run_done hbody] at h
          cases h
          exact ⟨s, Relation.ReflTransGen.refl, hbody⟩

/-- Two bounds that are both large enough give the same result. -/
theorem ends_unique {m n : ℕ} {r' : ρ} (hm : run body m s = some r)
    (hn : run body n s = some r') : r = r' := by
  induction m generalizing n s with
  | zero => cases hm
  | succ m ih =>
      cases n with
      | zero => cases hn
      | succ n =>
          cases hbody : body s with
          | next t =>
              rw [run_next hbody] at hm hn
              exact ih hm hn
          | done q =>
              rw [run_done hbody] at hm hn
              exact Option.some.inj (hm.symm.trans hn)

/-- What every turn keeps holds in every state the loop visits. -/
theorem invariant (I : σ → Prop) (hstep : ∀ s t, I s → body s = .next t → I t) {t : σ} (hs : I s)
    (h : Visits body s t) : I t := by
  induction h with
  | refl => exact hs
  | tail _ hturn ih => exact hstep _ _ ih hturn

/-! ## Loops that end -/

/-- The loop comes back to `s`. -/
def Returns (body : σ → Turn σ ρ) (s : σ) : Prop :=
  Relation.TransGen (fun s t => body s = .next t) s s

/-- A loop that ends also ends from where it goes, and sooner. -/
lemma run_of_steps {fuel : ℕ} {t : σ}
    (hsteps : Relation.TransGen (fun s t => body s = .next t) s t)
    (h : run body fuel s = some r) : ∃ fuel' < fuel, run body fuel' t = some r := by
  induction hsteps with
  | single hturn =>
      cases fuel with
      | zero => cases h
      | succ fuel =>
          rw [run_next hturn] at h
          exact ⟨fuel, Nat.lt_succ_self fuel, h⟩
  | tail _ hturn ih =>
      obtain ⟨fuel', hlt, h'⟩ := ih
      cases fuel' with
      | zero => cases h'
      | succ fuel' =>
          rw [run_next hturn] at h'
          exact ⟨fuel', Nat.lt_of_succ_lt hlt, h'⟩

/-- A loop that comes back to where it was never ends. -/
theorem run_eq_none_of_returns (hreturns : Returns body s) (fuel : ℕ) : run body fuel s = none := by
  induction fuel using Nat.strong_induction_on with
  | _ fuel ih =>
      cases h : run body fuel s with
      | none => rfl
      | some r =>
          obtain ⟨fuel', hlt, h'⟩ := run_of_steps hreturns h
          rw [ih fuel' hlt] at h'
          cases h'

/-- The state after so many turns of a loop that does not leave. -/
def trail (body : σ → Turn σ ρ) (s : σ) : ℕ → σ
  | 0 => s
  | n + 1 =>
      match body (trail body s n) with
      | .next t => t
      | .done _ => trail body s n

/-- A loop that never ends goes on from every state of its trail. -/
lemma trail_next (h : ∀ fuel, run body fuel s = none) (n : ℕ) :
    (∀ fuel, run body fuel (trail body s n) = none) ∧
      body (trail body s n) = .next (trail body s (n + 1)) := by
  have hgoes : ∀ {t : σ}, (∀ fuel, run body fuel t = none) → ∃ u, body t = .next u := by
    intro t ht
    cases hbody : body t with
    | next u => exact ⟨u, rfl⟩
    | done r =>
        have := ht 1
        rw [run_done hbody] at this
        cases this
  have hnever : ∀ fuel, run body fuel (trail body s n) = none := by
    induction n with
    | zero => exact h
    | succ n ih =>
        obtain ⟨u, hu⟩ := hgoes ih
        intro fuel
        have := ih (fuel + 1)
        rw [run_next hu] at this
        simpa only [trail, hu] using this
  obtain ⟨u, hu⟩ := hgoes hnever
  exact ⟨hnever, by rw [trail, hu]⟩

/-- A loop that visits finitely many states ends unless it comes back to one of them. -/
theorem ends_iff_of_finite (hfinite : {t | Visits body s t}.Finite) :
    (∃ fuel r, run body fuel s = some r) ↔ ∀ t, Visits body s t → ¬ Returns body t := by
  constructor
  · rintro ⟨fuel, r, h⟩ t hvisits hreturns
    rcases Relation.reflTransGen_iff_eq_or_transGen.mp hvisits with rfl | hsteps
    · rw [run_eq_none_of_returns hreturns] at h
      cases h
    · obtain ⟨fuel', -, h'⟩ := run_of_steps hsteps h
      rw [run_eq_none_of_returns hreturns] at h'
      cases h'
  · intro hnever
    by_contra hends
    push Not at hends
    have hnone : ∀ fuel, run body fuel s = none := by
      intro fuel
      cases h : run body fuel s with
      | none => rfl
      | some r => exact absurd h (hends fuel r)
    have hsteps : ∀ {i j}, i < j →
        Relation.TransGen (fun s t => body s = .next t) (trail body s i) (trail body s j) := by
      intro i j hij
      induction j, hij using Nat.le_induction with
      | base => exact .single (trail_next hnone i).2
      | succ j _ ih => exact ih.tail (trail_next hnone j).2
    have hvisits : ∀ i, Visits body s (trail body s i) := by
      intro i
      rcases Nat.eq_zero_or_pos i with rfl | hpos
      · exact .refl
      · exact (hsteps hpos).to_reflTransGen
    -- of infinitely many turns, two start in the same state
    obtain ⟨m, -, n, -, hne, heq⟩ := Set.infinite_univ.exists_ne_map_eq_of_mapsTo
      (fun i _ => hvisits i) hfinite
    rcases Nat.lt_or_gt_of_ne hne with hlt | hlt
    · refine hnever _ (hvisits m) ?_
      have := hsteps hlt
      rwa [← heq] at this
    · refine hnever _ (hvisits n) ?_
      have := hsteps hlt
      rwa [heq] at this

/-- **With finitely many states, a loop ends unless it comes back to a state that it has visited.** -/
theorem ends_iff [Finite σ] : (∃ fuel r, run body fuel s = some r) ↔
    ∀ t, Visits body s t → ¬ Returns body t :=
  ends_iff_of_finite (Set.toFinite _)

end Loop
