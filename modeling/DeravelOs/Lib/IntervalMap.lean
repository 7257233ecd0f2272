import Mathlib.Data.List.Basic
import Mathlib.Data.List.Range
import Mathlib.Order.Interval.Set.Basic
import Mathlib.Data.Set.Lattice
import Mathlib.Order.CompletePartialOrder
import Mathlib.Tactic.Common
import Mathlib.Tactic.Ring

/-!
# Filling and clearing intervals of a map

A data structure `σ` that represents a partial map from natural numbers, with operations that can
fail.  `View` says how the map is read, which values of `σ` are well formed, and for which keys
the map answers.

* `Fills V value a b op`: `op` succeeds exactly when no key of `[a, b)` is taken, and then gives
  every key of `[a, b)` its value and leaves every other key alone.
* `Clears V expected a b op`: `op`, when it succeeds, frees `[a, b)` and leaves every other key
  alone; and it succeeds when every key of `[a, b)` has an expected value.

Both compose over adjacent intervals, and everything that does composes over equal steps
(`Compositional.steps`).
-/

namespace IntervalMap

/-- How a data structure is read as a partial map. -/
structure View (σ α : Type) where
  look : σ → ℕ → Option α
  wf : σ → Prop
  dom : Set ℕ

variable {σ α ε : Type} {V : View σ α} {value value' : ℕ → α} {expected : ℕ → α → Prop}
  {a b c : ℕ} {op op' : σ → Except ε σ}

/-- No key of `[a, b)` is taken. -/
def View.Vacant (V : View σ α) (a b : ℕ) (s : σ) : Prop :=
  ∀ v ∈ Set.Ico a b, V.look s v = none

/-- `t` differs from `s` on `[a, b)` only. -/
def View.Frame (V : View σ α) (a b : ℕ) (s t : σ) : Prop :=
  ∀ v ∈ V.dom, v ∉ Set.Ico a b → V.look t v = V.look s v

/-- `t` is `s` with every key of `[a, b)` given its value. -/
structure View.Filled (V : View σ α) (value : ℕ → α) (a b : ℕ) (s t : σ) : Prop where
  wf : V.wf t
  inside : ∀ v ∈ Set.Ico a b, V.look t v = some (value v)
  frame : V.Frame a b s t

/-- `t` is `s` without the keys of `[a, b)`. -/
structure View.Cleared (V : View σ α) (a b : ℕ) (s t : σ) : Prop where
  wf : V.wf t
  inside : V.Vacant a b t
  frame : V.Frame a b s t

/-- Every key of `[a, b)` has an expected value. -/
def View.Holds (V : View σ α) (expected : ℕ → α → Prop) (a b : ℕ) (s : σ) : Prop :=
  ∀ v ∈ Set.Ico a b, ∃ x, V.look s v = some x ∧ expected v x

/-- `op` fills a vacant interval, and fails on any other. -/
def Fills (V : View σ α) (value : ℕ → α) (a b : ℕ) (op : σ → Except ε σ) : Prop :=
  ∀ s, V.wf s → (∀ t, op s = .ok t → V.Vacant a b s) ∧
    (V.Vacant a b s → ∃ t, op s = .ok t ∧ V.Filled value a b s t)

/-- `op` does nothing but clear an interval, and does so when the interval holds what is
expected. -/
def Clears (V : View σ α) (expected : ℕ → α → Prop) (a b : ℕ) (op : σ → Except ε σ) : Prop :=
  ∀ s, V.wf s → (∀ t, op s = .ok t → V.Cleared a b s t) ∧
    (V.Holds expected a b s → ∃ t, op s = .ok t)

lemma View.Frame.refl (s : σ) : V.Frame a b s s := fun _ _ _ => rfl

lemma View.Frame.trans {s t u : σ} (hab : a ≤ b) (hbc : b ≤ c) (h : V.Frame a b s t)
    (h' : V.Frame b c t u) : V.Frame a c s u := by
  intro v hv hnot
  have hab' : v ∉ Set.Ico a b := fun hmem => hnot ⟨hmem.1, lt_of_lt_of_le hmem.2 hbc⟩
  have hbc' : v ∉ Set.Ico b c := fun hmem => hnot ⟨le_trans hab hmem.1, hmem.2⟩
  rw [h' v hv hbc', h v hv hab']

/-- A frame on one side of `b` does not touch the other side. -/
lemma View.Frame.above {s t : σ} (hdom : Set.Ico a c ⊆ V.dom) (hab : a ≤ b)
    (h : V.Frame a b s t) : ∀ v ∈ Set.Ico b c, V.look t v = V.look s v :=
  fun v hv => h v (hdom ⟨le_trans hab hv.1, hv.2⟩) fun hmem => absurd hmem.2 (not_lt.mpr hv.1)

lemma View.Frame.below {s t : σ} (hdom : Set.Ico a c ⊆ V.dom) (hbc : b ≤ c)
    (h : V.Frame b c s t) : ∀ v ∈ Set.Ico a b, V.look t v = V.look s v :=
  fun v hv => h v (hdom ⟨hv.1, lt_of_lt_of_le hv.2 hbc⟩) fun hmem => absurd hv.2 (not_lt.mpr hmem.1)

lemma bind_ok {x : Except ε σ} {f : σ → Except ε σ} {t : σ} :
    x >>= f = .ok t ↔ ∃ s, x = .ok s ∧ f s = .ok t := by
  cases x <;> simp [bind, Except.bind]

/-! ## Composition -/

/-- A property of an interval and an operation that adjacent intervals share. -/
structure Compositional (dom : Set ℕ) (P : ℕ → ℕ → (σ → Except ε σ) → Prop) : Prop where
  nil : ∀ a, P a a pure
  seq : ∀ {a b c op op'}, Set.Ico a c ⊆ dom → a ≤ b → b ≤ c → P a b op → P b c op' →
    P a c fun s => op s >>= op'

/-- An interval of `n` equal steps, one after the other. -/
lemma Compositional.steps {dom : Set ℕ} {P : ℕ → ℕ → (σ → Except ε σ) → Prop}
    (hP : Compositional dom P) {f : ℕ → σ → Except ε σ} {step n : ℕ}
    (hdom : Set.Ico a (a + n * step) ⊆ dom)
    (h : ∀ k < n, P (a + k * step) (a + k * step + step) (f (a + k * step))) :
    P a (a + n * step) fun s => (List.range' a n step).foldlM (fun s v => f v s) s := by
  induction n generalizing a with
  | zero =>
      rw [Nat.zero_mul, Nat.add_zero]
      exact hP.nil a
  | succ n ih =>
      have hend : a + (n + 1) * step = a + step + n * step := by ring
      have hfirst : P a (a + step) (f a) := by simpa using h 0 n.succ_pos
      have hrest := ih (a := a + step)
        (fun v hv => hdom ⟨le_trans (Nat.le_add_right _ _) hv.1, by rw [hend]; exact hv.2⟩)
        fun k hk => by
          have := h (k + 1) (Nat.succ_lt_succ hk)
          rwa [show a + (k + 1) * step = a + step + k * step by ring] at this
      simp only [List.range'_succ, List.foldlM_cons]
      rw [hend] at hdom ⊢
      exact hP.seq hdom (Nat.le_add_right _ _) (Nat.le_add_right _ _) hfirst hrest

/-! ## Filling -/

namespace Fills

/-- Nothing to do for an empty interval. -/
lemma nil : Fills V value a a (pure : σ → Except ε σ) := by
  intro s hs
  refine ⟨fun t _ v hv => absurd hv (by simp), fun _ => ⟨s, rfl, hs, fun v hv => ?_, .refl s⟩⟩
  exact absurd hv (by simp)

/-- Two adjacent intervals. -/
lemma seq (hdom : Set.Ico a c ⊆ V.dom) (hab : a ≤ b) (hbc : b ≤ c) (h : Fills V value a b op)
    (h' : Fills V value b c op') : Fills V value a c fun s => op s >>= op' := by
  intro s hs
  constructor
  · rintro u hu v hv
    obtain ⟨t, ht, hu⟩ := bind_ok.mp hu
    have hvacant := (h s hs).1 t ht
    obtain ⟨t', ht', hfilled⟩ := (h s hs).2 hvacant
    cases ht.symm.trans ht'
    by_cases hvb : v < b
    · exact hvacant v ⟨hv.1, hvb⟩
    · rw [← hfilled.frame.above hdom hab v ⟨not_lt.mp hvb, hv.2⟩]
      exact (h' t hfilled.wf).1 u hu v ⟨not_lt.mp hvb, hv.2⟩
  · intro hvacant
    obtain ⟨t, ht, hfilled⟩ := (h s hs).2 fun v hv => hvacant v ⟨hv.1, lt_of_lt_of_le hv.2 hbc⟩
    obtain ⟨u, hu, hfilled'⟩ := (h' t hfilled.wf).2 fun v hv => by
      rw [hfilled.frame.above hdom hab v hv]
      exact hvacant v ⟨le_trans hab hv.1, hv.2⟩
    refine ⟨u, bind_ok.mpr ⟨t, ht, hu⟩, hfilled'.wf, fun v hv => ?_,
      hfilled.frame.trans hab hbc hfilled'.frame⟩
    by_cases hvb : v < b
    · rw [hfilled'.frame.below hdom hbc v ⟨hv.1, hvb⟩]
      exact hfilled.inside v ⟨hv.1, hvb⟩
    · exact hfilled'.inside v ⟨not_lt.mp hvb, hv.2⟩

/-- Only the values in the interval matter. -/
lemma congr (h : Fills V value a b op) (hvalue : ∀ v ∈ Set.Ico a b, value v = value' v) :
    Fills V value' a b op := by
  intro s hs
  refine ⟨(h s hs).1, fun hvacant => ?_⟩
  obtain ⟨t, ht, hfilled⟩ := (h s hs).2 hvacant
  exact ⟨t, ht, hfilled.wf, fun v hv => by rw [hfilled.inside v hv, hvalue v hv], hfilled.frame⟩

/-- Filling composes. -/
lemma compositional :
    Compositional V.dom fun a b (op : σ → Except ε σ) => Fills V value a b op where
  nil _ := nil
  seq := seq

end Fills

/-! ## Clearing -/

namespace Clears

/-- Nothing to do for an empty interval. -/
lemma nil : Clears V expected a a (pure : σ → Except ε σ) := by
  intro s hs
  refine ⟨fun t ht => ?_, fun _ => ⟨s, rfl⟩⟩
  cases ht
  exact ⟨hs, fun v hv => absurd hv (by simp), .refl s⟩

/-- Two adjacent intervals. -/
lemma seq (hdom : Set.Ico a c ⊆ V.dom) (hab : a ≤ b) (hbc : b ≤ c)
    (h : Clears V expected a b op) (h' : Clears V expected b c op') :
    Clears V expected a c fun s => op s >>= op' := by
  intro s hs
  constructor
  · intro u hu
    obtain ⟨t, ht, hu⟩ := bind_ok.mp hu
    have hcleared := (h s hs).1 t ht
    have hcleared' := (h' t hcleared.wf).1 u hu
    refine ⟨hcleared'.wf, fun v hv => ?_, hcleared.frame.trans hab hbc hcleared'.frame⟩
    by_cases hvb : v < b
    · rw [hcleared'.frame.below hdom hbc v ⟨hv.1, hvb⟩]
      exact hcleared.inside v ⟨hv.1, hvb⟩
    · exact hcleared'.inside v ⟨not_lt.mp hvb, hv.2⟩
  · intro hholds
    obtain ⟨t, ht⟩ := (h s hs).2 fun v hv => hholds v ⟨hv.1, lt_of_lt_of_le hv.2 hbc⟩
    have hcleared := (h s hs).1 t ht
    obtain ⟨u, hu⟩ := (h' t hcleared.wf).2 fun v hv => by
      rw [hcleared.frame.above hdom hab v hv]
      exact hholds v ⟨le_trans hab hv.1, hv.2⟩
    exact ⟨u, bind_ok.mpr ⟨t, ht, hu⟩⟩

/-- Only what is expected in the interval matters. -/
lemma congr {expected' : ℕ → α → Prop} (h : Clears V expected a b op)
    (hexpected : ∀ v ∈ Set.Ico a b, ∀ x, expected' v x → expected v x) :
    Clears V expected' a b op := by
  intro s hs
  refine ⟨(h s hs).1, fun hholds => (h s hs).2 fun v hv => ?_⟩
  obtain ⟨x, hx, hxe⟩ := hholds v hv
  exact ⟨x, hx, hexpected v hv x hxe⟩

/-- Clearing composes. -/
lemma compositional :
    Compositional V.dom fun a b (op : σ → Except ε σ) => Clears V expected a b op where
  nil _ := nil
  seq := seq

end Clears

/-- Clearing what was filled gives back a map that answers as before. -/
lemma View.Cleared.look_eq {s t u : σ} (hf : V.Filled value a b s t) (hc : V.Cleared a b t u)
    (hs : V.Vacant a b s) : ∀ v ∈ V.dom, V.look u v = V.look s v := by
  intro v hv
  by_cases hmem : v ∈ Set.Ico a b
  · rw [hc.inside v hmem, hs v hmem]
  · rw [hc.frame v hv hmem, hf.frame v hv hmem]

end IntervalMap
