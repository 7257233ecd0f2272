import Mathlib.Tactic.Common

/-!
# How computations fail

A computation in `Except ε` either returns or fails.  `OnlyFails x E` bounds the ways in which it
fails, whatever it returns otherwise; `Meets x E P` bounds also what it returns.  There is one rule for
each way to build a computation.

Nothing is assumed about the errors.
-/

namespace Failure

variable {ε α β σ : Type} {E E' : ε → Prop}

/-- Whenever `x` fails, it fails with an error in `E`. -/
def OnlyFails (x : Except ε α) (E : ε → Prop) : Prop := ∀ ⦃e⦄, x = .error e → E e

lemma OnlyFails.mono {x : Except ε α} (h : OnlyFails x E) (hsub : ∀ e, E e → E' e) :
    OnlyFails x E' := fun _ he => hsub _ (h he)

lemma OnlyFails.pure {a : α} : OnlyFails (Pure.pure a : Except ε α) E := by
  intro e he
  cases he

lemma OnlyFails.ok {a : α} : OnlyFails (.ok a : Except ε α) E := by
  intro e he
  cases he

lemma OnlyFails.of_ok {x : Except ε α} (h : ∃ a, x = .ok a) : OnlyFails x E := by
  obtain ⟨a, rfl⟩ := h
  exact .ok

lemma OnlyFails.throw {e : ε} (h : E e) : OnlyFails (MonadExcept.throw e : Except ε α) E := by
  intro e' he
  cases he
  exact h

lemma OnlyFails.bind {x : Except ε α} {f : α → Except ε β} (hx : OnlyFails x E)
    (hf : ∀ a, x = .ok a → OnlyFails (f a) E) : OnlyFails (x >>= f) E := by
  cases hcase : x with
  | error e =>
      intro e' he
      cases he
      exact hx hcase
  | ok a => exact hf a hcase

lemma OnlyFails.map {x : Except ε α} {f : α → β} (hx : OnlyFails x E) : OnlyFails (f <$> x) E := by
  cases hcase : x with
  | error e =>
      intro e' he
      cases he
      exact hx hcase
  | ok a => exact .ok

lemma OnlyFails.ite {p : Prop} [Decidable p] {x y : Except ε α} (hx : p → OnlyFails x E)
    (hy : ¬ p → OnlyFails y E) : OnlyFails (if p then x else y) E := by
  split
  · next h => exact hx h
  · next h => exact hy h

/-- A loop fails as its body does. -/
lemma OnlyFails.foldlM {f : σ → α → Except ε σ} {l : List α}
    (h : ∀ a ∈ l, ∀ s, OnlyFails (f s a) E) : ∀ {s : σ}, OnlyFails (l.foldlM f s) E := by
  induction l with
  | nil =>
      intro s
      exact .pure
  | cons a l ih =>
      intro s
      rw [List.foldlM_cons]
      refine (h a List.mem_cons_self s).bind fun t _ => ?_
      exact ih fun b hb => h b (List.mem_cons_of_mem _ hb)

/-- A loop fails as its body does where its invariant holds. -/
lemma OnlyFails.foldlM_keeps {f : σ → α → Except ε σ} {I : σ → Prop}
    (hstep : ∀ a s t, I s → f s a = .ok t → I t) (h : ∀ a s, I s → OnlyFails (f s a) E) {l : List α} :
    ∀ {s : σ}, I s → OnlyFails (l.foldlM f s) E := by
  induction l with
  | nil =>
      intro s _
      exact .pure
  | cons a l ih =>
      intro s hs
      rw [List.foldlM_cons]
      exact (h a s hs).bind fun t ht => ih (hstep a s t hs ht)

lemma OnlyFails.mapM {f : α → Except ε β} {l : List α} (h : ∀ a ∈ l, OnlyFails (f a) E) :
    OnlyFails (l.mapM f) E := by
  induction l with
  | nil => exact .pure
  | cons a l ih =>
      rw [List.mapM_cons]
      refine (h a List.mem_cons_self).bind fun b _ => ?_
      refine (ih fun a' ha' => h a' (List.mem_cons_of_mem _ ha')).bind fun bs _ => ?_
      exact .pure

/-- `x` fails only in `E`, and what it returns is as `P` says. -/
def Meets (x : Except ε α) (E : ε → Prop) (P : α → Prop) : Prop :=
  OnlyFails x E ∧ ∀ a, x = .ok a → P a

variable {x : Except ε α} {f : α → Except ε β} {P P' : α → Prop} {Q : β → Prop}

lemma Meets.pure {a : α} (h : P a) : Meets (Pure.pure a : Except ε α) E P := by
  refine ⟨.pure, fun b hb => ?_⟩
  cases hb
  exact h

lemma Meets.throw {e : ε} (h : E e) : Meets (MonadExcept.throw e : Except ε α) E P :=
  ⟨.throw h, fun a ha => by cases ha⟩

lemma Meets.of_ok {a : α} (h : x = .ok a) (ha : P a) : Meets x E P := by
  subst h
  exact .pure ha

lemma Meets.mono (h : Meets x E P) (hE : ∀ e, E e → E' e) (hP : ∀ a, P a → P' a) : Meets x E' P' :=
  ⟨h.1.mono hE, fun a ha => hP a (h.2 a ha)⟩

lemma Meets.bind (hx : Meets x E P) (hf : ∀ a, P a → Meets (f a) E Q) : Meets (x >>= f) E Q := by
  refine ⟨hx.1.bind fun a ha => (hf a (hx.2 a ha)).1, fun b hb => ?_⟩
  cases hcase : x with
  | error e =>
      subst hcase
      cases hb
  | ok a =>
      subst hcase
      exact (hf a (hx.2 a rfl)).2 b hb

lemma Meets.ite {p : Prop} [Decidable p] {y z : Except ε α} (hy : p → Meets y E P)
    (hz : ¬ p → Meets z E P) : Meets (if p then y else z) E P := by
  split
  · next h => exact hy h
  · next h => exact hz h

/-- A loop keeps what its body keeps. -/
lemma Meets.foldlM {step : σ → α → Except ε σ} {I : σ → Prop} {l : List α} :
    ∀ {s : σ}, (∀ a ∈ l, ∀ s, I s → Meets (step s a) E I) → I s → Meets (l.foldlM step s) E I := by
  induction l with
  | nil => exact fun _ hs => .pure hs
  | cons a l ih =>
      intro s h hs
      rw [List.foldlM_cons]
      exact (h a List.mem_cons_self s hs).bind fun t ht =>
        ih (fun b hb => h b (List.mem_cons_of_mem _ hb)) ht

end Failure
