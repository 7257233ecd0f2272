import Mathlib.Data.List.Basic
import Mathlib.Logic.Relation

/-!
# Bounded queues

A first-in first-out queue with room for a number of elements, as the two histories of its users:
what was pushed and what was polled.  The queue itself is the difference.

* `BoundedQueue.Run.inv`: what was polled is what was pushed first, and the difference has room.
-/

namespace BoundedQueue

variable {α : Type} {room : ℕ}

/-- A queue, as what was put into it and what was taken out of it. -/
structure Queue (α : Type) where
  pushed : List α
  polled : List α

/-- What can happen to a queue. -/
inductive Step (room : ℕ) : Queue α → Queue α → Prop
  | push {q : Queue α} (a : α) (h : q.pushed.length < q.polled.length + room) :
      Step room q { q with pushed := q.pushed ++ [a] }
  | poll {q : Queue α} (a : α) (h : q.pushed[q.polled.length]? = some a) :
      Step room q { q with polled := q.polled ++ [a] }

/-- The queue gives back what it was given, in order, and is never too full. -/
structure Inv (room : ℕ) (q : Queue α) : Prop where
  fifo : q.polled <+: q.pushed
  bounded : q.pushed.length ≤ q.polled.length + room

lemma Inv.empty : Inv room (⟨[], []⟩ : Queue α) where
  fifo := List.nil_prefix
  bounded := by simp

/-- The next element of a prefix can be taken. -/
lemma prefix_append {l₁ l₂ : List α} {a : α} (h : l₁ <+: l₂) (ha : l₂[l₁.length]? = some a) :
    l₁ ++ [a] <+: l₂ := by
  obtain ⟨rest, rfl⟩ := h
  cases rest with
  | nil => simp at ha
  | cons b rest =>
      have hb : b = a := by simpa using ha
      exact ⟨rest, by simp [hb]⟩

lemma Inv.step {q q' : Queue α} (h : Inv room q) (hstep : Step room q q') : Inv room q' := by
  cases hstep with
  | push a hroom =>
      refine ⟨h.fifo.trans (List.prefix_append _ _), ?_⟩
      simp only [List.length_append, List.length_singleton]
      omega
  | poll a ha =>
      refine ⟨prefix_append h.fifo ha, ?_⟩
      have := h.bounded
      simp only [List.length_append, List.length_singleton]
      omega

/-- Some steps of a queue. -/
abbrev Run (room : ℕ) : Queue α → Queue α → Prop := Relation.ReflTransGen (Step room)

/-- **Bounded queues are queues.** -/
theorem Run.inv {q q' : Queue α} (hrun : Run room q q') (h : Inv room q) : Inv room q' := by
  induction hrun with
  | refl => exact h
  | tail _ hstep ih => exact ih.step hstep

end BoundedQueue
