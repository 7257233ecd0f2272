import DeravelOs.Lib.Dyadic
import Mathlib.Data.Set.Pairwise.Basic

/-!
# An allocator of aligned blocks, in the abstract

What an allocator of power-of-two blocks is for, without any data structure: a set of free
numbers and a set of live blocks, each a base together with the size that was requested for it.
Taking a block removes its extent from the free set, giving it back restores it.  `Arena.WF`
relates an arena to the set of numbers it started from, and both operations keep it.
-/

namespace Dyadic

/-- The smallest `k` with `request ≤ 2 ^ k`. -/
def blockOrder (request : ℕ) : ℕ := Nat.clog 2 request

lemma le_two_pow_blockOrder (request : ℕ) : request ≤ 2 ^ blockOrder request :=
  Nat.le_pow_clog (by norm_num) request

lemma blockOrder_le_iff {request n : ℕ} : blockOrder request ≤ n ↔ request ≤ 2 ^ n :=
  Nat.clog_le_iff_le_pow (by norm_num)

/-- A request that does not fit half of `2 ^ n` needs all of it. -/
lemma blockOrder_eq {request n : ℕ} (hlo : 2 ^ n / 2 < request) (hhi : request ≤ 2 ^ n) :
    blockOrder request = n := by
  refine le_antisymm (blockOrder_le_iff.mpr hhi) ?_
  by_contra hlt
  cases n with
  | zero => exact hlt (Nat.zero_le _)
  | succ m =>
      have hle : request ≤ 2 ^ m := blockOrder_le_iff.mp (by omega)
      rw [pow_succ] at hlo
      omega

/-- The numbers that a live block (base, request) occupies. -/
def extent (b : ℕ × ℕ) : Set ℕ := block (blockOrder b.2) b.1

@[simp] lemma mem_extent {b : ℕ × ℕ} {a : ℕ} :
    a ∈ extent b ↔ b.1 ≤ a ∧ a < b.1 + 2 ^ blockOrder b.2 := Iff.rfl

lemma left_mem_extent (b : ℕ × ℕ) : b.1 ∈ extent b := left_mem_block _ _

/-! ## Live blocks of two halves -/

/-- Blocks of the lower half `A` and, moved up by `2 ^ n`, of the upper half `B`. -/
def glueLive (n : ℕ) (A B : Set (ℕ × ℕ)) : Set (ℕ × ℕ) :=
  {b | b.1 < 2 ^ n ∧ b ∈ A ∨ 2 ^ n ≤ b.1 ∧ (b.1 - 2 ^ n, b.2) ∈ B}

lemma mem_glueLive {n : ℕ} {A B : Set (ℕ × ℕ)} {b : ℕ × ℕ} :
    b ∈ glueLive n A B ↔ b.1 < 2 ^ n ∧ b ∈ A ∨ 2 ^ n ≤ b.1 ∧ (b.1 - 2 ^ n, b.2) ∈ B := Iff.rfl

lemma glueLive_empty (n : ℕ) : glueLive n ∅ ∅ = ∅ := by
  ext b; simp [glueLive]

section

variable {n : ℕ} {A B : Set (ℕ × ℕ)} {b : ℕ × ℕ}

/-- A block of the upper half, moved up. -/
lemma up_eq_iff {c : ℕ × ℕ} : c = (b.1 + 2 ^ n, b.2) ↔ 2 ^ n ≤ c.1 ∧ (c.1 - 2 ^ n, c.2) = b := by
  obtain ⟨b1, b2⟩ := b
  obtain ⟨c1, c2⟩ := c
  simp only [Prod.mk.injEq]
  omega

lemma glueLive_insert_left (hb : b.1 < 2 ^ n) :
    glueLive n (insert b A) B = insert b (glueLive n A B) := by
  ext c
  simp only [mem_glueLive, Set.mem_insert_iff]
  constructor
  · rintro (⟨h, rfl | hc⟩ | hc)
    · exact Or.inl rfl
    · exact Or.inr (Or.inl ⟨h, hc⟩)
    · exact Or.inr (Or.inr hc)
  · rintro (rfl | ⟨h, hc⟩ | hc)
    · exact Or.inl ⟨hb, Or.inl rfl⟩
    · exact Or.inl ⟨h, Or.inr hc⟩
    · exact Or.inr hc

lemma glueLive_insert_right :
    glueLive n A (insert b B) = insert (b.1 + 2 ^ n, b.2) (glueLive n A B) := by
  ext c
  simp only [mem_glueLive, Set.mem_insert_iff, up_eq_iff]
  tauto

lemma glueLive_diff_left (hb : b.1 < 2 ^ n) :
    glueLive n (A \ {b}) B = glueLive n A B \ {b} := by
  ext c
  simp only [mem_glueLive, Set.mem_sdiff, Set.mem_singleton_iff]
  constructor
  · rintro (⟨h, hc, hne⟩ | ⟨h, hc⟩)
    · exact ⟨Or.inl ⟨h, hc⟩, hne⟩
    · exact ⟨Or.inr ⟨h, hc⟩, fun hcb => by rw [hcb] at h; omega⟩
  · rintro ⟨⟨h, hc⟩ | hc, hne⟩
    · exact Or.inl ⟨h, hc, hne⟩
    · exact Or.inr hc

lemma glueLive_diff_right :
    glueLive n A (B \ {b}) = glueLive n A B \ {(b.1 + 2 ^ n, b.2)} := by
  ext c
  simp only [mem_glueLive, Set.mem_sdiff, Set.mem_singleton_iff, up_eq_iff]
  constructor
  · rintro (⟨h, hc⟩ | ⟨h, hc, hne⟩)
    · exact ⟨Or.inl ⟨h, hc⟩, by omega⟩
    · exact ⟨Or.inr ⟨h, hc⟩, by tauto⟩
  · tauto

end

/-- Free numbers and live blocks. -/
structure Arena where
  free : Set ℕ
  live : Set (ℕ × ℕ)

namespace Arena

/-- Take the block `b`. -/
def take (s : Arena) (b : ℕ × ℕ) : Arena where
  free := s.free \ extent b
  live := insert b s.live

/-- Give the block `b` back. -/
def give (s : Arena) (b : ℕ × ℕ) : Arena where
  free := s.free ∪ extent b
  live := s.live \ {b}

/-- Withdraw the numbers of `S` for good. -/
def remove (s : Arena) (S : Set ℕ) : Arena where
  free := s.free \ S
  live := s.live

/-- Two arenas of `2 ^ n` numbers side by side. -/
def glue (n : ℕ) (s t : Arena) : Arena where
  free := Dyadic.glue n s.free t.free
  live := glueLive n s.live t.live

section

variable {n : ℕ} {s t : Arena} {b : ℕ × ℕ}

lemma take_glue_left (hb : b.1 + 2 ^ blockOrder b.2 ≤ 2 ^ n) :
    (s.take b).glue n t = (s.glue n t).take b := by
  have hlt : b.1 < 2 ^ n := lt_of_lt_of_le (Nat.lt_add_of_pos_right (by positivity)) hb
  simp only [glue, take, extent, glue_diff_left hb, glueLive_insert_left hlt]

lemma take_glue_right :
    s.glue n (t.take b) = (s.glue n t).take (b.1 + 2 ^ n, b.2) := by
  simp only [glue, take, extent, glue_diff_right, glueLive_insert_right]

lemma give_glue_left (hb : b.1 + 2 ^ blockOrder b.2 ≤ 2 ^ n) :
    (s.give b).glue n t = (s.glue n t).give b := by
  have hlt : b.1 < 2 ^ n := lt_of_lt_of_le (Nat.lt_add_of_pos_right (by positivity)) hb
  simp only [glue, give, extent, glue_union_left hb, glueLive_diff_left hlt]

lemma give_glue_right :
    s.glue n (t.give b) = (s.glue n t).give (b.1 + 2 ^ n, b.2) := by
  simp only [glue, give, extent, glue_union_right, glueLive_diff_right]

/-- Withdrawing a range that may cover parts of both halves. -/
lemma remove_glue {start stop : ℕ} :
    (s.remove (Set.Ico start (min stop (2 ^ n)))).glue n
        (t.remove (Set.Ico (max start (2 ^ n) - 2 ^ n) (stop - 2 ^ n)))
      = (s.glue n t).remove (Set.Ico start stop) := by
  simp only [glue, remove, mk.injEq, and_true]
  ext a
  simp only [mem_glue, Set.mem_sdiff, Set.mem_Ico]
  constructor
  · rintro (⟨h, hA, hn⟩ | ⟨h, hB, hn⟩)
    · exact ⟨Or.inl ⟨h, hA⟩, by omega⟩
    · exact ⟨Or.inr ⟨h, hB⟩, by omega⟩
  · rintro ⟨⟨h, hA⟩ | ⟨h, hB⟩, hn⟩
    · exact Or.inl ⟨h, hA, by omega⟩
    · exact Or.inr ⟨h, hB, by omega⟩

lemma remove_of_empty {S : Set ℕ} (hS : S = ∅) : s.remove S = s := by
  simp [remove, hS]

end

/-- `s` results from taking and giving back aligned blocks of `U`. -/
structure WF (U : Set ℕ) (s : Arena) : Prop where
  mem_free : ∀ a, a ∈ s.free ↔ a ∈ U ∧ ∀ b ∈ s.live, a ∉ extent b
  inside : ∀ b ∈ s.live, extent b ⊆ U
  aligned : ∀ b ∈ s.live, 2 ^ blockOrder b.2 ∣ b.1
  disjoint : s.live.PairwiseDisjoint extent

variable {U : Set ℕ} {s : Arena} {b : ℕ × ℕ}

/-- Nothing is taken yet. -/
lemma WF.start (U : Set ℕ) : WF U ⟨U, ∅⟩ where
  mem_free := by simp
  inside := by simp
  aligned := by simp
  disjoint := by simp

/-- A live block has no free number in it. -/
lemma WF.not_free (h : WF U s) {a : ℕ} (hb : b ∈ s.live) (ha : a ∈ extent b) : a ∉ s.free :=
  fun hfree => ((h.mem_free a).mp hfree).2 b hb ha

/-- Taking a free aligned block. -/
theorem WF.take (h : WF U s) (hal : 2 ^ blockOrder b.2 ∣ b.1) (hfree : extent b ⊆ s.free) :
    WF U (s.take b) where
  mem_free a := by
    simp only [Arena.take, Set.mem_sdiff, h.mem_free a, Set.mem_insert_iff, forall_eq_or_imp]
    tauto
  inside c hc := by
    rcases Set.mem_insert_iff.mp hc with rfl | hc
    · exact fun a ha => ((h.mem_free a).mp (hfree ha)).1
    · exact h.inside c hc
  aligned c hc := by
    rcases Set.mem_insert_iff.mp hc with rfl | hc
    · exact hal
    · exact h.aligned c hc
  disjoint := by
    refine h.disjoint.insert fun c hc _ => Set.disjoint_left.mpr fun a hab hac => ?_
    exact h.not_free hc hac (hfree hab)

/-- Giving a live block back. -/
theorem WF.give (h : WF U s) (hb : b ∈ s.live) : WF U (s.give b) where
  mem_free a := by
    simp only [Arena.give, Set.mem_union, h.mem_free a, Set.mem_sdiff, Set.mem_singleton_iff]
    constructor
    · rintro (⟨hU, hall⟩ | ha)
      · exact ⟨hU, fun c hc => hall c hc.1⟩
      · exact ⟨h.inside b hb ha,
          fun c hc hac => hc.2 (h.disjoint.elim_set hc.1 hb a hac ha)⟩
    · rintro ⟨hU, hall⟩
      by_cases ha : a ∈ extent b
      · exact Or.inr ha
      · refine Or.inl ⟨hU, fun c hc => ?_⟩
        by_cases hcb : c = b
        · exact hcb ▸ ha
        · exact hall c ⟨hc, hcb⟩
  inside c hc := h.inside c hc.1
  aligned c hc := h.aligned c hc.1
  disjoint := h.disjoint.subset Set.sdiff_subset

/-- Withdrawing free numbers. -/
theorem WF.remove (h : WF U s) {S : Set ℕ} (hS : S ⊆ s.free) : WF (U \ S) (s.remove S) where
  mem_free a := by
    simp only [Arena.remove, Set.mem_sdiff, h.mem_free a]
    tauto
  inside c hc a ha := ⟨h.inside c hc ha, fun haS => h.not_free hc ha (hS haS)⟩
  aligned := h.aligned
  disjoint := h.disjoint

/-- With no live block, everything is free again. -/
lemma WF.free_eq (h : WF U s) (hlive : s.live = ∅) : s.free = U := by
  ext a
  simp [h.mem_free a, hlive]

end Arena

end Dyadic
