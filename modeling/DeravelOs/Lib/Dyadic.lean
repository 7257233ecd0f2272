import Mathlib.Tactic
import Mathlib.Data.Nat.Log
import Mathlib.Order.Interval.Set.Basic
import Mathlib.Data.Set.Lattice
import Mathlib.Order.CompletePartialOrder

/-!
# Aligned blocks of power-of-two size

A *block* of order `k` at `b` is the set of the `2 ^ k` numbers from `b` on; it is *aligned* when
`2 ^ k` divides `b`.  Aligned blocks are what a binary tree over the numbers below `2 ^ n` can name:
`glue` puts two sets of numbers below `2 ^ n` side by side, and an aligned block of order at most
`n` in the result lies entirely in one of the halves (`hasBlock_glue`).
-/

namespace Dyadic

/-- The block of order `k` at `b`. -/
def block (k b : ℕ) : Set ℕ := Set.Ico b (b + 2 ^ k)

@[simp] lemma mem_block {k b a : ℕ} : a ∈ block k b ↔ b ≤ a ∧ a < b + 2 ^ k := Iff.rfl

lemma left_mem_block (k b : ℕ) : b ∈ block k b := by
  simp

/-- `S` has room for an aligned block of order `k`. -/
def HasBlock (k : ℕ) (S : Set ℕ) : Prop := ∃ b, 2 ^ k ∣ b ∧ block k b ⊆ S

lemma HasBlock.mono {k : ℕ} {S T : Set ℕ} (h : HasBlock k S) (hST : S ⊆ T) : HasBlock k T := by
  obtain ⟨b, hb, hS⟩ := h
  exact ⟨b, hb, hS.trans hST⟩

lemma not_hasBlock_empty (k : ℕ) : ¬ HasBlock k ∅ := by
  rintro ⟨b, -, hb⟩
  exact hb (left_mem_block k b)

/-- All numbers below `2 ^ n` have a block of order `k` exactly when `k ≤ n`. -/
lemma hasBlock_Iio {k n : ℕ} : HasBlock k (Set.Iio (2 ^ n)) ↔ k ≤ n := by
  constructor
  · rintro ⟨b, -, hb⟩
    by_contra hk
    have hlt : 2 ^ n < 2 ^ k := Nat.pow_lt_pow_right (by norm_num) (by omega)
    have hmem : b + 2 ^ n ∈ Set.Iio (2 ^ n) := hb (by simp [hlt])
    simp only [Set.mem_Iio] at hmem
    omega
  · intro hk
    have hle : 2 ^ k ≤ 2 ^ n := Nat.pow_le_pow_right (by norm_num) hk
    refine ⟨0, dvd_zero _, fun a ha => ?_⟩
    simp only [mem_block, Set.mem_Iio] at ha ⊢
    omega

/-- A block of order `n` leaves no room for anything else below `2 ^ n`. -/
lemma eq_Iio_of_hasBlock {n : ℕ} {S : Set ℕ} (hS : S ⊆ Set.Iio (2 ^ n)) (h : HasBlock n S) :
    S = Set.Iio (2 ^ n) := by
  obtain ⟨b, ⟨c, rfl⟩, hb⟩ := h
  have hlast : 2 ^ n * c + (2 ^ n - 1) ∈ S := hb (by simp)
  have hc : c = 0 := by
    have := hS hlast
    simp only [Set.mem_Iio] at this
    by_contra hc
    have : 2 ^ n * 1 ≤ 2 ^ n * c := Nat.mul_le_mul_left _ (by omega)
    omega
  subst hc
  refine hS.antisymm fun a ha => hb ?_
  simpa using ha

/-! ## Gluing two halves -/

/-- The set whose lower half (below `2 ^ n`) is `A` and whose upper half is `B`. -/
def glue (n : ℕ) (A B : Set ℕ) : Set ℕ := {a | a < 2 ^ n ∧ a ∈ A ∨ 2 ^ n ≤ a ∧ a - 2 ^ n ∈ B}

lemma mem_glue {n a : ℕ} {A B : Set ℕ} :
    a ∈ glue n A B ↔ a < 2 ^ n ∧ a ∈ A ∨ 2 ^ n ≤ a ∧ a - 2 ^ n ∈ B := Iff.rfl

lemma mem_glue_of_lt {n a : ℕ} {A B : Set ℕ} (h : a < 2 ^ n) : a ∈ glue n A B ↔ a ∈ A := by
  simp [mem_glue, h]

lemma mem_glue_add {n a : ℕ} {A B : Set ℕ} : a + 2 ^ n ∈ glue n A B ↔ a ∈ B := by
  simp [mem_glue]

lemma glue_empty (n : ℕ) : glue n ∅ ∅ = ∅ := by
  ext a; simp [mem_glue]

lemma glue_subset {n : ℕ} {A B : Set ℕ} (hB : B ⊆ Set.Iio (2 ^ n)) :
    glue n A B ⊆ Set.Iio (2 ^ (n + 1)) := by
  intro a ha
  simp only [Set.mem_Iio, pow_succ]
  rcases ha with ⟨h, -⟩ | ⟨h, hb⟩
  · omega
  · have := hB hb
    simp only [Set.mem_Iio] at this
    omega

lemma glue_Iio {n s : ℕ} :
    glue n (Set.Iio (min (2 ^ n) s)) (Set.Iio (s - 2 ^ n)) = Set.Iio s := by
  ext a
  simp only [mem_glue, Set.mem_Iio]
  omega

lemma glue_full (n : ℕ) :
    glue n (Set.Iio (2 ^ n)) (Set.Iio (2 ^ n)) = Set.Iio (2 ^ (n + 1)) := by
  ext a
  simp only [mem_glue, Set.mem_Iio, pow_succ]
  omega

lemma glue_eq_full_iff {n : ℕ} {A B : Set ℕ} (hA : A ⊆ Set.Iio (2 ^ n))
    (hB : B ⊆ Set.Iio (2 ^ n)) :
    glue n A B = Set.Iio (2 ^ (n + 1)) ↔ A = Set.Iio (2 ^ n) ∧ B = Set.Iio (2 ^ n) := by
  constructor
  · intro h
    have hmem : ∀ a, a < 2 ^ (n + 1) → a ∈ glue n A B := fun a ha => h ▸ ha
    refine ⟨hA.antisymm fun a ha => ?_, hB.antisymm fun a ha => ?_⟩
    · exact (mem_glue_of_lt ha).mp (hmem a (by simp only [Set.mem_Iio, pow_succ] at ha ⊢; omega))
    · exact mem_glue_add.mp (hmem _ (by simp only [Set.mem_Iio, pow_succ] at ha ⊢; omega))
  · rintro ⟨rfl, rfl⟩
    exact glue_full n

/-- The part of a set in the upper half, moved down, is the upper half. -/
lemma block_add_subset_glue {n k b : ℕ} {A B : Set ℕ} :
    block k (b + 2 ^ n) ⊆ glue n A B ↔ block k b ⊆ B := by
  constructor
  · intro h a ha
    refine mem_glue_add.mp (h ?_)
    simp only [mem_block] at ha ⊢
    omega
  · intro h a ha
    simp only [mem_block] at ha
    exact Or.inr ⟨by omega, h (by simp only [mem_block]; omega)⟩

lemma block_subset_glue {n k b : ℕ} {A B : Set ℕ} (hb : b + 2 ^ k ≤ 2 ^ n) :
    block k b ⊆ glue n A B ↔ block k b ⊆ A := by
  have hlt : ∀ a ∈ block k b, a < 2 ^ n := fun a ha => by
    simp only [mem_block] at ha
    omega
  exact ⟨fun h a ha => (mem_glue_of_lt (hlt a ha)).mp (h ha),
    fun h a ha => (mem_glue_of_lt (hlt a ha)).mpr (h ha)⟩

/-- An aligned block of order at most `n` does not straddle `2 ^ n`. -/
lemma add_le_or_le {k n b : ℕ} (hk : k ≤ n) (hb : 2 ^ k ∣ b) : b + 2 ^ k ≤ 2 ^ n ∨ 2 ^ n ≤ b := by
  obtain ⟨c, rfl⟩ := hb
  obtain ⟨d, hd⟩ : 2 ^ k ∣ 2 ^ n := pow_dvd_pow 2 hk
  rw [hd]
  rcases Nat.lt_or_ge c d with hcd | hcd
  · left
    calc 2 ^ k * c + 2 ^ k = 2 ^ k * (c + 1) := by ring
      _ ≤ 2 ^ k * d := Nat.mul_le_mul_left _ hcd
  · right
    exact Nat.mul_le_mul_left _ hcd

/-- **Locality.**  A block of order at most `n` lies in one of the two halves. -/
theorem hasBlock_glue {k n : ℕ} {A B : Set ℕ} (hk : k ≤ n) (hA : A ⊆ Set.Iio (2 ^ n)) :
    HasBlock k (glue n A B) ↔ HasBlock k A ∨ HasBlock k B := by
  constructor
  · rintro ⟨b, hb, hsub⟩
    rcases add_le_or_le hk hb with hlow | hhigh
    · exact Or.inl ⟨b, hb, (block_subset_glue hlow).mp hsub⟩
    · obtain ⟨c, rfl⟩ := Nat.exists_eq_add_of_le' hhigh
      have hc : 2 ^ k ∣ c := (Nat.dvd_add_left (pow_dvd_pow 2 hk)).mp hb
      exact Or.inr ⟨c, hc, block_add_subset_glue.mp hsub⟩
  · rintro (⟨b, hb, hsub⟩ | ⟨b, hb, hsub⟩)
    · refine ⟨b, hb, fun a ha => ?_⟩
      exact (mem_glue_of_lt (hA (hsub ha))).mpr (hsub ha)
    · exact ⟨b + 2 ^ n, (Nat.dvd_add_left (pow_dvd_pow 2 hk)).mpr hb,
        block_add_subset_glue.mpr hsub⟩

/-- The whole of `glue n A B` is one block exactly when both halves are. -/
theorem hasBlock_glue_succ {n : ℕ} {A B : Set ℕ} (hA : A ⊆ Set.Iio (2 ^ n))
    (hB : B ⊆ Set.Iio (2 ^ n)) :
    HasBlock (n + 1) (glue n A B) ↔ HasBlock n A ∧ HasBlock n B := by
  constructor
  · intro h
    obtain ⟨rfl, rfl⟩ := (glue_eq_full_iff hA hB).mp (eq_Iio_of_hasBlock (glue_subset hB) h)
    exact ⟨hasBlock_Iio.mpr le_rfl, hasBlock_Iio.mpr le_rfl⟩
  · rintro ⟨h1, h2⟩
    rw [eq_Iio_of_hasBlock hA h1, eq_Iio_of_hasBlock hB h2, glue_full]
    exact hasBlock_Iio.mpr le_rfl

/-! ### Changing one half -/

lemma glue_diff_left {n k b : ℕ} {A B : Set ℕ} (hb : b + 2 ^ k ≤ 2 ^ n) :
    glue n (A \ block k b) B = glue n A B \ block k b := by
  ext a
  simp only [mem_glue, Set.mem_sdiff, mem_block]
  constructor
  · rintro (⟨h, hA, hn⟩ | ⟨h, hB⟩)
    · exact ⟨Or.inl ⟨h, hA⟩, hn⟩
    · exact ⟨Or.inr ⟨h, hB⟩, by omega⟩
  · rintro ⟨⟨h, hA⟩ | ⟨h, hB⟩, hn⟩
    · exact Or.inl ⟨h, hA, hn⟩
    · exact Or.inr ⟨h, hB⟩

lemma glue_diff_right {n k b : ℕ} {A B : Set ℕ} :
    glue n A (B \ block k b) = glue n A B \ block k (b + 2 ^ n) := by
  ext a
  simp only [mem_glue, Set.mem_sdiff, mem_block]
  constructor
  · rintro (⟨h, hA⟩ | ⟨h, hB, hn⟩)
    · exact ⟨Or.inl ⟨h, hA⟩, by omega⟩
    · exact ⟨Or.inr ⟨h, hB⟩, by omega⟩
  · rintro ⟨⟨h, hA⟩ | ⟨h, hB⟩, hn⟩
    · exact Or.inl ⟨h, hA⟩
    · exact Or.inr ⟨h, hB, by omega⟩

lemma glue_union_left {n k b : ℕ} {A B : Set ℕ} (hb : b + 2 ^ k ≤ 2 ^ n) :
    glue n (A ∪ block k b) B = glue n A B ∪ block k b := by
  ext a
  simp only [mem_glue, Set.mem_union, mem_block]
  constructor
  · rintro (⟨h, hA | hA⟩ | ⟨h, hB⟩)
    · exact Or.inl (Or.inl ⟨h, hA⟩)
    · exact Or.inr hA
    · exact Or.inl (Or.inr ⟨h, hB⟩)
  · rintro ((⟨h, hA⟩ | ⟨h, hB⟩) | h)
    · exact Or.inl ⟨h, Or.inl hA⟩
    · exact Or.inr ⟨h, hB⟩
    · exact Or.inl ⟨by omega, Or.inr h⟩

lemma glue_union_right {n k b : ℕ} {A B : Set ℕ} :
    glue n A (B ∪ block k b) = glue n A B ∪ block k (b + 2 ^ n) := by
  ext a
  simp only [mem_glue, Set.mem_union, mem_block]
  constructor
  · rintro (⟨h, hA⟩ | ⟨h, hB | hB⟩)
    · exact Or.inl (Or.inl ⟨h, hA⟩)
    · exact Or.inl (Or.inr ⟨h, hB⟩)
    · exact Or.inr (by omega)
  · rintro ((⟨h, hA⟩ | ⟨h, hB⟩) | h)
    · exact Or.inl ⟨h, hA⟩
    · exact Or.inr ⟨h, Or.inl hB⟩
    · exact Or.inr ⟨by omega, Or.inr (by omega)⟩

end Dyadic
