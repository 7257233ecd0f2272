import DeravelOs.Lib.Arena

/-!
# The blocks of a range

The numbers of a range are covered by aligned blocks, and there is one way to do so with blocks that
are as large as possible.  A block is written as its first number and its order.

* `MaxBlock`: a block that is as large as possible in a range.
* `mem_range_iff`: the largest blocks cover the range.
* `maxBlock_glue`, `cuts_glue`: what a range does to the blocks of a tree, it does to those of its
  halves.
-/

namespace Dyadic

variable {n k s t x : ℕ} {b : ℕ × ℕ} {A B : Set (ℕ × ℕ)}

/-- The aligned block of the next order around a block. -/
def parent (b : ℕ × ℕ) : ℕ × ℕ := (2 ^ (b.2 + 1) * (b.1 / 2 ^ (b.2 + 1)), b.2 + 1)

/-- The range from `s` to `t` covers a block. -/
def Covers (s t : ℕ) (b : ℕ × ℕ) : Prop := s ≤ b.1 ∧ b.1 + 2 ^ b.2 ≤ t

instance : Decidable (Covers s t b) := inferInstanceAs (Decidable (_ ∧ _))

/-- A block that is as large as possible in a range. -/
structure MaxBlock (s t : ℕ) (b : ℕ × ℕ) : Prop where
  aligned : 2 ^ b.2 ∣ b.1
  covers : Covers s t b
  maximal : ¬ Covers s t (parent b)

instance : Decidable (MaxBlock s t b) :=
  decidable_of_iff (2 ^ b.2 ∣ b.1 ∧ Covers s t b ∧ ¬ Covers s t (parent b))
    ⟨fun h => ⟨h.1, h.2.1, h.2.2⟩, fun h => ⟨h.aligned, h.covers, h.maximal⟩⟩

/-- The range reaches into a block, and does not cover it.  Every range that starts before the end
of the block at 0 reaches into it, also if it is empty. -/
def Cuts (s t : ℕ) (b : ℕ × ℕ) : Prop :=
  s < b.1 + 2 ^ b.2 ∧ (b.1 < t ∨ b.1 = 0) ∧ ¬ Covers s t b

instance : Decidable (Cuts s t b) := inferInstanceAs (Decidable (_ ∧ _ ∧ _))

lemma order_le (h : b.1 + 2 ^ b.2 ≤ 2 ^ n) : b.2 ≤ n := by
  have hle : 2 ^ b.2 ≤ 2 ^ n := by omega
  exact (Nat.pow_le_pow_iff_right (by norm_num)).mp hle

lemma parent_le (b : ℕ × ℕ) : (parent b).1 ≤ b.1 := Nat.mul_div_le _ _

/-- Below `2 ^ n` there is room for the block around a smaller block. -/
lemma parent_fits (hk : b.2 < n) (hlt : b.1 < 2 ^ n) : (parent b).1 + 2 ^ (b.2 + 1) ≤ 2 ^ n := by
  have haligned : 2 ^ (b.2 + 1) ∣ (parent b).1 := dvd_mul_right _ _
  have hle := parent_le b
  rcases add_le_or_le (n := n) hk haligned with h | h
  · exact h
  · omega

/-- The block around a block of the upper half, as long as it is in this half. -/
lemma parent_add (hk : k < n) (d : ℕ) : parent (d + 2 ^ n, k) = ((parent (d, k)).1 + 2 ^ n, k + 1) := by
  obtain ⟨c, hc⟩ : 2 ^ (k + 1) ∣ 2 ^ n := pow_dvd_pow 2 hk
  have hpos : 0 < 2 ^ (k + 1) := by positivity
  simp only [parent]
  rw [hc, Nat.add_mul_div_left _ _ hpos, Nat.mul_add]

/-- The range of all numbers below `2 ^ n` is one block. -/
lemma maxBlock_whole : MaxBlock 0 (2 ^ n) b ↔ b = (0, n) := by
  obtain ⟨d, k⟩ := b
  constructor
  · rintro ⟨haligned, ⟨-, hfit⟩, hmax⟩
    dsimp only at haligned hfit
    have hk : k ≤ n := order_le (b := (d, k)) hfit
    have hlt : d < 2 ^ n := by
      have hpos : 0 < 2 ^ k := by positivity
      omega
    rcases hk.lt_or_eq with hk | rfl
    · exact absurd ⟨Nat.zero_le _, parent_fits (b := (d, k)) hk hlt⟩ hmax
    · have hzero : d = 0 := by omega
      rw [hzero]
  · intro h
    obtain ⟨rfl, rfl⟩ := Prod.mk.inj h
    refine ⟨dvd_zero _, ⟨le_rfl, by simp⟩, fun h => ?_⟩
    have hle : 2 ^ (k + 1) ≤ 2 ^ k := (Nat.le_add_left _ _).trans h.2
    rw [pow_succ] at hle
    have hpos : 0 < 2 ^ k := by positivity
    omega

/-- No range without numbers covers a block. -/
lemma not_maxBlock_empty (h : t ≤ s) : ¬ MaxBlock s t b := by
  rintro ⟨-, ⟨hs, ht⟩, -⟩
  have hpos : 0 < 2 ^ b.2 := by positivity
  omega

/-- **The largest blocks of a range are those of its two halves,** if the range is not everything. -/
theorem maxBlock_glue (ht : t ≤ 2 ^ (n + 1)) (hpart : ¬ (s = 0 ∧ t = 2 ^ (n + 1))) :
    {b | MaxBlock s t b} = glueLive n {b | MaxBlock s (min t (2 ^ n)) b}
      {b | MaxBlock (max s (2 ^ n) - 2 ^ n) (t - 2 ^ n) b} := by
  have hsucc : 2 ^ (n + 1) = 2 ^ n + 2 ^ n := by ring
  ext ⟨d, k⟩
  have hpos : 0 < 2 ^ k := by positivity
  -- a block above the halves would be everything
  have hbelow : 2 ^ k ∣ d → Covers s t (d, k) → k ≤ n := by
    rintro haligned ⟨hs, hfit⟩
    dsimp only at hs hfit
    by_contra hk
    have hle : 2 ^ (n + 1) ≤ 2 ^ k := Nat.pow_le_pow_right (by norm_num) (by omega)
    exact hpart ⟨by omega, by omega⟩
  have hwhole : ¬ Covers s t (0, n + 1) := by
    rintro ⟨hs, hfit⟩
    dsimp only at hs hfit
    exact hpart ⟨by omega, by omega⟩
  rw [mem_glueLive]
  rcases Nat.lt_or_ge d (2 ^ n) with hlow | hhigh
  · simp only [hlow, true_and, Nat.not_le.mpr hlow, false_and, or_false, Set.mem_ofPred_eq]
    constructor
    · rintro ⟨haligned, hcovers, hmax⟩
      have hk := hbelow haligned hcovers
      have hfit : d + 2 ^ k ≤ 2 ^ n := (add_le_or_le hk haligned).resolve_right (by omega)
      refine ⟨haligned, ⟨hcovers.1, le_min hcovers.2 hfit⟩, fun h => hmax ⟨h.1, ?_⟩⟩
      exact h.2.trans (min_le_left _ _)
    · rintro ⟨haligned, ⟨hs, hfit⟩, hmax⟩
      dsimp only at haligned hs hfit
      have hcovers : Covers s t (d, k) := ⟨hs, hfit.trans (min_le_left _ _)⟩
      refine ⟨haligned, hcovers, fun h => ?_⟩
      rcases (hbelow haligned hcovers).lt_or_eq with hk | rfl
      · exact hmax ⟨h.1, le_min h.2 (parent_fits (b := (d, k)) hk hlow)⟩
      · obtain rfl : d = 0 := by omega
        refine hwhole ?_
        simpa [parent] using h
  · obtain ⟨d, rfl⟩ := Nat.exists_eq_add_of_le' hhigh
    have hnot : ¬ d + 2 ^ n < 2 ^ n := by omega
    simp only [hnot, false_and, false_or, hhigh, true_and, Nat.add_sub_cancel, Set.mem_ofPred_eq]
    constructor
    · rintro ⟨haligned, hcovers, hmax⟩
      have hk := hbelow haligned hcovers
      have hs := hcovers.1
      have hfit := hcovers.2
      dsimp only at hs hfit
      refine ⟨(Nat.dvd_add_left (pow_dvd_pow 2 hk)).mp haligned, ⟨by omega, by dsimp only; omega⟩,
        fun h => ?_⟩
      rcases hk.lt_or_eq with hk | rfl
      · rw [parent_add hk] at hmax
        have hs' := h.1
        have hfit' := h.2
        dsimp only [parent] at hs' hfit' hmax
        exact hmax ⟨by dsimp only; omega, by dsimp only; omega⟩
      · have hfit' := h.2
        dsimp only [parent] at hfit'
        omega
    · rintro ⟨haligned, ⟨hs, hfit⟩, hmax⟩
      dsimp only at haligned hs hfit
      have hk : k ≤ n := order_le (b := (d, k)) (by dsimp only; omega)
      have hcovers : Covers s t (d + 2 ^ n, k) := ⟨by dsimp only; omega, by dsimp only; omega⟩
      refine ⟨(Nat.dvd_add_left (pow_dvd_pow 2 hk)).mpr haligned, hcovers, fun h => ?_⟩
      rcases hk.lt_or_eq with hk | rfl
      · rw [parent_add hk] at h
        have hs' := h.1
        have hfit' := h.2
        dsimp only at hs' hfit'
        exact hmax ⟨by omega, by dsimp only [parent] at hfit' ⊢; omega⟩
      · obtain rfl : d = 0 := by omega
        refine hwhole ?_
        have hparent : parent (0 + 2 ^ k, k) = (0, k + 1) := by
          simp only [parent]
          rw [Nat.div_eq_of_lt (by omega), mul_zero]
        rwa [hparent] at h

/-! ## What a range does to a set of blocks -/

/-- What is left of some blocks that a range reaches into, and the blocks of the range. -/
def carve (s t : ℕ) (A : Set (ℕ × ℕ)) : Set (ℕ × ℕ) :=
  {b | b ∈ A ∧ ¬ Cuts s t b} ∪ {b | MaxBlock s t b}

lemma mem_carve : b ∈ carve s t A ↔ b ∈ A ∧ ¬ Cuts s t b ∨ MaxBlock s t b := Iff.rfl

/-- The numbers of some blocks. -/
def numbers (A : Set (ℕ × ℕ)) : Set ℕ := {x | ∃ b ∈ A, x ∈ block b.2 b.1}

lemma cuts_left (hfit : b.1 + 2 ^ b.2 ≤ 2 ^ n) : Cuts s (min t (2 ^ n)) b ↔ Cuts s t b := by
  obtain ⟨d, k⟩ := b
  have hpos : 0 < 2 ^ k := by positivity
  simp only [Cuts, Covers] at hfit ⊢
  omega

lemma covers_left (hfit : b.1 + 2 ^ b.2 ≤ 2 ^ n) : Covers s (min t (2 ^ n)) b ↔ Covers s t b := by
  simp only [Covers]
  omega

lemma cuts_right (ht : 2 ^ n < t) :
    Cuts (max s (2 ^ n) - 2 ^ n) (t - 2 ^ n) b ↔ Cuts s t (b.1 + 2 ^ n, b.2) := by
  obtain ⟨d, k⟩ := b
  have hpos : 0 < 2 ^ k := by positivity
  have hpos' : 0 < 2 ^ n := by positivity
  simp only [Cuts, Covers]
  omega

lemma covers_right (ht : 2 ^ n < t) :
    Covers (max s (2 ^ n) - 2 ^ n) (t - 2 ^ n) b ↔ Covers s t (b.1 + 2 ^ n, b.2) := by
  simp only [Covers]
  omega

/-- A range that ends in the lower half does not reach into the upper one. -/
lemma not_cuts_right (ht : t ≤ 2 ^ n) : ¬ Cuts s t (b.1 + 2 ^ n, b.2) := by
  have hpos : 0 < 2 ^ n := by positivity
  simp only [Cuts]
  omega

lemma not_covers_right (ht : t ≤ 2 ^ n) : ¬ Covers s t (b.1 + 2 ^ n, b.2) := by
  have hpos : 0 < 2 ^ b.2 := by positivity
  simp only [Covers]
  omega

/-- A range that starts in the upper half does not reach into the lower one. -/
lemma not_cuts_left (hs : 2 ^ n ≤ s) (hfit : b.1 + 2 ^ b.2 ≤ 2 ^ n) : ¬ Cuts s t b := by
  simp only [Cuts]
  omega

lemma not_covers_left (hs : 2 ^ n ≤ s) (hfit : b.1 + 2 ^ b.2 ≤ 2 ^ n) : ¬ Covers s t b := by
  have hpos : 0 < 2 ^ b.2 := by positivity
  simp only [Covers]
  omega

/-- Nothing is left of the block of all numbers, unless the range starts after it. -/
lemma cuts_whole (hs : s < 2 ^ n) (hpart : ¬ (s = 0 ∧ t = 2 ^ n)) (ht : t ≤ 2 ^ n) :
    Cuts s t (0, n) := by
  refine ⟨by simpa using hs, Or.inr rfl, ?_⟩
  rintro ⟨hs', ht'⟩
  dsimp only at hs' ht'
  exact hpart ⟨by omega, by omega⟩

/-- **The blocks of the two halves are carved one after the other.** -/
theorem carve_glue (hs : s ≤ t) (ht : t ≤ 2 ^ (n + 1)) (hpart : ¬ (s = 0 ∧ t = 2 ^ (n + 1)))
    (hA : ∀ b ∈ A, b.1 + 2 ^ b.2 ≤ 2 ^ n) :
    carve s t (glueLive n A B) =
      glueLive n (if s < 2 ^ n then carve s (min t (2 ^ n)) A else A)
        (if 2 ^ n < t then carve (max s (2 ^ n) - 2 ^ n) (t - 2 ^ n) B else B) := by
  have hglue := Set.ext_iff.mp (maxBlock_glue (s := s) ht hpart)
  ext ⟨d, k⟩
  have hb := hglue (d, k)
  simp only [mem_glueLive, Set.mem_ofPred_eq] at hb
  rw [mem_carve, mem_glueLive, mem_glueLive, hb]
  rcases Nat.lt_or_ge d (2 ^ n) with hlow | hhigh
  · simp only [hlow, true_and, Nat.not_le.mpr hlow, false_and, or_false]
    split
    · rw [mem_carve]
      exact or_congr_left (and_congr_right fun hmem => not_congr (cuts_left (hA _ hmem)).symm)
    · next hge =>
        have hge : 2 ^ n ≤ s := Nat.not_lt.mp hge
        have hnone : ¬ MaxBlock s (min t (2 ^ n)) (d, k) :=
          not_maxBlock_empty ((min_le_right _ _).trans hge)
        simp only [hnone, or_false]
        exact and_iff_left_of_imp fun hmem => not_cuts_left hge (hA _ hmem)
  · obtain ⟨d, rfl⟩ := Nat.exists_eq_add_of_le' hhigh
    have hnot : ¬ d + 2 ^ n < 2 ^ n := by omega
    simp only [hnot, false_and, false_or, hhigh, true_and, Nat.add_sub_cancel]
    split
    · next hlt =>
        rw [mem_carve]
        exact or_congr_left (and_congr_right fun _ => not_congr (cuts_right (b := (d, k)) hlt).symm)
    · next hge =>
        have hge : t ≤ 2 ^ n := Nat.not_lt.mp hge
        have hnone : ¬ MaxBlock (max s (2 ^ n) - 2 ^ n) (t - 2 ^ n) (d, k) :=
          not_maxBlock_empty (by omega)
        simp only [hnone, or_false]
        exact and_iff_left_of_imp fun _ => not_cuts_right (b := (d, k)) hge

/-! ## The numbers of blocks -/

lemma numbers_empty : numbers ∅ = ∅ := by
  ext x
  simp [numbers]

/-- The largest blocks of a range cover it. -/
theorem mem_range_iff (ht : t ≤ 2 ^ n) : x ∈ numbers {b | MaxBlock s t b} ↔ s ≤ x ∧ x < t := by
  constructor
  · rintro ⟨b, hb, hx⟩
    have hs := hb.covers.1
    have hfit := hb.covers.2
    rw [mem_block] at hx
    omega
  · induction n generalizing s t x with
    | zero =>
        rintro ⟨hs, hlt⟩
        obtain ⟨rfl, rfl, rfl⟩ : s = 0 ∧ t = 2 ^ 0 ∧ x = 0 := by
          rw [pow_zero] at ht ⊢
          omega
        exact ⟨(0, 0), maxBlock_whole.mpr rfl, left_mem_block 0 0⟩
    | succ n ih =>
        rintro ⟨hs, hlt⟩
        by_cases hwhole : s = 0 ∧ t = 2 ^ (n + 1)
        · obtain ⟨rfl, rfl⟩ := hwhole
          exact ⟨(0, n + 1), maxBlock_whole.mpr rfl, by simpa using hlt⟩
        · rw [maxBlock_glue ht hwhole]
          rw [pow_succ] at ht
          rcases Nat.lt_or_ge x (2 ^ n) with hlow | hhigh
          · obtain ⟨b, hb, hx⟩ := ih (min_le_right _ _) ⟨hs, lt_min hlt hlow⟩
            have hfirst : b.1 < 2 ^ n := (mem_block.mp hx).1.trans_lt hlow
            exact ⟨b, Or.inl ⟨hfirst, hb⟩, hx⟩
          · obtain ⟨b, hb, hx⟩ := ih (s := max s (2 ^ n) - 2 ^ n) (t := t - 2 ^ n) (x := x - 2 ^ n)
              (by omega) ⟨by omega, by omega⟩
            refine ⟨(b.1 + 2 ^ n, b.2), Or.inr ⟨Nat.le_add_left _ _, ?_⟩, ?_⟩
            · simpa using hb
            · rw [mem_block] at hx ⊢
              dsimp only
              omega

/-- The numbers of the blocks of two halves. -/
lemma numbers_glue (hA : ∀ b ∈ A, b.1 + 2 ^ b.2 ≤ 2 ^ n) :
    numbers (glueLive n A B) = glue n (numbers A) (numbers B) := by
  ext x
  rw [mem_glue]
  constructor
  · rintro ⟨b, ⟨hlow, hb⟩ | ⟨hhigh, hb⟩, hx⟩
    · have hfit := hA b hb
      rw [mem_block] at hx
      exact Or.inl ⟨by omega, b, hb, hx⟩
    · rw [mem_block] at hx
      refine Or.inr ⟨by omega, _, hb, ?_⟩
      rw [mem_block]
      dsimp only
      omega
  · rintro (⟨hlow, b, hb, hx⟩ | ⟨hhigh, b, hb, hx⟩)
    · exact ⟨b, Or.inl ⟨(mem_block.mp hx).1.trans_lt hlow, hb⟩, hx⟩
    · refine ⟨(b.1 + 2 ^ n, b.2), Or.inr ⟨Nat.le_add_left _ _, by simpa using hb⟩, ?_⟩
      rw [mem_block] at hx ⊢
      dsimp only
      omega

end Dyadic
