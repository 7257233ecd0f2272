import DeravelOs.Heap.Buddy
import DeravelOs.Lib.Arena

/-!
# The invariant of a buddy tree

`max_available` is a cached summary of a lazily materialised tree: children may be missing, a node
that was taken as a whole keeps stale children, a reserved node looks like a taken one without a
request, and the nodes outside a range whose length is no power of two are never available.
`Node.Inv` says what the trees that arise look like, `Node.arena` what a tree means (which
addresses are free, which blocks are live), and one lemma for each operation says what it does to
that meaning.

The main fact about the summary is `Inv.hasBlock_iff`: `max_available` is the size of the largest
free aligned block.
-/

namespace Deravel

open Dyadic (HasBlock glue glueLive glueLive_empty blockOrder extent Arena)

namespace Node

/-- What `update` computes for a node of order `n + 1`: two free halves make a free whole. -/
def merge (n left right : ℕ) : ℕ :=
  if left = 2 ^ n ∧ right = 2 ^ n then 2 ^ (n + 1) else max left right

/-- The trees that arise from `new`, `reserve_range`, `alloc` and `dealloc`. -/
inductive Inv : ℕ → Node → Prop
  /-- nothing below was ever asked for, or everything was given back -/
  | vacant (n : ℕ) : Inv n (bare (2 ^ n) 0)
  /-- reserved, or outside the range -/
  | barred (n : ℕ) : Inv n (bare 0 0)
  /-- taken as a whole -/
  | taken {n a : ℕ} (hlo : 2 ^ n / 2 < a) (hhi : a ≤ 2 ^ n) : Inv n (bare 0 a)
  /-- the children say what is free -/
  | parted {n : ℕ} {l r : Node} (hl : Inv n l) (hr : Inv n r) :
      Inv (n + 1) (split (merge n l.maxAvailable r.maxAvailable) 0 l r)
  /-- taken or reserved as a whole, above children that are both free -/
  | covered {n a : ℕ} {l r : Node} (hl : Inv n l) (hr : Inv n r)
      (hlm : l.maxAvailable = 2 ^ n) (hrm : r.maxAvailable = 2 ^ n)
      (ha : a = 0 ∨ 2 ^ (n + 1) / 2 < a ∧ a ≤ 2 ^ (n + 1)) : Inv (n + 1) (split 0 a l r)
  /-- a single address, above its two empty halves -/
  | grain {m a : ℕ} (h : m = 1 ∧ a = 0 ∨ m = 0 ∧ a ≤ 1) : Inv 0 (split m a (bare 0 0) (bare 0 0))

/-- The addresses a tree of order `n` can still hand out. -/
def free : ℕ → Node → Set ℕ
  | n, bare m _ => if m = 0 then ∅ else Set.Iio (2 ^ n)
  | 0, split m _ _ _ => if m = 0 then ∅ else Set.Iio (2 ^ 0)
  | n + 1, split m _ l r => if m = 0 then ∅ else glue n (free n l) (free n r)

/-- The allocations recorded in a tree of order `n`: address and requested size. -/
def live : ℕ → Node → Set (ℕ × ℕ)
  | _, bare _ a => if a = 0 then ∅ else {(0, a)}
  | 0, split _ a _ _ => if a = 0 then ∅ else {(0, a)}
  | n + 1, split _ a l r => if a = 0 then glueLive n (live n l) (live n r) else {(0, a)}

/-- The meaning of a tree. -/
def arena (n : ℕ) (node : Node) : Arena := ⟨node.free n, node.live n⟩

/-! ## The summary -/

lemma two_pow_succ_div (n : ℕ) : 2 ^ (n + 1) / 2 = 2 ^ n := by
  rw [pow_succ]; omega

lemma merge_eq_zero {n x y : ℕ} (h : merge n x y = 0) : x = 0 ∧ y = 0 := by
  have hpos : 0 < 2 ^ (n + 1) := by positivity
  unfold merge at h
  split at h <;> omega

lemma merge_cases {n x y : ℕ} (hx : x = 0 ∨ ∃ k ≤ n, x = 2 ^ k) (hy : y = 0 ∨ ∃ k ≤ n, y = 2 ^ k) :
    merge n x y = 0 ∨ ∃ k ≤ n + 1, merge n x y = 2 ^ k := by
  unfold merge
  split
  · exact Or.inr ⟨n + 1, le_rfl, rfl⟩
  · rcases max_choice x y with h | h <;> rw [h]
    · exact hx.imp_right fun ⟨k, hk, he⟩ => ⟨k, by omega, he⟩
    · exact hy.imp_right fun ⟨k, hk, he⟩ => ⟨k, by omega, he⟩

/-- Requests of a smaller block: one half suffices. -/
lemma two_pow_le_merge {n k x y : ℕ} (hk : k ≤ n) :
    2 ^ k ≤ merge n x y ↔ 2 ^ k ≤ x ∨ 2 ^ k ≤ y := by
  have h1 : 2 ^ k ≤ 2 ^ n := Nat.pow_le_pow_right (by norm_num) hk
  have h2 : 2 ^ n ≤ 2 ^ (n + 1) := Nat.pow_le_pow_right (by norm_num) (by omega)
  unfold merge
  split
  · omega
  · exact le_max_iff

/-- A request of the whole: both halves must be free. -/
lemma two_pow_succ_le_merge {n x y : ℕ} (hx : x ≤ 2 ^ n) (hy : y ≤ 2 ^ n) :
    2 ^ (n + 1) ≤ merge n x y ↔ 2 ^ n ≤ x ∧ 2 ^ n ≤ y := by
  have hlt : 2 ^ n < 2 ^ (n + 1) := Nat.pow_lt_pow_right (by norm_num) (by omega)
  unfold merge
  split
  · next h => simp [h]
  · next h =>
    have hmax : max x y ≤ 2 ^ n := max_le hx hy
    exact ⟨fun hle => absurd hle (by omega), fun ⟨hx', hy'⟩ => absurd ⟨by omega, by omega⟩ h⟩

namespace Inv

variable {n : ℕ} {node : Node}

/-- The summary is zero or the size of a block. -/
lemma maxAvailable_cases (h : Inv n node) :
    node.maxAvailable = 0 ∨ ∃ k ≤ n, node.maxAvailable = 2 ^ k := by
  induction h with
  | vacant n => exact Or.inr ⟨n, le_rfl, rfl⟩
  | barred n => exact Or.inl rfl
  | taken _ _ => exact Or.inl rfl
  | parted _ _ ihl ihr => exact merge_cases ihl ihr
  | covered _ _ _ _ _ => exact Or.inl rfl
  | grain h => exact h.symm.imp (fun h => h.1) fun h => ⟨0, le_rfl, h.1⟩

lemma maxAvailable_le (h : Inv n node) : node.maxAvailable ≤ 2 ^ n := by
  rcases h.maxAvailable_cases with h0 | ⟨k, hk, he⟩
  · rw [h0]; exact Nat.zero_le _
  · rw [he]; exact Nat.pow_le_pow_right (by norm_num) hk

lemma free_subset (h : Inv n node) : node.free n ⊆ Set.Iio (2 ^ n) := by
  induction h with
  | vacant n => simp [free]
  | barred n => simp [free]
  | taken _ _ => simp [free]
  | parted _ _ ihl ihr =>
      simp only [free]
      split
      · exact Set.empty_subset _
      · exact Dyadic.glue_subset ihr
  | covered _ _ _ _ _ => simp [free]
  | grain _ =>
      simp only [free]
      split
      · exact Set.empty_subset _
      · exact subset_rfl

lemma free_of_zero (h : Inv n node) (h0 : node.maxAvailable = 0) : node.free n = ∅ := by
  cases h with
  | vacant _ => simp at h0
  | barred _ => simp [free]
  | taken _ _ => simp [free]
  | parted _ _ => simp only [maxAvailable_split] at h0; simp [free, h0]
  | covered _ _ _ _ _ => simp [free]
  | grain _ => simp only [maxAvailable_split] at h0; simp [free, h0]

lemma free_parted {l r : Node} (hl : Inv n l) (hr : Inv n r) :
    (split (merge n l.maxAvailable r.maxAvailable) 0 l r).free (n + 1)
      = glue n (l.free n) (r.free n) := by
  simp only [free]
  split
  · next h0 =>
    obtain ⟨hl0, hr0⟩ := merge_eq_zero h0
    rw [hl.free_of_zero hl0, hr.free_of_zero hr0, Dyadic.glue_empty]
  · rfl

/-- **`max_available` is the size of the largest free aligned block.** -/
theorem hasBlock_iff (h : Inv n node) :
    ∀ k ≤ n, HasBlock k (node.free n) ↔ 2 ^ k ≤ node.maxAvailable := by
  induction h with
  | vacant n =>
      intro k hk
      have hle : 2 ^ k ≤ 2 ^ n := Nat.pow_le_pow_right (by norm_num) hk
      simpa [free, hle] using Dyadic.hasBlock_Iio.mpr hk
  | barred n => intro k _; simp [free, Dyadic.not_hasBlock_empty]
  | taken _ _ => intro k _; simp [free, Dyadic.not_hasBlock_empty]
  | @parted n l r hl hr ihl ihr =>
      intro k hk
      rw [free_parted hl hr]
      rw [maxAvailable_split]
      rcases Nat.lt_or_ge n k with hnk | hkn
      · obtain rfl : k = n + 1 := by omega
        rw [Dyadic.hasBlock_glue_succ hl.free_subset hr.free_subset,
          two_pow_succ_le_merge hl.maxAvailable_le hr.maxAvailable_le, ihl n le_rfl, ihr n le_rfl]
      · rw [Dyadic.hasBlock_glue hkn hl.free_subset, two_pow_le_merge hkn, ihl k hkn, ihr k hkn]
  | covered _ _ _ _ _ => intro k _; simp [free, Dyadic.not_hasBlock_empty]
  | grain h =>
      intro k hk
      obtain rfl : k = 0 := Nat.le_zero.mp hk
      rcases h with ⟨rfl, -⟩ | ⟨rfl, -⟩
      · simpa [free] using Dyadic.hasBlock_Iio.mpr (le_refl 0)
      · simp [free, Dyadic.not_hasBlock_empty]

/-- A full summary means that every address is free. -/
lemma free_of_full (h : Inv n node) (hm : node.maxAvailable = 2 ^ n) :
    node.free n = Set.Iio (2 ^ n) :=
  Dyadic.eq_Iio_of_hasBlock h.free_subset ((h.hasBlock_iff n le_rfl).mpr hm.ge)

/-- If every address is free, the summary is full. -/
lemma full_of_free (h : Inv n node) (hf : Set.Iio (2 ^ n) ⊆ node.free n) :
    node.maxAvailable = 2 ^ n :=
  h.maxAvailable_le.antisymm
    ((h.hasBlock_iff n le_rfl).mp ((Dyadic.hasBlock_Iio.mpr le_rfl).mono hf))

/-- If any address is free, the summary is not zero. -/
lemma maxAvailable_ne_zero (h : Inv n node) {a : ℕ} (ha : a ∈ node.free n) :
    node.maxAvailable ≠ 0 := by
  intro h0
  rw [h.free_of_zero h0] at ha
  exact ha

/-- A tree with a full summary records no allocation. -/
lemma live_of_full (h : Inv n node) (hm : node.maxAvailable = 2 ^ n) : node.live n = ∅ := by
  have hpos : 0 < 2 ^ n := by positivity
  induction h with
  | vacant n => simp [live]
  | barred n => simp only [maxAvailable_bare] at hm; omega
  | taken _ _ => simp only [maxAvailable_bare] at hm; omega
  | @parted n l r hl hr ihl ihr =>
      simp only [maxAvailable_split] at hm
      obtain ⟨hlm, hrm⟩ := (two_pow_succ_le_merge hl.maxAvailable_le hr.maxAvailable_le).mp hm.ge
      have hpos' : 0 < 2 ^ n := by positivity
      simp only [live, if_true]
      rw [ihl (hl.maxAvailable_le.antisymm hlm) hpos', ihr (hr.maxAvailable_le.antisymm hrm) hpos',
        glueLive_empty]
  | covered _ _ _ _ _ => simp only [maxAvailable_split] at hm; omega
  | grain h =>
      simp only [maxAvailable_split] at hm
      rcases h with ⟨-, rfl⟩ | ⟨rfl, -⟩
      · simp [live]
      · omega

lemma live_covered {l r : Node} (hl : Inv n l) (hr : Inv n r) (hlm : l.maxAvailable = 2 ^ n)
    (hrm : r.maxAvailable = 2 ^ n) (m : ℕ) : (split m 0 l r).live (n + 1) = ∅ := by
  simp only [live, if_true]
  rw [hl.live_of_full hlm, hr.live_of_full hrm, glueLive_empty]

/-- A recorded allocation fits the tree. -/
lemma live_bound (h : Inv n node) {b : ℕ × ℕ} (hb : b ∈ node.live n) :
    b.1 + 2 ^ blockOrder b.2 ≤ 2 ^ n ∧ blockOrder b.2 ≤ n := by
  induction h generalizing b with
  | vacant n => simp [live] at hb
  | barred n => simp [live] at hb
  | @taken n a hlo hhi =>
      have ha : a ≠ 0 := by omega
      simp only [live, ha, if_false, Set.mem_singleton_iff] at hb
      subst hb
      rw [Dyadic.blockOrder_eq hlo hhi]
      simp
  | @parted n l r hl hr ihl ihr =>
      simp only [live, if_true] at hb
      rw [pow_succ]
      rcases hb with ⟨_, hb⟩ | ⟨_, hb⟩
      · have := ihl hb; omega
      · have := ihr hb; simp only at this; omega
  | @covered n a l r hl hr hlm hrm ha =>
      rcases ha with rfl | ⟨hlo, hhi⟩
      · rw [live_covered hl hr hlm hrm] at hb
        exact absurd hb (Set.notMem_empty b)
      · have ha : a ≠ 0 := by omega
        simp only [live, ha, if_false, Set.mem_singleton_iff] at hb
        subst hb
        rw [Dyadic.blockOrder_eq hlo hhi]
        simp
  | @grain m a h =>
      by_cases ha : a = 0
      · simp [live, ha] at hb
      · obtain rfl : a = 1 := by omega
        simp only [live, one_ne_zero, if_false, Set.mem_singleton_iff] at hb
        subst hb
        rw [Dyadic.blockOrder_eq (n := 0) (by decide) (by decide)]
        simp

end Inv

end Node

end Deravel
