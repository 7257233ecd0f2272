import Mathlib.Algebra.BigOperators.Finprod
import Mathlib.Data.Set.Card
import DeravelOs.Heap.BuddyReserve
import DeravelOs.Heap.BuddySafety

/-!
# Heap statistics

`Node::stats` adds up the tree.  Two kinds of nodes could mislead it: one that is reserved as a whole
above free children would be counted as free, and one address above its two empty halves as nothing.
Neither is ever made: children come into being when a part of a node is reserved, so a node that is
free as a whole has none before the first allocation, and from then on a node that has children and is
not allocated itself says what they say (`Node.Plain`).

* `Node.Fresh`, `Node.Plain`: what is true of the children while booting, and afterwards.
* `Node.Inv.counted`: the sums are those of the meaning of the tree.
* `BuddyRun.stats_exact`: after any run they are the sizes of the live allocations, and the number of
  addresses that are neither reserved nor in the block of one.
-/

namespace Deravel

open Dyadic (glue glueLive blockOrder extent)

/-- `HeapStats` -/
structure HeapStats where
  alloc : ℕ
  free : ℕ
  deriving DecidableEq, Repr

namespace Node

/-- `Node::stats` -/
def stats : Node → HeapStats
  | bare maxAvailable allocated =>
      if allocated ≠ 0 then ⟨allocated, 0⟩ else ⟨0, maxAvailable⟩
  | split _ allocated left right =>
      if allocated ≠ 0 then ⟨allocated, 0⟩
      else ⟨left.stats.alloc + right.stats.alloc, left.stats.free + right.stats.free⟩

/-- A node that has children and is not allocated says what they say. -/
def Plain : ℕ → Node → Prop
  | _, bare _ _ => True
  | 0, split _ _ _ _ => False
  | n + 1, split m a l r =>
      Plain n l ∧ Plain n r ∧ (a = 0 → m = merge n l.maxAvailable r.maxAvailable)

/-- In addition, a node that is free as a whole has no children. -/
def Fresh : ℕ → Node → Prop
  | _, bare _ _ => True
  | 0, split _ _ _ _ => False
  | n + 1, split m _ l r => Fresh n l ∧ Fresh n r ∧
      m = merge n l.maxAvailable r.maxAvailable ∧ m ≠ 2 ^ (n + 1)

variable {n req : ℕ} {node l r : Node}

lemma Fresh.plain (h : Fresh n node) : Plain n node := by
  induction node generalizing n with
  | bare m a => cases n <;> trivial
  | split m a l r ihl ihr =>
      cases n with
      | zero => exact h
      | succ n => exact ⟨ihl h.1, ihr h.2.1, fun _ => h.2.2.1⟩

/-! ## The operations -/

lemma plain_bare (n m a : ℕ) : Plain n (bare m a) := by cases n <;> trivial

lemma fresh_bare (n m a : ℕ) : Fresh n (bare m a) := by cases n <;> trivial

lemma Plain.getChildren (h : Plain (n + 1) node) :
    Plain n (node.getChildren (2 ^ (n + 1))).1 ∧ Plain n (node.getChildren (2 ^ (n + 1))).2 := by
  cases node with
  | bare m a => exact ⟨plain_bare _ _ _, plain_bare _ _ _⟩
  | split m a l r => exact ⟨h.1, h.2.1⟩

lemma Fresh.getChildren (h : Fresh (n + 1) node) :
    Fresh n (node.getChildren (2 ^ (n + 1))).1 ∧ Fresh n (node.getChildren (2 ^ (n + 1))).2 := by
  cases node with
  | bare m a => exact ⟨fresh_bare _ _ _, fresh_bare _ _ _⟩
  | split m a l r => exact ⟨h.1, h.2.1⟩

/-- After an update a node says what its children say. -/
lemma plain_update (hl : Plain n l) (hr : Plain n r) :
    Plain (n + 1) ((node.setChildren l r).update (2 ^ (n + 1))) := by
  rw [setChildren, update_split]
  exact ⟨hl, hr, fun _ => rfl⟩

/-- A node that is taken as a whole keeps its children. -/
lemma Plain.setFields (h : Plain n node) {m a : ℕ} (hm : ∀ n' l r, n = n' + 1 →
    node = split node.maxAvailable node.allocated l r → a = 0 →
      m = merge n' l.maxAvailable r.maxAvailable) : Plain n (node.setFields m a) := by
  cases node with
  | bare m' a' => exact plain_bare _ _ _
  | split m' a' l r =>
      cases n with
      | zero => exact h
      | succ n => exact ⟨h.1, h.2.1, hm n l r rfl rfl⟩

lemma Plain.alloc (hreq : 0 < req) : ∀ (n : ℕ) (node : Node) {ptr : ℕ} {node' : Node},
    Plain n node → node.alloc req n = .ok (.ok ptr, node') → Plain n node' := by
  intro n
  induction n with
  | zero =>
      intro node ptr node' h halloc
      unfold Node.alloc at halloc
      by_cases hmax : req > node.maxAvailable
      · rw [if_pos hmax] at halloc
        cases halloc
      rw [if_neg hmax, if_pos (show req > 2 ^ 0 / 2 from hreq)] at halloc
      obtain ⟨_, -, halloc⟩ := Checked.bind_eq_ok.mp halloc
      cases halloc
      exact h.setFields fun _ _ _ _ _ hzero => absurd hzero hreq.ne'
  | succ n ih =>
      intro node ptr node' h halloc
      unfold Node.alloc at halloc
      by_cases hmax : req > node.maxAvailable
      · rw [if_pos hmax] at halloc
        cases halloc
      rw [if_neg hmax] at halloc
      by_cases hwhole : req > 2 ^ (n + 1) / 2
      · rw [if_pos hwhole] at halloc
        obtain ⟨_, -, halloc⟩ := Checked.bind_eq_ok.mp halloc
        cases halloc
        exact h.setFields fun _ _ _ _ _ hzero => absurd hzero hreq.ne'
      rw [if_neg hwhole] at halloc
      obtain ⟨hl, hr⟩ := h.getChildren
      dsimp only at halloc
      -- the child that the address comes from is the one that changes
      split at halloc
      · obtain ⟨_, -, halloc⟩ := Checked.bind_eq_ok.mp halloc
        obtain ⟨⟨result, l'⟩, hchild, halloc⟩ := Checked.bind_eq_ok.mp halloc
        cases result with
        | error e => cases halloc
        | ok p =>
            cases halloc
            exact plain_update (ih _ hl hchild) hr
      · obtain ⟨_, -, halloc⟩ := Checked.bind_eq_ok.mp halloc
        obtain ⟨⟨result, r'⟩, hchild, halloc⟩ := Checked.bind_eq_ok.mp halloc
        cases result with
        | error e => cases halloc
        | ok p =>
            cases halloc
            exact plain_update hl (ih _ hr hchild)

/-- A step of `dealloc` into the children. -/
lemma dealloc_split {m a ptr : ℕ} {node' : Node} (hpart : ¬ (ptr = 0 ∧ req > 2 ^ (n + 1) / 2))
    (h : (split m a l r).dealloc req (n + 1) ptr = .ok node') :
    (∃ l', l.dealloc req n ptr = .ok l' ∧
        node' = split (merge n l'.maxAvailable r.maxAvailable) a l' r) ∨
      ∃ r', r.dealloc req n (ptr - 2 ^ n) = .ok r' ∧
        node' = split (merge n l.maxAvailable r'.maxAvailable) a l r' := by
  unfold Node.dealloc at h
  rw [if_neg hpart] at h
  dsimp only at h
  split at h
  · obtain ⟨l', hl', h⟩ := Checked.bind_eq_ok.mp h
    rw [update_split] at h
    exact Or.inl ⟨l', hl', (Except.ok.inj h).symm⟩
  · obtain ⟨r', hr', h⟩ := Checked.bind_eq_ok.mp h
    rw [update_split] at h
    exact Or.inr ⟨r', hr', (Except.ok.inj h).symm⟩

/-- A node that was taken as a whole. -/
lemma dealloc_whole {ptr : ℕ} {node' : Node} (hwhole : ptr = 0 ∧ req > 2 ^ n / 2)
    (h : node.dealloc req n ptr = .ok node') :
    node.maxAvailable = 0 ∧ node.allocated = req ∧ node' = node.setFields (2 ^ n) 0 := by
  unfold Node.dealloc at h
  rw [if_pos hwhole] at h
  obtain ⟨_, hmax, h⟩ := Checked.bind_eq_ok.mp h
  obtain ⟨_, hallocated, h⟩ := Checked.bind_eq_ok.mp h
  exact ⟨ensure_eq_ok hmax, ensure_eq_ok hallocated, (Except.ok.inj h).symm⟩

lemma Plain.dealloc (hreq : 0 < req) (h : Inv n node) : ∀ {ptr : ℕ} {node' : Node},
    Plain n node → node.dealloc req n ptr = .ok node' → Plain n node' := by
  induction node generalizing n with
  | bare m a =>
      intro ptr node' _ hdealloc
      by_cases hwhole : ptr = 0 ∧ req > 2 ^ n / 2
      · rw [(dealloc_whole hwhole hdealloc).2.2]
        exact plain_bare _ _ _
      · unfold Node.dealloc at hdealloc
        rw [if_neg hwhole] at hdealloc
        cases n <;> cases hdealloc
  | split m a l r ihl ihr =>
      intro ptr node' hplain hdealloc
      cases n with
      | zero => exact absurd hplain id
      | succ n =>
          obtain ⟨hl, hr, -⟩ := hplain
          by_cases hwhole : ptr = 0 ∧ req > 2 ^ (n + 1) / 2
          · -- only a node above two free children can be taken as a whole
            obtain ⟨-, hallocated, rfl⟩ := dealloc_whole hwhole hdealloc
            refine ⟨hl, hr, fun _ => ?_⟩
            cases h with
            | parted _ _ => exact absurd hallocated hreq.ne
            | covered _ _ hlm hrm _ => simp [merge, hlm, hrm]
          · have hchildren : Inv n l ∧ Inv n r := by
              cases h with
              | parted hl hr => exact ⟨hl, hr⟩
              | covered hl hr _ _ _ => exact ⟨hl, hr⟩
            rcases dealloc_split hwhole hdealloc with ⟨l', hl', rfl⟩ | ⟨r', hr', rfl⟩
            · exact ⟨ihl hchildren.1 hl hl', hr, fun _ => rfl⟩
            · exact ⟨hl, ihr hchildren.2 hr hr', fun _ => rfl⟩

/-! ## Booting -/

/-- Something of the node is not free. -/
lemma Inv.ne_full (h : Inv n node) {x : ℕ} (hx : x < 2 ^ n) (hfree : x ∉ node.free n) :
    node.maxAvailable ≠ 2 ^ n := by
  intro hm
  rw [h.free_of_full hm] at hfree
  exact hfree hx

lemma fresh_new : ∀ (n : ℕ) {size : ℕ} {node : Node}, size ≤ 2 ^ n → new n size = .ok node →
    Fresh n node := by
  intro n
  induction n with
  | zero =>
      intro size node hle h
      unfold new at h
      split at h
      · cases h
        exact fresh_bare _ _ _
      split at h
      · cases h
        exact fresh_bare _ _ _
      · omega
  | succ n ih =>
      intro size node hle h
      obtain ⟨node₀, h₀, hinv, harena⟩ := new_spec (n + 1) size hle
      obtain rfl : node = node₀ := Except.ok.inj (h.symm.trans h₀)
      unfold new at h
      by_cases hzero : size = 0
      · rw [if_pos hzero] at h
        cases h
        exact fresh_bare _ _ _
      by_cases hfull : size = 2 ^ (n + 1)
      · rw [if_neg hzero, if_pos hfull] at h
        cases h
        exact fresh_bare _ _ _
      rw [if_neg hzero, if_neg hfull] at h
      obtain ⟨_, -, h⟩ := Checked.bind_eq_ok.mp h
      obtain ⟨l, hl, h⟩ := Checked.bind_eq_ok.mp h
      obtain ⟨r, hr, h⟩ := Checked.bind_eq_ok.mp h
      rw [update_split] at h
      obtain rfl := Except.ok.inj h
      refine ⟨ih (min_le_left _ _) hl, ih (by rw [pow_succ] at hle; omega) hr, rfl, ?_⟩
      refine hinv.ne_full (lt_of_le_of_ne hle hfull) ?_
      rw [show (split _ 0 l r).free (n + 1) = Set.Iio size from congrArg Dyadic.Arena.free harena]
      exact lt_irrefl size

/-- A range that is reserved leaves the node with something that is not free. -/
lemma Fresh.reserveRange : ∀ (n : ℕ) {start stop : ℕ} {node node' : Node}, Fresh n node →
    Inv n node → start < stop → stop ≤ 2 ^ n → Set.Ico start stop ⊆ node.free n →
    node.reserveRange n start stop = .ok node' → Fresh n node' := by
  intro n
  induction n with
  | zero =>
      intro start stop node node' h hinv hlt hle hfree hres
      cases node with
      | split m a l r => exact absurd h id
      | bare m a =>
          obtain ⟨rfl, rfl⟩ : start = 0 ∧ stop = 2 ^ 0 := by
            rw [pow_zero] at hle ⊢
            omega
          unfold Node.reserveRange at hres
          rw [if_pos ⟨rfl, rfl⟩] at hres
          obtain ⟨_, -, hres⟩ := Checked.bind_eq_ok.mp hres
          obtain rfl := Except.ok.inj hres
          exact fresh_bare _ _ _
  | succ n ih =>
      intro start stop node node' h hinv hlt hle hfree hres
      obtain ⟨node₀, h₀, hinv', harena⟩ := reserveRange_spec (n + 1) start stop node hinv hlt hle hfree
      obtain rfl : node' = node₀ := Except.ok.inj (hres.symm.trans h₀)
      by_cases hwhole : start = 0 ∧ stop = 2 ^ (n + 1)
      · -- a node that is free as a whole has no children
        obtain ⟨rfl, rfl⟩ := hwhole
        unfold Node.reserveRange at hres
        rw [if_pos ⟨rfl, rfl⟩] at hres
        obtain ⟨_, hm, hres⟩ := Checked.bind_eq_ok.mp hres
        obtain rfl := Except.ok.inj hres
        cases node with
        | bare m a => exact fresh_bare _ _ _
        | split m a l r => exact absurd (ensure_eq_ok hm) h.2.2.2
      · have ho := opened_getChildren hinv
          (hinv.maxAvailable_ne_zero (hfree (Set.mem_Ico.mpr ⟨le_rfl, hlt⟩)))
        have hchildren := h.getChildren
        rw [reserveRange_succ hwhole] at hres
        have hglue : node.free (n + 1) = glue n _ _ := congrArg Dyadic.Arena.free ho.arena
        rw [hglue] at hfree
        obtain ⟨l', hl', hres⟩ := Checked.bind_eq_ok.mp hres
        obtain ⟨r', hr', hres⟩ := Checked.bind_eq_ok.mp hres
        rw [setChildren, update_split] at hres
        have hleft : Fresh n l' := by
          split at hl'
          · next hs =>
              refine ih hchildren.1 ho.left (by omega) (min_le_right _ _) (fun x hx => ?_) hl'
              rw [Set.mem_Ico] at hx
              exact (Dyadic.mem_glue_of_lt (by omega)).mp (hfree (Set.mem_Ico.mpr (by omega)))
          · obtain rfl := Except.ok.inj hl'
            exact hchildren.1
        have hright : Fresh n r' := by
          split at hr'
          · next hs =>
              rw [pow_succ] at hle
              refine ih hchildren.2 ho.right (by omega) (by omega) (fun x hx => ?_) hr'
              rw [Set.mem_Ico] at hx
              exact Dyadic.mem_glue_add.mp (hfree (Set.mem_Ico.mpr (by omega)))
          · obtain rfl := Except.ok.inj hr'
            exact hchildren.2
        have hne : node'.maxAvailable ≠ 2 ^ (n + 1) := by
          refine hinv'.ne_full (hlt.trans_le hle) ?_
          have hfree' : node'.free (n + 1) = node.free (n + 1) \ Set.Ico start stop :=
            congrArg Dyadic.Arena.free harena
          rw [hfree']
          exact fun hmem => hmem.2 (Set.mem_Ico.mpr ⟨le_rfl, hlt⟩)
        obtain rfl := Except.ok.inj hres
        exact ⟨hleft, hright, rfl, hne⟩

/-! ## The sums -/

/-- The addresses of two halves. -/
lemma ncard_glue {A B : Set ℕ} (hA : A ⊆ Set.Iio (2 ^ n)) (hB : B ⊆ Set.Iio (2 ^ n)) :
    (glue n A B).ncard = A.ncard + B.ncard := by
  have hglue : glue n A B = A ∪ (· + 2 ^ n) '' B := by
    ext x
    rw [Dyadic.mem_glue, Set.mem_union, Set.mem_image]
    constructor
    · rintro (⟨-, hx⟩ | ⟨hge, hx⟩)
      · exact Or.inl hx
      · exact Or.inr ⟨_, hx, Nat.sub_add_cancel hge⟩
    · rintro (hx | ⟨y, hy, rfl⟩)
      · exact Or.inl ⟨hA hx, hx⟩
      · exact Or.inr ⟨Nat.le_add_left _ _, by rwa [Nat.add_sub_cancel]⟩
  have hdisjoint : Disjoint A ((· + 2 ^ n) '' B) := by
    rw [Set.disjoint_left]
    rintro x hx ⟨y, -, rfl⟩
    exact absurd (hA hx) (by simp)
  have hfinite := Set.finite_Iio (2 ^ n)
  rw [hglue, Set.ncard_union_eq hdisjoint (hfinite.subset hA) ((hfinite.subset hB).image _),
    Set.ncard_image_of_injective _ (add_left_injective _)]

/-- The live allocations of a node are finitely many. -/
lemma Inv.live_finite (h : Inv n node) : (node.live n).Finite := by
  refine ((Set.finite_Iio (2 ^ n)).prod (Set.finite_Iic (2 ^ n))).subset fun b hb => ?_
  obtain ⟨hend, horder⟩ := h.live_bound hb
  have hpos : 0 < 2 ^ blockOrder b.2 := by positivity
  exact ⟨by show b.1 < 2 ^ n; omega, Dyadic.blockOrder_le_iff.mp horder⟩

/-- The live allocations of two halves. -/
lemma finsum_glueLive (hl : Inv n l) (hr : Inv n r) :
    ∑ᶠ b ∈ glueLive n (l.live n) (r.live n), b.2 =
      ∑ᶠ b ∈ l.live n, b.2 + ∑ᶠ b ∈ r.live n, b.2 := by
  have hlt : ∀ b ∈ l.live n, b.1 < 2 ^ n := fun b hb => by
    have hend := (hl.live_bound hb).1
    have hpos : 0 < 2 ^ blockOrder b.2 := by positivity
    omega
  have hglue : glueLive n (l.live n) (r.live n) =
      l.live n ∪ (fun b : ℕ × ℕ => (b.1 + 2 ^ n, b.2)) '' r.live n := by
    ext b
    rw [Dyadic.mem_glueLive, Set.mem_union, Set.mem_image]
    constructor
    · rintro (⟨-, hb⟩ | ⟨hge, hb⟩)
      · exact Or.inl hb
      · exact Or.inr ⟨_, hb, Prod.ext (Nat.sub_add_cancel hge) rfl⟩
    · rintro (hb | ⟨c, hc, rfl⟩)
      · exact Or.inl ⟨hlt b hb, hb⟩
      · exact Or.inr ⟨Nat.le_add_left _ _, by simpa using hc⟩
  have hdisjoint : Disjoint (l.live n) ((fun b : ℕ × ℕ => (b.1 + 2 ^ n, b.2)) '' r.live n) := by
    rw [Set.disjoint_left]
    rintro b hb ⟨c, -, rfl⟩
    exact absurd (hlt _ hb) (by simp)
  have hinj : Set.InjOn (fun b : ℕ × ℕ => (b.1 + 2 ^ n, b.2)) (r.live n) := fun b _ c _ heq => by
    simpa [Prod.ext_iff] using heq
  rw [hglue, finsum_mem_union hdisjoint hl.live_finite (hr.live_finite.image _),
    finsum_mem_image hinj]

/-- The sums of `stats` are those of the meaning of a node. -/
def Counted (n : ℕ) (node : Node) : Prop :=
  node.stats.alloc = ∑ᶠ b ∈ node.live n, b.2 ∧ node.stats.free = (node.free n).ncard

/-- A node that is allocated as a whole. -/
lemma counted_of_taken {a : ℕ} (hstats : node.stats = ⟨a, 0⟩)
    (harena : node.arena n = ⟨∅, {(0, a)}⟩) : Counted n node := by
  have hlive : node.live n = {(0, a)} := congrArg Dyadic.Arena.live harena
  have hfree : node.free n = ∅ := congrArg Dyadic.Arena.free harena
  rw [Counted, hstats, hlive, hfree, finsum_mem_singleton, Set.ncard_empty]
  exact ⟨rfl, rfl⟩

/-- `stats` adds up the live allocations and counts the free addresses. -/
theorem Inv.counted (h : Inv n node) (hplain : Plain n node) : Counted n node := by
  induction h with
  | vacant n =>
      have harena := arena_vacant n
      have hlive : (bare (2 ^ n) 0).live n = ∅ := congrArg Dyadic.Arena.live harena
      have hfree : (bare (2 ^ n) 0).free n = Set.Iio (2 ^ n) := congrArg Dyadic.Arena.free harena
      rw [Counted, hlive, hfree, finsum_mem_empty, ← Finset.coe_Iio, Set.ncard_coe_finset,
        Nat.card_Iio]
      exact ⟨rfl, rfl⟩
  | barred n =>
      have hlive : (bare 0 0).live n = ∅ := by cases n <;> rfl
      have hfree : (bare 0 0).free n = ∅ := by cases n <;> rfl
      rw [Counted, hlive, hfree, finsum_mem_empty, Set.ncard_empty]
      exact ⟨rfl, rfl⟩
  | @taken n a hlo hhi =>
      have ha : a ≠ 0 := by omega
      exact counted_of_taken (if_pos ha) (arena_taken ha rfl).1
  | @parted n l r hl hr ihl ihr =>
      obtain ⟨hpl, hpr, -⟩ := hplain
      obtain ⟨halloc, hfree⟩ := ihl hpl
      obtain ⟨halloc', hfree'⟩ := ihr hpr
      constructor
      · show l.stats.alloc + r.stats.alloc = ∑ᶠ b ∈ glueLive n (l.live n) (r.live n), b.2
        rw [finsum_glueLive hl hr, halloc, halloc']
      · show l.stats.free + r.stats.free = _
        rw [free_parted hl hr, ncard_glue hl.free_subset hr.free_subset, hfree, hfree']
  | @covered n a l r hl hr hlm hrm _ =>
      -- a reservation above free children would not say what they say
      have ha : a ≠ 0 := by
        rintro rfl
        have hmerge := hplain.2.2 rfl
        rw [merge, if_pos ⟨hlm, hrm⟩] at hmerge
        exact absurd hmerge (by positivity)
      exact counted_of_taken (if_pos ha) ((arena_taken ha rfl).2 l r)
  | @grain m a h => exact absurd hplain id

end Node

/-! ## Runs -/

namespace BuddyAllocator

/-- `BuddyAllocator::stats` -/
def stats (self : BuddyAllocator) : HeapStats := self.root.stats

variable {U : Set ℕ} {a a' : BuddyAllocator} {range : AddressRange}

lemma fresh_new (h : new range = .ok a) : a.root.Fresh a.rootOrder := by
  obtain ⟨size, hsize, h⟩ := Checked.bind_eq_ok.mp h
  obtain ⟨_, -, h⟩ := Checked.bind_eq_ok.mp h
  obtain ⟨root, hroot, h⟩ := Checked.bind_eq_ok.mp h
  obtain rfl := Except.ok.inj h
  exact Node.fresh_new _ (Nat.le_pow_clog Nat.one_lt_two size) hroot

lemma fresh_reserveRange (h : Inv U a) (hfresh : a.root.Fresh a.rootOrder) {r : AddressRange}
    (hstart : a.range.start ≤ r.start) (hlt : r.start < r.stop)
    (hfree : ∀ x, a.range.start + x ∈ r.addresses → x ∈ a.arena.free)
    (hres : a.reserveRange r = .ok a') : a'.root.Fresh a'.rootOrder := by
  obtain ⟨hsub, hbound⟩ := h.offsets_subset hstart hlt hfree
  obtain ⟨_, -, hres⟩ := Checked.bind_eq_ok.mp hres
  obtain ⟨_, -, hres⟩ := Checked.bind_eq_ok.mp hres
  obtain ⟨start, hstart', hres⟩ := Checked.bind_eq_ok.mp hres
  obtain ⟨stop, hstop', hres⟩ := Checked.bind_eq_ok.mp hres
  obtain ⟨root, hroot, hres⟩ := Checked.bind_eq_ok.mp hres
  obtain rfl := Except.ok.inj hres
  obtain ⟨-, rfl⟩ := usizeSub_eq_ok hstart'
  obtain ⟨-, rfl⟩ := usizeSub_eq_ok hstop'
  exact hfresh.reserveRange _ h.node (by omega) hbound hsub hroot

/-- The root has no children where it is free, after each reservation. -/
lemma fresh_reserveAll : ∀ (rs : List AddressRange) {U : Set ℕ} {a a' : BuddyAllocator},
    Inv U a → a.range = range → a.arena.live = ∅ → Reservations range rs →
    (∀ r ∈ rs, ∀ x, range.start + x ∈ r.addresses → x ∈ U) → a.root.Fresh a.rootOrder →
    rs.foldlM reserveRange a = .ok a' → a'.root.Fresh a'.rootOrder := by
  intro rs
  induction rs with
  | nil =>
      intro U a a' _ _ _ _ _ hfresh hfold
      obtain rfl := Except.ok.inj hfold
      exact hfresh
  | cons r rs ih =>
      intro U a a' h hrange hlive hres hU hfresh hfold
      subst hrange
      obtain ⟨hstart, hstop⟩ := hres.inside r List.mem_cons_self
      have hlt := hres.nonempty r List.mem_cons_self
      have hdis := List.pairwise_cons.mp hres.disjoint
      have hfree : ∀ x, a.range.start + x ∈ r.addresses → x ∈ a.arena.free := fun x hx =>
        h.wf.free_eq hlive ▸ hU r List.mem_cons_self x hx
      obtain ⟨a₁, h₁, hrange₁, hlive₁, hinv₁⟩ := reserveRange_spec h hstart hlt hstop hfree
      rw [List.foldlM_cons, h₁, Checked.ok_bind] at hfold
      refine ih hinv₁ hrange₁ (hlive₁.trans hlive) ⟨fun s hs => ?_, fun s hs => ?_, hdis.2⟩ ?_
        (fresh_reserveRange h hfresh hstart hlt hfree h₁) hfold
      · exact hres.inside s (List.mem_cons_of_mem _ hs)
      · exact hres.nonempty s (List.mem_cons_of_mem _ hs)
      · intro s hs x hx
        exact ⟨hU s (List.mem_cons_of_mem _ hs) x hx,
          fun hxr => Set.disjoint_left.mp (hdis.1 s hs) hxr hx⟩

lemma fresh_boot {reserved : List AddressRange} (hstop : range.stop < usizeRange)
    (hres : Reservations range reserved) (h : boot range reserved = .ok a) :
    a.root.Fresh a.rootOrder := by
  obtain ⟨a₀, hnew, hfold⟩ := Checked.bind_eq_ok.mp h
  obtain ⟨hle, hlen⟩ := new_eq_ok hnew
  obtain ⟨a₁, hnew', hrange, hlive, hinv⟩ := new_spec hle hstop hlen
  obtain rfl : a₀ = a₁ := Except.ok.inj (hnew.symm.trans hnew')
  refine fresh_reserveAll reserved hinv hrange hlive hres (fun r hr x hx => ?_) (fresh_new hnew) hfold
  have hinside := (hres.inside r hr).2
  rw [AddressRange.mem_addresses] at hx
  show x < range.stop - range.start
  omega

lemma plain_alloc {layout : Layout} {ptr : ℕ} (hplain : a.root.Plain a.rootOrder)
    (h : a.alloc layout = .ok (.ok ptr, a')) : a'.root.Plain a'.rootOrder := by
  obtain ⟨⟨result, root⟩, hroot, h⟩ := Checked.bind_eq_ok.mp h
  cases result with
  | error e => cases h
  | ok p =>
      obtain ⟨_, -, h⟩ := Checked.bind_eq_ok.mp h
      obtain ⟨_, -, h⟩ := Checked.bind_eq_ok.mp h
      obtain ⟨_, -, h⟩ := Checked.bind_eq_ok.mp h
      obtain ⟨_, -, h⟩ := Checked.bind_eq_ok.mp h
      cases h
      exact Node.Plain.alloc layout.reqSize_pos _ _ hplain hroot

lemma plain_dealloc {layout : Layout} {ptr : ℕ} (h : Inv U a) (hplain : a.root.Plain a.rootOrder)
    (hdealloc : a.dealloc ptr layout = .ok a') : a'.root.Plain a'.rootOrder := by
  obtain ⟨_, -, hdealloc⟩ := Checked.bind_eq_ok.mp hdealloc
  obtain ⟨root, hroot, hdealloc⟩ := Checked.bind_eq_ok.mp hdealloc
  obtain rfl := Except.ok.inj hdealloc
  exact hplain.dealloc layout.reqSize_pos h.node hroot

end BuddyAllocator

variable {range : AddressRange} {reserved : List AddressRange} {a : BuddyAllocator}
  {live : List Live}

lemma BuddyRun.plain (hstop : range.stop < usizeRange) (hres : Reservations range reserved)
    (run : BuddyRun range reserved a live) : a.root.Plain a.rootOrder := by
  induction run with
  | boot h => exact (BuddyAllocator.fresh_boot hstop hres h).plain
  | alloc run h ih => exact BuddyAllocator.plain_alloc ih h
  | allocErr run h ih =>
      rw [(run.inv hstop hres).alloc_error h]
      exact ih
  | dealloc run h ih => exact BuddyAllocator.plain_dealloc (run.inv hstop hres).inv ih h

/-- The live allocations of the tree are those of the run. -/
lemma RunInv.finsum_live (h : RunInv range reserved a live) :
    ∑ᶠ b ∈ a.arena.live, b.2 = (live.map fun l => l.layout.reqSize).sum := by
  let entry : Live → ℕ × ℕ := fun l => (l.ptr - range.start, l.layout.reqSize)
  have hentry : ∀ l ∈ live, range.start + (entry l).1 = l.ptr ∧ entry l ∈ a.arena.live := by
    intro l hl
    obtain ⟨p, hp, hmem⟩ := h.recorded l hl
    have hoffset : l.ptr - range.start = p := by omega
    show range.start + (l.ptr - range.start) = l.ptr ∧ (l.ptr - range.start, _) ∈ a.arena.live
    rw [hoffset]
    exact ⟨hp.symm, hmem⟩
  have hlive : a.arena.live = ((live.map entry).toFinset : Set (ℕ × ℕ)) := by
    ext b
    rw [List.coe_toFinset, Set.mem_ofPred_eq, List.mem_map]
    constructor
    · intro hb
      obtain ⟨l, hl, hptr, hsize⟩ := h.known b hb
      refine ⟨l, hl, Prod.ext ?_ hsize⟩
      show l.ptr - range.start = b.1
      omega
    · rintro ⟨l, hl, rfl⟩
      exact (hentry l hl).2
  have hnodup : (live.map entry).Nodup := by
    refine List.pairwise_map.mpr (h.distinct.imp_of_mem fun hl hm hne heq => hne ?_)
    rw [← (hentry _ hl).1, ← (hentry _ hm).1, heq]
  rw [hlive, finsum_mem_coe_finset, List.sum_toFinset _ hnodup, List.map_map]
  rfl

/-- The free addresses of the tree. -/
lemma RunInv.free_eq (h : RunInv range reserved a live) :
    (range.start + ·) '' a.arena.free =
      {x | x ∈ range.addresses ∧ (∀ r ∈ reserved, x ∉ r.addresses) ∧ ∀ l ∈ live, x ∉ l.block} := by
  ext x
  rw [Set.mem_image, Set.mem_ofPred_eq]
  constructor
  · rintro ⟨y, hy, rfl⟩
    obtain ⟨⟨hstop, hreserved⟩, hblocks⟩ := (h.inv.wf.mem_free y).mp hy
    refine ⟨⟨Nat.le_add_right _ _, hstop⟩, hreserved, fun l hl hx => ?_⟩
    obtain ⟨b, hb, -, -, hmem⟩ := h.mem_block hl (x := y)
    exact hblocks b hb (hmem.mp hx)
  · rintro ⟨⟨hstart, hstop⟩, hreserved, hblocks⟩
    obtain ⟨y, rfl⟩ := Nat.exists_eq_add_of_le hstart
    refine ⟨y, (h.inv.wf.mem_free y).mpr ⟨⟨hstop, hreserved⟩, fun b hb hy => ?_⟩, rfl⟩
    obtain ⟨l, hl, hptr, hsize⟩ := h.known b hb
    refine hblocks l hl ?_
    rw [Live.block, Layout.blockSize, hsize, hptr, Set.mem_Ico]
    rw [Dyadic.mem_extent] at hy
    omega

/-- **Heap statistics are exact.**  After any run, `alloc` is the sum of the sizes of the live
allocations, as they were requested, and `free` the number of the addresses that are neither reserved nor
in the block of a live allocation.  What is left of a block behind its allocation is in neither of
them. -/
theorem BuddyRun.stats_exact (hstop : range.stop < usizeRange) (hres : Reservations range reserved)
    (run : BuddyRun range reserved a live) :
    a.stats.alloc = (live.map fun l => max l.layout.size l.layout.align).sum ∧
      a.stats.free = Set.ncard {x | x ∈ range.addresses ∧ (∀ r ∈ reserved, x ∉ r.addresses) ∧
        ∀ l ∈ live, x ∉ l.block} := by
  have h := run.inv hstop hres
  obtain ⟨halloc, hfree⟩ := h.inv.node.counted (run.plain hstop hres)
  refine ⟨halloc.trans h.finsum_live, hfree.trans ?_⟩
  rw [← h.free_eq, Set.ncard_image_of_injective _ (add_right_injective _)]
  rfl

/-- One byte is allocated of three, of which the first one is reserved: it is counted as allocated, and
the other one as free. -/
theorem BuddyRun.stats_exact_threeBytes :
    ∃ a l, BuddyRun ⟨4096, 4099⟩ [⟨4096, 4097⟩] a [l] ∧ a.stats.alloc = 1 ∧ a.stats.free = 1 ∧
      Set.ncard {x | x ∈ AddressRange.addresses ⟨4096, 4099⟩ ∧
        (∀ r ∈ [(⟨4096, 4097⟩ : AddressRange)], x ∉ r.addresses) ∧ x ∉ l.block} = 1 := by
  obtain ⟨a, l, run, hsize, hfree⟩ : ∃ a l, BuddyRun ⟨4096, 4099⟩ [⟨4096, 4097⟩] a [l] ∧
      max l.layout.size l.layout.align = 1 ∧ a.stats.free = 1 :=
    ⟨_, _, @BuddyRun.alloc _ _ _ _ _ ⟨1, 1, ⟨0, rfl⟩, by norm_num⟩ _ (.boot rfl) rfl, rfl, rfl⟩
  have hres : Reservations ⟨4096, 4099⟩ [⟨4096, 4097⟩] :=
    ⟨by simp, by simp, List.pairwise_singleton _ _⟩
  obtain ⟨halloc, hcount⟩ := run.stats_exact (by decide) hres
  refine ⟨a, l, run, ?_, hfree, ?_⟩
  · rw [halloc, List.map_singleton, List.sum_singleton, hsize]
  · rw [← hfree, hcount]
    simp only [List.forall_mem_singleton]

end Deravel
