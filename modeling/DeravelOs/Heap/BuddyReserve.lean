import DeravelOs.Heap.BuddyOps
import DeravelOs.Lib.Cover

/-!
# Reservations before the first allocation

As long as nothing is allocated, a tree is known by its *barred* blocks: the nodes that cannot give
anything away.  A node is barred by its summary alone, and it has no children, or free ones.  So
whenever `reserve_range` has to look below it, the node is opened, and all of it becomes free except
for what is in the range.

* `Node.barred`: the barred blocks; everything else is free (`free_eq`).
* `reserveRange_result`: `reserve_range` stops at a barred block that the range covers, and loses
  every barred block that the range reaches into.
-/

namespace Deravel

open Dyadic

namespace Node

variable {n s t : ℕ} {node l r : Node} {b : ℕ × ℕ}

/-- The blocks that are reserved or outside of the range, as nodes of the tree. -/
def barred : ℕ → Node → Set (ℕ × ℕ)
  | n, bare m a => if m = 0 ∧ a = 0 then {(0, n)} else ∅
  | 0, split m a _ _ => if m = 0 ∧ a = 0 then {(0, 0)} else ∅
  | n + 1, split m a l r =>
      if m = 0 ∧ a = 0 ∧ l.maxAvailable = 2 ^ n ∧ r.maxAvailable = 2 ^ n then {(0, n + 1)}
      else if a = 0 then glueLive n (barred n l) (barred n r)
      else ∅

/-- The barred blocks of a node that goes by its children. -/
lemma barred_parted :
    (split (merge n l.maxAvailable r.maxAvailable) 0 l r).barred (n + 1) =
      glueLive n (l.barred n) (r.barred n) := by
  have hnot : ¬ (merge n l.maxAvailable r.maxAvailable = 0 ∧ 0 = 0 ∧
      l.maxAvailable = 2 ^ n ∧ r.maxAvailable = 2 ^ n) := by
    rintro ⟨hzero, -, hfull⟩
    have hpos : 0 < 2 ^ (n + 1) := by positivity
    rw [merge, if_pos hfull] at hzero
    omega
  rw [barred, if_neg hnot, if_pos rfl]

lemma live_parted_eq_empty (hl : Inv n l) {m : ℕ}
    (h : (split m 0 l r).live (n + 1) = ∅) : l.live n = ∅ ∧ r.live n = ∅ := by
  simp only [live, if_true] at h
  constructor
  · refine Set.eq_empty_iff_forall_notMem.mpr fun b hb => ?_
    have hpos : 0 < 2 ^ blockOrder b.2 := by positivity
    have hmem : b ∈ glueLive n (l.live n) (r.live n) :=
      Or.inl ⟨by have := (hl.live_bound hb).1; omega, hb⟩
    rw [h] at hmem
    exact hmem
  · refine Set.eq_empty_iff_forall_notMem.mpr fun b hb => ?_
    have hmem : (b.1 + 2 ^ n, b.2) ∈ glueLive n (l.live n) (r.live n) :=
      Or.inr ⟨Nat.le_add_left _ _, by simpa using hb⟩
    rw [h] at hmem
    exact hmem

namespace Inv

/-- A barred block is a block of the tree. -/
lemma barred_bound (h : Inv n node) (hb : b ∈ node.barred n) : b.1 + 2 ^ b.2 ≤ 2 ^ n := by
  induction h generalizing b with
  | vacant n => simp [Node.barred] at hb
  | barred n =>
      simp only [Node.barred, and_self, if_true, Set.mem_singleton_iff] at hb
      simp [hb]
  | @taken n a hlo _ =>
      have ha : a ≠ 0 := by omega
      simp [Node.barred, ha] at hb
  | @parted n l r hl hr ihl ihr =>
      rw [barred_parted] at hb
      rw [pow_succ]
      rcases hb with ⟨-, hb⟩ | ⟨hge, hb⟩
      · have := ihl hb
        omega
      · have := ihr hb
        dsimp only at this
        omega
  | @covered n a l r hl hr hlm hrm ha =>
      by_cases hzero : a = 0
      · simp only [Node.barred, hzero, hlm, hrm, and_self, if_true, Set.mem_singleton_iff] at hb
        simp [hb]
      · simp [Node.barred, hzero] at hb
  | @grain m a h =>
      simp only [Node.barred] at hb
      split at hb
      · simp [Set.mem_singleton_iff.mp hb]
      · exact absurd hb (Set.notMem_empty _)

/-- Barred blocks do not overlap. -/
lemma barred_disjoint (h : Inv n node) {c : ℕ × ℕ} (hb : b ∈ node.barred n)
    (hc : c ∈ node.barred n) {x : ℕ} (hxb : x ∈ block b.2 b.1) (hxc : x ∈ block c.2 c.1) :
    b = c := by
  induction h generalizing b c x with
  | vacant n => simp [Node.barred] at hb
  | barred n =>
      simp only [Node.barred, and_self, if_true, Set.mem_singleton_iff] at hb hc
      rw [hb, hc]
  | @taken n a hlo _ =>
      have ha : a ≠ 0 := by omega
      simp [Node.barred, ha] at hb
  | @parted n l r hl hr ihl ihr =>
      rw [barred_parted] at hb hc
      simp only [mem_block] at hxb hxc
      rcases hb with ⟨-, hb⟩ | ⟨hgeb, hb⟩ <;> rcases hc with ⟨-, hc⟩ | ⟨hgec, hc⟩
      · exact ihl hb hc hxb hxc
      · have := hl.barred_bound hb
        omega
      · have := hl.barred_bound hc
        omega
      · have heq := ihr hb hc (x := x - 2 ^ n) (by rw [mem_block]; dsimp only; omega)
          (by rw [mem_block]; dsimp only; omega)
        obtain ⟨hfirst, horder⟩ := Prod.mk.inj heq
        exact Prod.ext (by omega) horder
  | @covered n a l r _ _ hlm hrm ha =>
      by_cases hzero : a = 0
      · simp only [Node.barred, hzero, hlm, hrm, and_self, if_true, Set.mem_singleton_iff] at hb hc
        rw [hb, hc]
      · simp [Node.barred, hzero] at hb
  | @grain m a _ =>
      simp only [Node.barred] at hb hc
      split at hb
      · rw [if_pos ‹_›] at hc
        rw [Set.mem_singleton_iff.mp hb, Set.mem_singleton_iff.mp hc]
      · exact absurd hb (Set.notMem_empty _)

/-- Nothing is barred where everything is free. -/
lemma barred_of_full (h : Inv n node) (hm : node.maxAvailable = 2 ^ n) : node.barred n = ∅ := by
  have hpos : 0 < 2 ^ n := by positivity
  induction h with
  | vacant n => simp [Node.barred]
  | barred n => simp only [maxAvailable_bare] at hm; omega
  | taken _ _ => simp only [maxAvailable_bare] at hm; omega
  | @parted n l r hl hr ihl ihr =>
      have hpos' : 0 < 2 ^ n := by positivity
      simp only [maxAvailable_split] at hm
      obtain ⟨hlm, hrm⟩ := (two_pow_succ_le_merge hl.maxAvailable_le hr.maxAvailable_le).mp hm.ge
      rw [barred_parted, ihl (hl.maxAvailable_le.antisymm hlm) hpos',
        ihr (hr.maxAvailable_le.antisymm hrm) hpos', glueLive_empty]
  | covered _ _ _ _ _ => simp only [maxAvailable_split] at hm; omega
  | grain h =>
      simp only [maxAvailable_split] at hm
      simp [Node.barred, hm]

/-- Where nothing is allocated and not everything is free, something is barred. -/
lemma exists_barred (h : Inv n node) (hlive : node.live n = ∅) (hm : node.maxAvailable ≠ 2 ^ n) :
    ∃ b, b ∈ node.barred n := by
  induction h with
  | vacant n => exact absurd rfl hm
  | barred n => exact ⟨(0, n), by simp [Node.barred]⟩
  | @taken n a hlo _ =>
      have ha : a ≠ 0 := by omega
      simp [live, ha] at hlive
  | @parted n l r hl hr ihl ihr =>
      obtain ⟨hlivel, hliver⟩ := live_parted_eq_empty hl hlive
      simp only [maxAvailable_split] at hm
      rw [barred_parted]
      by_cases hlm : l.maxAvailable = 2 ^ n
      · have hrm : r.maxAvailable ≠ 2 ^ n := fun hrm => hm (if_pos ⟨hlm, hrm⟩)
        obtain ⟨b, hb⟩ := ihr hliver hrm
        exact ⟨(b.1 + 2 ^ n, b.2), Or.inr ⟨Nat.le_add_left _ _, by simpa using hb⟩⟩
      · obtain ⟨b, hb⟩ := ihl hlivel hlm
        have hpos : 0 < 2 ^ b.2 := by positivity
        exact ⟨b, Or.inl ⟨by have := hl.barred_bound hb; omega, hb⟩⟩
  | @covered n a l r hl hr hlm hrm ha =>
      rcases ha with rfl | ⟨hlo, -⟩
      · exact ⟨(0, n + 1), by simp [Node.barred, hlm, hrm]⟩
      · have ha : a ≠ 0 := by omega
        simp [live, ha] at hlive
  | @grain m a h =>
      rcases h with ⟨rfl, -⟩ | ⟨rfl, -⟩
      · exact absurd rfl hm
      · have ha : a = 0 := by
          by_contra ha
          simp [live, ha] at hlive
        exact ⟨(0, 0), by simp [Node.barred, ha]⟩

/-- **What is not barred is free,** as long as nothing is allocated. -/
theorem free_eq (h : Inv n node) (hlive : node.live n = ∅) :
    node.free n = Set.Iio (2 ^ n) \ numbers (node.barred n) := by
  induction h with
  | vacant n => simp [free, Node.barred, numbers_empty]
  | barred n =>
      ext x
      simp [free, Node.barred, numbers]
  | @taken n a hlo _ =>
      have ha : a ≠ 0 := by omega
      simp [live, ha] at hlive
  | @parted n l r hl hr ihl ihr =>
      obtain ⟨hlivel, hliver⟩ := live_parted_eq_empty hl hlive
      rw [free_parted hl hr, barred_parted, numbers_glue fun b hb => hl.barred_bound hb,
        ihl hlivel, ihr hliver]
      ext x
      simp only [mem_glue, Set.mem_sdiff, Set.mem_Iio, pow_succ]
      constructor
      · rintro (⟨hlow, hx, hfree⟩ | ⟨hhigh, hx, hfree⟩)
        · exact ⟨by omega, by simp [hlow, hfree, Nat.not_le.mpr hlow]⟩
        · exact ⟨by omega, by simp [hhigh, hfree, Nat.not_lt.mpr hhigh]⟩
      · rintro ⟨hlt, hfree⟩
        rcases Nat.lt_or_ge x (2 ^ n) with hlow | hhigh
        · exact Or.inl ⟨hlow, hlow, fun hx => hfree (Or.inl ⟨hlow, hx⟩)⟩
        · exact Or.inr ⟨hhigh, by omega, fun hx => hfree (Or.inr ⟨hhigh, hx⟩)⟩
  | @covered n a l r hl hr hlm hrm ha =>
      rcases ha with rfl | ⟨hlo, -⟩
      · ext x
        simp [free, Node.barred, hlm, hrm, numbers]
      · have ha : a ≠ 0 := by omega
        simp [live, ha] at hlive
  | @grain m a h =>
      rcases h with ⟨rfl, rfl⟩ | ⟨rfl, -⟩
      · simp [free, Node.barred, numbers_empty]
      · have ha : a = 0 := by
          by_contra ha
          simp [live, ha] at hlive
        ext x
        simp [free, Node.barred, ha, numbers]

end Inv

/-! ## `Node::new` -/

/-- What `Node::new` bars are the blocks after the range. -/
theorem new_barred (hsize : s ≤ 2 ^ n) (h : new n s = .ok node) :
    node.barred n = {b | MaxBlock s (2 ^ n) b} := by
  induction n generalizing s node with
  | zero =>
      rcases Nat.eq_zero_or_pos s with rfl | hpos
      · obtain rfl : bare 0 0 = node := by simpa [new, pure, Except.pure] using h
        ext b
        exact maxBlock_whole.symm
      · obtain rfl : s = 1 := by
          rw [pow_zero] at hsize
          omega
        obtain rfl : bare 1 0 = node := by simpa [new, pure, Except.pure] using h
        ext b
        simp [barred, not_maxBlock_empty]
  | succ n ih =>
      unfold new at h
      by_cases h0 : s = 0
      · subst h0
        obtain rfl : bare 0 0 = node := by simpa [pure, Except.pure] using h
        ext b
        simp [barred, maxBlock_whole]
      by_cases hfull : s = 2 ^ (n + 1)
      · subst hfull
        rw [if_neg h0, if_pos rfl] at h
        cases h
        rw [(Inv.vacant (n + 1)).barred_of_full rfl]
        ext b
        simp [not_maxBlock_empty]
      · simp only [h0, hfull, if_false] at h
        obtain ⟨-, -, h⟩ := Checked.bind_eq_ok.mp h
        obtain ⟨l, hl, h⟩ := Checked.bind_eq_ok.mp h
        obtain ⟨r, hr, h⟩ := Checked.bind_eq_ok.mp h
        cases h
        have hsum : 2 ^ (n + 1) = 2 ^ n + 2 ^ n := by ring
        rw [update_split, barred_parted, ih (min_le_left _ _) hl, ih (by omega) hr,
          maxBlock_glue le_rfl fun h => h0 h.1]
        congr 1
        · rw [min_eq_right (by omega : 2 ^ n ≤ 2 ^ (n + 1))]
          rcases le_total (2 ^ n) s with hge | hle
          · ext b
            simp [min_eq_left hge, not_maxBlock_empty hge, not_maxBlock_empty le_rfl]
          · rw [min_eq_right hle]
        · rw [show 2 ^ (n + 1) - 2 ^ n = 2 ^ n by omega,
            show max s (2 ^ n) - 2 ^ n = s - 2 ^ n by omega]

/-! ## `Node::reserve_range` -/

/-- What `get_children` returns: the barred blocks are those of the children, or there was one, which
is open now. -/
structure Reopened (n : ℕ) (node l r : Node) : Prop where
  left : Inv n l
  right : Inv n r
  live_left : l.live n = ∅
  live_right : r.live n = ∅
  allocated : node.allocated = 0
  barred : node.barred (n + 1) = {(0, n + 1)} ∧ l.barred n = ∅ ∧ r.barred n = ∅ ∨
    node.barred (n + 1) = glueLive n (l.barred n) (r.barred n)

lemma reopened_getChildren (h : Inv (n + 1) node) (hlive : node.live (n + 1) = ∅) :
    Reopened n node (node.getChildren (2 ^ (n + 1))).1 (node.getChildren (2 ^ (n + 1))).2 := by
  have hvacant : (bare (2 ^ n) 0).barred n = ∅ := (Inv.vacant n).barred_of_full rfl
  have hnone : (bare (2 ^ n) 0).live n = ∅ := (Inv.vacant n).live_of_full rfl
  cases h with
  | vacant =>
      simp only [getChildren, two_pow_succ_div]
      refine ⟨.vacant n, .vacant n, hnone, hnone, rfl, Or.inr ?_⟩
      rw [hvacant, glueLive_empty, (Inv.vacant (n + 1)).barred_of_full rfl]
  | barred =>
      simp only [getChildren, two_pow_succ_div]
      exact ⟨.vacant n, .vacant n, hnone, hnone, rfl,
        Or.inl ⟨by simp [Node.barred], hvacant, hvacant⟩⟩
  | @taken _ a hlo _ =>
      have ha : a ≠ 0 := by omega
      simp [live, ha] at hlive
  | parted hl hr =>
      obtain ⟨hlivel, hliver⟩ := live_parted_eq_empty hl hlive
      exact ⟨hl, hr, hlivel, hliver, rfl, Or.inr barred_parted⟩
  | @covered _ a _ _ hl hr hlm hrm ha =>
      rcases ha with rfl | ⟨hlo, -⟩
      · exact ⟨hl, hr, hl.live_of_full hlm, hr.live_of_full hrm, rfl,
          Or.inl ⟨by simp [Node.barred, hlm, hrm], hl.barred_of_full hlm,
            hr.barred_of_full hrm⟩⟩
      · have ha : a ≠ 0 := by omega
        simp [live, ha] at hlive

/-- How `reserve_range` ends: at a barred block that the range covers, or with the barred blocks
carved. -/
inductive ReserveResult (n s t : ℕ) (node : Node) : Checked Node → Prop
  | stopped {b : ℕ × ℕ} (hb : b ∈ node.barred n) (hcovers : Covers s t b) :
      ReserveResult n s t node (.error (.assertion .nodeReserve))
  | carved {node' : Node} (inv : Inv n node') (live : node'.live n = ∅)
      (hnone : ∀ b ∈ node.barred n, ¬ Covers s t b)
      (barred : node'.barred n = carve s t (node.barred n)) : ReserveResult n s t node (.ok node')

/-- A node that is withdrawn as a whole is one barred block. -/
lemma Inv.barred_setFields (h : Inv n node) (hm : node.maxAvailable = 2 ^ n) :
    (node.setFields 0 node.allocated).barred n = {(0, n)} := by
  have hpos : 0 < 2 ^ n := by positivity
  cases h with
  | vacant => simp [setFields, Node.barred]
  | barred => simp [setFields, Node.barred]
  | taken _ _ => simp only [maxAvailable_bare] at hm; omega
  | parted hl hr =>
      obtain ⟨hlm, hrm⟩ :=
        (two_pow_succ_le_merge hl.maxAvailable_le hr.maxAvailable_le).mp hm.ge
      simp [setFields, Node.barred, hl.maxAvailable_le.antisymm hlm,
        hr.maxAvailable_le.antisymm hrm]
  | covered _ _ _ _ _ => simp only [maxAvailable_split] at hm; omega
  | grain h =>
      simp only [maxAvailable_split] at hm
      rcases h with ⟨-, rfl⟩ | ⟨rfl, -⟩
      · simp [setFields, Node.barred]
      · omega

/-- The whole node is reserved. -/
lemma reserve_whole_result (h : Inv n node) (hlive : node.live n = ∅) :
    ReserveResult n 0 (2 ^ n) node (node.reserveRange n 0 (2 ^ n)) := by
  unfold reserveRange
  simp only [and_self, if_true]
  by_cases hm : node.maxAvailable = 2 ^ n
  · have hbarred := h.barred_of_full hm
    rw [ensure_pos hm, Checked.ok_bind]
    have hcarved : carve 0 (2 ^ n) (node.barred n) = {(0, n)} := by
      ext b
      rw [mem_carve, hbarred]
      simpa using maxBlock_whole
    exact .carved (h.setFields_zero hm) (h.live_setFields.trans hlive)
      (fun b hb => absurd (hbarred ▸ hb) (Set.notMem_empty b))
      ((h.barred_setFields hm).trans hcarved.symm)
  · obtain ⟨b, hb⟩ := h.exists_barred hlive hm
    have hstops : ensure (node.maxAvailable = 2 ^ n) (.assertion .nodeReserve) =
        .error (.assertion .nodeReserve) := if_neg hm
    rw [hstops]
    exact .stopped hb ⟨Nat.zero_le _, h.barred_bound hb⟩

/-- The empty range of a single address frees it: both of its halves are as large as they can be. -/
lemma reserve_nothing (h : Inv 0 node) (hlive : node.live 0 = ∅) :
    node.reserveRange 0 0 0 = .ok (split 1 0 (bare 0 0) (bare 0 0)) := by
  have hopen : node.getChildren 1 = (bare 0 0, bare 0 0) ∧ node.allocated = 0 := by
    cases h with
    | vacant => exact ⟨rfl, rfl⟩
    | barred => exact ⟨rfl, rfl⟩
    | @taken _ a hlo _ =>
        have ha : a ≠ 0 := by omega
        simp [live, ha] at hlive
    | @grain m a _ =>
        refine ⟨rfl, ?_⟩
        by_contra ha
        rw [allocated_split] at ha
        simp [live, ha] at hlive
  have hpart : ¬ (0 = 0 ∧ 0 = 2 ^ 0) := by simp
  rw [reserveRange, if_neg hpart, if_neg (lt_irrefl 0), hopen.1]
  simp only [setChildren, hopen.2]
  rfl

lemma reserve_nothing_result (h : Inv 0 node) (hlive : node.live 0 = ∅) :
    ReserveResult 0 0 0 node (node.reserveRange 0 0 0) := by
  have hnone : ∀ b, ¬ Covers 0 0 b := by
    rintro b ⟨-, hfit⟩
    have hpos : 0 < 2 ^ b.2 := by positivity
    omega
  rw [reserve_nothing h hlive]
  refine .carved (.grain (Or.inl ⟨rfl, rfl⟩)) (by simp [live]) (fun b _ => hnone b) ?_
  have hempty : (split 1 0 (bare 0 0) (bare 0 0)).barred 0 = ∅ := by simp [barred]
  rw [hempty, eq_comm, Set.eq_empty_iff_forall_notMem]
  rintro b (⟨hb, hcuts⟩ | hmax)
  · have hfit := h.barred_bound hb
    have hpos : 0 < 2 ^ b.2 := by positivity
    exact hcuts ⟨by omega, Or.inr (by omega), hnone b⟩
  · exact hnone b hmax.covers

/-- A range that is not the whole node is split. -/
lemma reserveRange_succ (hpart : ¬ (s = 0 ∧ t = 2 ^ (n + 1))) :
    node.reserveRange (n + 1) s t =
      (if s < 2 ^ n then
          (node.getChildren (2 ^ (n + 1))).1.reserveRange n s (min t (2 ^ n))
        else pure (node.getChildren (2 ^ (n + 1))).1) >>= fun left =>
      (if t > 2 ^ n then
          (node.getChildren (2 ^ (n + 1))).2.reserveRange n (max s (2 ^ n) - 2 ^ n) (t - 2 ^ n)
        else pure (node.getChildren (2 ^ (n + 1))).2) >>= fun right =>
      pure ((node.setChildren left right).update (2 ^ (n + 1))) := by
  rw [reserveRange, if_neg hpart]

/-- An empty range at the end of a node is handed down for ever. -/
lemma reserveRange_top (n : ℕ) (node : Node) :
    node.reserveRange n (2 ^ n) (2 ^ n) = .error (.stackOverflow .nodeReserve) := by
  induction n generalizing node with
  | zero => rw [reserveRange]; rfl
  | succ n ih =>
      have hpos : 0 < 2 ^ n := by positivity
      have hsum : 2 ^ (n + 1) = 2 ^ n + 2 ^ n := by ring
      have hpart : ¬ (2 ^ (n + 1) = 0 ∧ 2 ^ (n + 1) = 2 ^ (n + 1)) := by omega
      have hleft : ¬ 2 ^ (n + 1) < 2 ^ n := by omega
      have hright : 2 ^ (n + 1) > 2 ^ n := by omega
      rw [reserveRange_succ hpart, if_neg hleft, if_pos hright,
        show max (2 ^ (n + 1)) (2 ^ n) - 2 ^ n = 2 ^ n by omega,
        show 2 ^ (n + 1) - 2 ^ n = 2 ^ n by omega, ih]
      rfl

namespace Reopened

/-- Opening a barred block makes no difference to a range that reaches into it. -/
lemma carve_eq (ho : Reopened n node l r) (hs : s < 2 ^ (n + 1)) (ht : t ≤ 2 ^ (n + 1))
    (hpart : ¬ (s = 0 ∧ t = 2 ^ (n + 1))) :
    carve s t (node.barred (n + 1)) = carve s t (glueLive n (l.barred n) (r.barred n)) := by
  rcases ho.barred with ⟨hnode, hl, hr⟩ | hnode
  · ext b
    rw [mem_carve, mem_carve, hnode, hl, hr, glueLive_empty]
    constructor
    · rintro (⟨hb, hnot⟩ | hmax)
      · obtain rfl := Set.mem_singleton_iff.mp hb
        exact absurd (cuts_whole hs hpart ht) hnot
      · exact Or.inr hmax
    · rintro (⟨hb, -⟩ | hmax)
      · exact absurd hb (Set.notMem_empty b)
      · exact Or.inr hmax
  · rw [hnode]

lemma mem_left (ho : Reopened n node l r) (hb : b ∈ l.barred n) : b ∈ node.barred (n + 1) := by
  rcases ho.barred with ⟨-, hl, -⟩ | hnode
  · exact absurd (hl ▸ hb) (Set.notMem_empty b)
  · have hpos : 0 < 2 ^ b.2 := by positivity
    have hfit := ho.left.barred_bound hb
    rw [hnode]
    exact Or.inl ⟨by omega, hb⟩

lemma mem_right (ho : Reopened n node l r) (hb : b ∈ r.barred n) :
    (b.1 + 2 ^ n, b.2) ∈ node.barred (n + 1) := by
  rcases ho.barred with ⟨-, -, hr⟩ | hnode
  · exact absurd (hr ▸ hb) (Set.notMem_empty b)
  · rw [hnode]
    exact Or.inr ⟨Nat.le_add_left _ _, by simpa using hb⟩

/-- A range that covers nothing in the halves covers nothing in the node. -/
lemma not_covers (ho : Reopened n node l r) (hs : s < 2 ^ (n + 1)) (ht : t ≤ 2 ^ (n + 1))
    (hpart : ¬ (s = 0 ∧ t = 2 ^ (n + 1))) (hl : ∀ b ∈ l.barred n, ¬ Covers s t b)
    (hr : ∀ b ∈ r.barred n, ¬ Covers s t (b.1 + 2 ^ n, b.2)) :
    ∀ b ∈ node.barred (n + 1), ¬ Covers s t b := by
  intro b hb
  rcases ho.barred with ⟨hnode, -, -⟩ | hnode
  · rw [hnode] at hb
    obtain rfl := Set.mem_singleton_iff.mp hb
    exact (cuts_whole hs hpart ht).2.2
  · rw [hnode] at hb
    rcases hb with ⟨-, hb⟩ | ⟨hge, hb⟩
    · exact hl b hb
    · have hnot := hr _ hb
      rwa [Nat.sub_add_cancel hge] at hnot

end Reopened

/-- **What `reserve_range` does to the barred blocks.** -/
theorem reserveRange_result (h : Inv n node) (hlive : node.live n = ∅) (hle : s ≤ t)
    (ht : t ≤ 2 ^ n) (hs : s < 2 ^ n) :
    ReserveResult n s t node (node.reserveRange n s t) := by
  induction n generalizing s t node with
  | zero =>
      obtain rfl : s = 0 := by
        rw [pow_zero] at hs
        omega
      by_cases hwhole : t = 1
      · subst hwhole
        exact reserve_whole_result h hlive
      · obtain rfl : t = 0 := by
          rw [pow_zero] at ht
          omega
        exact reserve_nothing_result h hlive
  | succ n ih =>
      by_cases hpart : s = 0 ∧ t = 2 ^ (n + 1)
      · obtain ⟨rfl, rfl⟩ := hpart
        exact reserve_whole_result h hlive
      have ho := reopened_getChildren h hlive
      rw [reserveRange_succ hpart]
      generalize node.getChildren (2 ^ (n + 1)) = children at ho ⊢
      obtain ⟨l, r⟩ := children
      change Reopened n node l r at ho
      have hsum : 2 ^ (n + 1) = 2 ^ n + 2 ^ n := by ring
      -- each half is carved by the part of the range that reaches into it, or is as it was
      have hleft : (∃ b ∈ l.barred n, Covers s t b ∧
            (if s < 2 ^ n then l.reserveRange n s (min t (2 ^ n)) else pure l) =
              .error (.assertion .nodeReserve)) ∨
          ∃ l', (if s < 2 ^ n then l.reserveRange n s (min t (2 ^ n)) else pure l) = .ok l' ∧
            Inv n l' ∧ l'.live n = ∅ ∧ (∀ b ∈ l.barred n, ¬ Covers s t b) ∧
            l'.barred n = if s < 2 ^ n then carve s (min t (2 ^ n)) (l.barred n) else l.barred n := by
        split
        · next hlow =>
            generalize hx : l.reserveRange n s (min t (2 ^ n)) = x
            have hresult := ih ho.left ho.live_left (le_min hle hlow.le) (min_le_right _ _) hlow
            rw [hx] at hresult
            cases hresult with
            | stopped hb hcovers =>
                exact Or.inl ⟨_, hb, (covers_left (ho.left.barred_bound hb)).mp hcovers, rfl⟩
            | carved inv live hnone barred =>
                refine Or.inr ⟨_, rfl, inv, live, fun b hb hcovers => hnone b hb ?_, barred⟩
                exact (covers_left (ho.left.barred_bound hb)).mpr hcovers
        · next hhigh =>
            exact Or.inr ⟨l, rfl, ho.left, ho.live_left, fun b hb =>
              not_covers_left (Nat.not_lt.mp hhigh) (ho.left.barred_bound hb), rfl⟩
      have hright : (∃ b ∈ r.barred n, Covers s t (b.1 + 2 ^ n, b.2) ∧
            (if t > 2 ^ n then r.reserveRange n (max s (2 ^ n) - 2 ^ n) (t - 2 ^ n) else pure r) =
              .error (.assertion .nodeReserve)) ∨
          ∃ r', (if t > 2 ^ n then r.reserveRange n (max s (2 ^ n) - 2 ^ n) (t - 2 ^ n)
              else pure r) = .ok r' ∧
            Inv n r' ∧ r'.live n = ∅ ∧ (∀ b ∈ r.barred n, ¬ Covers s t (b.1 + 2 ^ n, b.2)) ∧
            r'.barred n = if 2 ^ n < t then
              carve (max s (2 ^ n) - 2 ^ n) (t - 2 ^ n) (r.barred n) else r.barred n := by
        split
        · next hhigh =>
            generalize hx : r.reserveRange n (max s (2 ^ n) - 2 ^ n) (t - 2 ^ n) = x
            have hresult := ih ho.right ho.live_right (s := max s (2 ^ n) - 2 ^ n) (t := t - 2 ^ n)
              (by omega) (by omega) (by omega)
            rw [hx] at hresult
            cases hresult with
            | stopped hb hcovers => exact Or.inl ⟨_, hb, (covers_right hhigh).mp hcovers, rfl⟩
            | carved inv live hnone barred =>
                refine Or.inr ⟨_, rfl, inv, live, fun b hb hcovers => hnone b hb ?_, ?_⟩
                · exact (covers_right hhigh).mpr hcovers
                · exact barred
        · next hlow =>
            exact Or.inr ⟨r, rfl, ho.right, ho.live_right,
              fun b _ => not_covers_right (Nat.not_lt.mp hlow), rfl⟩
      rcases hleft with ⟨b, hb, hcovers, hstops⟩ | ⟨l', hok, invl, livel, hnonel, barredl⟩
      · rw [hstops]
        exact .stopped (ho.mem_left hb) hcovers
      · rw [hok, Checked.ok_bind]
        rcases hright with ⟨b, hb, hcovers, hstops⟩ | ⟨r', hok, invr, liver, hnoner, barredr⟩
        · rw [hstops]
          exact .stopped (ho.mem_right hb) hcovers
        · rw [hok, Checked.ok_bind, setChildren, update_split, ho.allocated]
          refine .carved (.parted invl invr) ?_ (ho.not_covers hs ht hpart hnonel hnoner) ?_
          · simp only [live, if_true]
            rw [livel, liver, glueLive_empty]
          · rw [barred_parted, barredl, barredr, ho.carve_eq hs ht hpart,
              carve_glue hle ht hpart fun b hb => ho.left.barred_bound hb]

end Node

end Deravel
