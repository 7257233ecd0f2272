import DeravelOs.Heap.BuddyTree

/-!
# What the operations of a buddy tree do

One lemma for each of `Node::new`, `alloc`, `dealloc` and `reserve_range`: on a tree that satisfies
`Node.Inv` the operation does not panic, and it acts on the meaning of the tree (`Node.arena`) as
the abstract operation does.  The induction is on the order of the node in each case, and
`Inv.parted` puts the changed half back.
-/

namespace Deravel

open Dyadic (HasBlock glue glueLive glueLive_empty blockOrder extent Arena)

namespace Node

variable {n req : ℕ} {node l r : Node}

/-- `update` recomputes the summary from the children. -/
lemma update_split (n m a : ℕ) (l r : Node) :
    (split m a l r).update (2 ^ (n + 1))
      = split (merge n l.maxAvailable r.maxAvailable) a l r := by
  simp only [update, two_pow_succ_div, merge]
  split <;> rfl

lemma arena_parted (hl : Inv n l) (hr : Inv n r) :
    (split (merge n l.maxAvailable r.maxAvailable) 0 l r).arena (n + 1)
      = (l.arena n).glue n (r.arena n) := by
  simp only [arena, Arena.glue, Inv.free_parted hl hr, live, if_true]

lemma arena_of_full (h : Inv n node) (hm : node.maxAvailable = 2 ^ n) :
    node.arena n = ⟨Set.Iio (2 ^ n), ∅⟩ := by
  simp only [arena, h.free_of_full hm, h.live_of_full hm]

lemma arena_vacant (n : ℕ) : (bare (2 ^ n) 0).arena n = ⟨Set.Iio (2 ^ n), ∅⟩ :=
  arena_of_full (.vacant n) rfl

/-- What `get_children` returns for a node that is not taken or reserved as a whole. -/
structure Opened (n : ℕ) (node l r : Node) : Prop where
  left : Inv n l
  right : Inv n r
  allocated : node.allocated = 0
  maxAvailable : node.maxAvailable = merge n l.maxAvailable r.maxAvailable
  arena : node.arena (n + 1) = (l.arena n).glue n (r.arena n)

lemma opened_getChildren (h : Inv (n + 1) node) (h0 : node.maxAvailable ≠ 0) :
    Opened n node (node.getChildren (2 ^ (n + 1))).1 (node.getChildren (2 ^ (n + 1))).2 := by
  cases h with
  | vacant =>
      simp only [getChildren, two_pow_succ_div]
      refine ⟨.vacant n, .vacant n, rfl, by simp [merge], ?_⟩
      simp only [arena_vacant, Arena.glue, Dyadic.glue_full, glueLive_empty]
  | barred => exact absurd rfl h0
  | taken _ _ => exact absurd rfl h0
  | parted hl hr => exact ⟨hl, hr, rfl, rfl, arena_parted hl hr⟩
  | covered _ _ _ _ _ => exact absurd rfl h0

lemma setChildren_update (h : Opened n node l r) (l' r' : Node) :
    (node.setChildren l' r').update (2 ^ (n + 1))
      = split (merge n l'.maxAvailable r'.maxAvailable) 0 l' r' := by
  rw [setChildren, update_split, h.allocated]

/-! ## `Node::new` -/

/-- `Node::new` builds a tree whose first `size` addresses are free. -/
theorem new_spec : ∀ (n size : ℕ), size ≤ 2 ^ n →
    ∃ node, new n size = .ok node ∧ Inv n node ∧ node.arena n = ⟨Set.Iio size, ∅⟩ := by
  intro n
  induction n with
  | zero =>
      intro size hsize
      rcases Nat.eq_zero_or_pos size with rfl | hpos
      · exact ⟨bare 0 0, by simp [new, pure, Except.pure], .barred 0, by simp [arena, free, live]⟩
      · obtain rfl : size = 1 := by simp at hsize; omega
        exact ⟨bare (2 ^ 0) 0, by simp [new, pure, Except.pure], .vacant 0, arena_vacant 0⟩
  | succ n ih =>
      intro size hsize
      unfold new
      by_cases h0 : size = 0
      · subst h0
        exact ⟨bare 0 0, by simp [pure, Except.pure], .barred _, by simp [arena, free, live]⟩
      by_cases hfull : size = 2 ^ (n + 1)
      · subst hfull
        exact ⟨bare (2 ^ (n + 1)) 0, by simp [pure, Except.pure], .vacant _, arena_vacant _⟩
      obtain ⟨l, hl, hlInv, hlArena⟩ := ih (min (2 ^ n) size) (min_le_left _ _)
      obtain ⟨r, hr, hrInv, hrArena⟩ := ih (size - 2 ^ n) (by rw [pow_succ] at hsize; omega)
      have hlt : size < 2 ^ (n + 1) := lt_of_le_of_ne hsize hfull
      refine ⟨split (merge n l.maxAvailable r.maxAvailable) 0 l r, ?_, .parted hlInv hrInv, ?_⟩
      · simp only [h0, hfull, if_false, hlt, ensure_pos, hl, hr, Checked.ok_bind, update_split]
        rfl
      · rw [arena_parted hlInv hrInv, hlArena, hrArena]
        simp only [Arena.glue, Dyadic.glue_Iio, glueLive_empty]

/-! ## `Node::alloc` -/

/-- A successful `alloc`: an aligned block that was free is taken. -/
structure Allocated (n req : ℕ) (node : Node) (ptr : ℕ) (node' : Node) : Prop where
  inv : Inv n node'
  aligned : 2 ^ blockOrder req ∣ ptr
  free : extent (ptr, req) ⊆ node.free n
  arena : node'.arena n = (node.arena n).take (ptr, req)

/-- The whole node is taken. -/
lemma allocated_whole (h : Inv n node) (hm : node.maxAvailable = 2 ^ n)
    (hlo : 2 ^ n / 2 < req) (hhi : req ≤ 2 ^ n) :
    Allocated n req node 0 (node.setFields 0 req) := by
  have hreq : req ≠ 0 := by omega
  have hext : extent (0, req) = Set.Iio (2 ^ n) := by
    ext a; simp [Dyadic.blockOrder_eq hlo hhi]
  have harena : (node.setFields 0 req).arena n = ⟨∅, {(0, req)}⟩ := by
    cases h <;> simp [setFields, Node.arena, Node.free, live, hreq]
  refine ⟨?_, dvd_zero _, by rw [hext, h.free_of_full hm], ?_⟩
  · cases h with
    | vacant => exact .taken hlo hhi
    | barred => exact .taken hlo hhi
    | taken _ _ => exact .taken hlo hhi
    | parted hl hr =>
        obtain ⟨hlm, hrm⟩ :=
          (two_pow_succ_le_merge hl.maxAvailable_le hr.maxAvailable_le).mp hm.ge
        exact .covered hl hr (hl.maxAvailable_le.antisymm hlm) (hr.maxAvailable_le.antisymm hrm)
          (Or.inr ⟨hlo, hhi⟩)
    | covered hl hr hlm hrm _ => exact .covered hl hr hlm hrm (Or.inr ⟨hlo, hhi⟩)
    | grain _ => exact .grain (Or.inr ⟨rfl, hhi⟩)
  · rw [harena, arena_of_full h hm]
    simp [Arena.take, hext]

/-- The allocation was made in the left half. -/
lemma allocated_left {ptr : ℕ} {l' : Node} (ho : Opened n node l r)
    (h : Allocated n req l ptr l') :
    Allocated (n + 1) req node ptr (split (merge n l'.maxAvailable r.maxAvailable) 0 l' r) := by
  have hfit : (ptr, req).1 + 2 ^ blockOrder (ptr, req).2 ≤ 2 ^ n :=
    (h.inv.live_bound (b := (ptr, req)) (by
      have hlive : l'.live n = insert (ptr, req) (l.live n) := congrArg Arena.live h.arena
      rw [hlive]; exact Set.mem_insert _ _)).1
  refine ⟨.parted h.inv ho.right, h.aligned, ?_, ?_⟩
  · have hfree : node.free (n + 1) = glue n (l.free n) (r.free n) := congrArg Arena.free ho.arena
    rw [hfree]
    exact (Dyadic.block_subset_glue hfit).mpr h.free
  · rw [arena_parted h.inv ho.right, h.arena, Arena.take_glue_left hfit, ho.arena]

/-- The allocation was made in the right half. -/
lemma allocated_right {ptr : ℕ} {r' : Node} (ho : Opened n node l r) (hreq : req ≤ 2 ^ n)
    (h : Allocated n req r ptr r') :
    Allocated (n + 1) req node (ptr + 2 ^ n)
      (split (merge n l.maxAvailable r'.maxAvailable) 0 l r') := by
  have hdvd : 2 ^ blockOrder req ∣ 2 ^ n := pow_dvd_pow 2 (Dyadic.blockOrder_le_iff.mpr hreq)
  refine ⟨.parted ho.left h.inv, (Nat.dvd_add_left hdvd).mpr h.aligned, ?_, ?_⟩
  · have hfree : node.free (n + 1) = glue n (l.free n) (r.free n) := congrArg Arena.free ho.arena
    rw [hfree]
    exact Dyadic.block_add_subset_glue.mpr h.free
  · rw [arena_parted ho.left h.inv, h.arena, Arena.take_glue_right, ho.arena]

/-- A failing `alloc` changes nothing. -/
lemma alloc_of_lt (h : node.maxAvailable < req) :
    node.alloc req n = .ok (.error .mk, node) := by
  unfold alloc
  simp [h, pure, Except.pure]

/-- **`Node::alloc` succeeds whenever the summary says so**, and none of its assertions fires. -/
theorem alloc_spec (hreq : 0 < req) : ∀ (n : ℕ) (node : Node), Inv n node →
    req ≤ node.maxAvailable →
    ∃ ptr node', node.alloc req n = .ok (.ok ptr, node') ∧ Allocated n req node ptr node' := by
  intro n
  induction n with
  | zero =>
      intro node h hle
      have hm : node.maxAvailable = 2 ^ 0 := by
        have := h.maxAvailable_le; simp at this ⊢; omega
      refine ⟨0, node.setFields 0 req, ?_, allocated_whole h hm (by simpa using hreq) (hm ▸ hle)⟩
      have h1 : ¬ req > 1 := by simp [hm] at hle; omega
      simp [alloc, hm, hreq, h1, pure, Except.pure]
  | succ n ih =>
      intro node h hle
      have hnot : ¬ req > node.maxAvailable := by omega
      unfold alloc
      simp only [hnot, if_false]
      by_cases hbig : req > 2 ^ (n + 1) / 2
      · -- the summary is a power of two that exceeds half of the node size
        have hm : node.maxAvailable = 2 ^ (n + 1) := by
          rcases h.maxAvailable_cases with h0 | ⟨k, hk, he⟩
          · omega
          · rw [two_pow_succ_div] at hbig
            have hlt : 2 ^ n < 2 ^ k := by omega
            have hnk : n < k := (Nat.pow_lt_pow_iff_right (by norm_num)).mp hlt
            rw [he, show k = n + 1 by omega]
        refine ⟨0, node.setFields 0 req, ?_, allocated_whole h hm hbig (hm ▸ hle)⟩
        simp only [hbig, if_true, hm, ensure_pos, Checked.ok_bind]
        rfl
      · have hhalf : req ≤ 2 ^ n := by rw [two_pow_succ_div] at hbig; omega
        have ho := opened_getChildren h (by omega)
        generalize node.getChildren (2 ^ (n + 1)) = children at ho ⊢
        obtain ⟨l, r⟩ := children
        change Opened n node l r at ho
        have hlr : req ≤ l.maxAvailable ∨ req ≤ r.maxAvailable := by
          have hmerge := ho.maxAvailable ▸ hle
          unfold merge at hmerge
          split at hmerge
          · next hfull => left; omega
          · exact le_max_iff.mp hmerge
        simp only [hbig, if_false]
        split
        · next hleft =>
          have hl : req ≤ l.maxAvailable := by
            rcases hleft with ⟨hl, -⟩ | hr
            · exact hl
            · exact hlr.resolve_right (by omega)
          obtain ⟨ptr, l', halloc, hspec⟩ := ih l ho.left hl
          refine ⟨ptr, _, ?_, allocated_left ho hspec⟩
          simp only [ge_iff_le, hl, ensure_pos, halloc, Checked.ok_bind, setChildren_update ho]
          rfl
        · next hright =>
          have hr : req ≤ r.maxAvailable := by
            rcases hlr with hl | hr
            · omega
            · exact hr
          obtain ⟨ptr, r', halloc, hspec⟩ := ih r ho.right hr
          refine ⟨ptr + 2 ^ n, _, ?_, allocated_right ho hhalf hspec⟩
          simp only [ge_iff_le, hr, ensure_pos, halloc, Checked.ok_bind, setChildren_update ho]
          rfl

/-! ## `Node::dealloc` -/

lemma arena_taken {m a : ℕ} (ha : a ≠ 0) (hm : m = 0) :
    (bare m a).arena n = ⟨∅, {(0, a)}⟩ ∧
      ∀ l r : Node, (split m a l r).arena (n + 1) = ⟨∅, {(0, a)}⟩ := by
  subst hm
  simp [arena, free, live, ha]

/-- Giving the whole node back. -/
lemma give_whole {a : ℕ} (hlo : 2 ^ n / 2 < a) (hhi : a ≤ 2 ^ n) :
    (⟨Set.Iio (2 ^ n), ∅⟩ : Arena) = Arena.give ⟨∅, {(0, a)}⟩ (0, a) := by
  have hext : extent (0, a) = Set.Iio (2 ^ n) := by
    ext x; simp [Dyadic.blockOrder_eq hlo hhi]
  simp [Arena.give, hext]

/-- **`Node::dealloc` of a recorded allocation gives its block back**, and none of its assertions
fires. -/
theorem dealloc_spec (h : Inv n node) : ∀ {ptr : ℕ}, (ptr, req) ∈ node.live n →
    ∃ node', node.dealloc req n ptr = .ok node' ∧ Inv n node' ∧
      node'.arena n = (node.arena n).give (ptr, req) := by
  induction h with
  | vacant n => intro ptr hlive; simp [live] at hlive
  | barred n => intro ptr hlive; simp [live] at hlive
  | @taken n a hlo hhi =>
      intro ptr hlive
      have ha : a ≠ 0 := by omega
      simp only [live, ha, if_false, Set.mem_singleton_iff, Prod.mk.injEq] at hlive
      obtain ⟨rfl, rfl⟩ := hlive
      refine ⟨bare (2 ^ n) 0, ?_, .vacant n, ?_⟩
      · unfold dealloc
        simp [hlo, setFields, pure, Except.pure]
      · rw [arena_vacant, (arena_taken ha rfl).1, give_whole hlo hhi]
  | @covered n a l r hl hr hlm hrm ha =>
      intro ptr hlive
      rcases ha with rfl | ⟨hlo, hhi⟩
      · rw [Inv.live_covered hl hr hlm hrm] at hlive
        exact absurd hlive (Set.notMem_empty _)
      · have ha : a ≠ 0 := by omega
        simp only [live, ha, if_false, Set.mem_singleton_iff, Prod.mk.injEq] at hlive
        obtain ⟨rfl, rfl⟩ := hlive
        have hmerge : 2 ^ (n + 1) = merge n l.maxAvailable r.maxAvailable := by simp [merge, hlm, hrm]
        have hInv : Inv (n + 1) (split (2 ^ (n + 1)) 0 l r) := hmerge ▸ .parted hl hr
        refine ⟨split (2 ^ (n + 1)) 0 l r, ?_, hInv, ?_⟩
        · unfold dealloc
          simp only [hlo, and_self, if_true, maxAvailable_split, allocated_split, ensure_pos,
            Checked.ok_bind]
          rfl
        · rw [arena_of_full hInv rfl, (arena_taken ha rfl).2, give_whole hlo hhi]
  | @grain m a h =>
      intro ptr hlive
      by_cases ha : a = 0
      · simp [live, ha] at hlive
      · obtain ⟨rfl, rfl⟩ : m = 0 ∧ a = 1 := by omega
        simp only [live, one_ne_zero, if_false, Set.mem_singleton_iff, Prod.mk.injEq] at hlive
        obtain ⟨rfl, rfl⟩ := hlive
        refine ⟨split 1 0 (bare 0 0) (bare 0 0), rfl, .grain (Or.inl ⟨rfl, rfl⟩), ?_⟩
        have hwhole := give_whole (n := 0) (a := 1) (by decide) (by decide)
        simpa [Node.arena, free, live] using hwhole
  | @parted n l r hl hr ihl ihr =>
      intro ptr hlive
      simp only [live, if_true] at hlive
      have hreq : req ≤ 2 ^ n := by
        rcases hlive with ⟨-, hb⟩ | ⟨-, hb⟩
        · exact Dyadic.blockOrder_le_iff.mp (hl.live_bound hb).2
        · exact Dyadic.blockOrder_le_iff.mp (hr.live_bound hb).2
      have hsmall : ¬ (ptr = 0 ∧ req > 2 ^ (n + 1) / 2) := by rw [two_pow_succ_div]; omega
      unfold dealloc
      simp only [hsmall, if_false]
      rcases hlive with ⟨hlt, hb⟩ | ⟨hge, hb⟩
      · obtain ⟨l', hd, hInv, harena⟩ := ihl hb
        refine ⟨_, ?_, .parted hInv hr, ?_⟩
        · simp only at hlt
          simp only [hlt, if_true, hd, Checked.ok_bind, update_split]
          rfl
        · rw [arena_parted hInv hr, arena_parted hl hr, harena,
            Arena.give_glue_left (hl.live_bound hb).1]
      · obtain ⟨r', hd, hInv, harena⟩ := ihr hb
        simp only at hge hd harena
        refine ⟨_, ?_, .parted hl hInv, ?_⟩
        · simp only [not_lt.mpr hge, if_false, hd, Checked.ok_bind, update_split]
          rfl
        · rw [arena_parted hl hInv, arena_parted hl hr, harena, Arena.give_glue_right]
          simp only [Nat.sub_add_cancel hge]

/-! ## `Node::reserve_range` -/

/-- A node that is free is withdrawn as a whole, with its children as they are. -/
lemma Inv.setFields_zero (h : Inv n node) (hm : node.maxAvailable = 2 ^ n) :
    Inv n (node.setFields 0 node.allocated) := by
  cases h with
  | vacant => exact .barred n
  | barred => exact .barred n
  | taken hlo hhi => exact .taken hlo hhi
  | parted hl hr =>
      obtain ⟨hlm, hrm⟩ :=
        (two_pow_succ_le_merge hl.maxAvailable_le hr.maxAvailable_le).mp hm.ge
      exact .covered hl hr (hl.maxAvailable_le.antisymm hlm) (hr.maxAvailable_le.antisymm hrm)
        (Or.inl rfl)
  | covered hl hr hlm hrm ha => exact .covered hl hr hlm hrm ha
  | grain h =>
      refine .grain (Or.inr ⟨rfl, ?_⟩)
      rcases h with ⟨-, rfl⟩ | ⟨-, h⟩
      · exact Nat.zero_le 1
      · exact h

lemma Inv.live_setFields (h : Inv n node) :
    (node.setFields 0 node.allocated).live n = node.live n := by
  cases h <;> simp [setFields, live]

/-- Reserving the whole node. -/
lemma reserve_whole (h : Inv n node) (hfree : Set.Ico 0 (2 ^ n) ⊆ node.free n) :
    ∃ node', node.reserveRange n 0 (2 ^ n) = .ok node' ∧ Inv n node' ∧
      node'.arena n = (node.arena n).remove (Set.Ico 0 (2 ^ n)) := by
  have hIco : Set.Ico 0 (2 ^ n) = Set.Iio (2 ^ n) := by ext a; simp
  have hm : node.maxAvailable = 2 ^ n := h.full_of_free (hIco ▸ hfree)
  refine ⟨node.setFields 0 node.allocated, ?_, h.setFields_zero hm, ?_⟩
  · unfold reserveRange
    simp only [and_self, if_true, hm, ensure_pos, Checked.ok_bind]
    rfl
  · have hfree' : (node.setFields 0 node.allocated).free n = ∅ := by
      cases h <;> simp [setFields, free]
    simp only [arena, Arena.remove, h.live_setFields, hfree', h.free_of_full hm, hIco,
      Set.sdiff_self]

/-- **`Node::reserve_range` of a free range withdraws exactly that range.** -/
theorem reserveRange_spec : ∀ (n start stop : ℕ) (node : Node), Inv n node → start < stop →
    stop ≤ 2 ^ n → Set.Ico start stop ⊆ node.free n →
    ∃ node', node.reserveRange n start stop = .ok node' ∧ Inv n node' ∧
      node'.arena n = (node.arena n).remove (Set.Ico start stop) := by
  intro n
  induction n with
  | zero =>
      intro start stop node h hlt hle hfree
      obtain ⟨rfl, rfl⟩ : start = 0 ∧ stop = 2 ^ 0 := by simp at hle ⊢; omega
      exact reserve_whole h hfree
  | succ n ih =>
      intro start stop node h hlt hle hfree
      by_cases hwhole : start = 0 ∧ stop = 2 ^ (n + 1)
      · obtain ⟨rfl, rfl⟩ := hwhole
        exact reserve_whole h hfree
      have ho := opened_getChildren h
        (h.maxAvailable_ne_zero (hfree (Set.mem_Ico.mpr ⟨le_rfl, hlt⟩)))
      unfold reserveRange
      simp only [hwhole, if_false]
      generalize node.getChildren (2 ^ (n + 1)) = children at ho ⊢
      obtain ⟨l, r⟩ := children
      change Opened n node l r at ho
      have hglue : node.free (n + 1) = glue n (l.free n) (r.free n) := congrArg Arena.free ho.arena
      rw [hglue] at hfree
      -- each half loses the part of the range that reaches into it, possibly nothing
      have hleft : ∃ l', (if start < 2 ^ n then reserveRange n start (min stop (2 ^ n)) l
            else pure l) = .ok l' ∧ Inv n l' ∧
          l'.arena n = (l.arena n).remove (Set.Ico start (min stop (2 ^ n))) := by
        split
        · next hs =>
          refine ih _ _ l ho.left (by omega) (min_le_right _ _) fun a ha => ?_
          simp only [Set.mem_Ico] at ha
          exact (Dyadic.mem_glue_of_lt (by omega)).mp (hfree (by simp only [Set.mem_Ico]; omega))
        · next hs => exact ⟨l, rfl, ho.left, (Arena.remove_of_empty (Set.Ico_eq_empty (by omega))).symm⟩
      have hright : ∃ r', (if stop > 2 ^ n then
            reserveRange n (max start (2 ^ n) - 2 ^ n) (stop - 2 ^ n) r else pure r) = .ok r' ∧
          Inv n r' ∧ r'.arena n
            = (r.arena n).remove (Set.Ico (max start (2 ^ n) - 2 ^ n) (stop - 2 ^ n)) := by
        split
        · next hs =>
          rw [pow_succ] at hle
          refine ih _ _ r ho.right (by omega) (by omega) fun a ha => ?_
          simp only [Set.mem_Ico] at ha
          exact Dyadic.mem_glue_add.mp (hfree (by simp only [Set.mem_Ico]; omega))
        · next hs => exact ⟨r, rfl, ho.right, (Arena.remove_of_empty (Set.Ico_eq_empty (by omega))).symm⟩
      obtain ⟨l', hl', hlInv, hlArena⟩ := hleft
      obtain ⟨r', hr', hrInv, hrArena⟩ := hright
      refine ⟨_, ?_, .parted hlInv hrInv, ?_⟩
      · simp only [hl', hr', Checked.ok_bind, setChildren_update ho]
        rfl
      · rw [arena_parted hlInv hrInv, hlArena, hrArena, Arena.remove_glue, ho.arena]

end Node

end Deravel
