import DeravelOs.Heap.BuddyOps
import Mathlib.Data.List.Pairwise

/-!
# Runs of the buddy allocator

`BuddyAllocator` moves the tree from offsets to addresses.  `BuddyAllocator.Inv` is the invariant
of an allocator relative to the offsets it manages; each operation has one lemma that says when it
succeeds and what it does to the arena of the allocator.

`BuddyRun range reserved` is the system: an allocator for `range`, the reservations made before the
first allocation, and then any `alloc` and matching `dealloc` calls, together with the list of live
allocations as their caller knows them.  `BuddyRun.inv` carries the invariant through every run.
-/

namespace Deravel

open Dyadic (HasBlock blockOrder extent Arena)

lemma Layout.reqSize_pos (l : Layout) : 0 < l.reqSize :=
  lt_of_lt_of_le l.align_pos (le_max_right _ _)

/-- The summary decides whether a request can be met. -/
lemma Node.Inv.hasBlock_iff_le {n req : ℕ} {node : Node} (h : Node.Inv n node) (hreq : 0 < req) :
    HasBlock (blockOrder req) (node.free n) ↔ req ≤ node.maxAvailable := by
  constructor
  · intro hb
    have hk : blockOrder req ≤ n := Dyadic.hasBlock_Iio.mp (hb.mono h.free_subset)
    exact (Dyadic.le_two_pow_blockOrder req).trans ((h.hasBlock_iff _ hk).mp hb)
  · intro hle
    rcases h.maxAvailable_cases with h0 | ⟨k, hk, he⟩
    · omega
    · have hord : blockOrder req ≤ k := Dyadic.blockOrder_le_iff.mpr (he ▸ hle)
      refine (h.hasBlock_iff _ (hord.trans hk)).mpr ?_
      rw [he]
      exact Nat.pow_le_pow_right (by norm_num) hord

namespace BuddyAllocator

/-- The meaning of an allocator, in offsets from the start of its range. -/
def arena (a : BuddyAllocator) : Arena := a.root.arena a.rootOrder

/-- The invariant of an allocator that manages the offsets in `U`. -/
structure Inv (U : Set ℕ) (a : BuddyAllocator) : Prop where
  node : a.root.Inv a.rootOrder
  wf : a.arena.WF U
  inside : U ⊆ Set.Iio (a.range.stop - a.range.start)
  start_le : a.range.start ≤ a.range.stop
  stop_lt : a.range.stop < usizeRange

variable {U : Set ℕ} {a : BuddyAllocator}

/-- `BuddyAllocator::new` manages every offset of its range. -/
theorem new_spec {range : AddressRange} (hle : range.start ≤ range.stop)
    (hstop : range.stop < usizeRange) (hlen : range.stop - range.start ≤ 2 ^ 63) :
    ∃ a, new range = .ok a ∧ a.range = range ∧ a.arena.live = ∅ ∧
      Inv (Set.Iio (range.stop - range.start)) a := by
  obtain ⟨node, hnode, hinv, harena⟩ := Node.new_spec (Nat.clog 2 (range.stop - range.start))
    (range.stop - range.start) (Nat.le_pow_clog (by norm_num) _)
  have hlive : (node.arena (Nat.clog 2 (range.stop - range.start))).live = ∅ := by rw [harena]
  have hwf : (node.arena (Nat.clog 2 (range.stop - range.start))).WF
      (Set.Iio (range.stop - range.start)) := by
    rw [harena]
    exact Arena.WF.start _
  refine ⟨⟨node, Nat.clog 2 (range.stop - range.start), range⟩, ?_, rfl, hlive,
    hinv, hwf, subset_rfl, hle, hstop⟩
  simp only [new, usizeSub_of_le hle, Checked.ok_bind, ensure_pos hlen, hnode]
  rfl

/-- `BuddyAllocator::new` returns only for ranges it can manage. -/
lemma new_eq_ok {range : AddressRange} (h : new range = .ok a) :
    range.start ≤ range.stop ∧ range.stop - range.start ≤ 2 ^ 63 := by
  simp only [new, Checked.bind_eq_ok] at h
  obtain ⟨size, hsize, u, hu, -⟩ := h
  unfold usizeSub at hsize
  split at hsize
  · next hle =>
    cases hsize
    exact ⟨hle, ensure_eq_ok hu⟩
  · cases hsize

/-- A successful `alloc` at offset `p`. -/
structure Took (U : Set ℕ) (a : BuddyAllocator) (layout : Layout) (p : ℕ) (a' : BuddyAllocator) :
    Prop where
  inv : Inv U a'
  range : a'.range = a.range
  aligned : 2 ^ blockOrder layout.reqSize ∣ p
  free : extent (p, layout.reqSize) ⊆ a.arena.free
  arena : a'.arena = a.arena.take (p, layout.reqSize)

/-- A request without a free block fails and changes nothing. -/
theorem alloc_none (h : Inv U a) {layout : Layout}
    (hno : ¬ HasBlock (blockOrder layout.reqSize) a.arena.free) :
    a.alloc layout = .ok (.error .mk, a) := by
  have hlt : a.root.maxAvailable < layout.reqSize :=
    not_le.mp fun hle => hno ((h.node.hasBlock_iff_le layout.reqSize_pos).mpr hle)
  simp only [alloc, Node.alloc_of_lt hlt, Checked.ok_bind]
  rfl

/-- **`BuddyAllocator::alloc` succeeds whenever there is a free block**, and none of its assertions
fires. -/
theorem alloc_some (h : Inv U a) {layout : Layout}
    (hsome : HasBlock (blockOrder layout.reqSize) a.arena.free) :
    ∃ p a', a.alloc layout = .ok (.ok (a.range.start + p), a') ∧ Took U a layout p a' := by
  have hle := (h.node.hasBlock_iff_le layout.reqSize_pos).mp hsome
  obtain ⟨p, root, halloc, hspec⟩ := Node.alloc_spec layout.reqSize_pos _ _ h.node hle
  have hwf : (root.arena a.rootOrder).WF U := by
    rw [hspec.arena]
    exact h.wf.take hspec.aligned hspec.free
  refine ⟨p, { a with root := root }, ?_,
    ⟨hspec.inv, hwf, h.inside, h.start_le, h.stop_lt⟩, rfl, hspec.aligned, hspec.free, hspec.arena⟩
  -- the last number of the request is an offset of the range
  have hlast : p + (layout.reqSize - 1) ∈ U := by
    refine ((h.wf.mem_free _).mp (hspec.free ?_)).1
    have h1 := Dyadic.le_two_pow_blockOrder layout.reqSize
    have h2 := layout.reqSize_pos
    simp only [Dyadic.mem_extent]
    omega
  have hfit := h.inside hlast
  simp only [Set.mem_Iio] at hfit
  have hpos := layout.reqSize_pos
  have hstart := h.start_le
  have hstop := h.stop_lt
  have h1 : a.range.start + p < usizeRange := by omega
  have h2 : a.range.start + p + layout.reqSize < usizeRange := by omega
  have h3 : a.range.start + p ≥ a.range.start := by omega
  have h4 : a.range.start + p + layout.reqSize ≤ a.range.stop := by omega
  simp only [alloc, halloc, Checked.ok_bind, usizeAdd_of_lt h1, usizeAdd_of_lt h2, ensure_pos h3,
    ensure_pos h4]
  rfl

/-- `alloc` either finds a block or fails without effect. -/
lemma alloc_eq_ok (h : Inv U a) {layout : Layout} {result : Except AllocError ℕ}
    {a' : BuddyAllocator} (halloc : a.alloc layout = .ok (result, a')) :
    (result = .error .mk ∧ a' = a ∧ ¬ HasBlock (blockOrder layout.reqSize) a.arena.free) ∨
    (∃ p, result = .ok (a.range.start + p) ∧ Took U a layout p a' ∧
      HasBlock (blockOrder layout.reqSize) a.arena.free) := by
  by_cases hb : HasBlock (blockOrder layout.reqSize) a.arena.free
  · obtain ⟨p, a'', h1, h2⟩ := alloc_some h hb
    rw [h1] at halloc
    cases halloc
    exact Or.inr ⟨p, rfl, h2, hb⟩
  · rw [alloc_none h hb] at halloc
    cases halloc
    exact Or.inl ⟨rfl, rfl, hb⟩

/-- **`BuddyAllocator::dealloc` of a live block gives it back**, and none of its assertions
fires. -/
theorem dealloc_spec (h : Inv U a) {layout : Layout} {p : ℕ}
    (hlive : (p, layout.reqSize) ∈ a.arena.live) :
    ∃ a', a.dealloc (a.range.start + p) layout = .ok a' ∧ Inv U a' ∧ a'.range = a.range ∧
      a'.arena = a.arena.give (p, layout.reqSize) := by
  obtain ⟨root, hd, hinv, harena⟩ := Node.dealloc_spec h.node hlive
  refine ⟨{ a with root := root }, ?_, ⟨hinv, ?_, h.inside, h.start_le, h.stop_lt⟩, rfl, harena⟩
  · have hsub : a.range.start + p - a.range.start = p := by omega
    simp only [dealloc, usizeSub_of_le (Nat.le_add_right _ _), hsub, Checked.ok_bind, hd]
    rfl
  · have hwf : (root.arena a.rootOrder).WF U := harena ▸ h.wf.give hlive
    exact hwf

/-- The offsets of a range of addresses. -/
lemma offsets_eq {r : AddressRange} (hstart : a.range.start ≤ r.start) :
    {x | a.range.start + x ∈ r.addresses} =
      Set.Ico (r.start - a.range.start) (r.stop - a.range.start) := by
  ext x
  simp only [Set.mem_ofPred_eq, AddressRange.mem_addresses, Set.mem_Ico]
  omega

/-- The offsets of a range that is free are inside of the root. -/
lemma Inv.offsets_subset (h : Inv U a) {r : AddressRange} (hstart : a.range.start ≤ r.start)
    (hlt : r.start < r.stop) (hfree : ∀ x, a.range.start + x ∈ r.addresses → x ∈ a.arena.free) :
    Set.Ico (r.start - a.range.start) (r.stop - a.range.start) ⊆ a.arena.free ∧
      r.stop - a.range.start ≤ 2 ^ a.rootOrder := by
  have hsub : Set.Ico (r.start - a.range.start) (r.stop - a.range.start) ⊆ a.arena.free :=
    offsets_eq hstart ▸ hfree
  refine ⟨hsub, ?_⟩
  have hmem : r.stop - a.range.start - 1 ∈ a.arena.free :=
    hsub (by simp only [Set.mem_Ico]; omega)
  have hlast := h.node.free_subset hmem
  simp only [Set.mem_Iio] at hlast
  omega

/-- **`BuddyAllocator::reserve_range` of a free range withdraws exactly that range.** -/
theorem reserveRange_spec (h : Inv U a) {r : AddressRange} (hstart : a.range.start ≤ r.start)
    (hlt : r.start < r.stop) (hstop : r.stop ≤ a.range.stop)
    (hfree : ∀ x, a.range.start + x ∈ r.addresses → x ∈ a.arena.free) :
    ∃ a', a.reserveRange r = .ok a' ∧ a'.range = a.range ∧ a'.arena.live = a.arena.live ∧
      Inv (U \ {x | a.range.start + x ∈ r.addresses}) a' := by
  obtain ⟨hsub, hbound⟩ := h.offsets_subset hstart hlt hfree
  obtain ⟨root, hres, hinv, harena⟩ :=
    Node.reserveRange_spec _ _ _ _ h.node (by omega) hbound hsub
  have hlive : (root.arena a.rootOrder).live = a.arena.live := by rw [harena]; rfl
  refine ⟨{ a with root := root }, ?_, rfl, hlive,
    ⟨hinv, ?_, Set.sdiff_subset.trans h.inside, h.start_le, h.stop_lt⟩⟩
  · have hstart' : r.start ≥ a.range.start := hstart
    simp only [reserveRange, ensure_pos hstart', ensure_pos hstop, usizeSub_of_le hstart,
      usizeSub_of_le (hstart.trans hlt.le), Checked.ok_bind, hres]
    rfl
  · have hwf : (root.arena a.rootOrder).WF _ := harena ▸ h.wf.remove hsub
    rw [offsets_eq hstart]
    exact hwf

/-- `new` followed by the reservations. -/
def boot (range : AddressRange) (reserved : List AddressRange) : Checked BuddyAllocator := do
  let a ← new range
  reserved.foldlM reserveRange a

end BuddyAllocator

/-- Reservations that make sense: non-empty, inside the range, pairwise disjoint. -/
structure Reservations (range : AddressRange) (reserved : List AddressRange) : Prop where
  inside : ∀ r ∈ reserved, range.start ≤ r.start ∧ r.stop ≤ range.stop
  nonempty : ∀ r ∈ reserved, r.start < r.stop
  disjoint : reserved.Pairwise fun r s => Disjoint r.addresses s.addresses

/-- The offsets of `range` that are not reserved. -/
def usable (range : AddressRange) (reserved : List AddressRange) : Set ℕ :=
  {x | range.start + x < range.stop ∧ ∀ r ∈ reserved, range.start + x ∉ r.addresses}

/-- A live allocation, as its caller knows it. -/
structure Live where
  ptr : ℕ
  layout : Layout

/-- The addresses that were requested. -/
def Live.addresses (l : Live) : Set ℕ := Set.Ico l.ptr (l.ptr + l.layout.reqSize)

/-- The smallest power of two that holds the request. -/
def Layout.blockSize (l : Layout) : ℕ := 2 ^ blockOrder l.reqSize

/-- The whole block of a live allocation. -/
def Live.block (l : Live) : Set ℕ := Set.Ico l.ptr (l.ptr + l.layout.blockSize)

/-- Runs: an allocator that was booted, and `alloc` and matching `dealloc` calls on it, with the
allocations that are live afterwards. -/
inductive BuddyRun (range : AddressRange) (reserved : List AddressRange) :
    BuddyAllocator → List Live → Prop
  | boot {a : BuddyAllocator} (h : BuddyAllocator.boot range reserved = .ok a) :
      BuddyRun range reserved a []
  | alloc {a a' : BuddyAllocator} {live : List Live} {layout : Layout} {ptr : ℕ}
      (run : BuddyRun range reserved a live) (h : a.alloc layout = .ok (.ok ptr, a')) :
      BuddyRun range reserved a' (⟨ptr, layout⟩ :: live)
  | allocErr {a a' : BuddyAllocator} {live : List Live} {layout : Layout}
      (run : BuddyRun range reserved a live) (h : a.alloc layout = .ok (.error .mk, a')) :
      BuddyRun range reserved a' live
  | dealloc {a a' : BuddyAllocator} {before after : List Live} {l : Live}
      (run : BuddyRun range reserved a (before ++ l :: after))
      (h : a.dealloc l.ptr l.layout = .ok a') :
      BuddyRun range reserved a' (before ++ after)

/-! ## The invariant of a run -/

namespace BuddyAllocator

variable {range : AddressRange}

/-- Reserving a list of ranges that are still free. -/
theorem reserveAll_spec : ∀ (rs : List AddressRange) {U : Set ℕ} {a : BuddyAllocator},
    Inv U a → a.range = range → a.arena.live = ∅ → Reservations range rs →
    (∀ r ∈ rs, ∀ x, range.start + x ∈ r.addresses → x ∈ U) →
    ∃ a', rs.foldlM reserveRange a = .ok a' ∧ a'.range = range ∧ a'.arena.live = ∅ ∧
      Inv {x | x ∈ U ∧ ∀ r ∈ rs, range.start + x ∉ r.addresses} a' := by
  intro rs
  induction rs with
  | nil =>
      intro U a h hrange hlive _ _
      refine ⟨a, rfl, hrange, hlive, ?_⟩
      simpa using h
  | cons r rs ih =>
      intro U a h hrange hlive hres hU
      obtain ⟨hstart, hstop⟩ := hres.inside r List.mem_cons_self
      have hdis := List.pairwise_cons.mp hres.disjoint
      have hfree : a.arena.free = U := h.wf.free_eq hlive
      obtain ⟨a₁, h₁, hrange₁, hlive₁, hinv₁⟩ := reserveRange_spec h (r := r) (hrange ▸ hstart)
        (hres.nonempty r List.mem_cons_self) (hrange ▸ hstop)
        (fun x hx => hfree ▸ hU r List.mem_cons_self x (hrange ▸ hx))
      rw [hrange] at hrange₁ hinv₁
      obtain ⟨a₂, h₂, hrange₂, hlive₂, hinv₂⟩ := ih hinv₁ hrange₁ (hlive₁.trans hlive)
        ⟨fun s hs => hres.inside s (List.mem_cons_of_mem _ hs),
          fun s hs => hres.nonempty s (List.mem_cons_of_mem _ hs), hdis.2⟩
        (fun s hs x hx => ⟨hU s (List.mem_cons_of_mem _ hs) x hx,
          fun hxr => Set.disjoint_left.mp (hdis.1 s hs) hxr hx⟩)
      refine ⟨a₂, ?_, hrange₂, hlive₂, ?_⟩
      · rw [List.foldlM_cons, h₁, Checked.ok_bind, h₂]
      · convert hinv₂ using 1
        ext x
        simp only [Set.mem_ofPred_eq, List.mem_cons, forall_eq_or_imp, Set.mem_sdiff]
        tauto

/-- Booting an allocator with sensible reservations succeeds; it manages the usable offsets. -/
theorem boot_spec (hle : range.start ≤ range.stop) (hstop : range.stop < usizeRange)
    (hlen : range.stop - range.start ≤ 2 ^ 63) {reserved : List AddressRange}
    (hres : Reservations range reserved) :
    ∃ a, boot range reserved = .ok a ∧ a.range = range ∧ a.arena.live = ∅ ∧
      Inv (usable range reserved) a := by
  obtain ⟨a, hnew, hrange, hlive, hinv⟩ := new_spec hle hstop hlen
  obtain ⟨a', hfold, hrange', hlive', hinv'⟩ := reserveAll_spec reserved hinv hrange hlive hres
    (fun r hr x hx => by
      have := (hres.inside r hr).2
      simp only [AddressRange.mem_addresses] at hx
      simp only [Set.mem_Iio]
      omega)
  refine ⟨a', by rw [boot, hnew, Checked.ok_bind, hfold], hrange', hlive', ?_⟩
  convert hinv' using 1
  ext x
  simp only [usable, Set.mem_ofPred_eq, Set.mem_Iio]
  exact and_congr_left fun _ => by omega

end BuddyAllocator

variable {range : AddressRange} {reserved : List AddressRange} {a a' : BuddyAllocator}
  {live : List Live}

/-- What holds of the allocator and of the caller's list after any run. -/
structure RunInv (range : AddressRange) (reserved : List AddressRange) (a : BuddyAllocator)
    (live : List Live) : Prop where
  range_eq : a.range = range
  inv : a.Inv (usable range reserved)
  recorded : ∀ l ∈ live, ∃ p, l.ptr = range.start + p ∧ (p, l.layout.reqSize) ∈ a.arena.live
  known : ∀ b ∈ a.arena.live, ∃ l ∈ live, l.ptr = range.start + b.1 ∧ l.layout.reqSize = b.2
  distinct : live.Pairwise fun l m => l.ptr ≠ m.ptr

lemma RunInv.boot (hrange : a.range = range) (hlive : a.arena.live = ∅)
    (h : a.Inv (usable range reserved)) : RunInv range reserved a [] where
  range_eq := hrange
  inv := h
  recorded := by simp
  known := by simp [hlive]
  distinct := List.Pairwise.nil

/-- A new allocation joins the list; its pointer is new because its block was free. -/
lemma RunInv.alloc (h : RunInv range reserved a live) {layout : Layout} {p : ℕ}
    (ht : BuddyAllocator.Took (usable range reserved) a layout p a') :
    RunInv range reserved a' (⟨range.start + p, layout⟩ :: live) := by
  have hlive : a'.arena.live = insert (p, layout.reqSize) a.arena.live := congrArg _ ht.arena
  refine ⟨ht.range.trans h.range_eq, ht.inv, ?_, ?_, ?_⟩
  · rintro l hl
    rw [hlive]
    rcases List.mem_cons.mp hl with rfl | hl
    · exact ⟨p, rfl, Set.mem_insert _ _⟩
    · obtain ⟨q, hq, hmem⟩ := h.recorded l hl
      exact ⟨q, hq, Set.mem_insert_of_mem _ hmem⟩
  · rintro b hb
    rw [hlive] at hb
    rcases Set.mem_insert_iff.mp hb with rfl | hb
    · exact ⟨_, List.mem_cons_self, rfl, rfl⟩
    · obtain ⟨l, hl, hptr⟩ := h.known b hb
      exact ⟨l, List.mem_cons_of_mem _ hl, hptr⟩
  · refine List.pairwise_cons.mpr ⟨fun m hm heq => ?_, h.distinct⟩
    obtain ⟨q, hq, hmem⟩ := h.recorded m hm
    obtain rfl : p = q := by simp only at heq; omega
    exact h.inv.wf.not_free hmem (Dyadic.left_mem_extent _)
      (ht.free (Dyadic.left_mem_extent (p, layout.reqSize)))

/-- A freed allocation leaves the list, and no other one does. -/
lemma RunInv.dealloc {before after : List Live} {l : Live} {p : ℕ}
    (h : RunInv range reserved a (before ++ l :: after)) (hp : l.ptr = range.start + p)
    (hinv : a'.Inv (usable range reserved)) (hrange : a'.range = a.range)
    (harena : a'.arena = a.arena.give (p, l.layout.reqSize)) :
    RunInv range reserved a' (before ++ after) := by
  have hlive : a'.arena.live = a.arena.live \ {(p, l.layout.reqSize)} := congrArg _ harena
  have hsub : ∀ m ∈ before ++ after, m ∈ before ++ l :: after := by
    simp only [List.mem_append, List.mem_cons]
    tauto
  have hne : ∀ m ∈ before ++ after, m.ptr ≠ l.ptr := by
    have hd := List.pairwise_append.mp h.distinct
    intro m hm
    rcases List.mem_append.mp hm with hm | hm
    · exact hd.2.2 m hm l List.mem_cons_self
    · exact ((List.pairwise_cons.mp hd.2.1).1 m hm).symm
  refine ⟨hrange.trans h.range_eq, hinv, ?_, ?_, ?_⟩
  · intro m hm
    obtain ⟨q, hq, hmem⟩ := h.recorded m (hsub m hm)
    refine ⟨q, hq, hlive ▸ ⟨hmem, fun heq => hne m hm ?_⟩⟩
    have hqp : q = p := congrArg Prod.fst (Set.mem_singleton_iff.mp heq)
    rw [hq, hp, hqp]
  · intro b hb
    rw [hlive] at hb
    obtain ⟨m, hm, hptr, hreq⟩ := h.known b hb.1
    refine ⟨m, ?_, hptr, hreq⟩
    simp only [List.mem_append, List.mem_cons] at hm ⊢
    rcases hm with hm | rfl | hm
    · exact Or.inl hm
    · exact absurd (Prod.ext (by omega) hreq.symm) hb.2
    · exact Or.inr hm
  · exact h.distinct.sublist
      (List.Sublist.append (List.Sublist.refl _) (List.sublist_cons_self _ _))

/-- What an allocation returns joins the list. -/
lemma RunInv.alloc_ok (h : RunInv range reserved a live) {layout : Layout} {ptr : ℕ}
    (halloc : a.alloc layout = .ok (.ok ptr, a')) :
    RunInv range reserved a' (⟨ptr, layout⟩ :: live) := by
  rcases BuddyAllocator.alloc_eq_ok h.inv halloc with ⟨herror, -⟩ | ⟨p, hp, htook, -⟩
  · cases herror
  · rw [Except.ok.inj hp, h.range_eq]
    exact h.alloc htook

/-- An allocation that fails leaves the allocator as it is. -/
lemma RunInv.alloc_error (h : RunInv range reserved a live) {layout : Layout} {e : AllocError}
    (halloc : a.alloc layout = .ok (.error e, a')) : a' = a := by
  rcases BuddyAllocator.alloc_eq_ok h.inv halloc with ⟨-, rfl, -⟩ | ⟨p, hp, -⟩
  · rfl
  · cases hp

/-- What is on the list can be freed. -/
lemma RunInv.dealloc_ok {before after : List Live} {l : Live}
    (h : RunInv range reserved a (before ++ l :: after)) :
    ∃ a', a.dealloc l.ptr l.layout = .ok a' ∧ RunInv range reserved a' (before ++ after) := by
  obtain ⟨p, hp, hlive⟩ := h.recorded l (by simp)
  obtain ⟨a', hdealloc, hinv, hrange, harena⟩ := BuddyAllocator.dealloc_spec h.inv hlive
  rw [h.range_eq, ← hp] at hdealloc
  exact ⟨a', hdealloc, h.dealloc hp hinv hrange harena⟩

/-- A run keeps the invariant that it starts with. -/
lemma BuddyRun.inv_of_boot
    (hboot : ∀ a, BuddyAllocator.boot range reserved = .ok a → RunInv range reserved a [])
    (run : BuddyRun range reserved a live) : RunInv range reserved a live := by
  induction run with
  | boot h => exact hboot _ h
  | alloc _ halloc ih => exact ih.alloc_ok halloc
  | allocErr _ halloc ih => exact ih.alloc_error halloc ▸ ih
  | dealloc _ hdealloc ih =>
      obtain ⟨a', hdealloc', hafter⟩ := ih.dealloc_ok
      rw [hdealloc] at hdealloc'
      cases hdealloc'
      exact hafter

/-- **Every run keeps the invariant.** -/
theorem BuddyRun.inv (hstop : range.stop < usizeRange) (hres : Reservations range reserved)
    (run : BuddyRun range reserved a live) : RunInv range reserved a live := by
  refine run.inv_of_boot fun a hboot => ?_
  have hnew : ∃ a₀, BuddyAllocator.new range = .ok a₀ :=
    (Checked.bind_eq_ok.mp hboot).imp fun _ h => h.1
  obtain ⟨hle, hlen⟩ := BuddyAllocator.new_eq_ok hnew.choose_spec
  obtain ⟨a', h, hrange, hlive, hinv⟩ := BuddyAllocator.boot_spec hle hstop hlen hres
  rw [h] at hboot
  cases hboot
  exact .boot hrange hlive hinv

/-- The offsets in the block of a live allocation. -/
lemma RunInv.mem_block (h : RunInv range reserved a live) {l : Live} (hl : l ∈ live) {x : ℕ} :
    ∃ b ∈ a.arena.live, l.ptr = range.start + b.1 ∧ l.layout.reqSize = b.2 ∧
      (range.start + x ∈ l.block ↔ x ∈ extent b) := by
  obtain ⟨p, hp, hmem⟩ := h.recorded l hl
  refine ⟨_, hmem, hp, rfl, ?_⟩
  simp only [Live.block, Layout.blockSize, Set.mem_Ico, Dyadic.mem_extent, hp]
  omega

end Deravel
