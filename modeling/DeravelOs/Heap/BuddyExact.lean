import DeravelOs.Heap.BuddyReserve
import DeravelOs.Heap.BuddySafety
import Mathlib.Data.Set.Card

/-!
# Which reservations are exact

`initialize_heap` reserves the memory of the device tree, of the kernel and whatever the device tree
lists, one `reserve_range` after the other, and these come from unrelated places.  A reserved range
is stored as its largest aligned blocks.

* A call that covers one of the blocks of an earlier reservation does not return.
* A call that reaches into such a block without covering it opens the block, and everything in it
  that is not in the new range is free again.  This is also what an empty range does.
* Any other call withdraws its range and nothing else.

`reserve_exact_iff` says that the second case is the only one in which reservations are lost.
-/

namespace Deravel

open Dyadic

/-- A range inside another one. -/
structure AddressRange.Inside (r range : AddressRange) : Prop where
  start_le : range.start ≤ r.start
  le : r.start ≤ r.stop
  stop_le : r.stop ≤ range.stop

/-- The largest aligned blocks of a range, counted from `base`. -/
def AddressRange.maxBlocks (base : ℕ) (r : AddressRange) : Set (ℕ × ℕ) :=
  {b | MaxBlock (r.start - base) (r.stop - base) b}

/-- What reservations are for: nothing that is allocated later is in one of them, and every other
address of the range can be had. -/
structure ExactlyReserved (range : AddressRange) (reserved : List AddressRange) : Prop where
  spared : ∀ a live, BuddyRun range reserved a live →
    ∀ l ∈ live, ∀ r ∈ reserved, Disjoint l.block r.addresses
  available : ∀ x ∈ range.addresses, (∀ r ∈ reserved, x ∉ r.addresses) →
    ∃ a live, BuddyRun range reserved a live ∧ ∃ l ∈ live, x ∈ l.addresses

/-- After every call that returns, the reservations so far are exact. -/
def ReservesExactly (range : AddressRange) (reserved : List AddressRange) : Prop :=
  ∀ done, done <+: reserved → (∃ a, BuddyAllocator.boot range done = .ok a) →
    ExactlyReserved range done

/-- The call does not return: the range covers a block of an earlier reservation, or it is empty and
starts where the tree ends. -/
def Stops (range : AddressRange) (earlier : List AddressRange) (r : AddressRange) : Prop :=
  (∃ e ∈ earlier, ∃ b ∈ e.maxBlocks range.start,
    Covers (r.start - range.start) (r.stop - range.start) b) ∨
  r.start - range.start = 2 ^ Nat.clog 2 (range.stop - range.start)

/-- The call opens a block of an earlier reservation. -/
def Reopens (range : AddressRange) (earlier : List AddressRange) (r : AddressRange) : Prop :=
  ∃ e ∈ earlier, ∃ b ∈ e.maxBlocks range.start,
    Cuts (r.start - range.start) (r.stop - range.start) b

/-- No call opens a block of an earlier reservation, up to the first one that does not return. -/
def NeverReopens (range : AddressRange) : (earlier reserved : List AddressRange) → Prop
  | _, [] => True
  | earlier, r :: rest =>
      Stops range earlier r ∨
        ¬ Reopens range earlier r ∧ NeverReopens range (earlier ++ [r]) rest

namespace BuddyAllocator

variable {range r : AddressRange} {earlier : List AddressRange} {a : BuddyAllocator}

/-- The blocks that cannot be had: those after the range, and those of the reservations. -/
def withdrawn (range : AddressRange) (earlier : List AddressRange) : Set (ℕ × ℕ) :=
  {b | MaxBlock (range.stop - range.start) (2 ^ Nat.clog 2 (range.stop - range.start)) b ∨
    ∃ e ∈ earlier, b ∈ e.maxBlocks range.start}

/-- An allocator from which nothing was allocated yet. -/
structure Idle (range : AddressRange) (a : BuddyAllocator) : Prop where
  range_eq : a.range = range
  order : a.rootOrder = Nat.clog 2 (range.stop - range.start)
  node : a.root.Inv a.rootOrder
  live : a.root.live a.rootOrder = ∅

/-- An allocator that has kept all its reservations. -/
structure Tracks (range : AddressRange) (earlier : List AddressRange) (a : BuddyAllocator) : Prop
    extends Idle range a where
  barred : a.root.barred a.rootOrder = withdrawn range earlier

lemma size_le (range : AddressRange) :
    range.stop - range.start ≤ 2 ^ Nat.clog 2 (range.stop - range.start) :=
  Nat.le_pow_clog (by norm_num) _

/-- The numbers of the withdrawn blocks. -/
lemma mem_numbers_withdrawn (hin : ∀ e ∈ earlier, e.Inside range) {x : ℕ}
    (hx : x < 2 ^ Nat.clog 2 (range.stop - range.start)) :
    x ∈ numbers (withdrawn range earlier) ↔ x ∉ usable range earlier := by
  have hafter := mem_range_iff (s := range.stop - range.start) (x := x)
    (le_refl (2 ^ Nat.clog 2 (range.stop - range.start)))
  have hof : ∀ e ∈ earlier, (∃ b ∈ e.maxBlocks range.start, x ∈ block b.2 b.1) ↔
      range.start + x ∈ e.addresses := by
    intro e he
    have hstart := (hin e he).start_le
    have hstop := (hin e he).stop_le
    have hsize := size_le range
    refine (mem_range_iff (n := Nat.clog 2 (range.stop - range.start)) (by omega)).trans ?_
    rw [AddressRange.mem_addresses]
    omega
  have husable : x ∉ usable range earlier ↔
      range.stop - range.start ≤ x ∨ ∃ e ∈ earlier, range.start + x ∈ e.addresses := by
    simp only [usable, Set.mem_ofPred_eq, not_and_or, not_forall, not_not, exists_prop]
    exact or_congr_left (by omega)
  rw [husable]
  constructor
  · rintro ⟨b, hb | ⟨e, he, hb⟩, hx⟩
    · exact Or.inl (hafter.mp ⟨b, hb, hx⟩).1
    · exact Or.inr ⟨e, he, (hof e he).mp ⟨b, hb, hx⟩⟩
  · rintro (hle | ⟨e, he, hmem⟩)
    · obtain ⟨b, hb, hmem⟩ := hafter.mpr ⟨hle, hx⟩
      exact ⟨b, Or.inl hb, hmem⟩
    · obtain ⟨b, hb, hx⟩ := (hof e he).mpr hmem
      exact ⟨b, Or.inr ⟨e, he, hb⟩, hx⟩

/-- As long as nothing is allocated, the allocator manages what is free. -/
lemma Idle.inv (h : Idle range a) (hle : range.start ≤ range.stop) (hstop : range.stop < usizeRange)
    (hfree : a.arena.free ⊆ Set.Iio (range.stop - range.start)) : a.Inv a.arena.free := by
  have hlive : a.arena.live = ∅ := h.live
  refine ⟨h.node, ?_, ?_, h.range_eq ▸ hle, h.range_eq ▸ hstop⟩
  · have hwf := Arena.WF.start a.arena.free
    rwa [← hlive] at hwf
  · rw [h.range_eq]
    exact hfree

/-- What is free is what is not withdrawn. -/
lemma Tracks.free_eq (h : Tracks range earlier a) (hin : ∀ e ∈ earlier, e.Inside range) :
    a.arena.free = usable range earlier := by
  have hfree : a.arena.free = Set.Iio (2 ^ a.rootOrder) \ numbers (a.root.barred a.rootOrder) :=
    h.node.free_eq h.live
  rw [hfree, h.barred, h.order]
  ext x
  rw [Set.mem_sdiff, Set.mem_Iio]
  constructor
  · rintro ⟨hx, hnot⟩
    exact not_not.mp fun hused => hnot ((mem_numbers_withdrawn hin hx).mpr hused)
  · intro hx
    have hsize := size_le range
    have hlt : x < 2 ^ Nat.clog 2 (range.stop - range.start) := by
      have := hx.1
      omega
    exact ⟨hlt, fun hmem => (mem_numbers_withdrawn hin hlt).mp hmem hx⟩

/-- An allocator that has kept all its reservations manages the usable offsets. -/
lemma Tracks.inv (h : Tracks range earlier a) (hin : ∀ e ∈ earlier, e.Inside range)
    (hle : range.start ≤ range.stop) (hstop : range.stop < usizeRange) :
    a.Inv (usable range earlier) := by
  rw [← h.free_eq hin]
  refine h.toIdle.inv hle hstop ?_
  rw [h.free_eq hin]
  intro x hx
  have := hx.1
  rw [Set.mem_Iio]
  omega

/-- `BuddyAllocator::new` withdraws what is after the range. -/
lemma tracks_new (hnew : new range = .ok a) : Tracks range [] a := by
  have hle := (new_eq_ok hnew).1
  simp only [new, usizeSub_of_le hle, Checked.ok_bind, Checked.bind_eq_ok] at hnew
  obtain ⟨-, -, root, hroot, hok⟩ := hnew
  cases hok
  obtain ⟨root', hroot', hinv, harena⟩ := Node.new_spec (Nat.clog 2 (range.stop - range.start))
    (range.stop - range.start) (size_le range)
  rw [hroot] at hroot'
  cases hroot'
  refine ⟨⟨rfl, rfl, hinv, congrArg Arena.live harena⟩, ?_⟩
  rw [Node.new_barred (size_le range) hroot]
  ext b
  simp [withdrawn]

/-- If nothing is opened, the range adds its own blocks. -/
lemma carve_withdrawn (hsize : range.start < range.stop) (hr : r.Inside range)
    (hkeeps : ¬ Reopens range earlier r) :
    carve (r.start - range.start) (r.stop - range.start) (withdrawn range earlier) =
      withdrawn range (earlier ++ [r]) := by
  ext b
  simp only [mem_carve, withdrawn, Set.mem_ofPred_eq, List.mem_append, List.mem_singleton]
  constructor
  · rintro (⟨hafter | ⟨e, he, hb⟩, -⟩ | hb)
    · exact Or.inl hafter
    · exact Or.inr ⟨e, Or.inl he, hb⟩
    · exact Or.inr ⟨r, Or.inr rfl, hb⟩
  · rintro (hafter | ⟨e, he | rfl, hb⟩)
    · refine Or.inl ⟨Or.inl hafter, fun hcuts => ?_⟩
      have hstart := hafter.covers.1
      have hstop := hr.stop_le
      have := hcuts.2.1
      omega
    · exact Or.inl ⟨Or.inr ⟨e, he, hb⟩, fun hcuts => hkeeps ⟨e, he, b, hb, hcuts⟩⟩
    · exact Or.inr hb

/-- **The three ways of `reserve_range`.** -/
lemma Tracks.reserveRange (h : Tracks range earlier a) (hr : r.Inside range) :
    (Stops range earlier r ∧ ∃ p, a.reserveRange r = .error p) ∨
      ¬ Stops range earlier r ∧ ∃ a', a.reserveRange r = .ok a' ∧ Idle range a' ∧
        a'.root.barred a'.rootOrder =
          carve (r.start - range.start) (r.stop - range.start) (withdrawn range earlier) := by
  obtain ⟨hstart, hle, hstop⟩ := hr
  have hcall : a.reserveRange r =
      (a.root.reserveRange a.rootOrder (r.start - range.start) (r.stop - range.start) >>= fun root =>
        pure { a with root := root }) := by
    simp only [BuddyAllocator.reserveRange, h.range_eq, ensure_pos hstart, ensure_pos hstop,
      usizeSub_of_le hstart, usizeSub_of_le (hstart.trans hle), Checked.ok_bind]
  have hsize := size_le range
  by_cases htop : r.start - range.start = 2 ^ Nat.clog 2 (range.stop - range.start)
  · have hstop' : r.stop - range.start = 2 ^ Nat.clog 2 (range.stop - range.start) := by omega
    refine Or.inl ⟨Or.inr htop, .stackOverflow .nodeReserve, ?_⟩
    rw [hcall, h.order, htop, hstop', Node.reserveRange_top]
    rfl
  · have hresult := Node.reserveRange_result (s := r.start - range.start)
      (t := r.stop - range.start) h.node h.live (by omega) (by rw [h.order]; omega)
      (by rw [h.order]; omega)
    rw [hcall]
    generalize a.root.reserveRange a.rootOrder (r.start - range.start) (r.stop - range.start) =
      result at hresult
    cases hresult with
    | @stopped b hb hcovers =>
        rw [h.barred] at hb
        refine Or.inl ⟨?_, _, rfl⟩
        rcases hb with hafter | ⟨e, he, hb⟩
        · have hfirst := hafter.covers.1
          have hlast := hcovers.2
          have hpos : 0 < 2 ^ b.2 := by positivity
          omega
        · exact Or.inl ⟨e, he, b, hb, hcovers⟩
    | @carved root inv live hnone barred =>
        refine Or.inr ⟨?_, _, rfl, ⟨h.range_eq, h.order, inv, live⟩, ?_⟩
        · rintro (⟨e, he, b, hb, hcovers⟩ | htop')
          · exact hnone b (h.barred ▸ Or.inr ⟨e, he, hb⟩) hcovers
          · exact htop htop'
        · rw [barred, h.barred]

/-! ## Having an address -/

/-- A request for one address. -/
def oneByte : Layout := ⟨1, 1, Nat.isPowerOfTwo_one, by norm_num⟩

lemma blockOrder_oneByte : blockOrder oneByte.reqSize = 0 := rfl

/-- **Whatever is free can be had:** one address is requested after the other until it comes. -/
lemma exists_allocated {U : Set ℕ} {reserved : List AddressRange} {live : List Live} {x : ℕ}
    (h : a.Inv U) (run : BuddyRun range reserved a live) (hx : x ∈ a.arena.free) :
    ∃ a' live', BuddyRun range reserved a' live' ∧ ∃ l ∈ live', a.range.start + x ∈ l.addresses := by
  have hfinite : ∀ a : BuddyAllocator, a.Inv U → a.arena.free.Finite := fun a h =>
    (Set.finite_Iio (2 ^ a.rootOrder)).subset h.node.free_subset
  induction hn : a.arena.free.ncard using Nat.strong_induction_on generalizing a live with
  | _ n ih =>
  have hblock : HasBlock (blockOrder oneByte.reqSize) a.arena.free := by
    rw [blockOrder_oneByte]
    refine ⟨x, one_dvd x, fun y hy => ?_⟩
    obtain rfl : y = x := by
      simp only [mem_block, pow_zero] at hy
      omega
    exact hx
  obtain ⟨p, a', halloc, htook⟩ := alloc_some h hblock
  have run' := BuddyRun.alloc run halloc
  by_cases hpx : p = x
  · subst hpx
    refine ⟨_, _, run', _, List.mem_cons_self, ?_⟩
    show a.range.start + p ∈ Set.Ico (a.range.start + p) (a.range.start + p + oneByte.reqSize)
    exact Set.mem_Ico.mpr ⟨le_rfl, Nat.lt_add_of_pos_right oneByte.reqSize_pos⟩
  · -- one free address less, and `x` is still free
    have hextent : extent (p, oneByte.reqSize) = {p} := by
      ext y
      rw [mem_extent, blockOrder_oneByte, Set.mem_singleton_iff]
      dsimp only
      omega
    have hfree : a'.arena.free = a.arena.free \ {p} := by
      rw [htook.arena, Arena.take, hextent]
    have hmem : p ∈ a.arena.free := htook.free (left_mem_extent (p, oneByte.reqSize))
    have hless : a'.arena.free.ncard < n := by
      rw [hfree, ← hn]
      exact Set.ncard_sdiff_singleton_lt_of_mem hmem (hfinite a h)
    have hx' : x ∈ a'.arena.free := by
      rw [hfree]
      exact ⟨hx, fun hxp => hpx (Set.mem_singleton_iff.mp hxp).symm⟩
    have hrest := ih _ hless htook.inv run' hx' rfl
    rwa [htook.range] at hrest

/-- **An allocator that has kept all its reservations is exact.** -/
lemma Tracks.exactlyReserved (h : Tracks range earlier a) (hin : ∀ e ∈ earlier, e.Inside range)
    (hle : range.start ≤ range.stop) (hstop : range.stop < usizeRange)
    (hboot : boot range earlier = .ok a) : ExactlyReserved range earlier := by
  have hinv := h.inv hin hle hstop
  have hruns : ∀ a' live, BuddyRun range earlier a' live → RunInv range earlier a' live := by
    intro a' live run
    refine run.inv_of_boot fun a'' hboot' => ?_
    rw [hboot] at hboot'
    cases hboot'
    exact .boot h.range_eq h.live hinv
  constructor
  · intro a' live run l hl r hr
    refine Set.disjoint_left.mpr fun x hx hxr => ?_
    obtain ⟨hstart, -, hfree⟩ := (hruns a' live run).block_usable hl hx
    refine hfree r hr ?_
    rwa [Nat.add_sub_of_le hstart]
  · intro x hx hfree
    obtain ⟨hstart, hlt⟩ := hx
    have husable : x - range.start ∈ usable range earlier := by
      simp only [usable, Set.mem_ofPred_eq, Nat.add_sub_of_le hstart]
      exact ⟨hlt, hfree⟩
    rw [← h.free_eq hin] at husable
    have hhad := exists_allocated hinv (.boot hboot) husable
    rwa [h.range_eq, Nat.add_sub_of_le hstart] at hhad

/-- **An allocator that has opened a reservation is not exact:** part of it can be had. -/
lemma not_exactlyReserved_of_reopens {a' : BuddyAllocator} (h : Tracks range earlier a)
    (h' : Idle range a')
    (hbarred : a'.root.barred a'.rootOrder =
      carve (r.start - range.start) (r.stop - range.start) (withdrawn range earlier))
    (hin : ∀ e ∈ earlier, e.Inside range) (hr : r.Inside range) (hsize : range.start < range.stop)
    (hstop : range.stop < usizeRange) (hreopens : Reopens range earlier r)
    (hboot : boot range (earlier ++ [r]) = .ok a') :
    ¬ ExactlyReserved range (earlier ++ [r]) := by
  intro hexact
  obtain ⟨e, he, b, hb, hcuts⟩ := hreopens
  have hmem : b ∈ a.root.barred a.rootOrder := h.barred ▸ Or.inr ⟨e, he, hb⟩
  have hfree : a'.arena.free = Set.Iio (2 ^ a'.rootOrder) \ numbers (a'.root.barred a'.rootOrder) :=
    h'.node.free_eq h'.live
  rw [hbarred, h'.order] at hfree
  have hsizele := size_le range
  -- the blocks after the range are never opened
  have hinside : a'.arena.free ⊆ Set.Iio (range.stop - range.start) := by
    intro x hx
    rw [hfree] at hx
    by_contra hafter
    obtain ⟨c, hc, hxc⟩ := (mem_range_iff (s := range.stop - range.start) (x := x)
      (le_refl (2 ^ Nat.clog 2 (range.stop - range.start)))).mpr ⟨Nat.not_lt.mp hafter, hx.1⟩
    refine hx.2 ⟨c, Or.inl ⟨Or.inl hc, fun hcut => ?_⟩, hxc⟩
    have hfirst := hc.covers.1
    have hlast := hr.stop_le
    have := hcut.2.1
    omega
  -- a number of the block that the range does not reach
  obtain ⟨x, hxb, hxr⟩ : ∃ x ∈ block b.2 b.1, ¬ (r.start - range.start ≤ x ∧ x < r.stop - range.start) := by
    have hpos : 0 < 2 ^ b.2 := by positivity
    by_cases hfirst : r.start - range.start ≤ b.1
    · refine ⟨b.1 + 2 ^ b.2 - 1, by rw [mem_block]; omega, fun hlast => hcuts.2.2 ⟨hfirst, ?_⟩⟩
      omega
    · exact ⟨b.1, left_mem_block _ _, fun hle => hfirst hle.1⟩
  have hstart := (hin e he).start_le
  have hlast := (hin e he).stop_le
  have hcovers := hb.covers
  rw [mem_block] at hxb
  have hx : x ∈ a'.arena.free := by
    rw [hfree]
    refine ⟨?_, ?_⟩
    · rw [Set.mem_Iio]
      have := hcovers.2
      omega
    · rintro ⟨c, ⟨hc, hkept⟩ | hc, hxc⟩
      · have heq := h.node.barred_disjoint hmem (h.barred ▸ hc) (mem_block.mpr hxb) hxc
        exact hkept (heq ▸ hcuts)
      · rw [mem_block] at hxc
        have hfirst := hc.covers.1
        have hend := hc.covers.2
        exact hxr ⟨by omega, by omega⟩
  obtain ⟨a'', live, run, l, hl, hxl⟩ :=
    exists_allocated (h'.inv hsize.le hstop hinside) (.boot hboot) hx
  refine Set.disjoint_left.mp (hexact.spared a'' live run l hl e (List.mem_append_left _ he))
    (l.addresses_subset_block hxl) ?_
  rw [h'.range_eq, AddressRange.mem_addresses]
  have hfirst := hcovers.1
  have hend := hcovers.2
  omega

end BuddyAllocator

open BuddyAllocator

variable {range : AddressRange} {reserved earlier : List AddressRange} {a : BuddyAllocator}

lemma boot_append (l₁ l₂ : List AddressRange) :
    boot range (l₁ ++ l₂) = boot range l₁ >>= fun a => l₂.foldlM BuddyAllocator.reserveRange a := by
  simp only [boot, List.foldlM_append, bind_assoc]

/-- The calls that follow `earlier`: they are exact up to the first one that opens a block. -/
lemma reserves_iff (hsize : range.start < range.stop) (hstop : range.stop < usizeRange)
    (h : Tracks range earlier a) (hboot : boot range earlier = .ok a)
    (hearlier : ∀ e ∈ earlier, e.Inside range) (hreserved : ∀ r ∈ reserved, r.Inside range) :
    (∀ done, done <+: reserved → (∃ a', boot range (earlier ++ done) = .ok a') →
      ExactlyReserved range (earlier ++ done)) ↔ NeverReopens range earlier reserved := by
  induction reserved generalizing earlier a with
  | nil =>
      refine ⟨fun _ => trivial, fun _ done hdone _ => ?_⟩
      rw [List.prefix_nil.mp hdone, List.append_nil]
      exact h.exactlyReserved hearlier hsize.le hstop hboot
  | cons r rest ih =>
      have hr : r.Inside range := hreserved r List.mem_cons_self
      have hstep : boot range (earlier ++ [r]) = a.reserveRange r := by
        rw [boot_append, hboot, Checked.ok_bind, List.foldlM_cons]
        exact bind_pure _
      -- the prefixes are the empty one and those that start with `r`
      have hcons : (∀ done, done <+: r :: rest → (∃ a', boot range (earlier ++ done) = .ok a') →
            ExactlyReserved range (earlier ++ done)) ↔
          ∀ done, done <+: rest → (∃ a', boot range (earlier ++ [r] ++ done) = .ok a') →
            ExactlyReserved range (earlier ++ [r] ++ done) := by
        constructor
        · intro hall done hdone hok
          rw [List.append_assoc] at hok ⊢
          exact hall (r :: done) (List.cons_prefix_cons.mpr ⟨rfl, hdone⟩) hok
        · intro hall done hdone hok
          rcases List.prefix_cons_iff.mp hdone with rfl | ⟨tail, rfl, htail⟩
          · rw [List.append_nil]
            exact h.exactlyReserved hearlier hsize.le hstop hboot
          · rw [List.append_cons] at hok ⊢
            exact hall tail htail hok
      rw [hcons, NeverReopens]
      rcases h.reserveRange hr with ⟨hstops, p, herror⟩ | ⟨hgoes, a', hok, hidle, hbarred⟩
      · refine ⟨fun _ => Or.inl hstops, fun _ done _ hboot' => ?_⟩
        obtain ⟨a', hok⟩ := hboot'
        rw [boot_append, hstep, herror] at hok
        cases hok
      · rw [hok] at hstep
        rw [or_iff_right hgoes]
        by_cases hreopens : Reopens range earlier r
        · refine ⟨fun hall => ?_, fun hnever => absurd hreopens hnever.1⟩
          have hexact := hall [] List.nil_prefix ⟨a', by rw [List.append_nil, hstep]⟩
          rw [List.append_nil] at hexact
          exact absurd hexact (not_exactlyReserved_of_reopens h hidle hbarred hearlier hr hsize
            hstop hreopens hstep)
        · have htracks : Tracks range (earlier ++ [r]) a' :=
            ⟨hidle, hbarred.trans (carve_withdrawn hsize hr hreopens)⟩
          have hinside : ∀ e ∈ earlier ++ [r], e.Inside range := by
            intro e he
            rcases List.mem_append.mp he with he | he
            · exact hearlier e he
            · exact List.mem_singleton.mp he ▸ hr
          rw [ih htracks hstep hinside fun e he => hreserved e (List.mem_cons_of_mem r he)]
          exact (and_iff_right hreopens).symm

/-- A range without addresses has nothing to reserve. -/
lemma reservesExactly_of_empty (hempty : range.stop ≤ range.start)
    (hin : ∀ r ∈ reserved, r.Inside range) : ReservesExactly range reserved := by
  intro done hdone _
  constructor
  · intro a live _ l _ r hr
    have hr := hin r (hdone.subset hr)
    have := hr.start_le
    have := hr.stop_le
    refine Set.disjoint_left.mpr fun x _ hx => ?_
    rw [AddressRange.mem_addresses] at hx
    omega
  · intro x hx _
    rw [AddressRange.mem_addresses] at hx
    omega

lemma neverReopens_of_empty (hempty : range.stop ≤ range.start)
    (hearlier : ∀ e ∈ earlier, e.Inside range) (hin : ∀ r ∈ reserved, r.Inside range) :
    NeverReopens range earlier reserved := by
  induction reserved generalizing earlier with
  | nil => trivial
  | cons r rest ih =>
      refine Or.inr ⟨?_, ih ?_ fun e he => hin e (List.mem_cons_of_mem r he)⟩
      · rintro ⟨e, he, b, hb, -⟩
        have := (hearlier e he).start_le
        have := (hearlier e he).stop_le
        exact not_maxBlock_empty (by omega) hb
      · intro e he
        rcases List.mem_append.mp he with he | he
        · exact hearlier e he
        · exact List.mem_singleton.mp he ▸ hin r List.mem_cons_self

/-- **Reservations are exact as long as none of them opens an earlier one.**  For every range and all
ranges inside of it, in any order: after each call that returns, nothing that is allocated later is in a
reservation and every other address can be had, if and only if no call cuts a block of an earlier
reservation into pieces, up to the first call that does not return.  A block that is cut is split, and
its other pieces are free again. -/
theorem reserve_exact_iff (hstop : range.stop < usizeRange)
    (hnew : BuddyAllocator.new range = .ok a) (hin : ∀ r ∈ reserved, r.Inside range) :
    ReservesExactly range reserved ↔ NeverReopens range [] reserved := by
  have hnone : ∀ e ∈ ([] : List AddressRange), e.Inside range := by simp
  rcases Nat.lt_or_ge range.start range.stop with hsize | hempty
  · have hboot : boot range [] = .ok a := by
      rw [boot, hnew]
      rfl
    exact reserves_iff hsize hstop (tracks_new hnew) hboot hnone hin
  · exact iff_of_true (reservesExactly_of_empty hempty hin)
      (neverReopens_of_empty hempty hnone hin)

/-- Memory of 128 MiB with two reserved regions, one of which ends inside the other. -/
theorem reserve_exact_iff_overlap :
    ReservesExactly ⟨0x80000000, 0x88000000⟩
        [⟨0x80000000, 0x80004000⟩, ⟨0x80002000, 0x80006000⟩] ↔
      NeverReopens ⟨0x80000000, 0x88000000⟩ []
        [⟨0x80000000, 0x80004000⟩, ⟨0x80002000, 0x80006000⟩] := by
  refine reserve_exact_iff (by decide) rfl fun r hr => ?_
  rcases List.mem_pair.mp hr with rfl | rfl <;> exact ⟨by decide, by decide, by decide⟩

/-- A region inside a reserved one gives the rest of that one away: the first allocation is the
first byte that was reserved. -/
theorem not_reserve_exact :
    ¬ ∀ (range : AddressRange) (reserved : List AddressRange) (a : BuddyAllocator),
      range.stop < usizeRange → BuddyAllocator.new range = .ok a →
      (∀ r ∈ reserved, r.Inside range) → ReservesExactly range reserved := by
  intro h
  have hexact := h ⟨0x80000000, 0x88000000⟩ [⟨0x80000000, 0x80040000⟩, ⟨0x80010000, 0x80020000⟩]
    _ (by decide) rfl (fun r hr => by
      rcases List.mem_pair.mp hr with rfl | rfl <;> exact ⟨by decide, by decide, by decide⟩)
    _ List.prefix_rfl ⟨_, rfl⟩
  have hdisjoint := hexact.spared _ _ (@BuddyRun.alloc _ _ _ _ _ oneByte _ (.boot rfl) rfl)
    _ List.mem_cons_self ⟨0x80000000, 0x80040000⟩ List.mem_cons_self
  have hfirst : 0x80000000 ∉ AddressRange.addresses ⟨0x80000000, 0x80040000⟩ :=
    Set.disjoint_left.mp hdisjoint ⟨le_rfl, by norm_num [Layout.blockSize]⟩
  exact hfirst ⟨le_rfl, by norm_num⟩

end Deravel
