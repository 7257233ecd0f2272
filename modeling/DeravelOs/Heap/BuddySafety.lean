import DeravelOs.Heap.BuddyRuns

/-!
# Safety and completeness of the buddy allocator

Both results speak about every run (`BuddyRun`): any range, any sensible reservations, any sequence
of allocations and matching deallocations.  `buddyRun_safe` says that nothing panics and that the
live allocations are where they should be, `buddyRun_complete` that a request fails only when no
block is left for it, whatever the order in which blocks were freed.
-/

namespace Deravel

open Dyadic (HasBlock blockOrder extent)

variable {range : AddressRange} {reserved : List AddressRange} {a : BuddyAllocator}
  {live : List Live}

lemma Layout.reqSize_le_blockSize (l : Layout) : l.reqSize ≤ l.blockSize :=
  Dyadic.le_two_pow_blockOrder _

lemma Live.addresses_subset_block (l : Live) : l.addresses ⊆ l.block := by
  intro x hx
  have := l.layout.reqSize_le_blockSize
  simp only [Live.addresses, Live.block, Set.mem_Ico] at hx ⊢
  omega

/-- An alignment divides the block size. -/
lemma Layout.align_dvd_blockSize (l : Layout) : l.align ∣ l.blockSize := by
  obtain ⟨k, hk⟩ := l.align_pow
  rw [hk]
  refine pow_dvd_pow 2 ((Nat.pow_le_pow_iff_right (a := 2) (by norm_num)).mp ?_)
  exact hk ▸ (le_max_right _ _).trans l.reqSize_le_blockSize

namespace RunInv

/-- The live allocations have pairwise disjoint blocks. -/
lemma disjoint (h : RunInv range reserved a live) :
    live.Pairwise fun l m => Disjoint l.block m.block := by
  refine h.distinct.imp_of_mem fun {l m} hl hm hne => Set.disjoint_left.mpr fun x hxl hxm => ?_
  obtain ⟨p, hp, hpl⟩ := h.recorded l hl
  obtain ⟨q, hq, hqm⟩ := h.recorded m hm
  simp only [Live.block, Layout.blockSize, Set.mem_Ico] at hxl hxm
  have heq := h.inv.wf.disjoint.elim_set hpl hqm (x - range.start)
    (by simp only [Dyadic.mem_extent]; omega) (by simp only [Dyadic.mem_extent]; omega)
  have hpq : p = q := congrArg Prod.fst heq
  exact hne (by rw [hp, hq, hpq])

/-- Every address of a live block is usable. -/
lemma block_usable (h : RunInv range reserved a live) {l : Live} (hl : l ∈ live) {x : ℕ}
    (hx : x ∈ l.block) : range.start ≤ x ∧ x - range.start ∈ usable range reserved := by
  obtain ⟨p, hp, hmem⟩ := h.recorded l hl
  simp only [Live.block, Layout.blockSize, Set.mem_Ico] at hx
  exact ⟨by omega, h.inv.wf.inside _ hmem (by simp only [Dyadic.mem_extent]; omega)⟩

end RunInv

/-- What a live allocation promises. -/
structure Live.Ok (range : AddressRange) (reserved : List AddressRange) (l : Live) : Prop where
  inside : l.addresses ⊆ range.addresses
  unreserved : ∀ r ∈ reserved, Disjoint l.addresses r.addresses
  start_le : range.start ≤ l.ptr
  aligned : l.layout.blockSize ∣ l.ptr - range.start
  align_dvd : l.layout.align ∣ range.start → l.layout.align ∣ l.ptr

lemma RunInv.liveOk (h : RunInv range reserved a live) {l : Live} (hl : l ∈ live) :
    l.Ok range reserved := by
  obtain ⟨p, hp, hmem⟩ := h.recorded l hl
  have hal : l.layout.blockSize ∣ p := h.inv.wf.aligned _ hmem
  have husable : ∀ x ∈ l.addresses, range.start ≤ x ∧ x - range.start ∈ usable range reserved :=
    fun x hx => h.block_usable hl (l.addresses_subset_block hx)
  refine ⟨fun x hx => ?_, fun r hr => Set.disjoint_left.mpr fun x hx hxr => ?_, by omega, ?_, ?_⟩
  · obtain ⟨hle, hlt, -⟩ := husable x hx
    exact ⟨hle, by omega⟩
  · obtain ⟨hle, -, hres⟩ := husable x hx
    exact hres r hr (by rwa [Nat.add_sub_of_le hle])
  · rwa [hp, Nat.add_sub_cancel_left]
  · intro hstart
    rw [hp]
    exact dvd_add hstart (l.layout.align_dvd_blockSize.trans hal)

/-- **Buddy allocator safety over whole runs.**  A range of at most 2^63 addresses is booted, with any
reservations in it that are disjoint and not empty.  That does not panic, and after any run of `alloc`
and matching `dealloc` calls neither does the next one, whichever it is.  The live allocations are
pairwise disjoint, and each of them is `Live.Ok`: in the range, outside of every reservation, and aligned
to the size of its block, counted from the start of the range. -/
theorem buddyRun_safe (hle : range.start ≤ range.stop) (hstop : range.stop < usizeRange)
    (hlen : range.stop - range.start ≤ 2 ^ 63) (hres : Reservations range reserved) :
    (∃ a, BuddyAllocator.boot range reserved = .ok a) ∧
    ∀ a live, BuddyRun range reserved a live →
      (∀ layout, ∃ result a', a.alloc layout = .ok (result, a')) ∧
      (∀ l ∈ live, ∃ a', a.dealloc l.ptr l.layout = .ok a') ∧
      (live.Pairwise fun l m => Disjoint l.addresses m.addresses) ∧
      ∀ l ∈ live, l.Ok range reserved := by
  obtain ⟨a₀, hboot, -⟩ := BuddyAllocator.boot_spec hle hstop hlen hres
  refine ⟨⟨a₀, hboot⟩, fun a live run => ?_⟩
  have h := run.inv hstop hres
  refine ⟨fun layout => ?_, fun l hl => ?_, ?_, fun l hl => h.liveOk hl⟩
  · by_cases hb : HasBlock (blockOrder layout.reqSize) a.arena.free
    · obtain ⟨p, a', halloc, -⟩ := BuddyAllocator.alloc_some h.inv hb
      exact ⟨_, a', halloc⟩
    · exact ⟨_, a, BuddyAllocator.alloc_none h.inv hb⟩
  · obtain ⟨p, hp, hmem⟩ := h.recorded l hl
    obtain ⟨a', hd, -⟩ := BuddyAllocator.dealloc_spec h.inv hmem
    exact ⟨a', by rw [hp, ← h.range_eq, hd]⟩
  · exact h.disjoint.imp fun {l m} hd =>
      hd.mono l.addresses_subset_block m.addresses_subset_block

/-- Three bytes and then one byte are allocated of twelve, of which two are reserved. -/
theorem buddyRun_safe_twelveBytes : ∃ a b c, b.layout.size = 3 ∧ c.layout.size = 1 ∧
    BuddyRun ⟨0x4000, 0x400c⟩ [⟨0x4001, 0x4003⟩] a [c, b] ∧
    (∀ layout, ∃ result a', a.alloc layout = .ok (result, a')) ∧
    (∃ a', a.dealloc b.ptr b.layout = .ok a') ∧ Disjoint c.addresses b.addresses ∧
    b.Ok ⟨0x4000, 0x400c⟩ [⟨0x4001, 0x4003⟩] ∧ c.Ok ⟨0x4000, 0x400c⟩ [⟨0x4001, 0x4003⟩] := by
  obtain ⟨a, b, c, hb, hc, run⟩ : ∃ a b c, b.layout.size = 3 ∧ c.layout.size = 1 ∧
      BuddyRun ⟨0x4000, 0x400c⟩ [⟨0x4001, 0x4003⟩] a [c, b] :=
    ⟨_, _, _, rfl, rfl, @BuddyRun.alloc _ _ _ _ _ ⟨1, 1, ⟨0, rfl⟩, by norm_num⟩ _
      (@BuddyRun.alloc _ _ _ _ _ ⟨3, 2, ⟨1, rfl⟩, by norm_num⟩ _ (.boot rfl) rfl) rfl⟩
  have hres : Reservations ⟨0x4000, 0x400c⟩ [⟨0x4001, 0x4003⟩] :=
    ⟨by simp, by simp, List.pairwise_singleton _ _⟩
  obtain ⟨-, hsafe⟩ := buddyRun_safe (by decide) (by decide) (by decide) hres
  obtain ⟨halloc, hdealloc, hdisjoint, hok⟩ := hsafe a _ run
  exact ⟨a, b, c, hb, hc, run, halloc, hdealloc b (by simp),
    List.rel_of_pairwise_cons hdisjoint (by simp), hok b (by simp), hok c (by simp)⟩

/-! ## Completeness -/

/-- The `k`-th block of `b` addresses, counted from the start of the range, is neither reserved nor
touched by a live block. -/
structure FreeBlock (range : AddressRange) (reserved : List AddressRange) (live : List Live)
    (b k : ℕ) : Prop where
  inside : range.start + (k + 1) * b ≤ range.stop
  unreserved : ∀ r ∈ reserved,
    Disjoint (Set.Ico (range.start + k * b) (range.start + (k + 1) * b)) r.addresses
  unused : ∀ l ∈ live,
    Disjoint (Set.Ico (range.start + k * b) (range.start + (k + 1) * b)) l.block

/-- The arena has a free block exactly when the range has one, as its users see it. -/
lemma RunInv.hasBlock_iff (h : RunInv range reserved a live) (k : ℕ) :
    HasBlock k a.arena.free ↔ ∃ i, FreeBlock range reserved live (2 ^ k) i := by
  have hpos : 0 < 2 ^ k := by positivity
  constructor
  · rintro ⟨b, ⟨i, rfl⟩, hsub⟩
    have hmem : ∀ x, range.start + i * 2 ^ k ≤ x → x < range.start + (i + 1) * 2 ^ k →
        x - range.start ∈ a.arena.free := fun x h1 h2 => hsub (by
      rw [add_mul, one_mul] at h2
      simp only [Dyadic.mem_block, mul_comm (2 ^ k) i]
      omega)
    refine ⟨i, ?_, fun r hr => Set.disjoint_left.mpr ?_, fun l hl => Set.disjoint_left.mpr ?_⟩
    · have hlast := ((h.inv.wf.mem_free _).mp (hmem (range.start + (i + 1) * 2 ^ k - 1)
        (by rw [add_mul, one_mul]; omega) (by rw [add_mul, one_mul]; omega))).1
      have := hlast.1
      rw [add_mul, one_mul] at this ⊢
      omega
    · intro x hx hxr
      have hfree := ((h.inv.wf.mem_free _).mp (hmem x hx.1 hx.2)).1.2 r hr
      rw [Nat.add_sub_of_le (le_trans (Nat.le_add_right _ _) hx.1)] at hfree
      exact hfree hxr
    · intro x hx hxl
      have hstart : range.start ≤ x := le_trans (Nat.le_add_right _ _) hx.1
      obtain ⟨b, hb, -, -, hiff⟩ := h.mem_block hl (x := x - range.start)
      rw [Nat.add_sub_of_le hstart] at hiff
      exact h.inv.wf.not_free hb (hiff.mp hxl) (hmem x hx.1 hx.2)
  · rintro ⟨i, hi⟩
    refine ⟨2 ^ k * i, dvd_mul_right _ _, fun x hx => (h.inv.wf.mem_free x).mpr ?_⟩
    simp only [Dyadic.mem_block, mul_comm (2 ^ k) i] at hx
    have hmem : range.start + x ∈
        Set.Ico (range.start + i * 2 ^ k) (range.start + (i + 1) * 2 ^ k) := by
      rw [Set.mem_Ico, add_mul, one_mul]
      omega
    refine ⟨⟨lt_of_lt_of_le hmem.2 hi.inside, fun r hr hxr =>
      Set.disjoint_left.mp (hi.unreserved r hr) hmem hxr⟩, fun b hb hxb => ?_⟩
    obtain ⟨l, hl, hptr, hreq⟩ := h.known b hb
    refine Set.disjoint_left.mp (hi.unused l hl) hmem ?_
    simp only [Dyadic.mem_extent] at hxb
    simp only [Live.block, Layout.blockSize, Set.mem_Ico, hptr, hreq]
    omega

/-- `alloc(layout)` returns `Err`. -/
def BuddyAllocator.Fails (a : BuddyAllocator) (layout : Layout) : Prop :=
  ∃ a', a.alloc layout = .ok (.error .mk, a')

/-- `alloc(layout)` returns `Ok`. -/
def BuddyAllocator.Succeeds (a : BuddyAllocator) (layout : Layout) : Prop :=
  ∃ ptr a', a.alloc layout = .ok (.ok ptr, a')

/-- A request fails exactly when there is no free block for it, and succeeds otherwise. -/
lemma RunInv.fails_iff (h : RunInv range reserved a live) (layout : Layout) :
    (a.Fails layout ↔ ¬ HasBlock (blockOrder layout.reqSize) a.arena.free) ∧
    (a.Succeeds layout ↔ HasBlock (blockOrder layout.reqSize) a.arena.free) := by
  by_cases hb : HasBlock (blockOrder layout.reqSize) a.arena.free
  · obtain ⟨p, a', halloc, -⟩ := BuddyAllocator.alloc_some h.inv hb
    simp [BuddyAllocator.Fails, BuddyAllocator.Succeeds, hb, halloc]
  · simp [BuddyAllocator.Fails, BuddyAllocator.Succeeds, hb, BuddyAllocator.alloc_none h.inv hb]

/-- **Completeness and coalescing.**  After any run a request fails if and only if no block of its size,
counted from the start of the range, is free of reservations and of live blocks; so blocks that were
freed are merged again, in whatever order that was.  A failing request changes nothing, and with every
allocation freed the allocator answers as it did when it was booted. -/
theorem buddyRun_complete (hstop : range.stop < usizeRange) (hres : Reservations range reserved)
    (run : BuddyRun range reserved a live) :
    (∀ layout, a.Fails layout ↔ ¬ ∃ k, FreeBlock range reserved live layout.blockSize k) ∧
    (∀ layout a', a.alloc layout = .ok (.error .mk, a') → a' = a) ∧
    (live = [] → ∀ a₀, BuddyAllocator.boot range reserved = .ok a₀ → ∀ layout,
      (a.Fails layout ↔ a₀.Fails layout) ∧ (a.Succeeds layout ↔ a₀.Succeeds layout)) := by
  have h := run.inv hstop hres
  refine ⟨fun layout => ?_, fun layout a' halloc => ?_, ?_⟩
  · rw [(h.fails_iff layout).1, h.hasBlock_iff]
    rfl
  · rcases BuddyAllocator.alloc_eq_ok h.inv halloc with ⟨-, rfl, -⟩ | ⟨p, hp, -⟩
    · rfl
    · cases hp
  · rintro rfl a₀ hboot layout
    have h₀ := (BuddyRun.boot hboot).inv hstop hres
    -- both allocators have the same usable offsets and nothing live
    have hiff : HasBlock (blockOrder layout.reqSize) a.arena.free ↔
        HasBlock (blockOrder layout.reqSize) a₀.arena.free := by
      rw [h.hasBlock_iff, h₀.hasBlock_iff]
    rw [(h.fails_iff layout).1, (h₀.fails_iff layout).1, (h.fails_iff layout).2,
      (h₀.fails_iff layout).2]
    exact ⟨not_congr hiff, hiff⟩

/-- A run on three bytes with the first one reserved: of the other two one is taken. -/
theorem buddyRun_complete_threeBytes :
    ∃ a live, BuddyRun ⟨4096, 4099⟩ [⟨4096, 4097⟩] a live ∧ live.length = 1 ∧
      (∀ layout, a.Fails layout ↔
        ¬ ∃ k, FreeBlock ⟨4096, 4099⟩ [⟨4096, 4097⟩] live layout.blockSize k) ∧
      (∀ layout a', a.alloc layout = .ok (.error .mk, a') → a' = a) ∧
      (live = [] → ∀ a₀, BuddyAllocator.boot ⟨4096, 4099⟩ [⟨4096, 4097⟩] = .ok a₀ → ∀ layout,
        (a.Fails layout ↔ a₀.Fails layout) ∧ (a.Succeeds layout ↔ a₀.Succeeds layout)) := by
  obtain ⟨a, live, run, hlen⟩ : ∃ a live,
      BuddyRun ⟨4096, 4099⟩ [⟨4096, 4097⟩] a live ∧ live.length = 1 :=
    ⟨_, _, @BuddyRun.alloc _ _ _ _ _ ⟨1, 1, ⟨0, rfl⟩, by norm_num⟩ _ (.boot rfl) rfl, rfl⟩
  exact ⟨a, live, run, hlen, buddyRun_complete (by decide)
    ⟨by simp, by simp, List.pairwise_singleton _ _⟩ run⟩

end Deravel
