import DeravelOs.Kernel.Frames

/-!
# Pages on the kernel heap

The pages that the kernel maps lie on the same heap as its own containers.  `Kernel.HeapOk` says
what there is on it: the blocks of the containers, and one block for each backing that is still
needed.  Backings behind an `Arc` are counted and go when nobody has them any more
(`Kernel.counted`); the others stay for good (`Kernel.pinned`).

* `HeapOk.allocPages`, `HeapOk.freePages`: what comes and goes.
* `HeapOk.dropBacking`: an `Arc` takes nothing with it that somebody else needs.
-/

namespace Deravel

variable {P : Platform} {k k' : Kernel} {blocks : List Live} {b c : Backing}
  {S T F : Set Backing}

/-! ## Addresses of the RAM -/

namespace Platform

lemma ram_bounds (P : Platform) {a : ℕ} (ha : a ∈ P.ram.addresses) :
    usizeRange - directMapping.start ≤ a ∧ a < usizeRange := by
  obtain ⟨h1, h2⟩ := ha
  have hdirect := P.ram_direct
  have hstop := P.ram_stop
  omega

/-- The direct mapping is at the end of the address space. -/
lemma physOf_eq (P : Platform) {a : ℕ} (ha : a ∈ P.ram.addresses) :
    physOf a = a - (usizeRange - directMapping.start) := by
  obtain ⟨h1, h2⟩ := P.ram_bounds ha
  simp only [usizeRange, directMapping, virtualAddresses, pageTableEntryCount, level2PageSize,
    level1PageSize, pageSize] at h1 h2
  simp only [physOf, usizeRange, directMapping, virtualAddresses, pageTableEntryCount,
    level2PageSize, level1PageSize, pageSize]
  omega

lemma physOf_inj (P : Platform) {a b : ℕ} (ha : a ∈ P.ram.addresses) (hb : b ∈ P.ram.addresses)
    (h : physOf a = physOf b) : a = b := by
  rw [P.physOf_eq ha, P.physOf_eq hb] at h
  have h1 := P.ram_bounds ha
  have h2 := P.ram_bounds hb
  omega

lemma physOf_add (P : Platform) {a i : ℕ} (ha : a ∈ P.ram.addresses)
    (hai : a + i ∈ P.ram.addresses) : physOf (a + i) = physOf a + i := by
  rw [P.physOf_eq ha, P.physOf_eq hai]
  have h1 := P.ram_bounds ha
  omega

lemma image_subset (P : Platform) : P.image.addresses ⊆ P.ram.addresses := by
  obtain ⟨h1, h2⟩ := P.reservations.inside _ P.image_reserved
  exact fun a ha => ⟨h1.trans ha.1, lt_of_lt_of_le ha.2 h2⟩

/-- The physical addresses of the kernel's image. -/
def imageFrames (P : Platform) : Set ℕ := physOf '' P.image.addresses

/-- The physical addresses that the kernel heap can hand out. -/
def heapFrames (P : Platform) : Set ℕ :=
  physOf '' {a | a ∈ P.ram.addresses ∧ ∀ r ∈ P.reserved, a ∉ r.addresses}

lemma disjoint_heapFrames_imageFrames (P : Platform) :
    Disjoint P.heapFrames P.imageFrames := by
  rw [Set.disjoint_left]
  rintro p ⟨a, ⟨ha, hfree⟩, rfl⟩ ⟨b, hb, heq⟩
  obtain rfl := P.physOf_inj (P.image_subset hb) ha heq
  exact hfree _ P.image_reserved hb

end Platform

lemma virtToPhys_eq {virt phys : ℕ} (h : virtToPhys virt = .ok phys) : phys = physOf virt := by
  simp only [virtToPhys, ensure_bind_eq_ok] at h
  obtain ⟨-, ⟨hge, hlt⟩, h⟩ := h
  rw [usizeSub_of_le hge] at h
  obtain rfl := Except.ok.inj h
  simp only [directMapping, virtualAddresses, pageTableEntryCount, level2PageSize,
    level1PageSize, pageSize] at hge hlt
  simp only [physOf, directMapping, virtualAddresses, pageTableEntryCount, level2PageSize,
    level1PageSize, pageSize]
  omega

/-! ## Backings and their blocks -/

/-- The physical addresses of a backing. -/
def Backing.frames (b : Backing) : Set ℕ := Set.Ico (physOf b.ptr) (physOf b.ptr + b.byteSize)

/-- A backing is where it was allocated: on a block of the heap, or nowhere if it has no bytes. -/
inductive Backing.Kept (P : Platform) (blocks : List Live) (b : Backing) : Prop
  | dangling (hsize : b.byteSize = 0) (hptr : b.ptr < P.ram.start)
  | block (granular : Layout) (hgranular : pageGranular b.layout = .ok granular)
      (hmem : ⟨b.ptr, granular⟩ ∈ blocks)

lemma Backing.Kept.mono {blocks' : List Live} (h : b.Kept P blocks) (hsub : blocks ⊆ blocks') :
    b.Kept P blocks' := by
  cases h with
  | dangling hsize hptr => exact .dangling hsize hptr
  | block granular hgranular hmem => exact .block granular hgranular (hsub hmem)

lemma pageGranular_size {layout granular : Layout} (h : pageGranular layout = .ok granular) :
    granular.size = max layout.size pageSize ∧ granular.align = max layout.align pageSize := by
  simp only [pageGranular] at h
  split at h
  · cases h
    exact ⟨rfl, rfl⟩
  · cases h

lemma Platform.ram_start_gt (P : Platform) (layout : Layout) : layout.align < P.ram.start := by
  have hdirect := P.ram_direct
  have hsize := layout.size_le
  simp only [usizeRange, directMapping, virtualAddresses, pageTableEntryCount, level2PageSize,
    level1PageSize, pageSize] at hdirect
  omega

/-- The heap has the blocks of the kernel's containers, and these. -/
def Kernel.BlocksOk (P : Platform) (k : Kernel) (blocks : List Live) : Prop :=
  RunInv P.ram P.reserved k.heap (k.internal ++ blocks)

lemma RunInv.perm {range : AddressRange} {reserved : List AddressRange} {a : BuddyAllocator}
    {live live' : List Live} (h : RunInv range reserved a live) (hperm : live.Perm live') :
    RunInv range reserved a live' where
  range_eq := h.range_eq
  inv := h.inv
  recorded := fun l hl => h.recorded l (hperm.mem_iff.mpr hl)
  known := fun b hb => (h.known b hb).imp fun _ hl => ⟨hperm.mem_iff.mp hl.1, hl.2⟩
  distinct := (hperm.pairwise_iff fun hne => hne.symm).mp h.distinct

namespace Kernel

lemma allocPages_eq_ok {layout : Layout} {contents : ℕ → UInt8}
    (h : k.allocPages layout contents = .ok (.ok b, k')) : b.layout = layout ∧
      (layout.size = 0 ∧ b.ptr = layout.align ∧ k' = k ∨
      ∃ k₁ granular heap, k.churn = .ok k₁ ∧ pageGranular layout = .ok granular ∧
        k₁.heap.alloc granular = .ok (.ok b.ptr, heap) ∧
        k' = { k₁ with
          heap := heap
          memory := fillMemory k₁.memory (physOf b.ptr) layout.size contents }) := by
  simp only [Kernel.allocPages] at h
  split at h
  · next hzero =>
      cases h
      exact ⟨rfl, Or.inl ⟨hzero, rfl, rfl⟩⟩
  · obtain ⟨k₁, hchurn, h⟩ := Checked.bind_eq_ok.mp h
    obtain ⟨granular, hgranular, h⟩ := Checked.bind_eq_ok.mp h
    obtain ⟨⟨result, heap⟩, hheap, h⟩ := Checked.bind_eq_ok.mp h
    cases result with
    | error e => cases h
    | ok ptr =>
        cases h
        exact ⟨rfl, Or.inr ⟨k₁, granular, heap, hchurn, hgranular, hheap, rfl⟩⟩

lemma allocPages_eq_error {layout : Layout} {contents : ℕ → UInt8} {e : AllocError}
    (h : k.allocPages layout contents = .ok (.error e, k')) :
    ∃ k₁ granular heap, k.churn = .ok k₁ ∧ k₁.heap.alloc granular = .ok (.error e, heap) ∧
      k' = { k₁ with heap := heap } := by
  simp only [Kernel.allocPages] at h
  split at h
  · cases h
  · obtain ⟨k₁, hchurn, h⟩ := Checked.bind_eq_ok.mp h
    obtain ⟨granular, -, h⟩ := Checked.bind_eq_ok.mp h
    obtain ⟨⟨result, heap⟩, hheap, h⟩ := Checked.bind_eq_ok.mp h
    cases result with
    | ok ptr => cases h
    | error e =>
        cases h
        exact ⟨k₁, granular, heap, hchurn, hheap, rfl⟩

lemma freePages_eq_ok (h : k.freePages b = .ok k') :
    ∃ granular heap, pageGranular b.layout = .ok granular ∧
      k.heap.dealloc b.ptr granular = .ok heap ∧ k' = { k with heap := heap } := by
  obtain ⟨granular, hgranular, h⟩ := Checked.bind_eq_ok.mp h
  obtain ⟨heap, hdealloc, h⟩ := Checked.bind_eq_ok.mp h
  cases h
  exact ⟨granular, heap, hgranular, hdealloc, rfl⟩

namespace BlocksOk

lemma mem_start_le (h : k.BlocksOk P blocks) {l : Live} (hl : l ∈ blocks) :
    P.ram.start ≤ l.ptr := by
  obtain ⟨p, hp, -⟩ := h.recorded l (List.mem_append_right _ hl)
  omega

lemma heapOp (h : k.BlocksOk P blocks) {op : HeapOp} (hop : k.heapOp op = .ok k') :
    k'.BlocksOk P blocks := by
  cases op with
  | alloc layout =>
      obtain ⟨⟨result, heap⟩, halloc, hop⟩ := Checked.bind_eq_ok.mp hop
      cases result with
      | error e => cases hop
      | ok ptr =>
          cases hop
          exact RunInv.alloc_ok h halloc
  | dealloc index =>
      simp only [Kernel.heapOp] at hop
      split at hop
      · next block hblock =>
          obtain ⟨heap, hdealloc, hop⟩ := Checked.bind_eq_ok.mp hop
          cases hop
          have hsplit := List.take_append_drop index k.internal
          obtain ⟨hlt, hget⟩ := List.getElem?_eq_some_iff.mp hblock
          rw [List.drop_eq_getElem_cons hlt, hget] at hsplit
          have hrun : RunInv P.ram P.reserved k.heap
              (k.internal.take index ++ block :: (k.internal.drop (index + 1) ++ blocks)) := by
            have hall := h
            rw [BlocksOk, ← hsplit] at hall
            simpa using hall
          obtain ⟨heap', hdealloc', hafter⟩ := hrun.dealloc_ok
          rw [hdealloc] at hdealloc'
          cases hdealloc'
          rw [BlocksOk, List.eraseIdx_eq_take_drop_succ]
          simpa using hafter
      · cases hop
        exact h

/-- The containers leave all other blocks alone. -/
lemma usesHeap (h : k.BlocksOk P blocks) (huses : k.UsesHeap k') : k'.BlocksOk P blocks := by
  induction huses with
  | refl => exact h
  | heapOp _ hop ih => exact ih.heapOp hop
  | oracle _ _ ih => exact ih

lemma churn (h : k.BlocksOk P blocks) (hchurn : k.churn = .ok k') : k'.BlocksOk P blocks :=
  h.usesHeap (churn_usesHeap hchurn)

/-- New pages get a block of their own. -/
lemma allocPages (h : k.BlocksOk P blocks) {layout : Layout} {contents : ℕ → UInt8}
    (halloc : k.allocPages layout contents = .ok (.ok b, k')) :
    ∃ blocks', k'.BlocksOk P blocks' ∧ blocks ⊆ blocks' ∧ b.Kept P blocks' ∧
      (b.byteSize ≠ 0 → P.ram.start ≤ b.ptr) ∧ ∀ l ∈ blocks, l.ptr ≠ b.ptr := by
  obtain ⟨rfl, ⟨hzero, hptr, rfl⟩ | ⟨k₁, granular, heap, hchurn, hgranular, hheap, rfl⟩⟩ :=
    allocPages_eq_ok halloc
  · have hlt : b.ptr < P.ram.start := hptr ▸ P.ram_start_gt b.layout
    exact ⟨blocks, h, List.Subset.refl _, .dangling hzero hlt, fun hne => absurd hzero hne,
      fun l hl heq => absurd (heq ▸ h.mem_start_le hl) (Nat.not_le.mpr hlt)⟩
  · have hrun := RunInv.alloc_ok (h.churn hchurn) hheap
    refine ⟨⟨b.ptr, granular⟩ :: blocks, hrun.perm List.perm_middle.symm,
      List.subset_cons_self _ _, .block granular hgranular List.mem_cons_self,
      fun _ => (hrun.liveOk List.mem_cons_self).start_le, fun l hl heq => ?_⟩
    exact (List.pairwise_cons.mp hrun.distinct).1 l (List.mem_append_right _ hl) heq.symm

/-- A failed allocation of pages changes no block. -/
lemma allocPages_error (h : k.BlocksOk P blocks) {layout : Layout} {contents : ℕ → UInt8}
    {e : AllocError} (halloc : k.allocPages layout contents = .ok (.error e, k')) :
    k'.BlocksOk P blocks := by
  obtain ⟨k₁, granular, heap, hchurn, hheap, rfl⟩ := allocPages_eq_error halloc
  have h₁ := h.churn hchurn
  rw [RunInv.alloc_error h₁ hheap]
  exact h₁

/-- Pages that are freed lose their block, and nobody else does. -/
lemma freePages (h : k.BlocksOk P blocks) (hkept : b.Kept P blocks)
    (hfree : k.freePages b = .ok k') :
    ∃ blocks', k'.BlocksOk P blocks' ∧ ∀ c : Backing, c.Kept P blocks → c.ptr ≠ b.ptr →
      c.Kept P blocks' := by
  obtain ⟨granular, heap, hgranular, hdealloc, rfl⟩ := freePages_eq_ok hfree
  cases hkept with
  | dangling hsize hptr =>
      -- the pointer is below the RAM, which the heap does not take
      obtain ⟨offset, hsub, -⟩ := Checked.bind_eq_ok.mp hdealloc
      rw [h.range_eq, usizeSub, if_neg (Nat.not_le.mpr hptr)] at hsub
      cases hsub
  | block granular' hgranular' hmem =>
      rw [hgranular] at hgranular'
      cases hgranular'
      obtain ⟨before, after, rfl⟩ := List.append_of_mem hmem
      have hrun : RunInv P.ram P.reserved k.heap
          ((k.internal ++ before) ++ ⟨b.ptr, granular⟩ :: after) := by
        rw [List.append_assoc]
        exact h
      obtain ⟨heap', hdealloc', hafter⟩ := hrun.dealloc_ok
      rw [hdealloc] at hdealloc'
      cases hdealloc'
      rw [List.append_assoc] at hafter
      refine ⟨before ++ after, hafter, fun c hc hne => ?_⟩
      cases hc with
      | dangling hsize hptr => exact .dangling hsize hptr
      | block g hg hmem =>
          refine .block g hg ?_
          rcases List.mem_append.mp hmem with hmem | hmem
          · exact List.mem_append_left _ hmem
          · rcases List.mem_cons.mp hmem with heq | hmem
            · exact absurd (congrArg Live.ptr heq) hne
            · exact List.mem_append_right _ hmem

end BlocksOk

/-- The physical addresses that are free on the kernel heap. -/
def freeFrames (P : Platform) (k : Kernel) : Set ℕ :=
  {p | ∃ x ∈ k.heap.arena.free, p = physOf (P.ram.start + x)}

/-- The memory behind a backing is at the addresses of its block. -/
lemma BlocksOk.address (h : k.BlocksOk P blocks) {granular : Layout}
    (hgranular : pageGranular b.layout = .ok granular) (hmem : ⟨b.ptr, granular⟩ ∈ blocks) {p : ℕ}
    (hp : p ∈ b.frames) :
    ∃ a ∈ (Live.mk b.ptr granular).addresses, a ∈ P.ram.addresses ∧ p = physOf a := by
  have hok := h.liveOk (List.mem_append_right k.internal hmem)
  have hsize : b.byteSize ≤ (Live.mk b.ptr granular).layout.reqSize := by
    rw [Layout.reqSize, (pageGranular_size hgranular).1]
    exact (le_max_left _ _).trans (le_max_left _ _)
  obtain ⟨i, hi, rfl⟩ : ∃ i < b.byteSize, p = physOf b.ptr + i :=
    ⟨p - physOf b.ptr, by have := hp.1; have := hp.2; omega, (Nat.add_sub_of_le hp.1).symm⟩
  have haddr : ∀ j < b.byteSize, b.ptr + j ∈ (Live.mk b.ptr granular).addresses := fun j hj =>
    ⟨Nat.le_add_right _ _, Nat.add_lt_add_left (lt_of_lt_of_le hj hsize) _⟩
  have hfirst := hok.inside (haddr 0 (by omega))
  have hhere := hok.inside (haddr i hi)
  exact ⟨b.ptr + i, haddr i hi, hhere, (P.physOf_add hfirst hhere).symm⟩

/-- Kept memory is memory of the heap, and it is not free. -/
lemma BlocksOk.frames (h : k.BlocksOk P blocks) (hkept : b.Kept P blocks) {p : ℕ}
    (hp : p ∈ b.frames) : p ∈ P.heapFrames ∧ p ∉ k.freeFrames P := by
  cases hkept with
  | dangling hsize hptr =>
      simp only [Backing.frames, hsize, add_zero, Set.Ico_self, Set.mem_empty_iff_false] at hp
  | block granular hgranular hmem =>
      have hl := List.mem_append_right k.internal hmem
      obtain ⟨a, ha, hhere, rfl⟩ := h.address hgranular hmem hp
      refine ⟨⟨a, ⟨hhere, fun r hr => ?_⟩, rfl⟩, ?_⟩
      · exact Set.disjoint_left.mp ((h.liveOk hl).unreserved r hr) ha
      · rintro ⟨x, hx, heq⟩
        have hram : P.ram.start + x ∈ P.ram.addresses :=
          ⟨Nat.le_add_right _ _, ((h.inv.wf.mem_free x).mp hx).1.1⟩
        obtain ⟨block, hlive, -, -, hiff⟩ := h.mem_block hl (x := x)
        have hsame := P.physOf_inj hram hhere heq.symm
        exact h.inv.wf.not_free hlive (hiff.mp (hsame ▸ Live.addresses_subset_block _ ha)) hx

/-- Memory of different blocks does not overlap. -/
lemma BlocksOk.disjoint_frames (h : k.BlocksOk P blocks) (hb : b.Kept P blocks)
    (hc : c.Kept P blocks) (hne : b.ptr ≠ c.ptr) {p : ℕ} (hp : p ∈ b.frames) : p ∉ c.frames := by
  intro hp'
  cases hb with
  | dangling hsize _ =>
      simp only [Backing.frames, hsize, add_zero, Set.Ico_self, Set.mem_empty_iff_false] at hp
  | block granular hgranular hmem =>
      cases hc with
      | dangling hsize _ =>
          simp only [Backing.frames, hsize, add_zero, Set.Ico_self, Set.mem_empty_iff_false] at hp'
      | block granular' hgranular' hmem' =>
          obtain ⟨a, ha, hram, rfl⟩ := h.address hgranular hmem hp
          obtain ⟨a', ha', hram', heq⟩ := h.address hgranular' hmem' hp'
          obtain rfl := P.physOf_inj hram hram' heq
          have hsymm : Std.Symm fun l m : Live => Disjoint l.block m.block :=
            ⟨fun _ _ hdisjoint => hdisjoint.symm⟩
          have hdisjoint := (RunInv.disjoint h).forall (List.mem_append_right k.internal hmem)
            (List.mem_append_right k.internal hmem') fun heq => hne (congrArg Live.ptr heq)
          exact Set.disjoint_left.mp hdisjoint (Live.addresses_subset_block _ ha)
            (Live.addresses_subset_block _ ha')

/-! ## Contents -/

/-- Pages that are allocated are filled, and nothing else is written. -/
lemma allocPages_memory {layout : Layout} {contents : ℕ → UInt8}
    (h : k.allocPages layout contents = .ok (.ok b, k')) {p : ℕ} (hp : p ∉ b.frames) :
    k'.memory p = k.memory p := by
  obtain ⟨rfl, ⟨-, -, rfl⟩ | ⟨k₁, granular, heap, hchurn, -, -, rfl⟩⟩ := allocPages_eq_ok h
  · rfl
  · exact (if_neg hp).trans (congrFun (churn_usesHeap hchurn).memory p)

lemma allocPages_error_memory {layout : Layout} {contents : ℕ → UInt8} {e : AllocError}
    (h : k.allocPages layout contents = .ok (.error e, k')) : k'.memory = k.memory := by
  obtain ⟨k₁, granular, heap, hchurn, -, rfl⟩ := allocPages_eq_error h
  exact (churn_usesHeap hchurn).memory

lemma freePages_memory (h : k.freePages b = .ok k') : k'.memory = k.memory := by
  obtain ⟨granular, heap, -, -, rfl⟩ := freePages_eq_ok h
  rfl

lemma dropBacking_memory (h : k.dropBacking b = .ok k') : k'.memory = k.memory := by
  simp only [Kernel.dropBacking] at h
  split at h
  · cases h
    rfl
  · exact freePages_memory h

lemma dropAllocated_memory {entries : List (ℕ × Backing)} (h : k.dropAllocated entries = .ok k') :
    k'.memory = k.memory := by
  induction entries generalizing k with
  | nil =>
      cases h
      rfl
  | cons entry rest ih =>
      obtain ⟨k₁, hfirst, h⟩ := Checked.bind_eq_ok.mp h
      refine (ih h).trans ?_
      split at hfirst
      · cases hfirst
        rfl
      · exact dropBacking_memory hfirst

/-! ## Who needs what -/

/-- The heap has what is needed: backings that are counted, and ones that are pinned. -/
def HeapOk (P : Platform) (k : Kernel) (counted pinned : Set Backing) : Prop :=
  ∃ blocks, k.BlocksOk P blocks ∧ (∀ b ∈ counted ∪ pinned, b.Kept P blocks) ∧
    (∀ b ∈ pinned, P.ram.start ≤ b.ptr) ∧ ∀ b ∈ counted, ∀ c ∈ pinned, b.ptr ≠ c.ptr

/-- The memory on the allocated lists of the processes. -/
def allocatedMemory (k : Kernel) : Set Backing :=
  {b | ∃ i proc, k.processes i = some proc ∧ ∃ virt, (virt, b) ∈ proc.allocated}

/-- The memory behind capabilities. -/
def sharedMemory (k : Kernel) : Set Backing := {b | .sharedMemory b ∈ k.handlers}

/-- The rings of the input devices. -/
def rings (k : Kernel) : Set Backing := {k.devices.keyboardRing, k.devices.mouseRing}

/-- The pages of mappings that were loaded. -/
def loadedPages (k : Kernel) : Set Backing :=
  {b | ∃ mapping ∈ k.mappings, ∃ i, (i, b) ∈ mapping.backedPages}

/-- The memory that `Arc`s point to: of a process, behind a capability, or of a driver. -/
def counted (k : Kernel) : Set Backing :=
  k.allocatedMemory ∪ k.sharedMemory ∪ {k.devices.cursorImage, k.devices.framebuffer}

/-- The memory that stays for good. -/
def pinned (k : Kernel) : Set Backing := k.rings ∪ k.loadedPages

lemma OnlyMemory.counted (h : k.OnlyMemory k') : k'.counted = k.counted := by
  simp only [Kernel.counted, allocatedMemory, sharedMemory, h.processes, h.handlers, h.devices]

lemma OnlyMemory.pinned (h : k.OnlyMemory k') : k'.pinned = k.pinned := by
  simp only [Kernel.pinned, rings, loadedPages, h.mappings, h.devices]

/-- What is not held by anyone is none of the counted backings. -/
lemma ptr_ne_of_holds (hcount : ∀ i proc, k.processes i = some proc → i < processCount)
    (h : k.holds b = false) : ∀ c ∈ k.counted, c.ptr ≠ b.ptr := by
  simp only [holds, Bool.or_eq_false_iff, List.any_eq_false, List.mem_range,
    decide_eq_false_iff_not] at h
  obtain ⟨⟨⟨hprocesses, hhandlers⟩, hcursor⟩, hframebuffer⟩ := h
  rintro c ((⟨i, proc, hproc, virt, hentry⟩ | hhandler) | rfl | rfl)
  · have hnone := hprocesses i (hcount i proc hproc)
    rw [hproc] at hnone
    simp only [List.any_eq_true, decide_eq_true_eq, not_exists, not_and] at hnone
    exact hnone _ hentry
  · simpa using hhandlers _ hhandler
  · exact hcursor
  · exact hframebuffer

namespace HeapOk

/-- Nothing is wrong when less is needed. -/
lemma mono (h : k.HeapOk P S T) {S' T' : Set Backing} (hS : S' ⊆ S) (hT : T' ⊆ T) :
    k.HeapOk P S' T' := by
  obtain ⟨blocks, hblocks, hkept, hstart, hne⟩ := h
  exact ⟨blocks, hblocks, fun b hb => hkept b (Set.union_subset_union hS hT hb),
    fun b hb => hstart b (hT hb), fun b hb c hc => hne b (hS hb) c (hT hc)⟩

/-- What the containers ask for is not among what is needed. -/
lemma usesHeap (h : k.HeapOk P S T) (huses : k.UsesHeap k') : k'.HeapOk P S T := by
  obtain ⟨blocks, hblocks, h⟩ := h
  exact ⟨blocks, hblocks.usesHeap huses, h⟩

/-- New pages are needed from now on, either way. -/
lemma allocPages (h : k.HeapOk P S T) {layout : Layout} {contents : ℕ → UInt8}
    (halloc : k.allocPages layout contents = .ok (.ok b, k')) :
    k'.HeapOk P (insert b S) T ∧ (b.byteSize ≠ 0 → k'.HeapOk P S (insert b T)) := by
  obtain ⟨blocks, hblocks, hkept, hstart, hne⟩ := h
  obtain ⟨blocks', hblocks', hsub, hkept', hstart', hfresh⟩ := hblocks.allocPages halloc
  have hold : ∀ c ∈ S ∪ T, c.Kept P blocks' := fun c hc => (hkept c hc).mono hsub
  have hother : ∀ c : Backing, c.Kept P blocks → P.ram.start ≤ b.ptr → c.ptr ≠ b.ptr := by
    intro c hc hle
    cases hc with
    | dangling hsize hptr => omega
    | block granular hgranular hmem => exact hfresh _ hmem
  refine ⟨⟨blocks', hblocks', ?_, hstart, ?_⟩, fun hsize => ⟨blocks', hblocks', ?_, ?_, ?_⟩⟩
  · rintro c ((rfl | hc) | hc)
    · exact hkept'
    · exact hold c (Or.inl hc)
    · exact hold c (Or.inr hc)
  · rintro c (rfl | hc) d hd
    · -- a pinned backing has a block, which is older
      have hd' := hkept d (Or.inr hd)
      cases hd' with
      | dangling hsize hptr => exact absurd (hstart d hd) (Nat.not_le.mpr hptr)
      | block granular hgranular hmem => exact (hfresh _ hmem).symm
    · exact hne c hc d hd
  · rintro c (hc | rfl | hc)
    · exact hold c (Or.inl hc)
    · exact hkept'
    · exact hold c (Or.inr hc)
  · rintro c (rfl | hc)
    · exact hstart' hsize
    · exact hstart c hc
  · rintro c hc d (rfl | hd)
    · exact hother c (hkept c (Or.inl hc)) (hstart' hsize)
    · exact hne c hc d hd

lemma allocPages_error (h : k.HeapOk P S T) {layout : Layout} {contents : ℕ → UInt8}
    {e : AllocError} (halloc : k.allocPages layout contents = .ok (.error e, k')) :
    k'.HeapOk P S T := by
  obtain ⟨blocks, hblocks, h⟩ := h
  exact ⟨blocks, hblocks.allocPages_error halloc, h⟩

/-- Pages that nobody else needs can be freed. -/
lemma freePages (h : k.HeapOk P (insert b S) T) (hfree : k.freePages b = .ok k')
    (hne : ∀ c ∈ S, c.ptr ≠ b.ptr) : k'.HeapOk P S T := by
  obtain ⟨blocks, hblocks, hkept, hstart, hpinned⟩ := h
  obtain ⟨blocks', hblocks', hkeep⟩ :=
    hblocks.freePages (hkept b (Or.inl (Set.mem_insert b S))) hfree
  refine ⟨blocks', hblocks', ?_, hstart,
    fun c hc => hpinned c (Set.mem_insert_of_mem b hc)⟩
  rintro c (hc | hc)
  · exact hkeep c (hkept c (Or.inl (Set.mem_insert_of_mem b hc))) (hne c hc)
  · exact hkeep c (hkept c (Or.inr hc)) (hpinned b (Set.mem_insert b S) c hc).symm

/-- What is needed is memory of the heap, and it is not free. -/
lemma frames (h : k.HeapOk P S T) (hb : b ∈ S ∪ T) {p : ℕ} (hp : p ∈ b.frames) :
    p ∈ P.heapFrames ∧ p ∉ k.freeFrames P := by
  obtain ⟨blocks, hblocks, hkept, -⟩ := h
  exact hblocks.frames (hkept b hb) hp

/-- **An `Arc` is dropped.**  The memory goes with it only if it was the last one. -/
theorem dropBacking (h : k.HeapOk P (insert b (k.counted ∪ F)) k.pinned)
    (hcount : ∀ i proc, k.processes i = some proc → i < processCount)
    (hne : ∀ c ∈ F, c.ptr ≠ b.ptr) (hdrop : k.dropBacking b = .ok k') :
    k'.HeapOk P (k'.counted ∪ F) k'.pinned := by
  have honly := dropBacking_onlyMemory hdrop
  rw [honly.counted, honly.pinned]
  simp only [Kernel.dropBacking] at hdrop
  split at hdrop
  · cases hdrop
    exact h.mono (Set.subset_insert _ _) subset_rfl
  · next hholds =>
      refine h.freePages hdrop ?_
      rintro c (hc | hc)
      · exact ptr_ne_of_holds hcount (Bool.eq_false_iff.mpr hholds) c hc
      · exact hne c hc

/-- The `Arc`s of a list are dropped. -/
lemma dropAllocated {entries : List (ℕ × Backing)}
    (h : k.HeapOk P (k.counted ∪ {b | b ∈ entries.map Prod.snd}) k.pinned)
    (hcount : ∀ i proc, k.processes i = some proc → i < processCount)
    (hdrop : k.dropAllocated entries = .ok k') : k'.HeapOk P k'.counted k'.pinned := by
  induction entries generalizing k with
  | nil =>
      cases hdrop
      exact h.mono Set.subset_union_left subset_rfl
  | cons entry rest ih =>
      obtain ⟨k₁, hfirst, hdrop⟩ := Checked.bind_eq_ok.mp hdrop
      have hinsert : k.counted ∪ {b | b ∈ (entry :: rest).map Prod.snd} =
          insert entry.2 (k.counted ∪ {b | b ∈ rest.map Prod.snd}) := by
        ext b
        simp only [List.map_cons, List.mem_cons, Set.mem_union, Set.mem_ofPred_eq,
          Set.mem_insert_iff]
        tauto
      rw [hinsert] at h
      split at hfirst
      · cases hfirst
        exact ih (h.mono (Set.subset_insert _ _) subset_rfl) hcount hdrop
      · next hlast =>
          have honly := dropBacking_onlyMemory hfirst
          refine ih (h.dropBacking hcount ?_ hfirst) ?_ hdrop
          · intro c hc heq
            obtain ⟨other, hother, rfl⟩ := List.mem_map.mp hc
            exact hlast (List.any_eq_true.mpr ⟨other, hother, by simpa using heq⟩)
          · intro i proc hproc
            rw [honly.processes] at hproc
            exact hcount i proc hproc

end HeapOk

end Kernel

end Deravel
