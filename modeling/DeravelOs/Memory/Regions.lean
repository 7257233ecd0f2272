import DeravelOs.Kernel.Loading
import DeravelOs.Kernel.Panics
import DeravelOs.Memory.Space

/-!
# Regions of the heap of a process

A region of `USER_HEAP` is known in three places: it is a block of the buddy allocator, a range of
the page table, and, if the process can free it, an entry of the allocated list.  `Holdings.InStep`
says that the three agree about the live regions, and about everything else in `USER_HEAP` as well.
A region may also be a mapping whose pages are loaded one by one.

* `Holdings.InStep.add`, `Holdings.InStep.map`: a block that the allocator gives out is a region
  when it is mapped.
* `Holdings.InStep.unmap`: a region can be unmapped and given back to the allocator.
* `KeepsStep`: no panic that would show that the three disagree.
-/

namespace Deravel

open Failure PageTable

variable {P : Platform} {t t' : PageTable} {virt phys size v ptr : ℕ} {flags : PageFlags}
  {S : List Site}

/-! ## Panics -/

/-- The places at which the kernel panics when the heap of a process and its table disagree. -/
def outOfStep : List Site :=
  [.mapLeaf, .mapIndirect, .unwrapIndirect, .unmapLeaf, .buddyDealloc, .nodeDealloc]

/-- The panic is at another place. -/
def Panic.elsewhere (e : Panic) : Bool := e.place.all fun site => site ∉ outOfStep

/-- No panic is one of heap and table that disagree. -/
abbrev KeepsStep {α : Type} (x : Checked α) : Prop := OnlyFails x fun e => e.elsewhere = true

lemma PanicsAt.keepsStep {α : Type} {x : Checked α} (h : PanicsAt S x)
    (hS : ∀ site ∈ S, site ∉ outOfStep) : KeepsStep x := by
  refine OnlyFails.mono h fun e he => ?_
  simp only [Panic.within, Bool.and_eq_true, Option.all_eq_true, decide_eq_true_eq] at he
  simp only [Panic.elsewhere, Option.all_eq_true, decide_eq_true_eq]
  exact fun site hsite => hS site (he.2 site hsite)

namespace PageTable

lemma checkRange_keepsStep {site : Site} (hsite : site ∉ outOfStep) :
    KeepsStep (checkRange site virt phys size) :=
  (checkRange_panics (List.mem_singleton_self site)).keepsStep fun _ h =>
    List.mem_singleton.mp h ▸ hsite

/-- Where nothing is mapped, `map` finds nothing in its way. -/
lemma map_keepsStep (ht : Built t)
    (hvacant : RangeOk virt phys size → ∀ v ∈ Set.Ico virt (virt + size), walk 2 t v = none) :
    KeepsStep (t.map virt phys size flags) := by
  refine (checkRange_keepsStep (by decide)).bind fun _ hcheck => .of_ok ?_
  have hr := checkRange_eq_ok.mp hcheck
  obtain ⟨t', hmap, -⟩ := (@map_fills virt phys size flags hr t ht.wf).2 (hvacant hr)
  exact ⟨t', (map_eq hr).symm.trans hmap⟩

/-- What was mapped at once can be unmapped at once. -/
lemma unmap_ok (ht : Built t) (hr : RangeOk virt phys size)
    (hmapped : ∀ v ∈ Set.Ico virt (virt + size), walk 2 t v = some (leafAt virt phys size flags 2 v)) :
    ∃ t', t.unmap virt phys size = .ok t' ∧ rootView.Cleared virt (virt + size) t t' := by
  obtain ⟨t', hunmap⟩ := (unmap_clears hr t ht.wf).2 fun v hv => ⟨_, hmapped v hv, rfl, rfl⟩
  exact ⟨t', hunmap, (unmap_clears hr t ht.wf).1 t' hunmap⟩

end PageTable

/-! ## Regions -/

/-- Memory is mapped at once. -/
structure Backing.MappedAt (t : PageTable) (flags : PageFlags) (virt : ℕ) (b : Backing) : Prop where
  phys_eq : virtToPhys b.ptr = .ok (physOf b.ptr)
  range : RangeOk virt (physOf b.ptr) b.byteSize
  walk_eq : ∀ v ∈ Set.Ico virt (virt + b.byteSize),
    walk 2 t v = some (leafAt virt (physOf b.ptr) b.byteSize flags 2 v)

namespace Backing.MappedAt

variable {b : Backing}

lemma translate (h : b.MappedAt t flags virt) (hv : v ∈ Set.Ico virt (virt + b.byteSize)) :
    t.translate v = some (physOf b.ptr + (v - virt), flags) :=
  translate_leafAt h.range.aligned hv (h.walk_eq v hv)

/-- What is mapped elsewhere does not touch the memory. -/
lemma congr (h : b.MappedAt t flags virt)
    (hsame : ∀ v ∈ Set.Ico virt (virt + b.byteSize), walk 2 t' v = walk 2 t v) :
    b.MappedAt t' flags virt where
  phys_eq := h.phys_eq
  range := h.range
  walk_eq v hv := (hsame v hv).trans (h.walk_eq v hv)

end Backing.MappedAt

/-- What is behind a region: memory, which can be freed if it came from an allocation, or a mapping
of the kernel whose pages come when they are needed. -/
inductive Content
  | backing (b : Backing) (freeable : Bool)
  | paged (index size : ℕ)

namespace Content

def byteSize : Content → ℕ
  | backing b _ => b.byteSize
  | paged _ n => n

def freeable : Content → Bool
  | backing _ freeable => freeable
  | paged _ _ => false

lemma eq_backing {content : Content} (h : content.freeable = true) :
    ∃ b, content = backing b true := by
  cases content with
  | backing b freeable =>
      obtain rfl : freeable = true := h
      exact ⟨b, rfl⟩
  | paged _ _ => cases h

end Content

/-- A page of a mapping is there, or nothing is. -/
def VirtualMemoryMapping.PageOk (mapping : VirtualMemoryMapping) (t : PageTable) (virt i : ℕ) :
    Prop :=
  (∀ v ∈ Set.Ico (virt + pageSize * i) (virt + pageSize * i + pageSize), walk 2 t v = none) ∨
  ∃ b, (i, b) ∈ mapping.backedPages ∧ b.byteSize = pageSize ∧
    b.MappedAt t PageFlags.readonly.asUser (virt + pageSize * i)

/-- A part of `USER_HEAP` that a call gave to a process: where it starts, what the heap was asked
for, and what is behind it. -/
structure Region where
  ptr : ℕ
  layout : Layout
  content : Content

namespace Region

variable {r r' : Region} {mappings mappings' : List VirtualMemoryMapping}

def addresses (r : Region) : Set ℕ := Set.Ico r.ptr (r.ptr + r.content.byteSize)

/-- The allocation on the heap. -/
def live (r : Region) : Live := ⟨r.ptr, r.layout⟩

/-- The entry on the allocated list. -/
def entry (r : Region) : Option (ℕ × Backing) :=
  match r.content with
  | .backing b true => some (r.ptr, b)
  | _ => none

/-- The heap was asked for the whole pages that are behind the region. -/
structure Whole (r : Region) : Prop where
  size_dvd : pageSize ∣ r.content.byteSize
  size_le : r.content.byteSize ≤ r.layout.reqSize
  page_le : pageSize ≤ r.layout.reqSize
  layout_eq : ∀ b, r.content = .backing b true → 0 < b.byteSize ∧ r.layout = b.layout

/-- The table has what is behind the region, or the pages of it that have been needed. -/
def Mapped (mappings : List VirtualMemoryMapping) (t : PageTable) (r : Region) : Prop :=
  match r.content with
  | .backing b _ => b.MappedAt t PageFlags.readWrite.asUser r.ptr
  | .paged index size => ∃ mapping, mappings[index]? = some mapping ∧ mapping.size = size ∧
      r.ptr + size ≤ virtualAddresses.stop ∧
      ∀ i, pageSize * i < size → mapping.PageOk t r.ptr i

/-- Mappings get pages, and do not lose any. -/
def Extends (mappings mappings' : List VirtualMemoryMapping) : Prop :=
  ∀ (index : ℕ) mapping, mappings[index]? = some mapping → ∃ mapping',
    mappings'[index]? = some mapping' ∧ mapping'.size = mapping.size ∧
      mapping.backedPages ⊆ mapping'.backedPages

lemma Mapped.of_backing {b : Backing} {freeable : Bool} (h : r.Mapped mappings t)
    (hcontent : r.content = .backing b freeable) :
    b.MappedAt t PageFlags.readWrite.asUser r.ptr := by
  rw [Mapped, hcontent] at h
  exact h

/-- A page of a region does not reach beyond it. -/
lemma page_subset (hdvd : pageSize ∣ r.content.byteSize) {i : ℕ} (hi : pageSize * i < r.content.byteSize) :
    Set.Ico (r.ptr + pageSize * i) (r.ptr + pageSize * i + pageSize) ⊆ r.addresses := by
  obtain ⟨n, hn⟩ := hdvd
  rw [hn] at hi
  have hlast : pageSize * (i + 1) ≤ pageSize * n :=
    Nat.mul_le_mul_left _ (Nat.lt_of_mul_lt_mul_left hi)
  intro v hv
  rw [Nat.mul_add_one] at hlast
  have h1 := hv.1
  have h2 := hv.2
  rw [addresses, hn]
  constructor <;> omega

/-- What is mapped elsewhere does not touch the region. -/
lemma Mapped.congr (h : r.Mapped mappings t) (hdvd : pageSize ∣ r.content.byteSize)
    (hsame : ∀ v ∈ r.addresses, walk 2 t' v = walk 2 t v) : r.Mapped mappings t' := by
  cases hcontent : r.content with
  | backing b freeable =>
      rw [Mapped, hcontent]
      refine (h.of_backing hcontent).congr fun v hv => hsame v ?_
      rwa [addresses, hcontent]
  | paged index size =>
      have hpage : ∀ {i}, pageSize * i < size →
          ∀ v ∈ Set.Ico (r.ptr + pageSize * i) (r.ptr + pageSize * i + pageSize),
            walk 2 t' v = walk 2 t v := fun hi v hv =>
        hsame v (r.page_subset hdvd (by rwa [hcontent]) hv)
      simp only [Mapped, hcontent] at h ⊢
      obtain ⟨mapping, hmapping, hsize, hstop, hpages⟩ := h
      refine ⟨mapping, hmapping, hsize, hstop, fun i hi => ?_⟩
      rcases hpages i hi with hnone | ⟨b, hb, hb_size, hmapped⟩
      · exact Or.inl fun v hv => (hpage hi v hv).trans (hnone v hv)
      · refine Or.inr ⟨b, hb, hb_size, hmapped.congr fun v hv => hpage hi v ?_⟩
        rwa [hb_size] at hv

lemma Mapped.extend (h : r.Mapped mappings t) (hext : Extends mappings mappings') :
    r.Mapped mappings' t := by
  cases hcontent : r.content with
  | backing b freeable =>
      rw [Mapped, hcontent]
      exact h.of_backing hcontent
  | paged index size =>
      simp only [Mapped, hcontent] at h ⊢
      obtain ⟨mapping, hmapping, hsize, hstop, hpages⟩ := h
      obtain ⟨mapping', hmapping', hsize', hsub⟩ := hext index mapping hmapping
      refine ⟨mapping', hmapping', hsize'.trans hsize, hstop, fun i hi => (hpages i hi).imp_right ?_⟩
      rintro ⟨b, hb, hmapped⟩
      exact ⟨b, hsub hb, hmapped⟩

/-- Pages have blocks of whole pages. -/
lemma Whole.pageSize_dvd_blockSize (h : r.Whole) : pageSize ∣ r.layout.blockSize := by
  have hpage : pageSize = 2 ^ 12 := rfl
  have hle : pageSize ≤ r.layout.blockSize := h.page_le.trans r.layout.reqSize_le_blockSize
  rw [Layout.blockSize, hpage] at hle ⊢
  exact pow_dvd_pow 2 ((Nat.pow_le_pow_iff_right (by decide)).mp hle)

lemma Whole.subset_block (h : r.Whole) : r.addresses ⊆ r.live.block := by
  refine subset_trans ?_ r.live.addresses_subset_block
  exact Set.Ico_subset_Ico_right (Nat.add_le_add_left h.size_le _)

/-- The block of a region is a region of `USER_HEAP`. -/
lemma Whole.placed (h : r.Whole) {heap : BuddyAllocator} {blocks : List Live}
    (hheap : RunInv userHeap [] heap blocks) (hmem : r.live ∈ blocks) :
    pageSize ∣ r.ptr ∧ r.addresses ⊆ userHeap.addresses ∧ r.ptr ∈ userHeap.addresses := by
  have hok := hheap.liveOk hmem
  refine ⟨?_, ?_, hok.inside ⟨le_rfl, Nat.lt_add_of_pos_right r.layout.reqSize_pos⟩⟩
  · have hdvd : pageSize ∣ r.ptr - userHeap.start := h.pageSize_dvd_blockSize.trans hok.aligned
    have hstart : userHeap.start ≤ r.ptr := hok.start_le
    have hsum := dvd_add (show pageSize ∣ userHeap.start by decide) hdvd
    rwa [Nat.add_sub_cancel' hstart] at hsum
  · refine subset_trans ?_ hok.inside
    exact Set.Ico_subset_Ico_right (Nat.add_le_add_left h.size_le _)

lemma Whole.stop_le (h : r.Whole) {heap : BuddyAllocator} {blocks : List Live}
    (hheap : RunInv userHeap [] heap blocks) (hmem : r.live ∈ blocks) :
    r.ptr + r.content.byteSize ≤ userHeap.stop := by
  have hpos := r.layout.reqSize_pos
  have hlast : r.ptr + r.layout.reqSize - 1 ∈ r.live.addresses := by
    show r.ptr ≤ _ ∧ _ < r.ptr + r.layout.reqSize
    omega
  have hlt : r.ptr + r.layout.reqSize - 1 < userHeap.stop := ((hheap.liveOk hmem).inside hlast).2
  have hle := h.size_le
  omega

/-- Different blocks are different regions. -/
lemma disjoint_of_block (h : r.Whole) (h' : r'.Whole)
    (hdisjoint : Disjoint r.live.block r'.live.block) : Disjoint r.addresses r'.addresses :=
  hdisjoint.mono h.subset_block h'.subset_block

end Region

/-! ## Holdings -/

/-- What the calls of a process on its heap work on. -/
structure Holdings where
  heap : BuddyAllocator
  pageTable : PageTable
  allocated : List (ℕ × Backing)
  virtualMemoryMappings : List (AddressRange × ℕ)

def Process.holdings (proc : Process) : Holdings :=
  ⟨proc.heap, proc.pageTable, proc.allocated, proc.virtualMemoryMappings⟩

/-- The entries of the allocated list that are in `USER_HEAP`. -/
def heapEntries (allocated : List (ℕ × Backing)) : List (ℕ × Backing) :=
  allocated.filter fun entry => userHeap.start ≤ entry.1 ∧ entry.1 < userHeap.stop

/-- Heap, page table, allocated list and mappings agree about the live regions, and `USER_HEAP` is
empty elsewhere. -/
structure Holdings.InStep (mappings : List VirtualMemoryMapping) (s : Holdings)
    (regions : List Region) : Prop where
  built : Built s.pageTable
  heap : RunInv userHeap [] s.heap (regions.map Region.live)
  whole : ∀ r ∈ regions, r.Whole
  mapped : ∀ r ∈ regions, r.Mapped mappings s.pageTable
  vacant : ∀ v ∈ userHeap.addresses, (∀ r ∈ regions, v ∉ r.addresses) →
    walk 2 s.pageTable v = none
  entries : (heapEntries s.allocated).Perm (regions.filterMap Region.entry)
  below : ∀ entry ∈ s.allocated, entry.1 < userHeap.stop
  windows : ∀ range index, (range, index) ∈ s.virtualMemoryMappings → ∃ r ∈ regions, ∃ size,
    r.content = .paged index size ∧ range = ⟨r.ptr, r.ptr + size⟩

namespace Holdings.InStep

variable {s : Holdings} {regions before after : List Region} {r : Region}
  {mappings mappings' : List VirtualMemoryMapping}

lemma extend (h : s.InStep mappings regions) (hext : Region.Extends mappings mappings') :
    s.InStep mappings' regions :=
  { h with mapped := fun r hr => (h.mapped r hr).extend hext }

/-- The regions are disjoint. -/
lemma disjoint (h : s.InStep mappings regions) :
    regions.Pairwise fun r r' => Disjoint r.addresses r'.addresses := by
  have hblocks := List.pairwise_map.mp h.heap.disjoint
  refine hblocks.imp_of_mem fun {r r'} hr hr' hdisjoint => ?_
  exact Region.disjoint_of_block (h.whole r hr) (h.whole r' hr') hdisjoint

lemma placed (h : s.InStep mappings regions) (hr : r ∈ regions) :
    pageSize ∣ r.ptr ∧ r.addresses ⊆ userHeap.addresses ∧ r.ptr ∈ userHeap.addresses :=
  (h.whole r hr).placed h.heap (List.mem_map_of_mem hr)

/-- Regions that start at the same address are the same. -/
lemma eq_of_ptr (h : s.InStep mappings regions) {r' : Region} (hr : r ∈ regions)
    (hr' : r' ∈ regions) (hptr : r.ptr = r'.ptr) : r = r' := by
  have hdistinct := List.pairwise_map.mp h.heap.distinct
  have hsymm : Std.Symm fun r r' : Region => r.live.ptr ≠ r'.live.ptr := ⟨fun _ _ => Ne.symm⟩
  by_contra hne
  exact hdistinct.forall hr hr' hne hptr

/-- **The translations in `USER_HEAP` are those of the live regions.** -/
theorem translate_iff (h : s.InStep mappings regions)
    (hbacked : ∀ r ∈ regions, ∃ b freeable, r.content = .backing b freeable)
    (hv : v ∈ userHeap.addresses) {phys : ℕ} :
    (∃ flags : PageFlags, flags.user = true ∧ s.pageTable.translate v = some (phys, flags)) ↔
      ∃ r ∈ regions, v ∈ r.addresses ∧ ∃ b freeable, r.content = .backing b freeable ∧
        phys = physOf b.ptr + (v - r.ptr) := by
  have htranslate : ∀ r ∈ regions, ∀ b freeable, r.content = .backing b freeable →
      v ∈ r.addresses → s.pageTable.translate v =
        some (physOf b.ptr + (v - r.ptr), PageFlags.readWrite.asUser) := by
    intro r hr b freeable hcontent hmem
    rw [Region.addresses, hcontent] at hmem
    exact ((h.mapped r hr).of_backing hcontent).translate hmem
  constructor
  · rintro ⟨flags, -, hphys⟩
    by_cases hregion : ∃ r ∈ regions, v ∈ r.addresses
    · obtain ⟨r, hr, hmem⟩ := hregion
      obtain ⟨b, freeable, hcontent⟩ := hbacked r hr
      rw [htranslate r hr b freeable hcontent hmem] at hphys
      exact ⟨r, hr, hmem, b, freeable, hcontent, (congrArg Prod.fst (Option.some.inj hphys)).symm⟩
    · push Not at hregion
      rw [translate_eq_none.mpr (h.vacant v hv hregion)] at hphys
      cases hphys
  · rintro ⟨r, hr, hmem, b, freeable, hcontent, rfl⟩
    exact ⟨_, rfl, htranslate r hr b freeable hcontent hmem⟩

/-! ## Allocation -/

/-- A block that the heap gives out. -/
lemma alloc_block (h : s.InStep mappings regions) {heap : BuddyAllocator}
    (halloc : s.heap.alloc r.layout = .ok (.ok r.ptr, heap)) :
    RunInv userHeap [] heap ((r :: regions).map Region.live) := h.heap.alloc_ok halloc

/-- A block that the heap gives out is away from all regions. -/
lemma alloc_disjoint (h : s.InStep mappings regions) (hwhole : r.Whole) {heap : BuddyAllocator}
    (halloc : s.heap.alloc r.layout = .ok (.ok r.ptr, heap)) :
    ∀ r' ∈ regions, Disjoint r.addresses r'.addresses := by
  intro r' hr'
  have hblocks := List.pairwise_map.mp (h.alloc_block halloc).disjoint
  have hdisjoint := (List.pairwise_cons.mp hblocks).1 r' hr'
  exact Region.disjoint_of_block hwhole (h.whole r' hr') hdisjoint

/-- Nothing is mapped yet where the heap gives out a block. -/
lemma alloc_vacant (h : s.InStep mappings regions) (hwhole : r.Whole) {heap : BuddyAllocator}
    (halloc : s.heap.alloc r.layout = .ok (.ok r.ptr, heap)) :
    ∀ v ∈ r.addresses, walk 2 s.pageTable v = none := by
  intro v hv
  have hplaced := hwhole.placed (h.alloc_block halloc) List.mem_cons_self
  refine h.vacant v (hplaced.2.1 hv) fun r' hr' hv' => ?_
  exact Set.disjoint_left.mp (h.alloc_disjoint hwhole halloc r' hr') hv hv'

/-- **A block becomes a region.**  The table may change where the block is, and then has what the
region says. -/
theorem add (h : s.InStep mappings regions) (hwhole : r.Whole) {heap : BuddyAllocator}
    {t : PageTable} {allocated : List (ℕ × Backing)} {windows : List (AddressRange × ℕ)}
    (halloc : s.heap.alloc r.layout = .ok (.ok r.ptr, heap)) (hbuilt : Built t)
    (hmapped : r.Mapped mappings t)
    (hframe : ∀ v < virtualAddresses.stop, v ∉ r.addresses → walk 2 t v = walk 2 s.pageTable v)
    (hallocated : allocated = s.allocated ++ r.entry.toList)
    (hwindows : ∀ range index, (range, index) ∈ windows →
      (range, index) ∈ s.virtualMemoryMappings ∨
        ∃ size, r.content = .paged index size ∧ range = ⟨r.ptr, r.ptr + size⟩) :
    Holdings.InStep mappings ⟨heap, t, allocated, windows⟩ (r :: regions) := by
  have hdisjoint := h.alloc_disjoint hwhole halloc
  have hplaced := hwhole.placed (h.alloc_block halloc) List.mem_cons_self
  have hbelow : ∀ r' ∈ regions, ∀ v ∈ r'.addresses, v < virtualAddresses.stop := fun r' hr' v hv =>
    lt_of_lt_of_le ((h.placed hr').2.1 hv).2 (by decide)
  have hentry_ptr : ∀ entry, r.entry = some entry → entry.1 = r.ptr := by
    intro entry hentry
    simp only [Region.entry] at hentry
    split at hentry
    · rw [← Option.some.inj hentry]
    · cases hentry
  refine ⟨hbuilt, h.alloc_block halloc, ?_, ?_, fun v hv hout => ?_, ?_, ?_, ?_⟩
  · exact List.forall_mem_cons.mpr ⟨hwhole, h.whole⟩
  · refine List.forall_mem_cons.mpr ⟨hmapped, fun r' hr' => ?_⟩
    refine (h.mapped r' hr').congr (h.whole r' hr').size_dvd fun v hv =>
      hframe v (hbelow r' hr' v hv) ?_
    exact fun hmem => Set.disjoint_left.mp (hdisjoint r' hr') hmem hv
  · obtain ⟨hself, hothers⟩ := List.forall_mem_cons.mp hout
    rw [hframe v (lt_of_lt_of_le hv.2 (by decide)) hself]
    exact h.vacant v hv hothers
  · subst hallocated
    cases hentry : r.entry with
    | none => simpa [hentry] using h.entries
    | some entry =>
        have hin : userHeap.start ≤ entry.1 ∧ entry.1 < userHeap.stop := by
          rw [hentry_ptr entry hentry]
          exact hplaced.2.2
        have hentries : heapEntries (s.allocated ++ [entry]) = heapEntries s.allocated ++ [entry] := by
          rw [heapEntries, List.filter_append, ← heapEntries]
          simp [hin.1, hin.2]
        simp only [Option.toList_some, hentries, List.filterMap_cons, hentry]
        exact (List.perm_append_singleton _ _).trans (h.entries.cons _)
  · intro entry hmem
    rw [hallocated] at hmem
    rcases List.mem_append.mp hmem with hmem | hmem
    · exact h.below entry hmem
    · rw [hentry_ptr entry (Option.mem_toList.mp hmem)]
      exact hplaced.2.2.2
  · intro range index hmem
    rcases hwindows range index hmem with hmem | ⟨size, hcontent, hrange⟩
    · obtain ⟨r', hr', hrest⟩ := h.windows range index hmem
      exact ⟨r', List.mem_cons_of_mem _ hr', hrest⟩
    · exact ⟨r, List.mem_cons_self, size, hcontent, hrange⟩

/-- **A block is mapped.**  It is a region from then on. -/
theorem map (h : s.InStep mappings regions) (hwhole : r.Whole) {b : Backing} {freeable : Bool}
    (hcontent : r.content = .backing b freeable) {heap : BuddyAllocator} {t : PageTable}
    (halloc : s.heap.alloc r.layout = .ok (.ok r.ptr, heap))
    (hphys : virtToPhys b.ptr = .ok phys)
    (hmap : s.pageTable.map r.ptr phys b.byteSize PageFlags.readWrite.asUser = .ok t) :
    Holdings.InStep mappings ⟨heap, t, s.allocated ++ r.entry.toList, s.virtualMemoryMappings⟩
      (r :: regions) := by
  obtain rfl := virtToPhys_eq hphys
  obtain ⟨hrange, -, hfilled⟩ := map_eq_ok h.built.wf hmap
  have haddresses : r.addresses = Set.Ico r.ptr (r.ptr + b.byteSize) := by
    rw [Region.addresses, hcontent]
    rfl
  refine h.add hwhole halloc (.map h.built hmap) ?_ (fun v hv hout => ?_) rfl
    fun range index hmem => Or.inl hmem
  · simp only [Region.Mapped, hcontent]
    exact ⟨hphys, hrange, hfilled.inside⟩
  · rw [haddresses] at hout
    exact hfilled.frame v (mem_rootView.mpr hv) hout

/-- `map` does not find anything in the way of a block. -/
lemma map_keepsStep (h : s.InStep mappings regions) (hwhole : r.Whole) {heap : BuddyAllocator}
    (halloc : s.heap.alloc r.layout = .ok (.ok r.ptr, heap)) :
    KeepsStep (s.pageTable.map r.ptr phys r.content.byteSize flags) :=
  PageTable.map_keepsStep h.built fun _ => h.alloc_vacant hwhole halloc

/-- A block that there is no room for changes nothing. -/
lemma alloc_error (h : s.InStep mappings regions) {layout : Layout} {e : AllocError}
    {heap : BuddyAllocator} (halloc : s.heap.alloc layout = .ok (.error e, heap)) :
    heap = s.heap := h.heap.alloc_error halloc

/-! ## Release -/

lemma entry_eq_some {entry : ℕ × Backing} :
    r.entry = some entry ↔ entry.1 = r.ptr ∧ r.content = .backing entry.2 true := by
  simp only [Region.entry]
  split
  · next b hcontent =>
      rw [hcontent, Option.some.injEq, Content.backing.injEq]
      constructor
      · rintro rfl
        exact ⟨rfl, rfl, rfl⟩
      · rintro ⟨hptr, rfl, -⟩
        rw [← hptr]
  · next hother =>
      constructor
      · intro h
        cases h
      · intro h
        exact absurd h.2 (hother entry.2)

/-- An entry in `USER_HEAP` is that of a region. -/
lemma exists_region (h : s.InStep mappings regions) {entry : ℕ × Backing}
    (hmem : entry ∈ s.allocated) (hin : entry.1 ∈ userHeap.addresses) :
    ∃ r ∈ regions, entry.1 = r.ptr ∧ r.content = .backing entry.2 true := by
  have hregion : entry ∈ regions.filterMap Region.entry := by
    refine h.entries.mem_iff.mp (List.mem_filter.mpr ⟨hmem, ?_⟩)
    simpa using hin
  obtain ⟨r, hr, hentry⟩ := List.mem_filterMap.mp hregion
  exact ⟨r, hr, entry_eq_some.mp hentry⟩

/-- The entry of a region is on the allocated list. -/
lemma entry_mem (h : s.InStep mappings regions) (hr : r ∈ regions) {b : Backing}
    (hcontent : r.content = .backing b true) : (r.ptr, b) ∈ s.allocated := by
  have hentry : r.entry = some (r.ptr, b) := entry_eq_some.mpr ⟨rfl, hcontent⟩
  have hin := h.entries.mem_iff.mpr (List.mem_filterMap.mpr ⟨r, hr, hentry⟩)
  exact (List.mem_filter.mp hin).1

/-- **A region is given back.**  Table and heap have it as the allocated list has it. -/
theorem unmap (h : s.InStep mappings (before ++ r :: after)) {b : Backing}
    (hcontent : r.content = .backing b true) :
    virtToPhys b.ptr = .ok (physOf b.ptr) ∧
    ∃ t heap, s.pageTable.unmap r.ptr (physOf b.ptr) b.byteSize = .ok t ∧
      s.heap.dealloc r.ptr b.layout = .ok heap ∧
      ∀ allocated, s.allocated.Perm ((r.ptr, b) :: allocated) →
        Holdings.InStep mappings ⟨heap, t, allocated, s.virtualMemoryMappings⟩
          (before ++ after) := by
  have hr : r ∈ before ++ r :: after := List.mem_append_right _ List.mem_cons_self
  have hsub : ∀ r' ∈ before ++ after, r' ∈ before ++ r :: after := by
    intro r' hr'
    simp only [List.mem_append, List.mem_cons] at hr' ⊢
    tauto
  have hmapped := (h.mapped r hr).of_backing hcontent
  obtain ⟨t, hunmap, hcleared⟩ := unmap_ok h.built hmapped.range hmapped.walk_eq
  have hheap := h.heap
  rw [List.map_append, List.map_cons] at hheap
  obtain ⟨heap, hdealloc, hafter⟩ := hheap.dealloc_ok
  have haddresses : r.addresses = Set.Ico r.ptr (r.ptr + b.byteSize) := by
    rw [Region.addresses, hcontent]
    rfl
  have hdisjoint : ∀ r' ∈ before ++ after, Disjoint r'.addresses r.addresses := by
    have hmiddle : List.Perm (before ++ r :: after) (r :: (before ++ after)) := List.perm_middle
    have hperm := hmiddle.pairwise_iff
      fun {x y : Region} (hxy : Disjoint x.addresses y.addresses) => hxy.symm
    exact fun r' hr' => ((List.pairwise_cons.mp (hperm.mp h.disjoint)).1 r' hr').symm
  have hframe : ∀ v < virtualAddresses.stop, v ∉ r.addresses →
      walk 2 t v = walk 2 s.pageTable v := by
    intro v hv hout
    rw [haddresses] at hout
    exact hcleared.frame v (mem_rootView.mpr hv) hout
  refine ⟨hmapped.phys_eq, t, heap, hunmap,
    ((h.whole r hr).layout_eq b hcontent).2 ▸ hdealloc, fun allocated hallocated => ?_⟩
  refine ⟨.unmap h.built hunmap, by rwa [List.map_append], fun r' hr' => h.whole r' (hsub r' hr'),
    fun r' hr' => ?_, fun v hv hout => ?_, ?_, fun entry hmem => ?_, ?_⟩
  · have hwhole' := h.whole r' (hsub r' hr')
    have hplaced' := (h.placed (hsub r' hr')).2.1
    refine (h.mapped r' (hsub r' hr')).congr hwhole'.size_dvd fun v hv =>
      hframe v (lt_of_lt_of_le (hplaced' hv).2 (by decide)) ?_
    exact Set.disjoint_left.mp (hdisjoint r' hr') hv
  · by_cases hself : v ∈ r.addresses
    · rw [haddresses] at hself
      exact hcleared.inside v hself
    · rw [hframe v (lt_of_lt_of_le hv.2 (by decide)) hself]
      refine h.vacant v hv fun r' hr' => ?_
      rcases List.mem_append.mp hr' with hr' | hr'
      · exact hout r' (List.mem_append_left _ hr')
      · rcases List.mem_cons.mp hr' with rfl | hr'
        · exact hself
        · exact hout r' (List.mem_append_right _ hr')
  · have hentry : r.entry = some (r.ptr, b) := entry_eq_some.mpr ⟨rfl, hcontent⟩
    have hin : userHeap.start ≤ r.ptr ∧ r.ptr < userHeap.stop := (h.placed hr).2.2
    have hentries : (heapEntries s.allocated).Perm ((r.ptr, b) :: heapEntries allocated) := by
      refine (hallocated.filter _).trans ?_
      rw [List.filter_cons, if_pos (decide_eq_true hin)]
      exact .refl _
    have hregions := h.entries
    rw [List.filterMap_append, List.filterMap_cons, hentry] at hregions
    rw [List.filterMap_append]
    exact List.Perm.cons_inv (hentries.symm.trans (hregions.trans List.perm_middle))
  · exact h.below entry (hallocated.mem_iff.mpr (List.mem_cons_of_mem _ hmem))
  · intro range index hmem
    obtain ⟨r', hr', size, hcontent', hrange⟩ := h.windows range index hmem
    rcases List.mem_append.mp hr' with hr' | hr'
    · exact ⟨r', List.mem_append_left _ hr', size, hcontent', hrange⟩
    · rcases List.mem_cons.mp hr' with rfl | hr'
      · rw [hcontent] at hcontent'
        cases hcontent'
      · exact ⟨r', List.mem_append_right _ hr', size, hcontent', hrange⟩

end Holdings.InStep

/-! ## New processes -/

/-- Nothing that a process has is in `USER_HEAP`. -/
structure Holdings.Untouched (s : Holdings) : Prop where
  built : Built s.pageTable
  vacant : ∀ v ∈ userHeap.addresses, walk 2 s.pageTable v = none
  below : ∀ entry ∈ s.allocated, entry.1 < userHeap.start
  windows : s.virtualMemoryMappings = []

namespace Holdings.Untouched

variable {s : Holdings} {entries : List (ℕ × Backing)}

/-- What is mapped elsewhere does not touch `USER_HEAP`. -/
lemma map (h : s.Untouched) (hmap : s.pageTable.map virt phys size flags = .ok t)
    (hout : virt + size ≤ userHeap.start ∨ userHeap.stop ≤ virt) :
    Holdings.Untouched { s with pageTable := t } where
  built := .map h.built hmap
  vacant v hv := by
    obtain ⟨-, -, hfilled⟩ := map_eq_ok h.built.wf hmap
    have hframe : walk 2 t v = walk 2 s.pageTable v := by
      refine hfilled.frame v (mem_rootView.mpr (lt_of_lt_of_le hv.2 (by decide))) fun hmem => ?_
      have h1 : virt ≤ v := hmem.1
      have h2 : v < virt + size := hmem.2
      have h3 : userHeap.start ≤ v := hv.1
      have h4 : v < userHeap.stop := hv.2
      omega
    exact hframe.trans (h.vacant v hv)
  below := h.below
  windows := h.windows

/-- The steps of `create_process` stay below `USER_HEAP`. -/
lemma step {elf : Elf} {s s' : Kernel × Process} (h : s.2.holdings.Untouched)
    (hstep : LoadStep elf s s') : s'.2.holdings.Untouched ∧ s'.2.heap = s.2.heap := by
  have hbelow : userElf.stop < userHeap.start := by decide
  cases hstep with
  | @pages k k' proc proc' virt layout contents b flags hpages hstop halloc =>
      obtain ⟨phys, -, halloc⟩ := Checked.bind_eq_ok.mp halloc
      obtain ⟨table, hmap, halloc⟩ := Checked.bind_eq_ok.mp halloc
      cases halloc
      have hsize : b.layout = layout :=
        (Kernel.allocPages_eq_ok (Kernel.newPages_eq_ok.mp hpages)).1
      have hmapped := h.map hmap (Or.inl (hsize ▸ hstop.trans hbelow.le))
      refine ⟨⟨hmapped.built, hmapped.vacant, ?_, hmapped.windows⟩, rfl⟩
      intro entry hmem
      rcases List.mem_append.mp hmem with hmem | hmem
      · exact h.below entry hmem
      · rw [List.mem_singleton.mp hmem]
        exact lt_of_le_of_lt ((Nat.le_add_right _ _).trans hstop) hbelow
  | image _ hstop _ _ hmap => exact ⟨h.map hmap (Or.inl (hstop.trans hbelow.le)), rfl⟩
  | entry pc => exact ⟨h, rfl⟩
  | heap _ => exact ⟨h, rfl⟩

lemma loads {elf : Elf} {s s' : Kernel × Process} (hloads : Loads elf s s')
    (h : s.2.holdings.Untouched) : s'.2.holdings.Untouched ∧ s'.2.heap = s.2.heap :=
  Loads.induct (I := fun s' => s'.2.holdings.Untouched ∧ s'.2.heap = s.2.heap) hloads
    (fun _ _ hs hstep => ⟨(hs.1.step hstep).1, (hs.1.step hstep).2.trans hs.2⟩) ⟨h, rfl⟩

/-- The certificates are mapped below `USER_HEAP`. -/
lemma mapCapabilityMemory (h : s.Untouched) {id : ProcessId}
    (hmap : Deravel.mapCapabilityMemory P s.pageTable id = .ok t) :
    Holdings.Untouched { s with pageTable := t } := by
  obtain ⟨preP, -, hmap⟩ := Checked.bind_eq_ok.mp hmap
  obtain ⟨others, hothers, hmap⟩ := Checked.bind_eq_ok.mp hmap
  obtain ⟨sufL, hsufL, hmap⟩ := Checked.bind_eq_ok.mp hmap
  obtain ⟨t₁, hpre, hmap⟩ := Checked.bind_eq_ok.mp hmap
  obtain ⟨t₂, hown, hsuf⟩ := Checked.bind_eq_ok.mp hmap
  have hlast : userCapabilities.start + processCount * pageSize ≤ userHeap.start := by decide
  obtain ⟨hid, rfl⟩ := usizeSub_eq_ok hothers
  obtain ⟨hone, rfl⟩ := usizeSub_eq_ok hsufL
  have hsum : id.asU16 * pageSize + pageSize + (processCount - id.asU16 - 1) * pageSize =
      processCount * pageSize := by
    rw [← add_one_mul, ← add_mul, Nat.sub_sub, Nat.add_sub_cancel' (by omega)]
  have h₁ := h.map hpre (Or.inl (by omega))
  have h₂ := h₁.map hown (Or.inl (by omega))
  exact h₂.map hsuf (Or.inl (by omega))

/-- With a new heap the three agree that there is nothing. -/
lemma inStep (h : s.Untouched) (hheap : BuddyAllocator.new userHeap = .ok s.heap)
    (mappings : List VirtualMemoryMapping) : s.InStep mappings [] where
  built := h.built
  heap := by
    have hboot : BuddyAllocator.boot userHeap [] = .ok s.heap := by
      rw [BuddyAllocator.boot, hheap]
      rfl
    exact (BuddyRun.boot hboot).inv (by decide) ⟨by simp, by simp, .nil⟩
  whole := by simp
  mapped := by simp
  vacant v hv _ := h.vacant v hv
  entries := by
    have hnone : heapEntries s.allocated = [] :=
      List.filter_eq_nil_iff.mpr fun entry hmem hin =>
        absurd (of_decide_eq_true hin).1 (not_le.mpr (h.below entry hmem))
    rw [hnone, List.filterMap_nil]
  below entry hmem := (h.below entry hmem).trans (by decide)
  windows := by simp [h.windows]

end Holdings.Untouched

/-- **A new process has nothing in `USER_HEAP`.** -/
theorem createProcess_inStep {k k' : Kernel} {elf : Elf} {id : ProcessId}
    {args : List RawCapability} (h : createProcess P k elf id args = .ok k') :
    ∃ proc, k'.process? id = some proc ∧ proc.virtualMemoryMappings = [] ∧
      ∀ mappings, proc.holdings.InStep mappings [] := by
  obtain ⟨heap, direct, k₁, proc₁, table, k₂, proc₂, hheap, hdirect, hload, hcapabilities, hrest, -,
    rfl⟩ := createProcess_cases h
  have hempty : Holdings.Untouched ⟨heap, .new, [], []⟩ :=
    ⟨.new, fun v _ => walk_of_unmapped (fun _ => rfl) v, by simp, rfl⟩
  have hbare : Holdings.Untouched ⟨heap, direct, [], []⟩ := hempty.map hdirect (Or.inr le_rfl)
  have hfresh : Process.Fresh id { Process.bare id elf.name heap with pageTable := direct } :=
    ⟨rfl, rfl, rfl, rfl⟩
  obtain ⟨h₁, hheap₁⟩ := Holdings.Untouched.loads hload hbare
  have hmapped := h₁.mapCapabilityMemory hcapabilities
  obtain ⟨h₂, hheap₂⟩ := Holdings.Untouched.loads hrest hmapped
  have hid₁ := (hload.fresh hfresh).2
  have hfresh₁ : Process.Fresh id { proc₁ with pageTable := table } :=
    ⟨hid₁.id, hid₁.state, hid₁.messages, hid₁.currentlyServing⟩
  have hid₂ : proc₂.id = id := (hrest.fresh hfresh₁).2.id
  refine ⟨proc₂, ?_, h₂.windows, h₂.inStep ?_⟩
  · rw [Kernel.process?_setProcess, if_pos hid₂.symm]
  · have hsame : proc₂.holdings.heap = heap := hheap₂.trans hheap₁
    rw [hsame, hheap]

end Deravel
