import DeravelOs.Kernel.Turns
import DeravelOs.Memory.Regions

/-!
# What calls do with the regions of a process

The functions of the kernel that change the address space of a process, each with what it does to
the live regions.

* `Holdings.InStep.alloc`, `Holdings.InStep.dealloc`: memory of the process itself.
* `Holdings.InStep.share`: memory and mappings that others have as well.
* `Holdings.InStep.load`: a page of a mapping is loaded.
-/

namespace Deravel

open Failure PageTable

variable {P : Platform} {k k' k₁ : Kernel} {proc proc' : Process} {b : Backing}
  {regions before after : List Region} {r : Region} {virt : ℕ}
  {mappings : List VirtualMemoryMapping} {layout : Layout} {heap : BuddyAllocator}

/-! ## Memory of the process -/

/-- What `alloc` does. -/
lemma Process.alloc_cases {flags : PageFlags} {result : Except AllocError ℕ}
    (h : proc.alloc b flags = .ok (result, proc')) :
    (∃ e heap, proc.heap.alloc b.layout = .ok (.error e, heap) ∧ result = .error e ∧
      proc' = { proc with heap := heap }) ∨
    ∃ virt heap phys table, proc.heap.alloc b.layout = .ok (.ok virt, heap) ∧
      virtToPhys b.ptr = .ok phys ∧ proc.pageTable.map virt phys b.byteSize flags = .ok table ∧
      result = .ok virt ∧
      proc' = { proc with
        heap := heap
        pageTable := table
        allocated := proc.allocated ++ [(virt, b)] } := by
  obtain ⟨⟨found, heap⟩, hheap, h⟩ := Checked.bind_eq_ok.mp h
  cases found with
  | error e =>
      cases h
      exact Or.inl ⟨e, heap, hheap, rfl, rfl⟩
  | ok virt =>
      obtain ⟨proc₁, halloc, h⟩ := Checked.bind_eq_ok.mp h
      cases h
      obtain ⟨phys, hphys, halloc⟩ := Checked.bind_eq_ok.mp halloc
      obtain ⟨table, hmap, halloc⟩ := Checked.bind_eq_ok.mp halloc
      cases halloc
      exact Or.inr ⟨virt, heap, phys, table, hheap, hphys, hmap, rfl, rfl⟩

lemma Process.alloc_phys {flags : PageFlags} (h : proc.alloc b flags = .ok (.ok virt, proc')) :
    ∃ phys, virtToPhys b.ptr = .ok phys := by
  rcases alloc_cases h with ⟨e, heap, -, hnot, -⟩ | ⟨_, heap, phys, table, -, hphys, -, -, -⟩
  · cases hnot
  · exact ⟨phys, hphys⟩

/-- What `alloc` returns is on the list. -/
lemma Process.alloc_mem {flags : PageFlags} (h : proc.alloc b flags = .ok (.ok virt, proc')) :
    (virt, b) ∈ proc'.allocated := by
  rcases alloc_cases h with ⟨e, heap, -, hnot, -⟩ | ⟨_, heap, phys, table, -, -, -, hvirt, rfl⟩
  · cases hnot
  · cases hvirt
    exact List.mem_append_right _ List.mem_cons_self

/-- Memory of whole pages. -/
structure Backing.WholePages (b : Backing) : Prop where
  pos : 0 < b.byteSize
  dvd : pageSize ∣ b.byteSize

/-- The pages of a call are whole pages, unless it asked for none; and these cannot be mapped. -/
lemma Kernel.PagesFor.wholePages {size : ℕ} (h : k.PagesFor k₁ size layout b proc)
    (hsize : 0 < size ∨ ∃ phys, virtToPhys b.ptr = .ok phys) : b.WholePages := by
  obtain ⟨k₀, hpages, -⟩ := h.pages
  have hlayout : b.layout = layout := (allocPages_eq_ok hpages).1
  have hpadded := nextMultipleOfPage_eq_ok h.padded
  have hdvd : pageSize ∣ b.byteSize := by
    rw [Backing.byteSize, hlayout, hpadded]
    exact dvd_nextMultipleOf (by decide) size
  refine ⟨Nat.pos_of_ne_zero fun hzero => ?_, hdvd⟩
  have hnone : layout.size = 0 := by rwa [Backing.byteSize, hlayout] at hzero
  rcases hsize with hpos | ⟨phys, hphys⟩
  · have hle := le_nextMultipleOf size pageSize
    omega
  · have hptr : b.ptr = 1 := by
      have hbytes := h.capacity
      rw [hnone] at hbytes
      obtain rfl := Option.some.inj hbytes
      rcases (allocPages_eq_ok hpages).2 with ⟨-, hptr, -⟩ | ⟨k₂, granular, heap, -, -, -, -⟩
      · exact hptr
      · rw [allocPages, if_pos rfl] at hpages
        cases hpages
        rfl
    rw [hptr] at hphys
    exact absurd (ensure_bind_eq_ok.mp hphys).1 (by decide)

/-- The running process is the one that made the call. -/
lemma Kernel.PagesFor.process_eq {size : ℕ} (h : k.PagesFor k₁ size layout b proc) :
    k.process [] = .ok proc := by
  rw [← process_congr h.onlyMemory.processes h.onlyMemory.userPid []]
  exact h.proc

/-- A region of memory that was asked for as a whole. -/
lemma Backing.WholePages.region (h : b.WholePages) (hlayout : b.byteSize ≤ layout.size)
    (freeable : Bool) (hfree : freeable = true → layout = b.layout) :
    Region.Whole ⟨virt, layout, .backing b freeable⟩ where
  size_dvd := h.dvd
  size_le := hlayout.trans (le_max_left _ _)
  page_le := (Nat.le_of_dvd h.pos h.dvd).trans (hlayout.trans (le_max_left _ _))
  layout_eq c hc := by
    obtain ⟨rfl, rfl⟩ : b = c ∧ freeable = true := Content.backing.inj hc
    exact ⟨h.pos, hfree rfl⟩

namespace Holdings.InStep

/-- `alloc` makes a region of the memory. -/
theorem alloc (h : proc.holdings.InStep mappings regions) (hb : b.WholePages)
    (halloc : proc.alloc b PageFlags.readWrite.asUser = .ok (.ok virt, proc')) :
    proc'.holdings.InStep mappings (⟨virt, b.layout, .backing b true⟩ :: regions) := by
  rcases Process.alloc_cases halloc with ⟨e, heap, -, hnot, -⟩ |
    ⟨virt', heap, phys, table, hheap, hphys, hmap, hvirt, rfl⟩
  · cases hnot
  · cases hvirt
    have hwhole : Region.Whole ⟨virt, b.layout, .backing b true⟩ :=
      hb.region le_rfl true fun _ => rfl
    exact h.map hwhole rfl hheap hphys hmap

/-- Nothing is in the way of memory that a process gets. -/
lemma alloc_keepsStep (h : proc.holdings.InStep mappings regions) (hb : b.WholePages)
    {flags : PageFlags} : KeepsStep (proc.alloc b flags) := by
  refine (PanicsAt.keepsStep BuddyAllocator.alloc_panics (by decide)).bind fun result hheap => ?_
  obtain ⟨e | virt, heap⟩ := result
  · exact .pure
  · refine OnlyFails.bind ?_ fun _ _ => .pure
    refine (PanicsAt.keepsStep virtToPhys_panics (by decide)).bind fun phys _ => ?_
    refine OnlyFails.bind ?_ fun _ _ => .pure
    have hwhole : Region.Whole ⟨virt, b.layout, .backing b true⟩ :=
      hb.region le_rfl true fun _ => rfl
    exact h.map_keepsStep hwhole hheap

/-- Without room nothing changes. -/
lemma alloc_none (h : proc.holdings.InStep mappings regions) {e : AllocError} {flags : PageFlags}
    (halloc : proc.alloc b flags = .ok (.error e, proc')) : proc' = proc := by
  rcases Process.alloc_cases halloc with ⟨e', heap, hheap, -, rfl⟩ | ⟨virt', _, _, _, -, -, -, hnot, -⟩
  · have hsame : heap = proc.heap := h.alloc_error hheap
    rw [hsame]
  · cases hnot

/-- What `dealloc` finds on the allocated list. -/
lemma dealloc_find {ptr : ℕ} (hmem : (ptr, b) ∈ proc.allocated)
    (honly : ∀ c, (ptr, c) ∈ proc.allocated → c = b) :
    ∃ slot, (proc.allocated.zipIdx.find? fun entry => entry.1.1 = ptr) = some ((ptr, b), slot) ∧
      proc.allocated[slot]? = some (ptr, b) := by
  obtain ⟨slot, hslot, hget⟩ := List.getElem_of_mem hmem
  have hin : ((ptr, b), slot) ∈ proc.allocated.zipIdx :=
    List.mem_zipIdx_iff_getElem?.mpr (List.getElem?_eq_some_iff.mpr ⟨hslot, hget⟩)
  have hsome : (proc.allocated.zipIdx.find? fun entry => entry.1.1 = ptr).isSome := by
    rw [List.find?_isSome]
    exact ⟨_, hin, by simp⟩
  obtain ⟨⟨⟨virt, c⟩, i⟩, hfound⟩ := Option.isSome_iff_exists.mp hsome
  obtain rfl : virt = ptr := by simpa using List.find?_some hfound
  have hindex : proc.allocated[i]? = some (virt, c) :=
    List.mem_zipIdx_iff_getElem?.mp (List.mem_of_find?_eq_some hfound)
  obtain rfl := honly c (List.mem_of_getElem? hindex)
  exact ⟨i, hfound, hindex⟩

/-- **A region is freed.**  `dealloc` at its start succeeds, and takes exactly this region away. -/
theorem dealloc (h : proc.holdings.InStep mappings (before ++ r :: after))
    (hcontent : r.content = .backing b true) :
    ∃ proc', proc.dealloc r.ptr = .ok (some (proc', b)) ∧
      proc'.holdings.InStep mappings (before ++ after) ∧
      proc.allocated.Perm ((r.ptr, b) :: proc'.allocated) ∧ proc.OnlySpace proc' := by
  have hr : r ∈ before ++ r :: after := List.mem_append_right _ List.mem_cons_self
  have honly : ∀ c, (r.ptr, c) ∈ proc.allocated → c = b := by
    intro c hc
    obtain ⟨r', hr', hptr, hcontent'⟩ := h.exists_region hc (h.placed hr).2.2
    obtain rfl := h.eq_of_ptr hr hr' hptr
    rw [hcontent] at hcontent'
    exact (Content.backing.inj hcontent').1.symm
  obtain ⟨slot, hfound, hslot⟩ := dealloc_find (h.entry_mem hr hcontent) honly
  obtain ⟨hphys, table, heap, hunmap, hdealloc, hrest⟩ := h.unmap hcontent
  have hperm := perm_swapRemove hslot
  refine ⟨{ proc with
    allocated := swapRemove proc.allocated slot
    pageTable := table
    heap := heap }, ?_, hrest _ hperm, hperm, ⟨_, _, _, _, rfl⟩⟩
  have hunmap' : proc.pageTable.unmap r.ptr (physOf b.ptr) b.byteSize = .ok table := hunmap
  have hdealloc' : proc.heap.dealloc r.ptr b.layout = .ok heap := hdealloc
  simp only [Process.dealloc, hfound, hphys, Checked.ok_bind, hunmap', hdealloc']
  rfl

/-- **Nothing else is freed.**  Where `dealloc` succeeds, a region of the heap starts. -/
theorem of_dealloc (h : proc.holdings.InStep mappings regions) {ptr : ℕ}
    (hdealloc : proc.dealloc ptr = .ok (some (proc', b))) :
    ∃ before r after, regions = before ++ r :: after ∧ r.ptr = ptr ∧
      r.content = .backing b true ∧ proc'.holdings.InStep mappings (before ++ after) ∧
      proc.allocated.Perm ((ptr, b) :: proc'.allocated) ∧ proc.OnlySpace proc' := by
  obtain ⟨slot, phys, table, heap, -, hslot, -, -, hheap, -⟩ := Process.dealloc_cases hdealloc
  have hmem : (ptr, b) ∈ proc.allocated := List.mem_of_getElem? hslot
  have hstart : userHeap.start ≤ ptr := by
    obtain ⟨offset, hoffset, -⟩ := Checked.bind_eq_ok.mp hheap
    have hrange : proc.heap.range = userHeap := h.heap.range_eq
    rw [hrange] at hoffset
    exact (usizeSub_eq_ok hoffset).1
  obtain ⟨r, hr, rfl, hcontent⟩ := h.exists_region hmem ⟨hstart, h.below _ hmem⟩
  obtain ⟨before, after, rfl⟩ := List.append_of_mem hr
  obtain ⟨proc₁, hdealloc', hrest, hperm, honly⟩ := h.dealloc hcontent
  obtain ⟨rfl, -⟩ := Prod.mk.inj (Option.some.inj (Except.ok.inj (hdealloc.symm.trans hdealloc')))
  exact ⟨before, r, after, rfl, rfl, hcontent, hrest, hperm, honly⟩

end Holdings.InStep

/-! ## Memory of others -/

/-- A layout of pages has room for what it was made for. -/
lemma pageLayout_eq_ok {size : ℕ} (h : pageLayout size = .ok layout) :
    layout.size = size ∧ layout.align = pageSize := by
  simp only [pageLayout] at h
  split at h
  · cases h
    exact ⟨rfl, rfl⟩
  · cases h

/-- What is behind a layout of pages can be a region. -/
lemma pageLayout_region {size : ℕ} (h : pageLayout size = .ok layout) {content : Content}
    (hdvd : pageSize ∣ content.byteSize) (hle : content.byteSize ≤ size)
    (hfree : content.freeable = false) : Region.Whole ⟨virt, layout, content⟩ where
  size_dvd := hdvd
  size_le := by
    rw [← (pageLayout_eq_ok h).1] at hle
    exact hle.trans (le_max_left _ _)
  page_le := by
    rw [Layout.reqSize, (pageLayout_eq_ok h).2]
    exact le_max_right _ _
  layout_eq c hc := by
    have hc' : content = .backing c true := hc
    rw [hc'] at hfree
    cases hfree

/-- The pages of a range. -/
lemma mem_page_iff {v i : ℕ} :
    v ∈ Set.Ico (virt + pageSize * i) (virt + pageSize * i + pageSize) ↔
      virt ≤ v ∧ (v - virt) / pageSize = i := by
  have hpos : 0 < pageSize := by decide
  rw [Nat.div_eq_iff hpos, Set.mem_Ico, mul_comm i pageSize]
  omega

/-- A page of a range that ends with a page is inside. -/
lemma page_inside {size i v : ℕ} (hdvd : pageSize ∣ size) (hi : pageSize * i < size)
    (hv : v ∈ Set.Ico (virt + pageSize * i) (virt + pageSize * i + pageSize)) :
    v ∈ Set.Ico virt (virt + size) :=
  Region.page_subset (r := ⟨virt, pageBoxLayout, .paged 0 size⟩) hdvd hi hv

/-- A page of a range that ends with a page ends inside. -/
lemma page_end_le {size i : ℕ} (hdvd : pageSize ∣ size) (hi : pageSize * i < size) :
    virt + pageSize * i + pageSize ≤ virt + size := by
  have hpos : 0 < pageSize := by decide
  have hmem : virt + pageSize * i + (pageSize - 1) ∈
      Set.Ico (virt + pageSize * i) (virt + pageSize * i + pageSize) :=
    ⟨Nat.le_add_right _ _, by omega⟩
  have hend := (page_inside hdvd hi hmem).2
  omega

/-- One page of a mapping is mapped where nothing was. -/
lemma VirtualMemoryMapping.PageOk.map {mapping : VirtualMemoryMapping} {t t' : PageTable}
    {flags : PageFlags} {i j phys : ℕ} (ht : Built t) (hstop : virt + pageSize * i + pageSize ≤
      virtualAddresses.stop) (hpage : mapping.PageOk t virt i) (hne : i ≠ j)
    (hmap : t.map (virt + pageSize * j) phys pageSize flags = .ok t') :
    mapping.PageOk t' virt i := by
  obtain ⟨-, -, hfilled⟩ := map_eq_ok ht.wf hmap
  have hsame : ∀ v ∈ Set.Ico (virt + pageSize * i) (virt + pageSize * i + pageSize),
      walk 2 t' v = walk 2 t v := by
    intro v hv
    refine hfilled.frame v (mem_rootView.mpr (lt_of_lt_of_le hv.2 hstop)) fun hv' => hne ?_
    rw [← (mem_page_iff.mp hv).2, (mem_page_iff.mp hv').2]
  rcases hpage with hnone | ⟨c, hc, hsize, hmapped⟩
  · exact Or.inl fun v hv => (hsame v hv).trans (hnone v hv)
  · refine Or.inr ⟨c, hc, hsize, hmapped.congr fun v hv => hsame v ?_⟩
    rwa [hsize] at hv

/-- The page that is mapped is a page of the mapping. -/
lemma VirtualMemoryMapping.PageOk.of_map {mapping : VirtualMemoryMapping} {t t' : PageTable}
    {i phys : ℕ} (ht : Built t) (hb : (i, b) ∈ mapping.backedPages) (hsize : b.byteSize = pageSize)
    (hphys : virtToPhys b.ptr = .ok phys)
    (hmap : t.map (virt + pageSize * i) phys pageSize PageFlags.readonly.asUser = .ok t') :
    mapping.PageOk t' virt i := by
  obtain rfl := virtToPhys_eq hphys
  obtain ⟨hrange, -, hfilled⟩ := map_eq_ok ht.wf hmap
  refine Or.inr ⟨b, hb, hsize, hphys, ?_, ?_⟩
  · rw [hsize]
    exact hrange
  · rw [hsize]
    exact hfilled.inside

/-- The pages that a mapping has are mapped one after the other.  Whatever is not a page of the
mapping stays as it was. -/
lemma Kernel.mapBackedPage_all {mapping : VirtualMemoryMapping} {t t' : PageTable}
    {pages : List (ℕ × Backing)} (hsub : pages ⊆ mapping.backedPages)
    (hbounds : ∀ entry ∈ pages, pageSize * entry.1 < mapping.size ∧ entry.2.byteSize = pageSize)
    (hdvd : pageSize ∣ mapping.size) (hstop : virt + mapping.size ≤ virtualAddresses.stop)
    (ht : Built t) (hpages : ∀ i, pageSize * i < mapping.size → mapping.PageOk t virt i)
    (hfold : pages.foldlM (mapBackedPage virt) t = .ok t') :
    Built t' ∧ (∀ i, pageSize * i < mapping.size → mapping.PageOk t' virt i) ∧
      ∀ v < virtualAddresses.stop, v ∉ Set.Ico virt (virt + mapping.size) →
        walk 2 t' v = walk 2 t v := by
  induction pages generalizing t with
  | nil =>
      cases hfold
      exact ⟨ht, hpages, fun _ _ _ => rfl⟩
  | cons entry rest ih =>
      obtain ⟨⟨hentry, hsize⟩, hrest⟩ := List.forall_mem_cons.mp hbounds
      rw [List.foldlM_cons] at hfold
      obtain ⟨t₁, hfirst, hfold⟩ := Checked.bind_eq_ok.mp hfold
      obtain ⟨phys, hphys, hmap⟩ := Checked.bind_eq_ok.mp hfirst
      have hpages₁ : ∀ i, pageSize * i < mapping.size → mapping.PageOk t₁ virt i := by
        intro i hi
        by_cases hne : i = entry.1
        · subst hne
          exact .of_map ht (hsub List.mem_cons_self) hsize hphys hmap
        · exact (hpages i hi).map ht ((page_end_le hdvd hi).trans hstop) hne hmap
      obtain ⟨hbuilt, hok, hout⟩ := ih (fun _ he => hsub (List.mem_cons_of_mem _ he)) hrest
        (.map ht hmap) hpages₁ hfold
      refine ⟨hbuilt, hok, fun v hv hnot => ?_⟩
      obtain ⟨-, -, hfilled⟩ := map_eq_ok ht.wf hmap
      rw [hout v hv hnot]
      exact hfilled.frame v (mem_rootView.mpr hv) fun hmem => hnot (page_inside hdvd hentry hmem)

/-- What holds of the mappings of the kernel: whole pages, and pages inside. -/
structure Kernel.MappingsOk (k : Kernel) : Prop where
  whole : ∀ mapping ∈ k.mappings, pageSize ∣ mapping.size
  pages : ∀ mapping ∈ k.mappings, ∀ entry ∈ mapping.backedPages,
    pageSize * entry.1 < mapping.size ∧ entry.2.byteSize = pageSize

namespace Holdings.InStep

/-- Memory that others have as well is mapped. -/
theorem mapAt (h : proc.holdings.InStep mappings regions) {size phys : ℕ} {table : PageTable}
    (hlayout : pageLayout size = .ok layout) (hle : b.byteSize ≤ size)
    (halloc : proc.heap.alloc layout = .ok (.ok virt, heap)) (hphys : virtToPhys b.ptr = .ok phys)
    (hmap : proc.pageTable.map virt phys b.byteSize PageFlags.readWrite.asUser = .ok table) :
    Holdings.InStep mappings ⟨heap, table, proc.allocated, proc.virtualMemoryMappings⟩
      (⟨virt, layout, .backing b false⟩ :: regions) := by
  have hdvd : pageSize ∣ b.byteSize := (map_eq_ok h.built.wf hmap).1.aligned.size
  have hwhole : Region.Whole ⟨virt, layout, .backing b false⟩ :=
    pageLayout_region hlayout hdvd hle rfl
  have hmapped := h.map hwhole rfl halloc hphys hmap
  have hentry : Region.entry ⟨virt, layout, .backing b false⟩ = none := rfl
  rw [hentry, Option.toList_none, List.append_nil] at hmapped
  exact hmapped

/-- `shared_memory_map` of memory. -/
lemma shareMemory (h : proc.holdings.InStep mappings regions) {size : ℕ}
    (hlayout : pageLayout size = .ok layout) (hle : b.byteSize ≤ size)
    (halloc : proc.heap.alloc layout = .ok (.ok virt, heap))
    (hmap : k.sharedMemoryMap (.sharedMemory b) virt { proc with heap := heap } = .ok proc') :
    proc'.holdings.InStep mappings (⟨virt, layout, .backing b false⟩ :: regions) := by
  obtain ⟨phys, hphys, hmap⟩ := Checked.bind_eq_ok.mp hmap
  obtain ⟨table, htable, hmap⟩ := Checked.bind_eq_ok.mp hmap
  cases hmap
  exact h.mapAt hlayout hle halloc hphys htable

/-- `shared_memory_map` of a mapping: it gets a range, and the pages that it has are mapped there. -/
lemma shareMapping (h : proc.holdings.InStep k.mappings regions) (hok : k.MappingsOk)
    {index size : ℕ} {mapping : VirtualMemoryMapping}
    (hmapping : k.mappings[index]? = some mapping) (hlayout : pageLayout size = .ok layout)
    (hle : mapping.size ≤ size) (halloc : proc.heap.alloc layout = .ok (.ok virt, heap))
    (hmap : k.sharedMemoryMap (.mapping index) virt { proc with heap := heap } = .ok proc') :
    proc'.holdings.InStep k.mappings
      (⟨virt, layout, .paged index mapping.size⟩ :: regions) := by
  have hmem := List.mem_of_getElem? hmapping
  have hget : k.getMapping index = .ok mapping := by
    rw [Kernel.getMapping, hmapping]
    rfl
  simp only [Kernel.sharedMemoryMap, hget, Checked.ok_bind] at hmap
  obtain ⟨table, hfold, hmap⟩ := Checked.bind_eq_ok.mp hmap
  cases hmap
  have hdvd : pageSize ∣ mapping.size := hok.whole mapping hmem
  let r : Region := ⟨virt, layout, .paged index mapping.size⟩
  have hwhole : r.Whole := pageLayout_region hlayout hdvd hle rfl
  have halloc' : proc.holdings.heap.alloc r.layout = .ok (.ok r.ptr, heap) := halloc
  have hvacant := h.alloc_vacant hwhole halloc'
  have hstop : virt + mapping.size ≤ virtualAddresses.stop :=
    (hwhole.stop_le (h.alloc_block halloc') List.mem_cons_self).trans (by decide)
  obtain ⟨hbuilt, hpages, hframe⟩ := Kernel.mapBackedPage_all (List.Subset.refl _)
    (hok.pages mapping hmem) hdvd hstop h.built
    (fun i hi => Or.inl fun v hv => hvacant v (page_inside hdvd hi hv)) hfold
  refine h.add hwhole halloc' hbuilt ⟨mapping, hmapping, rfl, hstop, hpages⟩ hframe
    (List.append_nil _).symm fun range index' hin => ?_
  rcases List.mem_append.mp hin with hin | hin
  · exact Or.inl hin
  · obtain ⟨rfl, rfl⟩ := Prod.mk.inj (List.mem_singleton.mp hin)
    exact Or.inr ⟨mapping.size, rfl, rfl⟩

/-- **`shared_memory_map` makes a region of what is behind a handler.** -/
theorem share (h : proc.holdings.InStep k.mappings regions) (hok : k.MappingsOk)
    {handler : Handler} {length size : ℕ} (hlength : k.sharedMemorySize handler = .ok length)
    (hle : length ≤ size) (hlayout : pageLayout size = .ok layout)
    (halloc : proc.heap.alloc layout = .ok (.ok virt, heap))
    (hmap : k.sharedMemoryMap handler virt { proc with heap := heap } = .ok proc') :
    ∃ content, proc'.holdings.InStep k.mappings (⟨virt, layout, content⟩ :: regions) := by
  cases handler with
  | sharedMemory b =>
      cases hlength
      exact ⟨_, h.shareMemory hlayout hle halloc hmap⟩
  | mapping index =>
      obtain ⟨mapping, hmapping, hlength⟩ := Checked.bind_eq_ok.mp hlength
      cases hlength
      exact ⟨_, h.shareMapping hok (Kernel.getMapping_eq_ok hmapping) hlayout hle halloc hmap⟩
  | _ => cases hmap

end Holdings.InStep

/-! ## Page faults -/

/-- A page joins a mapping. -/
lemma Region.extends_set {index i : ℕ} {mapping : VirtualMemoryMapping}
    (hmapping : mappings[index]? = some mapping) :
    Region.Extends mappings (mappings.set index
      { mapping with backedPages := mapping.backedPages ++ [(i, b)] }) := by
  intro j mapping' hj
  have hlt := (List.getElem?_eq_some_iff.mp hmapping).1
  by_cases hne : index = j
  · subst hne
    rw [hmapping] at hj
    cases hj
    exact ⟨_, List.getElem?_set_self hlt, rfl, List.subset_append_left _ _⟩
  · exact ⟨mapping', by rw [List.getElem?_set_ne hne, hj], rfl, List.Subset.refl _⟩

/-- **A page is loaded.**  `load_page` maps it in a region that is a mapping, and the mapping has it
from then on. -/
theorem Holdings.InStep.load (h : proc.holdings.InStep mappings regions) (hr : r ∈ regions)
    {index size i phys : ℕ} {mapping : VirtualMemoryMapping} {table : PageTable}
    (hcontent : r.content = .paged index size) (hmapping : mappings[index]? = some mapping)
    (hi : pageSize * i < size) (hsize : b.byteSize = pageSize)
    (hphys : virtToPhys b.ptr = .ok phys)
    (hmap : proc.pageTable.map (r.ptr + pageSize * i) phys pageSize PageFlags.readonly.asUser =
      .ok table) :
    Process.holdings { proc with pageTable := table } |>.InStep
      (mappings.set index { mapping with backedPages := mapping.backedPages ++ [(i, b)] })
      regions := by
  have hext := h.extend (Region.extends_set (b := b) (i := i) hmapping)
  obtain ⟨hrange, -, hfilled⟩ := map_eq_ok h.built.wf hmap
  have hdvd : pageSize ∣ size := by
    have hwhole := (h.whole r hr).size_dvd
    rwa [hcontent] at hwhole
  have hinside : ∀ v ∈ Set.Ico (r.ptr + pageSize * i) (r.ptr + pageSize * i + pageSize),
      v ∈ r.addresses := by
    intro v hv
    rw [Region.addresses, hcontent]
    exact page_inside hdvd hi hv
  have hframe : ∀ v < virtualAddresses.stop, v ∉ r.addresses →
      walk 2 table v = walk 2 proc.pageTable v := fun v hv hout =>
    hfilled.frame v (mem_rootView.mpr hv) fun hmem => hout (hinside v hmem)
  refine { hext with
    built := .map h.built hmap
    mapped := fun r' hr' => ?_
    vacant := fun v hv hout => ?_ }
  · have hplaced' := (h.placed hr').2.1
    by_cases heq : r' = r
    · subst heq
      have hmapped := hext.mapped r' hr'
      simp only [Region.Mapped, hcontent] at hmapped ⊢
      obtain ⟨mapping', hmapping', hsize', hstop, hpages⟩ := hmapped
      refine ⟨mapping', hmapping', hsize', hstop, fun j hj => ?_⟩
      have hlt := (List.getElem?_eq_some_iff.mp hmapping).1
      rw [List.getElem?_set_self hlt] at hmapping'
      by_cases hne : j = i
      · subst hne
        refine .of_map h.built ?_ hsize hphys hmap
        rw [← Option.some.inj hmapping']
        exact List.mem_append_right _ (List.mem_singleton_self _)
      · exact (hpages j hj).map h.built ((page_end_le hdvd hj).trans hstop) hne hmap
    · have hdisjoint : Disjoint r'.addresses r.addresses := by
        have hsymm : Std.Symm fun r r' : Region => Disjoint r.addresses r'.addresses :=
          ⟨fun _ _ hdisjoint => hdisjoint.symm⟩
        exact h.disjoint.forall hr' hr heq
      refine (hext.mapped r' hr').congr (h.whole r' hr').size_dvd fun v hv =>
        hframe v (lt_of_lt_of_le (hplaced' hv).2 (by decide)) ?_
      exact Set.disjoint_left.mp hdisjoint hv
  · have hsame := hframe v (lt_of_lt_of_le hv.2 (by decide)) (hout r hr)
    exact hsame.trans (h.vacant v hv hout)

end Deravel
