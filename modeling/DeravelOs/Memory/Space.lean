import DeravelOs.Memory.Certificates
import DeravelOs.Page.Mapping

/-!
# Address spaces

Every translation of a process has a reason: the memory behind it belongs to the process, to an
object of the kernel, or to the kernel's image (`Owner`).  `AddressSpace` says that this holds of a
page table, and one lemma for each call that changes a page table says that it stays so.

* `AddressSpace.map`, `AddressSpace.unmap`: what the two calls need for that.
* `Process.Space`: the address space of a process that has been created, which also sees the
  certificates.
-/

namespace Deravel

open PageTable (Built)

variable {P : Platform} {k k' : Kernel} {id : ProcessId} {t t' : PageTable}
  {allocated allocated' : List (ℕ × Backing)} {virt phys size v : ℕ} {flags : PageFlags}
  {b : Backing} {proc proc' : Process}

namespace PageTable

/-- A `map` adds its translations where there were none. -/
lemma map_translate (ht : Built t) (h : t.map virt phys size flags = .ok t') :
    RangeOk virt phys size ∧ (∀ v ∈ Set.Ico virt (virt + size), t.translate v = none) ∧
      (∀ v ∈ Set.Ico virt (virt + size), t'.translate v = some (phys + (v - virt), flags)) ∧
      ∀ v < virtualAddresses.stop, v ∉ Set.Ico virt (virt + size) →
        t'.translate v = t.translate v := by
  obtain ⟨hr, hvacant, hfilled⟩ := map_eq_ok ht.wf h
  refine ⟨hr, fun v hv => translate_eq_none.mpr (hvacant v hv),
    fun v hv => translate_leafAt hr.aligned hv (hfilled.inside v hv), fun v hv hnot => ?_⟩
  have hsame : walk 2 t' v = walk 2 t v := hfilled.frame v (mem_rootView.mpr hv) hnot
  rw [translate, translate, hsame]

/-- An `unmap` takes away the translations of its range. -/
lemma unmap_translate (ht : Built t) (h : t.unmap virt phys size = .ok t') :
    (∀ v ∈ Set.Ico virt (virt + size), t'.translate v = none) ∧
      ∀ v < virtualAddresses.stop, v ∉ Set.Ico virt (virt + size) →
        t'.translate v = t.translate v := by
  obtain ⟨hr, hcleared⟩ := unmap_eq_ok ht.wf h
  refine ⟨fun v hv => translate_eq_none.mpr (hcleared.inside v hv), fun v hv hnot => ?_⟩
  have hsame : walk 2 t' v = walk 2 t v := hcleared.frame v (mem_rootView.mpr hv) hnot
  rw [translate, translate, hsame]

lemma new_translate (v : ℕ) : PageTable.new.translate v = none :=
  translate_eq_none.mpr (walk_of_unmapped (fun _ => rfl) v)

end PageTable

/-! ## Owners -/

/-- Where a process sees the certificates. -/
def capabilityRegion : AddressRange :=
  ⟨userCapabilities.start, userCapabilities.start + processCount * pageSize⟩

/-- The images that a process can be loaded from. -/
def Platform.elves (P : Platform) : List Elf :=
  [P.fat, P.windowing, P.imageViewer, P.terminal, P.shell]

/-- The physical addresses of an image. -/
def Elf.frames (elf : Elf) : Set ℕ :=
  Set.Ico (physOf elf.base) (physOf elf.base + elf.bytes.length)

/-- Why a process has a translation of `v` to `phys`. -/
inductive Owner (P : Platform) (k : Kernel) (id : ProcessId) (allocated : List (ℕ × Backing))
    (v phys : ℕ) (flags : PageFlags) : Prop
  | direct (hv : directMapping.start ≤ v) (huser : flags.user = false)
  | capability (hv : v ∈ capabilityRegion.addresses)
      (hphys : phys = physOf P.capabilityPages + (v - capabilityRegion.start))
      (hwrite : flags.write = true → (v - capabilityRegion.start) / pageSize = id.asU16)
  | own (virt : ℕ) (b : Backing) (hmem : (virt, b) ∈ allocated)
      (hv : v ∈ Set.Ico virt (virt + b.byteSize)) (hphys : phys ∈ b.frames)
  | shared (b : Backing) (hb : b ∈ k.sharedMemory) (hphys : phys ∈ b.frames)
  | ring (b : Backing) (hb : b ∈ k.rings) (hphys : phys ∈ b.frames)
  | loaded (b : Backing) (hb : b ∈ k.loadedPages) (hphys : phys ∈ b.frames)
      (hwrite : flags.write = false)
  | image (elf : Elf) (helf : elf ∈ P.elves) (hphys : phys ∈ elf.frames)
      (hwrite : flags.write = false)

/-- The kernel's objects are still there, and perhaps others. -/
structure Kernel.Grows (k k' : Kernel) : Prop where
  shared : k.sharedMemory ⊆ k'.sharedMemory
  rings : k.rings ⊆ k'.rings
  loaded : k.loadedPages ⊆ k'.loadedPages

lemma Kernel.Grows.refl (k : Kernel) : k.Grows k := ⟨subset_rfl, subset_rfl, subset_rfl⟩

lemma Kernel.OnlyMemory.grows (h : k.OnlyMemory k') : k.Grows k' := by
  refine ⟨?_, ?_, ?_⟩
  · rw [Kernel.sharedMemory, Kernel.sharedMemory, h.handlers]
  · rw [Kernel.rings, Kernel.rings, h.devices]
  · rw [Kernel.loadedPages, Kernel.loadedPages, h.mappings]

/-- An owner stays one when the kernel gets more objects and the process more memory. -/
lemma Owner.mono (h : Owner P k id allocated v phys flags) (hgrows : k.Grows k')
    (hsub : allocated ⊆ allocated') : Owner P k' id allocated' v phys flags := by
  cases h with
  | direct hv huser => exact .direct hv huser
  | capability hv hphys hwrite => exact .capability hv hphys hwrite
  | own virt b hmem hv hphys => exact .own virt b (hsub hmem) hv hphys
  | shared b hb hphys => exact .shared b (hgrows.shared hb) hphys
  | ring b hb hphys => exact .ring b (hgrows.rings hb) hphys
  | loaded b hb hphys hwrite => exact .loaded b (hgrows.loaded hb) hphys hwrite
  | image elf helf hphys hwrite => exact .image elf helf hphys hwrite

/-- The physical addresses of consecutive bytes. -/
lemma Backing.add_mem_frames {i : ℕ} (hi : i < b.byteSize) : physOf b.ptr + i ∈ b.frames :=
  ⟨Nat.le_add_right _ _, Nat.add_lt_add_left hi _⟩

/-! ## Address spaces -/

/-- Every translation has an owner, and the memory on the allocated list is outside of the region
of the certificates. -/
structure AddressSpace (P : Platform) (k : Kernel) (id : ProcessId) (t : PageTable)
    (allocated : List (ℕ × Backing)) : Prop where
  built : Built t
  owner : ∀ v < virtualAddresses.stop, ∀ phys flags, t.translate v = some (phys, flags) →
    Owner P k id allocated v phys flags
  outside : ∀ virt b, (virt, b) ∈ allocated → ∀ v ∈ Set.Ico virt (virt + b.byteSize),
    v ∉ capabilityRegion.addresses

namespace AddressSpace

lemma mono (h : AddressSpace P k id t allocated) (hgrows : k.Grows k') :
    AddressSpace P k' id t allocated where
  built := h.built
  owner v hv phys flags htranslate :=
    (h.owner v hv phys flags htranslate).mono hgrows (List.Subset.refl _)
  outside := h.outside

lemma empty : AddressSpace P k id .new [] where
  built := .new
  owner v _ phys flags htranslate := by
    rw [PageTable.new_translate] at htranslate
    cases htranslate
  outside virt b hmem := absurd hmem List.not_mem_nil

/-- A `map` is fine if there is an owner for what it adds. -/
lemma map (h : AddressSpace P k id t allocated) (hmap : t.map virt phys size flags = .ok t')
    (howner : ∀ v ∈ Set.Ico virt (virt + size),
      Owner P k id allocated v (phys + (v - virt)) flags) :
    AddressSpace P k id t' allocated := by
  obtain ⟨-, -, hinside, hframe⟩ := PageTable.map_translate h.built hmap
  refine ⟨.map h.built hmap, fun v hv p f htranslate => ?_, h.outside⟩
  by_cases hrange : v ∈ Set.Ico virt (virt + size)
  · rw [hinside v hrange] at htranslate
    cases htranslate
    exact howner v hrange
  · rw [hframe v hv hrange] at htranslate
    exact h.owner v hv p f htranslate

/-- Memory joins the allocated list. -/
lemma append (h : AddressSpace P k id t allocated)
    (hout : ∀ v ∈ Set.Ico virt (virt + b.byteSize), v ∉ capabilityRegion.addresses) :
    AddressSpace P k id t (allocated ++ [(virt, b)]) where
  built := h.built
  owner v hv phys flags htranslate :=
    (h.owner v hv phys flags htranslate).mono (.refl k) (List.subset_append_left _ _)
  outside virt' b' hmem := by
    rcases List.mem_append.mp hmem with hmem | hmem
    · exact h.outside virt' b' hmem
    · cases List.mem_singleton.mp hmem
      exact hout

/-- An `unmap` of memory that leaves the allocated list. -/
lemma unmap (h : AddressSpace P k id t allocated) (hunmap : t.unmap virt phys b.byteSize = .ok t')
    (hsub : allocated' ⊆ allocated)
    (hrest : ∀ entry ∈ allocated, entry ≠ (virt, b) → entry ∈ allocated') :
    AddressSpace P k id t' allocated' := by
  obtain ⟨hinside, hframe⟩ := PageTable.unmap_translate h.built hunmap
  refine ⟨.unmap h.built hunmap, fun v hv p f htranslate => ?_,
    fun virt' b' hmem => h.outside virt' b' (hsub hmem)⟩
  have hrange : v ∉ Set.Ico virt (virt + b.byteSize) := by
    intro hrange
    rw [hinside v hrange] at htranslate
    cases htranslate
  rw [hframe v hv hrange] at htranslate
  cases h.owner v hv p f htranslate with
  | direct hv huser => exact .direct hv huser
  | capability hv hphys hwrite => exact .capability hv hphys hwrite
  | own virt' b' hmem hv hphys =>
      refine .own virt' b' (hrest _ hmem fun heq => ?_) hv hphys
      cases heq
      exact hrange hv
  | shared b hb hphys => exact .shared b hb hphys
  | ring b hb hphys => exact .ring b hb hphys
  | loaded b hb hphys hwrite => exact .loaded b hb hphys hwrite
  | image elf helf hphys hwrite => exact .image elf helf hphys hwrite

end AddressSpace

/-! ## Certificates in an address space -/

/-- A table has the capability pages where a process expects them. -/
def SeesCertificates (P : Platform) (t : PageTable) : Prop :=
  ∀ v ∈ capabilityRegion.addresses, ∃ flags : PageFlags, flags.read = true ∧
    t.translate v = some (physOf P.capabilityPages + (v - capabilityRegion.start), flags)

lemma capabilityRegion_lt (hv : v ∈ capabilityRegion.addresses) : v < virtualAddresses.stop :=
  lt_of_lt_of_le hv.2 (by decide)

namespace SeesCertificates

/-- Nothing can be mapped over the certificates. -/
lemma not_mem_map (h : SeesCertificates P t) (ht : Built t)
    (hmap : t.map virt phys size flags = .ok t') :
    ∀ v ∈ Set.Ico virt (virt + size), v ∉ capabilityRegion.addresses := by
  intro v hv hregion
  obtain ⟨f, -, htranslate⟩ := h v hregion
  rw [(PageTable.map_translate ht hmap).2.1 v hv] at htranslate
  cases htranslate

lemma map (h : SeesCertificates P t) (ht : Built t)
    (hmap : t.map virt phys size flags = .ok t') : SeesCertificates P t' := by
  intro v hregion
  have hnot : v ∉ Set.Ico virt (virt + size) := fun hv => h.not_mem_map ht hmap v hv hregion
  rw [(PageTable.map_translate ht hmap).2.2.2 v (capabilityRegion_lt hregion) hnot]
  exact h v hregion

lemma unmap (h : SeesCertificates P t) (ht : Built t) (hunmap : t.unmap virt phys size = .ok t')
    (hout : ∀ v ∈ Set.Ico virt (virt + size), v ∉ capabilityRegion.addresses) :
    SeesCertificates P t' := by
  intro v hregion
  have hnot : v ∉ Set.Ico virt (virt + size) := fun hv => hout v hv hregion
  rw [(PageTable.unmap_translate ht hunmap).2 v (capabilityRegion_lt hregion) hnot]
  exact h v hregion

end SeesCertificates

/-! ## Processes -/

/-- The address space of a process that has been created. -/
structure CompleteSpace (P : Platform) (k : Kernel) (id : ProcessId) (t : PageTable)
    (allocated : List (ℕ × Backing)) : Prop where
  space : AddressSpace P k id t allocated
  certificates : SeesCertificates P t
  id_lt : id.asU16 < processCount

/-- The address space of a process is complete. -/
abbrev Process.Space (P : Platform) (k : Kernel) (proc : Process) : Prop :=
  CompleteSpace P k proc.id proc.pageTable proc.allocated

/-- The memory on the allocated list of a process. -/
def Process.memory (proc : Process) : Set Backing := {b | ∃ virt, (virt, b) ∈ proc.allocated}

/-- `swap_remove` takes out one element, and the order does not matter. -/
lemma perm_swapRemove {α : Type} {l : List α} {index : ℕ} {x : α} (h : l[index]? = some x) :
    l.Perm (x :: swapRemove l index) := by
  obtain ⟨hlt, rfl⟩ := List.getElem?_eq_some_iff.mp h
  have hnil : l ≠ [] := List.ne_nil_of_length_pos (by omega)
  have hset := List.set_perm_cons_eraseIdx hlt (l.getLast hnil)
  have hlast : (l.set index (l.getLast hnil)).getLast (by simpa using hnil) = l.getLast hnil := by
    rw [List.getLast_eq_getElem, List.getLast_eq_getElem, List.getElem_set]
    simp
  rw [swapRemove, List.getLast?_eq_some_getLast hnil]
  -- the last element stands twice in the list before it is dropped
  have hsplit := List.dropLast_concat_getLast (l := l.set index (l.getLast hnil)) (by simpa using hnil)
  rw [hlast] at hsplit
  have hdrop : (l.set index (l.getLast hnil)).dropLast.Perm (l.eraseIdx index) := by
    refine List.Perm.cons_inv (a := l.getLast hnil) ?_
    refine List.Perm.trans ?_ hset
    conv_rhs => rw [← hsplit]
    exact (List.perm_append_singleton _ _).symm
  exact (List.getElem_cons_eraseIdx_perm hlt).symm.trans (hdrop.symm.cons _)

/-- What `dealloc` does with the entry that it finds. -/
lemma Process.dealloc_cases {ptr : ℕ} (h : proc.dealloc ptr = .ok (some (proc', b))) :
    ∃ slot phys table heap,
      proc.allocated.find? (fun entry => entry.1 = ptr) = some (ptr, b) ∧
      proc.allocated[slot]? = some (ptr, b) ∧ virtToPhys b.ptr = .ok phys ∧
      proc.pageTable.unmap ptr phys b.byteSize = .ok table ∧
      proc.heap.dealloc ptr b.layout = .ok heap ∧
      proc' = { proc with
        allocated := swapRemove proc.allocated slot
        pageTable := table
        heap := heap } := by
  simp only [Process.dealloc] at h
  split at h
  · cases h
  · next virt backing slot hfind =>
      obtain ⟨phys, hphys, h⟩ := Checked.bind_eq_ok.mp h
      obtain ⟨table, hunmap, h⟩ := Checked.bind_eq_ok.mp h
      obtain ⟨heap, hheap, h⟩ := Checked.bind_eq_ok.mp h
      cases h
      obtain rfl : virt = ptr := by simpa using List.find?_some hfind
      have hindex : proc.allocated[slot]? = some (virt, b) :=
        List.mem_zipIdx_iff_getElem?.mp (List.mem_of_find?_eq_some hfind)
      refine ⟨slot, phys, table, heap, ?_, hindex, hphys, hunmap, hheap, rfl⟩
      have hfirst := congrArg (Option.map Prod.fst) hfind
      have hmap := List.find?_map (f := Prod.fst) (p := fun entry => entry.1 = virt)
        (l := proc.allocated.zipIdx)
      rw [List.zipIdx_map_fst] at hmap
      exact hmap.trans hfirst

/-- `alloc_at` outside of the region of the certificates. -/
lemma AddressSpace.allocAt
    (h : AddressSpace P k proc.id proc.pageTable proc.allocated)
    (hout : ∀ v ∈ Set.Ico virt (virt + b.byteSize), v ∉ capabilityRegion.addresses)
    (halloc : proc.allocAt virt b flags = .ok proc') :
    AddressSpace P k proc'.id proc'.pageTable proc'.allocated ∧
      proc'.allocated = proc.allocated ++ [(virt, b)] := by
  obtain ⟨phys, hphys, halloc⟩ := Checked.bind_eq_ok.mp halloc
  obtain ⟨table, hmap, halloc⟩ := Checked.bind_eq_ok.mp halloc
  cases halloc
  refine ⟨(h.append hout).map hmap fun v hv => ?_, rfl⟩
  obtain rfl := virtToPhys_eq hphys
  have hlt : v - virt < b.byteSize := by
    have h1 : virt ≤ v := hv.1
    have h2 : v < virt + b.byteSize := hv.2
    omega
  exact .own virt b (by simp) hv (Backing.add_mem_frames hlt)

namespace CompleteSpace

lemma mono (h : CompleteSpace P k id t allocated) (hgrows : k.Grows k') :
    CompleteSpace P k' id t allocated :=
  ⟨h.space.mono hgrows, h.certificates, h.id_lt⟩

/-- A `map` in a process that has been created. -/
lemma map (h : CompleteSpace P k id t allocated) (hmap : t.map virt phys size flags = .ok t')
    (howner : ∀ v ∈ Set.Ico virt (virt + size),
      Owner P k id allocated v (phys + (v - virt)) flags) :
    CompleteSpace P k id t' allocated :=
  ⟨h.space.map hmap howner, h.certificates.map h.space.built hmap, h.id_lt⟩

/-- A `map` of memory that an object of the kernel owns. -/
lemma mapFrames (h : CompleteSpace P k id t allocated)
    (hmap : t.map virt phys size flags = .ok t') (hphys : virtToPhys b.ptr = .ok phys)
    (hsize : size = b.byteSize)
    (howner : ∀ v p, p ∈ b.frames → Owner P k id allocated v p flags) :
    CompleteSpace P k id t' allocated := by
  obtain rfl := virtToPhys_eq hphys
  refine h.map hmap fun v hv => howner v _ (Backing.add_mem_frames ?_)
  have h1 := hv.1
  have h2 := hv.2
  omega

/-- `Process::alloc` -/
lemma alloc (h : proc.Space P k) {r : Except AllocError ℕ}
    (halloc : proc.alloc b flags = .ok (r, proc')) :
    proc'.Space P k ∧ proc'.memory ⊆ insert b proc.memory := by
  obtain ⟨⟨result, heap⟩, -, halloc⟩ := Checked.bind_eq_ok.mp halloc
  cases result with
  | error e =>
      cases halloc
      exact ⟨h, Set.subset_insert b proc.memory⟩
  | ok virt =>
      obtain ⟨proc₁, hallocAt, halloc⟩ := Checked.bind_eq_ok.mp halloc
      cases halloc
      obtain ⟨phys, -, hmap⟩ := Checked.bind_eq_ok.mp hallocAt
      obtain ⟨table, hmap, hresult⟩ := Checked.bind_eq_ok.mp hmap
      have hcertificates := h.certificates.map h.space.built hmap
      have hout := h.certificates.not_mem_map h.space.built hmap
      let proc₀ : Process := { proc with heap := heap }
      have hspace₀ : AddressSpace P k proc₀.id proc₀.pageTable proc₀.allocated := h.space
      obtain ⟨hspace, hallocated⟩ := hspace₀.allocAt hout hallocAt
      cases hresult
      refine ⟨⟨hspace, hcertificates, h.id_lt⟩, ?_⟩
      rintro c ⟨virt', hmem⟩
      rw [hallocated] at hmem
      rcases List.mem_append.mp hmem with hmem | hmem
      · exact Or.inr ⟨virt', hmem⟩
      · cases List.mem_singleton.mp hmem
        exact Or.inl rfl

/-- `Process::dealloc` -/
lemma dealloc (h : proc.Space P k) {ptr : ℕ}
    (hdealloc : proc.dealloc ptr = .ok (some (proc', b))) :
    proc'.Space P k ∧ b ∈ proc.memory ∧ proc'.memory ⊆ proc.memory := by
  obtain ⟨slot, phys, table, heap, -, hindex, -, hunmap, -, rfl⟩ := Process.dealloc_cases hdealloc
  have hmem : (ptr, b) ∈ proc.allocated := List.mem_of_getElem? hindex
  have hperm := perm_swapRemove hindex
  have hsub : swapRemove proc.allocated slot ⊆ proc.allocated := fun entry hentry =>
    hperm.mem_iff.mpr (List.mem_cons_of_mem _ hentry)
  have hspace := h.space.unmap hunmap hsub fun entry hentry hne =>
    (List.mem_cons.mp (hperm.mem_iff.mp hentry)).resolve_left hne
  have hcertificates := h.certificates.unmap h.space.built hunmap
    (h.space.outside ptr b hmem)
  exact ⟨⟨hspace, hcertificates, h.id_lt⟩, ⟨ptr, hmem⟩,
    fun c hc => hc.imp fun _ hc => hsub hc⟩

end CompleteSpace

lemma Kernel.getMapping_eq_ok {index : ℕ} {mapping : VirtualMemoryMapping}
    (h : k.getMapping index = .ok mapping) : k.mappings[index]? = some mapping := by
  simp only [getMapping] at h
  split at h
  · next hsome => rw [hsome, Except.ok.inj h]
  · cases h

namespace CompleteSpace

/-- `shared_memory_map` -/
lemma sharedMemoryMap (h : proc.Space P k) (hpages : ∀ b ∈ k.loadedPages, b.byteSize = pageSize)
    {handler : Handler} (hhandler : handler ∈ k.handlers)
    (hmap : k.sharedMemoryMap handler virt proc = .ok proc') :
    proc'.Space P k ∧ proc'.allocated = proc.allocated := by
  cases handler with
  | sharedMemory backing =>
      obtain ⟨phys, hphys, hmap⟩ := Checked.bind_eq_ok.mp hmap
      obtain ⟨table, htable, hmap⟩ := Checked.bind_eq_ok.mp hmap
      cases hmap
      exact ⟨h.mapFrames htable hphys rfl fun v p hp => .shared backing hhandler hp, rfl⟩
  | mapping index =>
      obtain ⟨mapping, hmapping, hmap⟩ := Checked.bind_eq_ok.mp hmap
      obtain ⟨table, hfold, hmap⟩ := Checked.bind_eq_ok.mp hmap
      cases hmap
      have hmem := List.mem_of_getElem? (Kernel.getMapping_eq_ok hmapping)
      refine ⟨?_, rfl⟩
      refine Checked.foldlM_keeps (fun t => CompleteSpace P k proc.id t proc.allocated) h ?_ hfold
      rintro ⟨i, page⟩ hentry t t' ht hstep
      obtain ⟨phys, hphys, hstep⟩ := Checked.bind_eq_ok.mp hstep
      have hpage : page ∈ k.loadedPages := ⟨mapping, hmem, i, hentry⟩
      exact ht.mapFrames hstep hphys (hpages page hpage).symm fun v p hp =>
        .loaded page hpage hp rfl
  | display => cases hmap
  | keyboard => cases hmap
  | mouse => cases hmap
  | drive => cases hmap
  | network => cases hmap
  | shutdown => cases hmap
  | spawner elf => cases hmap

end CompleteSpace

/-! ## Tables that the hart may use -/

/-- A table through which the certificates can be read, and those of the kernel not be written. -/
structure Tame (P : Platform) (t : PageTable) : Prop where
  certificates : SeesCertificates P t
  writable : ∀ v < directMapping.start, ∀ phys flags, t.translate v = some (phys, flags) →
    flags.write = true → phys ∉ P.capabilityPage .kernel

/-- Memory of the heap is not where the certificates are. -/
lemma Platform.not_mem_capabilityPage (P : Platform) {p : ℕ} (hp : p ∈ P.heapFrames)
    (actor : Actor) : p ∉ P.capabilityPage actor := fun hpage =>
  Set.disjoint_left.mp P.disjoint_heapFrames_imageFrames hp (P.capabilityPage_subset actor hpage)

/-- Of the capability pages, a process can write its own. -/
lemma CompleteSpace.writes_own (h : CompleteSpace P k id t allocated) {S : Set Backing}
    (hheap : k.HeapOk P S k.pinned) (hmemory : ∀ virt b, (virt, b) ∈ allocated → b ∈ S)
    (hshared : k.sharedMemory ⊆ S) (hv : v < directMapping.start)
    (htranslate : t.translate v = some (phys, flags)) (hwrite : flags.write = true) {actor : Actor}
    (hphys : phys ∈ P.capabilityPage actor) : actor.pageIndex = id.asU16 := by
  cases h.space.owner v (hv.trans (by decide)) phys flags htranslate with
  | direct hv' huser => exact absurd hv (Nat.not_lt.mpr hv')
  | capability hregion hphys' hown =>
      -- the page is the one of the process
      rw [← hown hwrite]
      obtain ⟨hle, hlt⟩ := hphys
      refine (Nat.div_eq_of_lt_le ?_ ?_).symm
      · omega
      · rw [Nat.succ_mul]
        omega
  | own virt b hmem hv' hframe =>
      have hheap' := (hheap.frames (Or.inl (hmemory virt b hmem)) hframe).1
      exact absurd hphys (P.not_mem_capabilityPage hheap' _)
  | shared b hb hframe =>
      exact absurd hphys (P.not_mem_capabilityPage (hheap.frames (Or.inl (hshared hb)) hframe).1 _)
  | ring b hb hframe =>
      have hheap' := (hheap.frames (Or.inr (Or.inl hb)) hframe).1
      exact absurd hphys (P.not_mem_capabilityPage hheap' _)
  | loaded b hb hframe hreadonly =>
      rw [hwrite] at hreadonly
      cases hreadonly
  | image elf helf hframe hreadonly =>
      rw [hwrite] at hreadonly
      cases hreadonly

/-- The table of a process is tame. -/
lemma CompleteSpace.tame (h : CompleteSpace P k id t allocated) {S : Set Backing}
    (hheap : k.HeapOk P S k.pinned) (hmemory : ∀ virt b, (virt, b) ∈ allocated → b ∈ S)
    (hshared : k.sharedMemory ⊆ S) : Tame P t := by
  refine ⟨h.certificates, fun v hv phys f htranslate hwrite hphys => ?_⟩
  have hpage := h.writes_own hheap hmemory hshared hv htranslate hwrite hphys
  rw [Actor.pageIndex_kernel] at hpage
  exact id.pos.ne hpage

end Deravel
