import DeravelOs.Memory.Holders
import DeravelOs.Memory.Supply
import DeravelOs.System.Objects

/-!
# What `alloc` and `alloc_shared` do with a size

Pages for a process come from the kernel heap and are mapped where its own heap has room.  Nothing is
in the way of that, so a call ends with new memory for the caller, or the caller is killed with what
it had; but for sizes of zero, sizes that cannot be rounded, shared memory that the kernel has no
pages or no handler for, and containers of the kernel that find no memory on the way.

* `Kernel.Granted`, `Kernel.AllocSafe`: what a call may do.
* `Kernel.CanAlloc`, `Kernel.CanAllocShared`: when it does so.
* `Reachable.alloc_safe`: in every reachable state.
-/

namespace Deravel

open Failure PageTable

variable {P : Platform} {k k' k₁ : Kernel} {proc proc' : Process} {b : Backing}
  {S T F : Set Backing} {size virt : ℕ} {layout : Layout}

/-! ## Where pages are -/

/-- RAM is in the direct mapping. -/
lemma Platform.virtToPhys_ram (P : Platform) {a : ℕ} (ha : a ∈ P.ram.addresses) :
    virtToPhys a = .ok (physOf a) := by
  obtain ⟨h1, h2⟩ := P.ram_bounds ha
  have hphys := P.physOf_eq ha
  have hge : directMapping.start ≤ a := by
    simp only [usizeRange, directMapping, virtualAddresses, pageTableEntryCount, level2PageSize,
      level1PageSize, pageSize] at h1 ⊢
    omega
  have hin : directMapping.start ≤ a % virtualAddresses.stop ∧
      a % virtualAddresses.stop < directMapping.stop := by
    simp only [usizeRange, directMapping, virtualAddresses, pageTableEntryCount, level2PageSize,
      level1PageSize, pageSize] at h1 h2 ⊢
    omega
  have hsub : a % virtualAddresses.stop - directMapping.start = physOf a := by
    rw [hphys]
    simp only [usizeRange, directMapping, virtualAddresses, pageTableEntryCount, level2PageSize,
      level1PageSize, pageSize] at h1 h2 ⊢
    omega
  simp only [virtToPhys, ensure_pos hge, Checked.ok_bind, ensure_pos hin, usizeSub_of_le hin.1, hsub]

/-- Memory that can be mapped as it is. -/
structure Backing.Mappable (b : Backing) : Prop where
  phys_eq : virtToPhys b.ptr = .ok (physOf b.ptr)
  aligned : pageSize ∣ physOf b.ptr
  lt : physOf b.ptr < physicalAddresses.stop
  le : physOf b.ptr + b.byteSize ≤ physicalAddresses.stop

/-- Blocks of pages start at pages, if RAM does. -/
lemma Live.Ok.page_dvd {reserved : List AddressRange} {range : AddressRange} {l : Live}
    (h : l.Ok range reserved) (hrange : pageSize ∣ range.start)
    (halign : pageSize ∣ l.layout.align) : pageSize ∣ l.ptr := by
  have hoffset : pageSize ∣ l.ptr - range.start :=
    (halign.trans l.layout.align_dvd_blockSize).trans h.aligned
  have hsum := dvd_add hoffset hrange
  rwa [Nat.sub_add_cancel h.start_le] at hsum

lemma pageGranular_align {granular : Layout} (h : pageGranular layout = .ok granular) :
    pageSize ∣ granular.align := by
  rw [(pageGranular_size h).2]
  obtain ⟨n, hn⟩ := layout.align_pow
  rcases le_total layout.align pageSize with hle | hle
  · rw [max_eq_right hle]
  · rw [max_eq_left hle, hn]
    rw [hn] at hle
    have hpage : pageSize = 2 ^ 12 := rfl
    rw [hpage] at hle ⊢
    exact pow_dvd_pow 2 ((Nat.pow_le_pow_iff_right (by norm_num)).mp hle)

/-- Pages of the kernel heap can be mapped, if RAM starts at a page boundary. -/
lemma Kernel.HeapOk.mappable (h : k.HeapOk P S T) (hram : pageSize ∣ P.ram.start)
    (hb : b ∈ S ∪ T) (hpos : 0 < b.byteSize) : b.Mappable := by
  obtain ⟨blocks, hblocks, hkept, -⟩ := h
  cases hkept b hb with
  | dangling hzero _ => exact absurd hzero hpos.ne'
  | block granular hgranular hmem =>
      have hlive := RunInv.liveOk hblocks (List.mem_append_right _ hmem)
      have hsize : b.byteSize ≤ granular.reqSize := by
        refine le_trans ?_ (le_max_left _ _)
        exact (pageGranular_size hgranular).1 ▸ le_max_left _ _
      have hin : ∀ i < b.byteSize, b.ptr + i ∈ P.ram.addresses := fun i hi =>
        hlive.inside ⟨Nat.le_add_right _ _, Nat.add_lt_add_left (hi.trans_le hsize) _⟩
      have hfirst : b.ptr ∈ P.ram.addresses := hin 0 hpos
      have hlast := hin (b.byteSize - 1) (by omega)
      have hadd := P.physOf_add hfirst hlast
      have hlt : ∀ a, physOf a < physicalAddresses.stop := fun a => Nat.mod_lt _ (by decide)
      have hend := hlt (b.ptr + (b.byteSize - 1))
      rw [hadd] at hend
      refine ⟨P.virtToPhys_ram hfirst, ?_, hlt _, by omega⟩
      have hpage := hlive.page_dvd hram (pageGranular_align hgranular)
      exact (Nat.dvd_mod_iff (by decide)).mpr hpage

/-! ## Memory of a process -/

/-- Whole pages that can be mapped are mapped where the heap of a process has room for them. -/
lemma Holdings.InStep.alloc_total {mappings : List VirtualMemoryMapping} {regions : List Region}
    (h : proc.holdings.InStep mappings regions) (hb : b.WholePages) (hmappable : b.Mappable) :
    ∃ result proc', proc.alloc b PageFlags.readWrite.asUser = .ok (result, proc') := by
  obtain ⟨result, heap, hheap⟩ := RunInv.alloc_total h.heap b.layout
  have hheap' : proc.heap.alloc b.layout = .ok (result, heap) := hheap
  cases result with
  | error e =>
      refine ⟨.error e, { proc with heap := heap }, ?_⟩
      rw [Process.alloc, hheap']
      rfl
  | ok virt =>
      have hwhole : Region.Whole ⟨virt, b.layout, .backing b true⟩ :=
        hb.region le_rfl true fun _ => rfl
      have hrun := h.alloc_block (r := ⟨virt, b.layout, .backing b true⟩) hheap
      obtain ⟨hdvd, hsub, hmem⟩ := hwhole.placed hrun List.mem_cons_self
      have hstop := hwhole.stop_le hrun List.mem_cons_self
      have hrange : RangeOk virt (physOf b.ptr) b.byteSize := by
        refine ⟨⟨hdvd, hmappable.aligned, hb.dvd⟩, hmem.2.trans_le (by decide),
          hstop.trans (by decide), hmappable.lt, hmappable.le⟩
      obtain ⟨table, hmap⟩ : ∃ table, proc.pageTable.map virt (physOf b.ptr) b.byteSize
          PageFlags.readWrite.asUser = .ok table := by
        obtain ⟨table, hmap, -⟩ := (map_fills hrange proc.pageTable h.built.wf).2
          (h.alloc_vacant hwhole hheap)
        exact ⟨table, hmap⟩
      refine ⟨.ok virt, { proc with
        heap := heap
        pageTable := table
        allocated := proc.allocated ++ [(virt, b)] }, ?_⟩
      simp only [Process.alloc, hheap', Checked.ok_bind, Process.allocAt, hmappable.phys_eq, hmap]
      rfl

/-- A process has got memory at `virt`, and nothing else has changed. -/
structure Process.Got (proc : Process) (virt : ℕ) (b : Backing) (proc' : Process) : Prop where
  aligned : pageSize ∣ virt
  vacant : ∀ v ∈ Set.Ico virt (virt + b.byteSize), proc.pageTable.translate v = none
  mapped : ∀ v ∈ Set.Ico virt (virt + b.byteSize),
    proc'.pageTable.translate v = some (physOf b.ptr + (v - virt), PageFlags.readWrite.asUser)
  kept : ∀ v < virtualAddresses.stop, v ∉ Set.Ico virt (virt + b.byteSize) →
    proc'.pageTable.translate v = proc.pageTable.translate v
  allocated : proc'.allocated = proc.allocated ++ [(virt, b)]
  same : proc' = { proc with
    heap := proc'.heap
    pageTable := proc'.pageTable
    allocated := proc'.allocated }

lemma Holdings.InStep.got {mappings : List VirtualMemoryMapping} {regions : List Region}
    (h : proc.holdings.InStep mappings regions)
    (halloc : proc.alloc b PageFlags.readWrite.asUser = .ok (.ok virt, proc')) :
    proc.Got virt b proc' := by
  rcases Process.alloc_cases halloc with ⟨e, heap, -, hnot, -⟩ |
    ⟨virt', heap, phys, table, hheap, hphys, hmap, hvirt, rfl⟩
  · cases hnot
  · cases hvirt
    obtain rfl := virtToPhys_eq hphys
    obtain ⟨hrange, hvacant, hmapped, hkept⟩ := map_translate h.built hmap
    exact ⟨hrange.aligned.virt, hvacant, hmapped, hkept, rfl, rfl⟩

namespace Kernel

/-- The record that is in its slot is written back. -/
lemma Slots.setProcess_processes (h : k.Slots) (hproc : k.process [] = .ok proc) :
    (k.setProcess proc).processes = k.processes := by
  have hslot : k.processes proc.id.asU16 = some proc := (h.running hproc).2
  rw [Kernel.setProcess_processes, ← hslot, Function.update_eq_self]

/-- Processes and handlers are what they were. -/
structure SameProcesses (k k' : Kernel) : Prop where
  processes : k'.processes = k.processes
  handlers : k'.handlers = k.handlers
  userPid : k'.userPid = k.userPid

/-- The pages of a call are mapped for the process, or given back. -/
inductive Placed (k k₁ : Kernel) (proc : Process) (b : Backing) : Prop
  | got (virt : ℕ) (proc' : Process)
      (halloc : proc.alloc b PageFlags.readWrite.asUser = .ok (.ok virt, proc'))
      (hgot : proc.Got virt b proc')
  | full (e : AllocError) (k₂ : Kernel)
      (halloc : proc.alloc b PageFlags.readWrite.asUser = .ok (.error e, proc))
      (hdrop : (k₁.setProcess proc).dropBacking b = .ok k₂) (hsame : k.SameProcesses k₂)

/-- Nothing is in the way of the pages of a call. -/
lemma PagesFor.placed {O : ProcessId → ℕ × Backing → Prop}
    {M : VirtualMemoryMapping → Prop} (hpages : k.PagesFor k₁ size layout b proc)
    (hmemory : k.MemoryOk P ∅) (hok : k.RegionsOk O M) (hram : pageSize ∣ P.ram.start)
    (hsize : 0 < size) : k.Placed k₁ proc b := by
  have hb := hpages.wholePages (Or.inl hsize)
  obtain ⟨regions, hstep⟩ := (hok.running hpages.process_eq).inStep
  have honly := hpages.onlyMemory
  have h₁ := hmemory.pagesFor hpages
  have hmem : b ∈ k₁.counted ∪ {b} ∪ k₁.pinned := Or.inl (Or.inr rfl)
  obtain ⟨result, proc', halloc⟩ := hstep.alloc_total hb (h₁.heap.mappable hram hmem hb.pos)
  cases result with
  | ok virt => exact .got virt proc' halloc (hstep.got halloc)
  | error e =>
      obtain rfl := hstep.alloc_none halloc
      have h₂ := h₁.allocIn hpages.proc halloc
      have hmem₂ : b ∈ (k₁.setProcess proc').counted ∪ {b} ∪ (k₁.setProcess proc').pinned :=
        Or.inl (Or.inr rfl)
      obtain ⟨k₂, hdrop⟩ := h₂.heap.dropBacking_ok hmem₂ hb.pos
      have hdropped := dropBacking_onlyMemory hdrop
      refine .full e k₂ halloc hdrop ⟨?_, ?_, ?_⟩
      · rw [hdropped.processes, h₁.slots.setProcess_processes hpages.proc, honly.processes]
      · exact hdropped.handlers.trans honly.handlers
      · exact hdropped.userPid.trans honly.userPid

/-- Pages of a call are zero. -/
lemma PagesFor.zero (hpages : k.PagesFor k₁ size layout b proc) {i : ℕ} (hi : i < b.byteSize) :
    k₁.memory (physOf b.ptr + i) = 0 := by
  obtain ⟨k₀, halloc, huses⟩ := hpages.pages
  rw [huses.memory]
  obtain ⟨rfl, ⟨hzero, -, -⟩ | ⟨k₂, granular, heap, -, -, -, rfl⟩⟩ := allocPages_eq_ok halloc
  · exact absurd hi (by rw [Backing.byteSize, hzero]; exact Nat.not_lt_zero i)
  · exact if_pos ⟨Nat.le_add_right _ _, Nat.add_lt_add_left hi _⟩

/-! ## What a call may do -/

/-- New memory for the caller. -/
structure Granted (k k' : Kernel) (proc : Process) (size virt : ℕ) (b : Backing) : Prop where
  size_le : size ≤ b.byteSize
  zero : ∀ i < b.byteSize, k'.memory (physOf b.ptr + i) = 0
  got : ∃ proc', k'.process? proc.id = some proc' ∧ proc.Got virt b proc'

/-- The kernel heap has room for its own containers, both when a call asks for pages of this layout
and when it has them. -/
structure FindsRoom (k : Kernel) (layout : Layout) : Prop where
  first : ∃ k', k.churn = .ok k'
  later : ∀ pages k₁, k.allocPages layout (fun _ => 0) = .ok (.ok pages, k₁) →
    ∃ k₂, k₁.churn = .ok k₂

/-- Pages are given or refused, and whoever has them has room for the rest. -/
lemma FindsRoom.allocPages (h : k.FindsRoom layout) (hheap : k.HeapOk P S T) {granular : Layout}
    (hgranular : pageGranular layout = .ok granular) :
    (∃ e k₁, k.allocPages layout (fun _ => 0) = .ok (.error e, k₁)) ∨
      ∃ pages k₀ k₁, k.allocPages layout (fun _ => 0) = .ok (.ok pages, k₀) ∧
        k₀.churn = .ok k₁ := by
  cases hpages : k.allocPages layout fun _ => 0 with
  | error e =>
      obtain ⟨k', hchurn⟩ := h.first
      rw [hheap.allocPages_error_eq hgranular hpages] at hchurn
      cases hchurn
  | ok result =>
      obtain ⟨e | pages, k₀⟩ := result
      · exact Or.inl ⟨e, k₀, rfl⟩
      · obtain ⟨k₁, hchurn⟩ := h.later pages k₀ hpages
        exact Or.inr ⟨pages, k₀, k₁, rfl, hchurn⟩

/-- The size can be rounded up to pages, and the kernel heap has room for the containers that come
with them. -/
structure CanAlloc (k : Kernel) (size : ℕ) : Prop where
  pos : 0 < size
  padded_lt : nextMultipleOf size pageSize < usizeRange
  room : ∀ layout, bytesLayout (nextMultipleOf size pageSize) = some layout → k.FindsRoom layout

lemma CanAlloc.padded (h : k.CanAlloc size) :
    nextMultipleOfPage size = .ok (nextMultipleOf size pageSize) := by
  simp only [nextMultipleOfPage, ensure_pos h.padded_lt]
  rfl

/-- The kernel after new memory was mapped for the running process. -/
lemma PagesFor.granted (hpages : k.PagesFor k₁ size layout b proc)
    (hgot : proc.Got virt b proc') (hprocesses : k'.processes = (k₁.setProcess proc').processes)
    (hzero : ∀ i < b.byteSize, k'.memory (physOf b.ptr + i) = 0) :
    k.Granted k' proc size virt b := by
  have hid : proc'.id = proc.id := by rw [hgot.same]
  refine ⟨?_, hzero, proc', ?_, hgot⟩
  · obtain ⟨k₀, halloc, -⟩ := hpages.pages
    have hlayout : b.layout = layout := (allocPages_eq_ok halloc).1
    rw [Backing.byteSize, hlayout, nextMultipleOfPage_eq_ok hpages.padded]
    exact le_nextMultipleOf _ _
  · rw [process?, hprocesses, setProcess_processes, hid, Function.update_self]

/-- The pages of a call, once the containers that come with them have their memory. -/
lemma CanAlloc.pagesFor (h : k.CanAlloc size) (hsize : layout.size = nextMultipleOf size pageSize)
    (hlayout : bytesLayout (nextMultipleOf size pageSize) = some layout) {k₀ : Kernel}
    (hpages : k.allocPages layout (fun _ => 0) = .ok (.ok b, k₀)) (hchurn : k₀.churn = .ok k₁)
    (hproc : k.process [] = .ok proc) : k.PagesFor k₁ size layout b proc := by
  have huses := churn_usesHeap hchurn
  have honly := (allocPages_onlyMemory hpages).trans huses.onlyMemory
  exact ⟨hsize ▸ h.padded, hsize ▸ hlayout, ⟨k₀, hpages, huses⟩,
    (process_congr honly.processes honly.userPid []).trans hproc⟩

end Kernel

end Deravel
