import DeravelOs.Lib.Chunks
import DeravelOs.System.Allocating
import DeravelOs.System.Containment
import DeravelOs.System.Paging

/-!
# A region of the drive shows the disk

`read_mapped` makes a region of the drive a mapping, and a process that faults in a range of it gets
the page with the sectors that belong there.  On the way from the address of a byte to its place on
the disk there are four computations: the index of the page in `handle_page_fault`, the address of
the page in `load_page` of the mapping, the first sector of the page and the place of the sector in
the page in `load_page` of the loader.

* `Kernel.loadSectors_eq`: the last two read consecutive bytes.
* `VirtualMemoryMapping.Shows`: the pages that a mapping has hold the bytes of the disk.
* `Reachable.drive_region`: a process sees the bytes of the disk, whatever the order of its faults.
-/

namespace Deravel

open Failure PageTable

variable {P : Platform} {k k' k₁ : Kernel} {proc proc' : Process} {b c : Backing} {mode : Mode}
  {mapping : VirtualMemoryMapping} {bytes : ℕ → UInt8} {range : AddressRange}
  {index first count capacity stval : ℕ} {stvals : List ℕ}

/-! ## Sectors -/

/-- The bytes of a sector. -/
def sectorSize : ℕ := 512

/-- The drive reads a disk of `capacity` sectors with these bytes. -/
def Oracle.Reads (oracle : Oracle) (bytes : ℕ → UInt8) (capacity : ℕ) : Prop :=
  ∀ sector < capacity,
    oracle.disk sector = .ok ((List.range sectorSize).map fun i => bytes (sector * sectorSize + i))

/-- **The sectors of a page are consecutive bytes of the disk.** -/
theorem Kernel.loadSectors_eq (hread : k.oracle.Reads bytes capacity)
    (hcapacity : capacity ≤ usizeRange) {pageIndex : ℕ}
    (hdisk : first * sectorSize + pageSize * pageIndex + pageSize ≤ capacity * sectorSize) :
    k.loadSectors first pageIndex = .ok ((List.range pageSize).map fun i =>
      bytes (first * sectorSize + pageSize * pageIndex + i)) := by
  have hsector : sectorSize = 512 := rfl
  have hpage : pageSize = 4096 := rfl
  rw [hsector, hpage] at hdisk
  have hoffset : pageIndex * pageSize / 512 = 8 * pageIndex := by
    rw [hpage]
    omega
  have hsectors : (List.range (pageSize / 512)).mapM (fun i => do
      let sector ← usizeAdd .diskRead (first + 8 * pageIndex) i
      k.oracle.disk sector) = .ok ((List.range (pageSize / 512)).map fun i =>
        (List.range sectorSize).map fun j =>
          bytes (first * sectorSize + pageSize * pageIndex + (i * sectorSize + j))) := by
    refine Checked.mapM_of_ok fun i hi => ?_
    have hi : i < 8 := List.mem_range.mp hi
    rw [usizeAdd_of_lt (by omega), Checked.ok_bind, hread _ (by omega)]
    refine congrArg Except.ok (List.map_congr_left fun j _ => congrArg bytes ?_)
    rw [hsector, hpage]
    omega
  rw [loadSectors, hoffset, usizeAdd_of_lt (by omega), Checked.ok_bind, hsectors, Checked.ok_bind,
    Chunks.flatten_range fun i => bytes (first * sectorSize + pageSize * pageIndex + i)]
  rfl

/-! ## Pages -/

/-- The memory behind a page of a mapping holds the bytes of the disk that belong there. -/
def VirtualMemoryMapping.Shows (mapping : VirtualMemoryMapping) (bytes memory : ℕ → UInt8) : Prop :=
  ∀ i b, (i, b) ∈ mapping.backedPages → ∀ offset < pageSize,
    memory (physOf b.ptr + offset) =
      bytes (mapping.sectorOffset * sectorSize + (pageSize * i + offset))

namespace Kernel

/-- New pages do not overlap memory that is kept. -/
lemma HeapOk.allocPages_apart {S T : Set Backing} (h : k.HeapOk P S T) {layout : Layout}
    {contents : ℕ → UInt8} (halloc : k.allocPages layout contents = .ok (.ok b, k'))
    (hc : c ∈ S ∪ T) {p : ℕ} (hp : p ∈ c.frames) : p ∉ b.frames := by
  obtain ⟨blocks, hblocks, hkept, -⟩ := h
  obtain ⟨blocks', hblocks', hsub, hb, -, hne⟩ := hblocks.allocPages halloc
  cases hkept c hc with
  | dangling hsize _ =>
      simp only [Backing.frames, hsize, add_zero, Set.Ico_self, Set.mem_empty_iff_false] at hp
  | block granular hgranular hmem =>
      exact hblocks'.disjoint_frames (.block granular hgranular (hsub hmem)) hb (hne _ hmem) hp

/-- New pages hold what they were made with. -/
lemma allocPages_inside {layout : Layout} {contents : ℕ → UInt8}
    (h : k.allocPages layout contents = .ok (.ok b, k')) {i : ℕ} (hi : i < layout.size) :
    k'.memory (physOf b.ptr + i) = contents i := by
  rcases (allocPages_eq_ok h).2 with ⟨hzero, -, -⟩ | ⟨k₁, granular, heap, -, -, -, rfl⟩
  · omega
  · simp only [fillMemory]
    rw [if_pos ⟨Nat.le_add_right _ _, Nat.add_lt_add_left hi _⟩, Nat.add_sub_cancel_left]

end Kernel

/-- **The page that `load_page` adds shows the disk,** and the others still do. -/
theorem Kernel.MemoryOk.loadPage_shows {F : Set Backing} (h : k.MemoryOk P F)
    (hread : k.oracle.Reads bytes capacity) (hcapacity : capacity ≤ usizeRange) {virtBase i : ℕ}
    (hmapping : k.mappings[index]? = some mapping) (hshows : mapping.Shows bytes k.memory)
    (hdisk : mapping.sectorOffset * sectorSize + pageSize * i + pageSize ≤ capacity * sectorSize)
    (hload : k.loadPage index virtBase i proc = .ok (k', proc')) :
    ∃ mapping', k'.mappings[index]? = some mapping' ∧ mapping'.sectorOffset = mapping.sectorOffset ∧
      mapping'.size = mapping.size ∧ mapping'.Shows bytes k'.memory := by
  obtain ⟨mapping', contents, layout, page, k₁, k₂, phys, table, hmapping', hcontents, hlayout, hpage,
    huses, hphys, hmap, rfl, rfl⟩ := loadPage_eq_ok hload
  obtain rfl := Option.some.inj (hmapping.symm.trans hmapping')
  rw [loadSectors_eq hread hcapacity hdisk] at hcontents
  obtain rfl := Except.ok.inj hcontents
  have honly := (allocPages_onlyMemory hpage).trans huses.onlyMemory
  have hsame : ∀ p, k₂.memory p = k₁.memory p := congrFun huses.memory
  have hlt : index < k₂.mappings.length := by
    rw [honly.mappings]
    exact (List.getElem?_eq_some_iff.mp hmapping).1
  refine ⟨_, List.getElem?_set_self hlt, rfl, rfl, fun j b hb offset hoffset => ?_⟩
  rcases List.mem_append.mp hb with hb | hb
  · have hsize := h.page_size b (Or.inr ⟨mapping, List.mem_of_getElem? hmapping, j, hb⟩)
    have hmem : b ∈ k.counted ∪ F ∪ k.pinned :=
      Or.inr (Or.inr ⟨mapping, List.mem_of_getElem? hmapping, j, hb⟩)
    have hapart := h.heap.allocPages_apart hpage hmem (b.add_mem_frames (hsize.symm ▸ hoffset))
    exact (hsame _).trans ((allocPages_memory hpage hapart).trans (hshows j b hb offset hoffset))
  · obtain ⟨rfl, rfl⟩ := Prod.mk.inj (List.mem_singleton.mp hb)
    have hin : offset < layout.size := by rwa [pageLayout_size hlayout]
    rw [hsame, allocPages_inside hpage hin, List.getD_eq_getElem?_getD, List.getElem?_map,
      List.getElem?_range hoffset]
    exact congrArg bytes (Nat.add_assoc _ _ _)

/-- Where `newPages` fails, the heap has no room. -/
lemma Kernel.HeapOk.newPages_outOfMemory {S T : Set Backing} (h : k.HeapOk P S T)
    {contents : ℕ → UInt8} : OnlyOutOfMemory (k.newPages pageBoxLayout contents) := by
  have hgranular : pageGranular pageBoxLayout = .ok pageBoxLayout := rfl
  refine OnlyFails.bind (fun e he => ?_) fun result _ => ?_
  · exact h.churn_outOfMemory (h.allocPages_error_eq hgranular he)
  · obtain ⟨e | page, k₁⟩ := result
    · exact .throw rfl
    · exact .pure

/-! ## Faults -/

/-- Page faults of the running process at addresses of a range whose page is missing, on a disk
whose sectors do not change. -/
inductive FaultRun (bytes : ℕ → UInt8) (capacity : ℕ) (range : AddressRange) (k : Kernel) :
    List ℕ → Kernel → Prop
  | nil : FaultRun bytes capacity range k [] k
  | fault {stvals : List ℕ} {k₁ k' : Kernel} {proc : Process} {oracle : Oracle} {stval : ℕ}
      {r : Except SyscallAction Unit} (run : FaultRun bytes capacity range k stvals k₁)
      (hread : oracle.Reads bytes capacity) (hin : stval ∈ range.addresses)
      (hproc : k₁.process [] = .ok proc) (hmissing : proc.pageTable.isMapped stval = .ok false)
      (hfault : { k₁ with oracle := oracle }.handlePageFault stval = .ok (k', r)) :
      FaultRun bytes capacity range k (stvals ++ [stval]) k'

namespace Process.RegionsOk

variable {O : ProcessId → ℕ × Backing → Prop} {mappings : List VirtualMemoryMapping}

/-- Where a mapping is in a process. -/
lemma window_placed (h : proc.RegionsOk O mappings) (hmapping : mappings[index]? = some mapping)
    (hwindow : (range, index) ∈ proc.virtualMemoryMappings) :
    pageSize ∣ range.start ∧ range.stop = range.start + mapping.size ∧
      range.addresses ⊆ userHeap.addresses := by
  obtain ⟨regions, hstep⟩ := h.inStep
  obtain ⟨r, hr, size, hcontent, rfl⟩ := hstep.windows range index hwindow
  have hmapped := hstep.mapped r hr
  rw [Region.Mapped, hcontent] at hmapped
  obtain ⟨mapping', hmapping', rfl, -, -⟩ := hmapped
  obtain rfl := Option.some.inj (hmapping.symm.trans hmapping')
  obtain ⟨haligned, hinside, -⟩ := hstep.placed hr
  rw [Region.addresses, hcontent] at hinside
  exact ⟨haligned, rfl, hinside⟩

/-- An address is in one range of a process at most. -/
lemma mappingOf_eq (h : proc.RegionsOk O mappings)
    (hwindow : (range, index) ∈ proc.virtualMemoryMappings) (hin : stval ∈ range.addresses) :
    Kernel.mappingOf proc stval = some (range, index) := by
  obtain ⟨regions, hstep⟩ := h.inStep
  have hsome : (Kernel.mappingOf proc stval).isSome := by
    rw [Kernel.mappingOf, List.find?_isSome]
    exact ⟨(range, index), hwindow, decide_eq_true hin⟩
  obtain ⟨⟨range', index'⟩, hfirst⟩ := Option.isSome_iff_exists.mp hsome
  have hin' := Kernel.holds_of_mappingOf hfirst
  obtain ⟨r, hr, size, hcontent, rfl⟩ := hstep.windows range index hwindow
  obtain ⟨r', hr', size', hcontent', rfl⟩ :=
    hstep.windows range' index' (List.mem_of_find?_eq_some hfirst)
  have hsame : r = r' := by
    have hsymm : Std.Symm fun r r' : Region => Disjoint r.addresses r'.addresses :=
      ⟨fun _ _ hdisjoint => hdisjoint.symm⟩
    by_contra hne
    have hmem : stval ∈ r.addresses := by rwa [Region.addresses, hcontent]
    have hmem' : stval ∈ r'.addresses := by rwa [Region.addresses, hcontent']
    exact Set.disjoint_left.mp (hstep.disjoint.forall hr hr' hne) hmem hmem'
  subst hsame
  rw [hcontent] at hcontent'
  cases hcontent'
  exact hfirst

end Process.RegionsOk

namespace Kernel

/-- A page fault in a range of a mapping. -/
lemma handlePageFault_eq (hproc : k.process [] = .ok proc)
    (hguard : ¬ (userStackGuard.start ≤ stval ∧ stval < userStackGuard.stop))
    (hfirst : mappingOf proc stval = some (range, index))
    (hmissing : proc.pageTable.isMapped stval = .ok false) :
    k.handlePageFault stval =
      k.loadPage index range.start ((stval - range.start) / pageSize) proc >>= fun s =>
        pure ((s.1.setProcess s.2).sfenceVmaAll, .ok ()) := by
  rw [handlePageFault, if_neg hguard, hproc, Checked.ok_bind,
    findMapping_eq.mpr ⟨hfirst, hmissing⟩, Checked.ok_bind]

/-- A process sees a region of the drive: `count` sectors from `first` on, at `range`. -/
structure SeesRegion (P : Platform) (k : Kernel) (proc : Process) (bytes : ℕ → UInt8)
    (first count : ℕ) (range : AddressRange) (index : ℕ) : Prop where
  memory : k.MemoryOk P ∅
  regions : k.RegionsOk (fun _ _ => True) fun _ => True
  running : k.process [] = .ok proc
  window : (range, index) ∈ proc.virtualMemoryMappings
  shows : ∃ mapping, k.mappings[index]? = some mapping ∧ mapping.sectorOffset = first ∧
    mapping.size = count * sectorSize ∧ mapping.Shows bytes k.memory

namespace SeesRegion

lemma withOracle (h : k.SeesRegion P proc bytes first count range index) (oracle : Oracle) :
    SeesRegion P { k with oracle := oracle } proc bytes first count range index :=
  ⟨h.memory.withOracle oracle, h.regions.withOracle oracle,
    (process_congr rfl rfl []).trans h.running, h.window, h.shows⟩

/-- Whatever page of the region is there, it shows the disk. -/
lemma translate (h : k.SeesRegion P proc bytes first count range index) {offset phys : ℕ}
    {flags : PageFlags} (hoffset : offset < count * sectorSize)
    (htranslate : proc.pageTable.translate (range.start + offset) = some (phys, flags)) :
    k.memory phys = bytes (first * sectorSize + offset) := by
  obtain ⟨mapping, hmapping, rfl, hsize, hshows⟩ := h.shows
  have hok := h.regions.running h.running
  have hstop := (hok.window_placed hmapping h.window).2.1
  obtain ⟨mapping', hmapping', hnone | ⟨b, hb, hpage⟩⟩ :=
    hok.window h.window (show range.start + offset < range.stop by omega)
  · rw [hnone] at htranslate
    cases htranslate
  · obtain rfl := Option.some.inj (hmapping.symm.trans hmapping')
    rw [hpage] at htranslate
    cases htranslate
    rw [hshows _ b hb _ (Nat.mod_lt _ (by decide)), Nat.div_add_mod]

/-- The region is in the heap of the process, and made of whole pages. -/
lemma placed (h : k.SeesRegion P proc bytes first count range index) :
    pageSize ∣ range.start ∧ pageSize ∣ range.stop ∧ range.addresses ⊆ userHeap.addresses := by
  obtain ⟨mapping, hmapping, -, -, -⟩ := h.shows
  obtain ⟨hstart, hstop, hheap⟩ :=
    (h.regions.running h.running).window_placed hmapping h.window
  have hdvd := h.regions.mappings.whole mapping (List.mem_of_getElem? hmapping)
  exact ⟨hstart, hstop ▸ dvd_add hstart hdvd, hheap⟩

lemma not_guard (h : k.SeesRegion P proc bytes first count range index)
    (hin : stval ∈ range.addresses) :
    ¬ (userStackGuard.start ≤ stval ∧ stval < userStackGuard.stop) := by
  have hstart : userHeap.start ≤ stval := (h.placed.2.2 hin).1
  have habove : userStackGuard.stop ≤ userHeap.start := by decide
  omega

lemma page_lt (h : k.SeesRegion P proc bytes first count range index)
    (hin : stval ∈ range.addresses) :
    pageSize * ((stval - range.start) / pageSize) < count * sectorSize := by
  obtain ⟨mapping, hmapping, -, hsize, -⟩ := h.shows
  have hstop := ((h.regions.running h.running).window_placed hmapping h.window).2.1
  have hmul := Nat.mul_div_le (stval - range.start) pageSize
  have hlast := hin.2
  have hstart := hin.1
  omega

/-- The page of an address in the region is on the disk. -/
lemma page_le {pageIndex : ℕ} (hdvd : pageSize ∣ count * sectorSize)
    (hpage : pageSize * pageIndex < count * sectorSize) (hdisk : first + count ≤ capacity) :
    first * sectorSize + pageSize * pageIndex + pageSize ≤ capacity * sectorSize := by
  obtain ⟨n, hn⟩ := hdvd
  have hlast : pageSize * (pageIndex + 1) ≤ pageSize * n := by
    rw [hn] at hpage
    exact Nat.mul_le_mul_left _ (Nat.lt_of_mul_lt_mul_left hpage)
  calc first * sectorSize + pageSize * pageIndex + pageSize
      = first * sectorSize + pageSize * (pageIndex + 1) := by ring
    _ ≤ first * sectorSize + count * sectorSize := by
        rw [hn]
        exact Nat.add_le_add_left hlast _
    _ = (first + count) * sectorSize := by ring
    _ ≤ capacity * sectorSize := Nat.mul_le_mul_right _ hdisk

/-- **A fault in the region.**  The handler loads the page, the process goes on to see the region,
and nothing else changes. -/
theorem fault (h : k.SeesRegion P proc bytes first count range index)
    (hread : k.oracle.Reads bytes capacity) (hdisk : first + count ≤ capacity)
    (hcapacity : capacity ≤ usizeRange) (hin : stval ∈ range.addresses)
    (hmissing : proc.pageTable.isMapped stval = .ok false) {r : Except SyscallAction Unit}
    (hfault : k.handlePageFault stval = .ok (k', r)) :
    r = .ok () ∧ ∃ t, SeesRegion P k' { proc with pageTable := t } bytes first count range index ∧
      (∀ v, v / pageSize = stval / pageSize → (t.translate v).isSome) ∧
      ∀ v < virtualAddresses.stop, v / pageSize ≠ stval / pageSize →
        t.translate v = proc.pageTable.translate v := by
  obtain ⟨mapping, hmapping, rfl, hsize, hshows⟩ := h.shows
  have hok := h.regions.running h.running
  have hfirst := hok.mappingOf_eq h.window hin
  have hmemory' := h.memory.handlePageFault hfault
  have hregions' := h.regions.handlePageFault h.memory
    (fun _ _ _ _ _ _ _ _ _ _ _ _ => trivial) hfault
  rw [handlePageFault_eq h.running (h.not_guard hin) hfirst hmissing] at hfault
  obtain ⟨⟨k₁, proc₁⟩, hload, hfault⟩ := Checked.bind_eq_ok.mp hfault
  obtain ⟨k₂, t, phys, hloaded, hpage⟩ :=
    (Loadable.of_loadPage hin.1 hload).loadPage hin.1 hmissing
  cases hload.symm.trans hloaded
  cases hfault
  refine ⟨rfl, t, ⟨hmemory', hregions', ?_, h.window, ?_⟩, fun v hv => ?_, hpage.outside⟩
  · have hpid : k₁.userPid = k.userPid := by
      obtain ⟨_, _, _, _, _, _, _, _, -, -, -, halloc, huses, -, -, rfl, -⟩ := loadPage_eq_ok hload
      exact ((allocPages_onlyMemory halloc).trans huses.onlyMemory).userPid
    let proc' : Process := { proc with pageTable := t }
    have hset : (k.setProcess proc').process [] = .ok proc' :=
      process_setProcess h.memory.slots h.running rfl
    exact (process_congr (k := k.setProcess proc') hpage.processes hpid []).trans hset
  · have hdvd : pageSize ∣ count * sectorSize :=
      hsize ▸ h.regions.mappings.whole mapping (List.mem_of_getElem? hmapping)
    obtain ⟨mapping', hmapping', hoffset', hsize', hshows'⟩ := h.memory.loadPage_shows hread
      hcapacity hmapping hshows (page_le hdvd (h.page_lt hin) hdisk) hload
    exact ⟨mapping', hmapping', hoffset', hsize'.trans hsize, hshows'⟩
  · rw [hpage.inside v hv]
    rfl

/-- A fault in the region stops the kernel only if its heap has no room left for the page or for the
page tables on the way. -/
theorem fault_outOfMemory (h : k.SeesRegion P proc bytes first count range index)
    (hram : pageSize ∣ P.ram.start) (hread : k.oracle.Reads bytes capacity)
    (hdisk : first + count ≤ capacity) (hcapacity : capacity ≤ usizeRange)
    (hin : stval ∈ range.addresses) (hmissing : proc.pageTable.isMapped stval = .ok false) :
    OnlyOutOfMemory (k.handlePageFault stval) := by
  obtain ⟨mapping, hmapping, rfl, hsize, hshows⟩ := h.shows
  have hok := h.regions.running h.running
  obtain ⟨haligned, hstop, hheap⟩ := hok.window_placed hmapping h.window
  rw [handlePageFault_eq h.running (h.not_guard hin) (hok.mappingOf_eq h.window hin) hmissing]
  refine OnlyFails.bind ?_ fun _ _ => .pure
  have hdvd : pageSize ∣ count * sectorSize :=
    hsize ▸ h.regions.mappings.whole mapping (List.mem_of_getElem? hmapping)
  have hsectors := loadSectors_eq hread hcapacity (page_le hdvd (h.page_lt hin) hdisk)
  have hget : k.getMapping index = .ok mapping := by
    rw [getMapping, hmapping]
    rfl
  have hlayout : pageLayout pageSize = .ok pageBoxLayout := rfl
  rw [Kernel.loadPage, hget, Checked.ok_bind, hsectors, Checked.ok_bind, hlayout, Checked.ok_bind]
  refine h.memory.heap.newPages_outOfMemory.bind ?_
  rintro ⟨page, k₁⟩ hpage
  have hheap' := (h.memory.heap.allocPages (newPages_eq_ok.mp hpage)).1
  refine hheap'.churn_outOfMemory.bind fun k₂ hchurn => ?_
  have hbyteSize : page.byteSize = pageSize :=
    congrArg Layout.size (allocPages_eq_ok (newPages_eq_ok.mp hpage)).1
  have hpos : 0 < page.byteSize := by
    rw [hbyteSize]
    decide
  have hmappable := hheap'.mappable hram (Or.inl (Set.mem_insert page _)) hpos
  -- the page that was made is one that can be loaded
  obtain ⟨k₃, hzero, hsame⟩ := newPages_contents hpage fun _ => 0
  have hchurn' := churn_withHeapOf_ok k₃ hchurn
  rw [hsame] at hchurn'
  have hloadable : k.Loadable range index stval :=
    ⟨haligned, (hheap hin).2.trans_le (by decide), ⟨mapping, _, hmapping, hsectors⟩, page, k₃, _, _,
      hzero, hchurn', hmappable.phys_eq, hmappable.aligned⟩
  obtain ⟨k₄, t, phys, hloaded, -⟩ := hloadable.loadPage hin.1 hmissing
  rw [Kernel.loadPage, hget, Checked.ok_bind, hsectors, Checked.ok_bind, hlayout, Checked.ok_bind,
    hpage, Checked.ok_bind] at hloaded
  simp only [hchurn, Checked.ok_bind] at hloaded
  exact .of_ok ⟨_, hloaded⟩

end SeesRegion

end Kernel

/-! ## Runs of faults -/

lemma AddressRange.mem_of_page {v : ℕ} (hstart : pageSize ∣ range.start)
    (hstop : pageSize ∣ range.stop) (hin : stval ∈ range.addresses)
    (hsame : v / pageSize = stval / pageSize) : v ∈ range.addresses := by
  obtain ⟨m, hm⟩ := hstart
  obtain ⟨n, hn⟩ := hstop
  have hpage : pageSize = 4096 := rfl
  rw [hpage] at hm hn hsame
  have h1 := hin.1
  have h2 := hin.2
  constructor <;> omega

/-- What the process sees after some faults: the pages that were there, and those of the faults. -/
theorem FaultRun.sees (hrun : FaultRun bytes capacity range k stvals k')
    (h : k.SeesRegion P proc bytes first count range index) (hdisk : first + count ≤ capacity)
    (hcapacity : capacity ≤ usizeRange) :
    ∃ t, Kernel.SeesRegion P k' { proc with pageTable := t } bytes first count range index ∧
      (∀ v ∈ range.addresses, (t.translate v).isSome ↔
        (proc.pageTable.translate v).isSome ∨ ∃ stval ∈ stvals, stval / pageSize = v / pageSize) ∧
      ∀ v < virtualAddresses.stop, v ∉ range.addresses →
        t.translate v = proc.pageTable.translate v := by
  induction hrun with
  | nil => exact ⟨proc.pageTable, h, fun v _ => by simp, fun _ _ _ => rfl⟩
  | @fault stvals k₁ k' proc₁ oracle stval r run hread hin hproc hmissing hfault ih =>
      obtain ⟨t₁, h₁, hpresent, hother⟩ := ih
      obtain rfl := Except.ok.inj (h₁.running.symm.trans hproc)
      obtain ⟨-, t, h', hinside, houtside⟩ :=
        (h₁.withOracle oracle).fault hread hdisk hcapacity hin hmissing hfault
      obtain ⟨hstart, hstop, hheap⟩ := h₁.placed
      refine ⟨t, h', fun v hv => ?_, fun v hv hnot => ?_⟩
      · by_cases hsame : v / pageSize = stval / pageSize
        · simp [hinside v hsame, hsame]
        · have hlt : v < virtualAddresses.stop := (hheap hv).2.trans_le (by decide)
          rw [houtside v hlt hsame]
          simp [hpresent v hv, Ne.symm hsame]
      · have hsame : v / pageSize ≠ stval / pageSize := fun hsame =>
          hnot (AddressRange.mem_of_page hstart hstop hin hsame)
        exact (houtside v hv hsame).trans (hother v hv hnot)

/-- **A region of the drive shows the disk.**  In a reachable state the running process has `count`
sectors from `first` on at `range`, and the pages of the region that have been loaded, if any, hold
what is on the disk.  Then, after faults at any addresses of the region whose pages are missing, in
any order, every page that is present shows the bytes of the disk that belong there, the pages of the
faults are present, and outside of the region nothing has changed.  The next fault can fail only
because the kernel heap has no room for a page and the tables on the way to it. -/
theorem Reachable.drive_region (h : Reachable P (k, mode)) (hproc : k.process [] = .ok proc)
    (hwindow : (range, index) ∈ proc.virtualMemoryMappings)
    (hmapping : k.mappings[index]? = some mapping) (hfirst : mapping.sectorOffset = first)
    (hcount : mapping.size = count * sectorSize) (hshows : mapping.Shows bytes k.memory)
    (hdisk : first + count ≤ capacity) (hcapacity : capacity ≤ usizeRange)
    (hrun : FaultRun bytes capacity range k stvals k') :
    ∃ proc', k'.process [] = .ok proc' ∧
      (∀ offset < count * sectorSize, ∀ phys flags,
        proc'.pageTable.translate (range.start + offset) = some (phys, flags) →
          k'.memory phys = bytes (first * sectorSize + offset)) ∧
      (∀ v ∈ range.addresses, (proc'.pageTable.translate v).isSome ↔
        (proc.pageTable.translate v).isSome ∨ ∃ stval ∈ stvals, stval / pageSize = v / pageSize) ∧
      (∀ v < virtualAddresses.stop, v ∉ range.addresses →
        proc'.pageTable.translate v = proc.pageTable.translate v) ∧
      (pageSize ∣ P.ram.start → ∀ oracle : Oracle, oracle.Reads bytes capacity →
        ∀ stval ∈ range.addresses, proc'.pageTable.isMapped stval = .ok false →
          OnlyOutOfMemory ({ k' with oracle := oracle }.handlePageFault stval)) := by
  have hregions : k.RegionsOk (fun _ _ => True) fun _ => True :=
    h.regionsOk.mono fun _ _ _ => trivial
  have hsees : k.SeesRegion P proc bytes first count range index :=
    ⟨h.memoryOk, hregions, hproc, hwindow, mapping, hmapping, hfirst, hcount, hshows⟩
  obtain ⟨t, h', hpresent, hother⟩ := hrun.sees hsees hdisk hcapacity
  refine ⟨_, h'.running, fun offset hoffset phys flags htranslate => ?_, hpresent, hother, ?_⟩
  · exact h'.translate hoffset htranslate
  · intro hram oracle hread stval hin hmissing
    exact (h'.withOracle oracle).fault_outOfMemory hram hread hdisk hcapacity hin hmissing

/-- A byte of a disk on which each sector counts up from sixteen times its number. -/
def countedByte (p : ℕ) : UInt8 := .ofNat (p / sectorSize * 16 + p % sectorSize)

/-- A drive with this disk. -/
def Oracle.counted : Oracle :=
  { Oracle.quiet with
    disk := fun sector =>
      .ok ((List.range sectorSize).map fun i => countedByte (sector * sectorSize + i)) }

/-- A process of a small machine gets sixteen sectors from the eighth on as a region of the drive, and
maps it. -/
def mapRegionMoves : List Move :=
  [.schedule,
    .user [(.a6, 1), (.a0, 0x2000040), (.a1, 1), (.a2, 12288), (.a3, 2), (.a4, 12288), (.a5, 8)]
      [(12288, 8), (12289, 16)], .trap .userEnvCall,
    .user [(.a6, 7), (.a0, 0x2000048)] [], .trap .userEnvCall]

/-- A fault at an address whose page is missing, which the handler resolves. -/
def faultsAt (k : Kernel) (stval : ℕ) : Option Kernel :=
  if (k.process []).toOption.any fun proc => (proc.pageTable.isMapped stval).toOption = some false then
    (Kernel.handlePageFault { k with oracle := .counted } stval).toOption.map Prod.fst
  else none

lemma FaultRun.faultsAt (hrun : FaultRun countedByte capacity range k stvals k₁)
    (hin : stval ∈ range.addresses) (h : faultsAt k₁ stval = some k') :
    FaultRun countedByte capacity range k (stvals ++ [stval]) k' := by
  rw [Deravel.faultsAt] at h
  split at h
  · next hmissing =>
      obtain ⟨proc, hproc, hmissing⟩ := (Option.any_eq_true _ _).mp hmissing
      obtain ⟨⟨k', r⟩, hfault, rfl⟩ := Option.map_eq_some_iff.mp h
      exact .fault hrun (fun _ _ => rfl) hin (Checked.toOption_eq_some.mp hproc)
        (Checked.toOption_eq_some.mp (of_decide_eq_true hmissing)) (Checked.toOption_eq_some.mp hfault)
  · cases h

set_option maxRecDepth 10000 in
/-- The process faults in the second page of the region and then in the first one.  At the place of the
byte 5 of sector 8 it sees that byte, and at the place of the byte 3 of sector 17 that one. -/
theorem Reachable.drive_region_twoPages : ∃ k k' proc' phys flags phys' flags',
    Reachable .small (k, .user) ∧
    FaultRun countedByte 24 ⟨0x3ffc000000, 0x3ffc002000⟩ k [0x3ffc001203, 0x3ffc000005] k' ∧
    k'.process [] = .ok proc' ∧ proc'.pageTable.translate 0x3ffc000005 = some (phys, flags) ∧
    proc'.pageTable.translate 0x3ffc001203 = some (phys', flags') ∧
    k'.memory phys = 8 * 16 + 5 ∧ k'.memory phys' = 17 * 16 + 3 := by
  have hplay : ((play .small .quiet mapRegionMoves).any fun s => s.2 = .user ∧
      (s.1.mappings[0]?.any fun mapping => mapping.sectorOffset = 8 ∧
        mapping.size = 16 * sectorSize ∧ mapping.backedPages.isEmpty) ∧
      ((s.1.process []).toOption.any fun proc => proc.virtualMemoryMappings.any fun vmm =>
        vmm.1.start = 0x3ffc000000 ∧ vmm.1.stop = 0x3ffc002000 ∧ vmm.2 = 0) ∧
      ((faultsAt s.1 0x3ffc001203).bind fun k => faultsAt k 0x3ffc000005).isSome) = true := by
    decide +kernel
  obtain ⟨⟨k, mode⟩, hplayed, hstate⟩ := (Option.any_eq_true _ _).mp hplay
  obtain ⟨rfl, hmapping, hproc, hfaults⟩ := of_decide_eq_true hstate
  obtain ⟨mapping, hmapping, hfresh⟩ := (Option.any_eq_true _ _).mp hmapping
  obtain ⟨hfirst, hcount, hempty⟩ := of_decide_eq_true hfresh
  obtain ⟨proc, hproc, hwindow⟩ := (Option.any_eq_true _ _).mp hproc
  obtain ⟨⟨⟨start, stop⟩, index⟩, hwindow, hplace⟩ := List.any_eq_true.mp hwindow
  obtain ⟨rfl, rfl, rfl⟩ := of_decide_eq_true hplace
  obtain ⟨k', hfaults⟩ := Option.isSome_iff_exists.mp hfaults
  obtain ⟨k₁, hsecond, hfirst'⟩ := Option.bind_eq_some_iff.mp hfaults
  have hproc := Checked.toOption_eq_some.mp hproc
  have hin : ∀ stval ∈ [0x3ffc001203, 0x3ffc000005],
      stval ∈ (⟨0x3ffc000000, 0x3ffc002000⟩ : AddressRange).addresses := by
    simp [AddressRange.addresses]
  have hrun : FaultRun countedByte 24 ⟨0x3ffc000000, 0x3ffc002000⟩ k [0x3ffc001203, 0x3ffc000005] k' :=
    .faultsAt (.faultsAt .nil (hin _ (by simp)) hsecond) (hin _ (by simp)) hfirst'
  have hshows : mapping.Shows countedByte k.memory := by
    intro i b hb
    rw [List.isEmpty_iff.mp hempty] at hb
    cases hb
  obtain ⟨proc', hproc', hbytes, hpresent, -⟩ := Reachable.drive_region (play_reachable hplayed)
    hproc hwindow hmapping hfirst hcount hshows (by decide) (by decide) hrun
  have hseen : ∀ stval ∈ [0x3ffc001203, 0x3ffc000005], (proc'.pageTable.translate stval).isSome :=
    fun stval hstval => (hpresent stval (hin stval hstval)).mpr (Or.inr ⟨stval, hstval, rfl⟩)
  obtain ⟨⟨phys, flags⟩, hphys⟩ := Option.isSome_iff_exists.mp (hseen 0x3ffc000005 (by simp))
  obtain ⟨⟨phys', flags'⟩, hphys'⟩ := Option.isSome_iff_exists.mp (hseen 0x3ffc001203 (by simp))
  exact ⟨k, k', proc', phys, flags, phys', flags', play_reachable hplayed, hrun, hproc', hphys, hphys',
    hbytes 5 (by decide) phys flags hphys, hbytes 0x1203 (by decide) phys' flags' hphys'⟩

end Deravel
