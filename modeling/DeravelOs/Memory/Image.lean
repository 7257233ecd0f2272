import DeravelOs.Memory.Ownership

/-!
# The image of a process

`load_elf` of `kernel/src/elf.rs` against the program headers that it reads.  A header says at which
addresses a segment is, with which permissions, and which bytes are there.  What is mapped for it is
whole pages: those of its memory if it is writable, but those of its file bytes if it is not.

* `loadElf_displayed`: the pages that are mapped show what the headers say, and there are no others.
* `loadElf_image_iff`: all of the image is there if and only if what is left of the read-only
  segments belongs to the pages of other segments.
-/

namespace Deravel

variable {P : Platform} {k k' : Kernel} {proc proc' : Process} {elf : Elf} {b : Backing}
  {phys : ℕ} {layout : Layout} {contents : ℕ → UInt8}

/-! ## New pages next to old ones -/

/-- New pages do not overlap what is needed. -/
lemma Kernel.HeapOk.allocPages_fresh {S T : Set Backing} (h : k.HeapOk P S T)
    (halloc : k.allocPages layout contents = .ok (.ok b, k')) {c : Backing} (hc : c ∈ S ∪ T)
    (hphys : phys ∈ c.frames) : phys ∉ b.frames := by
  obtain ⟨blocks, hblocks, hkept, -⟩ := h
  obtain ⟨blocks', hblocks', hsub, hb, -, hfresh⟩ := hblocks.allocPages halloc
  have hold := hkept c hc
  refine hblocks'.disjoint_frames (hold.mono hsub) hb ?_ hphys
  cases hold with
  | dangling hsize _ =>
      simp only [Backing.frames, hsize, add_zero, Set.Ico_self, Set.mem_empty_iff_false] at hphys
  | block granular _ hmem => exact hfresh _ hmem

/-- New pages have the contents that are asked for. -/
lemma Kernel.newPages_filled (hpages : k.newPages layout contents = .ok (b, k')) {i : ℕ}
    (hi : i < layout.size) : k'.memory (physOf b.ptr + i) = contents i := by
  obtain ⟨-, ⟨hzero, -⟩ | ⟨k₁, granular, heap, -, -, -, rfl⟩⟩ :=
    Kernel.allocPages_eq_ok (Kernel.newPages_eq_ok.mp hpages)
  · omega
  · show fillMemory k₁.memory (physOf b.ptr) layout.size contents (physOf b.ptr + i) = contents i
    rw [fillMemory, if_pos ⟨Nat.le_add_right _ _, Nat.add_lt_add_left hi _⟩, Nat.add_sub_cancel_left]

/-- New pages leave the contents of a process that is being created alone. -/
lemma Kernel.MemoryOk.newPages_memory (h : k.MemoryOk P proc.memory)
    (hpages : k.newPages layout contents = .ok (b, k')) (howned : k.Owned P proc.allocated phys) :
    k'.memory phys = k.memory phys := by
  have halloc := Kernel.newPages_eq_ok.mp hpages
  refine Kernel.allocPages_memory halloc fun hb => ?_
  have hother : ∀ c ∈ k.counted ∪ proc.memory ∪ k.pinned, phys ∉ c.frames := fun c hc hphys =>
    h.heap.allocPages_fresh halloc hc hphys hb
  cases howned with
  | allocated virt c hmem hphys => exact hother c (Or.inl (Or.inr ⟨virt, hmem⟩)) hphys
  | shared c hc hphys => exact hother c (Or.inl (Or.inl (Or.inl (Or.inr hc)))) hphys
  | ring c hc hphys => exact hother c (Or.inr (Or.inl hc)) hphys
  | loaded c hc hphys => exact hother c (Or.inr (Or.inr hc)) hphys
  | image elf helf hphys =>
      have hheap := (h.newPages hpages).heap.frames (Or.inl (Or.inr (Set.mem_insert b _))) hb
      exact Set.disjoint_left.mp P.disjoint_heapFrames_imageFrames hheap.1
        (Elf.frames_subset helf hphys)

/-! ## What program headers say -/

/-- The segments that are loaded. -/
def Platform.loads (P : Platform) (elf : Elf) : List ProgramHeader :=
  (((P.minimalParse elf.bytes).bind ElfBytes.segments).getD []).filter fun segment =>
    segment.pType = 1

namespace ProgramHeader

variable (s : ProgramHeader)

/-- Where a segment is. -/
def addresses : Set ℕ := Set.Ico s.pVaddr (s.pVaddr + s.pMemsz)

/-- The byte of a segment at an address: from the file, or zero when the file has no more. -/
def byteAt (bytes : List UInt8) (v : ℕ) : UInt8 :=
  if v - s.pVaddr < s.pFilesz then bytes.getD (s.pOffset + (v - s.pVaddr)) 0 else 0

/-- The flags of a user page with the permissions of a segment. -/
structure Permits (flags : PageFlags) : Prop where
  read : flags.read = s.pFlags.testBit 2
  write : flags.write = s.pFlags.testBit 1
  execute : flags.execute = s.pFlags.testBit 0
  user : flags.user = true

/-- Two segments ask for the same permissions. -/
def SamePermissions (s' : ProgramHeader) : Prop :=
  ∀ bit < 3, s.pFlags.testBit bit = s'.pFlags.testBit bit

variable {s} {s' : ProgramHeader} {flags : PageFlags}

lemma Permits.same (h : s.Permits flags) (h' : s'.Permits flags) : s.SamePermissions s' := by
  intro bit hbit
  interval_cases bit
  · exact h.execute.symm.trans h'.execute
  · exact h.write.symm.trans h'.write
  · exact h.read.symm.trans h'.read

lemma Permits.of_same (h : s'.Permits flags) (hsame : s.SamePermissions s') : s.Permits flags where
  read := h.read.trans (hsame 2 (by decide)).symm
  write := h.write.trans (hsame 1 (by decide)).symm
  execute := h.execute.trans (hsame 0 (by decide)).symm
  user := h.user

lemma byteAt_of_notMem_pages {bytes : List UInt8} {v : ℕ} (hv : v ∈ s.addresses)
    (hpages : v ∉ s.pages.addresses) (hfilesz : s.pFilesz ≤ s.pMemsz) : s.byteAt bytes v = 0 := by
  have hge : s.pVaddr + s.mappedSize ≤ v := by
    by_contra hlt
    exact hpages ⟨hv.1, Nat.lt_of_not_le hlt⟩
  have hle : s.pFilesz ≤ s.mappedSize := by
    rw [mappedSize]
    split
    · exact hfilesz.trans (le_nextMultipleOf _ _)
    · exact le_nextMultipleOf _ _
  rw [byteAt, if_neg (by omega)]

end ProgramHeader

/-- `paging_flags` are the permissions of a segment, and never all three. -/
lemma pagingFlags_permits {s : ProgramHeader} {flags : PageFlags} (h : pagingFlags s = .ok flags) :
    s.Permits flags ∧ ¬ (flags.write = true ∧ flags.execute = true) := by
  obtain ⟨hread, h⟩ := ensure_bind_eq_ok.mp h
  obtain ⟨hboth, h⟩ := ensure_bind_eq_ok.mp h
  cases h
  cases hwrite : s.pFlags.testBit 1 with
  | true =>
      have hexecute : s.pFlags.testBit 0 = false := by
        rw [hwrite] at hboth
        simpa using hboth
      refine ⟨⟨hread.symm, hwrite.symm, hexecute.symm, rfl⟩, ?_⟩
      simp [PageFlags.readWrite, PageFlags.asUser]
  | false =>
      cases hexecute : s.pFlags.testBit 0 with
      | true =>
          refine ⟨⟨hread.symm, hwrite.symm, hexecute.symm, rfl⟩, ?_⟩
          simp [PageFlags.executable, PageFlags.asUser]
      | false =>
          refine ⟨⟨hread.symm, hwrite.symm, hexecute.symm, rfl⟩, ?_⟩
          simp [PageFlags.readonly, PageFlags.asUser]

/-! ## Bytes of the file -/

/-- The bytes of a segment, as a vector that is resized with zeros has them. -/
lemma Elf.segment_getD (s : ProgramHeader) (i : ℕ) :
    (elf.segment s).getD i 0 = s.byteAt elf.bytes (s.pVaddr + i) := by
  rw [Elf.segment, Elf.slice, ProgramHeader.byteAt, Nat.add_sub_cancel_left, Nat.add_sub_cancel_left,
    List.getD_eq_getElem?_getD, List.getElem?_take]
  split
  · rw [List.getElem?_drop, List.getD_eq_getElem?_getD]
  · rfl

/-- Bytes that are checked to be zero. -/
lemma getD_of_all_zero {bytes : List UInt8} {start stop n : ℕ}
    (h : ((bytes.drop start).take (stop - start)).all (· = 0) = true) (hstart : start ≤ n)
    (hstop : n < stop) : bytes.getD n 0 = 0 := by
  rw [List.getD_eq_getElem?_getD]
  cases hget : bytes[n]? with
  | none => rfl
  | some byte =>
      have hmem : byte ∈ (bytes.drop start).take (stop - start) := by
        refine List.mem_of_getElem? (i := n - start) ?_
        rw [List.getElem?_take_of_lt (by omega), List.getElem?_drop, Nat.add_sub_of_le hstart, hget]
      simpa using List.all_eq_true.mp h byte hmem

/-- The file is in memory, where the kernel's image has it. -/
def Elf.InMemory (elf : Elf) (k : Kernel) : Prop :=
  ∀ i < elf.bytes.length, k.memory (physOf elf.base + i) = elf.bytes.getD i 0

/-- What the pages of a read-only segment have in memory. -/
lemma Elf.InMemory.pages (h : elf.InMemory k) (helf : elf ∈ P.elves) {s : ProgramHeader}
    (hfilesz : s.pFilesz ≤ s.pMemsz) (hptr : (elf.base + s.pOffset) % pageSize = 0)
    (hpadded : elfDataIsZeroPadded s elf.bytes = .ok true)
    (hphys : virtToPhys (elf.base + s.pOffset) = .ok phys) {i : ℕ}
    (hi : i < nextMultipleOf s.pFilesz pageSize) :
    k.memory (phys + i) = s.byteAt elf.bytes (s.pVaddr + i) := by
  have hlen := segment_length_le (P.elf_aligned elf helf) hptr hfilesz
  obtain ⟨⟨-, hbytes⟩, hall⟩ := ensure_bind_eq_ok.mp hpadded
  have hzero := Except.ok.inj hall
  -- the segment is as contiguous in physical memory as it is in the image
  have hbase : phys + i = physOf elf.base + (s.pOffset + i) := by
    obtain ⟨hstart, hstop⟩ := P.elf_static elf helf
    have hram : ∀ j < elf.bytes.length, elf.base + j ∈ P.ram.addresses := fun j hj =>
      P.image_subset ⟨by omega, by omega⟩
    have hfirst : elf.base ∈ P.ram.addresses := hram 0 (by omega)
    rw [virtToPhys_eq hphys, P.physOf_add hfirst (hram s.pOffset (by omega)), Nat.add_assoc]
  rw [hbase, h (s.pOffset + i) (by omega), ProgramHeader.byteAt, Nat.add_sub_cancel_left]
  split
  · rfl
  · exact getD_of_all_zero hzero (by omega) (by omega)

/-! ## The image in the making -/

/-- User code sees a segment at an address as its header describes it. -/
def Process.Shows (proc : Process) (k : Kernel) (elf : Elf) (s : ProgramHeader) (v : ℕ) : Prop :=
  ∃ phys flags, proc.pageTable.translate v = some (phys, flags) ∧ s.Permits flags ∧
    k.memory phys = s.byteAt elf.bytes v

/-- What `load_elf` asks of a header. -/
structure ProgramHeader.Accepted (s : ProgramHeader) : Prop where
  filesz_le : s.pFilesz ≤ s.pMemsz
  memsz_le : s.pVaddr + s.pMemsz ≤ userElf.stop
  pages_le : s.pVaddr + s.mappedSize ≤ userElf.stop
  exclusive : ¬ (s.pFlags.testBit 1 = true ∧ s.pFlags.testBit 0 = true)

/-- The segments so far have their pages, and user code has no others. -/
structure Displayed (P : Platform) (elf : Elf) (segments : List ProgramHeader) (k : Kernel)
    (proc : Process) : Prop where
  loading : Loading P k proc
  file : elf.InMemory k
  accepted : ∀ s ∈ segments, s.Accepted
  pages : ∀ s ∈ segments, ∀ v ∈ s.pages.addresses, proc.Shows k elf s v
  only : ∀ v < virtualAddresses.stop, ∀ phys flags,
    proc.pageTable.translate v = some (phys, flags) → flags.user = true →
      ∃ s ∈ segments, v ∈ s.pages.addresses

namespace Displayed

variable {segments : List ProgramHeader} {s : ProgramHeader} {flags : PageFlags}

lemma lt_stop {v : ℕ} (hv : v < userElf.stop) :
    v < virtualAddresses.stop ∧ v ∉ capabilityRegion.addresses := by
  have h1 : userElf.stop ≤ virtualAddresses.stop := by decide
  have h2 : userElf.stop ≤ capabilityRegion.start := by decide
  exact ⟨by omega, fun hregion => absurd hregion.1 (by omega)⟩

/-- One more segment, when its pages are mapped and the rest of the memory is as it was. -/
lemma map (h : Displayed P elf segments k proc) (helf : elf ∈ P.elves) (haccepted : s.Accepted)
    (hpermits : s.Permits flags) (hloading : Loading P k' proc')
    (hmap : proc.pageTable.map s.pVaddr phys s.mappedSize flags = .ok proc'.pageTable)
    (hmemory : ∀ p, k.Owned P proc.allocated p → k'.memory p = k.memory p)
    (hcontents : ∀ i < s.mappedSize, k'.memory (phys + i) = s.byteAt elf.bytes (s.pVaddr + i)) :
    Displayed P elf (segments ++ [s]) k' proc' := by
  obtain ⟨-, hfree, hinside, hframe⟩ := PageTable.map_translate h.loading.space.built hmap
  refine ⟨hloading, fun i hi => ?_, ?_, ?_, fun v hv p f htranslate huser => ?_⟩
  · rw [hmemory _ (.image elf helf ⟨Nat.le_add_right _ _, Nat.add_lt_add_left hi _⟩), h.file i hi]
  · intro s' hs'
    rcases List.mem_append.mp hs' with hs' | hs'
    · exact h.accepted s' hs'
    · rwa [List.mem_singleton.mp hs']
  · intro s' hs' v hv
    rcases List.mem_append.mp hs' with hs' | hs'
    · -- what was mapped before is where it was, and nobody writes to it
      obtain ⟨p, f, htranslate, hp, hbyte⟩ := h.pages s' hs' v hv
      obtain ⟨hstop, hregion⟩ := lt_stop (hv.2.trans_le (h.accepted s' hs').pages_le)
      have howned := (h.loading.space.owner v hstop p f htranslate).toOwned hp.user hregion
      refine ⟨p, f, ?_, hp, (hmemory p howned).trans hbyte⟩
      rw [hframe v hstop fun hin => ?_, htranslate]
      rw [hfree v hin] at htranslate
      cases htranslate
    · obtain rfl := List.mem_singleton.mp hs'
      have h1 : s'.pVaddr ≤ v := hv.1
      have h2 : v < s'.pVaddr + s'.mappedSize := hv.2
      refine ⟨_, flags, hinside v hv, hpermits, ?_⟩
      rw [hcontents (v - s'.pVaddr) (by omega), Nat.add_sub_of_le h1]
  · by_cases hin : v ∈ s.pages.addresses
    · exact ⟨s, by simp, hin⟩
    · rw [hframe v hv hin] at htranslate
      obtain ⟨s', hs', hv'⟩ := h.only v hv p f htranslate huser
      exact ⟨s', List.mem_append_left _ hs', hv'⟩

/-- A round of the loop. -/
lemma loadSegment (h : Displayed P elf segments k proc) (helf : elf ∈ P.elves)
    (hload : s.pType = 1) (hstep : Deravel.loadSegment P elf (k, proc) s = .ok (k', proc')) :
    Displayed P elf (segments ++ [s]) k' proc' := by
  have hloading : Loading P k' proc' := Loads.induct (I := fun s => Loading P s.1 s.2)
    (loadSegment_loads hstep) (fun _ _ hs hstep => hs.step helf hstep) h.loading
  obtain ⟨flags, -, hflags, hvaddr, hfilesz, hstop, hcases⟩ := loadSegment_cases hload hstep
  obtain ⟨hpermits, hexclusive⟩ := pagingFlags_permits hflags
  have haccepted : s.Accepted := by
    refine ⟨hfilesz, hstop, ?_, ?_⟩
    · rw [ProgramHeader.mappedSize]
      split
      · exact segment_stop_le hvaddr hstop le_rfl
      · exact segment_stop_le hvaddr hstop hfilesz
    · rwa [← hpermits.write, ← hpermits.execute]
  rcases hcases with ⟨hwrite, layout, pages, hsize, hpages, halloc⟩ |
    ⟨hwrite, hptr, hpadded, phys, table, hphys, hmap, rfl, rfl⟩
  · have hmapped : s.mappedSize = nextMultipleOf s.pMemsz pageSize := by
      rw [ProgramHeader.mappedSize, ← hpermits.write, if_pos hwrite]
    obtain ⟨phys, hphys, halloc⟩ := Checked.bind_eq_ok.mp halloc
    obtain ⟨table, hmap, halloc⟩ := Checked.bind_eq_ok.mp halloc
    cases halloc
    rw [virtToPhys_eq hphys, (Kernel.allocPages_eq_ok (Kernel.newPages_eq_ok.mp hpages)).1, hsize,
      ← hmapped] at hmap
    refine h.map helf haccepted hpermits hloading hmap
      (fun p howned => h.loading.memory.newPages_memory hpages howned) fun i hi => ?_
    rw [Kernel.newPages_filled hpages (by rw [hsize, ← hmapped]; exact hi), Elf.segment_getD]
  · have hmapped : s.mappedSize = nextMultipleOf s.pFilesz pageSize := by
      rw [ProgramHeader.mappedSize, ← hpermits.write, hwrite]
      rfl
    rw [← hmapped] at hmap
    refine h.map helf haccepted hpermits hloading hmap (fun _ _ => rfl) fun i hi => ?_
    exact h.file.pages helf hfilesz hptr hpadded hphys (hmapped ▸ hi)

/-- All rounds of the loop. -/
lemma foldlM (h : Displayed P elf segments k proc) (helf : elf ∈ P.elves)
    {headers : List ProgramHeader}
    (hfold : headers.foldlM (Deravel.loadSegment P elf) (k, proc) = .ok (k', proc')) :
    Displayed P elf (segments ++ headers.filter fun s => s.pType = 1) k' proc' := by
  induction headers generalizing segments k proc with
  | nil =>
      cases hfold
      rwa [List.filter_nil, List.append_nil]
  | cons s rest ih =>
      rw [List.foldlM_cons] at hfold
      obtain ⟨⟨k₁, proc₁⟩, hstep, hfold⟩ := Checked.bind_eq_ok.mp hfold
      by_cases hload : s.pType = 1
      · have hnext := ih (h.loadSegment helf hload hstep) hfold
        rwa [List.append_assoc, List.singleton_append, ← List.filter_cons_of_pos (by simpa)]
          at hnext
      · simp only [Deravel.loadSegment] at hstep
        rw [if_pos hload] at hstep
        cases hstep
        rw [List.filter_cons_of_neg (by simpa)]
        exact ih h hfold

/-- User code has nothing in an address space that has only the direct mapping. -/
lemma direct {id : ProcessId} {name : String} {heap : BuddyAllocator} {table : PageTable}
    (h : k.MemoryOk P ∅) (hfile : elf.InMemory k) (hdirect : mapHhDirectMapping .new = .ok table) :
    Displayed P elf [] k { Process.bare id name heap with pageTable := table } := by
  obtain ⟨-, -, hinside, hframe⟩ := PageTable.map_translate PageTable.Built.new hdirect
  refine ⟨.direct h hdirect, hfile, by simp, by simp, fun v hv p f htranslate huser => ?_⟩
  by_cases hin : v ∈ Set.Ico directMapping.start
      (directMapping.start + (directMapping.stop - directMapping.start))
  · have hfound := Option.some.inj ((hinside v hin).symm.trans htranslate)
    have hkernel : PageFlags.readWriteExecute = f := congrArg Prod.snd hfound
    rw [← hkernel] at huser
    exact absurd huser (by decide)
  · have hnone := (hframe v hv hin).symm.trans htranslate
    rw [PageTable.new_translate] at hnone
    cases hnone

end Displayed

/-! ## The image -/

section LoadElf

variable {id : ProcessId} {name : String} {heap : BuddyAllocator} {table : PageTable}

/-- **What `load_elf` maps.**  The pages of the segments show what the headers say, and user code has
no other page. -/
theorem loadElf_displayed (h : k.MemoryOk P ∅) (helf : elf ∈ P.elves) (hfile : elf.InMemory k)
    (hdirect : mapHhDirectMapping .new = .ok table)
    (hload : loadElf P k elf { Process.bare id name heap with pageTable := table } =
      .ok (k', proc')) : Displayed P elf (P.loads elf) k' proc' := by
  obtain ⟨file, segments, proc₁, hparse, hsegments, hfold, rfl⟩ := loadElf_cases hload
  have hloads : P.loads elf = segments.filter fun s => s.pType = 1 := by
    rw [Platform.loads, hparse, Option.bind_some, hsegments, Option.getD_some]
  have hdisplayed := Displayed.foldlM (Displayed.direct h hfile hdirect) helf hfold
  rw [List.nil_append, ← hloads] at hdisplayed
  exact ⟨⟨hdisplayed.loading.memory, hdisplayed.loading.space⟩, hdisplayed.file,
    hdisplayed.accepted, hdisplayed.pages, hdisplayed.only⟩

/-- No user page is both writable and executable. -/
lemma Displayed.exclusive {segments : List ProgramHeader} (h : Displayed P elf segments k proc)
    {v : ℕ} (hv : v < virtualAddresses.stop) {flags : PageFlags}
    (htranslate : proc.pageTable.translate v = some (phys, flags)) (huser : flags.user = true) :
    ¬ (flags.write = true ∧ flags.execute = true) := by
  obtain ⟨s, hs, hpage⟩ := h.only v hv phys flags htranslate huser
  obtain ⟨p, f, hshown, hpermits, -⟩ := h.pages s hs v hpage
  obtain rfl : f = flags := congrArg Prod.snd (Option.some.inj (hshown.symm.trans htranslate))
  rw [hpermits.write, hpermits.execute]
  exact (h.accepted s hs).exclusive

/-- The image that the program headers describe: every segment is there, with its permissions and
its bytes, and no user page is both writable and executable. -/
structure Process.HasImage (P : Platform) (k : Kernel) (elf : Elf) (proc : Process) : Prop where
  shows : ∀ s ∈ P.loads elf, ∀ v ∈ s.addresses, proc.Shows k elf s v
  exclusive : ∀ v < virtualAddresses.stop, ∀ phys flags,
    proc.pageTable.translate v = some (phys, flags) → flags.user = true →
      ¬ (flags.write = true ∧ flags.execute = true)

/-- **When the image is the described one.**  `load_elf` has returned for a program of the machine.  Then
each segment of its headers is mapped with its permissions and its bytes, and no user page is writable
and executable, if and only if nothing of a segment is left out.  Only of a read-only segment something
may not be mapped: what is behind the pages of its file bytes.  It has to be in the pages of another
segment with the same permissions, at a byte that is zero. -/
theorem loadElf_image_iff (h : k.MemoryOk P ∅) (helf : elf ∈ P.elves) (hfile : elf.InMemory k)
    (hdirect : mapHhDirectMapping .new = .ok table)
    (hload : loadElf P k elf { Process.bare id name heap with pageTable := table } =
      .ok (k', proc')) :
    proc'.HasImage P k' elf ↔ ∀ s ∈ P.loads elf, ∀ v ∈ s.addresses, v ∉ s.pages.addresses →
      ∃ s' ∈ P.loads elf, s'.SamePermissions s ∧ v ∈ s'.pages.addresses ∧ s'.byteAt elf.bytes v = 0 := by
  have hdisplayed := loadElf_displayed h helf hfile hdirect hload
  constructor
  · intro himage s hs v hv hpages
    obtain ⟨phys, flags, htranslate, hpermits, hbyte⟩ := himage.shows s hs v hv
    have haccepted := hdisplayed.accepted s hs
    obtain ⟨hstop, -⟩ := Displayed.lt_stop (hv.2.trans_le haccepted.memsz_le)
    obtain ⟨s', hs', hpage⟩ := hdisplayed.only v hstop phys flags htranslate hpermits.user
    obtain ⟨phys', flags', htranslate', hpermits', hbyte'⟩ := hdisplayed.pages s' hs' v hpage
    obtain ⟨rfl, rfl⟩ := Prod.mk.inj (Option.some.inj (htranslate'.symm.trans htranslate))
    refine ⟨s', hs', hpermits'.same hpermits, hpage, ?_⟩
    rw [← hbyte', hbyte, ProgramHeader.byteAt_of_notMem_pages hv hpages haccepted.filesz_le]
  · intro hrest
    refine ⟨fun s hs v hv => ?_, fun v hv phys flags => hdisplayed.exclusive hv⟩
    by_cases hpage : v ∈ s.pages.addresses
    · exact hdisplayed.pages s hs v hpage
    · obtain ⟨s', hs', hsame, hpage', hzero⟩ := hrest s hs v hv hpage
      obtain ⟨phys, flags, htranslate, hpermits, hbyte⟩ := hdisplayed.pages s' hs' v hpage'
      refine ⟨phys, flags, htranslate, hpermits.of_same fun bit hbit => (hsame bit hbit).symm, ?_⟩
      rw [hbyte, hzero,
        ProgramHeader.byteAt_of_notMem_pages hv hpage (hdisplayed.accepted s hs).filesz_le]

end LoadElf

/-! ## A small file -/

/-- A number in memory, the lowest byte first. -/
def littleEndian (size value : ℕ) : List UInt8 :=
  (List.range size).map fun i => (value / 256 ^ i).toUInt8

lemma littleEndian_length (size value : ℕ) : (littleEndian size value).length = size := by
  rw [littleEndian, List.length_map, List.length_range]

/-- Two pages of a 64-bit executable.  Its headers, in the first 120 bytes, are its only segment,
which is read-only and has `memsz` bytes in memory. -/
def headersOnly (memsz : ℕ) : List UInt8 :=
  [0x7f, 0x45, 0x4c, 0x46, 2, 1, 1, 0, 0, 0, 0, 0, 0, 0, 0, 0] ++
  [(2, 2), (2, 243), (4, 1), (8, userElf.start), (8, 64), (8, 0), (4, 0), (2, 64), (2, 56), (2, 1),
    (6, 0), (4, 1), (4, 4), (8, 0), (8, userElf.start), (8, userElf.start), (8, 120), (8, memsz),
    (8, pageSize)].flatMap (fun field => littleEndian field.1 field.2) ++
  List.replicate 8072 0

lemma headersOnly_length (memsz : ℕ) : (headersOnly memsz).length = 8192 := by
  simp only [headersOnly, List.length_append, List.length_flatMap, littleEndian_length,
    List.map_cons, List.map_nil, List.sum_cons, List.sum_nil, List.length_cons, List.length_nil,
    List.length_replicate]
  omega

/-- A number in a file. -/
def numberAt (bytes : List UInt8) (offset size : ℕ) : ℕ :=
  ((bytes.drop offset).take size).foldr (fun byte n => byte.toNat + 256 * n) 0

/-- The header of a 64-bit file and its program headers, where the format has them. -/
def readElf (bytes : List UInt8) : Option ElfBytes :=
  if bytes.length < 64 ∨ bytes.take 4 ≠ [0x7f, 0x45, 0x4c, 0x46] then none
  else some
    { class64 := numberAt bytes 4 1 = 2
      littleEndian := numberAt bytes 5 1 = 1
      version := numberAt bytes 20 4
      osabi := numberAt bytes 7 1
      abiversion := numberAt bytes 8 1
      eType := numberAt bytes 16 2
      eMachine := numberAt bytes 18 2
      eEntry := numberAt bytes 24 8
      segments :=
        let phoff := numberAt bytes 32 8
        let phnum := numberAt bytes 56 2
        if numberAt bytes 54 2 = 56 ∧ phoff + 56 * phnum ≤ bytes.length then
          some ((List.range phnum).map fun i =>
            let header := bytes.drop (phoff + 56 * i)
            { pType := numberAt header 0 4
              pOffset := numberAt header 8 8
              pVaddr := numberAt header 16 8
              pFilesz := numberAt header 32 8
              pMemsz := numberAt header 40 8
              pFlags := numberAt header 4 4
              pAlign := numberAt header 48 8 })
        else none }

/-- The machine of `Platform.small` with such files. -/
def Platform.withFiles : Platform :=
  { Platform.small with
    fat := ⟨"fat_fs", 1, 0xffffffc080300000, headersOnly 8192⟩
    shell := ⟨"shell", 6, 0xffffffc080300000, headersOnly 120⟩
    minimalParse := readElf
    elf_static := by
      simp only [List.forall_mem_cons, headersOnly_length]
      decide
    elf_aligned := by
      simp only [List.forall_mem_cons]
      decide }

/-- What there is when the first process is created, with the file of the process in memory. -/
def loadFirst (id : ProcessId) (elf : Elf) : Checked (Kernel × Process) := do
  let heap ← BuddyAllocator.boot Platform.withFiles.ram Platform.withFiles.reserved
  let noMemory : Backing := ⟨0, pageBoxLayout⟩
  let k ← initializeAllPci .withFiles
    (.bare (fun _ => 0) heap ⟨noMemory, noMemory, noMemory, noMemory⟩ .quiet)
  let k := { k with
    memory := fillMemory k.memory (physOf elf.base) elf.bytes.length fun i => elf.bytes.getD i 0 }
  let heap ← BuddyAllocator.new userHeap
  let table ← mapHhDirectMapping .new
  loadElf .withFiles k elf { Process.bare id elf.name heap with pageTable := table }

lemma loadFirst_cases {id : ProcessId} {elf : Elf} {k' : Kernel} {proc' : Process}
    (hend : physOf elf.base + elf.bytes.length ≤ physOf Platform.withFiles.capabilityPages)
    (h : loadFirst id elf = .ok (k', proc')) :
    ∃ k heap table, k.MemoryOk .withFiles ∅ ∧ elf.InMemory k ∧ mapHhDirectMapping .new = .ok table ∧
      loadElf .withFiles k elf { Process.bare id elf.name heap with pageTable := table } =
        .ok (k', proc') := by
  obtain ⟨boot, hboot, h⟩ := Checked.bind_eq_ok.mp h
  obtain ⟨k, hpci, h⟩ := Checked.bind_eq_ok.mp h
  obtain ⟨heap, -, h⟩ := Checked.bind_eq_ok.mp h
  obtain ⟨table, hdirect, h⟩ := Checked.bind_eq_ok.mp h
  have hmemory : k.MemoryOk .withFiles ∅ :=
    Kernel.initializeAllPci_memoryOk
      ((BuddyRun.boot hboot).inv Platform.withFiles.ram_stop Platform.withFiles.reservations)
      (fun _ _ => rfl) rfl rfl rfl rfl hpci
  refine ⟨_, heap, table, hmemory.withMemory fun p hp => ?_, fun i hi => ?_, hdirect, h⟩
  · have hge : physOf Platform.withFiles.capabilityPages ≤ p :=
      (Nat.le_add_right _ _).trans hp.1
    rw [fillMemory, if_neg (by omega)]
  · show fillMemory k.memory (physOf elf.base) elf.bytes.length (fun i => elf.bytes.getD i 0)
      (physOf elf.base + i) = elf.bytes.getD i 0
    rw [fillMemory, if_pos ⟨Nat.le_add_right _ _, Nat.add_lt_add_left hi _⟩,
      Nat.add_sub_cancel_left]

set_option maxRecDepth 10000 in
/-- A file whose read-only segment has two pages of memory, and bytes for one of them. -/
theorem not_loadElf_image : ∃ k heap table k' proc', k.MemoryOk .withFiles ∅ ∧
    Platform.withFiles.fat ∈ Platform.withFiles.elves ∧ Platform.withFiles.fat.InMemory k ∧
    mapHhDirectMapping .new = .ok table ∧
    loadElf .withFiles k Platform.withFiles.fat
      { Process.bare ⟨1, by decide, by decide⟩ Platform.withFiles.fat.name heap with
        pageTable := table } = .ok (k', proc') ∧
    ¬ proc'.HasImage .withFiles k' Platform.withFiles.fat := by
  have hloaded : ((loadFirst ⟨1, by decide, by decide⟩ Platform.withFiles.fat).toOption.any fun s =>
      s.2.pageTable.translate (userElf.start + pageSize) = none) = true := by
    decide +kernel
  obtain ⟨⟨k', proc'⟩, hload, hnone⟩ := (Option.any_eq_true _ _).mp hloaded
  have hend : physOf Platform.withFiles.fat.base + Platform.withFiles.fat.bytes.length ≤
      physOf Platform.withFiles.capabilityPages := by
    rw [show Platform.withFiles.fat.bytes.length = 8192 from headersOnly_length 8192]
    decide
  obtain ⟨k, heap, table, hmemory, hfile, hdirect, hload⟩ :=
    loadFirst_cases hend (Checked.toOption_eq_some.mp hload)
  refine ⟨k, heap, table, k', proc', hmemory, List.mem_cons_self, hfile, hdirect, hload,
    fun himage => ?_⟩
  have hmem : ⟨1, 0, userElf.start, 120, 8192, 4, pageSize⟩ ∈
      Platform.withFiles.loads Platform.withFiles.fat := by
    decide +kernel
  obtain ⟨phys, flags, htranslate, -⟩ :=
    himage.shows _ hmem (userElf.start + pageSize) ⟨by decide, by decide⟩
  rw [of_decide_eq_true hnone] at htranslate
  cases htranslate

set_option maxRecDepth 10000 in
/-- A file whose read-only segment has no more memory than bytes. -/
theorem loadElf_image_iff_headers : ∃ k' proc',
    loadFirst ⟨1, by decide, by decide⟩ Platform.withFiles.shell = .ok (k', proc') ∧
    (proc'.HasImage .withFiles k' Platform.withFiles.shell ↔
      ∀ s ∈ Platform.withFiles.loads Platform.withFiles.shell, ∀ v ∈ s.addresses, v ∉ s.pages.addresses →
        ∃ s' ∈ Platform.withFiles.loads Platform.withFiles.shell, s'.SamePermissions s ∧
          v ∈ s'.pages.addresses ∧ s'.byteAt Platform.withFiles.shell.bytes v = 0) := by
  have hloaded : (loadFirst ⟨1, by decide, by decide⟩ Platform.withFiles.shell).toOption.isSome =
      true := by
    decide +kernel
  obtain ⟨⟨k', proc'⟩, hsome⟩ := Option.isSome_iff_exists.mp hloaded
  have hfirst := Checked.toOption_eq_some.mp hsome
  have hend : physOf Platform.withFiles.shell.base + Platform.withFiles.shell.bytes.length ≤
      physOf Platform.withFiles.capabilityPages := by
    rw [show Platform.withFiles.shell.bytes.length = 8192 from headersOnly_length 120]
    decide
  obtain ⟨k, heap, table, hmemory, hfile, hdirect, hload⟩ := loadFirst_cases hend hfirst
  have helf : Platform.withFiles.shell ∈ Platform.withFiles.elves := by
    simp only [Platform.elves, List.mem_cons, true_or, or_true]
  exact ⟨k', proc', hfirst, loadElf_image_iff hmemory helf hfile hdirect hload⟩

end Deravel
