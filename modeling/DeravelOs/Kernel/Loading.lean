import DeravelOs.Kernel.Frames

/-!
# How a process is created

`create_process` fills an address space piece by piece.  A `LoadStep` is one piece: new pages, a part
of the image where the kernel has it, or the entry point.  Besides the direct mapping and the
certificates, which it maps itself, a new process is made by such steps alone.

* `createProcess_cases`: the steps of `create_process`.
* `Loads.induct`: what every step keeps holds at the end.
* `createProcess_frame`: what the creation of a process leaves alone.
-/

namespace Deravel

variable {P : Platform} {k k' : Kernel} {proc proc' : Process} {elf : Elf} {id : ProcessId}
  {args : List RawCapability}

/-! ## Pages -/

lemma nextMultipleOf_le {a m c : ℕ} (hm : 0 < m) (hac : a ≤ c) (hdvd : m ∣ c) :
    nextMultipleOf a m ≤ c := by
  have hlt := nextMultipleOf_lt hm a
  obtain ⟨n, hn⟩ := dvd_nextMultipleOf hm a
  obtain ⟨n', rfl⟩ := hdvd
  rw [hn] at hlt ⊢
  refine Nat.mul_le_mul_left m (Nat.lt_succ_iff.mp (Nat.lt_of_mul_lt_mul_left (a := m) ?_))
  rw [Nat.mul_succ]
  omega

lemma nextMultipleOfPage_eq_ok {size padded : ℕ} (h : nextMultipleOfPage size = .ok padded) :
    padded = nextMultipleOf size pageSize := by
  obtain ⟨-, h⟩ := ensure_bind_eq_ok.mp h
  cases h
  rfl

lemma bytesLayout_size {size : ℕ} {layout : Layout} (h : bytesLayout size = some layout) :
    layout.size = size := by
  simp only [bytesLayout] at h
  split at h
  · cases h
    rfl
  · cases h

lemma pageLayout_size {size : ℕ} {layout : Layout} (h : pageLayout size = .ok layout) :
    layout.size = size := by
  simp only [pageLayout] at h
  split at h
  · cases h
    rfl
  · cases h

/-- The size of what `load_elf` maps for a segment, in bytes. -/
def ProgramHeader.mappedSize (segment : ProgramHeader) : ℕ :=
  nextMultipleOf (if segment.pFlags.testBit 1 then segment.pMemsz else segment.pFilesz) pageSize

/-- The addresses that `load_elf` maps for a segment. -/
def ProgramHeader.pages (segment : ProgramHeader) : AddressRange :=
  ⟨segment.pVaddr, segment.pVaddr + segment.mappedSize⟩

/-- The bytes of a segment in the file. -/
def Elf.segment (elf : Elf) (segment : ProgramHeader) : List UInt8 :=
  elf.slice ⟨segment.pOffset, segment.pOffset + segment.pFilesz⟩

lemma Platform.segmentData_eq_some {bytes : List UInt8} {segment : ProgramHeader}
    {slice : AddressRange} (h : P.segmentData bytes segment = some slice) :
    segment.pOffset + segment.pFilesz ≤ bytes.length ∧
      slice = ⟨segment.pOffset, segment.pOffset + segment.pFilesz⟩ := by
  rw [P.segmentData_eq] at h
  split at h
  · next hle =>
      cases h
      exact ⟨hle, rfl⟩
  · cases h

lemma Elf.length_segment {segment : ProgramHeader}
    (h : segment.pOffset + segment.pFilesz ≤ elf.bytes.length) :
    (elf.segment segment).length = segment.pFilesz := by
  rw [Elf.segment, Elf.slice, List.length_take, List.length_drop]
  dsimp only
  omega

/-! ## Steps -/

/-- A step of `create_process`.  Everything that it maps is below the certificates; what it maps takes
page tables from the heap. -/
inductive LoadStep (elf : Elf) : Kernel × Process → Kernel × Process → Prop
  | pages {k k' : Kernel} {proc proc' : Process} {virt : ℕ} {layout : Layout}
      {contents : ℕ → UInt8} {b : Backing} {flags : PageFlags}
      (hpages : k.newPages layout contents = .ok (b, k'))
      (hbelow : virt + layout.size ≤ userElf.stop)
      (halloc : proc.allocAt virt b flags = .ok proc') : LoadStep elf (k, proc) (k', proc')
  | image {k : Kernel} {proc : Process} {virt phys size offset : ℕ} {flags : PageFlags}
      {table : PageTable} (hphys : virtToPhys (elf.base + offset) = .ok phys)
      (hbelow : virt + size ≤ userElf.stop)
      (hin : pageSize ∣ elf.base → offset + size ≤ elf.bytes.length)
      (hwrite : flags.write = false)
      (hmap : proc.pageTable.map virt phys size flags = .ok table) :
      LoadStep elf (k, proc) (k, { proc with pageTable := table })
  | entry {k : Kernel} {proc : Process} (pc : ℕ) :
      LoadStep elf (k, proc) (k, { proc with pc := pc })
  | heap {k k' : Kernel} {proc : Process} (h : k.UsesHeap k') : LoadStep elf (k, proc) (k', proc)

/-- Some steps of `create_process`. -/
abbrev Loads (elf : Elf) : Kernel × Process → Kernel × Process → Prop :=
  Relation.ReflTransGen (LoadStep elf)

/-- What every step keeps holds at the end. -/
lemma Loads.induct {I : Kernel × Process → Prop} {s s' : Kernel × Process} (h : Loads elf s s')
    (hstep : ∀ s s', I s → LoadStep elf s s' → I s') (hs : I s) : I s' := by
  induction h with
  | refl => exact hs
  | tail _ hlast ih => exact hstep _ _ ih hlast

/-- What the loop of `load_elf` does with a segment of the image: new pages if it is writable, else
pages of the file. -/
lemma loadSegment_cases {segment : ProgramHeader} (hload : segment.pType = 1)
    (h : loadSegment P elf (k, proc) segment = .ok (k', proc')) :
    ∃ flags, segment.pOffset + segment.pFilesz ≤ elf.bytes.length ∧
      pagingFlags segment = .ok flags ∧
      segment.pVaddr % pageSize = 0 ∧ segment.pFilesz ≤ segment.pMemsz ∧
      segment.pVaddr + segment.pMemsz ≤ userElf.stop ∧
      ((flags.write = true ∧ ∃ layout pages, layout.size = nextMultipleOf segment.pMemsz pageSize ∧
          k.newPages layout (fun i => (elf.segment segment).getD i 0) = .ok (pages, k') ∧
          proc.allocAt segment.pVaddr pages flags = .ok proc') ∨
        (flags.write = false ∧ (elf.base + segment.pOffset) % pageSize = 0 ∧
          elfDataIsZeroPadded segment elf.bytes = .ok true ∧
          ∃ phys table, virtToPhys (elf.base + segment.pOffset) = .ok phys ∧
            proc.pageTable.map segment.pVaddr phys (nextMultipleOf segment.pFilesz pageSize) flags =
              .ok table ∧ k' = k ∧ proc' = { proc with pageTable := table })) := by
  simp only [loadSegment] at h
  rw [if_neg (not_not_intro hload)] at h
  obtain ⟨hvaddr, h⟩ := ensure_bind_eq_ok.mp h
  obtain ⟨-, h⟩ := ensure_bind_eq_ok.mp h
  obtain ⟨hfilesz, h⟩ := ensure_bind_eq_ok.mp h
  obtain ⟨-, h⟩ := ensure_bind_eq_ok.mp h
  obtain ⟨vaddrEnd, hend, h⟩ := Checked.bind_eq_ok.mp h
  obtain rfl := usizeAdd_eq_ok hend
  obtain ⟨hstop, h⟩ := ensure_bind_eq_ok.mp h
  obtain ⟨-, h⟩ := ensure_bind_eq_ok.mp h
  split at h
  · cases h
  · next slice hslice =>
      obtain ⟨hbytes, rfl⟩ := P.segmentData_eq_some hslice
      obtain ⟨flags, hflags, h⟩ := Checked.bind_eq_ok.mp h
      refine ⟨flags, hbytes, hflags, hvaddr, hfilesz, hstop, ?_⟩
      split at h
      · next hwrite =>
          obtain ⟨size, hsize, h⟩ := Checked.bind_eq_ok.mp h
          split at h
          · cases h
          · next layout hlayout =>
              obtain ⟨⟨pages, k₁⟩, hpages, h⟩ := Checked.bind_eq_ok.mp h
              obtain ⟨-, h⟩ := ensure_bind_eq_ok.mp h
              obtain ⟨proc₁, halloc, h⟩ := Checked.bind_eq_ok.mp h
              cases h
              refine Or.inl ⟨hwrite, layout, pages, ?_, hpages, halloc⟩
              rw [bytesLayout_size hlayout, nextMultipleOfPage_eq_ok hsize]
      · next hwrite =>
          obtain ⟨hptr, h⟩ := ensure_bind_eq_ok.mp h
          obtain ⟨padded, hpadded, h⟩ := Checked.bind_eq_ok.mp h
          obtain ⟨htrue, h⟩ := ensure_bind_eq_ok.mp h
          rw [htrue] at hpadded
          obtain ⟨phys, hphys, h⟩ := Checked.bind_eq_ok.mp h
          obtain ⟨table, hmap, h⟩ := Checked.bind_eq_ok.mp h
          have hlength : (elf.slice ⟨segment.pOffset, segment.pOffset + segment.pFilesz⟩).length =
              segment.pFilesz := Elf.length_segment hbytes
          rw [hlength] at hmap
          cases h
          exact Or.inr ⟨Bool.eq_false_iff.mpr hwrite, hptr, hpadded, phys, table, hphys, hmap, rfl,
            rfl⟩

/-- The image ends at a page, and so do the pages of a segment. -/
lemma segment_stop_le {vaddr memsz len : ℕ} (hvaddr : vaddr % pageSize = 0)
    (hstop : vaddr + memsz ≤ userElf.stop) (hlen : len ≤ memsz) :
    vaddr + nextMultipleOf len pageSize ≤ userElf.stop := by
  have hle : nextMultipleOf len pageSize ≤ userElf.stop - vaddr :=
    nextMultipleOf_le (by decide) (by omega)
      (Nat.dvd_sub (by decide) (Nat.dvd_of_mod_eq_zero hvaddr))
  omega

/-- The pages of a read-only segment lie in the part of the file that is checked. -/
lemma segment_length_le {segment : ProgramHeader} (hbase : pageSize ∣ elf.base)
    (hptr : (elf.base + segment.pOffset) % pageSize = 0) (hfilesz : segment.pFilesz ≤ segment.pMemsz) :
    segment.pOffset + nextMultipleOf segment.pFilesz pageSize ≤
      nextMultipleOf (segment.pOffset + segment.pMemsz) pageSize := by
  have hoffset : pageSize ∣ segment.pOffset :=
    (Nat.dvd_add_right hbase).mp (Nat.dvd_of_mod_eq_zero hptr)
  have hup := le_nextMultipleOf (segment.pOffset + segment.pMemsz) pageSize
  have hle : nextMultipleOf segment.pFilesz pageSize ≤
      nextMultipleOf (segment.pOffset + segment.pMemsz) pageSize - segment.pOffset :=
    nextMultipleOf_le (by decide) (by omega)
      (Nat.dvd_sub (dvd_nextMultipleOf (by decide) _) hoffset)
  omega

lemma loadSegment_loads {segment : ProgramHeader} {loading loading' : Kernel × Process}
    (h : loadSegment P elf loading segment = .ok loading') : Loads elf loading loading' := by
  obtain ⟨k, proc⟩ := loading
  obtain ⟨k', proc'⟩ := loading'
  by_cases hload : segment.pType = 1
  · obtain ⟨flags, -, -, hvaddr, hfilesz, hstop,
      ⟨-, layout, pages, hsize, hpages, halloc⟩ |
        ⟨hwrite, hptr, hpadded, phys, table, hphys, hmap, rfl, rfl⟩⟩ := loadSegment_cases hload h
    · refine .single (.pages hpages ?_ halloc)
      rw [hsize]
      exact segment_stop_le hvaddr hstop le_rfl
    · obtain ⟨⟨-, hbytes⟩, -⟩ := ensure_bind_eq_ok.mp hpadded
      exact .single (.image hphys (segment_stop_le hvaddr hstop hfilesz)
        (fun hbase => (segment_length_le hbase hptr hfilesz).trans hbytes) hwrite hmap)
  · simp only [loadSegment] at h
    rw [if_pos hload] at h
    cases h
    exact .refl

/-- `load_elf` goes through the segments, and leaves the entry point. -/
lemma loadElf_cases (h : loadElf P k elf proc = .ok (k', proc')) :
    ∃ file segments proc₁, P.minimalParse elf.bytes = some file ∧ file.segments = some segments ∧
      segments.foldlM (loadSegment P elf) (k, proc) = .ok (k', proc₁) ∧
      proc' = { proc₁ with pc := file.eEntry } := by
  simp only [loadElf] at h
  split at h
  · cases h
  · next file hfile =>
      iterate 7 obtain ⟨-, h⟩ := ensure_bind_eq_ok.mp h
      split at h
      · cases h
      · next segments hsegments =>
          obtain ⟨⟨k₁, proc₁⟩, hfold, h⟩ := Checked.bind_eq_ok.mp h
          cases h
          exact ⟨file, segments, proc₁, hfile, hsegments, hfold, rfl⟩

lemma loadElf_loads (h : loadElf P k elf proc = .ok (k', proc')) :
    Loads elf (k, proc) (k', proc') := by
  obtain ⟨file, segments, proc₁, -, -, hfold, rfl⟩ := loadElf_cases h
  have hloads := Checked.foldlM_keeps (Loads elf (k, proc)) .refl
    (fun _ _ _ _ hs hstep => hs.trans (loadSegment_loads hstep)) hfold
  exact hloads.tail (.entry file.eEntry)

lemma mapInputsMemory_loads (h : mapInputsMemory P k proc elf args = .ok (k', proc')) :
    Loads elf (k, proc) (k', proc') := by
  obtain ⟨hsize, h⟩ := ensure_bind_eq_ok.mp h
  obtain ⟨layout, hlayout, h⟩ := Checked.bind_eq_ok.mp h
  obtain ⟨⟨inputs, k₁⟩, hpages, h⟩ := Checked.bind_eq_ok.mp h
  obtain ⟨proc₁, halloc, h⟩ := Checked.bind_eq_ok.mp h
  cases h
  refine .single (.pages hpages ?_ halloc)
  have hinputs : userInputs.start + (userInputs.stop - userInputs.start) ≤ userElf.stop := by decide
  rw [pageLayout_size hlayout]
  exact (Nat.add_le_add_left hsize _).trans hinputs

lemma mapUserStack_loads (h : mapUserStack k proc = .ok (k', proc')) :
    Loads elf (k, proc) (k', proc') := by
  simp only [mapUserStack] at h
  split at h
  · cases h
  · next layout hlayout =>
      obtain ⟨⟨pages, k₁⟩, hpages, h⟩ := Checked.bind_eq_ok.mp h
      obtain ⟨proc₁, halloc, h⟩ := Checked.bind_eq_ok.mp h
      cases h
      refine .single (.pages hpages ?_ halloc)
      rw [bytesLayout_size hlayout]
      decide

/-- **The steps of `create_process`.** -/
theorem createProcess_cases (h : createProcess P k elf id args = .ok k') :
    ∃ heap direct k₁ proc₁ table k₂ proc₂, BuddyAllocator.new userHeap = .ok heap ∧
      mapHhDirectMapping .new = .ok direct ∧
      Loads elf (k, { Process.bare id elf.name heap with pageTable := direct }) (k₁, proc₁) ∧
      mapCapabilityMemory P proc₁.pageTable proc₁.id = .ok table ∧
      Loads elf (k₁, { proc₁ with pageTable := table }) (k₂, proc₂) ∧
      proc₂.id.asU16 < processCount ∧ k' = k₂.setProcess proc₂ := by
  obtain ⟨heap, hheap, h⟩ := Checked.bind_eq_ok.mp h
  obtain ⟨direct, hdirect, h⟩ := Checked.bind_eq_ok.mp h
  obtain ⟨⟨k₁, proc₁⟩, hload, h⟩ := Checked.bind_eq_ok.mp h
  obtain ⟨table, hcapabilities, h⟩ := Checked.bind_eq_ok.mp h
  obtain ⟨⟨k₂, proc₂⟩, hinputs, h⟩ := Checked.bind_eq_ok.mp h
  obtain ⟨⟨k₃, proc₃⟩, hstack, h⟩ := Checked.bind_eq_ok.mp h
  obtain ⟨k₄, hchurn, h⟩ := Checked.bind_eq_ok.mp h
  obtain ⟨hid, h⟩ := ensure_bind_eq_ok.mp h
  cases h
  have hrest := (mapInputsMemory_loads hinputs).trans (mapUserStack_loads hstack)
  exact ⟨heap, direct, k₁, proc₁, table, k₄, proc₃, hheap, hdirect, loadElf_loads hload,
    hcapabilities, hrest.tail (.heap (Kernel.churn_usesHeap hchurn)), hid, rfl⟩

/-! ## What is left alone -/

/-- A process that has just been created, as far as others can see it. -/
structure Process.Fresh (id : ProcessId) (proc : Process) : Prop where
  id : proc.id = id
  state : proc.state = .runnable
  messages : proc.messages = []
  currentlyServing : proc.currentlyServing = none

lemma LoadStep.fresh {s s' : Kernel × Process} (h : LoadStep elf s s')
    (hfresh : Process.Fresh id s.2) : s.1.OnlyMemory s'.1 ∧ Process.Fresh id s'.2 := by
  cases h with
  | pages hpages _ halloc =>
      have hspace := Process.allocAt_onlySpace halloc
      exact ⟨Kernel.newPages_onlyMemory hpages, hspace.id.trans hfresh.id,
        hspace.state.trans hfresh.state, hspace.messages.trans hfresh.messages,
        hspace.currentlyServing.trans hfresh.currentlyServing⟩
  | image _ _ _ _ _ =>
      exact ⟨.refl _, hfresh.id, hfresh.state, hfresh.messages, hfresh.currentlyServing⟩
  | entry pc => exact ⟨.refl _, hfresh.id, hfresh.state, hfresh.messages, hfresh.currentlyServing⟩
  | heap h =>
      exact ⟨h.onlyMemory, hfresh.id, hfresh.state, hfresh.messages, hfresh.currentlyServing⟩

lemma Loads.fresh {s s' : Kernel × Process} (h : Loads elf s s') (hfresh : Process.Fresh id s.2) :
    s.1.OnlyMemory s'.1 ∧ Process.Fresh id s'.2 := by
  refine Loads.induct (I := fun s' => s.1.OnlyMemory s'.1 ∧ Process.Fresh id s'.2) h
    (fun _ _ hs hstep => ?_) ⟨.refl _, hfresh⟩
  obtain ⟨honly, hfresh⟩ := hstep.fresh hs.2
  exact ⟨hs.1.trans honly, hfresh⟩

lemma createProcess_frame (h : createProcess P k elf id args = .ok k') :
    ∃ k₁ proc, k.OnlyMemory k₁ ∧ Process.Fresh id proc ∧ id.asU16 < processCount ∧
      k' = k₁.setProcess proc := by
  obtain ⟨heap, direct, k₁, proc₁, table, k₂, proc₂, -, -, hload, -, hrest, hid, rfl⟩ :=
    createProcess_cases h
  obtain ⟨honly₁, hfresh₁⟩ := hload.fresh ⟨rfl, rfl, rfl, rfl⟩
  have hmapped : Process.Fresh id { proc₁ with pageTable := table } :=
    ⟨hfresh₁.id, hfresh₁.state, hfresh₁.messages, hfresh₁.currentlyServing⟩
  obtain ⟨honly₂, hfresh₂⟩ := hrest.fresh hmapped
  exact ⟨k₂, proc₂, honly₁.trans honly₂, hfresh₂, hfresh₂.id ▸ hid, rfl⟩

end Deravel
