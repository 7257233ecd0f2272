import DeravelOs.Memory.Invariant

/-!
# The memory of a new process

`create_process` builds an address space from nothing: the direct mapping, the image, the
certificates, the inputs and the stack.  Until the process is in its slot, the code that creates it
has its memory in hand (`Loading`).

* `MemoryOk.createProcess`: a new process has an address space like the others.
-/

namespace Deravel

variable {P : Platform} {k k' : Kernel} {proc proc' : Process} {elf : Elf} {virt : ℕ}
  {b : Backing} {flags : PageFlags}

/-- A process that is being created, with its memory in hand. -/
structure Loading (P : Platform) (k : Kernel) (proc : Process) : Prop where
  memory : k.MemoryOk P proc.memory
  space : AddressSpace P k proc.id proc.pageTable proc.allocated

namespace Loading

/-- New pages at an address below the certificates. -/
lemma allocAt (h : Loading P k proc) {layout : Layout} {contents : ℕ → UInt8}
    (hpages : k.newPages layout contents = .ok (b, k'))
    (hout : virt + layout.size ≤ capabilityRegion.start)
    (halloc : proc.allocAt virt b flags = .ok proc') : Loading P k' proc' := by
  have hb : b.byteSize = layout.size :=
    congrArg Layout.size (Kernel.allocPages_eq_ok (Kernel.newPages_eq_ok.mp hpages)).1
  have hgrows := (Kernel.newPages_onlyMemory hpages).grows
  obtain ⟨hspace, hallocated⟩ := (h.space.mono hgrows).allocAt (fun v hv hregion => by
    have h1 : v < virt + b.byteSize := hv.2
    have h2 : capabilityRegion.start ≤ v := hregion.1
    omega) halloc
  refine ⟨(h.memory.newPages hpages).mono ?_, hspace⟩
  rintro c ⟨virt', hmem⟩
  rw [hallocated] at hmem
  rcases List.mem_append.mp hmem with hmem | hmem
  · exact Or.inr ⟨virt', hmem⟩
  · cases List.mem_singleton.mp hmem
    exact Or.inl rfl

/-- A process that has only the direct mapping. -/
lemma direct {id : ProcessId} {name : String} {heap : BuddyAllocator} {table : PageTable}
    (h : k.MemoryOk P ∅) (hdirect : mapHhDirectMapping .new = .ok table) :
    Loading P k { Process.bare id name heap with pageTable := table } := by
  refine ⟨h.mono ?_, AddressSpace.empty.map hdirect fun v hv => .direct hv.1 rfl⟩
  rintro b ⟨virt, hmem⟩
  cases hmem

end Loading

/-! ## The image -/

/-- What is mapped of an image belongs to the image. -/
lemma Elf.mem_frames (helf : elf ∈ P.elves) {offset i phys : ℕ}
    (hphys : virtToPhys (elf.base + offset) = .ok phys) (hi : offset + i < elf.bytes.length) :
    phys + i ∈ elf.frames := by
  obtain ⟨hstart, hstop⟩ := P.elf_static elf helf
  have hmem : ∀ j < elf.bytes.length, elf.base + j ∈ P.ram.addresses := fun j hj =>
    P.image_subset ⟨by omega, by omega⟩
  have hbase : elf.base ∈ P.ram.addresses := hmem 0 (by omega)
  obtain rfl := virtToPhys_eq hphys
  rw [P.physOf_add hbase (hmem offset (by omega))]
  exact ⟨by omega, by omega⟩

/-- A step of the creation keeps the memory in hand. -/
lemma Loading.step {s s' : Kernel × Process} (h : Loading P s.1 s.2) (helf : elf ∈ P.elves)
    (hstep : LoadStep elf s s') : Loading P s'.1 s'.2 := by
  cases hstep with
  | pages hpages hbelow halloc => exact h.allocAt hpages hbelow halloc
  | @image k proc virt phys size offset flags table hphys hbelow hin hwrite hmap =>
      refine ⟨h.memory, h.space.map hmap fun v hv => ?_⟩
      have hsize := hin (P.elf_aligned elf helf)
      have h1 : virt ≤ v := hv.1
      have h2 : v < virt + size := hv.2
      exact .image elf helf (Elf.mem_frames helf hphys (by omega)) hwrite
  | entry pc => exact ⟨h.memory, h.space⟩
  | heap huses => exact ⟨h.memory.usesHeap huses, h.space.mono huses.onlyMemory.grows⟩

/-! ## The certificates -/

/-- A part of the capability pages is mapped where it belongs. -/
lemma Loading.mapCapabilities (h : Loading P k proc) {virt phys size : ℕ} {t : PageTable}
    (offset : ℕ) (hvirt : virt = capabilityRegion.start + offset)
    (hphys : phys = physOf P.capabilityPages + offset)
    (hin : offset + size ≤ processCount * pageSize)
    (hwrite : ∀ i < size, flags.write = true → (offset + i) / pageSize = proc.id.asU16)
    (hmap : proc.pageTable.map virt phys size flags = .ok t) :
    Loading P k { proc with pageTable := t } ∧
      (∀ v ∈ Set.Ico (capabilityRegion.start + offset) (capabilityRegion.start + offset + size),
        t.translate v =
          some (physOf P.capabilityPages + (v - capabilityRegion.start), flags)) ∧
      ∀ v ∈ capabilityRegion.addresses, ∀ found, proc.pageTable.translate v = some found →
        t.translate v = some found := by
  subst hvirt hphys
  obtain ⟨-, hfree, hinside, hframe⟩ := PageTable.map_translate h.space.built hmap
  have hsub : ∀ v ∈ Set.Ico (capabilityRegion.start + offset)
      (capabilityRegion.start + offset + size), v ∈ capabilityRegion.addresses ∧
        physOf P.capabilityPages + offset + (v - (capabilityRegion.start + offset)) =
          physOf P.capabilityPages + (v - capabilityRegion.start) := by
    rintro v ⟨h1, h2⟩
    have hstop : capabilityRegion.stop = capabilityRegion.start + processCount * pageSize := rfl
    exact ⟨⟨by omega, by omega⟩, by omega⟩
  refine ⟨⟨h.memory, h.space.map hmap fun v hv => ?_⟩, fun v hv => ?_, fun v hv found hfound => ?_⟩
  · obtain ⟨hregion, hphys⟩ := hsub v hv
    refine .capability hregion hphys fun hw => ?_
    have h1 : capabilityRegion.start + offset ≤ v := hv.1
    have h2 : v < capabilityRegion.start + offset + size := hv.2
    have heq : v - capabilityRegion.start = offset + (v - (capabilityRegion.start + offset)) := by
      omega
    rw [heq]
    exact hwrite _ (by omega) hw
  · rw [hinside v hv, (hsub v hv).2]
  · rw [hframe v (capabilityRegion_lt hv) fun hrange => ?_, hfound]
    rw [hfree v hrange] at hfound
    cases hfound

/-- The capability pages as a new process sees them: its own one can be written. -/
def OwnCertificates (P : Platform) (id : ProcessId) (t : PageTable) : Prop :=
  ∀ v ∈ capabilityRegion.addresses,
    t.translate v = some (physOf P.capabilityPages + (v - capabilityRegion.start),
      if (v - capabilityRegion.start) / pageSize = id.asU16 then PageFlags.readWrite.asUser
      else PageFlags.readonly.asUser)

lemma OwnCertificates.sees {id : ProcessId} {t : PageTable} (h : OwnCertificates P id t) :
    SeesCertificates P t := by
  intro v hv
  refine ⟨_, ?_, h v hv⟩
  split <;> rfl

/-- `map_capability_memory` -/
lemma Loading.mapCapabilityMemory (h : Loading P k proc) {t : PageTable}
    (hmap : Deravel.mapCapabilityMemory P proc.pageTable proc.id = .ok t) :
    Loading P k { proc with pageTable := t } ∧ OwnCertificates P proc.id t := by
  obtain ⟨preP, hpreP, hmap⟩ := Checked.bind_eq_ok.mp hmap
  obtain ⟨others, hothers, hmap⟩ := Checked.bind_eq_ok.mp hmap
  obtain ⟨sufL, hsufL, hmap⟩ := Checked.bind_eq_ok.mp hmap
  obtain ⟨t₁, hpre, hmap⟩ := Checked.bind_eq_ok.mp hmap
  obtain ⟨t₂, hown, hsuf⟩ := Checked.bind_eq_ok.mp hmap
  obtain rfl := virtToPhys_eq hpreP
  obtain ⟨hid, rfl⟩ := usizeSub_eq_ok hothers
  obtain ⟨hone, rfl⟩ := usizeSub_eq_ok hsufL
  have hpid : proc.id.asU16 + 1 ≤ processCount := by omega
  have hsufV : userCapabilities.start + proc.id.asU16 * pageSize + pageSize =
      capabilityRegion.start + (proc.id.asU16 + 1) * pageSize := by
    rw [add_mul, one_mul, add_assoc]
    rfl
  have hsufP : physOf P.capabilityPages + proc.id.asU16 * pageSize + pageSize =
      physOf P.capabilityPages + (proc.id.asU16 + 1) * pageSize := by
    rw [add_mul, one_mul, add_assoc]
  have hpages : ∀ n ≤ processCount, n * pageSize ≤ processCount * pageSize := fun n hn =>
    Nat.mul_le_mul_right _ hn
  have hreadonly : ¬ PageFlags.readonly.asUser.write = true := by decide
  have hsum : (proc.id.asU16 + 1) * pageSize +
      (processCount - proc.id.asU16 - 1) * pageSize = processCount * pageSize := by
    rw [← add_mul, Nat.sub_sub, Nat.add_sub_cancel' hpid]
  have hown_div : ∀ i < pageSize, (proc.id.asU16 * pageSize + i) / pageSize = proc.id.asU16 :=
    fun i hi => by rw [Nat.mul_comm, Nat.mul_add_div (by decide), Nat.div_eq_of_lt hi, add_zero]
  have hprefix : 0 + proc.id.asU16 * pageSize ≤ processCount * pageSize := by
    rw [zero_add]
    exact hpages _ (by omega)
  have hone := add_one_mul proc.id.asU16 pageSize
  obtain ⟨h₁, hin₁, -⟩ := h.mapCapabilities 0 rfl rfl hprefix
    (fun _ _ hw => absurd hw hreadonly) hpre
  obtain ⟨h₂, hin₂, hkeep₂⟩ := h₁.mapCapabilities (proc.id.asU16 * pageSize) rfl rfl
    (hone ▸ hpages _ hpid) (fun i hi _ => hown_div i hi) hown
  obtain ⟨h₃, hin₃, hkeep₃⟩ := h₂.mapCapabilities ((proc.id.asU16 + 1) * pageSize) hsufV hsufP
    hsum.le (fun _ _ hw => absurd hw hreadonly) hsuf
  refine ⟨h₃, fun v hv => ?_⟩
  -- the three parts are next to each other
  have h1 : capabilityRegion.start ≤ v := hv.1
  have h2 : v < capabilityRegion.start + processCount * pageSize := hv.2
  by_cases hpre : v < capabilityRegion.start + proc.id.asU16 * pageSize
  · have hbefore : (v - capabilityRegion.start) / pageSize ≠ proc.id.asU16 :=
      (Nat.div_lt_of_lt_mul (by rw [Nat.mul_comm]; omega)).ne
    rw [if_neg hbefore]
    exact hkeep₃ v hv _ (hkeep₂ v hv _ (hin₁ v ⟨h1, hpre⟩))
  · by_cases hown : v < capabilityRegion.start + proc.id.asU16 * pageSize + pageSize
    · have hsame : (v - capabilityRegion.start) / pageSize = proc.id.asU16 := by
        have heq : v - capabilityRegion.start = proc.id.asU16 * pageSize +
            (v - (capabilityRegion.start + proc.id.asU16 * pageSize)) := by omega
        rw [heq]
        exact hown_div _ (by omega)
      rw [if_pos hsame]
      exact hkeep₃ v hv _ (hin₂ v ⟨Nat.le_of_not_lt hpre, hown⟩)
    · have hafter : (v - capabilityRegion.start) / pageSize ≠ proc.id.asU16 := by
        refine (Nat.lt_of_succ_le ?_).ne'
        exact (Nat.le_div_iff_mul_le (by decide)).mpr (by rw [Nat.succ_mul]; omega)
      rw [if_neg hafter]
      exact hin₃ v ⟨by omega, by omega⟩

/-- What is mapped stays as it is mapped. -/
lemma LoadStep.translate {s s' : Kernel × Process} (hstep : LoadStep elf s s')
    (hbuilt : PageTable.Built s.2.pageTable) {v : ℕ} (hv : v < virtualAddresses.stop)
    {found : ℕ × PageFlags} (h : s.2.pageTable.translate v = some found) :
    s'.2.pageTable.translate v = some found := by
  have hmapped : ∀ {t : PageTable} {virt phys size : ℕ} {flags : PageFlags},
      s.2.pageTable.map virt phys size flags = .ok t → t.translate v = some found := by
    intro t virt phys size flags hmap
    obtain ⟨-, hfree, -, hframe⟩ := PageTable.map_translate hbuilt hmap
    rw [hframe v hv fun hin => ?_, h]
    rw [hfree v hin] at h
    cases h
  cases hstep with
  | pages _ _ halloc =>
      obtain ⟨phys, -, halloc⟩ := Checked.bind_eq_ok.mp halloc
      obtain ⟨table, hmap, halloc⟩ := Checked.bind_eq_ok.mp halloc
      cases halloc
      exact hmapped hmap
  | image _ _ _ _ hmap => exact hmapped hmap
  | entry pc => exact h
  | heap _ => exact h

/-- A step of the creation does not touch the certificates. -/
lemma OwnCertificates.step {id : ProcessId} {s s' : Kernel × Process}
    (h : OwnCertificates P id s.2.pageTable) (hbuilt : PageTable.Built s.2.pageTable)
    (hstep : LoadStep elf s s') : OwnCertificates P id s'.2.pageTable := fun v hv =>
  hstep.translate hbuilt (capabilityRegion_lt hv) (h v hv)

/-! ## Creation -/

namespace Kernel.MemoryOk

variable {id : ProcessId} {args : List RawCapability}

/-- A new process, before it is put into its slot. -/
lemma createProcess_loading (h : k.MemoryOk P ∅) (helf : elf ∈ P.elves)
    (hcreate : Deravel.createProcess P k elf id args = .ok k') :
    ∃ k₁ proc, Loading P k₁ proc ∧ OwnCertificates P id proc.pageTable ∧ k.OnlyMemory k₁ ∧
      Process.Fresh id proc ∧ id.asU16 < processCount ∧ k' = k₁.setProcess proc := by
  obtain ⟨heap, direct, k₁, proc₁, table, k₂, proc₂, -, hdirect, hload, hcapabilities, hrest, hid,
    rfl⟩ := createProcess_cases hcreate
  have hbare : Loading P k { Process.bare id elf.name heap with pageTable := direct } :=
    .direct h hdirect
  have hbareFresh : Process.Fresh id { Process.bare id elf.name heap with pageTable := direct } :=
    ⟨rfl, rfl, rfl, rfl⟩
  have h₁ : Loading P k₁ proc₁ := Loads.induct (I := fun s => Loading P s.1 s.2) hload
    (fun _ _ hs hstep => hs.step helf hstep) hbare
  obtain ⟨honly₁, hfresh₁⟩ := hload.fresh hbareFresh
  obtain ⟨h₂, hown₂⟩ := Loads.induct
    (I := fun s => Loading P s.1 s.2 ∧ OwnCertificates P proc₁.id s.2.pageTable) hrest
    (fun _ _ hs hstep => ⟨hs.1.step helf hstep, hs.2.step hs.1.space.built hstep⟩)
    (h₁.mapCapabilityMemory hcapabilities)
  have hmapped : Process.Fresh id { proc₁ with pageTable := table } :=
    ⟨hfresh₁.id, hfresh₁.state, hfresh₁.messages, hfresh₁.currentlyServing⟩
  obtain ⟨honly₂, hfresh₂⟩ := hrest.fresh hmapped
  exact ⟨k₂, proc₂, h₂, hfresh₁.id ▸ hown₂, honly₁.trans honly₂, hfresh₂, hfresh₂.id ▸ hid, rfl⟩

/-- **A new process has an address space like the others.** -/
theorem createProcess (h : k.MemoryOk P ∅) (helf : elf ∈ P.elves)
    (hcreate : Deravel.createProcess P k elf id args = .ok k') : k'.MemoryOk P ∅ := by
  obtain ⟨k₁, proc, hloading, hown, -, hfresh, hid, rfl⟩ := h.createProcess_loading helf hcreate
  exact (hloading.memory.setProcess ⟨hloading.space, hown.sees, hfresh.id ▸ hid⟩
    Set.subset_union_right).drop

end Kernel.MemoryOk

end Deravel
