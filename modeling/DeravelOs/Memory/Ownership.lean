import DeravelOs.Memory.System

/-!
# No dangling mapping

Whatever a process can reach through its page table belongs to somebody: to the process itself, to an
object that the kernel never gives up, or to the kernel's image.  None of it is free on the kernel
heap.

* `Reachable.owned`: in every reachable state, for every process.
-/

namespace Deravel

variable {P : Platform} {k : Kernel} {proc : Process} {allocated : List (ℕ × Backing)}
  {id : ProcessId} {mode : Mode} {flags : PageFlags} {i v phys : ℕ} {blocks : List Live}

/-- Memory that is still owned, and by whom. -/
inductive Kernel.Owned (P : Platform) (k : Kernel) (allocated : List (ℕ × Backing)) (phys : ℕ) :
    Prop
  | allocated (virt : ℕ) (b : Backing) (hmem : (virt, b) ∈ allocated) (hphys : phys ∈ b.frames)
  | shared (b : Backing) (hb : b ∈ k.sharedMemory) (hphys : phys ∈ b.frames)
  | ring (b : Backing) (hb : b ∈ k.rings) (hphys : phys ∈ b.frames)
  | loaded (b : Backing) (hb : b ∈ k.loadedPages) (hphys : phys ∈ b.frames)
  | image (elf : Elf) (helf : elf ∈ P.elves) (hphys : phys ∈ elf.frames)

/-- The owner of what user code can reach outside of the certificates. -/
lemma Owner.toOwned (h : Owner P k id allocated v phys flags) (huser : flags.user = true)
    (hregion : v ∉ capabilityRegion.addresses) : k.Owned P allocated phys := by
  cases h with
  | direct hv hkernel =>
      rw [huser] at hkernel
      cases hkernel
  | capability hv hphys hwrite => exact absurd hv hregion
  | own virt b hmem hv hphys => exact .allocated virt b hmem hphys
  | shared b hb hphys => exact .shared b hb hphys
  | ring b hb hphys => exact .ring b hb hphys
  | loaded b hb hphys hwrite => exact .loaded b hb hphys
  | image elf helf hphys hwrite => exact .image elf helf hphys

/-- An image is part of the kernel's image. -/
lemma Elf.frames_subset {elf : Elf} (helf : elf ∈ P.elves) : elf.frames ⊆ P.imageFrames := by
  obtain ⟨hstart, hstop⟩ := P.elf_static elf helf
  rintro p ⟨h1, h2⟩
  obtain ⟨i, rfl⟩ := Nat.exists_eq_add_of_le h1
  have hmem : ∀ j < elf.bytes.length, elf.base + j ∈ P.image.addresses := fun j hj =>
    ⟨by omega, by omega⟩
  have hi : i < elf.bytes.length := by omega
  have hfirst := P.image_subset (hmem 0 (by omega))
  exact ⟨elf.base + i, hmem i hi, P.physOf_add hfirst (P.image_subset (hmem i hi))⟩

/-- Where a process sees certificates there are the capability pages. -/
lemma capability_mem_imageFrames (hv : v ∈ capabilityRegion.addresses) :
    physOf P.capabilityPages + (v - capabilityRegion.start) ∈ P.imageFrames := by
  obtain ⟨h1, h2⟩ := hv
  have hstop : capabilityRegion.stop = capabilityRegion.start + processCount * pageSize := rfl
  have hpages : processCount * pageSize ≤ (processCount + 1) * pageSize := by decide
  obtain ⟨hphys, hmem⟩ :=
    P.physOf_capabilityPages (i := v - capabilityRegion.start) (by omega)
  exact ⟨_, hmem, hphys⟩

namespace Kernel

/-- What is free on the heap is memory that the heap can hand out. -/
lemma HeapOk.freeFrames_subset {S T : Set Backing} (h : k.HeapOk P S T) :
    k.freeFrames P ⊆ P.heapFrames := by
  obtain ⟨blocks, hblocks, -⟩ := h
  rintro p ⟨x, hx, rfl⟩
  obtain ⟨hstop, hreserved⟩ := ((hblocks.inv.wf.mem_free x).mp hx).1
  exact ⟨_, ⟨⟨Nat.le_add_right _ _, hstop⟩, hreserved⟩, rfl⟩

/-- The kernel's image is not free. -/
lemma HeapOk.image_not_free {S T : Set Backing} (h : k.HeapOk P S T) (hphys : phys ∈ P.imageFrames) :
    phys ∉ k.freeFrames P := fun hfree =>
  Set.disjoint_left.mp P.disjoint_heapFrames_imageFrames (h.freeFrames_subset hfree) hphys

/-- Owned memory is not free. -/
lemma MemoryOk.owned_not_free {F : Set Backing} (h : k.MemoryOk P F)
    (hproc : k.processes i = some proc) (howned : k.Owned P proc.allocated phys) :
    phys ∉ k.freeFrames P := by
  cases howned with
  | allocated virt b hmem hphys =>
      exact (h.heap.frames (Or.inl (Or.inl (memory_subset hproc ⟨virt, hmem⟩))) hphys).2
  | shared b hb hphys =>
      exact (h.heap.frames (Or.inl (Or.inl (Or.inl (Or.inr hb)))) hphys).2
  | ring b hb hphys => exact (h.heap.frames (Or.inr (Or.inl hb)) hphys).2
  | loaded b hb hphys => exact (h.heap.frames (Or.inr (Or.inr hb)) hphys).2
  | image elf helf hphys => exact h.heap.image_not_free (Elf.frames_subset helf hphys)

end Kernel

/-- **No dangling mapping.**  In every reachable state, take any process and any address that user code
of it can reach.  Outside of the certificates the memory there is owned by the process, by an object of
the kernel (a shared memory, a ring or a page of a mapping) or by the image of a program.  And nowhere is
it memory that the heap of the kernel would hand out again. -/
theorem Reachable.owned (h : Reachable P (k, mode)) (hproc : k.processes i = some proc)
    (hv : v < virtualAddresses.stop) (htranslate : proc.pageTable.translate v = some (phys, flags))
    (huser : flags.user = true) :
    (v ∉ capabilityRegion.addresses → k.Owned P proc.allocated phys) ∧
      phys ∉ k.freeFrames P := by
  have hmemory : k.MemoryOk P ∅ := h.memoryOk
  have howner := (hmemory.space i proc hproc).space.owner v hv phys flags htranslate
  refine ⟨howner.toOwned huser, ?_⟩
  by_cases hregion : v ∈ capabilityRegion.addresses
  · obtain ⟨f, -, hcapability⟩ := (hmemory.space i proc hproc).certificates v hregion
    rw [htranslate] at hcapability
    have hphys : phys = physOf P.capabilityPages + (v - capabilityRegion.start) :=
      congrArg Prod.fst (Option.some.inj hcapability)
    rw [hphys]
    exact hmemory.heap.image_not_free (capability_mem_imageFrames hregion)
  · exact hmemory.owned_not_free hproc (howner.toOwned huser hregion)

/-- A process of a small machine allocates a page. -/
def allocMoves : List Move :=
  [.schedule, .user [(.a6, 5), (.a0, 4096)] [], .trap .userEnvCall]

set_option maxRecDepth 10000 in
/-- The page belongs to the process. -/
theorem Reachable.owned_alloc : ∃ k proc v phys flags, Reachable .small (k, .user) ∧
    k.processes 1 = some proc ∧ proc.pageTable.translate v = some (phys, flags) ∧
    k.Owned .small proc.allocated phys ∧ phys ∉ k.freeFrames .small := by
  have hplayed : (play .small .quiet allocMoves).any (fun s => s.2 = .user ∧
      s.1.registers .a0 = 0x3ffc000000 ∧ (s.1.processes 1).any fun proc =>
        (proc.pageTable.translate 0x3ffc000000).any fun found => found.2.user) = true := by
    decide +kernel
  obtain ⟨⟨k, mode⟩, hplay, hstate⟩ := (Option.any_eq_true _ _).mp hplayed
  obtain ⟨hmode, -, hstate⟩ := of_decide_eq_true hstate
  obtain ⟨proc, hproc, hstate⟩ := (Option.any_eq_true _ _).mp hstate
  obtain ⟨⟨phys, flags⟩, htranslate, huser⟩ := (Option.any_eq_true _ _).mp hstate
  obtain rfl : mode = .user := hmode
  obtain ⟨howned, hfree⟩ := (play_reachable hplay).owned hproc (v := 0x3ffc000000) (by decide)
    htranslate huser
  refine ⟨k, proc, _, phys, flags, play_reachable hplay, hproc, htranslate, howned ?_, hfree⟩
  intro hregion
  exact absurd hregion.2 (by decide)

end Deravel
