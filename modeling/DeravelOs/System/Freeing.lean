import DeravelOs.Memory.Holders
import DeravelOs.Memory.Supply

/-!
# What `free` does with a pointer

The list that `free` looks a pointer up in also has the regions that were placed outside of the heap
when the process was created: its inputs, its stack and its writable segments.

* `Kernel.FreeSafe`: exactly the region that starts there is freed, or the process is killed.
* `Reachable.free_safe_iff`: this is so unless a region outside of the heap starts there.
-/

namespace Deravel

open PageTable

variable {P : Platform} {k : Kernel} {proc proc' : Process} {b : Backing} {ptr : ℕ}
  {oracle : Oracle}

/-- One region has gone from a process, and nothing else. -/
structure Process.Freed (proc : Process) (ptr : ℕ) (b : Backing) (proc' : Process) : Prop where
  allocated : proc.allocated.Perm ((ptr, b) :: proc'.allocated)
  heap : proc.heap.dealloc ptr b.layout = .ok proc'.heap
  mapped : ∀ v ∈ Set.Ico ptr (ptr + b.byteSize),
    proc.pageTable.translate v = some (physOf b.ptr + (v - ptr), PageFlags.readWrite.asUser)
  unmapped : ∀ v ∈ Set.Ico ptr (ptr + b.byteSize), proc'.pageTable.translate v = none
  kept : ∀ v < virtualAddresses.stop, v ∉ Set.Ico ptr (ptr + b.byteSize) →
    proc'.pageTable.translate v = proc.pageTable.translate v
  same : proc' = { proc with
    heap := proc'.heap
    pageTable := proc'.pageTable
    allocated := proc'.allocated }

/-- **`free` is safe for the pointer in `a0`.**  The pointer is the start of a region that the process
has from `alloc` or `alloc_shared`, which is unmapped, given back to the heap and dropped; or the
process is killed and nothing else happens.  The kernel does not panic. -/
def Kernel.FreeSafe (P : Platform) (s : Kernel × Mode) (k : Kernel) (proc : Process) : Prop :=
  match k.dispatchSyscall P with
  | .ok (k', .ok ()) => ∃ b proc' k₁, Obtained P s proc.id (k.registers .a0, b) ∧
      proc.Freed (k.registers .a0) b proc' ∧ (k.setProcess proc').dropBacking b = .ok k₁ ∧
      k' = { k₁ with registers := k'.registers }
  | .ok (k', .error .yield) => ∃ reason, (k', .error .yield) = k.kill (α := Unit) proc reason
  | .ok (_, .error (.userErr err)) =>
      k.onUserTrap P .userEnvCall = .ok (k.killManual proc (.userError err), .schedule)
  | .error _ => False

/-- `dealloc` finds what is on the list. -/
lemma Process.dealloc_eq_none : proc.dealloc ptr = .ok none ↔ ∀ b, (ptr, b) ∉ proc.allocated := by
  have hfind : (proc.allocated.zipIdx.find? fun entry => entry.1.1 = ptr) = none ↔
      ∀ b, (ptr, b) ∉ proc.allocated := by
    rw [List.find?_eq_none]
    constructor
    · intro h b hmem
      obtain ⟨slot, hslot, hget⟩ := List.getElem_of_mem hmem
      exact h ((ptr, b), slot) (List.mem_zipIdx_iff_getElem?.mpr
        (List.getElem?_eq_some_iff.mpr ⟨hslot, hget⟩)) (by simp)
    · rintro h ⟨⟨virt, b⟩, slot⟩ hmem hvirt
      obtain rfl : virt = ptr := by simpa using hvirt
      exact h b (List.mem_of_getElem? (List.mem_zipIdx_iff_getElem?.mp hmem))
  rw [← hfind]
  constructor
  · intro h
    simp only [dealloc] at h
    split at h
    · next hnone => exact hnone
    · obtain ⟨_, -, h⟩ := Checked.bind_eq_ok.mp h
      obtain ⟨_, -, h⟩ := Checked.bind_eq_ok.mp h
      obtain ⟨_, -, h⟩ := Checked.bind_eq_ok.mp h
      cases h
  · intro h
    simp only [dealloc, h]
    rfl

namespace Holdings.InStep

variable {mappings : List VirtualMemoryMapping} {regions : List Region}

/-- Where `dealloc` succeeds, one region is gone. -/
lemma freed (h : proc.holdings.InStep mappings regions)
    (hdealloc : proc.dealloc ptr = .ok (some (proc', b))) :
    proc.Freed ptr b proc' ∧ 0 < b.byteSize ∧ userHeap.start ≤ ptr := by
  obtain ⟨before, r, after, rfl, rfl, hcontent, -, hperm, -⟩ := h.of_dealloc hdealloc
  have hr : r ∈ before ++ r :: after := List.mem_append_right _ List.mem_cons_self
  obtain ⟨slot, phys, table, heap, -, -, hphys, hunmap, hheap, rfl⟩ := Process.dealloc_cases hdealloc
  have hunmapped := unmap_translate h.built hunmap
  refine ⟨⟨hperm, hheap, fun v hv => ?_, hunmapped.1, hunmapped.2, rfl⟩, ?_, ?_⟩
  · exact ((h.mapped r hr).of_backing hcontent).translate hv
  · exact ((h.whole r hr).layout_eq b hcontent).1
  · exact (h.placed hr).2.2.1

/-- A region outside of the heap cannot be given back to the heap. -/
lemma dealloc_outside (h : proc.holdings.InStep mappings regions)
    (hmem : (ptr, b) ∈ proc.allocated) (hlt : ptr < userHeap.start) :
    ∃ e, proc.dealloc ptr = .error e := by
  cases hdealloc : proc.dealloc ptr with
  | error e => exact ⟨e, rfl⟩
  | ok freed =>
      cases freed with
      | none => exact absurd hmem (Process.dealloc_eq_none.mp hdealloc b)
      | some pair => exact absurd (h.freed hdealloc).2.2 (Nat.not_le.mpr hlt)

/-- A region of the heap can be freed, and so can what is not on the list. -/
lemma dealloc_inside (h : proc.holdings.InStep mappings regions)
    (hle : ∀ b, (ptr, b) ∈ proc.allocated → userHeap.start ≤ ptr) :
    ∃ freed, proc.dealloc ptr = .ok freed := by
  by_cases hnone : ∀ b, (ptr, b) ∉ proc.allocated
  · exact ⟨none, Process.dealloc_eq_none.mpr hnone⟩
  · push Not at hnone
    obtain ⟨b, hmem⟩ := hnone
    obtain ⟨r, hr, rfl, hcontent⟩ := h.exists_region hmem ⟨hle b hmem, h.below _ hmem⟩
    obtain ⟨before, after, rfl⟩ := List.append_of_mem hr
    obtain ⟨proc', hdealloc, -⟩ := h.dealloc hcontent
    exact ⟨_, hdealloc⟩

end Holdings.InStep

namespace Kernel

/-- What the dispatcher does with a call of `free`. -/
lemma dispatchSyscall_free (hfree : k.registers .a6 = 8) :
    k.dispatchSyscall P = k.withArg (checkPointer (k.registers .a0)) fun ptr =>
      returning (fun _ => []) <$> k.free ptr := by
  simp only [dispatchSyscall, hfree]

/-- A pointer that is refused ends the caller. -/
lemma freeSafe_refused {s : Kernel × Mode} (hproc : k.process [] = .ok proc)
    (hfree : k.registers .a6 = 8) {err : UserSyscallError}
    (hrefused : checkPointer (k.registers .a0) = .error err) : FreeSafe P s k proc := by
  have hcall : k.dispatchSyscall P = .ok (k, .error (.userErr err)) := by
    rw [dispatchSyscall_free hfree, hrefused]
    rfl
  have htrap : k.onUserTrapImpl P .userEnvCall = .ok (k, .error (.userErr err)) := by
    simp only [onUserTrapImpl, hcall]
    rfl
  simp only [FreeSafe, hcall]
  simp only [onUserTrap, htrap, Checked.ok_bind, hproc]
  rfl

/-- What the dispatcher does with a call of `free` for a pointer that it accepts. -/
lemma dispatchSyscall_free_ok (hfree : k.registers .a6 = 8)
    (hptr : checkPointer (k.registers .a0) = .ok (k.registers .a0)) :
    k.dispatchSyscall P = returning (fun _ => []) <$> k.free (k.registers .a0) := by
  rw [dispatchSyscall_free hfree, hptr]
  rfl

/-- `free` of a pointer that `dealloc` can work with. -/
lemma freeSafe_accepted {s : Kernel × Mode} (hmemory : k.MemoryOk P ∅)
    (hok : k.RegionsOk (Obtained P s) fun _ => True)
    (hproc : k.process [] = .ok proc) (hfree : k.registers .a6 = 8)
    (hptr : checkPointer (k.registers .a0) = .ok (k.registers .a0))
    (hle : ∀ b, (k.registers .a0, b) ∈ proc.allocated → userHeap.start ≤ k.registers .a0) :
    FreeSafe P s k proc := by
  obtain ⟨regions, hstep⟩ := (hok.running hproc).inStep
  obtain ⟨freed, hdealloc⟩ := hstep.dealloc_inside hle
  have hcall := dispatchSyscall_free_ok (P := P) hfree hptr
  cases freed with
  | none =>
      have hkill : k.free (k.registers .a0) = .ok (k.kill proc .freeOfUnallocated) := by
        rw [Kernel.free, hproc, Checked.ok_bind, hdealloc]
        rfl
      rw [hkill] at hcall
      simp only [FreeSafe, hcall]
      exact ⟨.freeOfUnallocated, rfl⟩
  | some pair =>
      obtain ⟨proc', b⟩ := pair
      obtain ⟨hfreed, hpos, hstart⟩ := hstep.freed hdealloc
      have hmem : (k.registers .a0, b) ∈ proc.allocated :=
        hfreed.allocated.mem_iff.mpr List.mem_cons_self
      have hheap := (hmemory.deallocIn hproc hdealloc).heap
      obtain ⟨k₁, hdrop⟩ := hheap.dropBacking_ok (Or.inl (Or.inr rfl)) hpos
      have hdone : k.free (k.registers .a0) = .ok (k₁, .ok ()) := by
        rw [Kernel.free, hproc, Checked.ok_bind, hdealloc, Checked.ok_bind]
        simp only [hdrop]
        rfl
      rw [hdone] at hcall
      simp only [FreeSafe, hcall]
      exact ⟨b, proc', k₁, (hok.running hproc).obtained _ hmem hstart, hfreed, hdrop, rfl⟩

end Kernel

/-- **`free` is safe unless a region outside of the heap starts at the pointer.**  This is so in every
reachable state, for the process that runs and whatever it has in `a0`.  The list that `free` looks the
pointer up in has the inputs, the stack and the writable segments too, which were never allocated on the
heap of the process; freeing one of them panics there.  Every other pointer is one of a region of the
heap, which is freed, or of nothing, and then the process is killed. -/
theorem Reachable.free_safe_iff (h : Reachable P (k, .user)) (oracle : Oracle)
    (hproc : k.process [] = .ok proc) (hfree : k.registers .a6 = 8) :
    Kernel.FreeSafe P (k, .user) { k with oracle := oracle } proc ↔
      (Kernel.checkPointer (k.registers .a0) = .ok (k.registers .a0) →
        ∀ b, (k.registers .a0, b) ∈ proc.allocated → userHeap.start ≤ k.registers .a0) := by
  have hmemory := h.memoryOk.withOracle oracle
  have hok := h.regionsOk.withOracle oracle
  have hproc' : Kernel.process { k with oracle := oracle } [] = .ok proc := hproc
  constructor
  · intro hsafe hptr b hmem
    by_contra hlt
    obtain ⟨regions, hstep⟩ := (hok.running hproc').inStep
    obtain ⟨e, hdealloc⟩ := hstep.dealloc_outside hmem (Nat.not_le.mp hlt)
    have hcall := Kernel.dispatchSyscall_free_ok (P := P) (k := { k with oracle := oracle }) hfree
      hptr
    have hfail : Kernel.free { k with oracle := oracle } (k.registers .a0) = .error e := by
      rw [Kernel.free, hproc', Checked.ok_bind, hdealloc]
      rfl
    rw [hfail] at hcall
    replace hcall : Kernel.dispatchSyscall P { k with oracle := oracle } = .error e := hcall
    simp only [Kernel.FreeSafe, hcall] at hsafe
  · intro hle
    cases hptr : Kernel.checkPointer (k.registers .a0) with
    | error err => exact Kernel.freeSafe_refused hproc' hfree hptr
    | ok ptr =>
        obtain rfl := Kernel.checkPointer_eq_ok hptr
        exact Kernel.freeSafe_accepted hmemory hok hproc' hfree hptr (hle hptr)

/-- Process 1 frees its stack. -/
def freeStackMoves : List Move := [.schedule, .user [(.a6, 8), (.a0, userStack.start)] []]

set_option maxRecDepth 10000 in
/-- **A process that frees its own stack ends the kernel.** -/
theorem not_free_safe : ∃ k proc, Reachable .small (k, .user) ∧ k.process [] = .ok proc ∧
    k.registers .a6 = 8 ∧ k.registers .a0 = userStack.start ∧
    k.dispatchSyscall .small = .error (.overflow .buddyDealloc) ∧
    ¬ Kernel.FreeSafe .small (k, .user) k proc := by
  have hplay : ((play .small .quiet freeStackMoves).any fun s => s.2 = .user ∧
      s.1.registers .a6 = 8 ∧ s.1.registers .a0 = userStack.start ∧
      (s.1.process []).toOption.isSome ∧
      (s.1.dispatchSyscall .small).stopsWith (.overflow .buddyDealloc)) = true := by
    decide +kernel
  obtain ⟨⟨k, mode⟩, hplayed, hstate⟩ := (Option.any_eq_true _ _).mp hplay
  obtain ⟨rfl, hnumber, hptr, hsome, hstops⟩ := of_decide_eq_true hstate
  obtain ⟨proc, hproc⟩ := Option.isSome_iff_exists.mp hsome
  have hcall := Checked.stopsWith_iff.mp hstops
  refine ⟨k, proc, play_reachable hplayed, Checked.toOption_eq_some.mp hproc, hnumber, hptr, hcall, ?_⟩
  intro hsafe
  simp only [Kernel.FreeSafe, hcall] at hsafe

/-- Process 1 frees a page that it has allocated. -/
def freePageMoves : List Move :=
  [.schedule, .user [(.a6, 5), (.a0, 4096)] [], .trap .userEnvCall,
    .user [(.a6, 8), (.a0, 274810798080)] []]

set_option maxRecDepth 10000 in
/-- A page of a small machine is freed. -/
theorem Reachable.free_safe_iff_page : ∃ k proc b, Reachable .small (k, .user) ∧
    k.process [] = .ok proc ∧ (k.registers .a0, b) ∈ proc.allocated ∧
    Kernel.FreeSafe .small (k, .user) { k with oracle := .quiet } proc := by
  have hplay : ((play .small .quiet freePageMoves).any fun s => s.2 = .user ∧
      s.1.registers .a6 = 8 ∧ s.1.registers .a0 = 274810798080 ∧
      (s.1.process []).toOption.any fun proc =>
        proc.allocated.any fun entry => entry.1 = 274810798080) = true := by
    decide +kernel
  obtain ⟨⟨k, mode⟩, hplayed, hstate⟩ := (Option.any_eq_true _ _).mp hplay
  obtain ⟨rfl, hnumber, hptr, hsome⟩ := of_decide_eq_true hstate
  obtain ⟨proc, hproc, hany⟩ := (Option.any_eq_true _ _).mp hsome
  obtain ⟨⟨virt, b⟩, hmem, hvirt⟩ := List.any_eq_true.mp hany
  obtain rfl : virt = 274810798080 := of_decide_eq_true hvirt
  have hproc := Checked.toOption_eq_some.mp hproc
  refine ⟨k, proc, b, play_reachable hplayed, hproc, hptr ▸ hmem, ?_⟩
  exact (Reachable.free_safe_iff (play_reachable hplayed) .quiet hproc hnumber).mpr
    fun _ _ _ => hptr ▸ by decide

end Deravel
