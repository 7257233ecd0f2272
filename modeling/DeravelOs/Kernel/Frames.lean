import DeravelOs.Kernel.Trap

/-!
# What the parts of a system call leave alone

Most of what a system call does concerns memory only (`Kernel.OnlyMemory`), and most of what it does
to a process concerns its address space only (`Process.OnlySpace`).  One lemma for each function says
so; the invariants cite these and do not open the functions.
-/

namespace Deravel

variable {P : Platform} {k k' k'' : Kernel} {proc proc' : Process} {pid : ProcessId}

/-! ## Results -/

lemma Checked.pure_eq_ok {α : Type} {a b : α} : (pure a : Checked α) = .ok b ↔ a = b :=
  ⟨fun h => Except.ok.inj h, fun h => h ▸ rfl⟩

lemma ensure_bind_eq_ok {α : Type} {p : Prop} [Decidable p] {e : Panic} {f : Unit → Checked α}
    {a : α} : (ensure p e >>= f) = .ok a ↔ p ∧ f () = .ok a := by
  rw [Checked.bind_eq_ok]
  constructor
  · rintro ⟨u, hu, hf⟩
    exact ⟨ensure_eq_ok hu, hf⟩
  · rintro ⟨hp, hf⟩
    exact ⟨(), ensure_pos hp, hf⟩

/-! ## Memory -/

/-- Nothing but memory and the kernel heap has changed, and the oracle has been used. -/
def Kernel.OnlyMemory (k k' : Kernel) : Prop :=
  ∃ memory heap internal oracle,
    k' = { k with memory := memory, heap := heap, internal := internal, oracle := oracle }

namespace Kernel

namespace OnlyMemory

lemma refl (k : Kernel) : k.OnlyMemory k := ⟨_, _, _, _, rfl⟩

lemma trans (h : k.OnlyMemory k') (h' : k'.OnlyMemory k'') : k.OnlyMemory k'' := by
  obtain ⟨_, _, _, _, rfl⟩ := h
  obtain ⟨_, _, _, _, rfl⟩ := h'
  exact ⟨_, _, _, _, rfl⟩

variable (h : k.OnlyMemory k')

include h

lemma processes : k'.processes = k.processes := by
  obtain ⟨_, _, _, _, rfl⟩ := h
  rfl

lemma processesReserved : k'.processesReserved = k.processesReserved := by
  obtain ⟨_, _, _, _, rfl⟩ := h
  rfl

lemma handlers : k'.handlers = k.handlers := by
  obtain ⟨_, _, _, _, rfl⟩ := h
  rfl

lemma mappings : k'.mappings = k.mappings := by
  obtain ⟨_, _, _, _, rfl⟩ := h
  rfl

lemma devices : k'.devices = k.devices := by
  obtain ⟨_, _, _, _, rfl⟩ := h
  rfl

lemma userPid : k'.userPid = k.userPid := by
  obtain ⟨_, _, _, _, rfl⟩ := h
  rfl

lemma registers : k'.registers = k.registers := by
  obtain ⟨_, _, _, _, rfl⟩ := h
  rfl

lemma hart : k'.hart = k.hart := by
  obtain ⟨_, _, _, _, rfl⟩ := h
  rfl

lemma trace : k'.trace = k.trace := by
  obtain ⟨_, _, _, _, rfl⟩ := h
  rfl

lemma console : k'.console = k.console := by
  obtain ⟨_, _, _, _, rfl⟩ := h
  rfl

end OnlyMemory

/-- The kernel's containers have asked the heap for blocks and given some back. -/
inductive UsesHeap (k : Kernel) : Kernel → Prop
  | refl : UsesHeap k k
  | heapOp {k₁ k₂ : Kernel} {op : HeapOp} (before : UsesHeap k k₁) (h : k₁.heapOp op = .ok k₂) :
      UsesHeap k k₂
  | oracle {k₁ : Kernel} (before : UsesHeap k k₁) (churn : List (List HeapOp)) :
      UsesHeap k { k₁ with oracle := { k₁.oracle with churn := churn } }

lemma heapOp_eq_ok {op : HeapOp} (h : k.heapOp op = .ok k') :
    ∃ heap internal, k' = { k with heap := heap, internal := internal } := by
  cases op with
  | alloc layout =>
      obtain ⟨⟨result, heap⟩, -, h⟩ := Checked.bind_eq_ok.mp h
      cases result with
      | ok ptr =>
          cases h
          exact ⟨_, _, rfl⟩
      | error e => cases h
  | dealloc index =>
      simp only [heapOp] at h
      split at h
      · obtain ⟨heap, -, h⟩ := Checked.bind_eq_ok.mp h
        cases h
        exact ⟨_, _, rfl⟩
      · cases h
        exact ⟨_, _, rfl⟩

namespace UsesHeap

lemma trans (h : k.UsesHeap k') (h' : k'.UsesHeap k'') : k.UsesHeap k'' := by
  induction h' with
  | refl => exact h
  | heapOp _ hop ih => exact ih.heapOp hop
  | oracle _ churn ih => exact ih.oracle churn

variable (h : k.UsesHeap k')

include h

/-- Nothing but the heap has changed, and what the oracle has left for it. -/
lemma eq : ∃ heap internal churn,
    k' = { k with heap := heap, internal := internal, oracle := { k.oracle with churn := churn } } := by
  induction h with
  | refl => exact ⟨_, _, _, rfl⟩
  | heapOp _ hop ih =>
      obtain ⟨_, _, _, rfl⟩ := ih
      obtain ⟨_, _, rfl⟩ := heapOp_eq_ok hop
      exact ⟨_, _, _, rfl⟩
  | oracle _ churn ih =>
      obtain ⟨_, _, _, rfl⟩ := ih
      exact ⟨_, _, _, rfl⟩

lemma onlyMemory : k.OnlyMemory k' := by
  obtain ⟨_, _, _, rfl⟩ := h.eq
  exact ⟨_, _, _, _, rfl⟩

lemma memory : k'.memory = k.memory := by
  obtain ⟨_, _, _, rfl⟩ := h.eq
  rfl

lemma reply : k'.oracle.reply = k.oracle.reply := by
  obtain ⟨_, _, _, rfl⟩ := h.eq
  rfl

lemma readUser (slice : UserSlice) : k'.readUser slice = k.readUser slice := by
  obtain ⟨_, _, _, rfl⟩ := h.eq
  rfl

lemma validate (cap : RawCapability) (claimer : ProcessId) :
    k'.validate cap claimer = k.validate cap claimer := by
  obtain ⟨_, _, _, rfl⟩ := h.eq
  rfl

lemma getHandler (index : ℕ) : k'.getHandler index = k.getHandler index := by
  obtain ⟨_, _, _, rfl⟩ := h.eq
  rfl

lemma mapStream (handler : Handler) (stream : ℕ) :
    k'.mapStream handler stream = k.mapStream handler stream := by
  obtain ⟨_, _, _, rfl⟩ := h.eq
  rfl

lemma sharedMemorySize (handler : Handler) :
    k'.sharedMemorySize handler = k.sharedMemorySize handler := by
  obtain ⟨_, _, _, rfl⟩ := h.eq
  rfl

lemma sharedMemoryMap (handler : Handler) (virt : ℕ) (proc : Process) :
    k'.sharedMemoryMap handler virt proc = k.sharedMemoryMap handler virt proc := by
  obtain ⟨_, _, _, rfl⟩ := h.eq
  rfl

lemma process (held : List ProcessId) : k'.process held = k.process held := by
  obtain ⟨_, _, _, rfl⟩ := h.eq
  rfl

lemma process? (pid : ProcessId) : k'.process? pid = k.process? pid := by
  obtain ⟨_, _, _, rfl⟩ := h.eq
  rfl

end UsesHeap

lemma churn_usesHeap (h : k.churn = .ok k') : k.UsesHeap k' := by
  simp only [churn] at h
  split at h
  · cases h
    exact .refl
  · exact Checked.foldlM_keeps k.UsesHeap (.oracle .refl _)
      (fun _ _ _ _ hs hstep => hs.heapOp hstep) h

/-- The heap of one kernel in another one. -/
def withHeapOf (base k : Kernel) : Kernel :=
  { base with heap := k.heap, internal := k.internal, oracle := k.oracle }

lemma heapOp_withHeapOf (base : Kernel) (op : HeapOp) :
    (base.withHeapOf k).heapOp op = base.withHeapOf <$> k.heapOp op := by
  cases op with
  | alloc layout =>
      simp only [Kernel.heapOp, withHeapOf]
      cases k.heap.alloc layout with
      | error e => rfl
      | ok result =>
          obtain ⟨e | ptr, heap⟩ := result
          · rfl
          · rfl
  | dealloc index =>
      simp only [Kernel.heapOp, withHeapOf]
      split
      · next block _ =>
          cases k.heap.dealloc block.ptr block.layout with
          | error e => rfl
          | ok heap => rfl
      · rfl

/-- The containers look at nothing but the heap. -/
lemma churn_withHeapOf (base : Kernel) :
    (base.withHeapOf k).churn = base.withHeapOf <$> k.churn := by
  have hoperations : ∀ (ops : List HeapOp) (k : Kernel),
      ops.foldlM heapOp (base.withHeapOf k) = base.withHeapOf <$> ops.foldlM heapOp k := by
    intro ops
    induction ops with
    | nil =>
        intro k
        rfl
    | cons op rest ih =>
        intro k
        rw [List.foldlM_cons, List.foldlM_cons, heapOp_withHeapOf]
        cases k.heapOp op with
        | error e => rfl
        | ok k₁ => exact ih k₁
  simp only [Kernel.churn, withHeapOf]
  cases k.oracle.churn with
  | nil => rfl
  | cons ops rest => exact hoperations ops { k with oracle := { k.oracle with churn := rest } }

lemma churn_withHeapOf_ok (base : Kernel) (h : k.churn = .ok k') :
    (base.withHeapOf k).churn = .ok (base.withHeapOf k') := by
  rw [churn_withHeapOf, h]
  rfl

lemma withCapacity_usesHeap {size : ℕ} (h : k.withCapacity size = .ok k') : k.UsesHeap k' := by
  simp only [withCapacity] at h
  split at h
  · cases h
  · split at h
    · cases h
      exact .refl
    · exact .heapOp .refl h

/-- A copy takes room from the heap, and reads what is in the slice. -/
lemma copyToKernel_eq_ok {slice : UserSlice} {bytes : List UInt8} :
    k.copyToKernel slice = .ok (bytes, k') ↔
      k.withCapacity slice.len = .ok k' ∧ k.readUser slice = .ok bytes := by
  rw [copyToKernel, Checked.bind_eq_ok]
  constructor
  · rintro ⟨k₁, hcapacity, h⟩
    obtain ⟨bytes', hread, h⟩ := Checked.bind_eq_ok.mp h
    cases h
    exact ⟨hcapacity, (withCapacity_usesHeap hcapacity).readUser slice ▸ hread⟩
  · rintro ⟨hcapacity, hread⟩
    refine ⟨k', hcapacity, ?_⟩
    rw [(withCapacity_usesHeap hcapacity).readUser slice, hread]
    rfl

lemma copyToKernel_usesHeap {slice : UserSlice} {bytes : List UInt8}
    (h : k.copyToKernel slice = .ok (bytes, k')) : k.UsesHeap k' :=
  withCapacity_usesHeap (copyToKernel_eq_ok.mp h).1

lemma allocPages_onlyMemory {layout : Layout} {contents : ℕ → UInt8}
    {result : Except AllocError Backing} (h : k.allocPages layout contents = .ok (result, k')) :
    k.OnlyMemory k' := by
  simp only [allocPages] at h
  split at h
  · cases h
    exact ⟨_, _, _, _, rfl⟩
  · obtain ⟨k₁, hchurn, h⟩ := Checked.bind_eq_ok.mp h
    obtain ⟨granular, -, h⟩ := Checked.bind_eq_ok.mp h
    obtain ⟨⟨result, heap⟩, -, h⟩ := Checked.bind_eq_ok.mp h
    have hfirst := (churn_usesHeap hchurn).onlyMemory
    cases result with
    | ok ptr =>
        cases h
        exact hfirst.trans ⟨_, _, _, _, rfl⟩
    | error e =>
        cases h
        exact hfirst.trans ⟨_, _, _, _, rfl⟩

lemma newPages_eq_ok {layout : Layout} {contents : ℕ → UInt8} {backing : Backing} :
    k.newPages layout contents = .ok (backing, k') ↔
      k.allocPages layout contents = .ok (.ok backing, k') := by
  rw [newPages, Checked.bind_eq_ok]
  constructor
  · rintro ⟨⟨result, k₁⟩, halloc, h⟩
    cases result with
    | ok backing =>
        cases h
        exact halloc
    | error e => cases h
  · exact fun h => ⟨_, h, rfl⟩

lemma newPages_onlyMemory {layout : Layout} {contents : ℕ → UInt8} {backing : Backing}
    (h : k.newPages layout contents = .ok (backing, k')) : k.OnlyMemory k' :=
  allocPages_onlyMemory (newPages_eq_ok.mp h)

lemma freePages_onlyMemory {backing : Backing} (h : k.freePages backing = .ok k') :
    k.OnlyMemory k' := by
  obtain ⟨granular, -, h⟩ := Checked.bind_eq_ok.mp h
  obtain ⟨heap, -, h⟩ := Checked.bind_eq_ok.mp h
  cases h
  exact ⟨_, _, _, _, rfl⟩

lemma dropBacking_onlyMemory {backing : Backing} (h : k.dropBacking backing = .ok k') :
    k.OnlyMemory k' := by
  simp only [dropBacking] at h
  split at h
  · cases h
    exact ⟨_, _, _, _, rfl⟩
  · exact freePages_onlyMemory h

lemma dropAllocated_onlyMemory {entries : List (ℕ × Backing)}
    (h : k.dropAllocated entries = .ok k') : k.OnlyMemory k' := by
  induction entries generalizing k with
  | nil =>
      cases h
      exact ⟨_, _, _, _, rfl⟩
  | cons entry rest ih =>
      obtain ⟨k₁, hfirst, h⟩ := Checked.bind_eq_ok.mp h
      refine OnlyMemory.trans ?_ (ih h)
      split at hfirst
      · cases hfirst
        exact ⟨_, _, _, _, rfl⟩
      · exact dropBacking_onlyMemory hfirst

lemma writeToUser_eq_ok {slice : UserSlice} {data : List UInt8}
    {result : Except UserSyscallError Kernel} (h : k.writeToUser slice data = .ok result) :
    result = .error .sliceTooSmall ∨
      ∃ addresses, data.length ≤ slice.len ∧
        k.userAddresses PageFlags.write slice.ptr data.length = .ok addresses ∧
        result = .ok { k with memory := storeBytes k.memory (addresses.zip data) } := by
  simp only [writeToUser] at h
  split at h
  · cases h
    exact Or.inl rfl
  · next hlen =>
      obtain ⟨addresses, haddresses, h⟩ := Checked.bind_eq_ok.mp h
      cases h
      exact Or.inr ⟨addresses, Nat.le_of_not_lt hlen, haddresses, rfl⟩

lemma writeToUser_onlyMemory {slice : UserSlice} {data : List UInt8}
    (h : k.writeToUser slice data = .ok (.ok k')) : k.OnlyMemory k' := by
  rcases writeToUser_eq_ok h with herror | ⟨addresses, -, -, heq⟩
  · cases herror
  · cases heq
    exact ⟨_, _, _, _, rfl⟩

lemma storeCertificate_onlyMemory {cap : RawCapability} {value : CapabilityCertificateValue}
    (h : k.storeCertificate P cap value = .ok k') : k.OnlyMemory k' := by
  obtain ⟨slot, -, h⟩ := Checked.bind_eq_ok.mp h
  cases h
  exact ⟨_, _, _, _, rfl⟩

lemma handOver_onlyMemory {sender child : ProcessId} {cap : RawCapability}
    (h : k.handOver P sender child cap = .ok k') : k.OnlyMemory k' := by
  obtain ⟨certifier, -, h⟩ := Checked.bind_eq_ok.mp h
  obtain ⟨-, h⟩ := ensure_bind_eq_ok.mp h
  obtain ⟨before, -, h⟩ := Checked.bind_eq_ok.mp h
  obtain ⟨after, -, h⟩ := Checked.bind_eq_ok.mp h
  exact storeCertificate_onlyMemory h

/-! ## Handlers -/

lemma reserveKernelCapability_eq_ok {handler : Handler} {cap : RawCapability}
    (h : k.reserveKernelCapability handler = .ok (cap, k')) :
    k.handlers.length < capabilitiesPerPage ∧
      RawCapability.new .kernel k.handlers.length = .ok cap ∧
      k' = { k with handlers := k.handlers ++ [handler] } := by
  obtain ⟨hlt, h⟩ := ensure_bind_eq_ok.mp h
  obtain ⟨cap', hcap, h⟩ := Checked.bind_eq_ok.mp h
  cases h
  exact ⟨hlt, hcap, rfl⟩

lemma grantKernelCapability_onlyMemory {grantee : ProcessId} {handler : Handler}
    {cap : RawCapability} (h : k.grantKernelCapability P grantee handler = .ok (cap, k')) :
    OnlyMemory { k with handlers := k.handlers ++ [handler] } k' := by
  obtain ⟨⟨cap', k₁⟩, hreserve, h⟩ := Checked.bind_eq_ok.mp h
  obtain ⟨k₂, hstore, h⟩ := Checked.bind_eq_ok.mp h
  cases h
  obtain ⟨-, -, rfl⟩ := reserveKernelCapability_eq_ok hreserve
  exact storeCertificate_onlyMemory hstore

end Kernel

/-! ## Address spaces -/

/-- Nothing but the address space of a process has changed. -/
def Process.OnlySpace (proc proc' : Process) : Prop :=
  ∃ pageTable heap allocated virtualMemoryMappings,
    proc' = { proc with
      pageTable := pageTable
      heap := heap
      allocated := allocated
      virtualMemoryMappings := virtualMemoryMappings }

namespace Process

namespace OnlySpace

lemma refl (proc : Process) : proc.OnlySpace proc := ⟨_, _, _, _, rfl⟩

lemma trans {proc'' : Process} (h : proc.OnlySpace proc') (h' : proc'.OnlySpace proc'') :
    proc.OnlySpace proc'' := by
  obtain ⟨_, _, _, _, rfl⟩ := h
  obtain ⟨_, _, _, _, rfl⟩ := h'
  exact ⟨_, _, _, _, rfl⟩

variable (h : proc.OnlySpace proc')

include h

lemma id : proc'.id = proc.id := by
  obtain ⟨_, _, _, _, rfl⟩ := h
  rfl

lemma state : proc'.state = proc.state := by
  obtain ⟨_, _, _, _, rfl⟩ := h
  rfl

lemma messages : proc'.messages = proc.messages := by
  obtain ⟨_, _, _, _, rfl⟩ := h
  rfl

lemma currentlyServing : proc'.currentlyServing = proc.currentlyServing := by
  obtain ⟨_, _, _, _, rfl⟩ := h
  rfl

end OnlySpace

lemma allocAt_onlySpace {virt : ℕ} {backing : Backing} {flags : PageFlags}
    (h : proc.allocAt virt backing flags = .ok proc') : proc.OnlySpace proc' := by
  obtain ⟨phys, -, h⟩ := Checked.bind_eq_ok.mp h
  obtain ⟨pageTable, -, h⟩ := Checked.bind_eq_ok.mp h
  cases h
  exact ⟨_, _, _, _, rfl⟩

lemma alloc_onlySpace {backing : Backing} {flags : PageFlags} {result : Except AllocError ℕ}
    (h : proc.alloc backing flags = .ok (result, proc')) : proc.OnlySpace proc' := by
  obtain ⟨⟨result, heap⟩, -, h⟩ := Checked.bind_eq_ok.mp h
  cases result with
  | ok virt =>
      obtain ⟨proc₁, halloc, h⟩ := Checked.bind_eq_ok.mp h
      cases h
      exact OnlySpace.trans ⟨_, heap, _, _, rfl⟩ (allocAt_onlySpace halloc)
  | error e =>
      cases h
      exact ⟨_, _, _, _, rfl⟩

lemma dealloc_onlySpace {ptr : ℕ} {backing : Backing}
    (h : proc.dealloc ptr = .ok (some (proc', backing))) : proc.OnlySpace proc' := by
  simp only [dealloc] at h
  split at h
  · cases h
  · obtain ⟨phys, -, h⟩ := Checked.bind_eq_ok.mp h
    obtain ⟨pageTable, -, h⟩ := Checked.bind_eq_ok.mp h
    obtain ⟨heap, -, h⟩ := Checked.bind_eq_ok.mp h
    cases h
    exact ⟨_, _, _, _, rfl⟩

end Process

namespace Kernel

lemma sharedMemoryMap_onlySpace {handler : Handler} {virt : ℕ}
    (h : k.sharedMemoryMap handler virt proc = .ok proc') : proc.OnlySpace proc' := by
  simp only [sharedMemoryMap] at h
  split at h
  · obtain ⟨phys, -, h⟩ := Checked.bind_eq_ok.mp h
    obtain ⟨pageTable, -, h⟩ := Checked.bind_eq_ok.mp h
    cases h
    exact ⟨_, _, _, _, rfl⟩
  · obtain ⟨mapping, -, h⟩ := Checked.bind_eq_ok.mp h
    obtain ⟨pageTable, -, h⟩ := Checked.bind_eq_ok.mp h
    cases h
    exact ⟨_, _, _, _, rfl⟩
  · cases h

/-! ## The running process -/

lemma lockIfSome_eq_ok {held : List ProcessId} {slot : Option Process}
    (h : k.lockIfSome held pid = .ok slot) :
    pid.asU16 < processCount ∧ pid ∉ held ∧ k.process? pid = slot := by
  obtain ⟨hlt, h⟩ := ensure_bind_eq_ok.mp h
  obtain ⟨hheld, h⟩ := ensure_bind_eq_ok.mp h
  cases h
  exact ⟨hlt, hheld, rfl⟩

lemma pid_eq_ok : k.pid = .ok pid ↔ k.userPid = some pid := by
  rw [Kernel.pid]
  cases k.userPid with
  | none => simp [throw, throwThe, MonadExceptOf.throw]
  | some p => simp [pure, Except.pure]

lemma process_eq_ok {held : List ProcessId} (h : k.process held = .ok proc) :
    ∃ pid, k.userPid = some pid ∧ pid.asU16 < processCount ∧ pid ∉ held ∧
      k.process? pid = some proc := by
  obtain ⟨pid, hpid, h⟩ := Checked.bind_eq_ok.mp h
  obtain ⟨slot, hlock, h⟩ := Checked.bind_eq_ok.mp h
  obtain ⟨hlt, hheld, hslot⟩ := lockIfSome_eq_ok hlock
  cases slot with
  | none => cases h
  | some proc₁ =>
      cases h
      exact ⟨pid, pid_eq_ok.mp hpid, hlt, hheld, hslot⟩

lemma process_congr (hprocesses : k'.processes = k.processes) (hpid : k'.userPid = k.userPid)
    (held : List ProcessId) : k'.process held = k.process held := by
  simp only [process, Kernel.pid, lockIfSome, process?, hprocesses, hpid]

@[simp] lemma setProcess_processes (k : Kernel) (proc : Process) :
    (k.setProcess proc).processes = Function.update k.processes proc.id.asU16 (some proc) := rfl

@[simp] lemma setProcess_userPid (k : Kernel) (proc : Process) :
    (k.setProcess proc).userPid = k.userPid := rfl

lemma process?_setProcess (k : Kernel) (proc : Process) (pid : ProcessId) :
    (k.setProcess proc).process? pid = if pid = proc.id then some proc else k.process? pid := by
  simp only [process?, setProcess_processes, Function.update_apply, ProcessId.ext_iff]

end Kernel

end Deravel
