import DeravelOs.Kernel.Turns
import DeravelOs.Memory.Space

/-!
# What holds of memory

`Kernel.MemoryOk` is what every step of the system keeps: the heap has what is needed, the processes
have address spaces in which every translation has an owner, the certificates of the kernel were
granted to processes after their handlers were there, and the hart has only tables that leave these
certificates alone.  This module has one lemma for each kind of change; the functions of the kernel
are put together from them.
-/

namespace Deravel

variable {P : Platform} {k k' : Kernel} {proc proc' : Process} {b : Backing} {F F' : Set Backing}
  {pid : ProcessId} {cap : RawCapability}

namespace Kernel

/-- **What holds of memory.**  The backings of `F` are in the hands of the code that runs. -/
structure MemoryOk (P : Platform) (k : Kernel) (F : Set Backing) : Prop where
  slots : k.Slots
  heap : k.HeapOk P (k.counted ∪ F) k.pinned
  page_size : ∀ b ∈ k.pinned, b.byteSize = pageSize
  space : ∀ i proc, k.processes i = some proc → proc.Space P k
  elves : ∀ elf, .spawner elf ∈ k.handlers → elf ∈ P.elves
  granted : ∀ index, ∃ grantee, k.certificate P .kernel index = .granted grantee ∧
    (grantee = .kernel ∨ index < k.handlers.length)
  hart : ∀ t ∈ k.hart, Tame P t

/-- The kernel has the objects that it had. -/
lemma Grows.same (k : Kernel) {processes : ℕ → Option Process} {processesReserved : ℕ}
    {memory : ℕ → UInt8} {heap : BuddyAllocator} {internal : List Live}
    {userPid : Option ProcessId} {registers : RiscvRegisters} {sepc : ℕ} {hart : List PageTable}
    {console : List (String × ProcessId × KillReason)} {trace : List IpcEvent} {oracle : Oracle} :
    k.Grows ⟨processes, processesReserved, memory, k.handlers, k.mappings, heap, internal,
      k.devices, userPid, registers, sepc, hart, console, trace, oracle⟩ :=
  ⟨subset_rfl, subset_rfl, subset_rfl⟩

namespace MemoryOk

lemma mono (h : k.MemoryOk P F) (hsub : F' ⊆ F) : k.MemoryOk P F' :=
  { h with heap := h.heap.mono (Set.union_subset_union_right _ hsub) subset_rfl }

/-- Memory that somebody has anyway need not be in anyone's hands. -/
lemma drop (h : k.MemoryOk P F) : k.MemoryOk P ∅ := h.mono (Set.empty_subset F)

lemma insert_counted (h : k.MemoryOk P F) (hb : b ∈ k.counted) : k.MemoryOk P (insert b F) := by
  refine { h with heap := h.heap.mono ?_ subset_rfl }
  rintro c (hc | rfl | hc)
  · exact Or.inl hc
  · exact Or.inl hb
  · exact Or.inr hc

lemma count (h : k.MemoryOk P F) (i : ℕ) (proc : Process) (hproc : k.processes i = some proc) :
    i < processCount :=
  h.slots hproc ▸ (h.space i proc hproc).id_lt

/-- The registers, the console, the oracle and the like do not matter, and neither does it if the
hart forgets tables. -/
lemma congr (h : k.MemoryOk P F) (hprocesses : k'.processes = k.processes)
    (hmemory : k'.memory = k.memory) (hhandlers : k'.handlers = k.handlers)
    (hmappings : k'.mappings = k.mappings) (hheap : k'.heap = k.heap)
    (hinternal : k'.internal = k.internal) (hdevices : k'.devices = k.devices)
    (hhart : ∀ t ∈ k'.hart, t ∈ k.hart) : k'.MemoryOk P F := by
  obtain ⟨_, _, _, _, _, _, _, _, _, _, _, _, _, _, _⟩ := k'
  dsimp only at hprocesses hmemory hhandlers hmappings hheap hinternal hdevices hhart
  subst hprocesses hmemory hhandlers hmappings hheap hinternal hdevices
  exact ⟨h.slots, h.heap, h.page_size, fun i proc hproc => (h.space i proc hproc).mono (.same k),
    h.elves, h.granted, fun t ht => h.hart t (hhart t ht)⟩

lemma sfenceVmaAll (h : k.MemoryOk P F) : k.sfenceVmaAll.MemoryOk P F :=
  h.congr rfl rfl rfl rfl rfl rfl rfl fun _ ht => List.mem_of_mem_take ht

lemma logKill (h : k.MemoryOk P F) {reason : KillReason} : (k.logKill proc reason).MemoryOk P F :=
  h.congr rfl rfl rfl rfl rfl rfl rfl fun _ ht => ht

lemma record (h : k.MemoryOk P F) {event : IpcEvent} : (k.record event).MemoryOk P F :=
  h.congr rfl rfl rfl rfl rfl rfl rfl fun _ ht => ht

/-! ## Contents of memory -/

/-- Nothing but memory has changed, and not where the certificates of the kernel are. -/
lemma withMemory (h : k.MemoryOk P F) {memory : ℕ → UInt8}
    (hmemory : ∀ p ∈ P.capabilityPage .kernel, memory p = k.memory p) :
    MemoryOk P { k with memory := memory } F :=
  { h with
    space := fun i proc hproc => (h.space i proc hproc).mono (.same k)
    granted := fun index => by
      rw [certificate_congr (k := k) hmemory]
      exact h.granted index }

end MemoryOk

/-- What the hart translates is in one of its tables. -/
lemma translate_mem {virt phys : ℕ} {flags : PageFlags}
    (h : k.translate virt = some (phys, flags)) :
    virt < directMapping.start ∧ ∃ t ∈ k.hart, t.translate virt = some (phys, flags) := by
  simp only [translate] at h
  split at h
  · next hlt =>
      refine ⟨hlt, ?_⟩
      rcases (Option.orElse_eq_some _ _ _).mp h with h | ⟨-, h⟩
      · obtain ⟨t, ht, h⟩ := Option.bind_eq_some_iff.mp h
        exact ⟨t, List.mem_of_getElem? ht, h⟩
      · obtain ⟨t, ht, h⟩ := Option.bind_eq_some_iff.mp h
        exact ⟨t, List.mem_of_mem_head? ht, h⟩
  · cases h

/-- Physical addresses of user memory are those of its translations. -/
lemma userAddresses_eq_ok {allowed : PageFlags → Bool} {ptr len : ℕ} {addresses : List ℕ} :
    k.userAddresses allowed ptr len = .ok addresses ↔
      List.Forall₂ (fun virt phys => ∃ flags, k.translate virt = some (phys, flags) ∧
        allowed flags = true) (List.range' ptr len) addresses := by
  rw [userAddresses, Checked.mapM_eq_ok]
  refine ⟨fun h => h.imp fun virt phys hphys => ?_, fun h => h.imp fun virt phys hphys => ?_⟩
  · cases htranslate : k.translate virt with
    | none => simp [htranslate, throw, throwThe, MonadExceptOf.throw] at hphys
    | some found =>
        by_cases hallowed : allowed found.2 = true
        · simp only [htranslate, hallowed, if_true, pure, Except.pure] at hphys
          rw [← Except.ok.inj hphys]
          exact ⟨found.2, rfl, hallowed⟩
        · simp [htranslate, hallowed, throw, throwThe, MonadExceptOf.throw] at hphys
  · obtain ⟨flags, htranslate, hallowed⟩ := hphys
    simp [htranslate, hallowed, pure, Except.pure]

/-- What the hart lets a process write is not where the certificates of the kernel are. -/
lemma MemoryOk.userAddresses_write (h : k.MemoryOk P F) {ptr len : ℕ} {addresses : List ℕ}
    (haddresses : k.userAddresses PageFlags.write ptr len = .ok addresses) :
    ∀ p ∈ addresses, p ∉ P.capabilityPage .kernel := by
  intro p hp
  obtain ⟨i, hi, rfl⟩ := List.getElem_of_mem hp
  have hall := userAddresses_eq_ok.mp haddresses
  obtain ⟨flags, htranslate, hwrite⟩ := hall.get (hall.length_eq ▸ hi) hi
  obtain ⟨hlt, t, ht, htranslate⟩ := translate_mem htranslate
  exact (h.hart t ht).writable _ hlt _ flags htranslate hwrite

/-- Bytes that are stored change memory at their addresses only. -/
lemma storeBytes_of_notMem {stores : List (ℕ × UInt8)} {memory : ℕ → UInt8} {p : ℕ}
    (hp : ∀ store ∈ stores, store.1 ≠ p) : storeBytes memory stores p = memory p := by
  induction stores generalizing memory with
  | nil => rfl
  | cons store rest ih =>
      rw [storeBytes, ih fun other hother => hp other (List.mem_cons_of_mem _ hother),
        Function.update_of_ne (hp store List.mem_cons_self).symm]

namespace MemoryOk

lemma writeToUser (h : k.MemoryOk P F) {slice : UserSlice} {data : List UInt8}
    (hwrite : k.writeToUser slice data = .ok (.ok k')) : k'.MemoryOk P F := by
  rcases writeToUser_eq_ok hwrite with herror | ⟨addresses, -, haddresses, heq⟩
  · cases herror
  · cases heq
    refine h.withMemory fun p hp => storeBytes_of_notMem ?_
    rintro ⟨p', byte⟩ hstore rfl
    exact h.userAddresses_write haddresses _ (List.of_mem_zip hstore).1 hp

/-- A certificate in the page of a process. -/
lemma storeCertificate (h : k.MemoryOk P F) {value : CapabilityCertificateValue}
    (hcertifier : cap.certifier = .ok (.userspace pid))
    (hstore : k.storeCertificate P cap value = .ok k') : k'.MemoryOk P F := by
  have hkernel : ∀ index, k'.certificate P .kernel index = k.certificate P .kernel index := by
    intro index
    rw [storeCertificate_certificate hstore hcertifier, if_neg]
    rintro ⟨heq, -⟩
    cases heq
  obtain ⟨_, -, rfl⟩ := storeCertificate_eq_ok.mp hstore
  exact { h with
    space := fun i proc hproc => (h.space i proc hproc).mono (.same k)
    granted := fun index => by
      rw [hkernel]
      exact h.granted index }

/-- A certificate of the kernel for an object that is there. -/
lemma storeGranted (h : k.MemoryOk P F) {grantee : ProcessId}
    (hcertifier : cap.certifier = .ok .kernel) (hlt : cap.localIndex < k.handlers.length)
    (hstore : k.storeCertificate P cap (.granted (.userspace grantee)) = .ok k') :
    k'.MemoryOk P F := by
  have hcertificate := storeCertificate_certificate hstore hcertifier .kernel
  obtain ⟨_, -, rfl⟩ := storeCertificate_eq_ok.mp hstore
  exact { h with
    space := fun i proc hproc => (h.space i proc hproc).mono (.same k)
    granted := fun index => by
      rw [hcertificate]
      split
      · next heq => exact ⟨.userspace grantee, rfl, Or.inr (heq.2 ▸ hlt)⟩
      · exact h.granted index }

/-! ## The heap -/

/-- Memory and the heap have changed, but neither what is needed nor the certificates. -/
lemma onlyMemory (h : k.MemoryOk P F) (honly : k.OnlyMemory k')
    (hheap : k'.HeapOk P (k.counted ∪ F') k.pinned)
    (hmemory : ∀ p ∈ P.capabilityPage .kernel, k'.memory p = k.memory p) : k'.MemoryOk P F' := by
  have hgranted : ∀ index, k'.certificate P .kernel index = k.certificate P .kernel index :=
    fun index => certificate_congr hmemory
  obtain ⟨memory, heap, internal, oracle, rfl⟩ := honly
  exact { h with
    heap := hheap
    space := fun i proc hproc => (h.space i proc hproc).mono (.same k)
    granted := fun index => by
      rw [hgranted]
      exact h.granted index }

lemma allocPages (h : k.MemoryOk P F) {layout : Layout} {contents : ℕ → UInt8}
    (halloc : k.allocPages layout contents = .ok (.ok b, k')) : k'.MemoryOk P (insert b F) := by
  have hheap : k'.HeapOk P (k.counted ∪ insert b F) k.pinned := by
    rw [Set.union_insert]
    exact (h.heap.allocPages halloc).1
  refine h.onlyMemory (allocPages_onlyMemory halloc) hheap fun p hp =>
    allocPages_memory halloc fun hframe => ?_
  exact P.not_mem_capabilityPage
    (hheap.frames (Or.inl (Or.inr (Set.mem_insert b F))) hframe).1 _ hp

lemma newPages (h : k.MemoryOk P F) {layout : Layout} {contents : ℕ → UInt8}
    (hnew : k.newPages layout contents = .ok (b, k')) : k'.MemoryOk P (insert b F) :=
  h.allocPages (newPages_eq_ok.mp hnew)

/-- The containers' blocks are nobody's memory. -/
lemma usesHeap (h : k.MemoryOk P F) (huses : k.UsesHeap k') : k'.MemoryOk P F :=
  h.onlyMemory huses.onlyMemory (h.heap.usesHeap huses) fun p _ => congrFun huses.memory p

lemma allocPages_error (h : k.MemoryOk P F) {layout : Layout} {contents : ℕ → UInt8}
    {e : AllocError} (halloc : k.allocPages layout contents = .ok (.error e, k')) :
    k'.MemoryOk P F :=
  h.onlyMemory (allocPages_onlyMemory halloc) (h.heap.allocPages_error halloc) fun p _ =>
    congrFun (allocPages_error_memory halloc) p

/-- The last memory in the hands of the running code is dropped. -/
lemma dropBacking (h : k.MemoryOk P {b}) (hdrop : k.dropBacking b = .ok k') :
    k'.MemoryOk P ∅ := by
  have honly := dropBacking_onlyMemory hdrop
  refine h.onlyMemory honly ?_ fun p _ => congrFun (dropBacking_memory hdrop) p
  have hheap : k.HeapOk P (insert b (k.counted ∪ ∅)) k.pinned := by
    refine h.heap.mono ?_ subset_rfl
    rw [Set.insert_eq, Set.union_empty, Set.union_comm]
  rw [← honly.counted, ← honly.pinned]
  exact hheap.dropBacking h.count (by simp) hdrop

/-! ## Processes -/

/-- A process in a slot has its memory. -/
lemma memory_subset {i : ℕ} (hproc : k.processes i = some proc) : proc.memory ⊆ k.counted :=
  fun _ hb => Or.inl (Or.inl ⟨i, proc, hproc, hb⟩)

/-- The running process. -/
lemma running (h : k.MemoryOk P F) {held : List ProcessId} (hproc : k.process held = .ok proc) :
    proc.Space P k ∧ proc.memory ⊆ k.counted := by
  obtain ⟨pid, -, -, -, hslot⟩ := process_eq_ok hproc
  exact ⟨h.space _ proc hslot, memory_subset hslot⟩

lemma tame (h : k.MemoryOk P F) (hspace : proc.Space P k) (hmemory : proc.memory ⊆ k.counted ∪ F) :
    Tame P proc.pageTable :=
  hspace.tame h.heap (fun virt _ hmem => hmemory ⟨virt, hmem⟩)
    fun _ hb => Or.inl (Or.inl (Or.inr hb))

/-- A process record is written back. -/
lemma setProcess (h : k.MemoryOk P F) (hspace : proc.Space P k)
    (hmemory : proc.memory ⊆ k.counted ∪ F) : (k.setProcess proc).MemoryOk P F := by
  have hslot : ∀ i proc', (k.setProcess proc).processes i = some proc' →
      i = proc.id.asU16 ∧ proc' = proc ∨ k.processes i = some proc' := by
    intro i proc' hproc'
    rw [setProcess_processes, Function.update_apply] at hproc'
    split at hproc'
    · next hi => exact Or.inl ⟨hi, (Option.some.inj hproc').symm⟩
    · exact Or.inr hproc'
  refine ⟨?_, h.heap.mono ?_ subset_rfl, h.page_size, ?_, h.elves, h.granted, ?_⟩
  · intro i proc' hproc'
    rcases hslot i proc' hproc' with ⟨rfl, rfl⟩ | hproc'
    · rfl
    · exact h.slots hproc'
  · rintro b (((⟨i, proc', hproc', hb⟩ | hb) | hb) | hb)
    · rcases hslot i proc' hproc' with ⟨rfl, rfl⟩ | hproc'
      · exact hmemory hb
      · exact Or.inl (memory_subset hproc' hb)
    · exact Or.inl (Or.inl (Or.inr hb))
    · exact Or.inl (Or.inr hb)
    · exact Or.inr hb
  · intro i proc' hproc'
    rcases hslot i proc' hproc' with ⟨rfl, rfl⟩ | hproc'
    · exact hspace.mono (.same k)
    · exact (h.space i proc' hproc').mono (.same k)
  · intro t ht
    simp only [Kernel.setProcess] at ht
    split at ht
    · rcases List.mem_cons.mp ht with rfl | ht
      · exact h.tame hspace hmemory
      · exact h.hart t ht
    · exact h.hart t ht

/-- The record of a process in a slot is written back with the address space that it had. -/
lemma setSame (h : k.MemoryOk P F) {i : ℕ} (hproc : k.processes i = some proc)
    (hid : proc'.id = proc.id) (htable : proc'.pageTable = proc.pageTable)
    (hallocated : proc'.allocated = proc.allocated) : (k.setProcess proc').MemoryOk P F := by
  refine h.setProcess ?_ ?_
  · rw [Process.Space, hid, htable, hallocated]
    exact h.space i proc hproc
  · rw [Process.memory, hallocated]
    exact (memory_subset hproc).trans Set.subset_union_left

/-- The process that is resumed is the one whose table the hart has. -/
lemma setUserspaceProcess (h : k.MemoryOk P F) {i : ℕ} (hproc : k.processes i = some proc) :
    (k.setUserspaceProcess proc).MemoryOk P F := by
  refine { h with
    space := fun i proc hproc => (h.space i proc hproc).mono (.same k)
    hart := fun t ht => ?_ }
  rw [List.mem_singleton.mp ht]
  exact h.tame (h.space i proc hproc) ((memory_subset hproc).trans Set.subset_union_left)

/-- A process is reaped. -/
lemma reap (h : k.MemoryOk P ∅) {index : ℕ} (hproc : k.processes index = some proc)
    (hreap : k.reap index proc = .ok k') : k'.MemoryOk P ∅ := by
  have honly := dropAllocated_onlyMemory hreap
  have hslot : ∀ i proc', Function.update k.processes index none i = some proc' →
      k.processes i = some proc' := by
    intro i proc' hproc'
    rw [Function.update_apply] at hproc'
    split at hproc'
    · cases hproc'
    · exact hproc'
  let emptied : Kernel := { k with processes := Function.update k.processes index none }
  have hsub : emptied.counted ⊆ k.counted := by
    rintro b ((⟨i, proc', hproc', hb⟩ | hb) | hb)
    · exact memory_subset (hslot i proc' hproc') hb
    · exact Or.inl (Or.inr hb)
    · exact Or.inr hb
  have hemptied : emptied.MemoryOk P ∅ := by
    refine { h with
      slots := fun i proc' hproc' => h.slots (hslot i proc' hproc')
      heap := h.heap.mono (Set.union_subset_union_left _ hsub) subset_rfl
      space := fun i proc' hproc' => (h.space i proc' (hslot i proc' hproc')).mono (.same k) }
  refine hemptied.onlyMemory honly ?_ fun p _ => congrFun (dropAllocated_memory hreap) p
  have hheap : emptied.HeapOk P
      (emptied.counted ∪ {b | b ∈ proc.allocated.map Prod.snd}) emptied.pinned := by
    refine h.heap.mono ?_ subset_rfl
    rintro b (hb | hb)
    · exact Or.inl (hsub hb)
    · obtain ⟨⟨virt, b'⟩, hentry, rfl⟩ := List.mem_map.mp hb
      exact Or.inl (memory_subset hproc ⟨virt, hentry⟩)
  rw [← honly.counted, ← honly.pinned, Set.union_empty]
  exact hheap.dropAllocated hemptied.count hreap

/-! ## Objects -/

/-- An object joins the handlers. -/
lemma addHandler (h : k.MemoryOk P F) {handler : Handler}
    (helf : ∀ elf, handler = .spawner elf → elf ∈ P.elves)
    (hshared : ∀ b, handler = .sharedMemory b → b ∈ k.counted ∪ F) :
    MemoryOk P { k with handlers := k.handlers ++ [handler] } F := by
  have hgrows : k.Grows { k with handlers := k.handlers ++ [handler] } :=
    ⟨fun _ hb => List.mem_append_left _ hb, subset_rfl, subset_rfl⟩
  refine ⟨h.slots, h.heap.mono ?_ subset_rfl, h.page_size,
    fun i proc hproc => (h.space i proc hproc).mono hgrows, ?_, ?_, h.hart⟩
  · rintro b (((hb | hb) | hb) | hb)
    · exact Or.inl (Or.inl (Or.inl hb))
    · rcases List.mem_append.mp hb with hb | hb
      · exact Or.inl (Or.inl (Or.inr hb))
      · exact hshared b (List.mem_singleton.mp hb).symm
    · exact Or.inl (Or.inr hb)
    · exact Or.inr hb
  · intro elf hmem
    rcases List.mem_append.mp hmem with hmem | hmem
    · exact h.elves elf hmem
    · exact helf elf (List.mem_singleton.mp hmem).symm
  · intro index
    obtain ⟨grantee, hgranted, hlt⟩ := h.granted index
    refine ⟨grantee, hgranted, hlt.imp_right fun hlt => ?_⟩
    rw [List.length_append]
    exact hlt.trans_le (Nat.le_add_right _ _)

lemma grantKernelCapability (h : k.MemoryOk P F) {handler : Handler} {grantee : ProcessId}
    (helf : ∀ elf, handler = .spawner elf → elf ∈ P.elves)
    (hshared : ∀ b, handler = .sharedMemory b → b ∈ k.counted ∪ F)
    (hgrant : k.grantKernelCapability P grantee handler = .ok (cap, k')) : k'.MemoryOk P F := by
  obtain ⟨⟨cap', k₁⟩, hreserve, hgrant⟩ := Checked.bind_eq_ok.mp hgrant
  obtain ⟨k₂, hstore, hgrant⟩ := Checked.bind_eq_ok.mp hgrant
  cases hgrant
  obtain ⟨hlt, hcap, rfl⟩ := reserveKernelCapability_eq_ok hreserve
  rw [RawCapability.new, dif_pos hlt] at hcap
  obtain rfl := Except.ok.inj hcap
  refine (h.addHandler helf hshared).storeGranted (RawCapability.certifier_slot _ _) ?_ hstore
  rw [RawCapability.localIndex_slot, List.length_append]
  exact Nat.lt_succ_self _

/-- A mapping without pages joins the mappings. -/
lemma addMapping (h : k.MemoryOk P F) {sectorOffset size : ℕ} :
    MemoryOk P { k with mappings := k.mappings ++ [⟨sectorOffset, size, []⟩] } F := by
  let k₁ : Kernel := { k with mappings := k.mappings ++ [⟨sectorOffset, size, []⟩] }
  have hloaded : k₁.loadedPages = k.loadedPages := by
    ext b
    constructor
    · rintro ⟨mapping, hmem, i, hb⟩
      rcases List.mem_append.mp hmem with hmem | hmem
      · exact ⟨mapping, hmem, i, hb⟩
      · rw [List.mem_singleton.mp hmem] at hb
        cases hb
    · rintro ⟨mapping, hmem, hb⟩
      exact ⟨mapping, List.mem_append_left _ hmem, hb⟩
  have hpinned : k₁.pinned = k.pinned := congrArg (k.rings ∪ ·) hloaded
  have hgrows : k.Grows k₁ := ⟨subset_rfl, subset_rfl, hloaded.ge⟩
  exact { h with
    heap := h.heap.mono subset_rfl hpinned.le
    page_size := fun b hb => h.page_size b (hpinned ▸ hb)
    space := fun i proc hproc => (h.space i proc hproc).mono hgrows }

end MemoryOk

/-- A page joins the pages of a mapping, and no page leaves it. -/
lemma loadedPages_set (b : Backing) {index : ℕ} (pageIndex : ℕ) {mapping : VirtualMemoryMapping}
    (hmapping : k.mappings[index]? = some mapping) :
    loadedPages { k with
      mappings := k.mappings.set index
        { mapping with backedPages := mapping.backedPages ++ [(pageIndex, b)] } } =
      insert b k.loadedPages := by
  obtain ⟨hlt, hget⟩ := List.getElem?_eq_some_iff.mp hmapping
  ext c
  constructor
  · rintro ⟨mapping', hmem, i, hc⟩
    rcases List.mem_or_eq_of_mem_set hmem with hmem | rfl
    · exact Or.inr ⟨mapping', hmem, i, hc⟩
    · rcases List.mem_append.mp hc with hc | hc
      · exact Or.inr ⟨mapping, hget ▸ List.getElem_mem hlt, i, hc⟩
      · cases List.mem_singleton.mp hc
        exact Or.inl rfl
  · rintro (rfl | ⟨mapping', hmem, i, hc⟩)
    · exact ⟨_, List.mem_set hlt _, pageIndex,
        List.mem_append_right _ (List.mem_singleton_self _)⟩
    · obtain ⟨j, hj, rfl⟩ := List.getElem_of_mem hmem
      by_cases heq : j = index
      · subst heq
        rw [hget] at hc
        exact ⟨_, List.mem_set hlt _, i, List.mem_append_left _ hc⟩
      · refine ⟨k.mappings[j], List.mem_iff_getElem?.mpr ⟨j, ?_⟩, i, hc⟩
        rw [List.getElem?_set_ne (Ne.symm heq), List.getElem?_eq_getElem hj]

/-- `load_page`: the new page belongs to the mapping. -/
lemma MemoryOk.loadPage (h : k.MemoryOk P F) (hspace : proc.Space P k)
    {index virtBase pageIndex : ℕ}
    (hload : k.loadPage index virtBase pageIndex proc = .ok (k', proc')) :
    k'.MemoryOk P F ∧ proc'.Space P k' ∧ proc'.allocated = proc.allocated ∧
      k'.counted = k.counted := by
  obtain ⟨mapping, contents, layout, page, k₀, k₁, phys, table, hmapping, hlayout, halloc, huses,
    hphys, hmap, rfl, rfl⟩ := loadPage_cases hload
  have hsize : page.byteSize = pageSize := by
    rw [Backing.byteSize, (allocPages_eq_ok halloc).1, pageLayout_size hlayout]
  have hheap := ((h.heap.allocPages halloc).2 (by rw [hsize]; decide)).usesHeap huses
  have honly := (allocPages_onlyMemory halloc).trans huses.onlyMemory
  have hmemory : ∀ p ∈ P.capabilityPage .kernel, k₁.memory p = k.memory p := fun p hp =>
    (congrFun huses.memory p).trans (allocPages_memory halloc fun hframe => P.not_mem_capabilityPage
      (hheap.frames (Or.inr (Set.mem_insert page _)) hframe).1 _ hp)
  have h₁ : k₁.MemoryOk P F :=
    h.onlyMemory honly (hheap.mono subset_rfl (Set.subset_insert page _)) hmemory
  rw [← honly.mappings] at hmapping
  have hset := loadedPages_set page pageIndex hmapping
  let k₂ : Kernel := { k₁ with
    mappings := k₁.mappings.set index
      { mapping with backedPages := mapping.backedPages ++ [(pageIndex, page)] } }
  have hpinned : k₂.pinned = insert page k₁.pinned := by
    rw [pinned, pinned, ← Set.union_insert, ← hset]
    rfl
  have hgrows : k₁.Grows k₂ := ⟨subset_rfl, subset_rfl, by rw [hset]; exact Set.subset_insert _ _⟩
  have h₂ : k₂.MemoryOk P F := by
    refine { h₁ with
      heap := ?_
      page_size := fun c hc => ?_
      space := fun i proc hproc => (h₁.space i proc hproc).mono hgrows }
    · rw [hpinned, honly.pinned]
      have hcounted : k₂.counted = k.counted := honly.counted
      rw [hcounted]
      exact hheap
    · rcases hpinned ▸ hc with rfl | hc
      · exact hsize
      · exact h₁.page_size c hc
  refine ⟨h₂, ?_, rfl, honly.counted⟩
  have hspace₂ : proc.Space P k₂ := (hspace.mono honly.grows).mono hgrows
  refine hspace₂.mapFrames hmap hphys hsize.symm fun v p hp => .loaded page ?_ hp rfl
  rw [hset]
  exact Set.mem_insert page _

end Kernel

end Deravel
