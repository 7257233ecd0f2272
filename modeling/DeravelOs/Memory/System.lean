import DeravelOs.Memory.Calls

/-!
# Every reachable state

Traps and turns of the scheduler keep what holds of memory like the system calls, user code can only
write where its tables let it, and `main` leaves a memory in which all is well.

* `Reachable.memoryOk`: what holds of memory in every reachable state.
-/

namespace Deravel

variable {P : Platform} {k k' : Kernel} {proc proc' next : Process} {b : Backing}
  {F : Set Backing} {mode : Mode} {cap : RawCapability} {caps : List RawCapability}

namespace Kernel

namespace MemoryOk

/-! ## Traps -/

/-- The running process is not found while its slot is locked. -/
lemma process_locked (h : k.MemoryOk P F) (hproc : k.process [] = .ok proc) :
    k.process [proc.id] ≠ .ok proc' := by
  intro hagain
  obtain ⟨pid, hpid, -, -, hslot⟩ := process_eq_ok hproc
  obtain ⟨pid', hpid', -, hheld, -⟩ := process_eq_ok hagain
  obtain rfl : pid = proc.id := ProcessId.ext (h.slots hslot).symm
  rw [hpid] at hpid'
  exact hheld (by rw [← Option.some.inj hpid']; exact List.mem_cons_self)

lemma handlePageFault (h : k.MemoryOk P F) {stval : ℕ} {r : Except SyscallAction Unit}
    (hfault : k.handlePageFault stval = .ok (k', r)) : k'.MemoryOk P F := by
  obtain ⟨proc, hproc, hkill | ⟨proc', hagain⟩ |
    ⟨range, index, k₁, proc', -, -, -, -, hload, rfl, -⟩⟩ := handlePageFault_cases hfault
  · exact h.kill hproc hkill rfl rfl rfl
  · exact absurd hagain (h.process_locked hproc)
  · obtain ⟨hspace, hmemory⟩ := h.running hproc
    obtain ⟨h₁, hspace₁, hallocated, hcounted⟩ := h.loadPage hspace hload
    refine sfenceVmaAll (h₁.setProcess hspace₁ ?_)
    rw [Process.memory, hallocated, hcounted]
    exact Set.Subset.trans hmemory Set.subset_union_left

/-- The rings are on the heap, and the certificates are not. -/
lemma interrupt (h : k.MemoryOk P F) {stores : List (ℕ × UInt8)}
    (hstores : ∀ store ∈ stores, k.inRing store.1) :
    MemoryOk P { k with memory := storeBytes k.memory stores } F := by
  refine h.withMemory fun p hp => storeBytes_of_notMem ?_
  rintro store hstore rfl
  obtain ⟨ring, hring, hin⟩ := List.any_eq_true.mp (hstores store hstore)
  have hmem : ring ∈ k.rings := by simpa [rings] using hring
  have hframes : store.1 ∈ ring.frames := by simpa [Backing.frames] using hin
  exact P.not_mem_capabilityPage (h.heap.frames (Or.inr (Or.inl hmem)) hframes).1 _ hp

lemma onUserTrapImpl (h : k.MemoryOk P ∅) {cause : Cause} {r : Except SyscallAction Unit}
    (htrap : k.onUserTrapImpl P cause = .ok (k', r)) : k'.MemoryOk P ∅ := by
  rcases onUserTrapImpl_cases htrap with ⟨-, k₁, r₁, hcall, hcases⟩ | ⟨stores, hstores, rfl, -⟩ |
    ⟨stval, -, hfault⟩
  · have h₁ : k₁.MemoryOk P ∅ := dispatchSyscall_rule (eachCall_memoryOk h) hcall
    rcases hcases with ⟨sepc, -, rfl, -⟩ | ⟨err, -, rfl, -⟩ | ⟨proc, pc, -, hproc, rfl, -⟩
    · exact h₁.congr rfl rfl rfl rfl rfl rfl rfl fun _ ht => ht
    · exact h₁
    · exact h₁.setRunning hproc rfl rfl rfl
  · exact h.interrupt hstores
  · exact h.handlePageFault hfault

lemma killManual (h : k.MemoryOk P F) (hproc : k.process [] = .ok proc) {reason : KillReason} :
    (k.killManual proc reason).MemoryOk P F := by
  have hproc' : (k.logKill proc reason).process [] = .ok proc :=
    (process_congr rfl rfl []).trans hproc
  exact h.logKill.setRunning hproc' rfl rfl rfl

/-- **A trap keeps what holds of memory.** -/
theorem onUserTrap (h : k.MemoryOk P ∅) {cause : Cause}
    (htrap : k.onUserTrap P cause = .ok (k', mode)) : k'.MemoryOk P ∅ := by
  obtain ⟨k₁, r, himpl, hcases⟩ := onUserTrap_cases htrap
  have h₁ := h.onUserTrapImpl himpl
  rcases hcases with ⟨-, rfl, -⟩ | ⟨proc, hproc, -, ⟨err, -, rfl⟩ | ⟨-, rfl⟩⟩
  · exact h₁
  · exact h₁.killManual hproc
  · exact h₁.setRunning hproc rfl rfl rfl

/-! ## The scheduler -/

lemma findRunnableProcess (h : k.MemoryOk P ∅)
    (hfind : k.findRunnableProcess = .ok (k', some next)) :
    k'.MemoryOk P ∅ ∧ k'.process? next.id = some next := by
  obtain ⟨h', hnext, -⟩ := scan_rule (fun k => k.MemoryOk P ∅) (fun h => h.slots)
    (fun {k k' proc server} h hproc _ _ _ hk' => by
      subst hk'
      refine logKill ?_
      exact h.setSame hproc rfl rfl rfl)
    (fun {k k' i proc} h hproc hi _ hreap => by
      subst hi
      exact h.reap hproc hreap) h hfind
  exact ⟨h', hnext⟩

lemma resumeWith {registers : RiscvRegisters} {place : ReturnPlace}
    {answer : Answer}
    (hset : (k.setProcess { next with registers := registers, state := .runnable }).MemoryOk P F) :
    (k.resumeWith next registers place answer).MemoryOk P F :=
  hset.congr rfl rfl rfl rfl rfl rfl rfl fun _ ht => ht

lemma resumeProcess (h : k.MemoryOk P F) (hnext : k.process? next.id = some next)
    {r : Except UserSyscallError Unit} (hresume : k.resumeProcess next = .ok (k', r)) :
    k'.MemoryOk P F := by
  have h₁ : (k.setUserspaceProcess next).MemoryOk P F := h.setUserspaceProcess hnext
  rcases resumeProcess_cases hresume with ⟨-, -, rfl⟩ |
    ⟨reply, resultBuffer, -, ⟨-, rfl⟩ | ⟨k₁, hwrite, -, rfl⟩⟩ |
    ⟨ring, declaredSize, handler, length, layout, virt, heap, k₁, next', -, huses, hhandler, -, -, -,
      hmap, -, rfl⟩
  · exact h₁.congr rfl rfl rfl rfl rfl rfl rfl fun _ ht => ht
  · exact h₁
  · have honly := writeToUser_onlyMemory hwrite
    have hslot : k₁.process? next.id = some next := by
      rw [process?, honly.processes]
      exact hnext
    refine MemoryOk.resumeWith ?_
    exact (h₁.writeToUser hwrite).setSame hslot rfl rfl rfl
  · have h₂ := h₁.usesHeap huses
    have hslot : k₁.process? next.id = some next := (huses.process? _).trans hnext
    obtain ⟨hspace', hmemory'⟩ :=
      h₂.sharedMemoryMap (h₂.space _ next hslot) (memory_subset hslot) hhandler hmap
    refine sfenceVmaAll (MemoryOk.resumeWith ?_)
    exact h₂.setProcess hspace' hmemory'

/-- **A turn of the scheduler keeps what holds of memory.** -/
theorem scheduleUserspace (h : k.MemoryOk P ∅) (hturn : k.scheduleUserspace = .ok (k', mode)) :
    k'.MemoryOk P ∅ := by
  obtain ⟨k₁, next, k₂, r, hfind, hresume, hcases⟩ := scheduleUserspace_cases hturn
  obtain ⟨h₁, hnext⟩ := h.findRunnableProcess hfind
  have h₂ := h₁.resumeProcess hnext hresume
  rcases hcases with ⟨-, rfl, -⟩ | ⟨err, proc, -, hproc, rfl, -⟩
  · exact h₂
  · exact h₂.killManual hproc

/-! ## User code -/

lemma withOracle (h : k.MemoryOk P F) (oracle : Oracle) :
    MemoryOk P { k with oracle := oracle } F :=
  h.congr rfl rfl rfl rfl rfl rfl rfl fun _ ht => ht

/-- **What user code does keeps what holds of memory.** -/
theorem userStep (h : k.MemoryOk P F) (hstep : UserStep k k') : k'.MemoryOk P F := by
  have hmemory : MemoryOk P { k with memory := k'.memory } F := by
    refine h.withMemory fun p hp => ?_
    by_contra hne
    obtain ⟨t, ht, virt, hvirt, flags, htranslate, -, hwrite⟩ := hstep.stores p hne
    exact (h.hart t ht).writable virt hvirt p flags htranslate hwrite hp
  rw [hstep.same]
  exact hmemory.congr rfl rfl rfl rfl rfl rfl rfl fun _ ht => ht

end MemoryOk

/-! ## Boot -/

/-- A slot without certificate is granted to the kernel. -/
lemma certificate_zero {actor : Actor} {index : Fin capabilitiesPerPage}
    (h : ∀ p ∈ P.capabilityPage actor, k.memory p = 0) :
    k.certificate P actor index = .granted .kernel := by
  have hbytes : (List.range' (P.certificateAddress actor index) 8).map k.memory =
      List.replicate 8 0 := by
    refine List.eq_replicate_iff.mpr ⟨by simp, fun byte hbyte => ?_⟩
    obtain ⟨p, hp, rfl⟩ := List.mem_map.mp hbyte
    obtain ⟨i, hi, rfl⟩ := List.mem_range'.mp hp
    rw [one_mul]
    exact h _ (Platform.certificateAddress_mem actor index hi)
  rw [certificate, hbytes]
  rfl

/-- The first blocks on the heap: the memory of the drivers. -/
lemma initializeAllPci_memoryOk (hblocks : k.BlocksOk P [])
    (hmemory : ∀ p ∈ P.capabilityPage .kernel, k.memory p = 0)
    (hprocesses : k.processes = fun _ => none) (hhandlers : k.handlers = [])
    (hmappings : k.mappings = []) (hhart : k.hart = [])
    (hpci : initializeAllPci P k = .ok k') : k'.MemoryOk P ∅ := by
  simp only [initializeAllPci] at hpci
  split at hpci
  · obtain ⟨⟨cursorImage, k₁⟩, h₁, hpci⟩ := Checked.bind_eq_ok.mp hpci
    obtain ⟨⟨framebuffer, k₂⟩, h₂, hpci⟩ := Checked.bind_eq_ok.mp hpci
    obtain ⟨⟨keyboardRing, k₃⟩, h₃, hpci⟩ := Checked.bind_eq_ok.mp hpci
    obtain ⟨⟨mouseRing, k₄⟩, h₄, hpci⟩ := Checked.bind_eq_ok.mp hpci
    cases hpci
    have honly := ((newPages_onlyMemory h₁).trans (newPages_onlyMemory h₂)).trans
      ((newPages_onlyMemory h₃).trans (newPages_onlyMemory h₄))
    rw [newPages_eq_ok] at h₁ h₂ h₃ h₄
    have hring₃ : keyboardRing.byteSize = pageSize :=
      congrArg Layout.size (allocPages_eq_ok h₃).1
    have hring₄ : mouseRing.byteSize = pageSize := congrArg Layout.size (allocPages_eq_ok h₄).1
    have hpage : pageSize ≠ 0 := by decide
    have hheap₀ : k.HeapOk P ∅ ∅ := ⟨[], hblocks, by simp, by simp, by simp⟩
    have hheap₂ := ((hheap₀.allocPages h₁).1.allocPages h₂).1
    have hheap₄ := ((hheap₂.allocPages h₃).2 (hring₃ ▸ hpage)).allocPages h₄
    have hheap := hheap₄.2 (hring₄ ▸ hpage)
    have hcounted : ∀ {b}, b ∈ Kernel.counted
        { k₄ with devices := ⟨keyboardRing, mouseRing, cursorImage, framebuffer⟩ } →
          b = cursorImage ∨ b = framebuffer := by
      rintro b ((⟨i, proc, hproc, -⟩ | hb) | hb)
      · simp only [honly.processes, hprocesses] at hproc
        cases hproc
      · simp only [sharedMemory, honly.handlers, hhandlers] at hb
        cases hb
      · exact hb
    have hpinned : ∀ {b}, b ∈ Kernel.pinned
        { k₄ with devices := ⟨keyboardRing, mouseRing, cursorImage, framebuffer⟩ } →
          b = keyboardRing ∨ b = mouseRing := by
      rintro b (hb | ⟨mapping, hmem, -⟩)
      · exact hb
      · simp only [honly.mappings, hmappings] at hmem
        cases hmem
    have hfresh : ∀ {k k' : Kernel} {b : Backing} {layout : Layout} {contents : ℕ → UInt8},
        b ∈ ({framebuffer, cursorImage} ∪ {mouseRing, keyboardRing} : Set Backing) →
        k.allocPages layout contents = .ok (.ok b, k') →
        ∀ p ∈ P.capabilityPage .kernel, k'.memory p = k.memory p := by
      intro k k' b layout contents hb halloc p hp
      refine allocPages_memory halloc fun hframe => ?_
      exact P.not_mem_capabilityPage (hheap.frames (by simpa using hb) hframe).1 _ hp
    have hzero : ∀ p ∈ P.capabilityPage .kernel, k₄.memory p = 0 := fun p hp => by
      rw [hfresh (by simp) h₄ p hp, hfresh (by simp) h₃ p hp, hfresh (by simp) h₂ p hp,
        hfresh (by simp) h₁ p hp, hmemory p hp]
    refine ⟨fun i proc hproc => ?_, HeapOk.mono hheap ?_ ?_, fun b hb => ?_, fun i proc hproc => ?_,
      fun elf helf => ?_, fun index => ⟨.kernel, certificate_zero hzero, Or.inl rfl⟩,
      fun t ht => ?_⟩
    · simp only [honly.processes, hprocesses] at hproc
      cases hproc
    · rintro b (hb | hb)
      · exact (hcounted hb).symm.imp id fun h => Or.inl h
      · cases hb
    · intro b hb
      exact (hpinned hb).symm.imp id fun h => Or.inl h
    · rcases hpinned hb with rfl | rfl
      · exact hring₃
      · exact hring₄
    · simp only [honly.processes, hprocesses] at hproc
      cases hproc
    · simp only [honly.handlers, hhandlers] at helf
      cases helf
    · simp only [honly.hart, hhart] at ht
      cases ht
  · cases hpci

/-- What `main` hands out while it starts processes: every object is there. -/
structure Starting (P : Platform) (k : Kernel) (caps : List RawCapability) : Prop where
  memory : k.MemoryOk P ∅
  objects : ∀ cap ∈ caps, ∃ certifier, cap.certifier = .ok certifier ∧
    (certifier = .kernel → cap.localIndex < k.handlers.length)

namespace Starting

lemma reserveProcess {pid : ProcessId} (h : Starting P k caps)
    (hreserve : k.reserveProcess = .ok (pid, cap, k')) : Starting P k' (cap :: caps) := by
  obtain ⟨pid', -, hreserve⟩ := Checked.bind_eq_ok.mp hreserve
  obtain ⟨exported, hnew, hreserve⟩ := Checked.bind_eq_ok.mp hreserve
  cases hreserve
  rw [RawCapability.new, dif_pos (by decide)] at hnew
  obtain rfl := Except.ok.inj hnew
  refine ⟨h.memory.congr rfl rfl rfl rfl rfl rfl rfl fun _ ht => ht,
    List.forall_mem_cons.mpr ⟨⟨_, RawCapability.certifier_slot _ _, fun heq => ?_⟩, h.objects⟩⟩
  cases heq

lemma reserveKernelCapability {handler : Handler} (h : Starting P k caps)
    (helf : ∀ elf, handler = .spawner elf → elf ∈ P.elves)
    (hshared : ∀ b, handler ≠ .sharedMemory b)
    (hreserve : k.reserveKernelCapability handler = .ok (cap, k')) :
    Starting P k' (cap :: caps) := by
  obtain ⟨hlt, hnew, rfl⟩ := reserveKernelCapability_eq_ok hreserve
  rw [RawCapability.new, dif_pos hlt] at hnew
  obtain rfl := Except.ok.inj hnew
  refine ⟨h.memory.addHandler helf fun b hb => absurd hb (hshared b),
    List.forall_mem_cons.mpr ⟨⟨_, RawCapability.certifier_slot _ _, fun _ => ?_⟩,
      fun cap hcap => ?_⟩⟩
  · simp
  · obtain ⟨certifier, hcertifier, hlt⟩ := h.objects cap hcap
    refine ⟨certifier, hcertifier, fun hkernel => (hlt hkernel).trans_le ?_⟩
    simp

/-- `ProcessReservation::spawn` of objects that are there. -/
lemma spawn (h : Starting P k caps) {elf : Elf} (helf : elf ∈ P.elves) {pid : ProcessId}
    {args : List RawCapability} (hsub : args ⊆ caps) (hspawn : k.spawn P elf pid args = .ok k') :
    Starting P k' caps := by
  obtain ⟨k₁, hstores, hcreate⟩ := Checked.bind_eq_ok.mp hspawn
  have hstored : k₁.MemoryOk P ∅ ∧ k₁.handlers = k.handlers := by
    refine Checked.foldlM_keeps (fun s : Kernel => s.MemoryOk P ∅ ∧ s.handlers = k.handlers)
      ⟨h.memory, rfl⟩ (fun cap hcap s s' hs hstep => ?_) hstores
    obtain ⟨certifier, hcertifier, hlt⟩ := h.objects cap (hsub hcap)
    refine ⟨?_, (storeCertificate_onlyMemory hstep).handlers.trans hs.2⟩
    cases certifier with
    | kernel => exact hs.1.storeGranted hcertifier (hs.2 ▸ hlt rfl) hstep
    | userspace pid => exact hs.1.storeCertificate hcertifier hstep
  obtain ⟨k₂, proc, honly, -, -, rfl⟩ := createProcess_frame hcreate
  refine ⟨hstored.1.createProcess helf hcreate, fun cap hcap => ?_⟩
  obtain ⟨certifier, hcertifier, hlt⟩ := h.objects cap hcap
  refine ⟨certifier, hcertifier, fun hkernel => ?_⟩
  have hlength : (k₂.setProcess proc).handlers = k.handlers := honly.handlers.trans hstored.2
  rw [hlength]
  exact hlt hkernel

end Starting

lemma startProcesses_memoryOk (h : k.MemoryOk P ∅) (hstart : startProcesses P k = .ok k') :
    k'.MemoryOk P ∅ := by
  obtain ⟨⟨fat, fatExport, k₁⟩, h₁, hstart⟩ := Checked.bind_eq_ok.mp hstart
  obtain ⟨⟨windowing, windowingExport, k₂⟩, h₂, hstart⟩ := Checked.bind_eq_ok.mp hstart
  obtain ⟨⟨display, k₃⟩, h₃, hstart⟩ := Checked.bind_eq_ok.mp hstart
  obtain ⟨⟨keyboard, k₄⟩, h₄, hstart⟩ := Checked.bind_eq_ok.mp hstart
  obtain ⟨⟨mouse, k₅⟩, h₅, hstart⟩ := Checked.bind_eq_ok.mp hstart
  obtain ⟨⟨imageViewer, k₆⟩, h₆, hstart⟩ := Checked.bind_eq_ok.mp hstart
  obtain ⟨⟨net, k₇⟩, h₇, hstart⟩ := Checked.bind_eq_ok.mp hstart
  obtain ⟨⟨shutdown, k₈⟩, h₈, hstart⟩ := Checked.bind_eq_ok.mp hstart
  obtain ⟨⟨terminal, k₉⟩, h₉, hstart⟩ := Checked.bind_eq_ok.mp hstart
  obtain ⟨⟨shell, k₁₀⟩, h₁₀, hstart⟩ := Checked.bind_eq_ok.mp hstart
  obtain ⟨k₁₁, h₁₁, hstart⟩ := Checked.bind_eq_ok.mp hstart
  obtain ⟨⟨drive, k₁₂⟩, h₁₂, hstart⟩ := Checked.bind_eq_ok.mp hstart
  have s₀ : Starting P k [] := ⟨h, by simp⟩
  have s₂ := (s₀.reserveProcess h₁).reserveProcess h₂
  have s₅ := ((s₂.reserveKernelCapability (by simp) (by simp) h₃).reserveKernelCapability
    (by simp) (by simp) h₄).reserveKernelCapability (by simp) (by simp) h₅
  have s₆ := s₅.reserveKernelCapability (by simp [Platform.elves]) (by simp) h₆
  have s₈ := (s₆.reserveKernelCapability (by simp) (by simp) h₇).reserveKernelCapability
    (by simp) (by simp) h₈
  have s₁₀ := (s₈.reserveKernelCapability (by simp [Platform.elves]) (by simp)
    h₉).reserveKernelCapability (by simp [Platform.elves]) (by simp) h₁₀
  have s₁₁ := s₁₀.spawn (by simp [Platform.elves]) (by simp) h₁₁
  have s₁₂ := s₁₁.reserveKernelCapability (by simp) (by simp) h₁₂
  exact (s₁₂.spawn (by simp [Platform.elves]) (by simp) hstart).memory

/-- All is well with memory when `main` calls the scheduler. -/
theorem main_memoryOk {oracle : Oracle} (h : main P oracle = .ok k) : k.MemoryOk P ∅ := by
  obtain ⟨heap, hboot, h⟩ := Checked.bind_eq_ok.mp h
  obtain ⟨k₁, hpci, h⟩ := Checked.bind_eq_ok.mp h
  refine startProcesses_memoryOk ?_ h
  refine initializeAllPci_memoryOk ?_ (fun p hp => ?_) rfl rfl rfl rfl hpci
  · exact (BuddyRun.boot hboot).inv P.ram_stop P.reservations
  · obtain ⟨h1, h2⟩ := hp
    simp only [Actor.pageIndex_kernel, zero_mul, add_zero] at h1 h2
    obtain ⟨i, rfl⟩ := Nat.exists_eq_add_of_le h1
    have hpage : pageSize ≤ (processCount + 1) * pageSize := by decide
    exact P.capability_new i (by omega)

end Kernel

/-! ## Runs -/

/-- **What holds of memory holds in every reachable state.** -/
theorem Reachable.memoryOk {s : Kernel × Mode} (h : Reachable P s) : s.1.MemoryOk P ∅ := by
  induction h with
  | main oracle hmain => exact Kernel.main_memoryOk hmain
  | step _ hstep ih =>
      cases hstep with
      | user hstep => exact ih.userStep hstep
      | trap oracle htrap =>
          exact (ih.withOracle oracle).onUserTrap htrap
      | schedule oracle hturn =>
          exact (ih.withOracle oracle).scheduleUserspace hturn

end Deravel
