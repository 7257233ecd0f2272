import DeravelOs.Kernel.Cases

/-!
# What a trap and a turn of the scheduler can do

The rest of the inversion lemmas: the calls that concern the memory of the caller, the methods of
the handlers, the creation of a process, and the functions of the scheduler.

* `dispatchSyscall_rule`: what every call establishes holds after the dispatcher.
* `scan_rule`: what inspecting and reaping keep holds after the scan for a runnable process.
-/

namespace Deravel

variable {P : Platform} {k k' : Kernel} {proc proc' : Process} {pid : ProcessId}

namespace Kernel

/-! ## Memory of the caller -/

lemma exit_cases {r : Except SyscallAction Empty} (h : k.exit = .ok (k', r)) :
    ∃ proc, k.process [] = .ok proc ∧ k' = k.setProcess { proc with state := .finished } ∧
      r = .error .yield := by
  obtain ⟨proc, hproc, h⟩ := Checked.bind_eq_ok.mp h
  cases h
  exact ⟨proc, hproc, rfl, rfl⟩

/-- Pages for the running process, from the kernel heap. -/
structure PagesFor (k k₁ : Kernel) (size : ℕ) (layout : Layout) (pages : Backing)
    (proc : Process) : Prop where
  padded : nextMultipleOfPage size = .ok layout.size
  capacity : bytesLayout layout.size = some layout
  pages : ∃ k₀, k.allocPages layout (fun _ => 0) = .ok (.ok pages, k₀) ∧ k₀.UsesHeap k₁
  proc : k₁.process [] = .ok proc

lemma PagesFor.onlyMemory {k k₁ : Kernel} {size : ℕ} {layout : Layout} {pages : Backing}
    {proc : Process} (h : k.PagesFor k₁ size layout pages proc) : k.OnlyMemory k₁ := by
  obtain ⟨k₀, hpages, huses⟩ := h.pages
  exact (allocPages_onlyMemory hpages).trans huses.onlyMemory

/-- There was no room in the address space, and the pages are given back. -/
def NoRoom (k₁ k' : Kernel) (proc : Process) (pages : Backing) : Prop :=
  ∃ e proc', proc.alloc pages PageFlags.readWrite.asUser = .ok (.error e, proc') ∧
    (k₁.setProcess proc').dropBacking pages = .ok k'

lemma alloc_cases {size : ℕ} {r : Except SyscallAction ℕ} (h : k.alloc size = .ok (k', r)) :
    (r = .error (.userErr .allocTryReserve) ∧ (k' = k ∨ ∃ layout e,
      k.allocPages layout (fun _ => 0) = .ok (.error e, k'))) ∨
    ∃ layout pages k₁ proc, k.PagesFor k₁ size layout pages proc ∧
      (NoRoom k₁ k' proc pages ∧ r = .error (.userErr .alloc) ∨
      ∃ virt proc', proc.alloc pages PageFlags.readWrite.asUser = .ok (.ok virt, proc') ∧
        k' = (k₁.setProcess proc').sfenceVmaAll ∧ r = .ok virt) := by
  obtain ⟨padded, hpadded, h⟩ := Checked.bind_eq_ok.mp h
  cases hlayout : bytesLayout padded with
  | none =>
      simp only [hlayout] at h
      cases h
      exact Or.inl ⟨rfl, Or.inl rfl⟩
  | some layout =>
      simp only [hlayout] at h
      obtain ⟨⟨result, k₁⟩, hpages, h⟩ := Checked.bind_eq_ok.mp h
      cases result with
      | error e =>
          cases h
          exact Or.inl ⟨rfl, Or.inr ⟨layout, e, hpages⟩⟩
      | ok pages =>
          obtain ⟨k₂, hchurn, h⟩ := Checked.bind_eq_ok.mp h
          obtain ⟨proc, hproc, h⟩ := Checked.bind_eq_ok.mp h
          obtain ⟨⟨result, proc'⟩, halloc, h⟩ := Checked.bind_eq_ok.mp h
          obtain rfl := bytesLayout_size hlayout
          refine Or.inr ⟨layout, pages, k₂, proc,
            ⟨hpadded, hlayout, ⟨k₁, hpages, churn_usesHeap hchurn⟩, hproc⟩, ?_⟩
          cases result with
          | error e =>
              obtain ⟨k₃, hdrop, h⟩ := Checked.bind_eq_ok.mp h
              cases h
              exact Or.inl ⟨⟨e, proc', halloc, hdrop⟩, rfl⟩
          | ok virt =>
              cases h
              exact Or.inr ⟨virt, proc', halloc, rfl, rfl⟩

lemma allocShared_cases {size : ℕ} {r : Except SyscallAction (ℕ × RawCapability)}
    (h : k.allocShared P size = .ok (k', r)) :
    ∃ layout pages k₁ proc, k.PagesFor k₁ size layout pages proc ∧
      (NoRoom k₁ k' proc pages ∧ r = .error (.userErr .alloc) ∨
      ∃ virt proc' grantee cap, proc.alloc pages PageFlags.readWrite.asUser = .ok (.ok virt, proc') ∧
        (k₁.setProcess proc').sfenceVmaAll.grantKernelCapability P grantee (.sharedMemory pages) =
          .ok (cap, k') ∧ r = .ok (virt, cap)) := by
  obtain ⟨padded, hpadded, h⟩ := Checked.bind_eq_ok.mp h
  cases hlayout : bytesLayout padded with
  | none =>
      simp only [hlayout] at h
      cases h
  | some layout =>
      simp only [hlayout] at h
      obtain ⟨⟨pages, k₁⟩, hpages, h⟩ := Checked.bind_eq_ok.mp h
      obtain ⟨k₂, hchurn, h⟩ := Checked.bind_eq_ok.mp h
      obtain ⟨proc, hproc, h⟩ := Checked.bind_eq_ok.mp h
      obtain ⟨⟨result, proc'⟩, halloc, h⟩ := Checked.bind_eq_ok.mp h
      obtain rfl := bytesLayout_size hlayout
      refine ⟨layout, pages, k₂, proc,
        ⟨hpadded, hlayout, ⟨k₁, newPages_eq_ok.mp hpages, churn_usesHeap hchurn⟩, hproc⟩, ?_⟩
      cases result with
      | error e =>
          obtain ⟨k₃, hdrop, h⟩ := Checked.bind_eq_ok.mp h
          cases h
          exact Or.inl ⟨⟨e, proc', halloc, hdrop⟩, rfl⟩
      | ok virt =>
          obtain ⟨grantee, hgrantee, h⟩ := Checked.bind_eq_ok.mp h
          obtain ⟨⟨cap, k₃⟩, hgrant, h⟩ := Checked.bind_eq_ok.mp h
          cases h
          exact Or.inr ⟨virt, proc', grantee, cap, halloc, hgrant, rfl⟩

lemma mapShared_cases {cap : RawCapability} {r : Except SyscallAction (ℕ × ℕ)}
    (h : k.mapShared cap = .ok (k', r)) :
    ∃ k₁ proc root, k.UsesHeap k₁ ∧ k₁.process [] = .ok proc ∧
      k₁.validate cap proc.id = .ok (.ok root) ∧
      ((k', r) = k₁.kill proc .nonKernelSharedMemory ∨
      ∃ handler length padded layout heap, root.certifier = .ok .kernel ∧
        k₁.getHandler root.localIndex = .ok handler ∧ k₁.sharedMemorySize handler = .ok length ∧
        nextMultipleOfPage length = .ok padded ∧ pageLayout padded = .ok layout ∧
        ((proc.heap.alloc layout = .ok (.error .mk, heap) ∧
          k' = k₁.setProcess { proc with heap := heap } ∧ r = .error (.userErr .alloc)) ∨
        ∃ virt proc', proc.heap.alloc layout = .ok (.ok virt, heap) ∧
          k₁.sharedMemoryMap handler virt { proc with heap := heap } = .ok proc' ∧
          k' = (k₁.setProcess proc').sfenceVmaAll ∧ r = .ok (virt, length))) := by
  obtain ⟨proc, hproc, h⟩ := Checked.bind_eq_ok.mp h
  obtain ⟨validated, hvalidate, h⟩ := Checked.bind_eq_ok.mp h
  cases validated with
  | error err => exact absurd h killRefused_ne_ok
  | ok root =>
      obtain ⟨certifier, hcertifier, h⟩ := Checked.bind_eq_ok.mp h
      split at h
      · exact ⟨k, proc, root, .refl, hproc, hvalidate, Or.inl (Except.ok.inj h).symm⟩
      · next hkernel =>
          obtain rfl := not_not.mp hkernel
          obtain ⟨handler, hhandler, h⟩ := Checked.bind_eq_ok.mp h
          obtain ⟨length, hlength, h⟩ := Checked.bind_eq_ok.mp h
          obtain ⟨padded, hpadded, h⟩ := Checked.bind_eq_ok.mp h
          obtain ⟨layout, hlayout, h⟩ := Checked.bind_eq_ok.mp h
          obtain ⟨⟨result, heap⟩, halloc, h⟩ := Checked.bind_eq_ok.mp h
          cases result with
          | error e =>
              cases e
              cases h
              exact ⟨k, proc, root, .refl, hproc, hvalidate, Or.inr ⟨handler, length, padded, layout,
                heap, hcertifier, hhandler, hlength, hpadded, hlayout, Or.inl ⟨halloc, rfl, rfl⟩⟩⟩
          | ok virt =>
              obtain ⟨k₁, hchurn, h⟩ := Checked.bind_eq_ok.mp h
              obtain ⟨proc', hmap, h⟩ := Checked.bind_eq_ok.mp h
              cases h
              have huses := churn_usesHeap hchurn
              rw [← huses.process] at hproc
              rw [← huses.validate] at hvalidate
              rw [← huses.getHandler] at hhandler
              rw [← huses.sharedMemorySize] at hlength
              exact ⟨k₁, proc, root, huses, hproc, hvalidate, Or.inr ⟨handler, length, padded, layout,
                heap, hcertifier, hhandler, hlength, hpadded, hlayout,
                Or.inr ⟨virt, proc', halloc, hmap, rfl, rfl⟩⟩⟩

lemma free_cases {ptr : ℕ} {r : Except SyscallAction Unit} (h : k.free ptr = .ok (k', r)) :
    ∃ proc, k.process [] = .ok proc ∧
      (proc.dealloc ptr = .ok none ∧ (k', r) = k.kill proc .freeOfUnallocated ∨
      ∃ proc' backing, proc.dealloc ptr = .ok (some (proc', backing)) ∧
        (k.setProcess proc').dropBacking backing = .ok k' ∧ r = .ok ()) := by
  obtain ⟨proc, hproc, h⟩ := Checked.bind_eq_ok.mp h
  obtain ⟨freed, hfreed, h⟩ := Checked.bind_eq_ok.mp h
  refine ⟨proc, hproc, ?_⟩
  cases freed with
  | none => exact Or.inl ⟨hfreed, (Except.ok.inj h).symm⟩
  | some pair =>
      obtain ⟨k₁, hdrop, h⟩ := Checked.bind_eq_ok.mp h
      cases h
      exact Or.inr ⟨pair.1, pair.2, hfreed, hdrop, rfl⟩

lemma log_cases {message : UserSlice} {level : ℕ} {r : Except SyscallAction Unit}
    (h : k.log message level = .ok (k', r)) :
    ∃ k₁ proc, k.UsesHeap k₁ ∧ k₁.process [] = .ok proc ∧ ((k', r) = k₁.kill proc .invalidUtf8 ∨
      (k', r) = k₁.kill proc .invalidLogLevel ∨ k' = k₁ ∧ r = .ok ()) := by
  obtain ⟨⟨bytes, k₁⟩, hcopy, h⟩ := Checked.bind_eq_ok.mp h
  obtain ⟨proc, hproc, h⟩ := Checked.bind_eq_ok.mp h
  refine ⟨k₁, proc, copyToKernel_usesHeap hcopy, hproc, ?_⟩
  split at h
  · exact Or.inl (Except.ok.inj h).symm
  · split at h
    · exact Or.inr (Or.inl (Except.ok.inj h).symm)
    · cases h
      exact Or.inr (Or.inr ⟨rfl, rfl⟩)

/-! ## The methods of handlers -/

lemma reserveProcess_eq_ok {exported : RawCapability}
    (h : k.reserveProcess = .ok (pid, exported, k')) :
    ProcessId.new (.ofNat (k.processesReserved + 1)) = .ok pid ∧
      k' = { k with processesReserved := k.processesReserved + 1 } := by
  obtain ⟨pid', hpid, h⟩ := Checked.bind_eq_ok.mp h
  obtain ⟨exported', -, h⟩ := Checked.bind_eq_ok.mp h
  cases h
  exact ⟨hpid, rfl⟩

lemma spawnerCallMethod_cases {elf : Elf} {args reply : List UInt8} {sender : ProcessId}
    (h : k.spawnerCallMethod P elf args sender = .ok (reply, k')) :
    ∃ child caps k₁, ProcessId.new (.ofNat (k.processesReserved + 1)) = .ok child ∧
      OnlyMemory { k with processesReserved := k.processesReserved + 1 } k₁ ∧
      createProcess P k₁ elf child caps = .ok k' := by
  obtain ⟨⟨child, exported, k₁⟩, hreserve, h⟩ := Checked.bind_eq_ok.mp h
  obtain ⟨hchild, rfl⟩ := reserveProcess_eq_ok hreserve
  obtain ⟨k₂, hstore, h⟩ := Checked.bind_eq_ok.mp h
  obtain ⟨caps, -, h⟩ := Checked.bind_eq_ok.mp h
  obtain ⟨k₃, hfold, h⟩ := Checked.bind_eq_ok.mp h
  obtain ⟨k₄, hcreate, h⟩ := Checked.bind_eq_ok.mp h
  cases h
  refine ⟨child, caps, k₃, hchild, ?_, hcreate⟩
  exact Checked.foldlM_keeps (OnlyMemory _) (storeCertificate_onlyMemory hstore)
    (fun cap _ s s' hs hstep => hs.trans (handOver_onlyMemory hstep)) hfold

lemma driverMethod_eq_ok {methods : List (List ArgType)} {method : ℕ} {args reply : List UInt8}
    (h : k.driverMethod P methods method args = .ok (reply, k')) : k' = k := by
  simp only [driverMethod] at h
  split at h
  · cases h
  · obtain ⟨-, -, h⟩ := Checked.bind_eq_ok.mp h
    obtain ⟨reply', -, h⟩ := Checked.bind_eq_ok.mp h
    cases h
    rfl

lemma grantSharedMemory_onlyMemory {backing : Backing} {sender : ProcessId} {reply : List UInt8}
    (h : k.grantSharedMemory P backing sender = .ok (reply, k')) :
    OnlyMemory { k with handlers := k.handlers ++ [.sharedMemory backing] } k' := by
  obtain ⟨⟨cap, k₁⟩, hgrant, h⟩ := Checked.bind_eq_ok.mp h
  cases h
  exact grantKernelCapability_onlyMemory hgrant

lemma readMapped_onlyMemory {args reply : List UInt8} {sender : ProcessId}
    (h : k.readMapped P args sender = .ok (reply, k')) :
    ∃ sectorOffset size, pageSize ∣ size ∧ OnlyMemory
      { k with
        mappings := k.mappings ++ [⟨sectorOffset, size, []⟩]
        handlers := k.handlers ++ [.mapping k.mappings.length] } k' := by
  simp only [readMapped] at h
  split at h
  · cases h
  · split at h
    · cases h
    · next firstSector rest _ _ sectorCount _ _ =>
        obtain ⟨-, h⟩ := ensure_bind_eq_ok.mp h
        obtain ⟨hwhole, h⟩ := ensure_bind_eq_ok.mp h
        obtain ⟨-, h⟩ := ensure_bind_eq_ok.mp h
        obtain ⟨⟨cap, k₁⟩, hgrant, h⟩ := Checked.bind_eq_ok.mp h
        cases h
        exact ⟨_, _, Nat.dvd_of_mod_eq_zero hwhole, grantKernelCapability_onlyMemory hgrant⟩

lemma callMethod_cases {handler : Handler} {method : ℕ} {args reply : List UInt8}
    {sender : ProcessId} (h : k.callMethod P handler method args sender = .ok (reply, k')) :
    k' = k ∨
    (∃ backing, (backing = k.devices.framebuffer ∨ backing = k.devices.cursorImage) ∧
      OnlyMemory { k with handlers := k.handlers ++ [.sharedMemory backing] } k') ∨
    (∃ sectorOffset size, pageSize ∣ size ∧ OnlyMemory
      { k with
        mappings := k.mappings ++ [⟨sectorOffset, size, []⟩]
        handlers := k.handlers ++ [.mapping k.mappings.length] } k') ∨
    ∃ elf child caps k₁, handler = .spawner elf ∧
      ProcessId.new (.ofNat (k.processesReserved + 1)) = .ok child ∧
      OnlyMemory { k with processesReserved := k.processesReserved + 1 } k₁ ∧
      createProcess P k₁ elf child caps = .ok k' := by
  cases handler with
  | display =>
      simp only [callMethod] at h
      split at h
      · exact Or.inr (Or.inl ⟨_, Or.inl rfl, grantSharedMemory_onlyMemory h⟩)
      · split at h
        · exact Or.inr (Or.inl ⟨_, Or.inr rfl, grantSharedMemory_onlyMemory h⟩)
        · exact Or.inl (driverMethod_eq_ok h)
  | keyboard => exact Or.inl (driverMethod_eq_ok h)
  | mouse => exact Or.inl (driverMethod_eq_ok h)
  | drive =>
      simp only [callMethod] at h
      split at h
      · exact Or.inr (Or.inr (Or.inl (readMapped_onlyMemory h)))
      · exact Or.inl (driverMethod_eq_ok h)
  | network => exact Or.inl (driverMethod_eq_ok h)
  | shutdown =>
      simp only [callMethod] at h
      split at h
      · cases h
      · cases h
  | spawner elf =>
      obtain ⟨child, caps, k₁, hchild, hmemory, hcreate⟩ := spawnerCallMethod_cases h
      exact Or.inr (Or.inr (Or.inr ⟨elf, child, caps, k₁, rfl, hchild, hmemory, hcreate⟩))
  | sharedMemory backing => cases h
  | mapping index => cases h

/-! ## Dispatch -/

/-- What a result asks for instead of a return. -/
def actionOf {α : Type} : Except SyscallAction α → Option SyscallAction
  | .ok _ => none
  | .error action => some action

/-- Every call that the registers can ask for establishes `Q`. -/
structure EachCall (P : Platform) (k : Kernel) (Q : Kernel → Option SyscallAction → Prop) :
    Prop where
  registers : ∀ {k' registers}, Q k' none → Q { k' with registers := registers } none
  userErr : ∀ {err}, Q k (some (.userErr err))
  yield : Q k (some .yield)
  exit : ∀ {k' r}, k.exit = .ok (k', r) → Q k' (actionOf r)
  ipcCall : ∀ {cap args result k' r},
    k.ipcCall P cap (k.registers .a1) args result = .ok (k', r) → Q k' (actionOf r)
  ipcReceive : ∀ {args k' r}, k.ipcReceive args = .ok (k', r) → Q k' (actionOf r)
  ipcReply : ∀ {result k' r}, k.ipcReply P result = .ok (k', r) → Q k' (actionOf r)
  ipcStream : ∀ {cap k' r}, k.ipcStream cap (k.registers .a1) = .ok (k', r) → Q k' (actionOf r)
  alloc : ∀ {k' r}, k.registers .a6 = 5 → k.alloc (k.registers .a0) = .ok (k', r) →
    Q k' (actionOf r)
  allocShared : ∀ {k' r}, k.registers .a6 = 6 → k.allocShared P (k.registers .a0) = .ok (k', r) →
    Q k' (actionOf r)
  mapShared : ∀ {cap k' r}, k.mapShared cap = .ok (k', r) → Q k' (actionOf r)
  free : ∀ {k' r}, k.registers .a6 = 8 → checkPointer (k.registers .a0) = .ok (k.registers .a0) →
    k.free (k.registers .a0) = .ok (k', r) → Q k' (actionOf r)
  log : ∀ {message k' r}, k.log message (k.registers .a2) = .ok (k', r) → Q k' (actionOf r)

section Dispatch

variable {Q : Kernel → Option SyscallAction → Prop}

lemma checkPointer_eq_ok {ptr ptr' : ℕ} (h : checkPointer ptr = .ok ptr') : ptr' = ptr := by
  simp only [checkPointer] at h
  split at h
  · cases h
  · split at h
    · cases h
    · cases h
      rfl

lemma returning_rule {α : Type} {results : α → List ℕ} {call : Checked (SyscallResult α)}
    {r : Except SyscallAction Unit}
    (hregisters : ∀ {k' registers}, Q k' none → Q { k' with registers := registers } none)
    (hcall : ∀ {k' r}, call = .ok (k', r) → Q k' (actionOf r))
    (h : returning results <$> call = .ok (k', r)) : Q k' (actionOf r) := by
  cases call with
  | error e => cases h
  | ok pair =>
      obtain ⟨k₁, result⟩ := pair
      have hq := hcall rfl
      cases result with
      | ok a =>
          cases h
          exact hregisters hq
      | error action =>
          cases h
          exact hq

lemma withArg_rule {α β : Type} {arg : Except UserSyscallError α}
    {call : α → Checked (SyscallResult β)} {r : Except SyscallAction β}
    (herror : ∀ {err}, Q k (some (.userErr err)))
    (hcall : ∀ a, arg = .ok a → call a = .ok (k', r) → Q k' (actionOf r))
    (h : k.withArg arg call = .ok (k', r)) : Q k' (actionOf r) := by
  cases arg with
  | ok a => exact hcall a rfl h
  | error err =>
      cases h
      exact herror

/-- **What every call establishes holds after the dispatcher.** -/
theorem dispatchSyscall_rule (each : EachCall P k Q) {r : Except SyscallAction Unit}
    (h : k.dispatchSyscall P = .ok (k', r)) : Q k' (actionOf r) := by
  simp only [dispatchSyscall] at h
  split at h
  · exact returning_rule each.registers each.exit h
  · refine withArg_rule each.userErr (fun cap _ h => ?_) h
    refine withArg_rule each.userErr (fun args _ h => ?_) h
    refine withArg_rule each.userErr (fun result _ h => ?_) h
    exact returning_rule each.registers each.ipcCall h
  · refine withArg_rule each.userErr (fun args _ h => ?_) h
    exact returning_rule each.registers each.ipcReceive h
  · refine withArg_rule each.userErr (fun result _ h => ?_) h
    exact returning_rule each.registers each.ipcReply h
  · refine withArg_rule each.userErr (fun cap _ h => ?_) h
    exact returning_rule each.registers each.ipcStream h
  · next hcall => exact returning_rule each.registers (each.alloc hcall) h
  · next hcall => exact returning_rule each.registers (each.allocShared hcall) h
  · refine withArg_rule each.userErr (fun cap _ h => ?_) h
    exact returning_rule each.registers each.mapShared h
  · next hfree =>
      refine withArg_rule each.userErr (fun ptr hptr h => ?_) h
      obtain rfl := checkPointer_eq_ok hptr
      exact returning_rule each.registers (each.free hfree hptr) h
  · refine returning_rule each.registers (fun hyield => ?_) h
    cases hyield
    exact each.yield
  · refine withArg_rule each.userErr (fun message _ h => ?_) h
    exact returning_rule each.registers each.log h
  · cases h
    exact each.userErr

end Dispatch

/-! ## Traps -/

lemma findMapping_eq_some {table : PageTable} {stval : ℕ} {vmm : AddressRange × ℕ}
    {mappings : List (AddressRange × ℕ)} (h : findMapping table stval mappings = .ok (some vmm)) :
    vmm ∈ mappings ∧ vmm.1.start ≤ stval ∧ stval < vmm.1.stop ∧
      table.isMapped stval = .ok false := by
  induction mappings with
  | nil => cases h
  | cons first rest ih =>
      obtain ⟨missing, hmissing, h⟩ := Checked.bind_eq_ok.mp h
      cases missing with
      | true =>
          cases h
          split at hmissing
          · next hrange =>
              refine ⟨List.mem_cons_self, hrange.1, hrange.2, ?_⟩
              cases hmapped : table.isMapped stval with
              | error e =>
                  rw [hmapped] at hmissing
                  cases hmissing
              | ok mapped =>
                  rw [hmapped] at hmissing
                  cases mapped with
                  | false => rfl
                  | true => cases hmissing
          · cases hmissing
      | false =>
          obtain ⟨hmem, hrest⟩ := ih h
          exact ⟨List.mem_cons_of_mem _ hmem, hrest⟩

lemma handlePageFault_cases {stval : ℕ} {r : Except SyscallAction Unit}
    (h : k.handlePageFault stval = .ok (k', r)) :
    ∃ proc, k.process [] = .ok proc ∧ ((k', r) = k.kill proc .stackOverflow ∨
      (∃ proc', k.process [proc.id] = .ok proc') ∨
      ∃ range index k₁ proc', (range, index) ∈ proc.virtualMemoryMappings ∧
        range.start ≤ stval ∧ stval < range.stop ∧ proc.pageTable.isMapped stval = .ok false ∧
        k.loadPage index range.start ((stval - range.start) / pageSize) proc = .ok (k₁, proc') ∧
        k' = (k₁.setProcess proc').sfenceVmaAll ∧ r = .ok ()) := by
  simp only [handlePageFault] at h
  split at h
  · obtain ⟨proc, hproc, h⟩ := Checked.bind_eq_ok.mp h
    exact ⟨proc, hproc, Or.inl (Except.ok.inj h).symm⟩
  · obtain ⟨proc, hproc, h⟩ := Checked.bind_eq_ok.mp h
    obtain ⟨found, hfound, h⟩ := Checked.bind_eq_ok.mp h
    refine ⟨proc, hproc, Or.inr ?_⟩
    cases found with
    | none =>
        obtain ⟨proc', hproc', h⟩ := Checked.bind_eq_ok.mp h
        exact Or.inl ⟨proc', hproc'⟩
    | some vmm =>
        obtain ⟨⟨k₁, proc'⟩, hload, h⟩ := Checked.bind_eq_ok.mp h
        cases h
        obtain ⟨hmem, hstart, hstop, hmissing⟩ := findMapping_eq_some hfound
        exact Or.inr ⟨vmm.1, vmm.2, k₁, proc', hmem, hstart, hstop, hmissing, hload, rfl, rfl⟩

end Kernel

end Deravel
