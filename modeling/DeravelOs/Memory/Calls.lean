import DeravelOs.Memory.Creation

/-!
# System calls and memory

Every system call keeps what holds of memory: one lemma for each call, put together from the lemmas
for each kind of change.

* `MemoryOk.callMethod`: the methods of the handlers, with the creation of processes.
* `eachCall_memoryOk`: every call of the dispatcher.
-/

namespace Deravel

variable {P : Platform} {k k' : Kernel} {proc proc' : Process} {b : Backing} {F : Set Backing}

namespace Kernel

lemma getHandler_eq_ok {index : ℕ} {handler : Handler} (h : k.getHandler index = .ok handler) :
    k.handlers[index]? = some handler := by
  simp only [getHandler] at h
  split at h
  · next hsome => rw [hsome, Except.ok.inj h]
  · cases h

namespace MemoryOk

/-- The record of the running process is written back with the address space that it had. -/
lemma setRunning (h : k.MemoryOk P F) {held : List ProcessId} (hproc : k.process held = .ok proc)
    (hid : proc'.id = proc.id) (htable : proc'.pageTable = proc.pageTable)
    (hallocated : proc'.allocated = proc.allocated) : (k.setProcess proc').MemoryOk P F := by
  obtain ⟨pid, -, -, -, hslot⟩ := process_eq_ok hproc
  exact h.setSame hslot hid htable hallocated

/-- A process that is killed has its memory until it is reaped. -/
lemma kill {α : Type} {reason : KillReason} {r : Except SyscallAction α} (h : k.MemoryOk P F)
    {held : List ProcessId} (hproc : k.process held = .ok proc)
    (hkill : (k', r) = k.kill proc' reason) (hid : proc'.id = proc.id)
    (htable : proc'.pageTable = proc.pageTable) (hallocated : proc'.allocated = proc.allocated) :
    k'.MemoryOk P F := by
  obtain ⟨rfl, -⟩ := Prod.mk.inj hkill
  have hproc' : (k.logKill proc' reason).process held = .ok proc :=
    (process_congr rfl rfl held).trans hproc
  exact h.logKill.setRunning hproc' hid htable hallocated

/-! ## Calls between processes -/

lemma exit {r : Except SyscallAction Empty} (h : k.MemoryOk P F) (hexit : k.exit = .ok (k', r)) :
    k'.MemoryOk P F := by
  obtain ⟨proc, hproc, rfl, -⟩ := exit_cases hexit
  exact h.setRunning hproc rfl rfl rfl

/-- The running process and another one are written back. -/
lemma setBoth (h : k.MemoryOk P F) {dest proc' dest' : Process} {server : ProcessId}
    (hproc : k.process [] = .ok proc) (hdest : k.process? server = some dest)
    (hne : server ≠ proc.id) (hid : proc'.id = proc.id) (htable : proc'.pageTable = proc.pageTable)
    (hallocated : proc'.allocated = proc.allocated) (hid' : dest'.id = dest.id)
    (htable' : dest'.pageTable = dest.pageTable) (hallocated' : dest'.allocated = dest.allocated) :
    ((k.setProcess proc').setProcess dest').MemoryOk P F := by
  have hdest₁ : (k.setProcess proc').process? server = some dest := by
    rw [process?_setProcess, if_neg (by rwa [hid]), hdest]
  exact (h.setRunning hproc hid htable hallocated).setSame hdest₁ hid' htable' hallocated'

lemma sendMessage (h : k.MemoryOk P F) {dest : Process} {server : ProcessId} {message : Message}
    {state : ProcessState} {place : ReturnPlace} (hproc : k.process [] = .ok proc)
    (hsend : k.Sendable proc dest server message) :
    (k.sendMessage proc dest server state message place).MemoryOk P F := by
  refine record ?_
  exact h.setBoth hproc hsend.dest hsend.ne rfl rfl rfl rfl rfl rfl

lemma ipcReceive (h : k.MemoryOk P F) {args : UserSlice}
    {r : Except SyscallAction (Option RawCapability × ℕ × ℕ × Option ProcessId)}
    (hcall : k.ipcReceive args = .ok (k', r)) : k'.MemoryOk P F := by
  obtain ⟨proc, hproc, hkill | ⟨rfl, -⟩ | ⟨message, rest, -, -, hkill | ⟨k₁, hwrite, rfl, -⟩⟩⟩ :=
    ipcReceive_cases hcall
  · exact h.kill hproc hkill rfl rfl rfl
  · exact h
  · exact h.kill hproc hkill rfl rfl rfl
  · have honly := writeToUser_onlyMemory hwrite
    have hproc₁ : k₁.process [] = .ok proc :=
      (process_congr honly.processes honly.userPid []).trans hproc
    refine record ?_
    exact (h.writeToUser hwrite).setRunning hproc₁ rfl rfl rfl

lemma ipcReply (h : k.MemoryOk P F) {result : UserSlice} {r : Except SyscallAction Unit}
    (hcall : k.ipcReply P result = .ok (k', r)) : k'.MemoryOk P F := by
  obtain ⟨k₁, proc, huses, hproc, hcases⟩ := ipcReply_cases hcall
  replace h := h.usesHeap huses
  rcases hcases with hkill | ⟨callerId, caller, -, hne, hcaller, ⟨server, -, -, hkill⟩ |
    ⟨resultBuffer, reply, -, -, -, rfl⟩ | ⟨-, ⟨reason, -, hkill⟩ | ⟨ring, declaredSize, -, rfl⟩⟩⟩
  · exact h.kill hproc hkill rfl rfl rfl
  · exact h.kill hproc hkill rfl rfl rfl
  · refine record ?_
    exact h.setBoth hproc hcaller hne rfl rfl rfl rfl rfl rfl
  · exact h.kill hproc hkill rfl rfl rfl
  · refine record ?_
    exact h.setBoth hproc hcaller hne rfl rfl rfl rfl rfl rfl

/-- The ring of an input device is one of the rings. -/
lemma mapStream_mem_rings {handler : Handler} {stream : ℕ} {ring : Backing}
    (hring : k.mapStream handler stream = .ok ring) : ring ∈ k.rings := by
  simp only [mapStream] at hring
  split at hring
  · cases hring
    exact Or.inl rfl
  · cases hring
    exact Or.inr rfl
  · cases hring

lemma ipcStream (h : k.MemoryOk P F) {cap : RawCapability} {stream : ℕ}
    {r : Except SyscallAction (ℕ × ℕ)} (hcall : k.ipcStream cap stream = .ok (k', r)) :
    k'.MemoryOk P F := by
  obtain ⟨k₁, proc, root, huses, hproc, -, hcases⟩ := ipcStream_cases hcall
  replace h := h.usesHeap huses
  rcases hcases with ⟨server, dest, message, hsend, -, -, -, rfl, -⟩ |
    ⟨handler, ring, layout, heap, -, hring, -, ⟨-, rfl, -⟩ |
      ⟨virt, phys, table, -, hphys, hmap, rfl, -⟩⟩
  · exact h.sendMessage hproc hsend
  · exact h.setRunning hproc rfl rfl rfl
  · obtain ⟨hspace, hmemory⟩ := h.running hproc
    have hmem := mapStream_mem_rings hring
    have hsize : pageSize = ring.byteSize := (h.page_size ring (Or.inl hmem)).symm
    refine sfenceVmaAll (h.setProcess ?_ (Set.Subset.trans hmemory Set.subset_union_left))
    exact hspace.mapFrames hmap hphys hsize fun v p hp => .ring ring hmem hp

/-- `shared_memory_map` for a process in a slot. -/
lemma sharedMemoryMap (h : k.MemoryOk P F) (hspace : proc.Space P k) (hmemory : proc.memory ⊆ k.counted)
    {index virt : ℕ} {handler : Handler} {heap : BuddyAllocator}
    (hhandler : k.getHandler index = .ok handler)
    (hmap : k.sharedMemoryMap handler virt { proc with heap := heap } = .ok proc') :
    proc'.Space P k ∧ proc'.memory ⊆ k.counted ∪ F := by
  have hmem := List.mem_of_getElem? (getHandler_eq_ok hhandler)
  have hpages : ∀ b ∈ k.loadedPages, b.byteSize = pageSize := fun b hb =>
    h.page_size b (Or.inr hb)
  have hheap : Process.Space P k { proc with heap := heap } := hspace
  obtain ⟨hspace', hallocated⟩ := hheap.sharedMemoryMap hpages hmem hmap
  refine ⟨hspace', ?_⟩
  rw [Process.memory, hallocated]
  exact Set.Subset.trans hmemory Set.subset_union_left

/-! ## Memory of the caller -/

/-- Pages for the running process are in the hands of the call. -/
lemma pagesFor (h : k.MemoryOk P ∅) {k₁ : Kernel} {size : ℕ} {layout : Layout} {pages : Backing}
    (hpages : k.PagesFor k₁ size layout pages proc) : k₁.MemoryOk P {pages} := by
  obtain ⟨k₀, halloc, huses⟩ := hpages.pages
  exact ((h.allocPages halloc).mono (by simp)).usesHeap huses

/-- `Process::alloc`, and the record is written back. -/
lemma allocIn (h : k.MemoryOk P {b}) (hproc : k.process [] = .ok proc) {flags : PageFlags}
    {result : Except AllocError ℕ} (halloc : proc.alloc b flags = .ok (result, proc')) :
    (k.setProcess proc').MemoryOk P {b} := by
  obtain ⟨hspace, hmemory⟩ := h.running hproc
  obtain ⟨hspace', hmemory'⟩ := hspace.alloc halloc
  refine h.setProcess hspace' fun c hc => ?_
  rcases hmemory' hc with rfl | hc
  · exact Or.inr rfl
  · exact Or.inl (hmemory hc)

lemma noRoom (h : k.MemoryOk P {b}) (hproc : k.process [] = .ok proc)
    (hnone : NoRoom k k' proc b) : k'.MemoryOk P ∅ := by
  obtain ⟨e, proc', halloc, hdrop⟩ := hnone
  exact (h.allocIn hproc halloc).dropBacking hdrop

lemma alloc (h : k.MemoryOk P ∅) {size : ℕ} {r : Except SyscallAction ℕ}
    (hcall : k.alloc size = .ok (k', r)) : k'.MemoryOk P ∅ := by
  rcases alloc_cases hcall with ⟨-, rfl | ⟨layout, e, herror⟩⟩ |
    ⟨layout, pages, k₁, proc, hpages, ⟨hnone, -⟩ | ⟨virt, proc', halloc, rfl, -⟩⟩
  · exact h
  · exact h.allocPages_error herror
  · exact (h.pagesFor hpages).noRoom hpages.proc hnone
  · exact ((h.pagesFor hpages).allocIn hpages.proc halloc).drop.sfenceVmaAll

lemma allocShared (h : k.MemoryOk P ∅) {size : ℕ} {r : Except SyscallAction (ℕ × RawCapability)}
    (hcall : k.allocShared P size = .ok (k', r)) : k'.MemoryOk P ∅ := by
  obtain ⟨layout, pages, k₁, proc, hpages, ⟨hnone, -⟩ |
    ⟨virt, proc', grantee, cap, halloc, hgrant, -⟩⟩ := allocShared_cases hcall
  · exact (h.pagesFor hpages).noRoom hpages.proc hnone
  · refine ((((h.pagesFor hpages).allocIn hpages.proc halloc).sfenceVmaAll).grantKernelCapability
      ?_ ?_ hgrant).drop
    · intro elf helf
      cases helf
    · intro b hb
      cases hb
      exact Or.inr rfl

lemma mapShared (h : k.MemoryOk P F) {cap : RawCapability} {r : Except SyscallAction (ℕ × ℕ)}
    (hcall : k.mapShared cap = .ok (k', r)) : k'.MemoryOk P F := by
  obtain ⟨k₁, proc, root, huses, hproc, -, hcases⟩ := mapShared_cases hcall
  replace h := h.usesHeap huses
  rcases hcases with hkill | ⟨handler, length, padded, layout, heap, -, hhandler, -, -, -,
    ⟨-, rfl, -⟩ | ⟨virt, proc', -, hmap, rfl, -⟩⟩
  · exact h.kill hproc hkill rfl rfl rfl
  · exact h.setRunning hproc rfl rfl rfl
  · obtain ⟨hspace, hmemory⟩ := h.running hproc
    obtain ⟨hspace', hmemory'⟩ := h.sharedMemoryMap hspace hmemory hhandler hmap
    exact (h.setProcess hspace' hmemory').sfenceVmaAll

/-- `Process::dealloc`: the memory is in the hands of the call. -/
lemma deallocIn (h : k.MemoryOk P ∅) (hproc : k.process [] = .ok proc) {ptr : ℕ}
    (hdealloc : proc.dealloc ptr = .ok (some (proc', b))) :
    (k.setProcess proc').MemoryOk P {b} := by
  obtain ⟨hspace, hmemory⟩ := h.running hproc
  obtain ⟨hspace', hb, hsub⟩ := hspace.dealloc hdealloc
  have hheld : k.MemoryOk P {b} := (h.insert_counted (hmemory hb)).mono (by simp)
  exact hheld.setProcess hspace' ((hsub.trans hmemory).trans Set.subset_union_left)

lemma free (h : k.MemoryOk P ∅) {ptr : ℕ} {r : Except SyscallAction Unit}
    (hcall : k.free ptr = .ok (k', r)) : k'.MemoryOk P ∅ := by
  obtain ⟨proc, hproc, ⟨-, hkill⟩ | ⟨proc', b, hdealloc, hdrop, -⟩⟩ := free_cases hcall
  · exact h.kill hproc hkill rfl rfl rfl
  · exact (h.deallocIn hproc hdealloc).dropBacking hdrop

lemma log (h : k.MemoryOk P F) {message : UserSlice} {level : ℕ} {r : Except SyscallAction Unit}
    (hcall : k.log message level = .ok (k', r)) : k'.MemoryOk P F := by
  obtain ⟨k₁, proc, huses, hproc, hcases⟩ := log_cases hcall
  replace h := h.usesHeap huses
  rcases hcases with hkill | hkill | ⟨rfl, -⟩
  · exact h.kill hproc hkill rfl rfl rfl
  · exact h.kill hproc hkill rfl rfl rfl
  · exact h

/-! ## Methods -/

/-- `read_mapped`: a mapping, and a handler for it. -/
lemma readMapped (h : k.MemoryOk P F) {args reply : List UInt8} {sender : ProcessId}
    (hcall : k.readMapped P args sender = .ok (reply, k')) : k'.MemoryOk P F := by
  simp only [Deravel.Kernel.readMapped] at hcall
  split at hcall
  · cases hcall
  · split at hcall
    · cases hcall
    · obtain ⟨-, hcall⟩ := ensure_bind_eq_ok.mp hcall
      obtain ⟨-, hcall⟩ := ensure_bind_eq_ok.mp hcall
      obtain ⟨-, hcall⟩ := ensure_bind_eq_ok.mp hcall
      obtain ⟨⟨cap, k₁⟩, hgrant, hcall⟩ := Checked.bind_eq_ok.mp hcall
      cases hcall
      refine h.addMapping.grantKernelCapability ?_ ?_ hgrant
      · intro elf helf
        cases helf
      · intro b hb
        cases hb

lemma handOver (h : k.MemoryOk P F) {sender child : ProcessId} {cap : RawCapability}
    (hhand : Deravel.Kernel.handOver P sender child k cap = .ok k') : k'.MemoryOk P F := by
  obtain ⟨certifier, hcertifier, hhand⟩ := Checked.bind_eq_ok.mp hhand
  obtain ⟨hself, hhand⟩ := ensure_bind_eq_ok.mp hhand
  obtain ⟨before, -, hhand⟩ := Checked.bind_eq_ok.mp hhand
  obtain ⟨after, -, hstore⟩ := Checked.bind_eq_ok.mp hhand
  exact h.storeCertificate (hself ▸ hcertifier) hstore

/-- `Elf::call_method` -/
lemma spawnerCallMethod (h : k.MemoryOk P ∅) {elf : Elf} (helf : elf ∈ P.elves)
    {args reply : List UInt8} {sender : ProcessId}
    (hcall : k.spawnerCallMethod P elf args sender = .ok (reply, k')) : k'.MemoryOk P ∅ := by
  obtain ⟨⟨child, exported, k₁⟩, hreserve, hcall⟩ := Checked.bind_eq_ok.mp hcall
  obtain ⟨k₂, hstore, hcall⟩ := Checked.bind_eq_ok.mp hcall
  obtain ⟨caps, -, hcall⟩ := Checked.bind_eq_ok.mp hcall
  obtain ⟨k₃, hfold, hcall⟩ := Checked.bind_eq_ok.mp hcall
  obtain ⟨k₄, hcreate, hcall⟩ := Checked.bind_eq_ok.mp hcall
  cases hcall
  obtain ⟨pid, -, hreserve⟩ := Checked.bind_eq_ok.mp hreserve
  obtain ⟨cap, hnew, hreserve⟩ := Checked.bind_eq_ok.mp hreserve
  cases hreserve
  rw [RawCapability.new, dif_pos (by decide)] at hnew
  obtain rfl := Except.ok.inj hnew
  have h₁ : MemoryOk P { k with processesReserved := k.processesReserved + 1 } ∅ :=
    h.congr rfl rfl rfl rfl rfl rfl rfl fun _ ht => ht
  have h₂ := h₁.storeCertificate (RawCapability.certifier_slot _ _) hstore
  have h₃ := Checked.foldlM_keeps (fun s : Kernel => s.MemoryOk P ∅) h₂
    (fun cap _ s s' hs hstep => hs.handOver hstep) hfold
  exact h₃.createProcess helf hcreate

/-- **The methods of the handlers keep what holds of memory.** -/
theorem callMethod (h : k.MemoryOk P ∅) {handler : Handler} (hhandler : handler ∈ k.handlers)
    {method : ℕ} {args reply : List UInt8} {sender : ProcessId}
    (hcall : k.callMethod P handler method args sender = .ok (reply, k')) : k'.MemoryOk P ∅ := by
  have hdriver : ∀ {methods : List (List ArgType)},
      k.driverMethod P methods method args = .ok (reply, k') → k'.MemoryOk P ∅ :=
    fun hcall => driverMethod_eq_ok hcall ▸ h
  have hgrant : ∀ {b : Backing}, b ∈ k.counted →
      k.grantSharedMemory P b sender = .ok (reply, k') → k'.MemoryOk P ∅ := by
    intro b hb hcall
    obtain ⟨⟨cap, k₁⟩, hgrant, hcall⟩ := Checked.bind_eq_ok.mp hcall
    cases hcall
    refine h.grantKernelCapability ?_ ?_ hgrant
    · intro elf helf
      cases helf
    · intro c hc
      cases hc
      exact Or.inl hb
  cases handler with
  | display =>
      simp only [Deravel.Kernel.callMethod] at hcall
      split at hcall
      · exact hgrant (Or.inr (Or.inr rfl)) hcall
      · split at hcall
        · exact hgrant (Or.inr (Or.inl rfl)) hcall
        · exact hdriver hcall
  | keyboard => exact hdriver hcall
  | mouse => exact hdriver hcall
  | drive =>
      simp only [Deravel.Kernel.callMethod] at hcall
      split at hcall
      · exact h.readMapped hcall
      · exact hdriver hcall
  | network => exact hdriver hcall
  | shutdown =>
      simp only [Deravel.Kernel.callMethod] at hcall
      split at hcall
      · cases hcall
      · cases hcall
  | spawner elf => exact h.spawnerCallMethod (h.elves elf hhandler) hcall
  | sharedMemory backing => cases hcall
  | mapping index => cases hcall

lemma ipcCall (h : k.MemoryOk P ∅) {cap : RawCapability} {method : ℕ}
    {argsBuffer resultBuffer : UserSlice} {r : Except SyscallAction ℕ}
    (hcall : k.ipcCall P cap method argsBuffer resultBuffer = .ok (k', r)) : k'.MemoryOk P ∅ := by
  obtain ⟨k₀, proc, root, huses, hproc, -, hcases⟩ := ipcCall_cases hcall
  replace h := h.usesHeap huses
  rcases hcases with hkill | ⟨server, dest, message, hsend, -, -, -, rfl, -⟩ |
    ⟨handler, args, sender, reply, k₁, -, hhandler, -, hmethod, ⟨proc', hproc', hkill⟩ |
      ⟨hwrite, -⟩⟩
  · exact h.kill hproc hkill rfl rfl rfl
  · exact h.sendMessage hproc hsend
  · have h₁ := h.callMethod (List.mem_of_getElem? (getHandler_eq_ok hhandler)) hmethod
    exact h₁.kill hproc' hkill rfl rfl rfl
  · have h₁ := h.callMethod (List.mem_of_getElem? (getHandler_eq_ok hhandler)) hmethod
    exact h₁.writeToUser hwrite

end MemoryOk

/-- **Every call keeps what holds of memory.** -/
theorem eachCall_memoryOk (h : k.MemoryOk P ∅) : EachCall P k fun k' _ => k'.MemoryOk P ∅ where
  registers hk := hk.congr rfl rfl rfl rfl rfl rfl rfl fun _ ht => ht
  userErr := h
  yield := h
  exit := h.exit
  ipcCall := h.ipcCall
  ipcReceive := h.ipcReceive
  ipcReply := h.ipcReply
  ipcStream := h.ipcStream
  alloc _ := h.alloc
  allocShared _ := h.allocShared
  mapShared := h.mapShared
  free _ _ := h.free
  log := h.log

end Kernel

end Deravel
