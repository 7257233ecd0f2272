import DeravelOs.Ipc.System
import DeravelOs.Memory.System

/-!
# Translations that the hart may still have

The hart may use any translation that it has met in the page table of the running process since the
last `sfence_vma_all`.  All calls that change this table fence before they return to user mode, but
for `free`: it returns with the translations of what it has just given back.

* `Kernel.NoStale`: the hart has no translation that the process has not.
* `ReachableWith.noStale`: this holds in user mode, in every run without such a `free`.
-/

namespace Deravel

variable {P : Platform} {k k' : Kernel} {proc proc' : Process} {mode mode' : Mode}
  {s s' : Kernel × Mode} {allowed : Kernel × Mode → Option Cause → Prop}

/-- Every translation of a table is one of the other table. -/
def PageTable.Within (t t' : PageTable) : Prop :=
  ∀ v < virtualAddresses.stop, ∀ found, t.translate v = some found → t'.translate v = some found

namespace PageTable.Within

variable {t t' t'' : PageTable}

lemma refl (t : PageTable) : t.Within t := fun _ _ _ h => h

lemma trans (h : t.Within t') (h' : t'.Within t'') : t.Within t'' := fun v hv found hfound =>
  h' v hv found (h v hv found hfound)

end PageTable.Within

namespace Kernel

/-- Every translation that the hart may have is one of the page table of the running process. -/
def NoStale (k : Kernel) : Prop :=
  ∃ proc, k.process [] = .ok proc ∧ ∀ t ∈ k.hart, t.Within proc.pageTable

/-- The running process asks for a `free` of memory that it has. -/
def Frees (k : Kernel) : Prop :=
  k.registers .a6 = 8 ∧ ∃ proc, k.process [] = .ok proc ∧ ∃ b,
    proc.allocated.find? (fun entry => entry.1 = k.registers .a0) = some (k.registers .a0, b) ∧
      0 < b.byteSize

/-! ## The running process -/

lemma process_iff : k.process [] = .ok proc ↔
    ∃ pid, k.userPid = some pid ∧ pid.asU16 < processCount ∧ k.process? pid = some proc := by
  constructor
  · intro h
    obtain ⟨pid, hpid, hlt, -, hslot⟩ := process_eq_ok h
    exact ⟨pid, hpid, hlt, hslot⟩
  · rintro ⟨pid, hpid, hlt, hslot⟩
    refine Checked.bind_eq_ok.mpr ⟨pid, pid_eq_ok.mpr hpid, ?_⟩
    refine Checked.bind_eq_ok.mpr ⟨some proc, ?_, rfl⟩
    exact ensure_bind_eq_ok.mpr ⟨hlt, ensure_bind_eq_ok.mpr ⟨List.not_mem_nil, by rw [hslot]; rfl⟩⟩

/-- The running process is found where it was written back. -/
lemma process_setProcess (hslots : k.Slots) (hproc : k.process [] = .ok proc)
    (hid : proc'.id = proc.id) : (k.setProcess proc').process [] = .ok proc' := by
  obtain ⟨pid, hpid, hlt, hslot⟩ := process_iff.mp hproc
  obtain rfl : pid = proc.id := ProcessId.ext (hslots hslot).symm
  refine process_iff.mpr ⟨proc.id, hpid, hlt, ?_⟩
  rw [process?_setProcess, if_pos hid.symm]

lemma userPid_of_process (hslots : k.Slots) (hproc : k.process [] = .ok proc) :
    k.userPid = some proc.id := by
  obtain ⟨pid, hpid, -, hslot⟩ := process_iff.mp hproc
  rw [hpid, ProcessId.ext (hslots hslot).symm]

namespace NoStale

/-- Only the processes and the hart matter. -/
lemma congr (h : k.NoStale) (hprocesses : k'.processes = k.processes)
    (hpid : k'.userPid = k.userPid) (hhart : k'.hart = k.hart) : k'.NoStale := by
  obtain ⟨proc, hproc, hwithin⟩ := h
  refine ⟨proc, (process_congr hprocesses hpid []).trans hproc, ?_⟩
  rw [hhart]
  exact hwithin

lemma onlyMemory (h : k.NoStale) (honly : k.OnlyMemory k') : k'.NoStale :=
  h.congr honly.processes honly.userPid honly.hart

/-- The record of the running process is written back with the translations that it had. -/
lemma setRunning (h : k.NoStale) (proc' : Process) (hslots : k.Slots) (hproc : k.process [] = .ok proc)
    (hid : proc'.id = proc.id) (hwithin : proc.pageTable.Within proc'.pageTable) :
    (k.setProcess proc').NoStale := by
  obtain ⟨proc₁, hproc₁, hhart⟩ := h
  rw [hproc] at hproc₁
  obtain rfl := Except.ok.inj hproc₁
  refine ⟨proc', process_setProcess hslots hproc hid, ?_⟩
  simp only [setProcess, userPid_of_process hslots hproc, hid, if_true]
  intro t ht
  rcases List.mem_cons.mp ht with rfl | ht
  · exact .refl _
  · exact (hhart t ht).trans hwithin

/-- Another process is written back. -/
lemma setOther (h : k.NoStale) (hslots : k.Slots) (hne : k.userPid ≠ some proc'.id) :
    (k.setProcess proc').NoStale := by
  obtain ⟨proc, hproc, hhart⟩ := h
  have hpid := userPid_of_process hslots hproc
  refine ⟨proc, ?_, ?_⟩
  · obtain ⟨pid, hpid', hlt, hslot⟩ := process_iff.mp hproc
    refine process_iff.mpr ⟨pid, hpid', hlt, ?_⟩
    rw [process?_setProcess, if_neg, hslot]
    rintro rfl
    exact hne hpid'
  · simp only [setProcess, if_neg hne]
    exact hhart

/-- **A fence after a change.**  The hart has only the table of the running process. -/
lemma fence (proc' : Process) (hslots : k.Slots) (hproc : k.process [] = .ok proc)
    (hid : proc'.id = proc.id) :
    (k.setProcess proc').sfenceVmaAll.NoStale := by
  refine ⟨proc', (process_congr rfl rfl []).trans (process_setProcess hslots hproc hid), ?_⟩
  intro t ht
  simp only [sfenceVmaAll, setProcess, userPid_of_process hslots hproc, hid, if_true,
    List.take_succ_cons, List.take_zero, List.mem_singleton] at ht
  subst ht
  exact .refl _

end NoStale

/-! ## System calls -/

lemma callMethod_hart {handler : Handler} {method : ℕ} {args reply : List UInt8}
    {sender : ProcessId} (hk : k.Ready) (hinv : Rendezvous.Inv k.ipc)
    (hproc : k.process [] = .ok proc)
    (h : k.callMethod P handler method args sender = .ok (reply, k')) : k'.hart = k.hart := by
  rcases callMethod_cases h with rfl | ⟨backing, -, hmemory⟩ | ⟨sectorOffset, size, -, hmemory⟩ |
    ⟨elf, child, caps, k₁, -, hchild, hmemory, hcreate⟩
  · rfl
  · exact hmemory.hart
  · exact hmemory.hart
  · -- the number of the new process is not in use
    obtain ⟨k₂, proc', hmemory₂, hfresh, -, rfl⟩ := createProcess_frame hcreate
    have hall := hmemory.trans hmemory₂
    have hused : proc.id.asU16 ≤ k.processesReserved :=
      hinv.used (ipc_peer (hk.process hproc).2.1)
    have hnumber := ProcessId.new_next hk.reserved hchild
    have hne : k₂.userPid ≠ some proc'.id := by
      rw [hall.userPid, hfresh.id]
      intro heq
      have hsame : some proc.id = some child := (hk.process hproc).1.symm.trans heq
      rw [Option.some.inj hsame, hnumber] at hused
      omega
    simp only [setProcess, if_neg hne]
    exact hall.hart

section Calls

variable (h : k.NoStale) (hk : k.Ready)

include h hk

lemma ipcCall_noStale (hinv : Rendezvous.Inv k.ipc) {cap : RawCapability} {method : ℕ}
    {argsBuffer resultBuffer : UserSlice} {r : Except SyscallAction ℕ}
    (hcall : k.ipcCall P cap method argsBuffer resultBuffer = .ok (k', r)) (hr : actionOf r = none) :
    k'.NoStale := by
  obtain ⟨k₁, proc, root, huses, hproc, -, hcases⟩ := ipcCall_cases hcall
  replace h := h.onlyMemory huses.onlyMemory
  replace hk := huses.onlyMemory.ready hk
  rw [← huses.onlyMemory.ipc] at hinv
  rcases hcases with hkill | ⟨server, dest, message, -, -, -, -, -, rfl⟩ |
    ⟨handler, args, sender, reply, k₂, -, -, -, hmethod, ⟨proc', -, hkill⟩ | ⟨hwrite, -⟩⟩
  · cases hkill
    cases hr
  · cases hr
  · cases hkill
    cases hr
  · obtain ⟨proc₁, hproc₁, hhart⟩ := h
    obtain ⟨-, hpid, hothers⟩ := callMethod_follows hk hmethod
    obtain ⟨pid, hpid₁, hlt, hslot⟩ := process_iff.mp hproc₁
    have hused : pid.asU16 ≤ k₁.processesReserved := hinv.used (ipc_peer hslot)
    have h₂ : k₂.NoStale := by
      refine ⟨proc₁, process_iff.mpr ⟨pid, hpid.trans hpid₁, hlt, ?_⟩, ?_⟩
      · rw [hothers pid hused, hslot]
      · rw [callMethod_hart hk hinv hproc₁ hmethod]
        exact hhart
    exact h₂.onlyMemory (writeToUser_onlyMemory hwrite)

lemma ipcReceive_noStale {args : UserSlice}
    {r : Except SyscallAction (Option RawCapability × ℕ × ℕ × Option ProcessId)}
    (hcall : k.ipcReceive args = .ok (k', r)) (hr : actionOf r = none) : k'.NoStale := by
  obtain ⟨proc, hproc, hkill | ⟨rfl, -⟩ | ⟨message, rest, -, -, hkill | ⟨k₁, hwrite, rfl, -⟩⟩⟩ :=
    ipcReceive_cases hcall
  · cases hkill
    cases hr
  · exact h
  · cases hkill
    cases hr
  · have honly := writeToUser_onlyMemory hwrite
    have hproc₁ : k₁.process [] = .ok proc :=
      (process_congr honly.processes honly.userPid []).trans hproc
    have hslots₁ : k₁.Slots := hk.slots.of_processes honly.processes
    have hset := (h.onlyMemory honly).setRunning { proc with
      messages := rest, currentlyServing := some message.sender } hslots₁ hproc₁ rfl (.refl _)
    exact hset.congr rfl rfl rfl

/-- An answer changes no page table. -/
lemma sendReply_noStale {caller : Process} {callerId : ProcessId} {state : ProcessState}
    {answer : Answer} (hproc : k.process [] = .ok proc) (hne : callerId ≠ proc.id)
    (hcaller : k.process? callerId = some caller) :
    (k.sendReply proc caller state answer).NoStale := by
  have hfirst := h.setRunning { proc with currentlyServing := none } hk.slots hproc rfl (.refl _)
  have hsecond : ((k.setProcess { proc with currentlyServing := none }).setProcess
      { caller with state := state }).NoStale := by
    refine hfirst.setOther (hk.slots.setProcess _) ?_
    show k.userPid ≠ some caller.id
    rw [userPid_of_process hk.slots hproc, hk.id hcaller]
    exact fun heq => hne (Option.some.inj heq).symm
  exact hsecond.congr rfl rfl rfl

lemma ipcReply_noStale {result : UserSlice} {r : Except SyscallAction Unit}
    (hcall : k.ipcReply P result = .ok (k', r)) (hr : actionOf r = none) : k'.NoStale := by
  obtain ⟨k₁, proc, huses, hproc, hcases⟩ := ipcReply_cases hcall
  replace h := h.onlyMemory huses.onlyMemory
  replace hk := huses.onlyMemory.ready hk
  rcases hcases with hkill | ⟨callerId, caller, -, hne, hcaller, ⟨server, -, -, hkill⟩ |
    ⟨resultBuffer, reply, -, -, -, rfl⟩ | ⟨-, ⟨reason, -, hkill⟩ | ⟨ring, declaredSize, -, rfl⟩⟩⟩
  · cases hkill
    cases hr
  · cases hkill
    cases hr
  · exact sendReply_noStale h hk hproc hne hcaller
  · cases hkill
    cases hr
  · exact sendReply_noStale h hk hproc hne hcaller

omit h in
lemma ipcStream_noStale {cap : RawCapability} {stream : ℕ} {r : Except SyscallAction (ℕ × ℕ)}
    (hcall : k.ipcStream cap stream = .ok (k', r)) (hr : actionOf r = none) : k'.NoStale := by
  obtain ⟨k₁, proc, root, huses, hproc, -, ⟨server, dest, message, -, -, -, -, -, rfl⟩ |
    ⟨handler, ring, layout, heap, -, -, -, ⟨-, -, rfl⟩ | ⟨virt, phys, table, -, -, -, rfl, -⟩⟩⟩ :=
    ipcStream_cases hcall
  · cases hr
  · cases hr
  · exact .fence _ (huses.onlyMemory.ready hk).slots hproc rfl

omit h in
/-- Pages that were allocated are mapped, and there is a fence. -/
lemma pagesFor_fence {k₁ : Kernel} {size virt : ℕ} {layout : Layout} {pages : Backing}
    {flags : PageFlags} (hpages : k.PagesFor k₁ size layout pages proc)
    (halloc : proc.alloc pages flags = .ok (.ok virt, proc')) :
    (k₁.setProcess proc').sfenceVmaAll.NoStale :=
  .fence proc' (hk.slots.of_processes hpages.onlyMemory.processes) hpages.proc
    (Process.alloc_onlySpace halloc).id

omit h in
lemma alloc_noStale {size : ℕ} {r : Except SyscallAction ℕ} (hcall : k.alloc size = .ok (k', r))
    (hr : actionOf r = none) : k'.NoStale := by
  rcases alloc_cases hcall with ⟨rfl, -⟩ |
    ⟨layout, pages, k₁, proc, hpages, ⟨-, rfl⟩ | ⟨virt, proc', halloc, rfl, -⟩⟩
  · cases hr
  · cases hr
  · exact pagesFor_fence hk hpages halloc

omit h in
lemma allocShared_noStale {size : ℕ} {r : Except SyscallAction (ℕ × RawCapability)}
    (hcall : k.allocShared P size = .ok (k', r)) (hr : actionOf r = none) : k'.NoStale := by
  obtain ⟨layout, pages, k₁, proc, hpages, ⟨-, rfl⟩ |
    ⟨virt, proc', grantee, cap, halloc, hgrant, -⟩⟩ := allocShared_cases hcall
  · cases hr
  · have honly := grantKernelCapability_onlyMemory hgrant
    exact (pagesFor_fence hk hpages halloc).congr honly.processes honly.userPid honly.hart

omit h in
lemma mapShared_noStale {cap : RawCapability} {r : Except SyscallAction (ℕ × ℕ)}
    (hcall : k.mapShared cap = .ok (k', r)) (hr : actionOf r = none) : k'.NoStale := by
  obtain ⟨k₁, proc, root, huses, hproc, -, hkill | ⟨handler, length, padded, layout, heap, -, -, -,
    -, -, ⟨-, -, rfl⟩ | ⟨virt, proc', -, hmap, rfl, -⟩⟩⟩ := mapShared_cases hcall
  · cases hkill
    cases hr
  · cases hr
  · exact .fence _ (huses.onlyMemory.ready hk).slots hproc (sharedMemoryMap_onlySpace hmap).id

omit hk in
lemma log_noStale {message : UserSlice} {level : ℕ} {r : Except SyscallAction Unit}
    (hcall : k.log message level = .ok (k', r)) (hr : actionOf r = none) : k'.NoStale := by
  obtain ⟨k₁, proc, huses, hproc, hkill | hkill | ⟨rfl, -⟩⟩ := log_cases hcall
  · cases hkill
    cases hr
  · cases hkill
    cases hr
  · exact h.onlyMemory huses.onlyMemory

/-- `free` of nothing: no byte is unmapped. -/
lemma free_noStale (hmemory : k.MemoryOk P ∅) (hfrees : ¬ k.Frees) (ha6 : k.registers .a6 = 8)
    {r : Except SyscallAction Unit} (hcall : k.free (k.registers .a0) = .ok (k', r))
    (hr : actionOf r = none) : k'.NoStale := by
  obtain ⟨proc, hproc, ⟨-, hkill⟩ | ⟨proc', b, hdealloc, hdrop, -⟩⟩ := free_cases hcall
  · cases hkill
    cases hr
  · obtain ⟨slot, phys, table, heap, hfind, -, -, hunmap, -, rfl⟩ := Process.dealloc_cases hdealloc
    have hzero : b.byteSize = 0 := by
      by_contra hne
      exact hfrees ⟨ha6, proc, hproc, b, hfind, Nat.pos_of_ne_zero hne⟩
    have hbuilt := (hmemory.running hproc).1.space.built
    have hwithin : proc.pageTable.Within table := by
      intro v hv found hfound
      rw [(PageTable.unmap_translate hbuilt hunmap).2 v hv (by simp [hzero])]
      exact hfound
    exact (h.setRunning { proc with
      allocated := swapRemove proc.allocated slot
      pageTable := table
      heap := heap } hk.slots hproc rfl hwithin).onlyMemory (dropBacking_onlyMemory hdrop)

/-- **A call without `free` leaves nothing stale when it returns.** -/
theorem eachCall_noStale (hinv : Rendezvous.Inv k.ipc) (hmemory : k.MemoryOk P ∅)
    (hfrees : ¬ k.Frees) : EachCall P k fun k' action => action = none → k'.NoStale where
  registers hq hr := (hq hr).congr rfl rfl rfl
  userErr hr := by cases hr
  yield hr := by cases hr
  exit hcall hr := by
    obtain ⟨proc, -, -, rfl⟩ := exit_cases hcall
    cases hr
  ipcCall := ipcCall_noStale h hk hinv
  ipcReceive := ipcReceive_noStale h hk
  ipcReply := ipcReply_noStale h hk
  ipcStream := ipcStream_noStale hk
  alloc _ := alloc_noStale hk
  allocShared _ := allocShared_noStale hk
  mapShared := mapShared_noStale hk
  free ha6 _ := free_noStale h hk hmemory hfrees ha6
  log := log_noStale h

end Calls

/-! ## Traps -/

lemma handlePageFault_noStale (hmemory : k.MemoryOk P ∅) {stval : ℕ}
    {r : Except SyscallAction Unit} (hfault : k.handlePageFault stval = .ok (k', r))
    (hr : actionOf r = none) : k'.NoStale := by
  obtain ⟨proc, hproc, hkill | ⟨proc', hagain⟩ |
    ⟨range, index, k₁, proc', -, -, -, -, hload, rfl, -⟩⟩ := handlePageFault_cases hfault
  · cases hkill
    cases hr
  · exact absurd hagain (hmemory.process_locked hproc)
  · obtain ⟨mapping, contents, layout, page, k₂, k₃, phys, table, -, -, halloc, huses, -, -, rfl,
      rfl⟩ := loadPage_cases hload
    have honly := (allocPages_onlyMemory halloc).trans huses.onlyMemory
    have hproc₃ : k₃.process [] = .ok proc :=
      (process_congr honly.processes honly.userPid []).trans hproc
    exact .fence _ (hmemory.slots.of_processes honly.processes) hproc₃ rfl

/-- **A trap without `free` leaves nothing stale when it returns to user mode.** -/
theorem onUserTrap_noStale (h : k.NoStale) (hk : k.Ready) (hinv : Rendezvous.Inv k.ipc)
    (hmemory : k.MemoryOk P ∅) {cause : Cause} (hfrees : cause = .userEnvCall → ¬ k.Frees)
    (htrap : k.onUserTrap P cause = .ok (k', .user)) : k'.NoStale := by
  obtain ⟨k₁, r, himpl, ⟨rfl, rfl, -⟩ | ⟨proc, -, hmode, -⟩⟩ := onUserTrap_cases htrap
  · rcases onUserTrapImpl_cases himpl with ⟨hcause, k₂, r₂, hcall, hcases⟩ | ⟨stores, -, rfl, -⟩ |
      ⟨stval, -, hfault⟩
    · have heach := dispatchSyscall_rule (eachCall_noStale h hk hinv hmemory (hfrees hcause)) hcall
      rcases hcases with ⟨sepc, rfl, rfl, -⟩ | ⟨err, rfl, -, hr⟩ | ⟨proc, pc, rfl, -, -, hr⟩
      · exact (heach rfl).congr rfl rfl rfl
      · cases hr
      · cases hr
    · exact h.congr rfl rfl rfl
    · exact handlePageFault_noStale hmemory hfault rfl
  · cases hmode

/-! ## The scheduler -/

/-- A process that is resumed is alone on the hart. -/
lemma resumeProcess_noStale {next : Process} (hslots : k.Slots)
    (hnext : k.process? next.id = some next) (hlt : next.id.asU16 < processCount)
    (hresume : k.resumeProcess next = .ok (k', .ok ())) : k'.NoStale := by
  have hproc : (k.setUserspaceProcess next).process [] = .ok next :=
    process_iff.mpr ⟨next.id, rfl, hlt, hnext⟩
  have hslots₁ : (k.setUserspaceProcess next).Slots := hslots
  have h₁ : (k.setUserspaceProcess next).NoStale := by
    refine ⟨next, hproc, fun t ht => ?_⟩
    obtain rfl := List.mem_singleton.mp ht
    exact .refl _
  rcases resumeProcess_cases hresume with ⟨-, -, rfl⟩ |
    ⟨reply, resultBuffer, -, ⟨hr, -⟩ | ⟨k₁, hwrite, -, rfl⟩⟩ |
    ⟨ring, declaredSize, handler, length, layout, virt, heap, k₁, next', -, huses, -, -, -, -, hmap, -,
      rfl⟩
  · exact h₁.congr rfl rfl rfl
  · cases hr
  · have honly := writeToUser_onlyMemory hwrite
    have hproc₁ : k₁.process [] = .ok next :=
      (process_congr honly.processes honly.userPid []).trans hproc
    have hset := (h₁.onlyMemory honly).setRunning
      { next with registers := Function.update next.registers .a0 reply.length, state := .runnable }
      (hslots₁.of_processes honly.processes) hproc₁ rfl (.refl _)
    exact hset.congr rfl rfl rfl
  · rw [← huses.process] at hproc
    have hset := NoStale.fence { next' with
      registers := Function.update (Function.update next'.registers .a0 virt) .a1 declaredSize
      state := .runnable } (hslots₁.of_processes huses.onlyMemory.processes) hproc
      (sharedMemoryMap_onlySpace hmap).id
    exact hset.congr rfl rfl rfl

/-- **Nothing is stale when the scheduler returns to a process.** -/
theorem scheduleUserspace_noStale (hmemory : k.MemoryOk P ∅)
    (hturn : k.scheduleUserspace = .ok (k', .user)) : k'.NoStale := by
  obtain ⟨k₁, next, k₂, r, hfind, hresume, ⟨rfl, rfl, -⟩ | ⟨err, proc, -, -, -, hmode⟩⟩ :=
    scheduleUserspace_cases hturn
  · obtain ⟨h₁, hnext⟩ := hmemory.findRunnableProcess hfind
    exact resumeProcess_noStale h₁.slots hnext (h₁.count _ _ hnext) hresume
  · cases hmode

end Kernel

/-! ## Runs -/

/-- The states that the system reaches by steps that are allowed in the state before them. -/
inductive ReachableWith (P : Platform) (allowed : Kernel × Mode → Option Cause → Prop) :
    Kernel × Mode → Prop
  | main {k : Kernel} (oracle : Oracle) (h : main P oracle = .ok k) :
      ReachableWith P allowed (k, .schedule)
  | step {s s' : Kernel × Mode} {cause : Option Cause} (reachable : ReachableWith P allowed s)
      (hallowed : allowed s cause) (step : Step P s cause s') : ReachableWith P allowed s'

lemma ReachableWith.reachable (h : ReachableWith P allowed s) : Reachable P s := by
  induction h with
  | main oracle hmain => exact .main oracle hmain
  | step _ _ hstep ih => exact .step ih hstep

/-- What is played is reached by allowed steps, if its moves are always allowed. -/
lemma play_reachableWith {allowed : Kernel × Mode → Option Cause → Prop} {oracle : Oracle}
    {moves : List Move} (hallowed : ∀ move ∈ moves, ∀ s, allowed s move.cause)
    (hplay : play P oracle moves = some s) : ReachableWith P allowed s := by
  obtain ⟨k, hmain, h⟩ := Option.bind_eq_some_iff.mp hplay
  have hstart : ReachableWith P allowed (k, .schedule) :=
    .main oracle (Checked.toOption_eq_some.mp hmain)
  clear hplay hmain
  generalize (k, Mode.schedule) = start at h hstart
  induction moves generalizing start with
  | nil =>
      cases h
      exact hstart
  | cons move rest ih =>
      rw [List.foldlM_cons] at h
      obtain ⟨next, hnext, h⟩ := Option.bind_eq_some_iff.mp h
      obtain ⟨hmove, hrest⟩ := List.forall_mem_cons.mp hallowed
      exact ih hrest next h (.step hstart (hmove start) (Move.next_step hnext))

/-- The step is not a `free` of memory that the process has. -/
def KeepsMemory (s : Kernel × Mode) (cause : Option Cause) : Prop :=
  cause = some .userEnvCall → ¬ s.1.Frees

/-- One step of the system. -/
lemma Step.keepsNoStale {cause : Option Cause} (hreachable : Reachable P (k, mode))
    (h : mode = .user → k.NoStale) (hkeeps : KeepsMemory (k, mode) cause)
    (hstep : Step P (k, mode) cause (k', .user)) : k'.NoStale := by
  have horder := hreachable.inOrder
  have hmemory := hreachable.memoryOk
  cases hstep with
  | user huser =>
      rw [huser.same]
      exact (h rfl).congr rfl rfl rfl
  | @trap _ _ _ cause oracle htrap =>
      have horacle := horder.withOracle oracle
      have hstart : Kernel.NoStale { k with oracle := oracle } := (h rfl).congr rfl rfl rfl
      refine Kernel.onUserTrap_noStale hstart horacle.ready horacle.inv
        (hmemory.withOracle oracle) ?_ htrap
      rintro rfl
      exact hkeeps rfl
  | schedule oracle hturn =>
      exact Kernel.scheduleUserspace_noStale (hmemory.withOracle oracle) hturn

/-- **No stale translation.**  `free` unmaps pages and has no fence.  In every run without a `free` of
memory that the process has, whenever a process runs, every translation that the hart may have from the
tables that it has walked since the last fence is one of the page table of that process.  All other
calls, the switches between processes and the page faults may come in any order. -/
theorem ReachableWith.noStale (h : ReachableWith P KeepsMemory (k, .user)) : k.NoStale := by
  suffices hall : ∀ s, ReachableWith P KeepsMemory s → s.2 = .user → s.1.NoStale from
    hall _ h rfl
  intro s hs
  induction hs with
  | main oracle hmain =>
      intro hmode
      cases hmode
  | @step s s' cause reachable hallowed hstep ih =>
      obtain ⟨k, mode⟩ := s
      obtain ⟨k', mode'⟩ := s'
      rintro (rfl : mode' = .user)
      exact hstep.keepsNoStale reachable.reachable ih hallowed

/-- A move of a process that does not ask for a `free`. -/
lemma ReachableWith.move {oracle : Oracle} {move : Move} (h : ReachableWith P KeepsMemory s)
    (hcall : s.1.registers .a6 ≠ 8) (hnext : Move.next P oracle s move = some s') :
    ReachableWith P KeepsMemory s' := by
  exact .step h (fun _ hfrees => hcall hfrees.1) (Move.next_step hnext)

set_option maxRecDepth 10000 in
/-- Nothing is stale after a process of a small machine has allocated a page. -/
theorem ReachableWith.noStale_alloc : ∃ k, ReachableWith .small KeepsMemory (k, .user) ∧
    k.registers .a0 = 0x3ffc000000 ∧ k.NoStale := by
  have hplayed : ((Deravel.main .small .quiet).toOption.any fun k => k.registers .a6 ≠ 8 ∧
      (Move.next .small .quiet (k, .schedule) .schedule).any fun s₁ => s₁.1.registers .a6 ≠ 8 ∧
      (Move.next .small .quiet s₁ (.user [(.a6, 5), (.a0, 4096)] [])).any fun s₂ =>
        s₂.1.registers .a6 ≠ 8 ∧ (Move.next .small .quiet s₂ (.trap .userEnvCall)).any fun s₃ =>
          s₃.2 = .user ∧ s₃.1.registers .a0 = 0x3ffc000000) = true := by
    decide +kernel
  obtain ⟨k, hmain, hstate⟩ := (Option.any_eq_true _ _).mp hplayed
  obtain ⟨hcall, hstate⟩ := of_decide_eq_true hstate
  obtain ⟨s₁, h₁, hstate⟩ := (Option.any_eq_true _ _).mp hstate
  obtain ⟨hcall₁, hstate⟩ := of_decide_eq_true hstate
  obtain ⟨s₂, h₂, hstate⟩ := (Option.any_eq_true _ _).mp hstate
  obtain ⟨hcall₂, hstate⟩ := of_decide_eq_true hstate
  obtain ⟨⟨k₃, mode⟩, h₃, hstate⟩ := (Option.any_eq_true _ _).mp hstate
  obtain ⟨hmode, ha0⟩ := of_decide_eq_true hstate
  obtain rfl : mode = .user := hmode
  have hstart : ReachableWith .small KeepsMemory (k, .schedule) :=
    .main .quiet (Checked.toOption_eq_some.mp hmain)
  have hrun := ((hstart.move hcall h₁).move hcall₁ h₂).move hcall₂ h₃
  exact ⟨k₃, hrun, ha0, hrun.noStale⟩

/-- A process of a small machine allocates a page and frees it. -/
def freeMoves : List Move :=
  [.schedule, .user [(.a6, 5), (.a0, 4096)] [], .trap .userEnvCall,
    .user [(.a6, 8), (.a0, 0x3ffc000000)] [], .trap .userEnvCall]

set_option maxRecDepth 10000 in
/-- Then the hart may still have the translation of the page, and the process has it no more. -/
theorem ReachableWith.noStale_free : ∃ k, Reachable .small (k, .user) ∧ ¬ k.NoStale := by
  have hplayed : (play .small .quiet freeMoves).any (fun s => s.2 = .user ∧
      (s.1.hart.any fun t => (t.translate 0x3ffc000000).isSome) ∧
      (s.1.process []).toOption.any fun proc =>
        (proc.pageTable.translate 0x3ffc000000).isNone) = true := by
    decide +kernel
  obtain ⟨⟨k, mode⟩, hplay, hstate⟩ := (Option.any_eq_true _ _).mp hplayed
  obtain ⟨hmode, hhart, hstate⟩ := of_decide_eq_true hstate
  obtain ⟨proc, hproc, hnone⟩ := (Option.any_eq_true _ _).mp hstate
  obtain ⟨t, ht, hsome⟩ := List.any_eq_true.mp hhart
  obtain ⟨found, hfound⟩ := Option.isSome_iff_exists.mp hsome
  obtain rfl : mode = .user := hmode
  refine ⟨k, play_reachable hplay, ?_⟩
  rintro ⟨proc', hproc', hwithin⟩
  rw [Checked.toOption_eq_some.mp hproc] at hproc'
  obtain rfl := Except.ok.inj hproc'
  rw [hwithin t ht _ (by decide) found hfound] at hnone
  cases hnone

end Deravel
