import DeravelOs.Kernel.Registers
import DeravelOs.Ipc.Waiting

/-!
# The context of a process

A process that has trapped goes on with the registers that it had, but for the results of its call,
and after its call or where it was.  The results are written by the dispatcher or, when the process
had to wait, from its saved registers by `resume_process`.

* `Kernel.Steady`: what a system call leaves of the contexts of others.
* `Parked`: a process that does not run, with what it will go on with.
* `Reachable.context`: how a process next runs after a trap.
-/

namespace Deravel

variable {P : Platform} {k k' k'' : Kernel} {proc proc' : Process} {pid : ProcessId}

/-! ## Saved contexts -/

/-- How many result registers a process in this state is still to be given; a finished one is given
nothing. -/
def ProcessState.owes : ProcessState → Option ℕ
  | runnable => some 0
  | finished => none
  | waitingForReply _ _ => some 1
  | readyReply _ _ => some 1
  | waitingForStreamMap _ => some 2
  | readyStreamMap _ _ => some 2

lemma ProcessState.owes_eq_none {state : ProcessState} : state.owes = none ↔ state = .finished := by
  cases state <;> simp [owes]

namespace Process

/-- A process has kept its saved context, or it is finished. -/
def Kept (proc proc' : Process) : Prop :=
  proc'.state.owes = none ∨
    proc'.registers = proc.registers ∧ proc'.pc = proc.pc ∧ proc'.state.owes = proc.state.owes

lemma Kept.refl (proc : Process) : proc.Kept proc := Or.inr ⟨rfl, rfl, rfl⟩

lemma Kept.trans {proc'' : Process} (h : proc.Kept proc') (h' : proc'.Kept proc'') :
    proc.Kept proc'' := by
  rcases h' with hfinished | ⟨hregisters, hpc, howes⟩
  · exact Or.inl hfinished
  · rcases h with hfinished | ⟨hregisters', hpc', howes'⟩
    · exact Or.inl (howes.trans hfinished)
    · exact Or.inr ⟨hregisters.trans hregisters', hpc.trans hpc', howes.trans howes'⟩

lemma OnlySpace.registers (h : proc.OnlySpace proc') : proc'.registers = proc.registers := by
  obtain ⟨_, _, _, _, rfl⟩ := h
  rfl

end Process

namespace Kernel

lemma OnlyMemory.sepc (h : k.OnlyMemory k') : k'.sepc = k.sepc := by
  obtain ⟨_, _, _, _, rfl⟩ := h
  rfl

/-- Whatever is in the slot of a process now was in it before, with the same context. -/
def KeepsContext (k k' : Kernel) (pid : ProcessId) : Prop :=
  ∀ ⦃proc'⦄, k'.process? pid = some proc' → ∃ proc, k.process? pid = some proc ∧ proc.Kept proc'

lemma KeepsContext.of_eq (h : k'.process? pid = k.process? pid) : k.KeepsContext k' pid :=
  fun proc' hproc => ⟨proc', h ▸ hproc, .refl proc'⟩

lemma KeepsContext.trans (h : k.KeepsContext k' pid) (h' : k'.KeepsContext k'' pid) :
    k.KeepsContext k'' pid := by
  intro proc'' hproc''
  obtain ⟨proc', hproc', hkept'⟩ := h' hproc''
  obtain ⟨proc, hproc, hkept⟩ := h hproc'
  exact ⟨proc, hproc, hkept.trans hkept'⟩

lemma KeepsContext.setProcess (proc' : Process) (hproc : k.process? proc'.id = some proc)
    (hkept : proc.Kept proc') :
    k.KeepsContext (k.setProcess proc') pid := by
  intro proc₁ hproc₁
  rw [process?_setProcess] at hproc₁
  split at hproc₁
  · next heq =>
      cases hproc₁
      exact ⟨proc, heq ▸ hproc, hkept⟩
  · exact ⟨proc₁, hproc₁, .refl proc₁⟩

/-! ## What a system call leaves of contexts -/

/-- The same process runs, and the contexts of the others are kept. -/
structure KeepsOthers (k k' : Kernel) : Prop where
  userPid : k'.userPid = k.userPid
  reserved : k.processesReserved ≤ k'.processesReserved
  kept : ∀ {pid}, k.userPid ≠ some pid → pid.asU16 ≤ k.processesReserved → k.KeepsContext k' pid

lemma KeepsOthers.trans (h : k.KeepsOthers k') (h' : k'.KeepsOthers k'') : k.KeepsOthers k'' where
  userPid := h'.userPid.trans h.userPid
  reserved := h.reserved.trans h'.reserved
  kept hother hused :=
    (h.kept hother hused).trans (h'.kept (h.userPid ▸ hother) (hused.trans h.reserved))

/-- Besides, the context of the running process is where it was. -/
structure Steady (k k' : Kernel) : Prop extends KeepsOthers k k' where
  registers : k'.registers = k.registers
  sepc : k'.sepc = k.sepc

namespace Steady

lemma trans (h : k.Steady k') (h' : k'.Steady k'') : k.Steady k'' where
  toKeepsOthers := h.toKeepsOthers.trans h'.toKeepsOthers
  registers := h'.registers.trans h.registers
  sepc := h'.sepc.trans h.sepc

/-- Only what user code and its process can see matters. -/
lemma of_same (hregisters : k'.registers = k.registers) (hsepc : k'.sepc = k.sepc)
    (huserPid : k'.userPid = k.userPid) (hreserved : k'.processesReserved = k.processesReserved)
    (hprocesses : k'.processes = k.processes) : k.Steady k' :=
  ⟨⟨huserPid, hreserved.ge, fun _ _ => .of_eq (by simp [process?, hprocesses])⟩, hregisters, hsepc⟩

lemma refl (k : Kernel) : k.Steady k := .of_same rfl rfl rfl rfl rfl

end Steady

lemma OnlyMemory.steady (h : k.OnlyMemory k') : k.Steady k' :=
  .of_same h.registers h.sepc h.userPid h.processesReserved h.processes

/-- The record of the running process is replaced. -/
lemma steady_setProcess (proc : Process) (hpid : k.userPid = some proc.id) :
    k.Steady (k.setProcess proc) where
  registers := rfl
  sepc := rfl
  userPid := rfl
  reserved := le_rfl
  kept {pid} hother _ := .of_eq (by
    rw [process?_setProcess, if_neg]
    rintro rfl
    exact hother hpid)

/-- The record of another process is replaced, with its context. -/
lemma steady_setOther (proc' : Process) (hproc : k.process? proc'.id = some proc)
    (hkept : proc.Kept proc') :
    k.Steady (k.setProcess proc') :=
  ⟨⟨rfl, le_rfl, fun _ _ => .setProcess proc' hproc hkept⟩, rfl, rfl⟩

/-- The running process is given what its state says. -/
def Owes (k : Kernel) (count : ℕ) : Prop :=
  ∀ ⦃proc⦄, k.userPid = some proc.id → k.process? proc.id = some proc →
    proc.state.owes = none ∨ proc.state.owes = some count

/-- What a call has done to contexts, and how much it is still to give to its caller. -/
structure Leaves (k k' : Kernel) (count : ℕ) (r : Except SyscallAction (List ℕ)) : Prop where
  steady : k.Steady k'
  results : ∀ results, r = .ok results → results.length = count
  owes : r = .error .yield → k'.Owes count

lemma owes_setProcess (proc : Process) {count : ℕ}
    (howes : proc.state.owes = none ∨ proc.state.owes = some count) (hpid : k.userPid = some proc.id) :
    (k.setProcess proc).Owes count := by
  intro proc' hpid' hproc'
  rw [setProcess_userPid, hpid] at hpid'
  rw [process?_setProcess, if_pos (Option.some.inj hpid').symm] at hproc'
  cases hproc'
  exact howes

/-- A call that returns to its caller. -/
lemma Leaves.returns {count : ℕ} {results : List ℕ} (h : k.Steady k')
    (hlength : results.length = count) : k.Leaves k' count (.ok results) :=
  ⟨h, fun _ heq => (by cases heq; exact hlength), fun hy => (by cases hy)⟩

lemma Leaves.fails {count : ℕ} {err : UserSyscallError} (h : k.Steady k') :
    k.Leaves k' count (.error (.userErr err)) :=
  ⟨h, fun _ heq => (by cases heq), fun hy => (by cases hy)⟩

/-- A call whose caller has to wait, or to end. -/
lemma Leaves.yields {count : ℕ} (h : k.Steady k') (howes : k'.Owes count) :
    k.Leaves k' count (.error .yield) :=
  ⟨h, fun _ heq => (by cases heq), fun _ => howes⟩

/-- What the containers of the kernel have done first does not matter. -/
lemma Leaves.after {k₁ : Kernel} {count : ℕ} {r : Except SyscallAction (List ℕ)}
    (h : k₁.Leaves k' count r) (huses : k.UsesHeap k₁) : k.Leaves k' count r :=
  ⟨huses.onlyMemory.steady.trans h.steady, h.results, h.owes⟩

/-- The running process is killed. -/
lemma Leaves.kill {α : Type} {count : ℕ} {reason : KillReason} {r : Except SyscallAction α}
    {results : α → List ℕ} (proc : Process) (hsteady : k.Steady k') (hpid : k.userPid = some proc.id)
    (h : (k'', r) = k'.kill proc reason) : k.Leaves k'' count (results <$> r) := by
  have hpid' : k'.userPid = some proc.id := hsteady.userPid.trans hpid
  cases h
  have hlog : k'.Steady (k'.logKill proc reason) := .of_same rfl rfl rfl rfl rfl
  refine .yields ((hsteady.trans hlog).trans (steady_setProcess _ hpid')) ?_
  exact owes_setProcess _ (Or.inl rfl) hpid'

/-! ## The calls -/

lemma sendMessage_steady {dest : Process} {server : ProcessId} {message : Message}
    {place : ReturnPlace} {state : ProcessState} (hk : k.Ready) (hpid : k.userPid = some proc.id)
    (hsend : k.Sendable proc dest server message) :
    k.Steady (k.sendMessage proc dest server state message place) := by
  obtain rfl := hk.id hsend.dest
  have hfirst : k.Steady (k.setProcess { proc with state := state }) :=
    steady_setProcess { proc with state := state } hpid
  have hdest : (k.setProcess { proc with state := state }).process? dest.id = some dest := by
    rw [process?_setProcess, if_neg, hsend.dest]
    exact hsend.ne
  refine (hfirst.trans (steady_setOther { dest with messages := dest.messages ++ [message] }
    hdest ?_)).trans (.of_same rfl rfl rfl rfl rfl)
  exact Or.inr ⟨rfl, rfl, rfl⟩

lemma sendMessage_owes {dest : Process} {server : ProcessId} {message : Message}
    {place : ReturnPlace} {state : ProcessState} {count : ℕ} (hk : k.Ready)
    (hpid : k.userPid = some proc.id) (hsend : k.Sendable proc dest server message)
    (howes : state.owes = some count) :
    (k.sendMessage proc dest server state message place).Owes count := by
  obtain rfl := hk.id hsend.dest
  intro proc' hpid' hproc'
  obtain hid : proc.id = proc'.id := Option.some.inj (hpid.symm.trans hpid')
  change ((k.setProcess { proc with state := state }).setProcess
    { dest with messages := dest.messages ++ [message] }).process? proc'.id = some proc' at hproc'
  rw [process?_setProcess, if_neg (by rw [← hid]; exact hsend.ne.symm), process?_setProcess,
    if_pos hid.symm] at hproc'
  cases hproc'
  exact Or.inr howes

lemma sendReply_steady {callerId : ProcessId} {caller : Process} {state : ProcessState}
    {answer : Answer} (hk : k.Ready) (hpid : k.userPid = some proc.id) (hne : callerId ≠ proc.id)
    (hcaller : k.process? callerId = some caller) (howes : state.owes = caller.state.owes) :
    k.Steady (k.sendReply proc caller state answer) := by
  obtain rfl := hk.id hcaller
  have hfirst : k.Steady (k.setProcess { proc with currentlyServing := none }) :=
    steady_setProcess { proc with currentlyServing := none } hpid
  have hfound : (k.setProcess { proc with currentlyServing := none }).process? caller.id =
      some caller := by
    rw [process?_setProcess, if_neg, hcaller]
    exact hne
  refine (hfirst.trans (steady_setOther { caller with state := state } hfound ?_)).trans
    (.of_same rfl rfl rfl rfl rfl)
  exact Or.inr ⟨rfl, rfl, howes⟩

lemma createProcess_steady {child : ProcessId} {elf : Elf} {caps : List RawCapability}
    {k₁ : Kernel} (hk : k.Ready)
    (hchild : ProcessId.new (.ofNat (k.processesReserved + 1)) = .ok child)
    (hmemory : OnlyMemory { k with processesReserved := k.processesReserved + 1 } k₁)
    (hcreate : createProcess P k₁ elf child caps = .ok k') : k.Steady k' := by
  obtain ⟨-, -, hsame⟩ := createProcess_follows hk hchild hmemory hcreate
  obtain ⟨k₂, proc, hmemory₂, -, -, rfl⟩ := createProcess_frame hcreate
  have hall := hmemory.trans hmemory₂
  refine ⟨⟨hall.userPid, ?_, fun _ hused => .of_eq (hsame _ hused)⟩, hall.registers, hall.sepc⟩
  exact (Nat.le_succ _).trans hall.processesReserved.ge

lemma callMethod_steady {handler : Handler} {method : ℕ} {args reply : List UInt8}
    {sender : ProcessId} (hk : k.Ready)
    (h : k.callMethod P handler method args sender = .ok (reply, k')) : k.Steady k' := by
  rcases callMethod_cases h with rfl | ⟨backing, -, hmemory⟩ | ⟨sectorOffset, size, -, hmemory⟩ |
    ⟨elf, child, caps, k₁, -, hchild, hmemory, hcreate⟩
  · exact .refl k'
  · exact .of_same hmemory.registers hmemory.sepc hmemory.userPid hmemory.processesReserved
      hmemory.processes
  · exact .of_same hmemory.registers hmemory.sepc hmemory.userPid hmemory.processesReserved
      hmemory.processes
  · exact createProcess_steady hk hchild hmemory hcreate

section Calls

variable (hk : k.Ready)

include hk

lemma ipcCall_leaves {cap : RawCapability} {method : ℕ} {args result : UserSlice}
    {r : Except SyscallAction ℕ} (h : k.ipcCall P cap method args result = .ok (k', r)) :
    k.Leaves k' 1 ((fun len => [len]) <$> r) := by
  obtain ⟨k₁, proc, root, huses, hproc, -, hcases⟩ := ipcCall_cases h
  replace hk := huses.onlyMemory.ready hk
  refine .after ?_ huses
  rcases hcases with hkill | ⟨server, dest, message, hsend, -, -, -, rfl, rfl⟩ |
    ⟨handler, bytes, sender, reply, k₂, -, -, -, hcall, hwrite⟩
  · obtain ⟨hpid, -, -⟩ := hk.process hproc
    exact .kill proc (.refl k₁) hpid hkill
  · obtain ⟨hpid, -, -⟩ := hk.process hproc
    exact .yields (sendMessage_steady hk hpid hsend) (sendMessage_owes hk hpid hsend rfl)
  · have hsteady := callMethod_steady hk hcall
    rcases hwrite with ⟨proc', hproc', hkill⟩ | ⟨hwrite, rfl⟩
    · obtain ⟨hfollows, -, -⟩ := callMethod_follows hk hcall
      obtain ⟨hpid, -, -⟩ := hfollows.ready.process hproc'
      exact .kill proc' hsteady (hsteady.userPid.symm.trans hpid) hkill
    · exact .returns (hsteady.trans (writeToUser_onlyMemory hwrite).steady) rfl

lemma ipcReceive_leaves {args : UserSlice}
    {r : Except SyscallAction (Option RawCapability × ℕ × ℕ × Option ProcessId)}
    {results : Option RawCapability × ℕ × ℕ × Option ProcessId → List ℕ}
    (hresults : ∀ a, (results a).length = 4) (h : k.ipcReceive args = .ok (k', r)) :
    k.Leaves k' 4 (results <$> r) := by
  obtain ⟨proc, hproc, hkill | ⟨rfl, rfl⟩ | ⟨message, rest, -, -, hkill |
    ⟨k₁, hwrite, rfl, rfl⟩⟩⟩ := ipcReceive_cases h
  · obtain ⟨hpid, -, -⟩ := hk.process hproc
    exact .kill proc (.refl k) hpid hkill
  · exact .returns (.refl k') (hresults _)
  · obtain ⟨hpid, -, -⟩ := hk.process hproc
    exact .kill { proc with messages := rest } (.refl k) hpid hkill
  · obtain ⟨hpid, -, -⟩ := hk.process hproc
    have hfirst := (writeToUser_onlyMemory hwrite).steady
    refine .returns (hfirst.trans ((steady_setProcess { proc with
      messages := rest, currentlyServing := some message.sender } ?_).trans
        (.of_same rfl rfl rfl rfl rfl))) (hresults _)
    exact hfirst.userPid.trans hpid

lemma ipcReply_leaves {result : UserSlice} {r : Except SyscallAction Unit}
    (h : k.ipcReply P result = .ok (k', r)) : k.Leaves k' 0 ((fun _ => []) <$> r) := by
  obtain ⟨k₁, proc, huses, hproc, hcalled⟩ := ipcReply_cases h
  replace hk := huses.onlyMemory.ready hk
  refine .after ?_ huses
  rcases hcalled with hkill | ⟨callerId, caller, -, hne, hcaller, hcases⟩
  · obtain ⟨hpid, -, -⟩ := hk.process hproc
    exact .kill proc (.refl k₁) hpid hkill
  · obtain ⟨hpid, -, -⟩ := hk.process hproc
    rcases hcases with ⟨server, -, -, hkill⟩ | ⟨buffer, reply, hstate, -, rfl, rfl⟩ |
      ⟨hstate, ⟨reason, -, hkill⟩ | ⟨ring, declaredSize, rfl, rfl⟩⟩
    · exact .kill { proc with currentlyServing := none } (.refl k₁) hpid hkill
    · exact .returns (sendReply_steady hk hpid hne hcaller (by rw [hstate]; rfl)) rfl
    · exact .kill { proc with currentlyServing := none } (.refl k₁) hpid hkill
    · exact .returns (sendReply_steady hk hpid hne hcaller (by rw [hstate]; rfl)) rfl

lemma ipcStream_leaves {cap : RawCapability} {stream : ℕ} {r : Except SyscallAction (ℕ × ℕ)}
    {results : ℕ × ℕ → List ℕ} (hresults : ∀ a, (results a).length = 2)
    (h : k.ipcStream cap stream = .ok (k', r)) : k.Leaves k' 2 (results <$> r) := by
  obtain ⟨k₁, proc, root, huses, hproc, -, hcases⟩ := ipcStream_cases h
  replace hk := huses.onlyMemory.ready hk
  refine .after ?_ huses
  rcases hcases with ⟨server, dest, message, hsend, -, -, -, rfl, rfl⟩ |
    ⟨handler, ring, layout, heap, -, -, -, ⟨-, rfl, rfl⟩ |
      ⟨virt, phys, pageTable, -, -, -, rfl, rfl⟩⟩
  · obtain ⟨hpid, -, -⟩ := hk.process hproc
    exact .yields (sendMessage_steady hk hpid hsend) (sendMessage_owes hk hpid hsend rfl)
  · obtain ⟨hpid, -, -⟩ := hk.process hproc
    exact .fails (steady_setProcess { proc with heap := heap } hpid)
  · obtain ⟨hpid, -, -⟩ := hk.process hproc
    exact .returns ((steady_setProcess { proc with heap := heap, pageTable := pageTable }
      hpid).trans (.of_same rfl rfl rfl rfl rfl)) (hresults _)

/-- The address space of the running process has changed. -/
lemma setSpace_steady {k₁ : Kernel} (hmemory : k.OnlyMemory k₁) (hproc : k₁.process [] = .ok proc)
    (hspace : proc.OnlySpace proc') : k.Steady (k₁.setProcess proc') := by
  obtain ⟨hpid, -, -⟩ := (hmemory.ready hk).process hproc
  exact hmemory.steady.trans (steady_setProcess proc' (hpid.trans (by rw [hspace.id])))

lemma noRoom_steady {k₁ : Kernel} {pages : Backing} (hmemory : k.OnlyMemory k₁)
    (hproc : k₁.process [] = .ok proc) (h : NoRoom k₁ k' proc pages) : k.Steady k' := by
  obtain ⟨e, proc', halloc, hdrop⟩ := h
  exact (setSpace_steady hk hmemory hproc (Process.alloc_onlySpace halloc)).trans
    (dropBacking_onlyMemory hdrop).steady

lemma alloc_leaves {size : ℕ} {r : Except SyscallAction ℕ} (h : k.alloc size = .ok (k', r)) :
    k.Leaves k' 1 ((fun virt => [virt]) <$> r) := by
  rcases alloc_cases h with ⟨rfl, rfl | ⟨layout, e, hpages⟩⟩ |
    ⟨layout, pages, k₁, proc, hpages, ⟨hnone, rfl⟩ | ⟨virt, proc', halloc, rfl, rfl⟩⟩
  · exact .fails (.refl _)
  · exact .fails (allocPages_onlyMemory hpages).steady
  · exact .fails (noRoom_steady hk hpages.onlyMemory hpages.proc hnone)
  · exact .returns ((setSpace_steady hk hpages.onlyMemory hpages.proc
      (Process.alloc_onlySpace halloc)).trans (.of_same rfl rfl rfl rfl rfl)) rfl

lemma allocShared_leaves {size : ℕ} {r : Except SyscallAction (ℕ × RawCapability)}
    {results : ℕ × RawCapability → List ℕ} (hresults : ∀ a, (results a).length = 2)
    (h : k.allocShared P size = .ok (k', r)) : k.Leaves k' 2 (results <$> r) := by
  obtain ⟨layout, pages, k₁, proc, hpages, ⟨hnone, rfl⟩ |
    ⟨virt, proc', grantee, cap, halloc, hgrant, rfl⟩⟩ := allocShared_cases h
  · exact .fails (noRoom_steady hk hpages.onlyMemory hpages.proc hnone)
  · have hspace := setSpace_steady hk hpages.onlyMemory hpages.proc
      (Process.alloc_onlySpace halloc)
    have hmemory := grantKernelCapability_onlyMemory hgrant
    exact .returns (hspace.trans (.of_same hmemory.registers hmemory.sepc hmemory.userPid
      hmemory.processesReserved hmemory.processes)) (hresults _)

lemma mapShared_leaves {cap : RawCapability} {r : Except SyscallAction (ℕ × ℕ)}
    {results : ℕ × ℕ → List ℕ} (hresults : ∀ a, (results a).length = 2)
    (h : k.mapShared cap = .ok (k', r)) : k.Leaves k' 2 (results <$> r) := by
  obtain ⟨k₁, proc, root, huses, hproc, -, hcases⟩ := mapShared_cases h
  replace hk := huses.onlyMemory.ready hk
  refine .after ?_ huses
  rcases hcases with hkill | ⟨handler, length, padded, layout, heap, -, -, -, -, -,
    ⟨-, rfl, rfl⟩ | ⟨virt, proc', -, hmap, rfl, rfl⟩⟩
  · obtain ⟨hpid, -, -⟩ := hk.process hproc
    exact .kill proc (.refl k₁) hpid hkill
  · exact .fails (setSpace_steady hk (.refl k₁) hproc ⟨_, heap, _, _, rfl⟩)
  · refine .returns ((setSpace_steady hk (.refl k₁) hproc ?_).trans (.of_same rfl rfl rfl rfl rfl))
      (hresults _)
    exact Process.OnlySpace.trans ⟨_, heap, _, _, rfl⟩ (sharedMemoryMap_onlySpace hmap)

lemma free_leaves {ptr : ℕ} {r : Except SyscallAction Unit} (h : k.free ptr = .ok (k', r)) :
    k.Leaves k' 0 ((fun _ => []) <$> r) := by
  obtain ⟨proc, hproc, ⟨-, hkill⟩ | ⟨proc', backing, hdealloc, hdrop, rfl⟩⟩ := free_cases h
  · obtain ⟨hpid, -, -⟩ := hk.process hproc
    exact .kill proc (.refl k) hpid hkill
  · exact .returns ((setSpace_steady hk (.refl k) hproc (Process.dealloc_onlySpace hdealloc)).trans
      (dropBacking_onlyMemory hdrop).steady) rfl

lemma log_leaves {message : UserSlice} {level : ℕ} {r : Except SyscallAction Unit}
    (h : k.log message level = .ok (k', r)) : k.Leaves k' 0 ((fun _ => []) <$> r) := by
  obtain ⟨k₁, proc, huses, hproc, hcases⟩ := log_cases h
  replace hk := huses.onlyMemory.ready hk
  refine .after ?_ huses
  rcases hcases with hkill | hkill | ⟨rfl, rfl⟩
  · obtain ⟨hpid, -, -⟩ := hk.process hproc
    exact .kill proc (.refl k₁) hpid hkill
  · obtain ⟨hpid, -, -⟩ := hk.process hproc
    exact .kill proc (.refl k₁) hpid hkill
  · exact .returns (.refl k') rfl

/-- **What a system call does to contexts.**  It leaves those of the other processes alone, and it
has as many results as it declares, or its caller is still to be given them. -/
theorem perform_leaves (hrun : k.Running none) {call : Syscall}
    {r : Except SyscallAction (List ℕ)} (h : call.perform P k = .ok (k', r)) :
    k.Leaves k' call.resultCount r := by
  cases call with
  | exit =>
      obtain ⟨r', hcall, rfl⟩ := answering_eq_ok h
      obtain ⟨proc, hproc, rfl, rfl⟩ := exit_cases hcall
      obtain ⟨hpid, -, -⟩ := hk.process hproc
      exact .yields (steady_setProcess { proc with state := .finished } hpid)
        (owes_setProcess { proc with state := .finished } (Or.inl rfl) hpid)
  | ipcCall cap method args result =>
      obtain ⟨r', hcall, rfl⟩ := answering_eq_ok h
      exact ipcCall_leaves hk hcall
  | ipcReceive args =>
      obtain ⟨r', hcall, rfl⟩ := answering_eq_ok h
      exact ipcReceive_leaves hk (fun _ => rfl) hcall
  | ipcReply result =>
      obtain ⟨r', hcall, rfl⟩ := answering_eq_ok h
      exact ipcReply_leaves hk hcall
  | ipcStream cap stream =>
      obtain ⟨r', hcall, rfl⟩ := answering_eq_ok h
      exact ipcStream_leaves hk (fun _ => rfl) hcall
  | alloc size =>
      obtain ⟨r', hcall, rfl⟩ := answering_eq_ok h
      exact alloc_leaves hk hcall
  | allocShared size =>
      obtain ⟨r', hcall, rfl⟩ := answering_eq_ok h
      exact allocShared_leaves hk (fun _ => rfl) hcall
  | mapShared cap =>
      obtain ⟨r', hcall, rfl⟩ := answering_eq_ok h
      exact mapShared_leaves hk (fun _ => rfl) hcall
  | free ptr =>
      obtain ⟨r', hcall, rfl⟩ := answering_eq_ok h
      exact free_leaves hk hcall
  | yield =>
      cases h
      exact .yields (.refl k) fun proc hpid hproc =>
        Or.inr (by rw [hrun.runnable hpid hproc]; rfl)
  | log message level =>
      obtain ⟨r', hcall, rfl⟩ := answering_eq_ok h
      exact log_leaves hk hcall

end Calls

/-! ## Traps -/

/-- Where a process goes on after a trap. -/
def pcAfter (k : Kernel) : Cause → ℕ
  | .userEnvCall => k.sepc + 4
  | _ => k.sepc

/-- How many result registers a process is given after a trap, if it is to go on. -/
def resultsAfter (k : Kernel) : Cause → Option ℕ
  | .userEnvCall =>
      match Syscall.read k.registers with
      | .ok call => some call.resultCount
      | .error _ => none
  | _ => some 0

/-- A process goes on with what it had, but for its results. -/
def GoesOn (k' : Kernel) (registers : RiscvRegisters) (pc : ℕ) (count : Option ℕ) : Prop :=
  k'.sepc = pc ∧ ∃ results : List ℕ, some results.length = count ∧
    k'.registers = writeResults registers results

/-- The running process is saved with a context, or finished. -/
def Saves (k' : Kernel) (registers : RiscvRegisters) (pc : ℕ) (count : Option ℕ) : Prop :=
  ∀ ⦃proc⦄, k'.userPid = some proc.id → k'.process? proc.id = some proc →
    proc.state.owes = none ∨ proc.registers = registers ∧ proc.pc = pc ∧ proc.state.owes = count

/-- What a trap does to contexts, before the registers are saved. -/
structure Trapped (k k' : Kernel) (cause : Cause) (r : Except SyscallAction Unit) : Prop where
  others : k.KeepsOthers k'
  returns : r = .ok () → k'.GoesOn k.registers (k.pcAfter cause) (k.resultsAfter cause)
  yields : r = .error .yield → k'.registers = k.registers ∧
    ∀ ⦃proc⦄, k'.userPid = some proc.id → k'.process? proc.id = some proc →
      proc.state.owes = none ∨
        proc.pc = k.pcAfter cause ∧ proc.state.owes = k.resultsAfter cause

lemma handlePageFault_trapped {stval : ℕ} {r : Except SyscallAction Unit} (hk : k.Ready)
    (h : k.handlePageFault stval = .ok (k', r)) : k.Trapped k' (.pageFault stval) r := by
  obtain ⟨proc, hproc, hkill | ⟨proc', hagain⟩ |
    ⟨range, index, k₁, proc', -, -, -, -, hload, rfl, rfl⟩⟩ := handlePageFault_cases h
  · obtain ⟨hpid, -, -⟩ := hk.process hproc
    have hleaves : k.Leaves k' 0 ((fun _ => []) <$> r) := .kill proc (.refl k) hpid hkill
    cases hkill
    refine ⟨hleaves.steady.toKeepsOthers, fun hy => (by cases hy), fun _ =>
      ⟨hleaves.steady.registers, fun proc' hpid' hproc' => Or.inl ?_⟩⟩
    obtain hid : proc.id = proc'.id := Option.some.inj (hpid.symm.trans hpid')
    rw [process?_setProcess, if_pos hid.symm] at hproc'
    cases hproc'
    rfl
  · exact absurd hagain (hk.process_locked hproc)
  · obtain ⟨mapping, contents, layout, page, k₂, k₃, phys, pageTable, -, -, hpage, huses, -, -,
      rfl, rfl⟩ := loadPage_cases hload
    have hmemory := (allocPages_onlyMemory hpage).trans huses.onlyMemory
    obtain ⟨hpid, -, -⟩ := hk.process hproc
    have hsteady := hmemory.steady.trans
      (steady_setProcess { proc with pageTable := pageTable } (hmemory.userPid.trans hpid))
    refine ⟨⟨hsteady.userPid, hsteady.reserved, hsteady.kept⟩, fun _ => ⟨?_, [], rfl, ?_⟩,
      fun hy => (by cases hy)⟩
    · exact hsteady.sepc
    · exact hsteady.registers

lemma onUserTrapImpl_trapped {cause : Cause} {r : Except SyscallAction Unit} (hk : k.Ready)
    (hinv : Rendezvous.Inv k.ipc) (hrun : k.Running none)
    (h : k.onUserTrapImpl P cause = .ok (k', r)) : k.Trapped k' cause r := by
  cases cause with
  | userEnvCall =>
      obtain ⟨⟨k₁, r₁⟩, hcall, h⟩ := Checked.bind_eq_ok.mp h
      obtain ⟨hfollows, -⟩ := dispatchSyscall_rule (eachCall_follows hk hinv hrun) hcall
      rcases dispatchSyscall_cases hcall with ⟨err, hread, rfl, rfl⟩ |
        ⟨call, k₂, r₂, hread, hperform, ⟨results, rfl, rfl, rfl⟩ | ⟨action, rfl, rfl, rfl⟩⟩
      · cases h
        exact ⟨(Steady.refl k').toKeepsOthers, fun hy => (by cases hy), fun hy => (by cases hy)⟩
      · have hleaves := perform_leaves hk hrun hperform
        obtain ⟨sepc, hsepc, h⟩ := Checked.bind_eq_ok.mp h
        cases h
        refine ⟨⟨hleaves.steady.userPid, hleaves.steady.reserved, hleaves.steady.kept⟩,
          fun _ => ⟨usizeAdd_eq_ok hsepc, results, ?_, ?_⟩, fun hy => (by cases hy)⟩
        · rw [hleaves.results results rfl, resultsAfter, hread]
        · rw [← hleaves.steady.registers]
      · have hleaves := perform_leaves hk hrun hperform
        cases action with
        | userErr err =>
            cases h
            exact ⟨hleaves.steady.toKeepsOthers, fun hy => (by cases hy), fun hy => (by cases hy)⟩
        | yield =>
            obtain ⟨proc, hproc, h⟩ := Checked.bind_eq_ok.mp h
            obtain ⟨pc, hpc, h⟩ := Checked.bind_eq_ok.mp h
            cases h
            obtain ⟨hpid, hproc, -⟩ := hfollows.ready.process hproc
            have hsteady := hleaves.steady.trans
              (steady_setProcess { proc with pc := pc } hpid)
            refine ⟨hsteady.toKeepsOthers, fun hy => (by cases hy), fun _ =>
              ⟨hsteady.registers, fun proc' hpid' hproc' => ?_⟩⟩
            obtain hid : proc.id = proc'.id := Option.some.inj (hpid.symm.trans hpid')
            rw [process?_setProcess, if_pos hid.symm] at hproc'
            cases hproc'
            rcases hleaves.owes rfl hpid hproc with hnone | hsome
            · exact Or.inl hnone
            · exact Or.inr ⟨usizeAdd_eq_ok hpc, by rw [resultsAfter, hread]; exact hsome⟩
  | supervisorTimer =>
      cases h
      exact ⟨(Steady.refl _).toKeepsOthers, fun _ => ⟨rfl, [], rfl, rfl⟩, fun hy => (by cases hy)⟩
  | supervisorExternal =>
      obtain ⟨stores, -, h⟩ := Checked.bind_eq_ok.mp h
      cases h
      exact ⟨⟨rfl, le_rfl, fun _ _ => .of_eq rfl⟩, fun _ => ⟨rfl, [], rfl, rfl⟩, fun hy => (by cases hy)⟩
  | pageFault stval => exact handlePageFault_trapped hk h
  | other => cases h

/-- **What a trap does to contexts.**  The process returns with its results, or it is saved; the
others keep theirs. -/
theorem onUserTrap_saves {cause : Cause} {mode : Mode} (hk : k.Ready)
    (hinv : Rendezvous.Inv k.ipc) (hrun : k.Running none)
    (h : k.onUserTrap P cause = .ok (k', mode)) :
    k.KeepsOthers k' ∧
      (mode = .user → k'.GoesOn k.registers (k.pcAfter cause) (k.resultsAfter cause)) ∧
      (mode = .schedule → k'.Saves k.registers (k.pcAfter cause) (k.resultsAfter cause)) := by
  obtain ⟨k₁, r, hcall, hcases⟩ := onUserTrap_cases h
  have htrapped := onUserTrapImpl_trapped hk hinv hrun hcall
  obtain ⟨hfollows, -⟩ := onUserTrapImpl_follows hk hinv hrun hcall
  rcases hcases with ⟨rfl, rfl, rfl⟩ | ⟨proc, hproc, rfl, ⟨err, rfl, rfl⟩ | ⟨rfl, rfl⟩⟩
  · exact ⟨htrapped.others, fun _ => htrapped.returns rfl, fun hy => (by cases hy)⟩
  · obtain ⟨hpid, -, -⟩ := hfollows.ready.process hproc
    have hlog : k₁.Steady (k₁.logKill proc (.userError err)) := .of_same rfl rfl rfl rfl rfl
    have hkilled : k₁.Steady (k₁.killManual proc (.userError err)) :=
      hlog.trans (steady_setProcess { proc with state := .finished } hpid)
    refine ⟨htrapped.others.trans hkilled.toKeepsOthers, fun hy => (by cases hy),
      fun _ proc' hpid' hproc' => Or.inl ?_⟩
    obtain hid : proc.id = proc'.id := Option.some.inj (hpid.symm.trans hpid')
    rw [killManual, process?_setProcess, if_pos hid.symm] at hproc'
    cases hproc'
    rfl
  · obtain ⟨hpid, hproc, -⟩ := hfollows.ready.process hproc
    obtain ⟨hregisters, hsaved⟩ := htrapped.yields rfl
    have hset : k₁.Steady (k₁.setProcess { proc with registers := k₁.registers }) :=
      steady_setProcess { proc with registers := k₁.registers } hpid
    refine ⟨htrapped.others.trans hset.toKeepsOthers, fun hy => (by cases hy),
      fun _ proc' hpid' hproc' => ?_⟩
    obtain hid : proc.id = proc'.id := Option.some.inj (hpid.symm.trans hpid')
    rw [process?_setProcess, if_pos hid.symm] at hproc'
    cases hproc'
    rcases hsaved hpid hproc with hnone | ⟨hpc, hsome⟩
    · exact Or.inl hnone
    · exact Or.inr ⟨hregisters, hpc, hsome⟩

/-! ## The scheduler -/

/-- The scan keeps all contexts. -/
lemma findRunnableProcess_keeps {next : Process} (hk : k.Ready)
    (h : k.findRunnableProcess = .ok (k', some next)) (pid : ProcessId) :
    k.KeepsContext k' pid ∧ k'.processesReserved = k.processesReserved := by
  obtain ⟨hsame, hreserved, -⟩ := findRunnableProcess_same hk h
  refine ⟨fun proc' hproc' => ?_, hreserved⟩
  obtain ⟨proc, hproc, rfl | hfinished⟩ := hsame pid proc' hproc'
  · exact ⟨proc', hproc, .refl proc'⟩
  · exact ⟨proc, hproc, Or.inl (ProcessState.owes_eq_none.mpr hfinished)⟩

/-- A process that is resumed goes on with its saved context. -/
lemma resumeProcess_goesOn {next : Process} {r : Except UserSyscallError Unit}
    (h : k.resumeProcess next = .ok (k', r)) :
    k'.userPid = some next.id ∧ k'.processesReserved = k.processesReserved ∧
      (∀ pid, pid ≠ next.id → k'.process? pid = k.process? pid) ∧
      (r = .ok () → k'.GoesOn next.registers next.pc next.state.owes) := by
  rcases resumeProcess_cases h with ⟨hstate, rfl, rfl⟩ |
    ⟨reply, buffer, hstate, ⟨rfl, rfl⟩ | ⟨k₁, hwrite, rfl, rfl⟩⟩ |
    ⟨ring, declaredSize, handler, length, layout, virt, heap, k₁, next', hstate, huses, -, -, -, -,
      hmap, rfl, rfl⟩
  · exact ⟨rfl, rfl, fun _ _ => rfl, fun _ => ⟨rfl, [], by rw [hstate]; rfl, rfl⟩⟩
  · exact ⟨rfl, rfl, fun _ _ => rfl, fun hy => (by cases hy)⟩
  · have hmemory := writeToUser_onlyMemory hwrite
    refine ⟨hmemory.userPid, hmemory.processesReserved, fun pid hne => ?_, fun _ =>
      ⟨hmemory.sepc, [reply.length], by rw [hstate]; rfl, rfl⟩⟩
    change (Kernel.setProcess k₁ _).process? pid = _
    rw [process?_setProcess, if_neg (by exact hne), hmemory.process?]
    rfl
  · have hspace : Process.OnlySpace next next' :=
      Process.OnlySpace.trans ⟨_, heap, _, _, rfl⟩ (sharedMemoryMap_onlySpace hmap)
    have hmemory := huses.onlyMemory
    refine ⟨hmemory.userPid, hmemory.processesReserved, fun pid hne => ?_, fun _ =>
      ⟨hmemory.sepc, [virt, declaredSize], by rw [hstate]; rfl, ?_⟩⟩
    · change (Kernel.setProcess _ _).process? pid = _
      rw [process?_setProcess, if_neg (by change pid ≠ next'.id; rw [hspace.id]; exact hne),
        huses.process?]
      rfl
    · change Function.update (Function.update next'.registers .a0 virt) .a1 declaredSize = _
      rw [hspace.registers]
      rfl

end Kernel

/-! ## Runs -/

variable {s s' : Kernel × Mode} {registers : RiscvRegisters} {pc : ℕ} {count : Option ℕ}

/-- A process is in user mode. -/
def Runs (pid : ProcessId) (s : Kernel × Mode) : Prop := s.2 = .user ∧ s.1.userPid = some pid

/-- A process does not run, and when it does again it goes on at `pc` with these registers, but for
so many results. -/
structure Parked (pid : ProcessId) (registers : RiscvRegisters) (pc : ℕ) (count : Option ℕ)
    (s : Kernel × Mode) : Prop where
  away : ¬ Runs pid s
  used : pid.asU16 ≤ s.1.processesReserved
  saved : ∀ proc, s.1.process? pid = some proc → proc.state.owes = none ∨
    proc.registers = registers ∧ proc.pc = pc ∧ proc.state.owes = count

/-- What is kept of the contexts keeps a process parked. -/
lemma Parked.of_keeps {mode' : Mode} (h : Parked pid registers pc count s)
    (haway : ¬ Runs pid (k', mode')) (hused : s.1.processesReserved ≤ k'.processesReserved)
    (hkeeps : s.1.KeepsContext k' pid) : Parked pid registers pc count (k', mode') := by
  refine ⟨haway, h.used.trans hused, fun proc' hproc' => ?_⟩
  obtain ⟨proc, hproc, hfinished | ⟨hregisters, hpc, howes⟩⟩ := hkeeps hproc'
  · exact Or.inl hfinished
  · rcases h.saved proc hproc with hnone | ⟨hregisters', hpc', howes'⟩
    · exact Or.inl (howes.trans hnone)
    · exact Or.inr ⟨hregisters.trans hregisters', hpc.trans hpc', howes.trans howes'⟩

/-- The scheduler leaves a process parked or lets it go on. -/
lemma Parked.schedule {mode' : Mode} (h : Parked pid registers pc count (k, .schedule))
    (hk : k.Ready) (hschedule : k.scheduleUserspace = .ok (k', mode')) :
    Parked pid registers pc count (k', mode') ∨
      Runs pid (k', mode') ∧ k'.GoesOn registers pc count := by
  obtain ⟨k₁, next, k₂, r, hfind, hresume, hcases⟩ := Kernel.scheduleUserspace_cases hschedule
  obtain ⟨hkeeps, hreserved⟩ := Kernel.findRunnableProcess_keeps hk hfind pid
  obtain ⟨hfollows, hnext, hcanRun⟩ := Kernel.findRunnableProcess_follows hk hfind
  obtain ⟨hpid, hreserved', hothers, hgoes⟩ := Kernel.resumeProcess_goesOn hresume
  -- after the scan
  have hscan : Parked pid registers pc count (k₁, .schedule) :=
    h.of_keeps (fun hruns => (by cases hruns.1)) hreserved.ge hkeeps
  by_cases heq : pid = next.id
  · subst heq
    rcases hcases with ⟨rfl, rfl, rfl⟩ | ⟨err, proc, rfl, hproc, rfl, rfl⟩
    · -- the process is the one that is resumed
      refine Or.inr ⟨⟨rfl, hpid⟩, ?_⟩
      have hgoes := hgoes rfl
      rcases hscan.saved next hnext with hnone | ⟨rfl, rfl, rfl⟩
      · obtain ⟨-, results, howes, -⟩ := hgoes
        rw [hnone] at howes
        cases howes
      · exact hgoes
    · -- its reply did not fit, and it is killed
      refine Or.inl ⟨fun hruns => (by cases hruns.1), ?_, fun proc' hproc' => Or.inl ?_⟩
      · exact hscan.used.trans hreserved'.ge
      · obtain ⟨hfollows₂, -, -⟩ := Kernel.resumeProcess_follows hfollows.ready hnext hresume
        obtain ⟨hpid', -, -⟩ := hfollows₂.ready.process hproc
        obtain hid : next.id = proc.id := Option.some.inj (hpid.symm.trans hpid')
        rw [Kernel.killManual, Kernel.process?_setProcess, if_pos hid] at hproc'
        cases hproc'
        rfl
  · have hresumed : k₁.KeepsContext k₂ pid := .of_eq (hothers pid heq)
    rcases hcases with ⟨rfl, rfl, rfl⟩ | ⟨err, proc, rfl, hproc, rfl, rfl⟩
    · refine Or.inl (hscan.of_keeps (fun hruns => heq ?_) hreserved'.ge hresumed)
      exact Option.some.inj (hruns.2.symm.trans hpid)
    · refine Or.inl (hscan.of_keeps (fun hruns => (by cases hruns.1)) hreserved'.ge ?_)
      obtain ⟨hfollows₂, -, -⟩ := Kernel.resumeProcess_follows hfollows.ready hnext hresume
      obtain ⟨-, hproc, -⟩ := hfollows₂.ready.process hproc
      exact hresumed.trans (.setProcess { proc with state := .finished } hproc (Or.inl rfl))

/-- **A step leaves a process parked or lets it go on.** -/
theorem Parked.step {cause : Option Cause} (h : Parked pid registers pc count s)
    (horder : s.1.InOrder s.2) (hstep : Step P s cause s') :
    Parked pid registers pc count s' ∨ Runs pid s' ∧ s'.1.GoesOn registers pc count := by
  cases hstep with
  | user huser =>
      refine Or.inl (h.of_keeps (fun hruns => h.away ⟨rfl, ?_⟩) ?_ (.of_eq ?_))
      · have hpid := hruns.2
        rw [huser.same] at hpid
        exact hpid
      · rw [huser.same]
      · rw [huser.same]
        rfl
  | trap oracle htrap =>
      have horacle := horder.withOracle oracle
      obtain ⟨hkeeps, -, -⟩ := Kernel.onUserTrap_saves horacle.ready horacle.inv
        (horacle.running rfl) htrap
      refine Or.inl (h.of_keeps (fun hruns => h.away ⟨rfl, ?_⟩) hkeeps.reserved ?_)
      · exact hkeeps.userPid.symm.trans hruns.2
      · exact hkeeps.kept (fun hpid => h.away ⟨rfl, hpid⟩) h.used
  | @schedule k k' mode oracle hschedule =>
      have hparked : Parked pid registers pc count ({ k with oracle := oracle }, .schedule) :=
        ⟨fun hruns => (by cases hruns.1), h.used, h.saved⟩
      exact hparked.schedule (horder.withOracle oracle).ready hschedule

end Deravel
