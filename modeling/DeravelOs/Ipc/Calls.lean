import DeravelOs.Ipc.Peers

/-!
# System calls as steps of the rendezvous

Every system call, and every trap, is a run of at most a few steps of the rendezvous
(`Kernel.Follows`), and the caller is still there afterwards (`Kernel.Running`).

* `Follows.setProcess`, `Unseen.follows`: what others cannot see.
* `kill_follows`: the ways in which a running process is stopped.
* `eachCall_follows`: one system call after the other.
-/

namespace Deravel

variable {P : Platform} {k k' k'' : Kernel} {proc proc' dest : Process} {pid : ProcessId}

namespace Kernel

/-- The kernel goes on as the rendezvous allows, and it does not find a caller that waits for someone
else. -/
structure Follows (k k' : Kernel) : Prop where
  ready : k'.Ready
  run : Rendezvous.Run k.ipc k'.ipc
  console : ∀ line ∈ k'.console, line.2.2 = .waitingForSomeoneElse → line ∈ k.console

/-- The running process is in its slot, and it is runnable unless it has given up the hart. -/
def Running (k : Kernel) (action : Option SyscallAction) : Prop :=
  ∃ proc, k.userPid = some proc.id ∧ k.process? proc.id = some proc ∧
    (action ≠ some .yield → proc.state = .runnable)

/-- Nothing that concerns processes has changed. -/
structure Unseen (k k' : Kernel) : Prop where
  processes : k'.processes = k.processes
  processesReserved : k'.processesReserved = k.processesReserved
  trace : k'.trace = k.trace
  userPid : k'.userPid = k.userPid
  console : k'.console = k.console

lemma OnlyMemory.unseen (h : k.OnlyMemory k') : k.Unseen k' :=
  ⟨h.processes, h.processesReserved, h.trace, h.userPid, h.console⟩

lemma Unseen.process? (h : k.Unseen k') (pid : ProcessId) : k'.process? pid = k.process? pid := by
  rw [Kernel.process?, Kernel.process?, h.processes]

lemma Unseen.trans (h : k.Unseen k') (h' : k'.Unseen k'') : k.Unseen k'' :=
  ⟨h'.processes.trans h.processes, h'.processesReserved.trans h.processesReserved,
    h'.trace.trans h.trace, h'.userPid.trans h.userPid, h'.console.trans h.console⟩

lemma Unseen.follows (h : k.Unseen k') (hk : k.Ready) : k.Follows k' where
  ready := hk.congr h.processes h.processesReserved
  run := by rw [ipc_congr h.processes h.processesReserved h.trace]
  console line hline _ := h.console ▸ hline

lemma Unseen.running {action : Option SyscallAction} (h : k.Unseen k') (hrun : k.Running action) :
    k'.Running action := by
  obtain ⟨proc, hpid, hproc, hstate⟩ := hrun
  exact ⟨proc, h.userPid.trans hpid, (h.process? _).trans hproc, hstate⟩

lemma Follows.refl (hk : k.Ready) : k.Follows k :=
  Unseen.follows ⟨rfl, rfl, rfl, rfl, rfl⟩ hk

lemma Follows.trans (h : k.Follows k') (h' : k'.Follows k'') : k.Follows k'' where
  ready := h'.ready
  run := Relation.ReflTransGen.trans h.run h'.run
  console line hline hwaiting := h.console line (h'.console line hline hwaiting) hwaiting

/-- The process that a call finds is the running one. -/
lemma Ready.process (hk : k.Ready) {held : List ProcessId} (h : k.process held = .ok proc) :
    k.userPid = some proc.id ∧ k.process? proc.id = some proc ∧ proc.id ∉ held := by
  obtain ⟨pid, hpid, -, hheld, hproc⟩ := process_eq_ok h
  obtain rfl := hk.id hproc
  exact ⟨hpid, hproc, hheld⟩

/-- The running process is not found while its slot is locked. -/
lemma Ready.process_locked (hk : k.Ready) (hproc : k.process [] = .ok proc) :
    k.process [proc.id] ≠ .ok proc' := by
  intro hagain
  obtain ⟨hpid, -, -⟩ := hk.process hproc
  obtain ⟨hpid', -, hheld⟩ := hk.process hagain
  exact hheld (by rw [Option.some.inj (hpid'.symm.trans hpid)]; exact List.mem_cons_self)

/-- The running process is runnable. -/
lemma Running.runnable (hrun : k.Running none) (hpid : k.userPid = some proc.id)
    (hproc : k.process? proc.id = some proc) : proc.state = .runnable := by
  obtain ⟨proc₁, hpid₁, hproc₁, hstate⟩ := hrun
  rw [hpid] at hpid₁
  obtain hid := Option.some.inj hpid₁
  rw [← hid, hproc] at hproc₁
  cases hproc₁
  exact hstate (by simp)

/-- The record of a process is replaced; others see nothing of it. -/
lemma Follows.setProcess (hk : k.Ready) (hproc : k.process? proc'.id = some proc)
    (hpeer : proc'.peer = proc.peer) (hwaits : proc'.state.waitsFor ≠ some .kernel)
    (hcertified : proc'.Certified) : k.Follows (k.setProcess proc') where
  ready := hk.setProcess hwaits hcertified
  run := by rw [ipc_setProcess_same hproc hpeer]
  console line hline _ := hline

/-- The address space of a process is replaced. -/
lemma Follows.setSpace (hk : k.Ready) (hproc : k.process? proc.id = some proc)
    (hspace : proc.OnlySpace proc') : k.Follows (k.setProcess proc') := by
  refine Follows.setProcess hk ?_ hspace.peer ?_ (hspace.certified (hk.certified hproc))
  · rw [hspace.id, hproc]
  · rw [hspace.state]
    exact hk.waits hproc

lemma Running.setSpace (hrun : k.Running none) (hpid : k.userPid = some proc.id)
    (hproc : k.process? proc.id = some proc) (hspace : proc.OnlySpace proc') :
    (k.setProcess proc').Running none := by
  refine ⟨proc', ?_, ?_, fun _ => ?_⟩
  · rw [setProcess_userPid, hspace.id, hpid]
  · rw [process?_setProcess, if_pos rfl]
  · rw [hspace.state]
    exact hrun.runnable hpid hproc

/-! ## The end of a process -/

/-- A process is stopped, which the rendezvous allows. -/
lemma finish_follows (hk : k.Ready) (hid : proc'.id = proc.id) (hcertified : proc'.Certified)
    (hstep : Rendezvous.Step k.ipc (k.ipc.put proc.id { proc'.peer with status := .done })) :
    k.Follows (k.setProcess { proc' with state := .finished }) where
  ready := hk.setProcess (by simp [ProcessState.waitsFor]) hcertified
  run := by
    rw [ipc_setProcess]
    exact .single (hid ▸ hstep)
  console line hline _ := hline

lemma logKill_follows (hk : k.Ready) {reason : KillReason} (hne : reason ≠ .waitingForSomeoneElse) :
    k.Follows (k.logKill proc reason) where
  ready := hk.congr rfl rfl
  run := .refl
  console line hline hwaiting := by
    rcases List.mem_append.mp hline with hold | hnew
    · exact hold
    · rw [List.mem_singleton.mp hnew] at hwaiting
      exact absurd hwaiting hne

/-- **A running process is killed.** -/
theorem kill_follows {α : Type} {reason : KillReason} {r : Except SyscallAction α} (hk : k.Ready)
    (proc' : Process) (hpid : k.userPid = some proc.id) (hid : proc'.id = proc.id)
    (hcertified : proc'.Certified)
    (hstep : Rendezvous.Step k.ipc (k.ipc.put proc.id { proc'.peer with status := .done }))
    (hne : reason ≠ .waitingForSomeoneElse) (h : (k', r) = k.kill proc' reason) :
    k.Follows k' ∧ k'.Running (actionOf r) := by
  cases h
  have hlog : k.Follows (k.logKill proc' reason) := logKill_follows hk hne
  refine ⟨hlog.trans (finish_follows hlog.ready hid hcertified hstep), ?_⟩
  · refine ⟨{ proc' with state := .finished }, hpid.trans (by rw [← hid]), ?_, fun hy => ?_⟩
    · rw [process?_setProcess, if_pos rfl]
    · exact absurd rfl hy

/-- A process that is found runnable can be stopped as it is. -/
lemma finish_step (hproc : k.process? proc.id = some proc) (hstate : proc.state = .runnable) :
    Rendezvous.Step k.ipc (k.ipc.put proc.id { proc.peer with status := .done }) := by
  refine .finish (ipc_peer hproc) fun server place hwaiting => ?_
  simp [Process.peer, hstate, ProcessState.status] at hwaiting

/-- A running process is killed as it is. -/
lemma kill_runnable {α : Type} {reason : KillReason} {r : Except SyscallAction α} (hk : k.Ready)
    (hrun : k.Running none) (hproc : k.process [] = .ok proc)
    (hne : reason ≠ .waitingForSomeoneElse) (h : (k', r) = k.kill proc reason) :
    k.Follows k' ∧ k'.Running (actionOf r) := by
  obtain ⟨hpid, hproc, -⟩ := hk.process hproc
  exact kill_follows hk proc hpid rfl (hk.certified hproc)
    (finish_step hproc (hrun.runnable hpid hproc)) hne h

/-! ## Messages and answers -/

/-- A message is sent by the running process. -/
lemma sendMessage_follows {server : ProcessId} {message : Message} {place : ReturnPlace}
    {state : ProcessState} (hk : k.Ready) (hrun : k.Running none) (hproc : k.process [] = .ok proc)
    (hsend : k.Sendable proc dest server message) (hstate : state.status = .waiting server place)
    (hwaits : state.waitsFor ≠ some .kernel) :
    k.Follows (k.sendMessage proc dest server state message place) ∧
      (k.sendMessage proc dest server state message place).Running (some .yield) := by
  obtain ⟨hpid, hproc, -⟩ := hk.process hproc
  have hsender : message.sender = proc.id := by
    have hsame := hsend.sender
    rw [hpid] at hsame
    exact (Option.some.inj hsame).symm
  have hdest : dest.id = server := hk.id hsend.dest
  have hcertified := hk.certified hsend.dest
  refine ⟨⟨?_, ?_, fun line hline _ => hline⟩, ?_⟩
  · have hfirst : (k.setProcess { proc with state := state }).Ready :=
      hk.setProcess hwaits (hk.certified hproc : proc.Certified)
    have hwaits' : dest.state.waitsFor ≠ some .kernel := hk.waits hsend.dest
    have hsecond : Ready ((k.setProcess { proc with state := state }).setProcess
        { dest with messages := dest.messages ++ [message] }) := by
      refine hfirst.setProcess hwaits' ?_
      intro m hm
      rcases List.mem_append.mp hm with hold | hnew
      · exact hcertified m hold
      · rw [List.mem_singleton.mp hnew, hsend.certifier, hdest]
    exact hsecond.congr rfl rfl
  · have hstep := Rendezvous.Step.send (s := k.ipc) place message hsend.ne.symm (ipc_peer hproc)
      (by simp [Process.peer, hrun.runnable hpid hproc, ProcessState.status]) (ipc_peer hsend.dest)
    refine .single ?_
    rw [sendMessage, ipc_record, ipc_setProcess, ipc_setProcess]
    simpa [Process.peer, IpcEvent.event, hstate, hsender, hdest] using hstep
  · refine ⟨{ proc with state := state }, hpid, ?_, fun hy => absurd rfl hy⟩
    change (Kernel.setProcess _ _).process? proc.id = _
    rw [process?_setProcess, if_neg, process?_setProcess, if_pos rfl]
    change proc.id ≠ dest.id
    rw [hdest]
    exact hsend.ne.symm

/-- A message is answered by the running process. -/
lemma sendReply_follows {callerId : ProcessId} {caller : Process} {place : ReturnPlace}
    {answer : Answer} {state : ProcessState} (hk : k.Ready) (hrun : k.Running none)
    (hproc : k.process [] = .ok proc) (hserving : proc.currentlyServing = some callerId)
    (hne : callerId ≠ proc.id) (hcaller : k.process? callerId = some caller)
    (hwaiting : caller.state.status = .waiting proc.id place)
    (hstate : state.status = .answered place answer) (hwaits : state.waitsFor ≠ some .kernel) :
    k.Follows (k.sendReply proc caller state answer) ∧
      (k.sendReply proc caller state answer).Running none := by
  obtain ⟨hpid, hproc, -⟩ := hk.process hproc
  have hidle := hrun.runnable hpid hproc
  have hid : caller.id = callerId := hk.id hcaller
  refine ⟨⟨?_, ?_, fun line hline _ => hline⟩, ?_⟩
  · have hfirst : (k.setProcess { proc with currentlyServing := none }).Ready :=
      hk.setProcess (hk.waits hproc : proc.state.waitsFor ≠ _) (hk.certified hproc : proc.Certified)
    have hsecond : Ready ((k.setProcess { proc with currentlyServing := none }).setProcess
        { caller with state := state }) :=
      hfirst.setProcess hwaits (hk.certified hcaller : caller.Certified)
    exact hsecond.congr rfl rfl
  · have hstep := Rendezvous.Step.answer (s := k.ipc) answer (ipc_peer hproc)
      (by simp [Process.peer, hidle, ProcessState.status]) hserving (ipc_peer hcaller) hwaiting
    refine .single ?_
    rw [sendReply, ipc_record, ipc_setProcess, ipc_setProcess]
    simpa [Process.peer, IpcEvent.event, hstate, hid] using hstep
  · refine ⟨{ proc with currentlyServing := none }, hpid, ?_, fun _ => hidle⟩
    change (Kernel.setProcess _ _).process? proc.id = _
    rw [process?_setProcess, if_neg, process?_setProcess, if_pos rfl]
    change proc.id ≠ caller.id
    rw [hid]
    exact hne.symm

/-! ## New processes -/

lemma ProcessId.new_next {n : ℕ} (hn : n ≤ maxProcesses)
    (h : ProcessId.new (.ofNat (n + 1)) = .ok pid) : pid.asU16 = n + 1 := by
  rw [ProcessId.asU16_of_new h]
  rw [maxProcesses] at hn
  exact UInt16.toNat_ofNat_of_lt (lt_of_le_of_lt (Nat.succ_le_succ hn) (by decide))

/-- A new process joins. -/
lemma createProcess_follows {child : ProcessId} {elf : Elf} {caps : List RawCapability}
    {k₁ : Kernel} (hk : k.Ready)
    (hchild : ProcessId.new (.ofNat (k.processesReserved + 1)) = .ok child)
    (hmemory : OnlyMemory { k with processesReserved := k.processesReserved + 1 } k₁)
    (hcreate : createProcess P k₁ elf child caps = .ok k') :
    k.Follows k' ∧ k'.userPid = k.userPid ∧
      ∀ pid, pid.asU16 ≤ k.processesReserved → k'.process? pid = k.process? pid := by
  obtain ⟨k₂, proc, hmemory₂, hfresh, -, rfl⟩ := createProcess_frame hcreate
  have hnumber := ProcessId.new_next hk.reserved hchild
  have hall := hmemory.trans hmemory₂
  have hready : k₂.Ready := by
    refine ⟨hk.slots.of_processes hall.processes, ?_, ?_, ?_⟩
    · exact fun hproc => hk.waits (by rwa [Kernel.process?, hall.processes] at hproc)
    · exact fun hproc => hk.certified (by rwa [Kernel.process?, hall.processes] at hproc)
    · rw [hall.processesReserved]
      change k.processesReserved + 1 ≤ maxProcesses
      rw [← hnumber]
      exact child.le_max
  have hproc₂ : ∀ pid, k₂.process? pid = k.process? pid := hall.process?
  refine ⟨⟨?_, ?_, ?_⟩, hall.userPid, ?_⟩
  · refine hready.setProcess ?_ ?_
    · simp [hfresh.state, ProcessState.waitsFor]
    · simp [Process.Certified, hfresh.messages]
  · have hnew : child ∉ k.ipc.used := by
      change ¬ child.asU16 ≤ k.processesReserved
      omega
    have hstep := Rendezvous.Step.join hnew
    refine .single ?_
    rw [ipc_setProcess, hfresh.id, hfresh.peer]
    refine cast (congrArg _ ?_) hstep
    simp only [ipc, Rendezvous.State.put, Rendezvous.State.mk.injEq]
    refine ⟨?_, ?_, ?_⟩
    · simp only [hproc₂]
    · rw [hall.processesReserved]
      ext pid
      simp only [Set.mem_insert_iff, Set.mem_ofPred_eq, ProcessId.ext_iff, hnumber]
      omega
    · rw [hall.trace]
  · intro line hline _
    have hsame : k₂.console = k.console := hall.console
    exact hsame ▸ hline
  · intro pid hpid
    rw [process?_setProcess, if_neg, hproc₂]
    rintro rfl
    rw [hfresh.id, hnumber] at hpid
    omega

lemma callMethod_follows {handler : Handler} {method : ℕ} {args reply : List UInt8}
    {sender : ProcessId} (hk : k.Ready)
    (h : k.callMethod P handler method args sender = .ok (reply, k')) :
    k.Follows k' ∧ k'.userPid = k.userPid ∧
      ∀ pid, pid.asU16 ≤ k.processesReserved → k'.process? pid = k.process? pid := by
  rcases callMethod_cases h with rfl | ⟨backing, -, hmemory⟩ | ⟨sectorOffset, size, -, hmemory⟩ |
    ⟨elf, child, caps, k₁, -, hchild, hmemory, hcreate⟩
  · exact ⟨.refl hk, rfl, fun _ _ => rfl⟩
  · have hunseen : k.Unseen k' := ⟨hmemory.processes, hmemory.processesReserved, hmemory.trace,
      hmemory.userPid, hmemory.console⟩
    exact ⟨hunseen.follows hk, hunseen.userPid, fun pid _ => hunseen.process? pid⟩
  · have hunseen : k.Unseen k' := ⟨hmemory.processes, hmemory.processesReserved, hmemory.trace,
      hmemory.userPid, hmemory.console⟩
    exact ⟨hunseen.follows hk, hunseen.userPid, fun pid _ => hunseen.process? pid⟩
  · exact createProcess_follows hk hchild hmemory hcreate

/-! ## One call after the other -/

/-- The client of a message that is being served waits for the server. -/
lemma caller_waits {callerId : ProcessId} {caller : Process} (hinv : Rendezvous.Inv k.ipc)
    (hproc : k.process? proc.id = some proc) (hserving : proc.currentlyServing = some callerId)
    (hcaller : k.process? callerId = some caller) :
    caller.state = .finished ∨ ∃ place, caller.state.status = .waiting proc.id place := by
  have hpending : callerId ∈ proc.peer.pending := by
    simp [Rendezvous.Peer.pending, Process.peer, hserving]
  rcases hinv.client (ipc_peer hproc) hpending (ipc_peer hcaller) with hdone | hwaiting
  · exact Or.inl (ProcessState.status_eq_done.mp hdone)
  · exact Or.inr hwaiting

section Calls

variable (hk : k.Ready) (hinv : Rendezvous.Inv k.ipc) (hrun : k.Running none)

include hk hrun

/-- What others cannot see, before the rest of a call. -/
lemma Unseen.before {action : Option SyscallAction} (hunseen : k.Unseen k')
    (hrest : k'.Ready → k'.Running none → k'.Follows k'' ∧ k''.Running action) :
    k.Follows k'' ∧ k''.Running action := by
  have hfollows := hunseen.follows hk
  have hend := hrest hfollows.ready (hunseen.running hrun)
  exact ⟨hfollows.trans hend.1, hend.2⟩

lemma exit_follows {r : Except SyscallAction Empty} (h : k.exit = .ok (k', r)) :
    k.Follows k' ∧ k'.Running (actionOf r) := by
  obtain ⟨proc, hproc, rfl, rfl⟩ := exit_cases h
  obtain ⟨hpid, hproc, -⟩ := hk.process hproc
  refine ⟨finish_follows hk rfl (hk.certified hproc)
    (finish_step hproc (hrun.runnable hpid hproc)), ?_⟩
  exact ⟨{ proc with state := .finished }, hpid, by rw [process?_setProcess, if_pos rfl],
    fun hy => absurd rfl hy⟩

include hinv

lemma ipcCall_follows {cap : RawCapability} {method : ℕ} {args result : UserSlice}
    {r : Except SyscallAction ℕ} (h : k.ipcCall P cap method args result = .ok (k', r)) :
    k.Follows k' ∧ k'.Running (actionOf r) := by
  obtain ⟨k₀, proc, root, huses, hproc, -, hcases⟩ := ipcCall_cases h
  rw [← huses.onlyMemory.ipc] at hinv
  refine huses.onlyMemory.unseen.before hk hrun fun hk hrun => ?_
  rcases hcases with hkill | ⟨server, dest, message, hsend, -, -, -, rfl, rfl⟩ |
    ⟨handler, bytes, sender, reply, k₁, -, -, -, hcall, hresult⟩
  · exact kill_runnable hk hrun hproc (by simp) hkill
  · exact sendMessage_follows hk hrun hproc hsend rfl (by simp [ProcessState.waitsFor])
  · -- the caller is still there, even when the method has created a process
    obtain ⟨hfollows, huser, hsame⟩ := callMethod_follows hk hcall
    have hrun₁ : k₁.Running none := by
      obtain ⟨hpid, hproc, -⟩ := hk.process hproc
      refine ⟨proc, huser.trans hpid, ?_, fun _ => hrun.runnable hpid hproc⟩
      rw [hsame _ (hinv.used (ipc_peer hproc)), hproc]
    rcases hresult with ⟨proc', hproc', hkill⟩ | ⟨hwrite, rfl⟩
    · have hend := kill_runnable hfollows.ready hrun₁ hproc' (by simp) hkill
      exact ⟨hfollows.trans hend.1, hend.2⟩
    · have hunseen := (writeToUser_onlyMemory hwrite).unseen
      exact ⟨hfollows.trans (hunseen.follows hfollows.ready), hunseen.running hrun₁⟩

omit hinv in
lemma ipcReceive_follows {args : UserSlice}
    {r : Except SyscallAction (Option RawCapability × ℕ × ℕ × Option ProcessId)}
    (h : k.ipcReceive args = .ok (k', r)) : k.Follows k' ∧ k'.Running (actionOf r) := by
  obtain ⟨proc, hproc, hkill | ⟨rfl, rfl⟩ | ⟨message, rest, hserving, hmessages, hcases⟩⟩ :=
    ipcReceive_cases h
  · exact kill_runnable hk hrun hproc (by simp) hkill
  · exact ⟨.refl hk, hrun⟩
  · obtain ⟨hpid, hproc, -⟩ := hk.process hproc
    have hrunnable := hrun.runnable hpid hproc
    have hidle : proc.peer.status = .idle := by simp [Process.peer, hrunnable, ProcessState.status]
    have hqueue : proc.peer.queue = (message.sender, message) ::
        rest.map fun message => (message.sender, message) := by simp [Process.peer, hmessages]
    have hcertified : Process.Certified { proc with messages := rest } := by
      intro m hm
      refine hk.certified hproc m ?_
      rw [hmessages]
      exact List.mem_cons_of_mem _ hm
    rcases hcases with hkill | ⟨k₁, hwrite, rfl, rfl⟩
    · have hstep := Rendezvous.Step.discard (s := k.ipc) (ipc_peer hproc) hidle hserving hqueue
      exact kill_follows hk { proc with messages := rest } hpid rfl hcertified hstep (by simp) hkill
    · have hmemory := writeToUser_onlyMemory hwrite
      have hready₁ := hmemory.ready hk
      refine ⟨⟨?_, ?_, ?_⟩, ?_⟩
      · have hput : (k₁.setProcess { proc with
            messages := rest, currentlyServing := some message.sender }).Ready :=
          hready₁.setProcess (hk.waits hproc : proc.state.waitsFor ≠ _) hcertified
        exact hput.congr rfl rfl
      · have hstep := Rendezvous.Step.take (s := k.ipc) (ipc_peer hproc) hidle hserving hqueue
        refine .single ?_
        rw [ipc_record, ipc_setProcess, hmemory.ipc]
        exact hstep
      · intro line hline _
        have hsame : k₁.console = k.console := hmemory.console
        exact hsame ▸ hline
      · refine ⟨{ proc with messages := rest, currentlyServing := some message.sender }, ?_, ?_,
          fun _ => hrunnable⟩
        · exact hmemory.userPid.trans hpid
        · exact (process?_setProcess k₁ _ _).trans (if_pos rfl)

lemma ipcReply_follows {result : UserSlice} {r : Except SyscallAction Unit}
    (h : k.ipcReply P result = .ok (k', r)) : k.Follows k' ∧ k'.Running (actionOf r) := by
  obtain ⟨k₀, proc, huses, hproc, hcases⟩ := ipcReply_cases h
  rw [← huses.onlyMemory.ipc] at hinv
  refine huses.onlyMemory.unseen.before hk hrun fun hk hrun => ?_
  rcases hcases with hkill | ⟨callerId, caller, hserving, hne, hcaller, hcases⟩
  · exact kill_runnable hk hrun hproc (by simp) hkill
  · obtain ⟨hpid, hproc', -⟩ := hk.process hproc
    have habandon : ∀ {reason : KillReason}, reason ≠ .waitingForSomeoneElse →
        (k', r) = k₀.kill { proc with currentlyServing := none } reason →
        k₀.Follows k' ∧ k'.Running (actionOf r) := by
      intro reason hne' hkill
      have hstep := Rendezvous.Step.abandon (s := k₀.ipc) (ipc_peer hproc')
        (by simp [Process.peer, hrun.runnable hpid hproc', ProcessState.status])
      exact kill_follows hk { proc with currentlyServing := none } hpid rfl
        (hk.certified hproc' : proc.Certified) hstep hne' hkill
    rcases hcases with ⟨server, hwaits, hother, -⟩ | ⟨buffer, reply, hstate, -, rfl, rfl⟩ |
      ⟨hstate, ⟨reason, hne', hkill⟩ | ⟨ring, declaredSize, rfl, rfl⟩⟩
    · -- the caller would wait for someone else
      exfalso
      rcases caller_waits hinv hproc' hserving hcaller with hfinished | ⟨place, hwaiting⟩
      · simp [hfinished, ProcessState.waitsFor] at hwaits
      · rcases ProcessState.status_eq_waiting.mp hwaiting with ⟨buffer, hsame, -⟩ | ⟨hsame, -⟩
        · simp only [hsame, ProcessState.waitsFor, Option.some.injEq] at hwaits
          exact hother hwaits.symm
        · simp only [hsame, ProcessState.waitsFor, Option.some.injEq] at hwaits
          exact hother hwaits.symm
    · exact sendReply_follows hk hrun hproc hserving hne hcaller (by rw [hstate]; rfl) rfl
        (by simp [ProcessState.waitsFor])
    · exact habandon hne' hkill
    · exact sendReply_follows hk hrun hproc hserving hne hcaller (by rw [hstate]; rfl) rfl
        (by simp [ProcessState.waitsFor])

omit hinv

lemma ipcStream_follows {cap : RawCapability} {stream : ℕ} {r : Except SyscallAction (ℕ × ℕ)}
    (h : k.ipcStream cap stream = .ok (k', r)) : k.Follows k' ∧ k'.Running (actionOf r) := by
  obtain ⟨k₀, proc, root, huses, hproc, -, hcases⟩ := ipcStream_cases h
  refine huses.onlyMemory.unseen.before hk hrun fun hk hrun => ?_
  rcases hcases with ⟨server, dest, message, hsend, -, -, -, rfl, rfl⟩ |
    ⟨handler, ring, layout, heap, -, -, -, hcases⟩
  · exact sendMessage_follows hk hrun hproc hsend rfl (by simp [ProcessState.waitsFor])
  · obtain ⟨hpid, hproc, -⟩ := hk.process hproc
    rcases hcases with ⟨-, rfl, rfl⟩ | ⟨virt, phys, pageTable, -, -, -, rfl, rfl⟩
    · have hspace : proc.OnlySpace { proc with heap := heap } := ⟨_, _, _, _, rfl⟩
      refine ⟨.setSpace hk hproc hspace, ?_⟩
      obtain ⟨proc', h₁, h₂, h₃⟩ := hrun.setSpace hpid hproc hspace
      exact ⟨proc', h₁, h₂, fun _ => h₃ (by simp)⟩
    · have hspace : proc.OnlySpace { proc with heap := heap, pageTable := pageTable } :=
        ⟨_, _, _, _, rfl⟩
      have hfollows := Follows.setSpace hk hproc hspace
      have hunseen : Unseen (k₀.setProcess { proc with heap := heap, pageTable := pageTable })
          (k₀.setProcess { proc with heap := heap, pageTable := pageTable }).sfenceVmaAll :=
        ⟨rfl, rfl, rfl, rfl, rfl⟩
      exact ⟨hfollows.trans (hunseen.follows hfollows.ready),
        hunseen.running (hrun.setSpace hpid hproc hspace)⟩

/-- Pages are given back because there was no room for them. -/
lemma noRoom_follows {proc : Process} {pages : Backing} {action : Option SyscallAction}
    (hproc : k.process [] = .ok proc) (h : NoRoom k k' proc pages) :
    k.Follows k' ∧ k'.Running action := by
  obtain ⟨e, proc', halloc, hdrop⟩ := h
  obtain ⟨hpid, hproc, -⟩ := hk.process hproc
  have hspace := Process.alloc_onlySpace halloc
  have hfollows := Follows.setSpace hk hproc hspace
  have hunseen := (dropBacking_onlyMemory hdrop).unseen
  refine ⟨hfollows.trans (hunseen.follows hfollows.ready), hunseen.running ?_⟩
  obtain ⟨proc'', h₁, h₂, h₃⟩ := hrun.setSpace hpid hproc hspace
  exact ⟨proc'', h₁, h₂, fun _ => h₃ (by simp)⟩

/-- The address space of the running process is replaced, and what follows concerns memory. -/
lemma setSpace_follows {proc proc' : Process} (hproc : k.process [] = .ok proc)
    (hspace : proc.OnlySpace proc') (hunseen : (k.setProcess proc').Unseen k') :
    k.Follows k' ∧ k'.Running none := by
  obtain ⟨hpid, hproc, -⟩ := hk.process hproc
  have hfollows := Follows.setSpace hk hproc hspace
  exact ⟨hfollows.trans (hunseen.follows hfollows.ready),
    hunseen.running (hrun.setSpace hpid hproc hspace)⟩

lemma alloc_follows {size : ℕ} {r : Except SyscallAction ℕ} (h : k.alloc size = .ok (k', r)) :
    k.Follows k' ∧ k'.Running (actionOf r) := by
  rcases alloc_cases h with ⟨rfl, rfl | ⟨layout, e, hpages⟩⟩ |
    ⟨layout, pages, k₁, proc, hfor, ⟨hroom, rfl⟩ | ⟨virt, proc', halloc, rfl, rfl⟩⟩
  · exact ⟨.refl hk, hrun.imp fun proc h => ⟨h.1, h.2.1, fun _ => h.2.2 (by simp)⟩⟩
  · refine (allocPages_onlyMemory hpages).unseen.before hk hrun fun hk hrun => ?_
    exact ⟨.refl hk, hrun.imp fun proc h => ⟨h.1, h.2.1, fun _ => h.2.2 (by simp)⟩⟩
  · refine hfor.onlyMemory.unseen.before hk hrun fun hk hrun => ?_
    exact noRoom_follows hk hrun hfor.proc hroom
  · refine hfor.onlyMemory.unseen.before hk hrun fun hk hrun => ?_
    exact setSpace_follows hk hrun hfor.proc (Process.alloc_onlySpace halloc)
      ⟨rfl, rfl, rfl, rfl, rfl⟩

lemma allocShared_follows {size : ℕ} {r : Except SyscallAction (ℕ × RawCapability)}
    (h : k.allocShared P size = .ok (k', r)) : k.Follows k' ∧ k'.Running (actionOf r) := by
  obtain ⟨layout, pages, k₁, proc, hfor, ⟨hroom, rfl⟩ |
    ⟨virt, proc', grantee, cap, halloc, hgrant, rfl⟩⟩ := allocShared_cases h
  · refine hfor.onlyMemory.unseen.before hk hrun fun hk hrun => ?_
    exact noRoom_follows hk hrun hfor.proc hroom
  · refine hfor.onlyMemory.unseen.before hk hrun fun hk hrun => ?_
    have hmemory := grantKernelCapability_onlyMemory hgrant
    exact setSpace_follows hk hrun hfor.proc (Process.alloc_onlySpace halloc)
      ⟨hmemory.processes, hmemory.processesReserved, hmemory.trace, hmemory.userPid,
        hmemory.console⟩

lemma mapShared_follows {cap : RawCapability} {r : Except SyscallAction (ℕ × ℕ)}
    (h : k.mapShared cap = .ok (k', r)) : k.Follows k' ∧ k'.Running (actionOf r) := by
  obtain ⟨k₀, proc, root, huses, hproc, -, hcases⟩ := mapShared_cases h
  refine huses.onlyMemory.unseen.before hk hrun fun hk hrun => ?_
  rcases hcases with hkill | ⟨handler, length, padded, layout, heap, -, -, -, -, -, hcases⟩
  · exact kill_runnable hk hrun hproc (by simp) hkill
  · have hheap : proc.OnlySpace { proc with heap := heap } := ⟨_, _, _, _, rfl⟩
    rcases hcases with ⟨-, rfl, rfl⟩ | ⟨virt, proc', -, hmap, rfl, rfl⟩
    · obtain ⟨hfollows, proc', h₁, h₂, h₃⟩ := setSpace_follows hk hrun hproc hheap
        ⟨rfl, rfl, rfl, rfl, rfl⟩
      exact ⟨hfollows, proc', h₁, h₂, fun _ => h₃ (by simp)⟩
    · exact setSpace_follows hk hrun hproc (hheap.trans (sharedMemoryMap_onlySpace hmap))
        ⟨rfl, rfl, rfl, rfl, rfl⟩

lemma free_follows {ptr : ℕ} {r : Except SyscallAction Unit} (h : k.free ptr = .ok (k', r)) :
    k.Follows k' ∧ k'.Running (actionOf r) := by
  obtain ⟨proc, hproc, ⟨-, hkill⟩ | ⟨proc', backing, hdealloc, hdrop, rfl⟩⟩ := free_cases h
  · exact kill_runnable hk hrun hproc (by simp) hkill
  · exact setSpace_follows hk hrun hproc (Process.dealloc_onlySpace hdealloc)
      (dropBacking_onlyMemory hdrop).unseen

lemma log_follows {message : UserSlice} {level : ℕ} {r : Except SyscallAction Unit}
    (h : k.log message level = .ok (k', r)) : k.Follows k' ∧ k'.Running (actionOf r) := by
  obtain ⟨k₀, proc, huses, hproc, hcases⟩ := log_cases h
  refine huses.onlyMemory.unseen.before hk hrun fun hk hrun => ?_
  rcases hcases with hkill | hkill | ⟨rfl, rfl⟩
  · exact kill_runnable hk hrun hproc (by simp) hkill
  · exact kill_runnable hk hrun hproc (by simp) hkill
  · exact ⟨.refl hk, hrun⟩

include hinv

/-- **Every system call is a run of the rendezvous.** -/
theorem eachCall_follows : EachCall P k fun k' action => k.Follows k' ∧ k'.Running action where
  registers := by
    rintro k' registers ⟨hfollows, hrunning⟩
    have hunseen : k'.Unseen { k' with registers := registers } := ⟨rfl, rfl, rfl, rfl, rfl⟩
    exact ⟨hfollows.trans (hunseen.follows hfollows.ready), hunseen.running hrunning⟩
  userErr := ⟨.refl hk, hrun.imp fun proc h => ⟨h.1, h.2.1, fun _ => h.2.2 (by simp)⟩⟩
  yield := ⟨.refl hk, hrun.imp fun proc h => ⟨h.1, h.2.1, fun _ => h.2.2 (by simp)⟩⟩
  exit := exit_follows hk hrun
  ipcCall := ipcCall_follows hk hinv hrun
  ipcReceive := ipcReceive_follows hk hrun
  ipcReply := ipcReply_follows hk hinv hrun
  ipcStream := ipcStream_follows hk hrun
  alloc _ := alloc_follows hk hrun
  allocShared _ := allocShared_follows hk hrun
  mapShared := mapShared_follows hk hrun
  free _ _ := free_follows hk hrun
  log := log_follows hk hrun

end Calls

end Kernel

end Deravel
