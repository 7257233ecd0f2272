import DeravelOs.Ipc.Calls

/-!
# The system is a run of the rendezvous

Traps and turns of the scheduler are runs of the rendezvous like the system calls, and `main` leaves
processes that have just joined.  What is proved of every run of `Rendezvous` therefore holds in
every state that the system reaches.

* `step_follows`: one step of the system.
* `Reachable.inOrder`: every reachable state.
-/

namespace Deravel

variable {P : Platform} {k k' : Kernel} {proc proc' next : Process} {pid : ProcessId}
  {mode mode' : Mode}

namespace Kernel

/-! ## Traps -/

lemma handlePageFault_follows {stval : ℕ} {r : Except SyscallAction Unit} (hk : k.Ready)
    (hrun : k.Running none) (h : k.handlePageFault stval = .ok (k', r)) :
    k.Follows k' ∧ k'.Running (actionOf r) := by
  obtain ⟨proc, hproc, hkill | ⟨proc', hagain⟩ |
    ⟨range, index, k₁, proc', -, -, -, -, hload, rfl, rfl⟩⟩ := handlePageFault_cases h
  · exact kill_runnable hk hrun hproc (by simp) hkill
  · exact absurd hagain (hk.process_locked hproc)
  · obtain ⟨mapping, contents, layout, page, k₀, k₂, phys, pageTable, -, -, hpage, huses, -, -, rfl,
      rfl⟩ := loadPage_cases hload
    have hmemory := (allocPages_onlyMemory hpage).trans huses.onlyMemory
    refine Unseen.before hk hrun ⟨hmemory.processes, hmemory.processesReserved, hmemory.trace,
      hmemory.userPid, hmemory.console⟩ fun hk hrun => ?_
    have hproc₂ : k₂.process [] = .ok proc :=
      (process_congr hmemory.processes hmemory.userPid []).trans hproc
    exact setSpace_follows hk hrun hproc₂ ⟨_, _, _, _, rfl⟩ ⟨rfl, rfl, rfl, rfl, rfl⟩

lemma onUserTrapImpl_follows {cause : Cause} {r : Except SyscallAction Unit} (hk : k.Ready)
    (hinv : Rendezvous.Inv k.ipc) (hrun : k.Running none)
    (h : k.onUserTrapImpl P cause = .ok (k', r)) : k.Follows k' ∧ k'.Running (actionOf r) := by
  rcases onUserTrapImpl_cases h with ⟨-, k₁, r₁, hcall, hcases⟩ | ⟨stores, -, rfl, rfl⟩ |
    ⟨stval, -, hfault⟩
  · obtain ⟨hfollows, hrunning⟩ := dispatchSyscall_rule (eachCall_follows hk hinv hrun) hcall
    rcases hcases with ⟨sepc, rfl, rfl, rfl⟩ | ⟨err, rfl, rfl, rfl⟩ |
      ⟨proc, pc, rfl, hproc, rfl, rfl⟩
    · have hunseen : k₁.Unseen { k₁ with sepc := sepc } := ⟨rfl, rfl, rfl, rfl, rfl⟩
      exact ⟨hfollows.trans (hunseen.follows hfollows.ready), hunseen.running hrunning⟩
    · exact ⟨hfollows, hrunning⟩
    · have hready := hfollows.ready
      obtain ⟨hpid, hproc, -⟩ := hready.process hproc
      refine ⟨hfollows.trans ?_, { proc with pc := pc }, hpid, ?_, fun hy => absurd rfl hy⟩
      · exact Follows.setProcess hready hproc rfl (hready.waits hproc : proc.state.waitsFor ≠ _)
          (hready.certified hproc : proc.Certified)
      · rw [process?_setProcess, if_pos rfl]
  · have hunseen : k.Unseen { k with memory := storeBytes k.memory stores } :=
      ⟨rfl, rfl, rfl, rfl, rfl⟩
    exact ⟨hunseen.follows hk, hunseen.running hrun⟩
  · exact handlePageFault_follows hk hrun hfault

/-- A process that does not wait is killed by the kernel's own code. -/
lemma killManual_follows {err : UserSyscallError} (hk : k.Ready)
    (hproc : k.process? proc.id = some proc)
    (hwaiting : ∀ server place, proc.state.status ≠ .waiting server place) :
    k.Follows (k.killManual proc (.userError err)) := by
  have hlog : k.Follows (k.logKill proc (.userError err)) := logKill_follows hk (by simp)
  exact hlog.trans (finish_follows hlog.ready rfl (hk.certified hproc)
    (.finish (ipc_peer hproc) hwaiting))

/-- **A trap is a run of the rendezvous.** -/
theorem onUserTrap_follows {cause : Cause} (hk : k.Ready) (hinv : Rendezvous.Inv k.ipc)
    (hrun : k.Running none) (h : k.onUserTrap P cause = .ok (k', mode)) :
    k.Follows k' ∧ (mode = .user → k'.Running none) := by
  obtain ⟨k₁, r, hcall, hcases⟩ := onUserTrap_cases h
  obtain ⟨hfollows, hrunning⟩ := onUserTrapImpl_follows hk hinv hrun hcall
  have hready := hfollows.ready
  rcases hcases with ⟨rfl, rfl, rfl⟩ | ⟨proc, hproc, rfl, ⟨err, rfl, rfl⟩ | ⟨rfl, rfl⟩⟩
  · exact ⟨hfollows, fun _ => hrunning⟩
  · refine ⟨hfollows.trans ?_, fun hmode => by cases hmode⟩
    obtain ⟨hpid, hproc, -⟩ := hready.process hproc
    refine killManual_follows hready hproc fun server place hwaiting => ?_
    obtain ⟨proc₁, h₁, h₂, h₃⟩ := hrunning
    have hrunnable := Running.runnable ⟨proc₁, h₁, h₂, fun _ => h₃ (by simp [actionOf])⟩ hpid hproc
    simp [hrunnable, ProcessState.status] at hwaiting
  · refine ⟨hfollows.trans ?_, fun hmode => by cases hmode⟩
    obtain ⟨hpid, hproc, -⟩ := hready.process hproc
    exact Follows.setProcess hready hproc rfl (hready.waits hproc : proc.state.waitsFor ≠ _)
      (hready.certified hproc : proc.Certified)

/-! ## The scheduler -/

lemma process?_of_remove {i : ℕ}
    (h : process? { k with processes := Function.update k.processes i none } pid = some proc) :
    k.process? pid = some proc := by
  change Function.update k.processes i none pid.asU16 = some proc at h
  rw [Function.update_apply] at h
  split at h
  · cases h
  · exact h

lemma ipc_remove (k : Kernel) (pid : ProcessId) :
    Kernel.ipc { k with processes := Function.update k.processes pid.asU16 none } =
      { k.ipc with peer := Function.update k.ipc.peer pid none } := by
  simp only [ipc, Rendezvous.State.mk.injEq, and_true]
  refine funext fun pid' => ?_
  change (Function.update k.processes pid.asU16 none pid'.asU16).map Process.peer = _
  rw [Function.update_apply, Function.update_apply]
  simp only [← ProcessId.ext_iff]
  split <;> rfl

/-- The scan stops the callers of dead servers and removes whoever has stopped. -/
lemma findRunnableProcess_follows (hk : k.Ready)
    (h : k.findRunnableProcess = .ok (k', some next)) :
    k.Follows k' ∧ k'.process? next.id = some next ∧ next.state.canRun = true := by
  refine scan_rule k.Follows (fun hfollows => hfollows.ready.slots) ?_ ?_ (.refl hk) h
  · rintro k₁ k₂ proc server hfollows hproc hwaits hne hdead rfl
    obtain ⟨place, hwaiting⟩ := ProcessState.status_of_waitsFor hwaits
    have hstep : Rendezvous.Step k₁.ipc
        (k₁.ipc.put proc.id { proc.peer with status := .done }) := by
      refine .orphan (ipc_peer hproc) hwaiting fun q hq => ?_
      obtain ⟨dest, hdest, rfl⟩ := exists_of_ipc_peer hq
      exact ProcessState.status_eq_done.mpr (hdead dest hdest)
    have hfinish := finish_follows hfollows.ready rfl (hfollows.ready.certified hproc) hstep
    exact (hfollows.trans hfinish).trans (logKill_follows hfinish.ready (by simp))
  · rintro k₁ k₂ i proc hfollows hproc rfl hfinished hreap
    have hmemory := reap_onlyMemory hreap
    have hremoved : Follows k₁ { k₁ with
        processes := Function.update k₁.processes proc.id.asU16 none } := by
      refine ⟨⟨hfollows.ready.slots.remove _, ?_, ?_, hfollows.ready.reserved⟩, ?_, ?_⟩
      · intro pid proc' hproc'
        exact hfollows.ready.waits (process?_of_remove hproc')
      · intro pid proc' hproc'
        exact hfollows.ready.certified (process?_of_remove hproc')
      · refine .single ?_
        rw [ipc_remove]
        exact .remove (ipc_peer hproc) (ProcessState.status_eq_done.mpr hfinished)
      · exact fun line hline _ => hline
    exact (hfollows.trans hremoved).trans (hmemory.unseen.follows hremoved.ready)

/-- The scan leaves a process as it was, or stops it. -/
lemma findRunnableProcess_same (hk : k.Ready)
    (h : k.findRunnableProcess = .ok (k', some next)) :
    (∀ pid proc', k'.process? pid = some proc' → ∃ proc, k.process? pid = some proc ∧
      (proc' = proc ∨ proc'.state = .finished)) ∧
      k'.processesReserved = k.processesReserved ∧ k'.trace = k.trace := by
  refine (scan_rule (fun k₁ => k₁.Slots ∧ (∀ pid proc', k₁.process? pid = some proc' →
    ∃ proc, k.process? pid = some proc ∧ (proc' = proc ∨ proc'.state = .finished)) ∧
    k₁.processesReserved = k.processesReserved ∧ k₁.trace = k.trace) (fun hi => hi.1) ?_ ?_
    ⟨hk.slots, fun _ proc' hproc => ⟨proc', hproc, Or.inl rfl⟩, rfl, rfl⟩ h).1.2
  · rintro k₁ k₂ proc server ⟨hslots, hsame, hreserved, htrace⟩ hproc - - - rfl
    refine ⟨(hslots.setProcess _).of_processes rfl, fun pid proc' hproc' => ?_, hreserved, htrace⟩
    change (k₁.setProcess _).process? pid = some proc' at hproc'
    rw [process?_setProcess] at hproc'
    split at hproc'
    · next heq =>
        obtain ⟨proc₀, hproc₀, -⟩ := hsame _ _ hproc
        cases hproc'
        exact ⟨proc₀, heq ▸ hproc₀, Or.inr rfl⟩
    · exact hsame pid proc' hproc'
  · rintro k₁ k₂ i proc ⟨hslots, hsame, hreserved, htrace⟩ - - - hreap
    have hmemory := reap_onlyMemory hreap
    refine ⟨(hslots.remove i).of_processes hmemory.processes, fun pid proc' hproc' => ?_,
      hmemory.processesReserved.trans hreserved, hmemory.trace.trans htrace⟩
    rw [hmemory.process?] at hproc'
    exact hsame pid proc' (process?_of_remove hproc')

lemma setUserspaceProcess_follows (hk : k.Ready) (next : Process) :
    k.Follows (k.setUserspaceProcess next) where
  ready := hk.congr rfl rfl
  run := .refl
  console _ hline _ := hline

/-- A process goes on with its answer. -/
lemma resumeWith_follows {place : ReturnPlace} {answer : Answer} (hk : k.Ready)
    (registers : RiscvRegisters) (hpid : k.userPid = some proc.id) (hproc : k.process? proc.id = some proc)
    (hspace : proc.OnlySpace next) (hanswered : proc.state.status = .answered place answer) :
    k.Follows (k.resumeWith next registers place answer) ∧
      (k.resumeWith next registers place answer).Running none := by
  obtain ⟨pageTable, heap, allocated, virtualMemoryMappings, rfl⟩ := hspace
  refine ⟨⟨?_, ?_, fun line hline _ => hline⟩, ?_⟩
  · have hput : (k.setProcess { proc with
        pageTable := pageTable
        heap := heap
        allocated := allocated
        virtualMemoryMappings := virtualMemoryMappings
        registers := registers
        state := .runnable }).Ready :=
      hk.setProcess (by simp [ProcessState.waitsFor]) (hk.certified hproc : proc.Certified)
    exact hput.congr rfl rfl
  · have hstep := Rendezvous.Step.resume (s := k.ipc) (ipc_peer hproc) hanswered
    refine .single ?_
    have hsame : ∀ k₁ : Kernel, Kernel.ipc { k₁ with registers := registers } = k₁.ipc :=
      fun _ => rfl
    rw [resumeWith, hsame, ipc_record, ipc_setProcess]
    exact hstep
  · let resumed : Process := { proc with
      pageTable := pageTable
      heap := heap
      allocated := allocated
      virtualMemoryMappings := virtualMemoryMappings
      registers := registers
      state := .runnable }
    exact ⟨resumed, hpid, (process?_setProcess k resumed _).trans (if_pos rfl), fun _ => rfl⟩

lemma resumeProcess_follows {r : Except UserSyscallError Unit} (hk : k.Ready)
    (hnext : k.process? next.id = some next) (h : k.resumeProcess next = .ok (k', r)) :
    k.Follows k' ∧ (r = .ok () → k'.Running none) ∧
      (∀ err, r = .error err → k'.userPid = some next.id ∧ k'.process? next.id = some next ∧
        ∀ server place, next.state.status ≠ .waiting server place) := by
  have hfirst := setUserspaceProcess_follows hk next
  rcases resumeProcess_cases h with ⟨hstate, rfl, rfl⟩ | ⟨reply, buffer, hstate, hcases⟩ |
    ⟨ring, declaredSize, handler, length, layout, virt, heap, k₁, next', hstate, huses, -, -, -, -,
      hmap, rfl, rfl⟩
  · refine ⟨⟨hk.congr rfl rfl, .refl, fun line hline _ => hline⟩, fun _ => ?_, fun err herr => ?_⟩
    · exact ⟨next, rfl, hnext, fun _ => hstate⟩
    · cases herr
  · rcases hcases with ⟨rfl, rfl⟩ | ⟨k₁, hwrite, rfl, rfl⟩
    · refine ⟨hfirst, fun hr => (by cases hr), fun err _ => ⟨rfl, hnext, ?_⟩⟩
      simp [hstate, ProcessState.status]
    · have hmemory := writeToUser_onlyMemory hwrite
      have hready := hmemory.ready hfirst.ready
      have hend := resumeWith_follows hready (Function.update next.registers .a0 reply.length)
        hmemory.userPid ((hmemory.process? _).trans hnext) (.refl next) (by rw [hstate]; rfl)
      refine ⟨(hfirst.trans (hmemory.unseen.follows hfirst.ready)).trans hend.1, fun _ => hend.2,
        fun err herr => ?_⟩
      cases herr
  · have hspace : next.OnlySpace next' :=
      Process.OnlySpace.trans ⟨_, heap, _, _, rfl⟩ (sharedMemoryMap_onlySpace hmap)
    have hmemory := huses.onlyMemory
    have hend := resumeWith_follows (hmemory.ready hfirst.ready)
      (Function.update (Function.update next'.registers .a0 virt) .a1 declaredSize) hmemory.userPid
      ((hmemory.process? _).trans hnext) hspace (by rw [hstate]; rfl)
    have hunseen : ∀ k₁ : Kernel, k₁.Unseen k₁.sfenceVmaAll := fun _ => ⟨rfl, rfl, rfl, rfl, rfl⟩
    have hbefore := hfirst.trans (hmemory.unseen.follows hfirst.ready)
    refine ⟨(hbefore.trans hend.1).trans ((hunseen _).follows hend.1.ready),
      fun _ => (hunseen _).running hend.2, fun err herr => ?_⟩
    cases herr

/-- **A turn of the scheduler is a run of the rendezvous.** -/
theorem scheduleUserspace_follows (hk : k.Ready) (h : k.scheduleUserspace = .ok (k', mode)) :
    k.Follows k' ∧ (mode = .user → k'.Running none) := by
  obtain ⟨k₁, next, k₂, r, hfind, hresume, hcases⟩ := scheduleUserspace_cases h
  obtain ⟨hscan, hnext, -⟩ := findRunnableProcess_follows hk hfind
  obtain ⟨hfollows, hrunning, hfailed⟩ := resumeProcess_follows hscan.ready hnext hresume
  have hall := hscan.trans hfollows
  rcases hcases with ⟨rfl, rfl, rfl⟩ | ⟨err, proc, rfl, hproc, rfl, rfl⟩
  · exact ⟨hall, fun _ => hrunning rfl⟩
  · obtain ⟨hpid, hnext₂, hwaiting⟩ := hfailed err rfl
    obtain ⟨hpid', hproc, -⟩ := hall.ready.process hproc
    rw [hpid] at hpid'
    rw [← Option.some.inj hpid', hnext₂] at hproc
    cases hproc
    exact ⟨hall.trans (killManual_follows hall.ready hnext₂ hwaiting), fun hmode => by cases hmode⟩

/-! ## Boot -/

/-- The kernel while it boots: processes have been created and nothing else has happened. -/
structure Booting (k : Kernel) : Prop where
  slots : k.Slots
  fresh : ∀ {pid proc}, k.process? pid = some proc → Process.Fresh pid proc
  used : ∀ {pid proc}, k.process? pid = some proc → pid.asU16 ≤ k.processesReserved
  reserved : k.processesReserved ≤ maxProcesses
  trace : k.trace = []
  console : k.console = []

lemma Unseen.booting (h : k.Unseen k') (hk : k.Booting) : k'.Booting where
  slots := hk.slots.of_processes h.processes
  fresh hproc := hk.fresh ((h.process? _).symm.trans hproc)
  used hproc := h.processesReserved ▸ hk.used ((h.process? _).symm.trans hproc)
  reserved := h.processesReserved ▸ hk.reserved
  trace := h.trace.trans hk.trace
  console := h.console.trans hk.console

namespace Booting

lemma ready (hk : k.Booting) : k.Ready where
  slots := hk.slots
  waits hproc := by simp [(hk.fresh hproc).state, ProcessState.waitsFor]
  certified hproc := by simp [Process.Certified, (hk.fresh hproc).messages]
  reserved := hk.reserved

lemma initial (hk : k.Booting) : Rendezvous.Initial k.ipc where
  used pid p hp := by
    obtain ⟨proc, hproc, -⟩ := exists_of_ipc_peer hp
    exact hk.used hproc
  new pid p hp := by
    obtain ⟨proc, hproc, rfl⟩ := exists_of_ipc_peer hp
    exact (hk.fresh hproc).peer
  history := by simp [ipc, hk.trace]

lemma reserveProcess {exported : RawCapability} (hk : k.Booting)
    (h : k.reserveProcess = .ok (pid, exported, k')) :
    k'.Booting ∧ k'.processesReserved = k.processesReserved + 1 ∧
      pid.asU16 = k.processesReserved + 1 := by
  obtain ⟨hpid, rfl⟩ := reserveProcess_eq_ok h
  have hnumber := ProcessId.new_next hk.reserved hpid
  refine ⟨⟨hk.slots, hk.fresh, ?_, ?_, hk.trace, hk.console⟩, rfl, hnumber⟩
  · exact fun hproc => Nat.le_succ_of_le (hk.used hproc)
  · change k.processesReserved + 1 ≤ maxProcesses
    rw [← hnumber]
    exact pid.le_max

lemma reserveKernelCapability {handler : Handler} {cap : RawCapability} (hk : k.Booting)
    (h : k.reserveKernelCapability handler = .ok (cap, k')) :
    k'.Booting ∧ k'.processesReserved = k.processesReserved := by
  obtain ⟨-, -, rfl⟩ := reserveKernelCapability_eq_ok h
  have hunseen : k.Unseen { k with handlers := k.handlers ++ [handler] } :=
    ⟨rfl, rfl, rfl, rfl, rfl⟩
  exact ⟨hunseen.booting hk, rfl⟩

lemma spawn {elf : Elf} {args : List RawCapability} (hk : k.Booting)
    (hpid : pid.asU16 ≤ k.processesReserved) (h : k.spawn P elf pid args = .ok k') :
    k'.Booting ∧ k'.processesReserved = k.processesReserved := by
  obtain ⟨k₁, hgrant, hcreate⟩ := Checked.bind_eq_ok.mp h
  have hmemory := Checked.foldlM_keeps k.OnlyMemory (OnlyMemory.refl k)
    (fun cap _ s s' hs hstep => hs.trans (storeCertificate_onlyMemory hstep)) hgrant
  obtain ⟨k₂, proc, hmemory₂, hfresh, -, rfl⟩ := createProcess_frame hcreate
  have hall := hmemory.trans hmemory₂
  have hk₂ := hall.unseen.booting hk
  refine ⟨⟨hk₂.slots.setProcess proc, ?_, ?_, hk₂.reserved, hk₂.trace, hk₂.console⟩,
    hall.processesReserved⟩
  · intro pid' proc' hproc'
    rw [process?_setProcess] at hproc'
    split at hproc'
    · next heq =>
        cases hproc'
        rw [heq, hfresh.id]
        exact hfresh
    · exact hk₂.fresh hproc'
  · intro pid' proc' hproc'
    rw [process?_setProcess] at hproc'
    split at hproc'
    · next heq =>
        rw [heq, hfresh.id]
        exact hpid.trans_eq hall.processesReserved.symm
    · exact hk₂.used hproc'

end Booting

lemma initializeAllPci_unseen (h : initializeAllPci P k = .ok k') : k.Unseen k' := by
  simp only [initializeAllPci] at h
  split at h
  · obtain ⟨⟨cursorImage, k₁⟩, h₁, h⟩ := Checked.bind_eq_ok.mp h
    obtain ⟨⟨framebuffer, k₂⟩, h₂, h⟩ := Checked.bind_eq_ok.mp h
    obtain ⟨⟨keyboardRing, k₃⟩, h₃, h⟩ := Checked.bind_eq_ok.mp h
    obtain ⟨⟨mouseRing, k₄⟩, h₄, h⟩ := Checked.bind_eq_ok.mp h
    cases h
    have hmemory := ((newPages_onlyMemory h₁).trans (newPages_onlyMemory h₂)).trans
      ((newPages_onlyMemory h₃).trans (newPages_onlyMemory h₄))
    exact ⟨hmemory.processes, hmemory.processesReserved, hmemory.trace, hmemory.userPid,
      hmemory.console⟩
  · cases h

lemma startProcesses_booting (hk : k.Booting) (h : startProcesses P k = .ok k') : k'.Booting := by
  obtain ⟨⟨fat, fatExport, k₁⟩, h₁, h⟩ := Checked.bind_eq_ok.mp h
  obtain ⟨⟨windowing, windowingExport, k₂⟩, h₂, h⟩ := Checked.bind_eq_ok.mp h
  obtain ⟨⟨display, k₃⟩, h₃, h⟩ := Checked.bind_eq_ok.mp h
  obtain ⟨⟨keyboard, k₄⟩, h₄, h⟩ := Checked.bind_eq_ok.mp h
  obtain ⟨⟨mouse, k₅⟩, h₅, h⟩ := Checked.bind_eq_ok.mp h
  obtain ⟨⟨imageViewer, k₆⟩, h₆, h⟩ := Checked.bind_eq_ok.mp h
  obtain ⟨⟨net, k₇⟩, h₇, h⟩ := Checked.bind_eq_ok.mp h
  obtain ⟨⟨shutdown, k₈⟩, h₈, h⟩ := Checked.bind_eq_ok.mp h
  obtain ⟨⟨terminal, k₉⟩, h₉, h⟩ := Checked.bind_eq_ok.mp h
  obtain ⟨⟨shell, k₁₀⟩, h₁₀, h⟩ := Checked.bind_eq_ok.mp h
  obtain ⟨k₁₁, h₁₁, h⟩ := Checked.bind_eq_ok.mp h
  obtain ⟨⟨drive, k₁₂⟩, h₁₂, h⟩ := Checked.bind_eq_ok.mp h
  obtain ⟨b₁, e₁, hfat⟩ := hk.reserveProcess h₁
  obtain ⟨b₂, e₂, hwindowing⟩ := b₁.reserveProcess h₂
  obtain ⟨b₃, e₃⟩ := b₂.reserveKernelCapability h₃
  obtain ⟨b₄, e₄⟩ := b₃.reserveKernelCapability h₄
  obtain ⟨b₅, e₅⟩ := b₄.reserveKernelCapability h₅
  obtain ⟨b₆, e₆⟩ := b₅.reserveKernelCapability h₆
  obtain ⟨b₇, e₇⟩ := b₆.reserveKernelCapability h₇
  obtain ⟨b₈, e₈⟩ := b₇.reserveKernelCapability h₈
  obtain ⟨b₉, e₉⟩ := b₈.reserveKernelCapability h₉
  obtain ⟨b₁₀, e₁₀⟩ := b₉.reserveKernelCapability h₁₀
  have hreserved : k₁₀.processesReserved = k₁.processesReserved + 1 := by
    rw [e₁₀, e₉, e₈, e₇, e₆, e₅, e₄, e₃, e₂]
  obtain ⟨b₁₁, e₁₁⟩ := b₁₀.spawn (by rw [hwindowing, hreserved]) h₁₁
  obtain ⟨b₁₂, e₁₂⟩ := b₁₁.reserveKernelCapability h₁₂
  refine (b₁₂.spawn ?_ h).1
  rw [e₁₂, e₁₁, hreserved, hfat, e₁]
  exact Nat.le_succ _

/-- Nothing has happened between processes when `main` calls the scheduler. -/
theorem main_booting {oracle : Oracle} (h : main P oracle = .ok k) : k.Booting := by
  obtain ⟨heap, -, h⟩ := Checked.bind_eq_ok.mp h
  obtain ⟨k₁, hpci, h⟩ := Checked.bind_eq_ok.mp h
  refine startProcesses_booting ((initializeAllPci_unseen hpci).booting ?_) h
  refine ⟨?_, ?_, ?_, Nat.zero_le _, rfl, rfl⟩
  · intro i proc hproc
    cases hproc
  · intro pid proc hproc
    cases hproc
  · intro pid proc hproc
    cases hproc

end Kernel

/-! ## Runs -/

/-- **One step of the system is a run of the rendezvous.** -/
theorem step_follows {cause : Option Cause} (hk : k.Ready) (hinv : Rendezvous.Inv k.ipc)
    (hrun : mode = .user → k.Running none) (h : Step P (k, mode) cause (k', mode')) :
    k.Follows k' ∧ (mode' = .user → k'.Running none) := by
  cases h with
  | user huser =>
      have hunseen : k.Unseen k' := by
        rw [huser.same]
        exact ⟨rfl, rfl, rfl, rfl, rfl⟩
      exact ⟨hunseen.follows hk, fun _ => hunseen.running (hrun rfl)⟩
  | trap oracle htrap =>
      have hunseen : k.Unseen { k with oracle := oracle } := ⟨rfl, rfl, rfl, rfl, rfl⟩
      have hend := Kernel.onUserTrap_follows (hunseen.follows hk).ready hinv
        (hunseen.running (hrun rfl)) htrap
      exact ⟨(hunseen.follows hk).trans hend.1, hend.2⟩
  | schedule oracle hschedule =>
      have hunseen : k.Unseen { k with oracle := oracle } := ⟨rfl, rfl, rfl, rfl, rfl⟩
      have hend := Kernel.scheduleUserspace_follows (hunseen.follows hk).ready hschedule
      exact ⟨(hunseen.follows hk).trans hend.1, hend.2⟩

/-- What holds of the processes in every reachable state. -/
structure Kernel.InOrder (k : Kernel) (mode : Mode) : Prop where
  ready : k.Ready
  inv : Rendezvous.Inv k.ipc
  live : Rendezvous.Live k.ipc
  historyInv : Rendezvous.HistoryInv k.ipc
  atRest : Rendezvous.AtRest k.ipc
  running : mode = .user → k.Running none
  console : ∀ line ∈ k.console, line.2.2 ≠ .waitingForSomeoneElse

/-- Only what concerns processes matters. -/
lemma Kernel.InOrder.unseen (h : k.InOrder mode) (hsame : k.Unseen k') : k'.InOrder mode := by
  have hipc : k'.ipc = k.ipc := Kernel.ipc_congr hsame.processes hsame.processesReserved hsame.trace
  exact ⟨h.ready.congr hsame.processes hsame.processesReserved, hipc ▸ h.inv, hipc ▸ h.live,
    hipc ▸ h.historyInv, hipc ▸ h.atRest, fun hmode => hsame.running (h.running hmode),
    hsame.console ▸ h.console⟩

lemma Kernel.InOrder.withOracle (h : k.InOrder mode) (oracle : Oracle) :
    Kernel.InOrder { k with oracle := oracle } mode := h.unseen ⟨rfl, rfl, rfl, rfl, rfl⟩

/-- **Every reachable state is in order.** -/
theorem Reachable.inOrder {s : Kernel × Mode} (h : Reachable P s) : s.1.InOrder s.2 := by
  induction h with
  | main oracle h =>
      have hboot := Kernel.main_booting h
      have hinitial := hboot.initial
      refine ⟨hboot.ready, .initial hinitial, .initial hinitial, .initial hinitial,
        .initial hinitial, fun hmode => ?_, ?_⟩
      · cases hmode
      · simp [hboot.console]
  | @step s s' cause reachable hstep ih =>
      obtain ⟨k, mode⟩ := s
      obtain ⟨k', mode'⟩ := s'
      obtain ⟨hfollows, hrunning⟩ := step_follows ih.ready ih.inv ih.running hstep
      exact ⟨hfollows.ready, hfollows.run.inv ih.inv, hfollows.run.live ih.inv ih.live,
        hfollows.run.historyInv ih.inv ih.historyInv, hfollows.run.atRest ih.inv ih.atRest,
        hrunning, fun line hline hwaiting =>
          ih.console line (hfollows.console line hline hwaiting) hwaiting⟩

end Deravel
