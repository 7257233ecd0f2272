import DeravelOs.System.Context

/-!
# What is delivered

The trace of the kernel says what was sent, received, answered and resumed between processes.  The
rendezvous says in which order such events come; this module says what they mean: for each of them,
what the system call of that step read from its caller, and what it wrote for it.

* `Syscall.Tells`: the event of a system call, with its arguments and its results.
* `Shows`: the event of a step.
* `Reachable.delivery`: in every reachable state messages have been received in the order in which
  they were sent, and callers have gone on with the answers to their messages.
-/

namespace Deravel

variable {P : Platform} {k k' : Kernel} {proc : Process} {pid : ProcessId} {mode mode' : Mode}

/-! ## System calls -/

/-- What the event of a system call says about its arguments and results.  A call without an event
has not received or answered a message, and a caller that called a process has ended. -/
inductive Syscall.Tells (P : Platform) (k : Kernel) :
    Syscall → Kernel → Except SyscallAction (List ℕ) → Option IpcEvent → Prop
  | called {k' : Kernel} {cap : RawCapability} {method : ℕ} {args result : UserSlice}
      {server : ProcessId} {message : Message} (sender : k.userPid = some message.sender)
      (capability : k.validate cap message.sender = .ok (.ok message.cap))
      (certifier : message.cap.certifier = .ok (.userspace server))
      (method_eq : message.method = method) (bytes : k.readUser args = .ok message.args) :
      Tells P k (.ipcCall cap method args result) k' (.error .yield)
        (some (.sent server message (.buffer result)))
  | streamed {k' : Kernel} {cap : RawCapability} {stream : ℕ} {server : ProcessId}
      {message : Message} (sender : k.userPid = some message.sender)
      (capability : k.validate cap message.sender = .ok (.ok message.cap))
      (certifier : message.cap.certifier = .ok (.userspace server))
      (method_eq : message.method = 1000 + stream) (no_bytes : message.args = []) :
      Tells P k (.ipcStream cap stream) k' (.error .yield)
        (some (.sent server message .streamMap))
  | received {k₁ k' : Kernel} {args : UserSlice} {server : ProcessId} {message : Message}
      (receiver : k.userPid = some server)
      (bytes : k.writeToUser args message.args = .ok (.ok k₁)) (memory : k'.memory = k₁.memory) :
      Tells P k (.ipcReceive args) k'
        (.ok [message.cap.asUsize, message.method, message.args.length, message.sender.asU16])
        (some (.received server message))
  | replied {k' : Kernel} {result : UserSlice} {server caller : ProcessId} {reply : List UInt8}
      (replier : k.userPid = some server) (bytes : k.readUser result = .ok reply) :
      Tells P k (.ipcReply result) k' (.ok []) (some (.replied server caller (.bytes reply)))
  | repliedRing {k' : Kernel} {result : UserSlice} {server caller : ProcessId}
      {ring : RawCapability} {declaredSize : ℕ} (replier : k.userPid = some server) :
      Tells P k (.ipcReply result) k' (.ok [])
        (some (.replied server caller (.ring ring declaredSize)))
  | silent {call : Syscall} {k' : Kernel} {r : Except SyscallAction (List ℕ)}
      (receive : ∀ args results, call = .ipcReceive args → r = .ok results → results = [0, 0, 0, 0])
      (reply : ∀ result results, call = .ipcReply result → r ≠ .ok results)
      (call_process : ∀ cap method args result pid root server,
        call = .ipcCall cap method args result → k.userPid = some pid →
        k.validate cap pid = .ok (.ok root) → root.certifier = .ok (.userspace server) →
        ∀ proc, k'.process? pid = some proc → proc.state = .finished) :
      Tells P k call k' r none

namespace Kernel

lemma createProcess_trace {elf : Elf} {child : ProcessId} {caps : List RawCapability}
    (h : createProcess P k elf child caps = .ok k') : k'.trace = k.trace := by
  obtain ⟨k₁, proc, hmemory, -, -, rfl⟩ := createProcess_frame h
  exact hmemory.trace

lemma callMethod_trace {handler : Handler} {method : ℕ} {args reply : List UInt8}
    {sender : ProcessId} (h : k.callMethod P handler method args sender = .ok (reply, k')) :
    k'.trace = k.trace := by
  rcases callMethod_cases h with rfl | ⟨backing, -, hmemory⟩ | ⟨sectorOffset, size, -, hmemory⟩ |
    ⟨elf, child, caps, k₁, -, -, hmemory, hcreate⟩
  · rfl
  · exact hmemory.trace
  · exact hmemory.trace
  · exact (createProcess_trace hcreate).trans hmemory.trace

/-- A call that is none of IPC and leaves the trace alone. -/
lemma tells_silent {call : Syscall} {r : Except SyscallAction (List ℕ)}
    (hcall : ∀ cap method args result, call ≠ .ipcCall cap method args result)
    (hreceive : ∀ args, call ≠ .ipcReceive args) (hreply : ∀ result, call ≠ .ipcReply result)
    (htrace : k'.trace = k.trace) :
    ∃ event, k'.trace = k.trace ++ event.toList ∧ call.Tells P k k' r event := by
  refine ⟨none, by rw [htrace, Option.toList_none, List.append_nil], .silent ?_ ?_ ?_⟩
  · exact fun args results heq => absurd heq (hreceive args)
  · exact fun result results heq => absurd heq (hreply result)
  · exact fun cap method args result pid root server heq => absurd heq (hcall cap method args result)

section Calls

variable (hk : k.Ready)

include hk

lemma ipcCall_tells {cap : RawCapability} {method : ℕ} {args result : UserSlice}
    {r : Except SyscallAction ℕ} (h : k.ipcCall P cap method args result = .ok (k', r)) :
    ∃ event, k'.trace = k.trace ++ event.toList ∧
      Syscall.Tells P k (.ipcCall cap method args result) k' ((fun len => [len]) <$> r) event := by
  obtain ⟨k₁, proc, root, huses, hproc, hroot, hcases⟩ := ipcCall_cases h
  obtain ⟨hpid, -, -⟩ := (huses.onlyMemory.ready hk).process hproc
  have htrace := huses.onlyMemory.trace
  have huserPid := huses.onlyMemory.userPid
  rw [huses.validate] at hroot
  rcases hcases with hkill | ⟨server, dest, message, hsend, rfl, rfl, hargs, rfl, rfl⟩ |
    ⟨handler, bytes, sender, reply, k₂, hcertifier, -, -, hcall, hwrite⟩
  · -- the callee is not there, and the caller is killed
    cases hkill
    refine ⟨none, htrace.trans (List.append_nil _).symm, .silent ?_ ?_ ?_⟩
    · exact fun args results heq => by cases heq
    · exact fun result results heq => by cases heq
    · rintro cap' method' args' result' pid root' server - hpid' - - proc' hproc'
      rw [← huserPid] at hpid'
      obtain rfl : proc.id = pid := Option.some.inj (hpid.symm.trans hpid')
      rw [process?_setProcess, if_pos rfl] at hproc'
      cases hproc'
      rfl
  · have hsender : message.sender = proc.id := Option.some.inj (hsend.sender.symm.trans hpid)
    exact ⟨_, congrArg (· ++ _) htrace, .called (huserPid ▸ hsend.sender) (hsender ▸ hroot)
      hsend.certifier rfl (huses.readUser args ▸ hargs)⟩
  · -- the kernel is the callee
    have hsilent : k'.trace = k.trace := by
      rcases hwrite with ⟨proc', -, hkill⟩ | ⟨hwrite, -⟩
      · cases hkill
        exact (callMethod_trace hcall : k₂.trace = k₁.trace).trans htrace
      · exact (writeToUser_onlyMemory hwrite).trace.trans ((callMethod_trace hcall).trans htrace)
    refine ⟨none, by rw [hsilent, Option.toList_none, List.append_nil], .silent ?_ ?_ ?_⟩
    · exact fun args results heq => by cases heq
    · exact fun result results heq => by cases heq
    · intro cap' method' args' result' pid root' server heq hpid' hroot' hserver
      rw [← huserPid] at hpid'
      obtain rfl : proc.id = pid := Option.some.inj (hpid.symm.trans hpid')
      cases heq
      rw [hroot] at hroot'
      cases hroot'
      rw [hcertifier] at hserver
      cases hserver

lemma ipcReceive_tells {args : UserSlice}
    {r : Except SyscallAction (Option RawCapability × ℕ × ℕ × Option ProcessId)}
    (h : k.ipcReceive args = .ok (k', r)) :
    ∃ event, k'.trace = k.trace ++ event.toList ∧
      Syscall.Tells P k (.ipcReceive args) k' ((fun (cap, method, len, sender) =>
        [capabilityReg cap, method, len, processIdReg sender]) <$> r) event := by
  obtain ⟨proc, hproc, hcases⟩ := ipcReceive_cases h
  obtain ⟨hpid, -, -⟩ := hk.process hproc
  have hkilled : ∀ {proc : Process} {reason : KillReason}, (k', r) = k.kill proc reason →
      ∃ event, k'.trace = k.trace ++ event.toList ∧
        Syscall.Tells P k (.ipcReceive args) k' ((fun (cap, method, len, sender) =>
          [capabilityReg cap, method, len, processIdReg sender]) <$> r) event := by
    intro proc reason hkill
    cases hkill
    refine ⟨none, (List.append_nil _).symm, .silent ?_ ?_ ?_⟩
    · exact fun args results _ heq => by cases heq
    · exact fun result results heq => by cases heq
    · exact fun _ _ _ _ _ _ _ heq => by cases heq
  rcases hcases with hkill | ⟨rfl, rfl⟩ | ⟨message, rest, -, -, hkill | ⟨k₁, hwrite, rfl, rfl⟩⟩
  · exact hkilled hkill
  · refine ⟨none, (List.append_nil _).symm, .silent ?_ ?_ ?_⟩
    · exact fun args results _ heq => by cases heq; rfl
    · exact fun result results heq => by cases heq
    · exact fun _ _ _ _ _ _ _ heq => by cases heq
  · exact hkilled hkill
  · refine ⟨some (.received proc.id message), ?_, .received hpid hwrite rfl⟩
    exact congrArg (· ++ _) (writeToUser_onlyMemory hwrite).trace

lemma ipcReply_tells {result : UserSlice} {r : Except SyscallAction Unit}
    (h : k.ipcReply P result = .ok (k', r)) :
    ∃ event, k'.trace = k.trace ++ event.toList ∧
      Syscall.Tells P k (.ipcReply result) k' ((fun _ => []) <$> r) event := by
  obtain ⟨k₁, proc, huses, hproc, hcases⟩ := ipcReply_cases h
  obtain ⟨hpid, -, -⟩ := (huses.onlyMemory.ready hk).process hproc
  have htrace := huses.onlyMemory.trace
  rw [huses.onlyMemory.userPid] at hpid
  have hkilled : ∀ {proc : Process} {reason : KillReason}, (k', r) = k₁.kill proc reason →
      ∃ event, k'.trace = k.trace ++ event.toList ∧
        Syscall.Tells P k (.ipcReply result) k' ((fun _ => []) <$> r) event := by
    intro proc reason hkill
    cases hkill
    refine ⟨none, htrace.trans (List.append_nil _).symm, .silent ?_ ?_ ?_⟩
    · exact fun args results heq => by cases heq
    · exact fun result results _ heq => by cases heq
    · exact fun _ _ _ _ _ _ _ heq => by cases heq
  rcases hcases with hkill | ⟨callerId, caller, -, -, -, ⟨server, -, -, hkill⟩ |
    ⟨buffer, reply, -, hreply, rfl, rfl⟩ | ⟨-, ⟨reason, -, hkill⟩ | ⟨ring, declaredSize, rfl, rfl⟩⟩⟩
  · exact hkilled hkill
  · exact hkilled hkill
  · exact ⟨_, congrArg (· ++ _) htrace, .replied hpid (huses.readUser result ▸ hreply)⟩
  · exact hkilled hkill
  · exact ⟨_, congrArg (· ++ _) htrace, .repliedRing hpid⟩

lemma ipcStream_tells {cap : RawCapability} {stream : ℕ} {r : Except SyscallAction (ℕ × ℕ)}
    (h : k.ipcStream cap stream = .ok (k', r)) :
    ∃ event, k'.trace = k.trace ++ event.toList ∧
      Syscall.Tells P k (.ipcStream cap stream) k' ((fun (virt, len) => [virt, len]) <$> r)
        event := by
  obtain ⟨k₁, proc, root, huses, hproc, hroot, hcases⟩ := ipcStream_cases h
  obtain ⟨hpid, -, -⟩ := (huses.onlyMemory.ready hk).process hproc
  have htrace := huses.onlyMemory.trace
  rw [huses.validate] at hroot
  rcases hcases with ⟨server, dest, message, hsend, rfl, hmethod, hargs, rfl, rfl⟩ |
    ⟨handler, ring, layout, heap, -, -, -, ⟨-, rfl, rfl⟩ |
      ⟨virt, phys, pageTable, -, -, -, rfl, rfl⟩⟩
  · have hsender : message.sender = proc.id := Option.some.inj (hsend.sender.symm.trans hpid)
    exact ⟨_, congrArg (· ++ _) htrace, .streamed (huses.onlyMemory.userPid ▸ hsend.sender)
      (hsender ▸ hroot) hsend.certifier hmethod hargs⟩
  · exact tells_silent (by simp) (by simp) (by simp) htrace
  · exact tells_silent (by simp) (by simp) (by simp) htrace

omit hk in
lemma noRoom_trace {k₁ : Kernel} {pages : Backing} (h : NoRoom k₁ k' proc pages) :
    k'.trace = k₁.trace := by
  obtain ⟨e, proc', -, hdrop⟩ := h
  exact (dropBacking_onlyMemory hdrop).trace

omit hk in
lemma alloc_trace {size : ℕ} {r : Except SyscallAction ℕ} (h : k.alloc size = .ok (k', r)) :
    k'.trace = k.trace := by
  rcases alloc_cases h with ⟨-, rfl | ⟨layout, e, hpages⟩⟩ |
    ⟨layout, pages, k₁, proc, hpages, ⟨hnone, -⟩ | ⟨virt, proc', -, rfl, -⟩⟩
  · rfl
  · exact (allocPages_onlyMemory hpages).trace
  · exact (noRoom_trace hnone).trans hpages.onlyMemory.trace
  · exact hpages.onlyMemory.trace

omit hk in
lemma allocShared_trace {size : ℕ} {r : Except SyscallAction (ℕ × RawCapability)}
    (h : k.allocShared P size = .ok (k', r)) : k'.trace = k.trace := by
  obtain ⟨layout, pages, k₁, proc, hpages, ⟨hnone, -⟩ | ⟨virt, proc', grantee, cap, -, hgrant, -⟩⟩ :=
    allocShared_cases h
  · exact (noRoom_trace hnone).trans hpages.onlyMemory.trace
  · exact (grantKernelCapability_onlyMemory hgrant).trace.trans
      hpages.onlyMemory.trace

omit hk in
lemma mapShared_trace {cap : RawCapability} {r : Except SyscallAction (ℕ × ℕ)}
    (h : k.mapShared cap = .ok (k', r)) : k'.trace = k.trace := by
  obtain ⟨k₁, proc, root, huses, -, -, hkill | ⟨handler, length, padded, layout, heap, -, -, -, -, -,
    ⟨-, rfl, -⟩ | ⟨virt, proc', -, -, rfl, -⟩⟩⟩ := mapShared_cases h
  · cases hkill
    exact huses.onlyMemory.trace
  · exact huses.onlyMemory.trace
  · exact huses.onlyMemory.trace

omit hk in
lemma free_trace {ptr : ℕ} {r : Except SyscallAction Unit} (h : k.free ptr = .ok (k', r)) :
    k'.trace = k.trace := by
  obtain ⟨proc, -, ⟨-, hkill⟩ | ⟨proc', backing, -, hdrop, -⟩⟩ := free_cases h
  · cases hkill
    rfl
  · exact (dropBacking_onlyMemory hdrop).trace

omit hk in
lemma log_trace {message : UserSlice} {level : ℕ} {r : Except SyscallAction Unit}
    (h : k.log message level = .ok (k', r)) : k'.trace = k.trace := by
  obtain ⟨k₁, proc, huses, -, hkill | hkill | ⟨rfl, -⟩⟩ := log_cases h
  · cases hkill
    exact huses.onlyMemory.trace
  · cases hkill
    exact huses.onlyMemory.trace
  · exact huses.onlyMemory.trace

/-- **The event of a system call.**  It has at most one, which says what the call has done. -/
theorem perform_tells {call : Syscall} {r : Except SyscallAction (List ℕ)}
    (h : call.perform P k = .ok (k', r)) :
    ∃ event, k'.trace = k.trace ++ event.toList ∧ call.Tells P k k' r event := by
  cases call with
  | exit =>
      obtain ⟨r', hcall, rfl⟩ := answering_eq_ok h
      obtain ⟨proc, -, rfl, rfl⟩ := exit_cases hcall
      exact tells_silent (by simp) (by simp) (by simp) rfl
  | ipcCall cap method args result =>
      obtain ⟨r', hcall, rfl⟩ := answering_eq_ok h
      exact ipcCall_tells hk hcall
  | ipcReceive args =>
      obtain ⟨r', hcall, rfl⟩ := answering_eq_ok h
      exact ipcReceive_tells hk hcall
  | ipcReply result =>
      obtain ⟨r', hcall, rfl⟩ := answering_eq_ok h
      exact ipcReply_tells hk hcall
  | ipcStream cap stream =>
      obtain ⟨r', hcall, rfl⟩ := answering_eq_ok h
      exact ipcStream_tells hk hcall
  | alloc size =>
      obtain ⟨r', hcall, rfl⟩ := answering_eq_ok h
      exact tells_silent (by simp) (by simp) (by simp) (alloc_trace hcall)
  | allocShared size =>
      obtain ⟨r', hcall, rfl⟩ := answering_eq_ok h
      exact tells_silent (by simp) (by simp) (by simp) (allocShared_trace hcall)
  | mapShared cap =>
      obtain ⟨r', hcall, rfl⟩ := answering_eq_ok h
      exact tells_silent (by simp) (by simp) (by simp) (mapShared_trace hcall)
  | free ptr =>
      obtain ⟨r', hcall, rfl⟩ := answering_eq_ok h
      exact tells_silent (by simp) (by simp) (by simp) (free_trace hcall)
  | yield =>
      cases h
      exact tells_silent (by simp) (by simp) (by simp) rfl
  | log message level =>
      obtain ⟨r', hcall, rfl⟩ := answering_eq_ok h
      exact tells_silent (by simp) (by simp) (by simp) (log_trace hcall)

end Calls

end Kernel

/-! ## Steps -/

/-- What the event of a step says: it is the event of the system call that the registers of the
running process ask for, or a caller has gone on with its answer. -/
inductive Shows (P : Platform) :
    Kernel × Mode → Option Cause → Kernel × Mode → Option IpcEvent → Prop
  | call {k k₁ k' : Kernel} {mode' : Mode} {call : Syscall}
      {r : Except SyscallAction (List ℕ)} {event : Option IpcEvent}
      (read : Syscall.read k.registers = .ok call) (perform : call.perform P k = .ok (k₁, r))
      (tells : call.Tells P k k₁ r event) (memory : k'.memory = k₁.memory)
      (returns : ∀ results, r = .ok results →
        mode' = .user ∧ k'.registers = Kernel.writeResults k.registers results)
      (waits : ∀ action, r = .error action → mode' = .schedule) :
      Shows P (k, .user) (some .userEnvCall) (k', mode') event
  | resumed {k k₁ k₂ k' : Kernel} {caller : Process} {reply : List UInt8} {buffer : UserSlice}
      (caller_eq : k.process? caller.id = some caller)
      (answered : caller.state = .readyReply reply buffer) (userPid : k'.userPid = some caller.id)
      (table : k₁.hart = [caller.pageTable])
      (bytes : k₁.writeToUser buffer reply = .ok (.ok k₂)) (memory : k'.memory = k₂.memory)
      (length : k'.registers .a0 = reply.length) :
      Shows P (k, .schedule) none (k', .user)
        (some (.resumed caller.id (.buffer buffer) (.bytes reply)))
  | resumedRing {k k' : Kernel} {caller : Process} {ring : RawCapability} {declaredSize : ℕ}
      (caller_eq : k.process? caller.id = some caller)
      (answered : caller.state = .readyStreamMap ring declaredSize)
      (userPid : k'.userPid = some caller.id) (size : k'.registers .a1 = declaredSize) :
      Shows P (k, .schedule) none (k', .user)
        (some (.resumed caller.id .streamMap (.ring ring declaredSize)))
  | silent {s s' : Kernel × Mode} {cause : Option Cause}
      (no_call : cause = some .userEnvCall → ∃ err, Syscall.read s.1.registers = .error err)
      (no_answer : s.2 = .schedule → s'.2 = .user → ∀ pid proc, s'.1.userPid = some pid →
        s.1.process? pid = some proc → proc.state = .runnable) :
      Shows P s cause s' none

namespace Kernel

lemma onUserTrapImpl_trace {cause : Cause} {r : Except SyscallAction Unit} (hk : k.Ready)
    (hcause : cause ≠ .userEnvCall) (h : k.onUserTrapImpl P cause = .ok (k', r)) :
    k'.trace = k.trace := by
  rcases onUserTrapImpl_cases h with ⟨rfl, -⟩ | ⟨stores, -, rfl, -⟩ | ⟨stval, -, hfault⟩
  · exact absurd rfl hcause
  · rfl
  · obtain ⟨proc, hproc, hkill | ⟨proc', hagain⟩ |
      ⟨range, index, k₁, proc', -, -, -, -, hload, rfl, -⟩⟩ := handlePageFault_cases hfault
    · cases hkill
      rfl
    · exact absurd hagain (hk.process_locked hproc)
    · obtain ⟨mapping, contents, layout, page, k₂, k₃, phys, pageTable, -, -, hpage, huses, -, -,
        rfl, -⟩ := loadPage_cases hload
      exact ((allocPages_onlyMemory hpage).trans huses.onlyMemory).trace

/-- **The event of a trap.** -/
theorem onUserTrap_shows {cause : Cause} (hk : k.Ready) (hrun : k.Running none)
    (h : k.onUserTrap P cause = .ok (k', mode')) :
    ∃ event, k'.trace = k.trace ++ event.toList ∧
      Shows P (k, .user) (some cause) (k', mode') event := by
  obtain ⟨k₁, r, hcall, hcases⟩ := onUserTrap_cases h
  have htrace : k'.trace = k₁.trace ∧ k'.memory = k₁.memory := by
    rcases hcases with ⟨-, rfl, -⟩ | ⟨proc, -, -, ⟨err, -, rfl⟩ | ⟨-, rfl⟩⟩
    · exact ⟨rfl, rfl⟩
    · exact ⟨rfl, rfl⟩
    · exact ⟨rfl, rfl⟩
  by_cases hcause : cause = .userEnvCall
  · subst hcause
    obtain ⟨⟨k₂, r₂⟩, hdispatch, hcall⟩ := Checked.bind_eq_ok.mp hcall
    rcases dispatchSyscall_cases hdispatch with ⟨err, hread, rfl, rfl⟩ |
      ⟨call, k₃, r₃, hread, hperform, ⟨results, rfl, rfl, rfl⟩ | ⟨action, rfl, rfl, rfl⟩⟩
    · -- the registers ask for no call
      cases hcall
      refine ⟨none, by rw [htrace.1, Option.toList_none, List.append_nil], ?_⟩
      exact .silent (fun _ => ⟨err, hread⟩) fun hy => by cases hy
    · obtain ⟨event, hevent, htells⟩ := perform_tells hk hperform
      obtain ⟨sepc, -, hcall⟩ := Checked.bind_eq_ok.mp hcall
      cases hcall
      rcases hcases with ⟨-, rfl, rfl⟩ | ⟨proc, -, -, ⟨err, hy, -⟩ | ⟨hy, -⟩⟩
      · refine ⟨event, hevent, .call hread hperform htells rfl ?_ ?_⟩
        · intro results' heq
          cases heq
          refine ⟨rfl, ?_⟩
          rw [← (perform_leaves hk hrun hperform).steady.registers]
        · exact fun action hy => by cases hy
      · cases hy
      · cases hy
    · obtain ⟨event, hevent, htells⟩ := perform_tells hk hperform
      have hsame : r ≠ .ok () ∧ k₁.trace = k₂.trace ∧ k₁.memory = k₂.memory := by
        cases action with
        | userErr err =>
            cases hcall
            exact ⟨by simp, rfl, rfl⟩
        | yield =>
            obtain ⟨proc, -, hcall⟩ := Checked.bind_eq_ok.mp hcall
            obtain ⟨pc, -, hcall⟩ := Checked.bind_eq_ok.mp hcall
            cases hcall
            exact ⟨by simp, rfl, rfl⟩
      refine ⟨event, ?_, .call hread hperform htells (htrace.2.trans hsame.2.2) ?_ ?_⟩
      · rw [htrace.1, hsame.2.1, hevent]
      · exact fun results hy => by cases hy
      · rcases hcases with ⟨hok, -⟩ | ⟨proc, -, hmode, -⟩
        · exact absurd hok hsame.1
        · exact fun _ _ => hmode
  · refine ⟨none, ?_, .silent (fun hy => absurd (Option.some.inj hy) hcause) fun hy => by cases hy⟩
    rw [htrace.1, onUserTrapImpl_trace hk hcause hcall, Option.toList_none, List.append_nil]

/-- **The event of a turn of the scheduler.** -/
theorem scheduleUserspace_shows (hk : k.Ready) (h : k.scheduleUserspace = .ok (k', mode')) :
    ∃ event, k'.trace = k.trace ++ event.toList ∧
      Shows P (k, .schedule) none (k', mode') event := by
  obtain ⟨k₁, next, k₂, r, hfind, hresume, hcases⟩ := scheduleUserspace_cases h
  obtain ⟨hsame, -, htrace⟩ := findRunnableProcess_same hk hfind
  obtain ⟨hfollows, hnext, hcanRun⟩ := findRunnableProcess_follows hk hfind
  -- the process is the one that the scan has found
  have hfound : k.process? next.id = some next := by
    obtain ⟨proc, hproc, rfl | hfinished⟩ := hsame next.id next hnext
    · exact hproc
    · rw [hfinished] at hcanRun
      cases hcanRun
  rcases resumeProcess_cases hresume with ⟨hstate, rfl, rfl⟩ |
    ⟨reply, buffer, hstate, ⟨rfl, rfl⟩ | ⟨k₃, hwrite, rfl, rfl⟩⟩ |
    ⟨ring, declaredSize, handler, length, layout, virt, heap, k₃, next', hstate, huses, -, -, -, -,
      hmap, rfl, rfl⟩
  · rcases hcases with ⟨-, rfl, rfl⟩ | ⟨err, proc, hy, -⟩
    · refine ⟨none, htrace.trans (List.append_nil _).symm, .silent (fun hy => by cases hy) ?_⟩
      intro _ _ pid proc hpid hproc
      obtain rfl : next.id = pid := Option.some.inj hpid
      rw [hfound] at hproc
      cases hproc
      exact hstate
    · cases hy
  · rcases hcases with ⟨hy, -⟩ | ⟨err, proc, -, -, rfl, rfl⟩
    · cases hy
    · exact ⟨none, htrace.trans (List.append_nil _).symm,
        .silent (fun hy => by cases hy) fun _ hy => by cases hy⟩
  · rcases hcases with ⟨-, rfl, rfl⟩ | ⟨err, proc, hy, -⟩
    · have hmemory := writeToUser_onlyMemory hwrite
      refine ⟨some (.resumed next.id (.buffer buffer) (.bytes reply)), ?_,
        .resumed hfound hstate hmemory.userPid rfl hwrite rfl rfl⟩
      exact congrArg (· ++ _) (hmemory.trace.trans htrace)
    · cases hy
  · rcases hcases with ⟨-, rfl, rfl⟩ | ⟨err, proc, hy, -⟩
    · have hid : next'.id = next.id := by
        have hspace : Process.OnlySpace next next' :=
          Process.OnlySpace.trans ⟨_, heap, _, _, rfl⟩ (sharedMemoryMap_onlySpace hmap)
        exact hspace.id
      refine ⟨some (.resumed next.id .streamMap (.ring ring declaredSize)), ?_,
        .resumedRing hfound hstate ?_ rfl⟩
      · change k₃.trace ++ [.resumed next'.id _ _] = _
        rw [hid, huses.onlyMemory.trace]
        exact congrArg (· ++ _) htrace
      · exact huses.onlyMemory.userPid
    · cases hy

end Kernel

/-- **The event of a step.** -/
theorem Step.shows {cause : Option Cause} (horder : k.InOrder mode)
    (h : Step P (k, mode) cause (k', mode')) :
    ∃ oracle event, k'.trace = k.trace ++ event.toList ∧
      Shows P ({ k with oracle := oracle }, mode) cause (k', mode') event := by
  cases h with
  | user huser =>
      refine ⟨k.oracle, none, ?_, .silent (fun hy => by cases hy) fun hy => by cases hy⟩
      rw [huser.same, Option.toList_none, List.append_nil]
  | trap oracle htrap =>
      have horacle := horder.withOracle oracle
      exact ⟨oracle, Kernel.onUserTrap_shows horacle.ready (horacle.running rfl) htrap⟩
  | schedule oracle hschedule =>
      exact ⟨oracle, Kernel.scheduleUserspace_shows (horder.withOracle oracle).ready hschedule⟩

/-! ## Runs -/

end Deravel
