import DeravelOs.Kernel.Loading

/-!
# What a system call can do

One lemma for each of the calls that concern more than one process: all the ways in which it returns,
with the kernel that it leaves behind.  A refused capability is not among them: its error text is
read from user pages without `SUM`, which is a kernel trap (`killRefused_ne_ok`).
-/

namespace Deravel

variable {P : Platform} {k k' : Kernel} {proc : Process} {pid : ProcessId}

namespace Kernel

/-- The text of a refusal cannot be read. -/
lemma formatCapabilityError_ne_ok {err : CapabilityError} {text : CapabilityErrorText} :
    k.formatCapabilityError err ≠ .ok text := by
  intro h
  have hturn : ∀ s, ∃ e, RawCapability.fmtTurn (k.capabilityPages false) err s =
      .done (.error e) := by
    rintro ⟨capability, claimer, hops⟩
    have hread : ∃ e, capability.readCertificate (k.capabilityPages false) = .error e := by
      cases hc : capability.certifier with
      | error e => exact ⟨e, by rw [RawCapability.readCertificate, hc]; rfl⟩
      | ok certifier => exact ⟨.kernelTrap, by rw [RawCapability.readCertificate, hc]; rfl⟩
    obtain ⟨e, he⟩ := hread
    exact ⟨e, by rw [RawCapability.fmtTurn, he]⟩
  rw [formatCapabilityError, CapabilityError.fmt] at h
  cases hfuel : k.oracle.turns with
  | zero =>
      rw [hfuel] at h
      cases h
  | succ fuel =>
      obtain ⟨e, he⟩ := hturn (err.capability, .userspace err.claimer, [])
      rw [hfuel, Loop.run_done he] at h
      cases h

lemma killRefused_ne_ok {α : Type} {err : CapabilityError} {result : SyscallResult α} :
    k.killRefused proc err ≠ .ok result := by
  intro h
  obtain ⟨text, htext, -⟩ := Checked.bind_eq_ok.mp h
  exact formatCapabilityError_ne_ok htext

/-- The kernel after a message was sent. -/
def sendMessage (k : Kernel) (proc dest : Process) (server : ProcessId) (state : ProcessState)
    (message : Message) (place : ReturnPlace) : Kernel :=
  ((k.setProcess { proc with state := state }).setProcess
    { dest with messages := dest.messages ++ [message] }).record (.sent server message place)

/-- A message for a live slot, whose capability the server has certified. -/
structure Sendable (k : Kernel) (proc dest : Process) (server : ProcessId) (message : Message) :
    Prop where
  ne : server ≠ proc.id
  dest : k.process? server = some dest
  certifier : message.cap.certifier = .ok (.userspace server)
  sender : k.userPid = some message.sender

lemma ipcCall_cases {cap : RawCapability} {method : ℕ} {argsBuffer resultBuffer : UserSlice}
    {r : Except SyscallAction ℕ} (h : k.ipcCall P cap method argsBuffer resultBuffer = .ok (k', r)) :
    ∃ k₁ proc root, k.UsesHeap k₁ ∧ k₁.process [] = .ok proc ∧
      k₁.validate cap proc.id = .ok (.ok root) ∧ ((k', r) = k₁.kill proc .nonexistentProcess ∨
      (∃ server dest message, k₁.Sendable proc dest server message ∧ message.cap = root ∧
        message.method = method ∧ k₁.readUser argsBuffer = .ok message.args ∧
        k' = k₁.sendMessage proc dest server (.waitingForReply (.userspace server) resultBuffer)
          message (.buffer resultBuffer) ∧ r = .error .yield) ∨
      ∃ handler args sender reply k₂, root.certifier = .ok .kernel ∧
        k₁.getHandler root.localIndex = .ok handler ∧ k₁.userPid = some sender ∧
        k₁.callMethod P handler method args sender = .ok (reply, k₂) ∧
        ((∃ proc', k₂.process [] = .ok proc' ∧
            (k', r) = k₂.kill proc' (.userError .sliceTooSmall)) ∨
          k₂.writeToUser resultBuffer reply = .ok (.ok k') ∧ r = .ok reply.length)) := by
  obtain ⟨proc, hproc, h⟩ := Checked.bind_eq_ok.mp h
  obtain ⟨validated, hvalidate, h⟩ := Checked.bind_eq_ok.mp h
  cases validated with
  | error err => exact absurd h killRefused_ne_ok
  | ok root =>
      obtain ⟨certifier, hcertifier, h⟩ := Checked.bind_eq_ok.mp h
      cases certifier with
      | userspace server =>
          obtain ⟨slot, hlock, h⟩ := Checked.bind_eq_ok.mp h
          obtain ⟨-, hne, hslot⟩ := lockIfSome_eq_ok hlock
          cases slot with
          | none =>
              exact ⟨k, proc, root, .refl, hproc, hvalidate, Or.inl (Except.ok.inj h).symm⟩
          | some dest =>
              obtain ⟨⟨args, k₁⟩, hargs, h⟩ := Checked.bind_eq_ok.mp h
              obtain ⟨sender, hsender, h⟩ := Checked.bind_eq_ok.mp h
              obtain ⟨k₂, hchurn, h⟩ := Checked.bind_eq_ok.mp h
              cases h
              have hgrow := churn_usesHeap hchurn
              have huses := (copyToKernel_usesHeap hargs).trans hgrow
              rw [← huses.process] at hproc
              rw [← huses.validate] at hvalidate
              rw [← huses.process?] at hslot
              rw [pid_eq_ok, ← hgrow.onlyMemory.userPid] at hsender
              have hbytes := (copyToKernel_eq_ok.mp hargs).2
              rw [← huses.readUser] at hbytes
              refine ⟨k₂, proc, root, huses, hproc, hvalidate, Or.inr (Or.inl ⟨server, dest,
                ⟨root, method, args, sender⟩, ⟨?_, hslot, hcertifier, hsender⟩, rfl, rfl, hbytes, rfl,
                rfl⟩)⟩
              exact fun heq => hne (heq ▸ List.mem_singleton_self _)
      | kernel =>
          obtain ⟨handler, hhandler, h⟩ := Checked.bind_eq_ok.mp h
          obtain ⟨⟨args, k₁⟩, hargs, h⟩ := Checked.bind_eq_ok.mp h
          obtain ⟨sender, hsender, h⟩ := Checked.bind_eq_ok.mp h
          obtain ⟨k₂, hchurn, h⟩ := Checked.bind_eq_ok.mp h
          obtain ⟨⟨reply, k₃⟩, hcall, h⟩ := Checked.bind_eq_ok.mp h
          obtain ⟨written, hwrite, h⟩ := Checked.bind_eq_ok.mp h
          have hgrow := churn_usesHeap hchurn
          have huses := (copyToKernel_usesHeap hargs).trans hgrow
          rw [← huses.process] at hproc
          rw [← huses.validate] at hvalidate
          rw [← huses.getHandler] at hhandler
          rw [pid_eq_ok, ← hgrow.onlyMemory.userPid] at hsender
          refine ⟨k₂, proc, root, huses, hproc, hvalidate, Or.inr (Or.inr ⟨handler, args, sender,
            reply, k₃, hcertifier, hhandler, hsender, hcall, ?_⟩)⟩
          cases written with
          | error err =>
              obtain ⟨proc', hproc', h⟩ := Checked.bind_eq_ok.mp h
              rcases writeToUser_eq_ok hwrite with herror | ⟨_, -, -, herror⟩
              · cases herror
                exact Or.inl ⟨proc', hproc', (Except.ok.inj h).symm⟩
              · cases herror
          | ok k₄ =>
              cases h
              exact Or.inr ⟨hwrite, rfl⟩

lemma ipcReceive_cases {args : UserSlice}
    {r : Except SyscallAction (Option RawCapability × ℕ × ℕ × Option ProcessId)}
    (h : k.ipcReceive args = .ok (k', r)) :
    ∃ proc, k.process [] = .ok proc ∧
      ((k', r) = k.kill proc .receiveWithoutReply ∨
      (k' = k ∧ r = .ok (none, 0, 0, none)) ∨
      ∃ message rest, proc.currentlyServing = none ∧ proc.messages = message :: rest ∧
        ((k', r) = k.kill { proc with messages := rest } (.userError .sliceTooSmall) ∨
        ∃ k₁, k.writeToUser args message.args = .ok (.ok k₁) ∧
          k' = (k₁.setProcess { proc with
            messages := rest, currentlyServing := some message.sender }).record
              (.received proc.id message) ∧
          r = .ok (some message.cap, message.method, message.args.length,
            some message.sender))) := by
  obtain ⟨proc, hproc, h⟩ := Checked.bind_eq_ok.mp h
  refine ⟨proc, hproc, ?_⟩
  cases hserving : proc.currentlyServing with
  | some client =>
      simp only [hserving, Option.isSome_some, if_true] at h
      exact Or.inl (Except.ok.inj h).symm
  | none =>
      simp only [hserving, Option.isSome_none, Bool.false_eq_true, if_false] at h
      cases hmessages : proc.messages with
      | nil =>
          simp only [hmessages] at h
          cases h
          exact Or.inr (Or.inl ⟨rfl, rfl⟩)
      | cons message rest =>
          simp only [hmessages] at h
          obtain ⟨written, hwrite, h⟩ := Checked.bind_eq_ok.mp h
          refine Or.inr (Or.inr ⟨message, rest, rfl, rfl, ?_⟩)
          cases written with
          | error err =>
              rcases writeToUser_eq_ok hwrite with herror | ⟨_, -, -, herror⟩
              · cases herror
                exact Or.inl (Except.ok.inj h).symm
              · cases herror
          | ok k₁ =>
              cases h
              exact Or.inr ⟨k₁, hwrite, rfl, rfl⟩

/-- The kernel after a message was answered. -/
def sendReply (k : Kernel) (proc caller : Process) (state : ProcessState) (answer : Answer) :
    Kernel :=
  ((k.setProcess { proc with currentlyServing := none }).setProcess
    { caller with state := state }).record (.replied proc.id caller.id answer)

/-- What becomes of a server that answers a caller waiting for a stream. -/
lemma replyStreamMap_cases {caller : Process} {result : UserSlice}
    {r : Except SyscallAction Unit}
    (h : k.replyStreamMap P { proc with currentlyServing := none } caller result = .ok (k', r)) :
    ∃ k₁, k.UsesHeap k₁ ∧
      ((∃ reason, reason ≠ .waitingForSomeoneElse ∧
        (k', r) = k₁.kill { proc with currentlyServing := none } reason) ∨
      ∃ ring declaredSize, r = .ok () ∧
        k' = k₁.sendReply proc caller (.readyStreamMap ring declaredSize)
          (.ring ring declaredSize)) := by
  obtain ⟨⟨bytes, k₁⟩, hcopy, h⟩ := Checked.bind_eq_ok.mp h
  refine ⟨k₁, copyToKernel_usesHeap hcopy, ?_⟩
  obtain ⟨decoded, -, h⟩ := Checked.bind_eq_ok.mp h
  cases decoded with
  | none => exact Or.inl ⟨_, by simp, (Except.ok.inj h).symm⟩
  | some pair =>
      obtain ⟨stream, declaredSize⟩ := pair
      obtain ⟨validated, -, h⟩ := Checked.bind_eq_ok.mp h
      cases validated with
      | error err => exact Or.inl ⟨_, by simp, (Except.ok.inj h).symm⟩
      | ok ring =>
          obtain ⟨certifier, -, h⟩ := Checked.bind_eq_ok.mp h
          split at h
          · exact Or.inl ⟨_, by simp, (Except.ok.inj h).symm⟩
          · obtain ⟨handler, -, h⟩ := Checked.bind_eq_ok.mp h
            obtain ⟨length, -, h⟩ := Checked.bind_eq_ok.mp h
            split at h
            · exact Or.inl ⟨_, by simp, (Except.ok.inj h).symm⟩
            · obtain ⟨needed, -, h⟩ := Checked.bind_eq_ok.mp h
              split at h
              · exact Or.inl ⟨_, by simp, (Except.ok.inj h).symm⟩
              · cases h
                exact Or.inr ⟨ring, declaredSize, rfl, rfl⟩

lemma ipcReply_cases {result : UserSlice} {r : Except SyscallAction Unit}
    (h : k.ipcReply P result = .ok (k', r)) :
    ∃ k₁ proc, k.UsesHeap k₁ ∧ k₁.process [] = .ok proc ∧
      ((k', r) = k₁.kill proc .replyWithoutServe ∨
      ∃ callerId caller, proc.currentlyServing = some callerId ∧ callerId ≠ proc.id ∧
        k₁.process? callerId = some caller ∧
        ((∃ server, caller.state.waitsFor = some server ∧ server ≠ .userspace proc.id ∧
          (k', r) = k₁.kill { proc with currentlyServing := none } .waitingForSomeoneElse) ∨
        (∃ resultBuffer reply,
          caller.state = .waitingForReply (.userspace proc.id) resultBuffer ∧
          k₁.readUser result = .ok reply ∧ r = .ok () ∧
          k' = k₁.sendReply proc caller (.readyReply reply resultBuffer) (.bytes reply)) ∨
        caller.state = .waitingForStreamMap (.userspace proc.id) ∧
        ((∃ reason, reason ≠ .waitingForSomeoneElse ∧
          (k', r) = k₁.kill { proc with currentlyServing := none } reason) ∨
        ∃ ring declaredSize, r = .ok () ∧
          k' = k₁.sendReply proc caller (.readyStreamMap ring declaredSize)
            (.ring ring declaredSize)))) := by
  obtain ⟨proc, hproc, h⟩ := Checked.bind_eq_ok.mp h
  cases hserving : proc.currentlyServing with
  | none =>
      simp only [hserving] at h
      exact ⟨k, proc, .refl, hproc, Or.inl (Except.ok.inj h).symm⟩
  | some callerId =>
      simp only [hserving] at h
      obtain ⟨slot, hlock, h⟩ := Checked.bind_eq_ok.mp h
      obtain ⟨-, hne, hslot⟩ := lockIfSome_eq_ok hlock
      cases slot with
      | none => cases h
      | some caller =>
          have hother : callerId ≠ proc.id := fun heq => hne (by simp [heq])
          cases hstate : caller.state with
          | waitingForReply server resultBuffer =>
              simp only [hstate] at h
              split at h
              · next hdiffer =>
                  exact ⟨k, proc, .refl, hproc, Or.inr ⟨callerId, caller, hserving, hother, hslot,
                    Or.inl ⟨server, by rw [hstate]; rfl, hdiffer, (Except.ok.inj h).symm⟩⟩⟩
              · next hself =>
                  obtain ⟨⟨reply, k₁⟩, hreply, h⟩ := Checked.bind_eq_ok.mp h
                  cases h
                  have huses := copyToKernel_usesHeap hreply
                  have hbytes := (copyToKernel_eq_ok.mp hreply).2
                  rw [← huses.process] at hproc
                  rw [← huses.process?] at hslot
                  rw [← huses.readUser] at hbytes
                  rw [not_not.mp hself] at hstate
                  exact ⟨k₁, proc, huses, hproc, Or.inr ⟨callerId, caller, hserving, hother, hslot,
                    Or.inr (Or.inl ⟨resultBuffer, reply, hstate, hbytes, rfl, rfl⟩)⟩⟩
          | waitingForStreamMap server =>
              simp only [hstate] at h
              split at h
              · next hdiffer =>
                  exact ⟨k, proc, .refl, hproc, Or.inr ⟨callerId, caller, hserving, hother, hslot,
                    Or.inl ⟨server, by rw [hstate]; rfl, hdiffer, (Except.ok.inj h).symm⟩⟩⟩
              · next hself =>
                  obtain ⟨k₁, huses, hcases⟩ := replyStreamMap_cases h
                  rw [← huses.process] at hproc
                  rw [← huses.process?] at hslot
                  rw [not_not.mp hself] at hstate
                  exact ⟨k₁, proc, huses, hproc, Or.inr ⟨callerId, caller, hserving, hother, hslot,
                    Or.inr (Or.inr ⟨hstate, hcases⟩)⟩⟩
          | runnable =>
              simp only [hstate] at h
              cases h
          | finished =>
              simp only [hstate] at h
              cases h
          | readyReply reply resultBuffer =>
              simp only [hstate] at h
              cases h
          | readyStreamMap ring declaredSize =>
              simp only [hstate] at h
              cases h

lemma ipcStream_cases {cap : RawCapability} {stream : ℕ} {r : Except SyscallAction (ℕ × ℕ)}
    (h : k.ipcStream cap stream = .ok (k', r)) :
    ∃ k₁ proc root, k.UsesHeap k₁ ∧ k₁.process [] = .ok proc ∧
      k₁.validate cap proc.id = .ok (.ok root) ∧
      ((∃ server dest message, k₁.Sendable proc dest server message ∧ message.cap = root ∧
        message.method = 1000 + stream ∧ message.args = [] ∧
        k' = k₁.sendMessage proc dest server (.waitingForStreamMap (.userspace server))
          message .streamMap ∧ r = .error .yield) ∨
      ∃ handler ring layout heap, k₁.getHandler root.localIndex = .ok handler ∧
        k₁.mapStream handler stream = .ok ring ∧ pageLayout ring.byteSize = .ok layout ∧
        ((proc.heap.alloc layout = .ok (.error .mk, heap) ∧
          k' = k₁.setProcess { proc with heap := heap } ∧ r = .error (.userErr .alloc)) ∨
        ∃ virt phys pageTable, proc.heap.alloc layout = .ok (.ok virt, heap) ∧
          virtToPhys ring.ptr = .ok phys ∧
          proc.pageTable.map virt phys pageSize PageFlags.readWrite.asUser = .ok pageTable ∧
          k' = (k₁.setProcess { proc with heap := heap, pageTable := pageTable }).sfenceVmaAll ∧
          r = .ok (virt, ring.byteSize - 2 * cacheLineSize))) := by
  obtain ⟨proc, hproc, h⟩ := Checked.bind_eq_ok.mp h
  obtain ⟨validated, hvalidate, h⟩ := Checked.bind_eq_ok.mp h
  cases validated with
  | error err => exact absurd h killRefused_ne_ok
  | ok root =>
      obtain ⟨certifier, hcertifier, h⟩ := Checked.bind_eq_ok.mp h
      cases certifier with
      | userspace server =>
          obtain ⟨slot, hlock, h⟩ := Checked.bind_eq_ok.mp h
          obtain ⟨-, hne, hslot⟩ := lockIfSome_eq_ok hlock
          cases slot with
          | none => cases h
          | some dest =>
              obtain ⟨method, hmethod, h⟩ := Checked.bind_eq_ok.mp h
              obtain ⟨sender, hsender, h⟩ := Checked.bind_eq_ok.mp h
              obtain ⟨k₁, hchurn, h⟩ := Checked.bind_eq_ok.mp h
              cases h
              have huses := churn_usesHeap hchurn
              rw [← huses.process] at hproc
              rw [← huses.validate] at hvalidate
              rw [← huses.process?] at hslot
              rw [pid_eq_ok, ← huses.onlyMemory.userPid] at hsender
              refine ⟨k₁, proc, root, huses, hproc, hvalidate, Or.inl ⟨server, dest,
                ⟨root, method, [], sender⟩, ⟨?_, hslot, hcertifier, hsender⟩, rfl,
                usizeAdd_eq_ok hmethod, rfl, rfl, rfl⟩⟩
              exact fun heq => hne (heq ▸ List.mem_singleton_self _)
      | kernel =>
          obtain ⟨handler, hhandler, h⟩ := Checked.bind_eq_ok.mp h
          obtain ⟨ring, hring, h⟩ := Checked.bind_eq_ok.mp h
          obtain ⟨layout, hlayout, h⟩ := Checked.bind_eq_ok.mp h
          obtain ⟨⟨result, heap⟩, halloc, h⟩ := Checked.bind_eq_ok.mp h
          cases result with
          | error e =>
              cases e
              cases h
              exact ⟨k, proc, root, .refl, hproc, hvalidate, Or.inr ⟨handler, ring, layout, heap,
                hhandler, hring, hlayout, Or.inl ⟨halloc, rfl, rfl⟩⟩⟩
          | ok virt =>
              obtain ⟨k₁, hchurn, h⟩ := Checked.bind_eq_ok.mp h
              obtain ⟨phys, hphys, h⟩ := Checked.bind_eq_ok.mp h
              obtain ⟨pageTable, hmap, h⟩ := Checked.bind_eq_ok.mp h
              cases h
              have huses := churn_usesHeap hchurn
              rw [← huses.process] at hproc
              rw [← huses.validate] at hvalidate
              rw [← huses.getHandler] at hhandler
              rw [← huses.mapStream] at hring
              exact ⟨k₁, proc, root, huses, hproc, hvalidate, Or.inr ⟨handler, ring, layout, heap,
                hhandler, hring, hlayout, Or.inr ⟨virt, phys, pageTable, halloc, hphys, hmap, rfl,
                rfl⟩⟩⟩

end Kernel

end Deravel
