import DeravelOs.Kernel.Handler

/-!
# System calls

`kernel/src/syscall.rs`, one definition for each function of `SyscallHandler`.  A call takes the
kernel and gives back the kernel and what the function returns; a `MutexGuard` on a process is the
record that was read from its slot, and is written back by `setProcess`.

The events between processes are recorded where they happen.
-/

namespace Deravel

variable (P : Platform)

/-- `postcard::from_bytes::<(RawCapability, usize)>`; a word that is no capability is a panic of its
`Deserialize`. -/
def decodeStreamReply (bytes : List UInt8) : Checked (Option (RawCapability × ℕ)) :=
  match P.decodeUsize bytes with
  | none => pure none
  | some (word, rest) =>
      match RawCapability.tryFrom word with
      | .error _ => throw (.unwrap .ipcReplyStream)
      | .ok stream =>
          match P.decodeUsize rest with
          | none => pure none
          | some (declaredSize, _) => pure (some (stream, declaredSize))

namespace Kernel

/-- The end of a caller whose capability was refused. -/
def killRefused {α : Type} (k : Kernel) (proc : Process) (err : CapabilityError) :
    Checked (SyscallResult α) := do
  let text ← k.formatCapabilityError err
  pure (k.kill proc (.refusedCapability text))

/-- `exit` -/
def exit (k : Kernel) : Checked (SyscallResult Empty) := do
  let proc ← k.process []
  pure (k.setProcess { proc with state := .finished }, .error .yield)

/-- `ipc_call` -/
def ipcCall (k : Kernel) (cap : RawCapability) (method : ℕ) (argsBuffer resultBuffer : UserSlice) :
    Checked (SyscallResult ℕ) := do
  let proc ← k.process []
  match ← k.validate cap proc.id with
  | .error err => k.killRefused proc err
  | .ok cap => do
      match ← cap.certifier with
      | .userspace server => do
          match ← k.lockIfSome [proc.id] server with
          | none => pure (k.kill proc .nonexistentProcess)
          | some dest => do
              let (args, k) ← k.copyToKernel argsBuffer
              let sender ← k.pid
              -- the queue of the callee may grow
              let k ← k.churn
              let message : Message := ⟨cap, method, args, sender⟩
              let k := k.setProcess
                { proc with state := .waitingForReply (.userspace server) resultBuffer }
              let k := k.setProcess { dest with messages := dest.messages ++ [message] }
              pure (k.record (.sent server message (.buffer resultBuffer)), .error .yield)
      | .kernel => do
          let handler ← k.getHandler cap.localIndex
          let (args, k) ← k.copyToKernel argsBuffer
          let sender ← k.pid
          -- whatever the method keeps, and its answer
          let k ← k.churn
          let (result, k) ← k.callMethod P handler method args sender
          match ← k.writeToUser resultBuffer result with
          | .error err => do
              let proc ← k.process []
              pure (k.kill proc (.userError err))
          | .ok k => pure (k, .ok result.length)

/-- `ipc_receive` -/
def ipcReceive (k : Kernel) (args : UserSlice) :
    Checked (SyscallResult (Option RawCapability × ℕ × ℕ × Option ProcessId)) := do
  let proc ← k.process []
  if proc.currentlyServing.isSome then
    pure (k.kill proc .receiveWithoutReply)
  else
    match proc.messages with
    | [] => pure (k, .ok (none, 0, 0, none))
    | message :: rest => do
        let proc := { proc with messages := rest }
        match ← k.writeToUser args message.args with
        | .error err => pure (k.kill proc (.userError err))
        | .ok k =>
            let k := k.setProcess { proc with currentlyServing := some message.sender }
            pure (k.record (.received proc.id message),
              .ok (some message.cap, message.method, message.args.length, some message.sender))

/-- The second half of `ipc_reply`, for a caller that waits for a stream. -/
def replyStreamMap (k : Kernel) (proc caller : Process) (result : UserSlice) :
    Checked (SyscallResult Unit) := do
  let (bytes, k) ← k.copyToKernel result
  match ← decodeStreamReply P bytes with
  | none => pure (k.kill proc .invalidStreamMapReply)
  | some (stream, declaredSize) => do
      match ← k.validate stream caller.id with
      | .error _ => pure (k.kill proc (.ringNotValid stream))
      | .ok ring => do
          let certifier ← ring.certifier
          if certifier ≠ .kernel then
            pure (k.kill proc .ringNotKernel)
          else do
            let handler ← k.getHandler ring.localIndex
            let length ← k.sharedMemorySize handler
            if length % pageSize ≠ 0 then
              pure (k.kill proc .streamSizeUnaligned)
            else do
              let needed ← usizeAdd .ipcReplyStream (2 * cacheLineSize) declaredSize
              if length < needed then
                pure (k.kill proc .streamLengthMismatch)
              else
                let k := k.setProcess proc
                let k := k.setProcess { caller with state := .readyStreamMap ring declaredSize }
                pure (k.record (.replied proc.id caller.id (.ring ring declaredSize)), .ok ())

/-- `ipc_reply` -/
def ipcReply (k : Kernel) (result : UserSlice) : Checked (SyscallResult Unit) := do
  let proc ← k.process []
  match proc.currentlyServing with
  | none => pure (k.kill proc .replyWithoutServe)
  | some callerId => do
      let proc := { proc with currentlyServing := none }
      match ← k.lockIfSome [proc.id] callerId with
      | none => throw (.unwrap .ipcReplyCaller)
      | some caller =>
          match caller.state with
          | .waitingForReply server resultBuffer =>
              if server ≠ .userspace proc.id then
                pure (k.kill proc .waitingForSomeoneElse)
              else do
                let (reply, k) ← k.copyToKernel result
                let k := k.setProcess proc
                let k := k.setProcess { caller with state := .readyReply reply resultBuffer }
                pure (k.record (.replied proc.id caller.id (.bytes reply)), .ok ())
          | .waitingForStreamMap server =>
              if server ≠ .userspace proc.id then
                pure (k.kill proc .waitingForSomeoneElse)
              else
                k.replyStreamMap P proc caller result
          | _ => throw (.unimplemented .ipcReplyState)

/-- `ipc_stream` -/
def ipcStream (k : Kernel) (cap : RawCapability) (stream : ℕ) :
    Checked (SyscallResult (ℕ × ℕ)) := do
  let proc ← k.process []
  match ← k.validate cap proc.id with
  | .error err => k.killRefused proc err
  | .ok cap => do
      match ← cap.certifier with
      | .userspace server => do
          match ← k.lockIfSome [proc.id] server with
          | none => throw (.unwrap .ipcStream)
          | some dest => do
              let method ← usizeAdd .ipcStream 1000 stream
              let sender ← k.pid
              -- the queue of the callee may grow
              let k ← k.churn
              let message : Message := ⟨cap, method, [], sender⟩
              let k := k.setProcess { proc with state := .waitingForStreamMap (.userspace server) }
              let k := k.setProcess { dest with messages := dest.messages ++ [message] }
              pure (k.record (.sent server message .streamMap), .error .yield)
      | .kernel => do
          let handler ← k.getHandler cap.localIndex
          let ring ← k.mapStream handler stream
          let layout ← pageLayout ring.byteSize
          match ← proc.heap.alloc layout with
          | (.error _, heap) =>
              pure (k.setProcess { proc with heap := heap }, .error (.userErr .alloc))
          | (.ok virt, heap) => do
              -- the nodes of the heap and the page tables on the way
              let k ← k.churn
              let phys ← virtToPhys ring.ptr
              let pageTable ← proc.pageTable.map virt phys pageSize PageFlags.readWrite.asUser
              let k := k.setProcess { proc with heap := heap, pageTable := pageTable }
              pure (k.sfenceVmaAll, .ok (virt, ring.byteSize - 2 * cacheLineSize))

/-- `alloc` -/
def alloc (k : Kernel) (size : ℕ) : Checked (SyscallResult ℕ) := do
  let size ← nextMultipleOfPage size
  match bytesLayout size with
  | none => pure (k, .error (.userErr .allocTryReserve))
  | some layout => do
      match ← k.allocPages layout fun _ => 0 with
      | (.error _, k) => pure (k, .error (.userErr .allocTryReserve))
      | (.ok pages, k) => do
          -- the `Arc` of the pages, nodes of the heap, page tables, the room in `allocated`
          let k ← k.churn
          let proc ← k.process []
          match ← proc.alloc pages PageFlags.readWrite.asUser with
          | (.error _, proc) => do
              let k ← (k.setProcess proc).dropBacking pages
              pure (k, .error (.userErr .alloc))
          | (.ok virt, proc) => pure ((k.setProcess proc).sfenceVmaAll, .ok virt)

/-- `alloc_shared` -/
def allocShared (k : Kernel) (size : ℕ) : Checked (SyscallResult (ℕ × RawCapability)) := do
  let size ← nextMultipleOfPage size
  match bytesLayout size with
  | none => throw .capacityOverflow
  | some layout => do
      let (pages, k) ← k.newPages layout fun _ => 0
      -- as in `alloc`, and the box of the new object
      let k ← k.churn
      let proc ← k.process []
      match ← proc.alloc pages PageFlags.readWrite.asUser with
      | (.error _, proc) => do
          let k ← (k.setProcess proc).dropBacking pages
          pure (k, .error (.userErr .alloc))
      | (.ok virt, proc) => do
          let k := (k.setProcess proc).sfenceVmaAll
          let pid ← k.pid
          let (cap, k) ← k.grantKernelCapability P pid (.sharedMemory pages)
          pure (k, .ok (virt, cap))

/-- `map_shared` -/
def mapShared (k : Kernel) (cap : RawCapability) : Checked (SyscallResult (ℕ × ℕ)) := do
  let proc ← k.process []
  match ← k.validate cap proc.id with
  | .error err => k.killRefused proc err
  | .ok cap => do
      let certifier ← cap.certifier
      if certifier ≠ .kernel then
        pure (k.kill proc .nonKernelSharedMemory)
      else do
        let handler ← k.getHandler cap.localIndex
        let length ← k.sharedMemorySize handler
        let paddedLength ← nextMultipleOfPage length
        let layout ← pageLayout paddedLength
        match ← proc.heap.alloc layout with
        | (.error _, heap) =>
            pure (k.setProcess { proc with heap := heap }, .error (.userErr .alloc))
        | (.ok virt, heap) => do
            -- the nodes of the heap, the page tables on the way, the room in the list of mappings
            let k ← k.churn
            let proc ← k.sharedMemoryMap handler virt { proc with heap := heap }
            pure ((k.setProcess proc).sfenceVmaAll, .ok (virt, length))

/-- `free` -/
def free (k : Kernel) (ptr : ℕ) : Checked (SyscallResult Unit) := do
  let proc ← k.process []
  match ← proc.dealloc ptr with
  | none => pure (k.kill proc .freeOfUnallocated)
  | some (proc, backing) => do
      let k ← (k.setProcess proc).dropBacking backing
      pure (k, .ok ())

/-- `yield_` -/
def yield (k : Kernel) : Checked (SyscallResult Unit) := pure (k, .error .yield)

/-- `log`; what it prints is not kept. -/
def log (k : Kernel) (message : UserSlice) (level : ℕ) : Checked (SyscallResult Unit) := do
  let (bytes, k) ← k.copyToKernel message
  let proc ← k.process []
  if (ByteArray.mk bytes.toArray).validateUTF8 = false then
    pure (k.kill proc .invalidUtf8)
  else if 4 < level then
    pure (k.kill proc .invalidLogLevel)
  else
    pure (k, .ok ())

/-! ## Dispatch -/

/-- `UserPtr::from_ptr` and `from_slice` for bytes: a pointer into the lower half, not null. -/
def checkPointer (ptr : ℕ) : Except UserSyscallError ℕ :=
  if ptr.testBit 63 then .error .invalidPointer
  else if ptr = 0 then .error .invalidPointer
  else .ok ptr

/-- A capability in a register. -/
def capabilityArg (word : ℕ) : Except UserSyscallError RawCapability :=
  match RawCapability.tryFrom word with
  | .ok cap => .ok cap
  | .error _ => .error .invalidCapability

/-- An argument that is checked before the call. -/
def withArg {α β : Type} (k : Kernel) (arg : Except UserSyscallError α)
    (call : α → Checked (SyscallResult β)) : Checked (SyscallResult β) :=
  match arg with
  | .ok a => call a
  | .error err => pure (k, .error (.userErr err))

/-- An argument that is a slice. -/
def withSlice {β : Type} (k : Kernel) (ptr len : ℕ)
    (call : UserSlice → Checked (SyscallResult β)) : Checked (SyscallResult β) :=
  k.withArg (checkPointer ptr) fun ptr => call ⟨ptr, len⟩

/-- `to_reg` of an `Option<RawCapability>` -/
def capabilityReg : Option RawCapability → ℕ
  | some cap => cap.asUsize
  | none => 0

/-- `to_reg` of an `Option<ProcessId>` -/
def processIdReg : Option ProcessId → ℕ
  | some pid => pid.asU16
  | none => 0

/-- The registers after results were written to `a0`, `a1`, .. -/
def writeResults (registers : RiscvRegisters) (results : List ℕ) : RiscvRegisters :=
  ([.a0, .a1, .a2, .a3].zip results).foldl
    (fun registers result => Function.update registers result.1 result.2) registers

/-- What the dispatcher does with the result of a call. -/
def returning {α : Type} (results : α → List ℕ) : SyscallResult α → SyscallResult Unit
  | (k, .ok result) =>
      ({ k with registers := writeResults k.registers (results result) }, .ok ())
  | (k, .error action) => (k, .error action)

/-- `dispatch_syscall` -/
def dispatchSyscall (k : Kernel) : Checked (SyscallResult Unit) :=
  let a := k.registers
  match a .a6 with
  | 0 => returning Empty.elim <$> k.exit
  | 1 => k.withArg (capabilityArg (a .a0)) fun cap =>
      k.withSlice (a .a2) (a .a3) fun args => k.withSlice (a .a4) (a .a5) fun result =>
        returning (fun len => [len]) <$> k.ipcCall P cap (a .a1) args result
  | 2 => k.withSlice (a .a0) (a .a1) fun args =>
      returning (fun (cap, method, len, sender) =>
        [capabilityReg cap, method, len, processIdReg sender]) <$> k.ipcReceive args
  | 3 => k.withSlice (a .a0) (a .a1) fun result =>
      returning (fun _ => []) <$> k.ipcReply P result
  | 4 => k.withArg (capabilityArg (a .a0)) fun cap =>
      returning (fun (virt, len) => [virt, len]) <$> k.ipcStream cap (a .a1)
  | 5 => returning (fun virt => [virt]) <$> k.alloc (a .a0)
  | 6 => returning (fun (virt, cap) => [virt, cap.asUsize]) <$> k.allocShared P (a .a0)
  | 7 => k.withArg (capabilityArg (a .a0)) fun cap =>
      returning (fun (virt, len) => [virt, len]) <$> k.mapShared cap
  | 8 => k.withArg (checkPointer (a .a0)) fun ptr => returning (fun _ => []) <$> k.free ptr
  | 9 => returning (fun _ => []) <$> k.yield
  | 10 => k.withSlice (a .a0) (a .a1) fun message =>
      returning (fun _ => []) <$> k.log message (a .a2)
  | _ => pure (k, .error (.userErr .invalidSyscallNumber))

end Kernel

end Deravel
