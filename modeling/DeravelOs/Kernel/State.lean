import DeravelOs.Capability.Validate
import DeravelOs.Heap.BuddySafety
import DeravelOs.Page.Mapping

/-!
# The state of the kernel

`kernel/src/process.rs`, `stack.rs`, `user.rs`, `capability.rs`, `shared_memory.rs` and
`virtual_memory.rs`, as far as they say what there is; what is done with it comes in the next
modules.

* `Process`, `Handler`, `VirtualMemoryMapping`: the kernel's objects.  Memory behind a pointer is a
  `Backing`; an `Arc` to it is a copy of the `Backing`.
* `Platform`: what the kernel is given: memory, images, and the code of other crates.
* `Oracle`: what it cannot know before a step: devices, the addresses that its own containers take
  from the heap, and which translations the hart has cached.
* `Kernel`: the state of the machine as far as the kernel is concerned.
-/

namespace Deravel

/-! ## Processes -/

/-- `RiscvRegisters`: the names of the registers. -/
inductive Register
  | ra | sp | gp | tp | t0 | t1 | t2 | s0 | s1 | a0 | a1 | a2 | a3 | a4 | a5 | a6 | a7
  | s2 | s3 | s4 | s5 | s6 | s7 | s8 | s9 | s10 | s11 | t3 | t4 | t5 | t6
  deriving DecidableEq, Repr

/-- `RiscvRegisters` -/
abbrev RiscvRegisters : Type := Register → ℕ

/-- `UserPtr<[u8]>`, which `from_slice` has accepted. -/
structure UserSlice where
  ptr : ℕ
  len : ℕ
  deriving DecidableEq, Repr

/-- `UntypedBox<PageGranular>`: a pointer and the layout that was asked for. -/
structure Backing where
  ptr : ℕ
  layout : Layout

/-- `Backing::byte_size` -/
abbrev Backing.byteSize (b : Backing) : ℕ := b.layout.size

/-- `ProcessState` -/
inductive ProcessState
  | runnable
  | finished
  | waitingForReply (server : Actor) (resultBuffer : UserSlice)
  | waitingForStreamMap (server : Actor)
  | readyReply (reply : List UInt8) (resultBuffer : UserSlice)
  | readyStreamMap (ring : RawCapability) (declaredSize : ℕ)
  deriving DecidableEq, Repr

/-- `Message` -/
structure Message where
  cap : RawCapability
  method : ℕ
  args : List UInt8
  sender : ProcessId
  deriving DecidableEq, Repr

/-- `Process`.  A mapping in `virtualMemoryMappings` is the number of a mapping of the kernel. -/
structure Process where
  id : ProcessId
  name : String
  state : ProcessState
  registers : RiscvRegisters
  pc : ℕ
  pageTable : PageTable
  heap : BuddyAllocator
  messages : List Message
  currentlyServing : Option ProcessId
  allocated : List (ℕ × Backing)
  virtualMemoryMappings : List (AddressRange × ℕ)

/-- `PROCESS_COUNT` -/
def processCount : ℕ := 8

/-! ## Objects behind kernel capabilities -/

/-- A segment of an ELF file. -/
structure ProgramHeader where
  pType : ℕ
  pOffset : ℕ
  pVaddr : ℕ
  pFilesz : ℕ
  pMemsz : ℕ
  pFlags : ℕ
  pAlign : ℕ
  deriving DecidableEq, Repr

/-- The header of an ELF file, and its segments if their table can be read. -/
structure ElfBytes where
  class64 : Bool
  littleEndian : Bool
  version : ℕ
  osabi : ℕ
  abiversion : ℕ
  eType : ℕ
  eMachine : ℕ
  eEntry : ℕ
  segments : Option (List ProgramHeader)
  deriving DecidableEq, Repr

/-- `Elf<T, U>`: an image in the kernel's own image, with `T::NAME` and the number of arguments of
`T`, which are all capabilities. -/
structure Elf where
  name : String
  argCount : ℕ
  base : ℕ
  bytes : List UInt8

/-- `VirtualMemoryMapping<MappedRegion>` -/
structure VirtualMemoryMapping where
  sectorOffset : ℕ
  size : ℕ
  backedPages : List (ℕ × Backing)

/-- The implementations of `RawHandler`. -/
inductive Handler
  | display
  | keyboard
  | mouse
  | drive
  | network
  | shutdown
  | spawner (elf : Elf)
  | sharedMemory (backing : Backing)
  | mapping (index : ℕ)

/-- The memory that the drivers share with processes: the rings of the two `VirtioInput`s and the
two `SharedMemory`s of `VirtioGpu`. -/
structure Devices where
  keyboardRing : Backing
  mouseRing : Backing
  cursorImage : Backing
  framebuffer : Backing

/-! ## What the kernel is given -/

/-- The types of the arguments of the methods of drivers. -/
inductive ArgType
  | u16
  | u32
  | u64
  | text
  | bytes
  deriving DecidableEq, Repr

/-- The machine and the crates that the kernel is linked against. -/
structure Platform where
  /-- the RAM in the direct mapping -/
  ram : AddressRange
  /-- `collect_reserved` -/
  reserved : List AddressRange
  /-- `image_start..image_end` -/
  image : AddressRange
  /-- the address of `CAPABILITY_PAGES` -/
  capabilityPages : ℕ
  fat : Elf
  windowing : Elf
  imageViewer : Elf
  terminal : Elf
  shell : Elf
  /-- bytes of a frame on the display -/
  framebufferSize : ℕ
  /-- physical memory at the start of `main` -/
  memory : ℕ → UInt8
  /-- `ElfBytes::minimal_parse` and `segments` -/
  minimalParse : List UInt8 → Option ElfBytes
  /-- `ElfBytes::segment_data`, as the place of its slice in the file -/
  segmentData : List UInt8 → ProgramHeader → Option AddressRange
  /-- `postcard::to_slice` of a `usize` -/
  encodeUsize : ℕ → List UInt8
  /-- `postcard::from_bytes` of a `usize`, with the bytes after it -/
  decodeUsize : List UInt8 → Option (ℕ × List UInt8)
  /-- the bytes that `postcard::from_bytes` leaves after an argument, unless it is malformed -/
  decodeArg : ArgType → List UInt8 → Option (List UInt8)
  /-- a `ProcessInputs` in memory -/
  encodeInputs : ProcessId → List RawCapability → List UInt8
  /-- the documentation of `segment_data`: the bytes of a segment, if the file has them -/
  segmentData_eq : ∀ bytes segment, segmentData bytes segment =
    if segment.pOffset + segment.pFilesz ≤ bytes.length then
      some ⟨segment.pOffset, segment.pOffset + segment.pFilesz⟩
    else none
  ram_direct : usizeRange ≤ ram.start + directMapping.start
  ram_stop : ram.stop < usizeRange
  reservations : Reservations ram reserved
  image_reserved : image ∈ reserved
  elf_static : ∀ elf ∈ [fat, windowing, imageViewer, terminal, shell],
    image.start ≤ elf.base ∧ elf.base + elf.bytes.length ≤ image.stop
  elf_aligned : ∀ elf ∈ [fat, windowing, imageViewer, terminal, shell], pageSize ∣ elf.base
  capability_static : image.start ≤ capabilityPages ∧
    capabilityPages + (processCount + 1) * pageSize ≤ image.stop
  capability_aligned : pageSize ∣ capabilityPages
  capability_new : ∀ i < (processCount + 1) * pageSize,
    memory (capabilityPages % directMapping.start + i) = 0

/-- A change of the kernel's own containers on the heap: a new block, or an old one given back. -/
inductive HeapOp
  | alloc (layout : Layout)
  | dealloc (index : ℕ)

/-- What the kernel meets during a step. -/
structure Oracle where
  /-- what its containers do with the heap, for each time that they use it -/
  churn : List (List HeapOp)
  /-- how many turns the loop of `validate` is given -/
  turns : ℕ
  /-- which of the tables that the hart has walked it has the translation of an address from -/
  cached : ℕ → ℕ
  /-- what a driver answers to a method call -/
  reply : Checked (List UInt8)
  /-- the sectors of the drive -/
  disk : ℕ → Checked (List UInt8)
  /-- what the interrupt handlers write to memory -/
  interrupt : Checked (List (ℕ × UInt8))

/-! ## The kernel -/

/-- `UserSyscallError` -/
inductive UserSyscallError
  | alloc
  | allocTryReserve
  | invalidCapability
  | invalidPointer
  | invalidSyscallNumber
  | sliceTooSmall
  deriving DecidableEq, Repr

/-- What the kernel says of a process that it kills or stops. -/
inductive KillReason
  | userError (err : UserSyscallError)
  | refusedCapability (text : CapabilityErrorText)
  | nonexistentProcess
  | receiveWithoutReply
  | replyWithoutServe
  | waitingForSomeoneElse
  | invalidStreamMapReply
  | ringNotValid (stream : RawCapability)
  | ringNotKernel
  | streamSizeUnaligned
  | streamLengthMismatch
  | nonKernelSharedMemory
  | freeOfUnallocated
  | invalidUtf8
  | invalidLogLevel
  | stackOverflow
  | forbiddenAccess (stval : ℕ)
  | waitingOnFinished (server : ProcessId)
  deriving DecidableEq, Repr

/-- How the answer to a message comes back. -/
inductive ReturnPlace
  | buffer (resultBuffer : UserSlice)
  | streamMap
  deriving DecidableEq, Repr

/-- An answer to a message. -/
inductive Answer
  | bytes (reply : List UInt8)
  | ring (ring : RawCapability) (declaredSize : ℕ)
  deriving DecidableEq, Repr

/-- What has happened between processes.  The kernel keeps no such list; it is what the statements
about IPC speak of. -/
inductive IpcEvent
  | sent (server : ProcessId) (message : Message) (place : ReturnPlace)
  | received (server : ProcessId) (message : Message)
  | replied (server caller : ProcessId) (answer : Answer)
  | resumed (caller : ProcessId) (place : ReturnPlace) (answer : Answer)
  deriving DecidableEq, Repr

/-- The kernel and the hart. -/
structure Kernel where
  /-- `PROCESSES` -/
  processes : ℕ → Option Process
  /-- `PROCESSES_RESERVED` -/
  processesReserved : ℕ
  /-- physical memory -/
  memory : ℕ → UInt8
  /-- `HANDLERS`, as many as `ALLOCATED_COUNT` -/
  handlers : List Handler
  /-- the leaked `VirtualMemoryMapping`s -/
  mappings : List VirtualMemoryMapping
  /-- `BUDDY` -/
  heap : BuddyAllocator
  /-- the blocks that the kernel's own containers have on the heap -/
  internal : List Live
  devices : Devices
  /-- `UserStoredCtx` -/
  userPid : Option ProcessId
  /-- `UserCtx::registers`, and the registers in user mode -/
  registers : RiscvRegisters
  /-- the `sepc` register, and the program counter in user mode -/
  sepc : ℕ
  /-- the page tables that the hart has seen since the last `sfence_vma_all`, the present one
  first -/
  hart : List PageTable
  /-- what `error!` and `warn!` have said of processes -/
  console : List (String × ProcessId × KillReason)
  trace : List IpcEvent
  oracle : Oracle

/-- `SyscallAction` -/
inductive SyscallAction
  | userErr (err : UserSyscallError)
  | yield
  deriving DecidableEq, Repr

/-- What a system call leaves behind. -/
abbrev SyscallResult (α : Type) : Type := Kernel × Except SyscallAction α

namespace Kernel

/-- The process in a slot that is filled. -/
def process? (k : Kernel) (pid : ProcessId) : Option Process := k.processes pid.asU16

/-- The kernel after a process record was changed in place.  The table of the running process is
the one that the hart walks. -/
def setProcess (k : Kernel) (proc : Process) : Kernel :=
  { k with
    processes := Function.update k.processes proc.id.asU16 (some proc)
    hart := if k.userPid = some proc.id then proc.pageTable :: k.hart else k.hart }

/-- `sfence_vma_all`: from here on the hart walks the present table. -/
def sfenceVmaAll (k : Kernel) : Kernel := { k with hart := k.hart.take 1 }

/-- `lock_if_some` on a slot, while the slots `held` are locked. -/
def lockIfSome (k : Kernel) (held : List ProcessId) (pid : ProcessId) :
    Checked (Option Process) := do
  ensure (pid.asU16 < processCount) (.indexOutOfBounds .getProcess)
  ensure (pid ∉ held) .deadlock
  pure (k.process? pid)

/-- `UserStoredCtx::pid` -/
def pid (k : Kernel) : Checked ProcessId :=
  match k.userPid with
  | some pid => pure pid
  | none => throw (.unwrap .userPid)

/-- `UserStoredCtx::process` -/
def process (k : Kernel) (held : List ProcessId) : Checked Process := do
  let pid ← k.pid
  match ← k.lockIfSome held pid with
  | some proc => pure proc
  | none => throw (.unwrap .userProcess)

/-- The kernel after a line on its console. -/
def logKill (k : Kernel) (proc : Process) (reason : KillReason) : Kernel :=
  { k with console := k.console ++ [(proc.name, proc.id, reason)] }

/-- `kill!` -/
def kill {α : Type} (k : Kernel) (proc : Process) (reason : KillReason) : SyscallResult α :=
  ((k.logKill proc reason).setProcess { proc with state := .finished }, .error .yield)

/-- The kernel after an event between processes. -/
def record (k : Kernel) (event : IpcEvent) : Kernel := { k with trace := k.trace ++ [event] }

end Kernel

end Deravel
