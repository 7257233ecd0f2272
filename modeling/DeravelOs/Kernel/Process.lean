import DeravelOs.Kernel.Memory

/-!
# Processes and their address spaces

`kernel/src/process.rs` and `elf.rs`: the memory of a process (`alloc`, `alloc_at`, `dealloc`), and
how a process comes to be: its image, its capability pages, its inputs and its stack.
-/

namespace Deravel

/-- `Vec::swap_remove`: the last element takes the place of the removed one. -/
def swapRemove {α : Type} (l : List α) (index : ℕ) : List α :=
  match l.getLast? with
  | some last => (l.set index last).dropLast
  | none => l

namespace Process

/-- `Process::alloc_at` -/
def allocAt (proc : Process) (virt : ℕ) (backing : Backing) (flags : PageFlags) :
    Checked Process := do
  let size := backing.layout.size
  let phys ← virtToPhys backing.ptr
  let pageTable ← proc.pageTable.map virt phys size flags
  pure { proc with pageTable := pageTable, allocated := proc.allocated ++ [(virt, backing)] }

/-- `Process::alloc` -/
def alloc (proc : Process) (backing : Backing) (flags : PageFlags) :
    Checked (Except AllocError ℕ × Process) := do
  match ← proc.heap.alloc backing.layout with
  | (.error e, heap) => pure (.error e, { proc with heap := heap })
  | (.ok virt, heap) => do
      let proc ← allocAt { proc with heap := heap } virt backing flags
      pure (.ok virt, proc)

/-- `Process::dealloc`, with the `Arc` that is dropped at its end; `none` is its `Err`. -/
def dealloc (proc : Process) (ptr : ℕ) : Checked (Option (Process × Backing)) :=
  match proc.allocated.zipIdx.find? fun entry => entry.1.1 = ptr with
  | none => pure none
  | some ((virt, backing), slot) => do
      let phys ← virtToPhys backing.ptr
      let pageTable ← proc.pageTable.unmap virt phys backing.byteSize
      let heap ← proc.heap.dealloc virt backing.layout
      pure (some ({ proc with
        allocated := swapRemove proc.allocated slot
        pageTable := pageTable
        heap := heap }, backing))

end Process

variable (P : Platform)

/-! ## The image -/

/-- `paging_flags` -/
def pagingFlags (segment : ProgramHeader) : Checked PageFlags := do
  let readable := segment.pFlags.testBit 2
  let writable := segment.pFlags.testBit 1
  let executable := segment.pFlags.testBit 0
  ensure (readable = true) (.assertion .loadElf)
  ensure (¬ (writable = true ∧ executable = true)) (.assertion .loadElf)
  pure (if writable then PageFlags.readWrite.asUser
    else if executable then PageFlags.executable.asUser
    else PageFlags.readonly.asUser)

/-- `elf_data_is_zero_padded` -/
def elfDataIsZeroPadded (segment : ProgramHeader) (bytes : List UInt8) : Checked Bool := do
  let fakeEnd := segment.pOffset + segment.pFilesz
  let realEnd := nextMultipleOf (segment.pOffset + segment.pMemsz) pageSize
  ensure (fakeEnd ≤ realEnd ∧ realEnd ≤ bytes.length) (.indexOutOfBounds .loadElf)
  pure (((bytes.drop fakeEnd).take (realEnd - fakeEnd)).all (· = 0))

/-- The bytes of a slice of an image. -/
def Elf.slice (elf : Elf) (slice : AddressRange) : List UInt8 :=
  (elf.bytes.drop slice.start).take (slice.stop - slice.start)

/-- What the loop of `load_elf` does with a segment. -/
def loadSegment (elf : Elf) (loading : Kernel × Process) (segment : ProgramHeader) :
    Checked (Kernel × Process) := do
  let (k, proc) := loading
  if segment.pType ≠ 1 then
    pure (k, proc)
  else do
    ensure (segment.pVaddr % pageSize = 0) (.assertion .loadElf)
    ensure (userElf.start ≤ segment.pVaddr) (.assertion .loadElf)
    ensure (segment.pFilesz ≤ segment.pMemsz) (.assertion .loadElf)
    ensure (segment.pMemsz ≤ userElf.stop - userElf.start) (.assertion .loadElf)
    let vaddrEnd ← usizeAdd .loadElf segment.pVaddr segment.pMemsz
    ensure (vaddrEnd ≤ userElf.stop) (.assertion .loadElf)
    ensure (segment.pAlign = pageSize) (.assertion .loadElf)
    match P.segmentData elf.bytes segment with
    | none => throw (.unwrap .loadElf)
    | some slice => do
        let data := elf.slice slice
        let flags ← pagingFlags segment
        if flags.write then do
          let size ← nextMultipleOfPage segment.pMemsz
          match bytesLayout size with
          | none => throw .capacityOverflow
          | some layout => do
              let (pages, k) ← k.newPages layout fun i => data.getD i 0
              ensure (data.length = segment.pFilesz) (.assertion .loadElf)
              let proc ← proc.allocAt segment.pVaddr pages flags
              pure (k, proc)
        else do
          let dataPtr := elf.base + slice.start
          ensure (dataPtr % pageSize = 0) (.assertion .loadElf)
          let padded ← elfDataIsZeroPadded segment elf.bytes
          ensure (padded = true) (.assertion .loadElf)
          let phys ← virtToPhys dataPtr
          let pageTable ← proc.pageTable.map segment.pVaddr phys
            (nextMultipleOf data.length pageSize) flags
          pure (k, { proc with pageTable := pageTable })

/-- `load_elf` -/
def loadElf (k : Kernel) (elf : Elf) (proc : Process) : Checked (Kernel × Process) := do
  match P.minimalParse elf.bytes with
  | none => throw (.unwrap .loadElf)
  | some file => do
      ensure (file.class64 = true) (.assertion .loadElf)
      ensure (file.littleEndian = true) (.assertion .loadElf)
      ensure (file.version = 1) (.assertion .loadElf)
      ensure (file.osabi = 0) (.assertion .loadElf)
      ensure (file.abiversion = 0) (.assertion .loadElf)
      ensure (file.eType = 2) (.assertion .loadElf)
      ensure (file.eMachine = 243) (.assertion .loadElf)
      match file.segments with
      | none => throw (.unwrap .loadElf)
      | some segments => do
          let (k, proc) ← segments.foldlM (loadSegment P elf) (k, proc)
          pure (k, { proc with pc := file.eEntry })

/-! ## The other pages of a new process -/

/-- `map_hh_direct_mapping` -/
def mapHhDirectMapping (table : PageTable) : Checked PageTable :=
  table.map directMapping.start 0 (directMapping.stop - directMapping.start) .readWriteExecute

/-- `map_capability_memory` -/
def mapCapabilityMemory (table : PageTable) (pid : ProcessId) : Checked PageTable := do
  let preV := userCapabilities.start
  let preP ← virtToPhys P.capabilityPages
  let ownV := preV + pid.asU16 * pageSize
  let ownP := preP + pid.asU16 * pageSize
  let sufV := ownV + pageSize
  let sufP := ownP + pageSize
  let others ← usizeSub .mapCapabilityMemory processCount pid.asU16
  let sufL ← usizeSub .mapCapabilityMemory others 1
  let table ← table.map preV preP (pid.asU16 * pageSize) PageFlags.readonly.asUser
  let table ← table.map ownV ownP pageSize PageFlags.readWrite.asUser
  table.map sufV sufP (sufL * pageSize) PageFlags.readonly.asUser

/-- `map_inputs_memory`.  A `ProcessInputs` has two words and an option before its arguments, and is
aligned to pages. -/
def mapInputsMemory (k : Kernel) (proc : Process) (elf : Elf) (args : List RawCapability) :
    Checked (Kernel × Process) := do
  let size := nextMultipleOf (24 + 8 * elf.argCount) pageSize
  ensure (size ≤ userInputs.stop - userInputs.start) (.assertion .mapInputsMemory)
  let layout ← pageLayout size
  let bytes := P.encodeInputs proc.id args
  let (inputs, k) ← k.newPages layout fun i => bytes.getD i 0
  let proc ← proc.allocAt userInputs.start inputs PageFlags.readonly.asUser
  pure (k, proc)

/-- `map_user_stack` -/
def mapUserStack (k : Kernel) (proc : Process) : Checked (Kernel × Process) := do
  let stackSize := userStack.stop - userStack.start
  match bytesLayout stackSize with
  | none => throw .capacityOverflow
  | some layout => do
      let (pages, k) ← k.newPages layout fun _ => 0
      let proc ← proc.allocAt userStack.start pages PageFlags.readWrite.asUser
      pure (k, proc)

/-- A process before anything is mapped for it. -/
def Process.bare (id : ProcessId) (name : String) (heap : BuddyAllocator) : Process where
  id := id
  name := name
  state := .runnable
  registers := Function.update (fun _ => 0) .sp userStack.stop
  pc := 0
  pageTable := PageTable.new
  heap := heap
  messages := []
  currentlyServing := none
  allocated := []
  virtualMemoryMappings := []

/-- `create_process` -/
def createProcess (k : Kernel) (elf : Elf) (id : ProcessId) (args : List RawCapability) :
    Checked Kernel := do
  let heap ← BuddyAllocator.new userHeap
  let proc := Process.bare id elf.name heap
  let pageTable ← mapHhDirectMapping proc.pageTable
  let (k, proc) ← loadElf P k elf { proc with pageTable := pageTable }
  let pageTable ← mapCapabilityMemory P proc.pageTable proc.id
  let (k, proc) ← mapInputsMemory P k { proc with pageTable := pageTable } elf args
  let (k, proc) ← mapUserStack k proc
  -- the tables, nodes and `Arc`s since the pages of the stack, and the answer to a request
  let k ← k.churn
  ensure (proc.id.asU16 < processCount) (.indexOutOfBounds .getProcess)
  pure (k.setProcess proc)

/-! ## Process numbers -/

namespace Kernel

/-- `reserve_process`: the number and the export capability. -/
def reserveProcess (k : Kernel) : Checked (ProcessId × RawCapability × Kernel) := do
  let pid ← ProcessId.new (.ofNat (k.processesReserved + 1))
  let exported ← RawCapability.new (.userspace pid) 0
  pure (pid, exported, { k with processesReserved := k.processesReserved + 1 })

/-- `ProcessReservation::spawn` -/
def spawn (k : Kernel) (elf : Elf) (pid : ProcessId) (args : List RawCapability) :
    Checked Kernel := do
  let k ← args.foldlM (fun k cap =>
    k.storeCertificate P cap (.granted (.userspace pid))) k
  createProcess P k elf pid args

end Kernel

end Deravel
