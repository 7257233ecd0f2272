import DeravelOs.Kernel.Process

/-!
# Objects behind kernel capabilities

`kernel/src/capability.rs`, `shared_memory.rs`, `virtual_memory.rs`, `process/spawner.rs` and the
`*Server` implementations of the drivers: what the methods of a `RawHandler` do.  A driver's own
work is not followed, only the calls that hand out memory; the rest of its answers comes from the
oracle.
-/

namespace Deravel

variable (P : Platform)

namespace Kernel

/-- `reserve_kernel_capability` -/
def reserveKernelCapability (k : Kernel) (handler : Handler) :
    Checked (RawCapability × Kernel) := do
  let localIndex := k.handlers.length
  ensure (localIndex < capabilitiesPerPage) (.indexOutOfBounds .handlers)
  let cap ← RawCapability.new .kernel localIndex
  pure (cap, { k with handlers := k.handlers ++ [handler] })

/-- `grant_kernel_capability` -/
def grantKernelCapability (k : Kernel) (grantee : ProcessId) (handler : Handler) :
    Checked (RawCapability × Kernel) := do
  let (cap, k) ← k.reserveKernelCapability handler
  let k ← k.storeCertificate P cap (.granted (.userspace grantee))
  pure (cap, k)

/-- `get_handler` -/
def getHandler (k : Kernel) (localIndex : ℕ) : Checked Handler :=
  match k.handlers[localIndex]? with
  | some handler => pure handler
  | none => throw (.unwrap .handlers)

/-- The `VirtualMemoryMapping` behind a reference. -/
def getMapping (k : Kernel) (index : ℕ) : Checked VirtualMemoryMapping :=
  match k.mappings[index]? with
  | some mapping => pure mapping
  | none => throw (.indexOutOfBounds .virtualMemory)

/-! ## Spawning -/

/-- Decodes `count` capabilities; a word that is no capability is a panic of its `Deserialize`. -/
def decodeCapabilities : ℕ → List UInt8 → Checked (List RawCapability)
  | 0, _ => pure []
  | count + 1, bytes =>
      match P.decodeUsize bytes with
      | none => throw (.unwrap .spawner)
      | some (word, rest) =>
          match RawCapability.tryFrom word with
          | .error _ => throw (.unwrap .spawner)
          | .ok cap => do
              let caps ← decodeCapabilities count rest
              pure (cap :: caps)

/-- What `Elf::call_method` does with an argument: hand it on to the new process. -/
def handOver (sender child : ProcessId) (k : Kernel) (cap : RawCapability) : Checked Kernel := do
  let certifier ← cap.certifier
  ensure (certifier = .userspace sender) (.assertion .spawner)
  let before ← k.loadCertificate P cap
  let after ← before.replaceRecipient (.userspace child)
  k.storeCertificate P cap after

/-- `Elf::call_method` -/
def spawnerCallMethod (k : Kernel) (elf : Elf) (args : List UInt8) (sender : ProcessId) :
    Checked (List UInt8 × Kernel) := do
  let (child, exported, k) ← k.reserveProcess
  let k ← k.storeCertificate P exported (.granted (.userspace sender))
  let args ← decodeCapabilities P elf.argCount args
  let k ← args.foldlM (handOver P sender child) k
  let k ← createProcess P k elf child args
  pure (P.encodeUsize exported.asUsize, k)

/-! ## Drivers -/

/-- `postcard::from_bytes` of one argument, of which only the bytes after it are kept. -/
def skipArg : ArgType → List UInt8 → Option (List UInt8)
  | .u64, bytes => (P.decodeUsize bytes).map Prod.snd
  | type, bytes => P.decodeArg type bytes

/-- `postcard::from_bytes` of the arguments of a method; bytes after the last one do not matter. -/
def decodeArgs : List ArgType → List UInt8 → Checked Unit
  | [], _ => pure ()
  | type :: types, bytes =>
      match skipArg P type bytes with
      | none => throw (.unwrap .deviceMethod)
      | some bytes => decodeArgs types bytes

/-- A method of a driver; `methods` has the arguments of each of them. -/
def driverMethod (k : Kernel) (methods : List (List ArgType)) (method : ℕ) (args : List UInt8) :
    Checked (List UInt8 × Kernel) :=
  match methods[method]? with
  | none => throw (.unreachable .deviceMethod)
  | some types => do
      decodeArgs P types args
      let reply ← k.oracle.reply
      pure (reply, k)

/-- `interface display` -/
def displayMethods : List (List ArgType) := [[], [], [], [], [], [], [.u32, .u32]]

/-- `interface drive` -/
def driveMethods : List (List ArgType) := [[.u64], [.u64, .u64], [.u64, .bytes], []]

/-- `interface input_device` -/
def inputDeviceMethods : List (List ArgType) := [[.u16]]

/-- `interface network` -/
def networkMethods : List (List ArgType) := [[.text]]

/-- `framebuffer` and `cursor_image_buffer` of `VirtioGpu` -/
def grantSharedMemory (k : Kernel) (backing : Backing) (sender : ProcessId) :
    Checked (List UInt8 × Kernel) := do
  let (cap, k) ← k.grantKernelCapability P sender (.sharedMemory backing)
  pure (P.encodeUsize cap.asUsize, k)

/-- `read_mapped` of `VirtioBlk`, with its arguments still encoded. -/
def readMapped (k : Kernel) (args : List UInt8) (sender : ProcessId) :
    Checked (List UInt8 × Kernel) :=
  match P.decodeUsize args with
  | none => throw (.unwrap .deviceMethod)
  | some (firstSector, rest) =>
      match P.decodeUsize rest with
      | none => throw (.unwrap .deviceMethod)
      | some (sectorCount, _) => do
          let size := sectorCount * 512
          ensure (size < usizeRange) (.unwrap .deviceMethod)
          ensure (size % pageSize = 0) (.assertion .deviceMethod)
          ensure (size % pageSize = 0) (.assertion .virtualMemory)
          let mapping : VirtualMemoryMapping := ⟨firstSector, size, []⟩
          let index := k.mappings.length
          let (cap, k) ← grantKernelCapability P
            { k with mappings := k.mappings ++ [mapping] } sender (.mapping index)
          pure (P.encodeUsize cap.asUsize, k)

/-! ## The methods of a handler -/

/-- `RawHandler::call_method` -/
def callMethod (k : Kernel) (handler : Handler) (method : ℕ) (args : List UInt8)
    (sender : ProcessId) : Checked (List UInt8 × Kernel) :=
  match handler with
  | .display =>
      if method = 2 then k.grantSharedMemory P k.devices.framebuffer sender
      else if method = 4 then k.grantSharedMemory P k.devices.cursorImage sender
      else k.driverMethod P displayMethods method args
  | .keyboard => k.driverMethod P inputDeviceMethods method args
  | .mouse => k.driverMethod P inputDeviceMethods method args
  | .drive =>
      if method = 1 then k.readMapped P args sender
      else k.driverMethod P driveMethods method args
  | .network => k.driverMethod P networkMethods method args
  | .shutdown => if method = 0 then throw .shutdown else throw (.unreachable .deviceMethod)
  | .spawner elf => k.spawnerCallMethod P elf args sender
  | .sharedMemory _ => throw (.unreachable .sharedMemory)
  | .mapping _ => throw (.unreachable .virtualMemory)

/-- `RawHandler::map_stream`; only input devices have a stream. -/
def mapStream (k : Kernel) (handler : Handler) (stream : ℕ) : Checked Backing :=
  match handler, stream with
  | .keyboard, 0 => pure k.devices.keyboardRing
  | .mouse, 0 => pure k.devices.mouseRing
  | _, _ => throw (.unreachable .mapStream)

/-- `RawHandler::shared_memory_size` -/
def sharedMemorySize (k : Kernel) (handler : Handler) : Checked ℕ :=
  match handler with
  | .sharedMemory backing => pure backing.byteSize
  | .mapping index => do
      let mapping ← k.getMapping index
      pure mapping.size
  | _ => throw (.unreachable .sharedMemory)

/-- One of the pages that a `VirtualMemoryMapping` already has. -/
def mapBackedPage (virt : ℕ) (table : PageTable) (entry : ℕ × Backing) : Checked PageTable := do
  let phys ← virtToPhys entry.2.ptr
  table.map (virt + pageSize * entry.1) phys pageSize PageFlags.readonly.asUser

/-- `RawHandler::shared_memory_map`, on the page table and the mappings of a process. -/
def sharedMemoryMap (k : Kernel) (handler : Handler) (virt : ℕ) (proc : Process) :
    Checked Process :=
  match handler with
  | .sharedMemory backing => do
      let phys ← virtToPhys backing.ptr
      let pageTable ← proc.pageTable.map virt phys backing.byteSize PageFlags.readWrite.asUser
      pure { proc with pageTable := pageTable }
  | .mapping index => do
      let mapping ← k.getMapping index
      let pageTable ← mapping.backedPages.foldlM (mapBackedPage virt) proc.pageTable
      pure { proc with
        pageTable := pageTable
        virtualMemoryMappings :=
          proc.virtualMemoryMappings ++ [(⟨virt, virt + mapping.size⟩, index)] }
  | _ => throw (.unreachable .sharedMemory)

/-- `MappedRegion::load_page` -/
def loadSectors (k : Kernel) (sectorOffset pageIndex : ℕ) : Checked (List UInt8) := do
  let first ← usizeAdd .diskRead sectorOffset (pageIndex * pageSize / 512)
  let sectors ← (List.range (pageSize / 512)).mapM fun i => do
    let sector ← usizeAdd .diskRead first i
    k.oracle.disk sector
  pure sectors.flatten

/-- `VirtualMemoryRawMapping::load_page`, on the page table of a process. -/
def loadPage (k : Kernel) (index virtBase pageIndex : ℕ) (proc : Process) :
    Checked (Kernel × Process) := do
  let virt := virtBase + pageSize * pageIndex
  let mapping ← k.getMapping index
  let contents ← k.loadSectors mapping.sectorOffset pageIndex
  let layout ← pageLayout pageSize
  let (page, k) ← k.newPages layout fun i => contents.getD i 0
  -- the page tables on the way, and the room in `backed_pages`
  let k ← k.churn
  let phys ← virtToPhys page.ptr
  let pageTable ← proc.pageTable.map virt phys pageSize PageFlags.readonly.asUser
  let mapping := { mapping with backedPages := mapping.backedPages ++ [(pageIndex, page)] }
  pure ({ k with mappings := k.mappings.set index mapping },
    { proc with pageTable := pageTable })

end Kernel

end Deravel
