import DeravelOs.Kernel.State

/-!
# Memory as the kernel uses it

`kernel/src/page.rs`, `heap.rs`, `heap/granularity.rs`, `util/untyped_box.rs`, `user.rs` and the
certificates of `capability.rs`: address translation, the pages that are taken from and given back
to the kernel heap, copies from and to user memory, and the capability pages.

The kernel's own containers live on the same heap as the pages that it maps: the boxes of page
tables and of tree nodes, `Arc`s, queues, lists and texts.  Which blocks they take is not followed.
Wherever the source lets them take some, the model has a `Kernel.churn`: a list of requests that the
oracle chooses freely, and an `outOfMemory` panic when the heap refuses one.  What a container gives
back is given back in a later churn, so that releasing memory asks the heap for nothing.
-/

namespace Deravel

/-- `virt_to_phys` -/
def virtToPhys (virt : ℕ) : Checked ℕ := do
  ensure (directMapping.start ≤ virt) (.assertion .virtToPhys)
  let virt := virt % virtualAddresses.stop
  ensure (directMapping.start ≤ virt ∧ virt < directMapping.stop) (.assertion .virtToPhys)
  usizeSub .virtToPhys virt directMapping.start

/-- The physical address behind an address of the direct mapping. -/
def physOf (virt : ℕ) : ℕ := virt % directMapping.start

/-- `usize::next_multiple_of(PAGE_SIZE)` -/
def nextMultipleOfPage (size : ℕ) : Checked ℕ := do
  let padded := nextMultipleOf size pageSize
  ensure (padded < usizeRange) (.overflow .nextMultipleOf)
  pure padded

/-- `Layout::from_size_align(size, PAGE_SIZE).unwrap()` -/
def pageLayout (size : ℕ) : Checked Layout :=
  if h : size + (pageSize - 1) < 2 ^ 63 then
    pure ⟨size, pageSize, ⟨12, rfl⟩, h⟩
  else
    throw (.unwrap .layout)

/-- The layout of a `Vec<u8>` with this capacity, if there can be one. -/
def bytesLayout (size : ℕ) : Option Layout :=
  if h : size + (1 - 1) < 2 ^ 63 then some ⟨size, 1, ⟨0, rfl⟩, h⟩ else none

/-- `page_granular` -/
def pageGranular (layout : Layout) : Checked Layout :=
  if h : max layout.size pageSize + (max layout.align pageSize - 1) < 2 ^ 63 then
    pure
      { size := max layout.size pageSize
        align := max layout.align pageSize
        align_pow := by
          obtain ⟨k, hk⟩ := layout.align_pow
          rcases le_total layout.align pageSize with hle | hle
          · exact ⟨12, by rw [max_eq_right hle]; rfl⟩
          · exact ⟨k, by rw [max_eq_left hle, hk]⟩
        size_le := h }
  else
    throw (.unwrap .pageGranular)

/-- Memory with the bytes from `start` on replaced by those of `contents`. -/
def fillMemory (memory : ℕ → UInt8) (start size : ℕ) (contents : ℕ → UInt8) : ℕ → UInt8 :=
  fun p => if start ≤ p ∧ p < start + size then contents (p - start) else memory p

/-- Memory with one byte after the other stored at an address of its own. -/
def storeBytes (memory : ℕ → UInt8) : List (ℕ × UInt8) → ℕ → UInt8
  | [] => memory
  | (p, byte) :: stores => storeBytes (Function.update memory p byte) stores

namespace Kernel

/-! ## The heap -/

/-- One change of the kernel's own containers. -/
def heapOp (k : Kernel) : HeapOp → Checked Kernel
  | .alloc layout => do
      match ← k.heap.alloc layout with
      | (.ok ptr, heap) => pure { k with heap := heap, internal := ⟨ptr, layout⟩ :: k.internal }
      | (.error _, _) => throw .outOfMemory
  | .dealloc index =>
      match k.internal[index]? with
      | some block => do
          let heap ← k.heap.dealloc block.ptr block.layout
          pure { k with heap := heap, internal := k.internal.eraseIdx index }
      | none => pure k

/-- What the containers do to the heap here, and have given back since the last time. -/
def churn (k : Kernel) : Checked Kernel :=
  match k.oracle.churn with
  | [] => pure k
  | ops :: rest =>
      ops.foldlM heapOp { k with oracle := { k.oracle with churn := rest } }

/-- Memory from the `PageGranular` allocator, filled with `contents`.  Nothing is allocated for
zero bytes: the pointer dangles. -/
def allocPages (k : Kernel) (layout : Layout) (contents : ℕ → UInt8) :
    Checked (Except AllocError Backing × Kernel) := do
  if layout.size = 0 then
    pure (.ok ⟨layout.align, layout⟩, k)
  else do
    let k ← k.churn
    let granular ← pageGranular layout
    match ← k.heap.alloc granular with
    | (.error e, heap) => pure (.error e, { k with heap := heap })
    | (.ok ptr, heap) =>
        let memory := fillMemory k.memory (physOf ptr) layout.size contents
        pure (.ok ⟨ptr, layout⟩, { k with heap := heap, memory := memory })

/-- `allocPages` where the source does not handle a failure. -/
def newPages (k : Kernel) (layout : Layout) (contents : ℕ → UInt8) :
    Checked (Backing × Kernel) := do
  match ← k.allocPages layout contents with
  | (.ok backing, k) => pure (backing, k)
  | (.error _, _) => throw .outOfMemory

/-- `Drop for UntypedBox` -/
def freePages (k : Kernel) (backing : Backing) : Checked Kernel := do
  let granular ← pageGranular backing.layout
  let heap ← k.heap.dealloc backing.ptr granular
  pure { k with heap := heap }

/-- Whether some `Arc` to this memory is left: in a process, behind a capability or in a driver. -/
def holds (k : Kernel) (backing : Backing) : Bool :=
  ((List.range processCount).any fun i => match k.processes i with
    | some proc => proc.allocated.any fun entry => entry.2.ptr = backing.ptr
    | none => false) ||
  (k.handlers.any fun handler => match handler with
    | .sharedMemory shared => shared.ptr = backing.ptr
    | _ => false) ||
  k.devices.cursorImage.ptr = backing.ptr || k.devices.framebuffer.ptr = backing.ptr

/-- An `Arc` is dropped; the memory goes when it was the last one. -/
def dropBacking (k : Kernel) (backing : Backing) : Checked Kernel :=
  if k.holds backing then pure k else k.freePages backing

/-- The `Arc`s of a list are dropped one after the other. -/
def dropAllocated (k : Kernel) : List (ℕ × Backing) → Checked Kernel
  | [] => pure k
  | entry :: rest => do
      let k ← (if rest.any fun other => other.2.ptr = entry.2.ptr then pure k
        else k.dropBacking entry.2 : Checked Kernel)
      k.dropAllocated rest

/-! ## User memory -/

/-- The translation that the hart makes of a user address: a cached one, or the present table's. -/
def translate (k : Kernel) (virt : ℕ) : Option (ℕ × PageFlags) :=
  if virt < directMapping.start then
    (k.hart[k.oracle.cached virt]?.bind fun table => table.translate virt) <|>
      (k.hart.head?.bind fun table => table.translate virt)
  else
    none

/-- The physical addresses of user memory.  A page fault in kernel mode is a kernel trap. -/
def userAddresses (k : Kernel) (allowed : PageFlags → Bool) (ptr len : ℕ) : Checked (List ℕ) :=
  (List.range' ptr len).mapM fun virt =>
    match k.translate virt with
    | some (phys, flags) => if allowed flags then pure phys else throw .kernelTrap
    | none => throw .kernelTrap

/-- The bytes of a slice in user memory. -/
def readUser (k : Kernel) (slice : UserSlice) : Checked (List UInt8) := do
  let addresses ← k.userAddresses PageFlags.read slice.ptr slice.len
  pure (addresses.map k.memory)

/-- `Vec::<u8>::with_capacity`: nothing is allocated for no bytes. -/
def withCapacity (k : Kernel) (size : ℕ) : Checked Kernel :=
  match bytesLayout size with
  | none => throw .capacityOverflow
  | some layout => if size = 0 then pure k else k.heapOp (.alloc layout)

/-- `UserPtr::copy_to_kernel` -/
def copyToKernel (k : Kernel) (slice : UserSlice) : Checked (List UInt8 × Kernel) := do
  let k ← k.withCapacity slice.len
  let bytes ← k.readUser slice
  pure (bytes, k)

/-- `UserPtr::write_to_user` -/
def writeToUser (k : Kernel) (slice : UserSlice) (data : List UInt8) :
    Checked (Except UserSyscallError Kernel) := do
  if slice.len < data.length then
    pure (.error .sliceTooSmall)
  else do
    let addresses ← k.userAddresses PageFlags.write slice.ptr data.length
    pure (.ok { k with memory := storeBytes k.memory (addresses.zip data) })

/-! ## Certificates -/

end Kernel

/-- The word of four bytes in memory, the lowest first. -/
def wordOf (bytes : List UInt8) : UInt32 :=
  bytes.foldr (fun byte word => byte.toUInt32 + 256 * word) 0

/-- The four bytes of a word. -/
def bytesOf (word : UInt32) : List UInt8 :=
  [word.toUInt8, (word / 256).toUInt8, (word / 65536).toUInt8, (word / 16777216).toUInt8]

/-- `CapabilityCertificate::load` of the eight bytes of a slot. -/
def CapabilityCertificateValue.ofBytes (bytes : List UInt8) : CapabilityCertificateValue :=
  ⟨wordOf (bytes.take 4), wordOf (bytes.drop 4)⟩

/-- The bytes that `CapabilityCertificate::store` writes. -/
def CapabilityCertificateValue.toBytes (v : CapabilityCertificateValue) : List UInt8 :=
  bytesOf v.grantee ++ bytesOf v.payload

namespace Kernel

/-- The slots of the capability pages as `validate` reads them, at `USER_CAPABILITIES`.  These are
user pages: without `SUM` they trap. -/
def capabilityPages (k : Kernel) (sum : Bool) : CapabilityPages := fun certifier index =>
  if sum then do
    let addresses ← k.userAddresses PageFlags.read (RawCapability.slot certifier index).asUsize 8
    pure (.ofBytes (addresses.map k.memory))
  else
    throw .kernelTrap

/-- `with_sum(|| cap.validate(claimer))` -/
def validate (k : Kernel) (cap : RawCapability) (claimer : ProcessId) :
    Checked (Except CapabilityError RawCapability) :=
  match cap.validate (k.capabilityPages true) k.oracle.turns claimer with
  | some result => result
  | none => throw .diverges

/-- The text of a `CapabilityError`, which is formatted outside of `with_sum`. -/
def formatCapabilityError (k : Kernel) (err : CapabilityError) : Checked CapabilityErrorText :=
  match err.fmt (k.capabilityPages false) k.oracle.turns with
  | some result => result
  | none => throw .diverges

end Kernel

variable (P : Platform)

/-- `capability_certificate`: where the kernel finds a slot, through the direct mapping. -/
def Platform.capabilityCertificate (cap : RawCapability) : Checked ℕ := do
  let certifier ← cap.certifier
  pure (physOf (P.capabilityPages + certifier.pageIndex * pageSize + cap.localIndex * 8))

namespace Kernel

/-- `capability_certificate(cap).load(..)` -/
def loadCertificate (k : Kernel) (cap : RawCapability) : Checked CapabilityCertificateValue := do
  let slot ← P.capabilityCertificate cap
  pure (.ofBytes ((List.range' slot 8).map k.memory))

/-- `capability_certificate(cap).store(..)` -/
def storeCertificate (k : Kernel) (cap : RawCapability) (value : CapabilityCertificateValue) :
    Checked Kernel := do
  let slot ← P.capabilityCertificate cap
  pure { k with memory := storeBytes k.memory ((List.range' slot 8).zip value.toBytes) }

end Kernel

end Deravel
