import DeravelOs.Types.Basic

/-!
# Processes, actors and the address space

`types/src/process_id.rs`, `types/src/actor.rs` and the ranges of `types/src/memory.rs`.
-/

namespace Deravel

/-- `MAX_PROCESSES` -/
def maxProcesses : ℕ := 8

lemma one_le_maxProcesses : 1 ≤ maxProcesses := by decide

/-- `ProcessId`: a non-zero number of at most `MAX_PROCESSES`. -/
structure ProcessId where
  asU16 : ℕ
  pos : 0 < asU16
  le_max : asU16 ≤ maxProcesses
  deriving DecidableEq, Repr

@[ext] lemma ProcessId.ext {p q : ProcessId} (h : p.asU16 = q.asU16) : p = q := by
  cases p
  cases q
  cases h
  rfl

/-- `ProcessId::new` -/
def ProcessId.new (id : UInt16) : Checked ProcessId :=
  if hmax : id.toNat ≤ maxProcesses then
    if hpos : 0 < id.toNat then
      pure ⟨id.toNat, hpos, hmax⟩
    else
      throw (.unwrap .processIdNew)
  else
    throw (.assertion .processIdNew)

/-- The number of a process that `ProcessId::new` accepted. -/
lemma ProcessId.asU16_of_new {id : UInt16} {p : ProcessId} (h : ProcessId.new id = .ok p) :
    p.asU16 = id.toNat := by
  simp only [ProcessId.new] at h
  split at h
  · split at h
    · cases h
      rfl
    · cases h
  · cases h

@[simp] lemma ProcessId.new_asU16 (p : ProcessId) : ProcessId.new (.ofNat p.asU16) = .ok p := by
  have hlt : p.asU16 < 2 ^ 16 := lt_of_le_of_lt p.le_max (by decide)
  have hval : (UInt16.ofNat p.asU16).toNat = p.asU16 := UInt16.toNat_ofNat_of_lt hlt
  simp only [ProcessId.new, hval, p.le_max, p.pos, dif_pos]
  rfl

/-- `Actor` -/
inductive Actor
  | userspace (pid : ProcessId)
  | kernel
  deriving DecidableEq, Repr

/-- The index of an actor's page among the capability pages. -/
def Actor.pageIndex : Actor → ℕ
  | .userspace pid => pid.asU16
  | .kernel => 0

@[simp] lemma Actor.pageIndex_userspace (pid : ProcessId) :
    (Actor.userspace pid).pageIndex = pid.asU16 := rfl

@[simp] lemma Actor.pageIndex_kernel : Actor.kernel.pageIndex = 0 := rfl

lemma Actor.pageIndex_le (a : Actor) : a.pageIndex ≤ maxProcesses := by
  cases a with
  | userspace pid => exact pid.le_max
  | kernel => exact Nat.zero_le _

/-! ## The address space -/

/-- `PAGE_TABLE_ENTRY_COUNT` -/
def pageTableEntryCount : ℕ := 512

/-- `LEVEL_1_PAGE_SIZE` -/
def level1PageSize : ℕ := pageTableEntryCount * pageSize

/-- `LEVEL_2_PAGE_SIZE` -/
def level2PageSize : ℕ := pageTableEntryCount * level1PageSize

/-- `VIRTUAL_ADDRESSES` -/
def virtualAddresses : AddressRange := ⟨0, pageTableEntryCount * level2PageSize⟩

/-- `DIRECT_MAPPING` -/
def directMapping : AddressRange := ⟨virtualAddresses.stop / 2, virtualAddresses.stop⟩

/-- `PHYSICAL_ADDRESSES` -/
def physicalAddresses : AddressRange := ⟨0, virtualAddresses.stop / 2⟩

/-- `USER_INPUTS` -/
def userInputs : AddressRange := ⟨0x1000, 0x2000⟩

/-- `USER_STACK_REGION` -/
def userStackRegion : AddressRange := ⟨0x2000, 0x10000⟩

/-- `USER_STACK_GUARD` -/
def userStackGuard : AddressRange := ⟨userStackRegion.start, userStackRegion.start + pageSize⟩

/-- `USER_STACK` -/
def userStack : AddressRange := ⟨userStackGuard.stop, userStackRegion.stop⟩

/-- `USER_ELF` -/
def userElf : AddressRange := ⟨0x1000000, 0x2000000⟩

/-- `USER_CAPABILITIES` -/
def userCapabilities : AddressRange := ⟨0x2000000, 0x4000000⟩

/-- `USER_HEAP` -/
def userHeap : AddressRange := ⟨0x4000000, directMapping.start⟩

end Deravel
