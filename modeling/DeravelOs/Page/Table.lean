import Mathlib.Logic.Function.Basic
import DeravelOs.Types.Actor

/-!
# Page tables

`kernel/src/page/entry.rs` and `table.rs`.  An entry is what `unpack` makes of it, and the table
behind an indirect entry, which the entry owns, is part of the entry.  `PageFlags` always has at
least one of the R, W and X bits: an entry without any would be indirect.

`map_impl` and `unmap_impl` share one body, `rangeBody`, and call themselves for the next level; the
body takes that call as an argument (`mapBody`, `unmapBody`).  At level 0 there is no next level and
`level - 1` overflows.  The assertions of `map` and `unmap` bound every sum that the bodies compute.
-/

namespace Deravel

/-- `PageFlags` -/
structure PageFlags where
  read : Bool
  write : Bool
  execute : Bool
  user : Bool
  nonempty : (read || write || execute) = true
  deriving DecidableEq, Repr

namespace PageFlags

def readonly : PageFlags := ⟨true, false, false, false, rfl⟩

def readWrite : PageFlags := ⟨true, true, false, false, rfl⟩

def executable : PageFlags := ⟨true, false, true, false, rfl⟩

def readWriteExecute : PageFlags := ⟨true, true, true, false, rfl⟩

/-- `PageFlags::user` -/
def asUser (flags : PageFlags) : PageFlags := { flags with user := true }

end PageFlags

/-- `PageTableEntry`, unpacked. -/
inductive PageTableEntry
  | invalid
  | leaf (phys : ℕ) (flags : PageFlags)
  | indirect (table : Fin pageTableEntryCount → PageTableEntry)

/-- `PageTable` -/
abbrev PageTable : Type := Fin pageTableEntryCount → PageTableEntry

/-- `is_valid` -/
def PageTableEntry.isValid : PageTableEntry → Bool
  | invalid => false
  | leaf _ _ => true
  | indirect _ => true

/-- `LEVEL_PAGE_SIZES[level]` -/
def levelPageSize (level : ℕ) : ℕ := pageSize * pageTableEntryCount ^ level

/-- `align_by` -/
def alignBy (range : AddressRange) (align : ℕ) : AddressRange × AddressRange × AddressRange :=
  let alignedStart := nextMultipleOf range.start align
  if alignedStart ≥ range.stop then
    (range, ⟨0, 0⟩, ⟨range.stop, range.stop⟩)
  else
    let unalignedFront : AddressRange := ⟨range.start, alignedStart⟩
    let alignedEnd := nextMultipleOf range.stop align
    let alignedEnd := if alignedEnd > range.stop then alignedEnd - align else alignedEnd
    (unalignedFront, ⟨alignedStart, alignedEnd⟩, ⟨alignedEnd, range.stop⟩)

/-- `range.step_by(step)` -/
def AddressRange.stepBy (range : AddressRange) (step : ℕ) : List ℕ :=
  List.range' range.start ((range.stop - range.start + step - 1) / step) step

/-- `vpn_segment` -/
def vpnSegment (virt level : ℕ) : Fin pageTableEntryCount :=
  ⟨virt >>> (12 + 9 * level) &&& (1 <<< 9 - 1),
    lt_of_le_of_lt Nat.and_le_right (by decide)⟩

namespace PageTable

/-- `PageTable::new` -/
def new : PageTable := fun _ => .invalid

/-- The table with the entry for `virt` replaced. -/
def set (table : PageTable) (virt level : ℕ) (entry : PageTableEntry) : PageTable :=
  Function.update table (vpnSegment virt level) entry

/-- `is_completely_unmapped` -/
def IsCompletelyUnmapped (table : PageTable) : Prop :=
  ∀ i, (table i).isValid = false

instance (table : PageTable) : Decidable table.IsCompletelyUnmapped :=
  inferInstanceAs (Decidable (∀ i : Fin pageTableEntryCount, (table i).isValid = false))

/-- `map_leaf` -/
def mapLeaf (table : PageTable) (virt phys : ℕ) (flags : PageFlags) (level : ℕ) :
    Checked PageTable := do
  ensure ((table (vpnSegment virt level)).isValid = false) (.assertion .mapLeaf)
  pure (table.set virt level (.leaf phys flags))

/-- `unmap_leaf` -/
def unmapLeaf (table : PageTable) (virt phys level : ℕ) : Checked PageTable :=
  match table (vpnSegment virt level) with
  | .leaf physPtr _ => do
      ensure (physPtr = phys) (.assertion .unmapLeaf)
      pure (table.set virt level .invalid)
  | _ => throw (.assertion .unmapLeaf)

/-- `map_indirect`: the table behind the entry, a new one if the entry is invalid. -/
def mapIndirect (table : PageTable) (virt level : ℕ) : Checked PageTable :=
  match table (vpnSegment virt level) with
  | .invalid => pure new
  | .indirect child => pure child
  | .leaf _ _ => throw (.unreachable .mapIndirect)

/-- `unwrap_indirect` -/
def unwrapIndirect (table : PageTable) (virt level : ℕ) : Checked PageTable :=
  match table (vpnSegment virt level) with
  | .indirect child => pure child
  | _ => throw (.unreachable .unwrapIndirect)

/-- `check_unmap_indirect` -/
def checkUnmapIndirect (table : PageTable) (virt level : ℕ) : Checked PageTable := do
  let child ← table.unwrapIndirect virt level
  if child.IsCompletelyUnmapped then
    pure (table.set virt level .invalid)
  else
    pure table

/-- A call on the next level: table, `virt`, `phys` and `size`. -/
abbrev NextLevel : Type := PageTable → (virt phys size : ℕ) → Checked PageTable

/-- There is no level below 0. -/
def noNextLevel (site : Site) : NextLevel := fun _ _ _ _ => throw (.overflow site)

/-- The body that `map_impl` and `unmap_impl` share.  `child` is what they do with the table behind
an entry, for `virt`, `phys` and `size`; `leaf` is what they do with a leaf at `virt`. -/
def rangeBody (level : ℕ) (child : NextLevel)
    (leaf : PageTable → (virt phys : ℕ) → Checked PageTable) (table : PageTable)
    (virt phys size : ℕ) : Checked PageTable := do
  let leafSize := levelPageSize level
  let (front, aligned, back) := alignBy ⟨virt, virt + size⟩ leafSize
  let table ← (if ¬ front.IsEmpty then
      child table front.start (phys + (front.start - virt)) (front.stop - front.start)
    else pure table : Checked PageTable)
  let table ← (if ¬ aligned.IsEmpty ∧ (phys + (aligned.start - virt)) % leafSize ≠ 0 then
      (aligned.stepBy leafSize).foldlM
        (fun table v => child table v (phys + (v - virt)) leafSize) table
    else
      (aligned.stepBy leafSize).foldlM (fun table v => leaf table v (phys + (v - virt))) table :
        Checked PageTable)
  if ¬ back.IsEmpty then
    child table back.start (phys + (back.start - virt)) (back.stop - back.start)
  else pure table

/-- `self.map_indirect(virt, level).map_impl(virt, phys, size, flags, level - 1)` -/
def mapChild (next : NextLevel) (level : ℕ) (table : PageTable) (virt phys size : ℕ) :
    Checked PageTable := do
  let child ← table.mapIndirect virt level
  let child ← next child virt phys size
  pure (table.set virt level (.indirect child))

/-- The body of `map_impl`. -/
def mapBody (next : NextLevel) (flags : PageFlags) (level : ℕ) : NextLevel :=
  rangeBody level (mapChild next level) fun table virt phys => mapLeaf table virt phys flags level

/-- `map_impl` -/
def mapImpl (flags : PageFlags) : (level : ℕ) → NextLevel
  | 0 => mapBody (noNextLevel .mapImpl) flags 0
  | level + 1 => mapBody (mapImpl flags level) flags (level + 1)

/-- `self.unwrap_indirect(virt, level).unmap_impl(virt, phys, size, level - 1)` and the
`self.check_unmap_indirect(virt, level)` after it. -/
def unmapChild (next : NextLevel) (level : ℕ) (table : PageTable) (virt phys size : ℕ) :
    Checked PageTable := do
  let child ← table.unwrapIndirect virt level
  let child ← next child virt phys size
  (table.set virt level (.indirect child)).checkUnmapIndirect virt level

/-- The body of `unmap_impl`. -/
def unmapBody (next : NextLevel) (level : ℕ) : NextLevel :=
  rangeBody level (unmapChild next level) fun table virt phys => unmapLeaf table virt phys level

/-- `unmap_impl` -/
def unmapImpl : (level : ℕ) → NextLevel
  | 0 => unmapBody (noNextLevel .unmapImpl) 0
  | level + 1 => unmapBody (unmapImpl level) (level + 1)

/-- The assertions that `map` and `unmap` begin with. -/
def checkRange (site : Site) (virt phys size : ℕ) : Checked Unit := do
  ensure (virt % pageSize = 0) (.assertion site)
  ensure (virt < virtualAddresses.stop) (.assertion site)
  let virtEnd ← usizeAdd site virt size
  ensure (virtEnd ≤ virtualAddresses.stop) (.assertion site)
  ensure (phys % pageSize = 0) (.assertion site)
  ensure (phys < physicalAddresses.stop) (.assertion site)
  let physEnd ← usizeAdd site phys size
  ensure (physEnd ≤ physicalAddresses.stop) (.assertion site)
  ensure (size % pageSize = 0) (.assertion site)

/-- `PageTable::map` -/
def map (table : PageTable) (virt phys size : ℕ) (flags : PageFlags) : Checked PageTable := do
  checkRange .tableMap virt phys size
  mapImpl flags 2 table virt phys size

/-- `PageTable::unmap` -/
def unmap (table : PageTable) (virt phys size : ℕ) : Checked PageTable := do
  checkRange .tableUnmap virt phys size
  unmapImpl 2 table virt phys size

/-- `is_mapped_impl` -/
def isMappedImpl : (level : ℕ) → PageTable → (virt : ℕ) → Checked Bool
  | level, table, virt =>
      match table (vpnSegment virt level) with
      | .invalid => pure false
      | .leaf _ _ => pure true
      | .indirect child =>
          match level with
          | 0 => throw (.overflow .isMapped)
          | level + 1 => isMappedImpl level child virt

/-- `PageTable::is_mapped` -/
def isMapped (table : PageTable) (virt : ℕ) : Checked Bool := isMappedImpl 2 table virt

end PageTable

end Deravel
