import DeravelOs.Fat.Bpb
import DeravelOs.Fat.Directory

/-!
# Reading a FAT volume

`filesystems/fat/src/main.rs`, as far as it reads files and directories.  The table of a volume chains
its clusters; a cluster is a run of sectors, and a sector of the volume is one or more sectors of the
drive.

The drive is a server in the kernel, which either answers a request or takes the system down with
it.  A walk along the table need not end: `fuel` bounds the number of its turns.

* `Volume.readFatEntry`, `Volume.nextCluster`, `Volume.walkClusters`: the walk.
* `Volume.readFile`, `Volume.readDirectory`: what is read along it.
-/

namespace Deravel

/-- `Directory` -/
inductive Directory
  | normal (cluster : ℕ)
  | rootDirectoryRegion
  deriving DecidableEq, Repr

/-- `Fat<TYPE>`.  The server has the table and the root directory region mapped; `drive` is what
`read` of the drive answers. -/
structure Volume where
  type : FatType
  bpb : Bpb
  fat : List UInt8
  rdr : List DirectoryEntry
  drive : ℕ → Checked (Vector UInt8 512)

/-- `DISK_SECTOR_SIZE` -/
def diskSectorSize : ℕ := 512

/-- The number that these bytes are, the lowest first. -/
def ofBytesLE (bytes : List UInt8) : ℕ := Nat.ofDigits 256 (bytes.map UInt8.toNat)

/-- The first of the marks that end a chain. -/
def FatType.endMark : FatType → ℕ
  | .fat12 => 0xFF8
  | .fat16 => 0xFFF8
  | .fat32 => 0xFFFFFF8

/-- The last of the marks that end a chain. -/
def FatType.lastMark : FatType → ℕ
  | .fat12 => 0xFFF
  | .fat16 => 0xFFFF
  | .fat32 => 0xFFFFFFF

/-! ## Buffers -/

/-- A `Vec<u8>`. -/
structure FileBuffer where
  data : List UInt8
  capacity : ℕ
  deriving DecidableEq, Repr

namespace FileBuffer

/-- The capacity of a `Vec` after `len` bytes have been put into it: it is doubled, or more where that
is not enough. -/
def grow (capacity len : ℕ) : ℕ := if len ≤ capacity then capacity else max (2 * capacity) len

/-- `extend_from_slice` -/
def extend (buffer : FileBuffer) (bytes : List UInt8) : FileBuffer where
  data := buffer.data ++ bytes
  capacity := grow buffer.capacity (buffer.data ++ bytes).length

/-- `resize(size, 0)` -/
def resize (buffer : FileBuffer) (size : ℕ) : FileBuffer where
  data := buffer.data.take size ++ List.replicate (size - buffer.data.length) 0
  capacity := grow buffer.capacity size

/-- `Vec::new`, and `reserve_exact` if the size is known. -/
def reserve : Option ℕ → Checked FileBuffer
  | none => pure ⟨[], 0⟩
  | some size => do
      let capacity := nextMultipleOf size diskSectorSize
      ensure (capacity < usizeRange) (.overflow .readFile)
      ensure (capacity < 2 ^ 63) .capacityOverflow
      pure ⟨[], capacity⟩

/-- The size that is asked for, at the end of `read_file`. -/
def cutTo (buffer : FileBuffer) : Option ℕ → FileBuffer
  | none => buffer
  | some size => buffer.resize size

end FileBuffer

namespace Volume

/-! ## The table -/

/-- So many bytes of the table, as a number. -/
def fatBytes (v : Volume) (start count : ℕ) : Checked ℕ := do
  let bytes := (v.fat.drop start).take count
  ensure (bytes.length = count) (.indexOutOfBounds .readFatEntry)
  pure (ofBytesLE bytes)

/-- `read_fat_entry` -/
def readFatEntry (v : Volume) (cluster : ℕ) : Checked ℕ :=
  match v.type with
  | .fat12 => do
      let globalByteIndex ← uintAdd 32 .readFatEntry cluster (cluster / 2)
      let value ← v.fatBytes globalByteIndex 2
      pure (if cluster % 2 = 0 then value % 0x1000 else value / 0x10)
  | .fat16 => v.fatBytes (2 * cluster) 2
  | .fat32 => v.fatBytes (4 * cluster) 4

/-- `max_cluster` -/
def maxCluster (v : Volume) : Checked ℕ := do
  let count ← v.bpb.countOfClusters v.type
  uintAdd 32 .fatLayout count 1

/-- The closure of `walk_clusters`, with the upper four bits of the entry masked out.  A link is
compared with `max_cluster` before it is compared with the marks. -/
def nextCluster (v : Volume) (cluster : ℕ) : Checked (Option ℕ) := do
  let fatEntry ← v.readFatEntry cluster
  let next := fatEntry % 2 ^ 28
  let inside ← if 2 ≤ next then (fun maxCluster => decide (next ≤ maxCluster)) <$> v.maxCluster
    else pure false
  if inside then pure (some next)
  else if v.type.endMark ≤ next ∧ next ≤ v.type.lastMark then pure none
  else throw (.unimplemented .walkClusters)

/-- `walk_clusters`.  The successor of a cluster is computed before the cluster is yielded. -/
def walkClusters (v : Volume) : (fuel : ℕ) → (cluster : ℕ) → Checked (List ℕ)
  | 0, _ => throw .diverges
  | fuel + 1, cluster => do
      match ← v.nextCluster cluster with
      | some next => (cluster :: ·) <$> v.walkClusters fuel next
      | none => pure [cluster]

/-! ## Sectors -/

/-- An element of `sectors_of_cluster`. -/
def sectorOfCluster (v : Volume) (cluster i : ℕ) : Checked ℕ := do
  let data ← v.bpb.dataSectors v.type
  let index ← uintSub .clusterNumber cluster 2
  let offset ← uintMul 32 .sectorsOfCluster index v.bpb.secPerClus.toNat
  let first ← uintAdd 32 .sectorsOfCluster data.start offset
  uintAdd 32 .sectorsOfCluster first i

/-- The sectors of the drive that make up one of the volume. -/
def ratio (v : Volume) : ℕ := v.bpb.bytsPerSec.toNat / diskSectorSize

/-- `drive_sectors_of_sector` -/
def driveSectorsOfSector (v : Volume) (sector : ℕ) : List ℕ :=
  (List.range v.ratio).map fun i => v.ratio * sector + i

/-! ## Files -/

/-- The innermost loop of `read_file`.  The flag says that it broke out of the walk. -/
def readDriveSectors (v : Volume) (size : Option ℕ) :
    List ℕ → FileBuffer → Checked (FileBuffer × Bool)
  | [], buffer => pure (buffer, false)
  | sector :: sectors, buffer => do
      let bytes ← v.drive sector
      let buffer := buffer.extend bytes.toList
      if ∃ n ∈ size, n ≤ buffer.data.length then pure (buffer, true)
      else v.readDriveSectors size sectors buffer

/-- The loop of `read_file` over the sectors of a cluster. -/
def readSectors (v : Volume) (size : Option ℕ) (cluster : ℕ) :
    List ℕ → FileBuffer → Checked (FileBuffer × Bool)
  | [], buffer => pure (buffer, false)
  | i :: is, buffer => do
      let sector ← v.sectorOfCluster cluster i
      let (buffer, stop) ← v.readDriveSectors size (v.driveSectorsOfSector sector) buffer
      if stop then pure (buffer, true) else v.readSectors size cluster is buffer

/-- The loop of `read_file` over the clusters of the walk. -/
def readClusters (v : Volume) (size : Option ℕ) :
    (fuel : ℕ) → (cluster : ℕ) → FileBuffer → Checked FileBuffer
  | 0, _, _ => throw .diverges
  | fuel + 1, cluster, buffer => do
      let next ← v.nextCluster cluster
      let (buffer, stop) ←
        v.readSectors size cluster (List.range v.bpb.secPerClus.toNat) buffer
      match stop, next with
      | false, some next => v.readClusters size fuel next buffer
      | _, _ => pure buffer

/-- `read_file` -/
def readFile (v : Volume) (fuel cluster : ℕ) (size : Option ℕ) : Checked FileBuffer := do
  let buffer ← FileBuffer.reserve size
  let buffer ← v.readClusters size fuel cluster buffer
  pure (buffer.cutTo size)

/-! ## Directories -/

/-- `directory_bytes_to_entries` -/
def directoryBytesToEntries (buffer : FileBuffer) : Checked (List DirectoryEntry) := do
  ensure (buffer.data.length % 32 = 0) (.assertion .directoryEntries)
  ensure (buffer.capacity % 32 = 0) (.assertion .directoryEntries)
  pure ((List.range (buffer.data.length / 32)).map fun k =>
    ⟨Vector.ofFn fun i => buffer.data.getD (k * 32 + i) 0⟩)

/-- `read_directory`: `read_normal_directory` and `read_root_directory_region`. -/
def readDirectory (v : Volume) (fuel : ℕ) : Directory → Checked (List DirectoryEntry)
  | .normal cluster => do
      let buffer ← v.readFile fuel cluster none
      directoryBytesToEntries buffer
  | .rootDirectoryRegion => pure v.rdr

end Volume

end Deravel
