import Mathlib.Data.List.DropRight
import DeravelOs.Lib.Text
import DeravelOs.Lib.Utf16
import DeravelOs.Types.Basic

/-!
# The entries of a FAT directory

`filesystems/fat/src/directory.rs`.  An entry is 32 bytes.  It is read as the short entry of a file or
as one of the entries in front of it that hold its long name, 13 units of UTF-16 each and the last
part first; the attribute says which.

* `DirectoryEntry`: the bytes, with the fields of both readings.
* `postprocessLongName`: the name that the units of such a set spell.
* `coalesceNext`: one step of the iterator that `coalesce_long_names` returns.
* `toShortName`: the short name that a path segment asks for.
-/

namespace Deravel

/-! ## Entries -/

/-- `DirectoryEntry` -/
structure DirectoryEntry where
  bytes : Vector UInt8 32
  deriving DecidableEq, Repr

/-- A `u16` in the order of the disk. -/
def wordLE (low high : UInt8) : UInt16 := .ofNat (low.toNat + 256 * high.toNat)

/-- `ATTR_LONG_NAME` -/
def attrLongName : UInt8 := 0x0F

/-- `ATTR_LONG_NAME_MASK` -/
def attrLongNameMask : UInt8 := 0x3F

/-- `ATTR_VOLUME_ID` -/
def attrVolumeId : UInt8 := 0x08

/-- `ATTR_DIRECTORY` -/
def attrDirectory : UInt8 := 0x10

/-- `LAST_LONG_ENTRY` -/
def lastLongEntry : UInt8 := 0x40

/-- `MAX_LONG_RESULT_LENGTH` -/
def maxLongResultLength : ℕ := 255

/-- `MAX_LONG_ENTRY_LENGTH` -/
def maxLongEntryLength : ℕ := 13

/-- `MAX_LONG_ENTRIES` -/
def maxLongEntries : ℕ := 20

/-- `MAX_LONG_BUFFER_LENGTH` -/
def maxLongBufferLength : ℕ := maxLongEntryLength * maxLongEntries

/-- `UTF16_PERIOD` -/
def utf16Period : UInt16 := 0x2E

/-- `UTF16_SPACE` -/
def utf16Space : UInt16 := 0x20

namespace DirectoryEntry

/-- The byte at this offset. -/
def byte (e : DirectoryEntry) (i : ℕ) : UInt8 := e.bytes[i]?.getD 0

/-- `attr`, which both readings have in the same place. -/
def attr (e : DirectoryEntry) : UInt8 := e.byte 11

/-- `name` -/
def name (e : DirectoryEntry) : List UInt8 := (List.range 11).map e.byte

/-- `file_size` -/
def fileSize (e : DirectoryEntry) : UInt32 :=
  (wordLE (e.byte 28) (e.byte 29)).toUInt32 ||| (wordLE (e.byte 30) (e.byte 31)).toUInt32 <<< 16

/-- `fst_clus`, of `fst_clus_hi` and `fst_clus_lo`. -/
def fstClus (e : DirectoryEntry) : UInt32 :=
  (wordLE (e.byte 20) (e.byte 21)).toUInt32 <<< 16 ||| (wordLE (e.byte 26) (e.byte 27)).toUInt32

/-- `ord` -/
def ord (e : DirectoryEntry) : UInt8 := e.byte 0

/-- `chksum` -/
def chksum (e : DirectoryEntry) : UInt8 := e.byte 13

/-- `copy_long_chunk`: `name1`, `name2` and `name3`. -/
def chunk (e : DirectoryEntry) : List UInt16 :=
  [1, 3, 5, 7, 9, 14, 16, 18, 20, 22, 24, 28, 30].map fun i => wordLE (e.byte i) (e.byte (i + 1))

/-- The attribute is the one of a part of a long name. -/
def IsLong (e : DirectoryEntry) : Prop := e.attr &&& attrLongNameMask = attrLongName

instance (e : DirectoryEntry) : Decidable e.IsLong := inferInstanceAs (Decidable (_ = _))

/-- `try_as_first_long` -/
def tryAsFirstLong (e : DirectoryEntry) : Checked (Option ℕ) := do
  if e.attr &&& attrLongNameMask ≠ attrLongName then
    pure none
  else do
    ensure (e.ord &&& lastLongEntry ≠ 0) (.assertion .tryAsFirstLong)
    let longCount := (e.ord ^^^ lastLongEntry).toNat
    ensure (1 ≤ longCount ∧ longCount ≤ maxLongEntries) (.assertion .tryAsFirstLong)
    pure (some longCount)

end DirectoryEntry

/-- `compute_checksum` -/
def computeChecksum (shortName : List UInt8) : UInt8 :=
  shortName.foldl
    (fun sum byte => (if sum &&& 1 ≠ 0 then (0x80 : UInt8) else 0) + (sum >>> 1) + byte) 0

/-- `ord` -/
def ord (i longCount : ℕ) : UInt8 :=
  if i = longCount - 1 then (.ofNat i + 1) ||| lastLongEntry else .ofNat i + 1

/-! ## Names -/

/-- `is_valid_short_char`: the letters and digits, everything that is not ASCII, and some marks. -/
def isValidShortChar (byte : UInt8) : Bool :=
  (0x41 ≤ byte ∧ byte ≤ 0x5A) ∨ (0x30 ≤ byte ∧ byte ≤ 0x39) ∨ 128 ≤ byte ∨
    byte ∈ [0x24, 0x25, 0x27, 0x2D, 0x5F, 0x40, 0x7E, 0x60, 0x21, 0x28, 0x29, 0x7B, 0x7D, 0x5E,
      0x23, 0x26, 0x20]

/-- `is_valid_long_char`: small letters and six more marks are allowed. -/
def isValidLongChar (cp : UInt16) : Bool :=
  128 ≤ cp ∨ isValidShortChar cp.toUInt8 ∨ (0x61 ≤ cp ∧ cp ≤ 0x7A) ∨
    cp ∈ [0x2E, 0x2C, 0x3B, 0x3D, 0x5B, 0x5D]

/-- `copy_long` -/
def copyLong (longs : List DirectoryEntry) (checksum : UInt8) : Checked (List UInt16) := do
  ensure (longs.length * maxLongEntryLength ≤ maxLongBufferLength) (.indexOutOfBounds .copyLong)
  let chunks ← longs.reverse.zipIdx.mapM fun p => do
    ensure (p.1.ord = ord p.2 longs.length) (.assertion .copyLong)
    ensure (p.1.chksum = checksum) (.assertion .copyLong)
    pure p.1.chunk
  pure chunks.flatten

/-- The units in front of the first 0, behind which there is nothing but padding. -/
def cutAtNull (name : List UInt16) : Checked (List UInt16) :=
  match Text.splitOnce 0 name with
  | some (front, padding) => do
      ensure (∀ cp ∈ padding, cp = 0xFFFF) (.assertion .postprocessLongName)
      pure front
  | none => pure name

/-- `postprocess_long_name` -/
def postprocessLongName (name : List UInt16) : Checked (List Char) := do
  let name ← cutAtNull (name.dropWhile (· = utf16Space))
  let name := name.rdropWhile fun cp => cp = utf16Space ∨ cp = utf16Period
  ensure (∀ cp ∈ name, isValidLongChar cp) (.assertion .postprocessLongName)
  ensure (name.length ≤ maxLongResultLength) (.assertion .postprocessLongName)
  match Utf16.decode name with
  | some text => pure text
  | none => throw (.unwrap .postprocessLongName)

/-- `u8::to_ascii_uppercase` -/
def toAsciiUppercase (byte : UInt8) : UInt8 :=
  if 0x61 ≤ byte ∧ byte ≤ 0x7A then byte - 0x20 else byte

/-- One of the two loops of `to_short_name`: it writes a part of the name from `start` on. -/
def placeName (start : ℕ) (part name : List UInt8) : Option (List UInt8) :=
  part.zipIdx.foldlM (fun name p =>
    let byte := toAsciiUppercase p.1
    if isValidShortChar byte then some (name.set (start + p.2) byte) else none) name

/-- `to_short_name` -/
def toShortName (s : List Char) : Option (List UInt8) :=
  let (mainPart, extension) := (Text.splitOnce '.' s).getD (s, [])
  let mainBytes := mainPart.flatMap String.utf8EncodeChar
  let extensionBytes := extension.flatMap String.utf8EncodeChar
  if 8 < mainBytes.length then none
  else if 3 < extensionBytes.length then none
  else do
    let name ← placeName 0 mainBytes (List.replicate 11 0x20)
    placeName 8 extensionBytes name

/-! ## The iterator -/

/-- What `coalesce_long_names` yields: a short entry and the long name in front of it. -/
abbrev Item : Type := DirectoryEntry × Option (List Char)

/-- One call of the closure of `coalesce_long_names`, with the entries that it leaves. -/
def coalesceNext (entries : List DirectoryEntry) : Checked (Item × List DirectoryEntry) :=
  match entries with
  | [] => throw (.indexOutOfBounds .coalesceLongNames)
  | first :: rest => do
      match ← first.tryAsFirstLong with
      | some longCount =>
          match entries[longCount]? with
          | none => throw (.indexOutOfBounds .coalesceLongNames)
          | some short => do
              let units ← copyLong (entries.take longCount) (computeChecksum short.name)
              let name ← postprocessLongName units
              pure ((short, some name), entries.drop longCount)
      | none => pure ((first, none), rest)

/-- So many items of the iterator, with the entries that they leave. -/
def coalesce : ℕ → List DirectoryEntry → Checked (List Item × List DirectoryEntry)
  | 0, entries => pure ([], entries)
  | n + 1, entries => do
      let (item, entries) ← coalesceNext entries
      let (items, entries) ← coalesce n entries
      pure (item :: items, entries)

end Deravel
