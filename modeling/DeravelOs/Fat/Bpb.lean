import DeravelOs.Types.Basic

/-!
# The type of a FAT volume

`filesystems/fat/src/bpb.rs`, and the layout of a volume in its `main.rs`.  The number of clusters of
a volume decides whether it is FAT12, FAT16 or FAT32, and with that how its table is read.  It is
computed twice: by `determine_type`, which is given the boot sector alone, and by `Fat<TYPE>`, once
the type is known.

* `Bpb.determineType`, `Bpb.countOfClusters`: the two computations.
* `Bpb.Separated`: the root directory does not move the count across a threshold.
* `Bpb.determineType_agrees_iff`: this is when the two computations agree on the type.
-/

namespace Deravel

/-- `Type` -/
inductive FatType
  | fat12
  | fat16
  | fat32
  deriving DecidableEq, Repr

/-- The type of a volume with this many clusters. -/
def FatType.ofCount (count : ℕ) : FatType :=
  if count < 4085 then fat12 else if count < 65525 then fat16 else fat32

/-- The fields of `Bpb` that are looked at: those of `BpbCommon`, and `fat_sz_32` of `BpbExtended32`,
which on a smaller volume is made of other bytes. -/
structure Bpb where
  bsJmpBoot : UInt8 × UInt8 × UInt8
  bytsPerSec : UInt16
  secPerClus : UInt8
  rsvdSecCnt : UInt16
  numFats : UInt8
  rootEntCnt : UInt16
  totSec16 : UInt16
  media : UInt8
  fatSz16 : UInt16
  totSec32 : UInt32
  fatSz32 : UInt32
  deriving DecidableEq, Repr

namespace Bpb

variable {b : Bpb} {type : FatType}

/-! ## The boot sector -/

/-- `validate_bpb` -/
def validateBpb (b : Bpb) (type : FatType) : Checked Unit := do
  ensure ((b.bsJmpBoot.1 = 0xEB ∧ b.bsJmpBoot.2.2 = 0x90) ∨ b.bsJmpBoot.1 = 0xE9)
    (.assertion .validateBpb)
  ensure (b.bytsPerSec ∈ [512, 1024, 2048, 4096]) (.assertion .validateBpb)
  ensure (b.secPerClus ∈ [1, 2, 4, 8, 16, 32, 64, 128]) (.assertion .validateBpb)
  ensure (b.rsvdSecCnt ≠ 0) (.assertion .validateBpb)
  match type with
  | .fat32 => do
      ensure (b.rootEntCnt = 0) (.assertion .validateBpb)
      ensure (b.totSec16 = 0) (.assertion .validateBpb)
      ensure (b.totSec32 ≠ 0) (.assertion .validateBpb)
  | _ => do
      ensure (b.rootEntCnt.toNat * 32 % b.bytsPerSec.toNat = 0) (.assertion .validateBpb)
      if b.totSec16 ≠ 0 then
        ensure (b.totSec32 = 0) (.assertion .validateBpb)
      else
        ensure (0x10000 ≤ b.totSec32) (.assertion .validateBpb)
  ensure (b.media = 0xF0 ∨ 0xF8 ≤ b.media) (.assertion .validateBpb)
  match type with
  | .fat32 => ensure (b.fatSz16 = 0) (.assertion .validateBpb)
  | _ => pure ()

/-- `fat_sz` of `determine_type`: the size of a FAT that the header gives without the type. -/
def headerFatSz (b : Bpb) : ℕ := if b.fatSz16 ≠ 0 then b.fatSz16.toNat else b.fatSz32.toNat

/-- `tot_sec` -/
def totSec (b : Bpb) : ℕ := if b.totSec16 ≠ 0 then b.totSec16.toNat else b.totSec32.toNat

/-- `root_dir_sectors`, with the remainder rounded up. -/
def rootDirSectors (b : Bpb) : ℕ :=
  (b.rootEntCnt.toNat * 32 + b.bytsPerSec.toNat - 1) / b.bytsPerSec.toNat

/-- `determine_type`.  A division by zero is an overflow, and the size of the root directory always
fits. -/
def determineType (b : Bpb) : Checked FatType := do
  ensure (b.bytsPerSec ≠ 0) (.overflow .determineType)
  let fats ← uintMul 32 .determineType b.numFats.toNat b.headerFatSz
  let used ← uintAdd 32 .determineType b.rsvdSecCnt.toNat fats
  let rest ← uintSub .determineType b.totSec used
  let dataSec ← uintAdd 32 .determineType rest b.rootDirSectors
  ensure (b.secPerClus ≠ 0) (.overflow .determineType)
  let type := FatType.ofCount (dataSec / b.secPerClus.toNat)
  b.validateBpb type
  pure type

/-! ## The volume -/

/-- The size of a FAT of a volume of this type. -/
def fatSz (b : Bpb) : FatType → ℕ
  | .fat32 => b.fatSz32.toNat
  | _ => b.fatSz16.toNat

/-- `fat_sectors` -/
def fatSectors (b : Bpb) (type : FatType) : Checked AddressRange := do
  let totalSize ← uintMul 32 .fatLayout b.numFats.toNat (b.fatSz type)
  let stop ← uintAdd 32 .fatLayout b.rsvdSecCnt.toNat totalSize
  pure ⟨b.rsvdSecCnt.toNat, stop⟩

/-- `root_directory_sectors` -/
def rootDirectorySectors (b : Bpb) (type : FatType) : Checked AddressRange := do
  let fats ← b.fatSectors type
  ensure (b.bytsPerSec ≠ 0) (.overflow .fatLayout)
  let stop ← uintAdd 32 .fatLayout fats.stop (b.rootEntCnt.toNat * 32 / b.bytsPerSec.toNat)
  pure ⟨fats.stop, stop⟩

/-- `total_sectors_count` -/
def totalSectorsCount (b : Bpb) : FatType → ℕ
  | .fat32 => b.totSec32.toNat
  | _ => b.totSec

/-- `data_sectors` -/
def dataSectors (b : Bpb) (type : FatType) : Checked AddressRange := do
  let root ← b.rootDirectorySectors type
  pure ⟨root.stop, b.totalSectorsCount type⟩

/-- `count_of_clusters` -/
def countOfClusters (b : Bpb) (type : FatType) : Checked ℕ := do
  let data ← b.dataSectors type
  let sectors ← uintSub .fatLayout (b.totalSectorsCount type) data.start
  ensure (b.secPerClus ≠ 0) (.overflow .fatLayout)
  pure (sectors / b.secPerClus.toNat)

/-! ## What is accepted -/

/-- What the assertions say about the sizes. -/
structure Valid (b : Bpb) (type : FatType) : Prop where
  bytsPerSec : b.bytsPerSec ≠ 0
  secPerClus : b.secPerClus ≠ 0
  large : type = .fat32 → b.rootEntCnt = 0 ∧ b.totSec16 = 0 ∧ b.fatSz16 = 0
  small : type ≠ .fat32 → b.bytsPerSec.toNat ∣ b.rootEntCnt.toNat * 32

lemma bytsPerSec_of_validateBpb (h : b.validateBpb type = .ok ()) :
    b.bytsPerSec ∈ [512, 1024, 2048, 4096] := by
  obtain ⟨_, -, h⟩ := Checked.bind_eq_ok.mp h
  obtain ⟨_, hbyts, -⟩ := Checked.bind_eq_ok.mp h
  exact ensure_eq_ok hbyts

lemma rsvdSecCnt_of_validateBpb (h : b.validateBpb type = .ok ()) : b.rsvdSecCnt ≠ 0 := by
  obtain ⟨_, -, h⟩ := Checked.bind_eq_ok.mp h
  obtain ⟨_, -, h⟩ := Checked.bind_eq_ok.mp h
  obtain ⟨_, -, h⟩ := Checked.bind_eq_ok.mp h
  obtain ⟨_, hrsvd, -⟩ := Checked.bind_eq_ok.mp h
  exact ensure_eq_ok hrsvd

lemma valid_of_validateBpb (h : b.validateBpb type = .ok ()) : b.Valid type := by
  obtain ⟨_, -, h⟩ := Checked.bind_eq_ok.mp h
  obtain ⟨_, hbyts, h⟩ := Checked.bind_eq_ok.mp h
  obtain ⟨_, hsec, h⟩ := Checked.bind_eq_ok.mp h
  obtain ⟨_, -, h⟩ := Checked.bind_eq_ok.mp h
  have hbyts' : b.bytsPerSec ≠ 0 := by
    intro hzero
    have hmem := ensure_eq_ok hbyts
    rw [hzero] at hmem
    exact absurd hmem (by decide)
  have hsec' : b.secPerClus ≠ 0 := by
    intro hzero
    have hmem := ensure_eq_ok hsec
    rw [hzero] at hmem
    exact absurd hmem (by decide)
  have hsmall : type ≠ .fat32 → ensure (b.rootEntCnt.toNat * 32 % b.bytsPerSec.toNat = 0)
      (.assertion .validateBpb) = .ok () → b.Valid type := fun hne hroot =>
    ⟨hbyts', hsec', fun heq => absurd heq hne,
      fun _ => Nat.dvd_of_mod_eq_zero (ensure_eq_ok hroot)⟩
  cases type with
  | fat32 =>
      obtain ⟨_, hroot, h⟩ := Checked.bind_eq_ok.mp h
      obtain ⟨_, htot, h⟩ := Checked.bind_eq_ok.mp h
      obtain ⟨_, -, h⟩ := Checked.bind_eq_ok.mp h
      obtain ⟨_, -, h⟩ := Checked.bind_eq_ok.mp h
      exact ⟨hbyts', hsec', fun _ => ⟨ensure_eq_ok hroot, ensure_eq_ok htot, ensure_eq_ok h⟩,
        fun hne => absurd rfl hne⟩
  | fat12 =>
      obtain ⟨_, hroot, -⟩ := Checked.bind_eq_ok.mp h
      exact hsmall (by decide) hroot
  | fat16 =>
      obtain ⟨_, hroot, -⟩ := Checked.bind_eq_ok.mp h
      exact hsmall (by decide) hroot

/-- The sectors before the root directory, with this size of a FAT. -/
def sectorsBefore (b : Bpb) (fatSz : ℕ) : ℕ := b.rsvdSecCnt.toNat + b.numFats.toNat * fatSz

/-- What `determine_type` has computed when it accepts a boot sector. -/
structure Determined (b : Bpb) (type : FatType) : Prop where
  valid : b.Valid type
  used_le : b.sectorsBefore b.headerFatSz ≤ b.totSec
  type_eq : type = .ofCount ((b.totSec - b.sectorsBefore b.headerFatSz + b.rootDirSectors) /
    b.secPerClus.toNat)

lemma determined_of_determineType (h : b.determineType = .ok type) : b.Determined type := by
  obtain ⟨_, -, h⟩ := Checked.bind_eq_ok.mp h
  obtain ⟨fats, hfats, h⟩ := Checked.bind_eq_ok.mp h
  obtain ⟨used, hused, h⟩ := Checked.bind_eq_ok.mp h
  obtain ⟨rest, hrest, h⟩ := Checked.bind_eq_ok.mp h
  obtain ⟨dataSec, hdata, h⟩ := Checked.bind_eq_ok.mp h
  obtain ⟨_, -, h⟩ := Checked.bind_eq_ok.mp h
  obtain ⟨_, hvalid, h⟩ := Checked.bind_eq_ok.mp h
  cases h
  obtain ⟨-, rfl⟩ := uintMul_eq_ok.mp hfats
  obtain ⟨-, rfl⟩ := uintAdd_eq_ok.mp hused
  obtain ⟨hle, rfl⟩ := uintSub_eq_ok.mp hrest
  obtain ⟨-, rfl⟩ := uintAdd_eq_ok.mp hdata
  exact ⟨valid_of_validateBpb hvalid, hle, rfl⟩

lemma totSec_lt (b : Bpb) : b.totSec < 2 ^ 32 := by
  rw [totSec]
  split
  · exact b.totSec16.toNat_lt.trans (by norm_num)
  · exact b.totSec32.toNat_lt

lemma totalSectorsCount_lt (b : Bpb) (type : FatType) : b.totalSectorsCount type < 2 ^ 32 := by
  cases type with
  | fat32 => exact b.totSec32.toNat_lt
  | fat12 => exact b.totSec_lt
  | fat16 => exact b.totSec_lt

/-- The sectors before the first cluster. -/
def sectorsBeforeData (b : Bpb) (type : FatType) : ℕ :=
  b.sectorsBefore (b.fatSz type) + b.rootEntCnt.toNat * 32 / b.bytsPerSec.toNat

/-- Where the root directory ends, if it is computed. -/
lemma rootDirectorySectors_stop {root : AddressRange} (h : b.rootDirectorySectors type = .ok root) :
    root.stop = b.sectorsBeforeData type := by
  obtain ⟨fats, hfats, h⟩ := Checked.bind_eq_ok.mp h
  obtain ⟨_, -, h⟩ := Checked.bind_eq_ok.mp h
  obtain ⟨stop, hstop, h⟩ := Checked.bind_eq_ok.mp h
  obtain rfl := Except.ok.inj h
  obtain ⟨size, hsize, hfats⟩ := Checked.bind_eq_ok.mp hfats
  obtain ⟨fatStop, hfatStop, hfats⟩ := Checked.bind_eq_ok.mp hfats
  obtain rfl := Except.ok.inj hfats
  obtain ⟨-, rfl⟩ := uintMul_eq_ok.mp hsize
  obtain ⟨-, rfl⟩ := uintAdd_eq_ok.mp hfatStop
  obtain ⟨-, rfl⟩ := uintAdd_eq_ok.mp hstop
  rfl

/-- The data sectors of a volume that has room for what comes before them. -/
lemma dataSectors_eq (h : b.Valid type)
    (hle : b.sectorsBeforeData type ≤ b.totalSectorsCount type) :
    b.dataSectors type = .ok ⟨b.sectorsBeforeData type, b.totalSectorsCount type⟩ := by
  have hlt := b.totalSectorsCount_lt type
  have hparts : b.rsvdSecCnt.toNat + b.numFats.toNat * b.fatSz type ≤
      b.sectorsBeforeData type := Nat.le_add_right _ _
  have hfats : b.fatSectors type = .ok ⟨b.rsvdSecCnt.toNat, b.sectorsBefore (b.fatSz type)⟩ := by
    refine Checked.bind_eq_ok.mpr ⟨_, uintMul_eq_ok.mpr ⟨?_, rfl⟩, ?_⟩
    · omega
    · exact Checked.bind_eq_ok.mpr ⟨_, uintAdd_eq_ok.mpr ⟨by omega, rfl⟩, rfl⟩
  have hroot : b.rootDirectorySectors type =
      .ok ⟨b.sectorsBefore (b.fatSz type), b.sectorsBeforeData type⟩ := by
    refine Checked.bind_eq_ok.mpr ⟨_, hfats, ?_⟩
    refine Checked.bind_eq_ok.mpr ⟨(), ensure_pos h.bytsPerSec, ?_⟩
    exact Checked.bind_eq_ok.mpr ⟨_, uintAdd_eq_ok.mpr ⟨hle.trans_lt hlt, rfl⟩, rfl⟩
  exact Checked.bind_eq_ok.mpr ⟨_, hroot, rfl⟩

/-- The clusters of a volume are what is left after its root directory. -/
lemma countOfClusters_eq_ok (h : b.Valid type) {count : ℕ} :
    b.countOfClusters type = .ok count ↔ b.sectorsBeforeData type ≤ b.totalSectorsCount type ∧
      count = (b.totalSectorsCount type - b.sectorsBeforeData type) / b.secPerClus.toNat := by
  constructor
  · intro hcount
    obtain ⟨data, hdata, hcount⟩ := Checked.bind_eq_ok.mp hcount
    obtain ⟨sectors, hsectors, hcount⟩ := Checked.bind_eq_ok.mp hcount
    obtain ⟨_, -, hcount⟩ := Checked.bind_eq_ok.mp hcount
    obtain rfl := Except.ok.inj hcount
    obtain ⟨root, hroot, hdata⟩ := Checked.bind_eq_ok.mp hdata
    obtain rfl := Except.ok.inj hdata
    rw [rootDirectorySectors_stop hroot] at hsectors
    obtain ⟨hle, rfl⟩ := uintSub_eq_ok.mp hsectors
    exact ⟨hle, rfl⟩
  · rintro ⟨hle, rfl⟩
    refine Checked.bind_eq_ok.mpr ⟨_, dataSectors_eq h hle, ?_⟩
    refine Checked.bind_eq_ok.mpr ⟨_, uintSub_eq_ok.mpr ⟨hle, rfl⟩, ?_⟩
    exact Checked.bind_eq_ok.mpr ⟨(), ensure_pos h.secPerClus, rfl⟩

/-! ## When the counts agree -/

/-- Two counts give the same type if they are on the same side of both thresholds. -/
lemma ofCount_eq_iff {m n : ℕ} :
    FatType.ofCount m = FatType.ofCount n ↔ ∀ t ∈ [4085, 65525], t ≤ m ↔ t ≤ n := by
  simp only [List.forall_mem_cons, FatType.ofCount]
  split_ifs <;> simp <;> omega

/-- There is room for the root directory behind the FATs, whose size is taken from `fat_sz_16`, and no
threshold lies between the count that adds the sectors of the root directory and the one that takes
them away. -/
def Separated (b : Bpb) : Prop :=
  b.sectorsBeforeData .fat16 ≤ b.totSec ∧ ∀ t ∈ [4085, 65525],
    t * b.secPerClus.toNat ≤ b.totSec - b.sectorsBefore b.headerFatSz + b.rootDirSectors ↔
      t * b.secPerClus.toNat ≤ b.totSec - b.sectorsBeforeData .fat16

instance : Decidable b.Separated :=
  inferInstanceAs (Decidable (_ ∧ _))

/-- Without a root directory there are no sectors of it. -/
lemma Valid.rootDirSectors_eq (h : b.Valid type) (hroot : b.rootEntCnt = 0) :
    b.rootDirSectors = 0 := by
  have hpos : b.bytsPerSec.toNat ≠ 0 := fun hzero => h.bytsPerSec (UInt16.toNat_inj.mp hzero)
  simp only [rootDirSectors, hroot, UInt16.toNat_zero]
  exact Nat.div_eq_of_lt (by omega)

/-- On a FAT32 volume, which has no root directory of this kind, both computations are the same. -/
lemma Determined.countOfClusters_large (h : b.Determined .fat32) :
    ∃ count, b.countOfClusters .fat32 = .ok count ∧ FatType.ofCount count = .fat32 := by
  obtain ⟨hroot, htot, hfat⟩ := h.valid.large rfl
  have hheader : b.headerFatSz = b.fatSz .fat32 := by simp [headerFatSz, fatSz, hfat]
  have htotal : b.totSec = b.totalSectorsCount .fat32 := by simp [totSec, totalSectorsCount, htot]
  have hbefore : b.sectorsBeforeData .fat32 = b.sectorsBefore b.headerFatSz := by
    simp [sectorsBeforeData, hheader, hroot]
  refine ⟨_, (countOfClusters_eq_ok h.valid).mpr ⟨?_, rfl⟩, ?_⟩
  · rw [hbefore, ← htotal]
    exact h.used_le
  · have htype := h.type_eq
    rw [h.valid.rootDirSectors_eq hroot, Nat.add_zero, htotal, ← hbefore] at htype
    exact htype.symm

/-- A FAT32 volume has no FAT of the size `fat_sz_16`, and with it only more room for clusters. -/
lemma Determined.separated_large (h : b.Determined .fat32) : b.Separated := by
  obtain ⟨hroot, -, hfat⟩ := h.valid.large rfl
  have hbefore : b.sectorsBeforeData .fat16 = b.rsvdSecCnt.toNat := by
    simp [sectorsBeforeData, sectorsBefore, fatSz, hroot, hfat]
  have hle : b.rsvdSecCnt.toNat ≤ b.sectorsBefore b.headerFatSz := Nat.le_add_right _ _
  have hpos : 0 < b.secPerClus.toNat :=
    Nat.pos_of_ne_zero fun hzero => h.valid.secPerClus (UInt8.toNat_inj.mp hzero)
  have hcount : 65525 * b.secPerClus.toNat ≤
      b.totSec - b.sectorsBefore b.headerFatSz + b.rootDirSectors := by
    rw [← Nat.le_div_iff_mul_le hpos]
    have htype := h.type_eq
    rw [FatType.ofCount] at htype
    split_ifs at htype
    omega
  have hused := h.used_le
  have hzero := h.valid.rootDirSectors_eq hroot
  simp only [Separated, List.forall_mem_cons, hbefore]
  refine ⟨by omega, ?_, ?_, fun _ hmem => absurd hmem List.not_mem_nil⟩
  · exact ⟨fun _ => by omega, fun _ => by omega⟩
  · exact ⟨fun _ => by omega, fun _ => hcount⟩

/-- **The type of a volume.**  For every header that it accepts, the type that `determine_type` returns
is the one of the clusters that the volume has, if and only if the root directory does not move the count
across a threshold.  A misplaced parenthesis adds the sectors of the root directory instead of taking them
away, which matters for volumes that have just too few clusters for FAT16 or FAT32. -/
theorem determineType_agrees_iff (h : b.determineType = .ok type) :
    (∃ count, b.countOfClusters type = .ok count ∧ FatType.ofCount count = type) ↔
      b.Separated := by
  have hdetermined := determined_of_determineType h
  by_cases hlarge : type = .fat32
  · subst hlarge
    exact ⟨fun _ => hdetermined.separated_large, fun _ => hdetermined.countOfClusters_large⟩
  · have hpos : 0 < b.secPerClus.toNat :=
      Nat.pos_of_ne_zero fun hzero => hdetermined.valid.secPerClus (UInt8.toNat_inj.mp hzero)
    have hsame : b.totalSectorsCount type = b.totSec ∧
        b.sectorsBeforeData type = b.sectorsBeforeData .fat16 := by
      cases type with
      | fat32 => exact absurd rfl hlarge
      | fat12 => exact ⟨rfl, rfl⟩
      | fat16 => exact ⟨rfl, rfl⟩
    obtain ⟨htotal, hbefore⟩ := hsame
    have hsides :
        FatType.ofCount ((b.totSec - b.sectorsBeforeData .fat16) / b.secPerClus.toNat) = type ↔
        ∀ t ∈ [4085, 65525],
          t * b.secPerClus.toNat ≤ b.totSec - b.sectorsBefore b.headerFatSz + b.rootDirSectors ↔
            t * b.secPerClus.toNat ≤ b.totSec - b.sectorsBeforeData .fat16 := by
      rw [hdetermined.type_eq, eq_comm, ofCount_eq_iff]
      simp only [Nat.le_div_iff_mul_le hpos]
    simp only [countOfClusters_eq_ok hdetermined.valid, htotal, hbefore]
    rw [Separated, ← hsides]
    constructor
    · rintro ⟨count, ⟨hle, rfl⟩, htype⟩
      exact ⟨hle, htype⟩
    · rintro ⟨hle, htype⟩
      exact ⟨_, ⟨hle, rfl⟩, htype⟩

/-- A floppy disk of 1.44 MB. -/
def floppy : Bpb where
  bsJmpBoot := (0xEB, 0x3C, 0x90)
  bytsPerSec := 512
  secPerClus := 1
  rsvdSecCnt := 1
  numFats := 2
  rootEntCnt := 224
  totSec16 := 2880
  media := 0xF0
  fatSz16 := 9
  totSec32 := 0
  fatSz32 := 0

theorem determineType_agrees_floppy :
    ∃ count, floppy.countOfClusters .fat12 = .ok count ∧ FatType.ofCount count = .fat12 :=
  (determineType_agrees_iff (by decide)).mpr (by decide)

/-- A volume of 4053 clusters, between which and the threshold there are as many sectors as its root
directory has. -/
def smallFat12 : Bpb := { floppy with rootEntCnt := 512, totSec16 := 4110, fatSz16 := 12 }

/-- A FAT12 volume is taken for a FAT16 one. -/
theorem determineType_misread :
    smallFat12.determineType = .ok .fat16 ∧ smallFat12.countOfClusters .fat16 = .ok 4053 ∧
      FatType.ofCount 4053 = .fat12 := by
  decide

end Bpb

end Deravel
