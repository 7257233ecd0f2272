import DeravelOs.Fat.Volume

/-!
# Mounting a FAT volume

`run` of `filesystems/fat/src/main.rs` maps the table and the root directory of the volume.  It asks
the drive for sectors of 512 bytes, and the kernel makes pages of them: a region that is no whole
number of pages stops the kernel.

* `Kernel.Mappable`: the regions that the kernel maps.
* `Bpb.mountRequests`: the regions that the server asks for.
* `Bpb.mountRequests_mappable_iff`: for which volumes these can be mapped.
-/

namespace Deravel

/-! ## The kernel -/

namespace Kernel

/-- What `read_mapped` and `VirtualMemoryMapping::new` check of a region of so many sectors: it is a
whole number of pages, and its size fits. -/
def Mappable (sectorCount : ℕ) : Prop :=
  sectorCount * 512 < usizeRange ∧ pageSize ∣ sectorCount * 512

end Kernel

namespace Bpb

variable {b : Bpb} {type : FatType}

/-! ## The server -/

/-- So many bytes, in sectors of the drive. -/
def diskSectors (bytes : ℕ) : Checked ℕ := do
  ensure (bytes % diskSectorSize = 0) (.unwrap .mountVolume)
  pure (bytes / diskSectorSize)

/-- `disk_sector_offset` and `disk_sector_count` of a region of the volume. -/
def regionRequest (b : Bpb) (region : AddressRange) : Checked (ℕ × ℕ) := do
  let start ← uintMul 64 .mountVolume region.start b.bytsPerSec.toNat
  let offset ← diskSectors start
  let sectors ← uintSub .mountVolume region.stop region.start
  let size ← uintMul 64 .mountVolume sectors b.bytsPerSec.toNat
  let count ← diskSectors size
  pure (offset, count)

/-- The arguments of `read_mapped` in `run`, for as long as the drive answers. -/
def mountRequests (b : Bpb) (type : FatType) : Checked (List (ℕ × ℕ)) := do
  let fats ← b.fatSectors type
  let fat ← b.regionRequest fats
  if type = .fat12 ∨ type = .fat16 then do
    let root ← b.rootDirectorySectors type
    let rdr ← b.regionRequest root
    pure [fat, rdr]
  else pure [fat]

/-! ## What is asked for -/

/-- The sectors of the volume are made of sectors of the drive. -/
lemma dvd_bytsPerSec (h : b.validateBpb type = .ok ()) : diskSectorSize ∣ b.bytsPerSec.toNat := by
  have hbytes : b.bytsPerSec.toNat ∈ [512, 1024, 2048, 4096] :=
    List.mem_map_of_mem (f := UInt16.toNat) (bytsPerSec_of_validateBpb h)
  have hall : ∀ n ∈ [512, 1024, 2048, 4096], diskSectorSize ∣ n := by decide
  exact hall _ hbytes

/-- The request for a region, and when it can be mapped. -/
lemma regionRequest_eq (h : b.validateBpb type = .ok ()) (region : AddressRange)
    (hle : region.start ≤ region.stop) (hstop : region.stop < 2 ^ 32) :
    ∃ request, b.regionRequest region = .ok request ∧ (Kernel.Mappable request.2 ↔
      pageSize ∣ (region.stop - region.start) * b.bytsPerSec.toNat) := by
  have hdvd := dvd_bytsPerSec h
  have hbytes := b.bytsPerSec.toNat_lt
  have hsize : ∀ n < 2 ^ 32, n * b.bytsPerSec.toNat < 2 ^ 64 := fun n hn =>
    calc n * b.bytsPerSec.toNat < 2 ^ 32 * 2 ^ 16 := Nat.mul_lt_mul'' hn hbytes
      _ ≤ 2 ^ 64 := by norm_num
  have hsectors : ∀ n, diskSectors (n * b.bytsPerSec.toNat) =
      .ok (n * b.bytsPerSec.toNat / diskSectorSize) := fun n =>
    Checked.bind_eq_ok.mpr
      ⟨(), ensure_pos (Nat.mod_eq_zero_of_dvd (Dvd.dvd.mul_left hdvd n)), rfl⟩
  refine ⟨(region.start * b.bytsPerSec.toNat / diskSectorSize,
    (region.stop - region.start) * b.bytsPerSec.toNat / diskSectorSize), ?_, ?_⟩
  · refine Checked.bind_eq_ok.mpr ⟨_, uintMul_eq_ok.mpr ⟨hsize _ (by omega), rfl⟩, ?_⟩
    refine Checked.bind_eq_ok.mpr ⟨_, hsectors _, ?_⟩
    refine Checked.bind_eq_ok.mpr ⟨_, uintSub_eq_ok.mpr ⟨hle, rfl⟩, ?_⟩
    refine Checked.bind_eq_ok.mpr ⟨_, uintMul_eq_ok.mpr ⟨hsize _ (by omega), rfl⟩, ?_⟩
    exact Checked.bind_eq_ok.mpr ⟨_, hsectors _, rfl⟩
  · have hback : (region.stop - region.start) * b.bytsPerSec.toNat / diskSectorSize * 512 =
        (region.stop - region.start) * b.bytsPerSec.toNat :=
      Nat.div_mul_cancel (Dvd.dvd.mul_left hdvd _)
    rw [Kernel.Mappable, hback]
    exact and_iff_right (hsize _ (by omega))

lemma validateBpb_of_determineType (h : b.determineType = .ok type) :
    b.validateBpb type = .ok () := by
  obtain ⟨_, -, h⟩ := Checked.bind_eq_ok.mp h
  obtain ⟨fats, -, h⟩ := Checked.bind_eq_ok.mp h
  obtain ⟨used, -, h⟩ := Checked.bind_eq_ok.mp h
  obtain ⟨rest, -, h⟩ := Checked.bind_eq_ok.mp h
  obtain ⟨dataSec, -, h⟩ := Checked.bind_eq_ok.mp h
  obtain ⟨_, -, h⟩ := Checked.bind_eq_ok.mp h
  obtain ⟨_, hvalid, h⟩ := Checked.bind_eq_ok.mp h
  cases h
  exact hvalid

/-- The table of a volume that is accepted. -/
lemma Determined.fatSectors_eq (h : b.Determined type) : b.sectorsBefore (b.fatSz type) < 2 ^ 32 ∧
    b.fatSectors type = .ok ⟨b.rsvdSecCnt.toNat, b.sectorsBefore (b.fatSz type)⟩ := by
  have hfatSz : b.fatSz type ≤ b.headerFatSz := by
    have hsmall : b.fatSz16.toNat ≤ b.headerFatSz := by
      rw [headerFatSz]
      split
      · exact le_rfl
      · next hzero =>
          rw [not_not.mp hzero]
          exact Nat.zero_le _
    cases hlarge : type with
    | fat32 =>
        obtain ⟨-, -, hfat⟩ := h.valid.large hlarge
        simp [headerFatSz, fatSz, hfat]
    | fat12 => exact hsmall
    | fat16 => exact hsmall
  have hfits : b.rsvdSecCnt.toNat + b.numFats.toNat * b.fatSz type < 2 ^ 32 :=
    calc b.rsvdSecCnt.toNat + b.numFats.toNat * b.fatSz type ≤ b.sectorsBefore b.headerFatSz :=
          Nat.add_le_add_left (Nat.mul_le_mul_left _ hfatSz) _
      _ ≤ b.totSec := h.used_le
      _ < 2 ^ 32 := b.totSec_lt
  refine ⟨hfits, Checked.bind_eq_ok.mpr ⟨_, uintMul_eq_ok.mpr ⟨by omega, rfl⟩, ?_⟩⟩
  exact Checked.bind_eq_ok.mpr ⟨_, uintAdd_eq_ok.mpr ⟨hfits, rfl⟩, rfl⟩

/-- The root directory of a volume that is accepted, unless it is FAT32. -/
lemma Determined.rootDirectorySectors_eq (h : b.Determined type) (hsmall : type ≠ .fat32) :
    b.sectorsBeforeData type < 2 ^ 32 ∧ b.rootDirectorySectors type =
      .ok ⟨b.sectorsBefore (b.fatSz type), b.sectorsBeforeData type⟩ := by
  have hfats : b.sectorsBefore (b.fatSz type) ≤ 2 ^ 16 + 2 ^ 8 * 2 ^ 16 := by
    have hsz : b.fatSz type ≤ 2 ^ 16 := by
      cases type with
      | fat32 => exact absurd rfl hsmall
      | fat12 => exact b.fatSz16.toNat_lt.le
      | fat16 => exact b.fatSz16.toNat_lt.le
    exact Nat.add_le_add b.rsvdSecCnt.toNat_lt.le (Nat.mul_le_mul b.numFats.toNat_lt.le hsz)
  have hroot : b.rootEntCnt.toNat * 32 / b.bytsPerSec.toNat ≤ 2 ^ 16 * 32 :=
    (Nat.div_le_self _ _).trans (Nat.mul_le_mul_right _ b.rootEntCnt.toNat_lt.le)
  have hfits : b.sectorsBefore (b.fatSz type) +
      b.rootEntCnt.toNat * 32 / b.bytsPerSec.toNat < 2 ^ 32 := by
    generalize b.rootEntCnt.toNat * 32 / b.bytsPerSec.toNat = root at hroot ⊢
    omega
  refine ⟨hfits, Checked.bind_eq_ok.mpr ⟨_, h.fatSectors_eq.2, ?_⟩⟩
  refine Checked.bind_eq_ok.mpr ⟨(), ensure_pos h.valid.bytsPerSec, ?_⟩
  exact Checked.bind_eq_ok.mpr ⟨_, uintAdd_eq_ok.mpr ⟨hfits, rfl⟩, rfl⟩

/-- **Mounting a volume.**  A volume that is accepted is mounted without tripping a check of the kernel
if and only if its FATs, and without FAT32 its root directory, are whole numbers of pages.  The regions of
the drive that mounting asks for are mappings, and the kernel asserts that a mapping has whole pages;
`validate_bpb` looks at sectors only. -/
theorem mountRequests_mappable_iff (h : b.determineType = .ok type) :
    (∃ requests, b.mountRequests type = .ok requests ∧
        ∀ request ∈ requests, Kernel.Mappable request.2) ↔
      pageSize ∣ b.numFats.toNat * b.fatSz type * b.bytsPerSec.toNat ∧
        (type ≠ .fat32 → pageSize ∣ b.rootEntCnt.toNat * 32) := by
  have hdetermined := determined_of_determineType h
  have hvalid := validateBpb_of_determineType h
  obtain ⟨hfatsLt, hfats⟩ := hdetermined.fatSectors_eq
  obtain ⟨fat, hfat, hfatMaps⟩ := regionRequest_eq hvalid
    ⟨b.rsvdSecCnt.toNat, b.sectorsBefore (b.fatSz type)⟩ (Nat.le_add_right _ _) hfatsLt
  have hfatSize : b.sectorsBefore (b.fatSz type) - b.rsvdSecCnt.toNat =
      b.numFats.toNat * b.fatSz type := Nat.add_sub_cancel_left _ _
  rw [hfatSize] at hfatMaps
  by_cases hlarge : type = .fat32
  · have hrequests : b.mountRequests type = .ok [fat] := by
      have hneither : ¬ (type = .fat12 ∨ type = .fat16) := by
        rw [hlarge]
        decide
      rw [mountRequests, hfats, Checked.ok_bind, hfat, Checked.ok_bind, if_neg hneither]
      rfl
    rw [← hfatMaps, hrequests]
    simp only [Except.ok.injEq, exists_eq_left', List.forall_mem_singleton, hlarge, ne_eq,
      not_true_eq_false, IsEmpty.forall_iff, and_true]
  · obtain ⟨hrootLt, hroot⟩ := hdetermined.rootDirectorySectors_eq hlarge
    obtain ⟨rdr, hrdr, hrdrMaps⟩ := regionRequest_eq hvalid
      ⟨b.sectorsBefore (b.fatSz type), b.sectorsBeforeData type⟩ (Nat.le_add_right _ _)
      hrootLt
    have hrootSize : (b.sectorsBeforeData type - b.sectorsBefore (b.fatSz type)) *
        b.bytsPerSec.toNat = b.rootEntCnt.toNat * 32 := by
      rw [sectorsBeforeData, Nat.add_sub_cancel_left]
      exact Nat.div_mul_cancel (hdetermined.valid.small hlarge)
    rw [hrootSize] at hrdrMaps
    have hrequests : b.mountRequests type = .ok [fat, rdr] := by
      have heither : type = .fat12 ∨ type = .fat16 := by
        cases type with
        | fat32 => exact absurd rfl hlarge
        | fat12 => exact Or.inl rfl
        | fat16 => exact Or.inr rfl
      rw [mountRequests, hfats, Checked.ok_bind, hfat, Checked.ok_bind, if_pos heither, hroot,
        Checked.ok_bind, hrdr]
      rfl
    rw [← hfatMaps, ← hrdrMaps, hrequests]
    simp only [Except.ok.injEq, exists_eq_left', List.forall_mem_cons, List.not_mem_nil,
      IsEmpty.forall_iff, implies_true, and_true, ne_eq, hlarge, not_false_eq_true, forall_const]

/-- A floppy disk with a root directory of 256 entries, and a table of two whole pages. -/
def pagedFloppy : Bpb := { floppy with rootEntCnt := 256, fatSz16 := 8 }

theorem mountRequests_pagedFloppy : ∃ requests, pagedFloppy.mountRequests .fat12 = .ok requests ∧
    ∀ request ∈ requests, Kernel.Mappable request.2 :=
  (mountRequests_mappable_iff (by decide)).mpr (by decide)

/-- The table of a floppy disk has 18 sectors, which is no whole number of pages. -/
theorem not_mappable_floppy : floppy.determineType = .ok .fat12 ∧
    ¬ ∃ requests, floppy.mountRequests .fat12 = .ok requests ∧
      ∀ request ∈ requests, Kernel.Mappable request.2 := by
  refine ⟨by decide, ?_⟩
  rintro ⟨requests, hrequests, hall⟩
  have hfloppy : floppy.mountRequests .fat12 = .ok [(1, 18), (19, 14)] := by decide
  obtain rfl := Except.ok.inj (hfloppy.symm.trans hrequests)
  exact absurd (hall (1, 18) List.mem_cons_self).2 (by decide)

end Bpb

end Deravel
