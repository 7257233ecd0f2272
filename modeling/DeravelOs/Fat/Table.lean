import DeravelOs.Fat.Volume

/-!
# The file allocation table

A table is an array of entries of 12, 16 or 32 bits, packed one behind the other with the lowest bits
first.  `read_fat_entry` cuts an entry out of the bytes that it has bits in.

* `Volume.entry`, `Volume.Covers`: the array.
* `Volume.readFatEntry_eq`: `read_fat_entry` reads it.
* `Volume.nextCluster_eq`: what the walk makes of an entry.
-/

namespace Deravel

/-- The width of an entry. -/
def FatType.entryBits : FatType → ℕ
  | .fat12 => 12
  | .fat16 => 16
  | .fat32 => 32

namespace Volume

variable {v : Volume} {c max : ℕ}

/-- The entry of a cluster, without the upper four bits that FAT32 reserves. -/
def entry (v : Volume) (c : ℕ) : ℕ :=
  ofBytesLE v.fat / 2 ^ (v.type.entryBits * c) % 2 ^ v.type.entryBits % 2 ^ 28

/-- The table has an entry for the cluster. -/
def Covers (v : Volume) (c : ℕ) : Prop := v.type.entryBits * (c + 1) ≤ 8 * v.fat.length

instance (v : Volume) (c : ℕ) : Decidable (v.Covers c) := inferInstanceAs (Decidable (_ ≤ _))

/-- The index of a byte of the entry is a `u32`. -/
def Indexed (v : Volume) (c : ℕ) : Prop := v.type = .fat12 → c + c / 2 < 2 ^ 32

instance (v : Volume) (c : ℕ) : Decidable (v.Indexed c) := inferInstanceAs (Decidable (_ → _))

lemma Covers.mono {d : ℕ} (h : v.Covers d) (hle : c ≤ d) : v.Covers c :=
  (Nat.mul_le_mul_left _ (Nat.succ_le_succ hle)).trans h

/-! ## Entries -/

/-- Some bytes of the table, as a number. -/
lemma fatBytes_eq {start count : ℕ} (h : start + count ≤ v.fat.length) :
    v.fatBytes start count = .ok (ofBytesLE v.fat / 256 ^ start % 256 ^ count) := by
  have hdigits : ∀ l : List UInt8, ∀ digit ∈ l.map UInt8.toNat, digit < 256 := by
    intro l digit hdigit
    obtain ⟨byte, -, rfl⟩ := List.mem_map.mp hdigit
    exact byte.toNat_lt
  have hlength : ((v.fat.drop start).take count).length = count := by
    rw [List.length_take, List.length_drop]
    omega
  have hvalue : ofBytesLE ((v.fat.drop start).take count) =
      ofBytesLE v.fat / 256 ^ start % 256 ^ count := by
    rw [ofBytesLE, List.map_take, ← Nat.ofDigits_mod_pow_eq_ofDigits_take _ (by decide) _
      (hdigits _), List.map_drop, ← Nat.ofDigits_div_pow_eq_ofDigits_drop _ (by decide) _
      (hdigits _), ofBytesLE]
  rw [fatBytes]
  exact Checked.bind_eq_ok.mpr ⟨(), ensure_pos hlength, congrArg Except.ok hvalue⟩

lemma fatBytes_outside {start count : ℕ} (h : v.fat.length < start + count) (hpos : 0 < count) :
    v.fatBytes start count = .error (.indexOutOfBounds .readFatEntry) := by
  have hlength : ((v.fat.drop start).take count).length ≠ count := by
    rw [List.length_take, List.length_drop]
    omega
  rw [fatBytes]
  simp only [ensure_neg hlength, Checked.error_bind]

/-- Bytes are eight bits. -/
lemma pow_bytes (k : ℕ) : (256 : ℕ) ^ k = 2 ^ (8 * k) := (pow_mul 2 8 k).symm

/-- Twelve of sixteen bits. -/
lemma twelve_bits (n start : ℕ) :
    n / 256 ^ start % 256 ^ 2 % 0x1000 = n / 2 ^ (8 * start) % 2 ^ 12 ∧
      n / 256 ^ start % 256 ^ 2 / 0x10 = n / 2 ^ (8 * start + 4) % 2 ^ 12 := by
  rw [pow_bytes start, pow_add, ← Nat.div_div_eq_div_mul]
  omega

/-- **`read_fat_entry` reads the entry of a cluster.** -/
theorem readFatEntry_eq (hcovers : v.Covers c) (hindexed : v.Indexed c) :
    ∃ value, v.readFatEntry c = .ok value ∧ value % 2 ^ 28 = v.entry c := by
  rw [Covers] at hcovers
  rw [readFatEntry, entry]
  cases htype : v.type with
  | fat12 =>
      rw [htype, FatType.entryBits] at hcovers
      rw [FatType.entryBits]
      have hbytes : v.fatBytes (c + c / 2) 2 = .ok _ := fatBytes_eq (by omega)
      have hindex : uintAdd 32 .readFatEntry c (c / 2) = .ok (c + c / 2) :=
        uintAdd_eq_ok.mpr ⟨hindexed htype, rfl⟩
      obtain ⟨heven, hodd⟩ := twelve_bits (ofBytesLE v.fat) (c + c / 2)
      refine ⟨_, Checked.bind_eq_ok.mpr ⟨_, hindex, Checked.bind_eq_ok.mpr ⟨_, hbytes, rfl⟩⟩, ?_⟩
      -- an even entry starts with a byte, an odd one in the middle of one
      split
      · rw [heven, show 8 * (c + c / 2) = 12 * c by omega]
      · rw [hodd, show 8 * (c + c / 2) + 4 = 12 * c by omega]
  | fat16 =>
      rw [htype, FatType.entryBits] at hcovers
      refine ⟨_, fatBytes_eq (by omega), ?_⟩
      rw [pow_bytes, show 8 * (2 * c) = 16 * c by omega]
      rfl
  | fat32 =>
      rw [htype, FatType.entryBits] at hcovers
      refine ⟨_, fatBytes_eq (by omega), ?_⟩
      rw [pow_bytes, show 8 * (4 * c) = 32 * c by omega]
      rfl

/-- Without an entry for the cluster, `read_fat_entry` panics. -/
lemma readFatEntry_outside (hcovers : ¬ v.Covers c) (hindexed : v.Indexed c) :
    v.readFatEntry c = .error (.indexOutOfBounds .readFatEntry) := by
  rw [Covers, not_le] at hcovers
  rw [readFatEntry]
  cases htype : v.type with
  | fat12 =>
      rw [htype, FatType.entryBits] at hcovers
      have hindex : uintAdd 32 .readFatEntry c (c / 2) = .ok (c + c / 2) :=
        uintAdd_eq_ok.mpr ⟨hindexed htype, rfl⟩
      have hbytes : v.fatBytes (c + c / 2) 2 = .error (.indexOutOfBounds .readFatEntry) :=
        fatBytes_outside (by omega) (by decide)
      simp only [hindex, Checked.ok_bind, hbytes, Checked.error_bind]
  | fat16 =>
      rw [htype, FatType.entryBits] at hcovers
      exact fatBytes_outside (by omega) (by decide)
  | fat32 =>
      rw [htype, FatType.entryBits] at hcovers
      exact fatBytes_outside (by omega) (by decide)

lemma readFatEntry_overflow (hindexed : ¬ v.Indexed c) :
    v.readFatEntry c = .error (.overflow .readFatEntry) := by
  rw [Indexed, Classical.not_imp, not_lt] at hindexed
  rw [readFatEntry, hindexed.1]
  simp only [uintAdd_overflow hindexed.2, Checked.error_bind]

/-! ## The walk -/

lemma entry_le_lastMark (v : Volume) (c : ℕ) : v.entry c ≤ v.type.lastMark := by
  rw [entry]
  cases v.type with
  | fat12 => exact (Nat.mod_le _ _).trans (Nat.le_of_lt_succ (Nat.mod_lt _ (by decide)))
  | fat16 => exact (Nat.mod_le _ _).trans (Nat.le_of_lt_succ (Nat.mod_lt _ (by decide)))
  | fat32 => exact Nat.le_of_lt_succ (Nat.mod_lt _ (by decide))

/-- The entry of a cluster is a link to a cluster of the volume. -/
def IsLink (v : Volume) (max c : ℕ) : Prop := 2 ≤ v.entry c ∧ v.entry c ≤ max

instance (v : Volume) (max c : ℕ) : Decidable (v.IsLink max c) :=
  inferInstanceAs (Decidable (_ ∧ _))

/-- The entry of a cluster is a mark that ends a chain. -/
def IsEnd (v : Volume) (c : ℕ) : Prop := v.type.endMark ≤ v.entry c

instance (v : Volume) (c : ℕ) : Decidable (v.IsEnd c) := inferInstanceAs (Decidable (_ ≤ _))

/-- **What the walk makes of an entry.** -/
theorem nextCluster_eq (hmax : v.maxCluster = .ok max) (hcovers : v.Covers c)
    (hindexed : v.Indexed c) : v.nextCluster c =
      if v.IsLink max c then .ok (some (v.entry c)) else if v.IsEnd c then .ok none
      else .error (.unimplemented .walkClusters) := by
  obtain ⟨value, hvalue, hentry⟩ := readFatEntry_eq hcovers hindexed
  have hlast := v.entry_le_lastMark c
  simp only [nextCluster, hvalue, Checked.ok_bind, hentry, hmax, IsLink, IsEnd, hlast, and_true]
  by_cases hlow : 2 ≤ v.entry c
  · by_cases hhigh : v.entry c ≤ max
    · simp [hlow, hhigh, Functor.map, Except.map, pure, Except.pure]
    · simp only [hlow, hhigh, if_true, and_false, if_false, Functor.map, Except.map, Checked.ok_bind,
        decide_false, Bool.false_eq_true]
      rfl
  · simp only [hlow, if_false, false_and]
    rfl

end Volume

end Deravel
