import DeravelOs.Heap.Bump

/-!
# Base address registers

`allocate_all_bars` of `kernel/src/pci.rs`.  A BAR of size `s` takes addresses that are multiples of `s`
only: the bits below are zero, whatever is written.  The kernel finds out the size from that, and then
writes the next free address of a bridge range, which it rounds up to a page but not to the size.

* `allocateAllBars`: the loop over the registers of a device.
* `Bar.registers`, `Placement`: how a device answers, and which addresses it decodes in the end.
* `Aligned`: the BARs before each one leave an address that is a multiple of its size.
* `allocateDevices_exact_iff`: this is when each BAR decodes the addresses that are recorded for it.
-/

namespace Deravel

/-! ## The registers of a device -/

/-- A register of a BAR: the bits below `low` and those of its type cannot be written. -/
structure BarRegister where
  low : ℕ
  flags : ℕ
  value : ℕ
  deriving DecidableEq, Repr

/-- The device stores an address. -/
def BarRegister.write (r : BarRegister) (value : ℕ) : BarRegister :=
  { r with value := value - value % r.low }

/-- What is read: the address, and the type in the bits that are zero in it. -/
def BarRegister.read (r : BarRegister) : ℕ := r.value + r.flags

/-- `AllocatedRange` -/
structure AllocatedRange where
  socOffset : ℕ
  length : ℕ
  deriving DecidableEq, Repr

/-- `PciRange` -/
structure PciRange where
  socBase : ℕ
  pciBase : ℕ
  length : ℕ
  deriving DecidableEq, Repr

/-- The bridge ranges, by what is in them. -/
inductive Space
  | io
  | mem32
  | mem64
  deriving DecidableEq, Repr

/-- `PciRanges`, of which the device tree says that they have no address of the SoC in common. -/
structure PciRanges where
  range : Space → PciRange
  disjoint : ∀ a b x, (range a).socBase ≤ x → x < (range a).socBase + (range a).length →
    (range b).socBase ≤ x → x < (range b).socBase + (range b).length → a = b

/-- `!readback + 1` in so many bits, where `readback` has no bits of the type any more. -/
def sizeOfReadback (bits readback : ℕ) : Checked ℕ :=
  uintAdd bits .allocateAllBars (2 ^ bits - 1 - readback) 1

/-- What is written to a BAR, what is recorded for it, and what is left of the range. -/
structure Allocation where
  pciOffset : ℕ
  allocated : AllocatedRange
  allocator : BumpAllocator

/-- The part of `allocate_all_bars` that is the same for the three kinds of BARs. -/
def allocateBar (range : PciRange) (allocator : BumpAllocator) (length : ℕ) :
    Checked Allocation := do
  ensure (length + (pageSize - 1) < 2 ^ 63) (.unwrap .layout)
  match ← allocator.alloc length pageSize with
  | none => throw (.unwrap .allocateAllBars)
  | some (offset, allocator) => do
      let pciOffset ← usizeAdd .allocateAllBars range.pciBase offset
      let socOffset ← usizeAdd .allocateAllBars range.socBase offset
      pure ⟨pciOffset, ⟨socOffset, length⟩, allocator⟩

/-- What `allocate_all_bars` leaves. -/
structure Allocated where
  registers : List BarRegister
  allocated : List AllocatedRange
  allocators : Space → BumpAllocator

/-- One BAR, before those that come after it in the device. -/
def Allocated.cons (registers : List BarRegister) (ranges : List AllocatedRange) (rest : Allocated) :
    Allocated :=
  { rest with registers := registers ++ rest.registers, allocated := ranges ++ rest.allocated }

/-- `allocate_all_bars`, from some register on.  Only the last 32 bits of an address are written to a
register. -/
def allocateAllBars (ranges : PciRanges) :
    List BarRegister → (Space → BumpAllocator) → Checked Allocated
  | [], allocators => pure ⟨[], [], allocators⟩
  | bar :: rest, allocators => do
      let flags := bar.read
      let bar := bar.write (2 ^ 32 - 1)
      let readback := bar.read
      if readback = 0 then
        let rest ← allocateAllBars ranges rest allocators
        pure (rest.cons [bar] [⟨0, 0⟩])
      else if flags % 2 = 1 then
        let length ← sizeOfReadback 32 (readback - readback % 2)
        let a ← allocateBar (ranges.range .io) (allocators .io) length
        let bar := bar.write (a.pciOffset % 2 ^ 32 ||| 1)
        let rest ← allocateAllBars ranges rest (Function.update allocators .io a.allocator)
        pure (rest.cons [bar] [a.allocated])
      else if flags % 8 / 2 = 0 then
        let length ← sizeOfReadback 32 (readback - readback % 16)
        let a ← allocateBar (ranges.range .mem32) (allocators .mem32) length
        let bar := bar.write (a.pciOffset % 2 ^ 32 ||| flags % 16)
        let rest ← allocateAllBars ranges rest (Function.update allocators .mem32 a.allocator)
        pure (rest.cons [bar] [a.allocated])
      else if flags % 8 / 2 = 2 then
        match rest with
        | [] => throw (.unwrap .allocateAllBars)
        | hiBar :: rest => do
            let hiBar := hiBar.write (2 ^ 32 - 1)
            let readback := hiBar.read * 2 ^ 32 + readback
            let length ← sizeOfReadback 64 (readback - readback % 16)
            let a ← allocateBar (ranges.range .mem64) (allocators .mem64) length
            let bar := bar.write (a.pciOffset % 2 ^ 32 ||| flags % 16)
            let hiBar := hiBar.write (a.pciOffset / 2 ^ 32 % 2 ^ 32)
            let rest ← allocateAllBars ranges rest (Function.update allocators .mem64 a.allocator)
            pure (rest.cons [bar, hiBar] [a.allocated, ⟨0, 0⟩])
      else throw (.explicit .allocateAllBars)

/-! ## Devices -/

/-- A BAR of `2 ^ log` addresses, with what was in its registers before. -/
inductive Bar
  | absent
  | io (log initial : ℕ) (h : 2 ≤ log ∧ log < 32)
  | mem32 (log initial : ℕ) (prefetchable : Bool) (h : 4 ≤ log ∧ log < 32)
  | mem64 (log initialLo initialHi : ℕ) (prefetchable : Bool) (h : 4 ≤ log ∧ log < 64)

/-- The bit of a prefetchable BAR. -/
def prefetchFlag (prefetchable : Bool) : ℕ := if prefetchable then 8 else 0

/-- The registers of a BAR. -/
def Bar.registers : Bar → List BarRegister
  | absent => [⟨2 ^ 32, 0, 0⟩]
  | io log initial _ => [(⟨2 ^ log, 1, 0⟩ : BarRegister).write initial]
  | mem32 log initial prefetchable _ =>
      [(⟨2 ^ log, prefetchFlag prefetchable, 0⟩ : BarRegister).write initial]
  | mem64 log initialLo initialHi prefetchable _ =>
      [(⟨2 ^ min log 32, 4 + prefetchFlag prefetchable, 0⟩ : BarRegister).write initialLo,
        (⟨2 ^ (log - 32), 0, 0⟩ : BarRegister).write initialHi]

/-- A device, as its BARs, which have six registers. -/
structure Device where
  bars : List Bar
  length_eq : (bars.flatMap Bar.registers).length = 6

/-- The addresses that a BAR decodes, and what was recorded for it. -/
structure Placement where
  space : Space
  base : ℕ
  size : ℕ
  recorded : AllocatedRange
  deriving DecidableEq, Repr

/-- What has become of the BARs of a device. -/
def placements : List Bar → List BarRegister → List AllocatedRange → List Placement
  | .absent :: bars, _ :: registers, _ :: ranges => placements bars registers ranges
  | .io log _ _ :: bars, bar :: registers, range :: ranges =>
      ⟨.io, bar.value, 2 ^ log, range⟩ :: placements bars registers ranges
  | .mem32 log _ _ _ :: bars, bar :: registers, range :: ranges =>
      ⟨.mem32, bar.value, 2 ^ log, range⟩ :: placements bars registers ranges
  | .mem64 log _ _ _ _ :: bars, bar :: hiBar :: registers, range :: _ :: ranges =>
      ⟨.mem64, hiBar.value * 2 ^ 32 + bar.value, 2 ^ log, range⟩ ::
        placements bars registers ranges
  | _, _, _ => []

/-- `allocate_all_bars` on one device after the other, and what has become of their BARs. -/
def allocateDevices (ranges : PciRanges) :
    List Device → (Space → BumpAllocator) → Checked (List Placement)
  | [], _ => pure []
  | device :: devices, allocators => do
      let a ← allocateAllBars ranges (device.bars.flatMap Bar.registers) allocators
      let rest ← allocateDevices ranges devices a.allocators
      pure (placements device.bars a.registers a.allocated ++ rest)

/-! ## What a device stores -/

/-- The part of a number above a power of two. -/
lemma sub_mod_eq_mul_div (a m : ℕ) : a - a % m = m * (a / m) := by
  have hdiv := Nat.div_add_mod a m
  omega

/-- The size of a register, from all ones. -/
lemma ones_sub_mod {log : ℕ} (h : log ≤ 32) :
    2 ^ 32 - 1 - (2 ^ 32 - 1) % 2 ^ log = 2 ^ 32 - 2 ^ log := by
  obtain ⟨d, hd⟩ := Nat.exists_eq_add_of_le h
  have hpow : 2 ^ 32 = 2 ^ log * 2 ^ d := by rw [← pow_add, ← hd]
  have hpos : 0 < 2 ^ log := by positivity
  have hdiv : (2 ^ 32 - 1) / 2 ^ log = 2 ^ d - 1 := by
    have hposd : 0 < 2 ^ d := by positivity
    refine Nat.div_eq_of_lt_le ?_ ?_
    · rw [hpow, Nat.sub_mul, mul_comm (2 ^ d), one_mul]
      omega
    · rw [Nat.sub_add_cancel hposd, mul_comm, ← hpow]
      omega
  rw [sub_mod_eq_mul_div, hdiv, Nat.mul_sub, mul_one, ← hpow]

/-- The bits of the type are below those that are kept. -/
lemma or_sub_mod {v flags log : ℕ} (h : flags < 2 ^ log) :
    (v ||| flags) - (v ||| flags) % 2 ^ log = v - v % 2 ^ log := by
  rw [sub_mod_eq_mul_div, sub_mod_eq_mul_div, Nat.or_div_two_pow, Nat.div_eq_of_lt h, Nat.or_zero]

lemma sizeOfReadback_eq {bits log : ℕ} (h : log < bits) :
    sizeOfReadback bits (2 ^ bits - 2 ^ log) = .ok (2 ^ log) := by
  have hlt : 2 ^ log < 2 ^ bits := Nat.pow_lt_pow_right (by norm_num) h
  have hpos : 0 < 2 ^ log := by positivity
  exact uintAdd_eq_ok.mpr ⟨by omega, by omega⟩

/-- The address that a BAR of this size stores when this one is written to it. -/
def Space.stored (space : Space) (size pciOffset : ℕ) : ℕ :=
  match space with
  | .mem64 => pciOffset - pciOffset % size
  | _ => pciOffset % 2 ^ 32 - pciOffset % 2 ^ 32 % size

/-- Two registers store one address. -/
lemma stored_mem64 {log pciOffset : ℕ} (hlt : pciOffset < 2 ^ 64) :
    (pciOffset / 2 ^ 32 % 2 ^ 32 - pciOffset / 2 ^ 32 % 2 ^ 32 % 2 ^ (log - 32)) * 2 ^ 32 +
      (pciOffset % 2 ^ 32 - pciOffset % 2 ^ 32 % 2 ^ min log 32) =
      Space.stored .mem64 (2 ^ log) pciOffset := by
  have hhi : pciOffset / 2 ^ 32 % 2 ^ 32 = pciOffset / 2 ^ 32 := by
    refine Nat.mod_eq_of_lt ?_
    rw [Nat.div_lt_iff_lt_mul (by positivity)]
    exact hlt
  have hparts := Nat.div_add_mod pciOffset (2 ^ 32)
  rw [hhi, Space.stored]
  rcases le_total log 32 with hlog | hlog
  · rw [min_eq_left hlog, Nat.sub_eq_zero_of_le hlog, pow_zero, Nat.mod_one, Nat.sub_zero,
      Nat.mod_mod_of_dvd _ (pow_dvd_pow 2 hlog)]
    have hle : pciOffset % 2 ^ log ≤ pciOffset % 2 ^ 32 := by
      rw [← Nat.mod_mod_of_dvd pciOffset (pow_dvd_pow 2 hlog)]
      exact Nat.mod_le _ _
    omega
  · obtain ⟨d, rfl⟩ := Nat.exists_eq_add_of_le hlog
    rw [min_eq_right hlog, Nat.mod_mod, Nat.sub_self, Nat.add_zero, Nat.add_sub_cancel_left,
      sub_mod_eq_mul_div, sub_mod_eq_mul_div, Nat.div_div_eq_div_mul, pow_add, mul_right_comm,
      mul_comm (2 ^ d)]

section BarRegisters

variable {ranges : PciRanges} {allocators : Space → BumpAllocator} {regs : List BarRegister}

/-- What is read from a register whose type has these bits. -/
lemma read_mod {low flags initial m : ℕ} (hm : m ∣ low) :
    ((⟨low, flags, 0⟩ : BarRegister).write initial).read % m = flags % m := by
  obtain ⟨c, hc⟩ := hm.trans (show low ∣ low * (initial / low) from Dvd.intro _ rfl)
  rw [BarRegister.read, BarRegister.write, sub_mod_eq_mul_div, hc, Nat.mul_add_mod]

/-- The readback. -/
lemma read_ones {log flags initial : ℕ} (h : log ≤ 32) :
    (((⟨2 ^ log, flags, 0⟩ : BarRegister).write initial).write (2 ^ 32 - 1)).read =
      2 ^ 32 - 2 ^ log + flags := by
  rw [← ones_sub_mod h]
  rfl

/-- The readback without the bits of the type. -/
lemma readback_sub_mod {bits log flags m : ℕ} (hlog : log ≤ bits) (hm : m ∣ 2 ^ log)
    (hflags : flags < m) :
    2 ^ bits - 2 ^ log + flags - (2 ^ bits - 2 ^ log + flags) % m = 2 ^ bits - 2 ^ log := by
  have hdvd : m ∣ 2 ^ bits - 2 ^ log := Nat.dvd_sub (hm.trans (pow_dvd_pow 2 hlog)) hm
  obtain ⟨c, hc⟩ := hdvd
  rw [hc, Nat.mul_add_mod, Nat.mod_eq_of_lt hflags, Nat.add_sub_cancel]

/-- What is stored when an address is written together with the bits of the type. -/
lemma write_or {log flags value initial address : ℕ} (h : flags < 2 ^ log) :
    (((⟨2 ^ log, flags, 0⟩ : BarRegister).write initial).write value).write (address ||| flags) =
      ⟨2 ^ log, flags, address - address % 2 ^ log⟩ := by
  rw [← or_sub_mod h]
  rfl

lemma allocateAllBars_absent :
    allocateAllBars ranges (Bar.absent.registers ++ regs) allocators = (do
      let rest ← allocateAllBars ranges regs allocators
      pure (rest.cons [⟨2 ^ 32, 0, 0⟩] [⟨0, 0⟩])) := by
  have hzero : (⟨2 ^ 32, 0, 0⟩ : BarRegister).write (2 ^ 32 - 1) = ⟨2 ^ 32, 0, 0⟩ := by decide
  rw [Bar.registers, List.singleton_append, allocateAllBars.eq_def]
  simp only [hzero, BarRegister.read, if_true]

lemma allocateAllBars_io {log initial : ℕ} (h : 2 ≤ log ∧ log < 32) :
    allocateAllBars ranges ((Bar.io log initial h).registers ++ regs) allocators = (do
      let a ← allocateBar (ranges.range .io) (allocators .io) (2 ^ log)
      let rest ← allocateAllBars ranges regs (Function.update allocators .io a.allocator)
      pure (rest.cons [⟨2 ^ log, 1, Space.stored .io (2 ^ log) a.pciOffset⟩] [a.allocated])) := by
  obtain ⟨hlog, hlog'⟩ := h
  have htwo : 2 ∣ 2 ^ log := dvd_pow_self 2 (by omega)
  have hne : 2 ^ 32 - 2 ^ log + 1 ≠ 0 := Nat.succ_ne_zero _
  rw [Bar.registers, List.singleton_append, allocateAllBars.eq_def]
  simp only [read_ones hlog'.le, if_neg hne, read_mod htwo, Nat.one_mod, if_true,
    readback_sub_mod hlog'.le htwo Nat.one_lt_two, sizeOfReadback_eq hlog', Checked.ok_bind,
    write_or (Nat.one_lt_two_pow (by omega : log ≠ 0))]
  rfl

lemma prefetchFlag_eq (prefetchable : Bool) :
    prefetchFlag prefetchable = 0 ∨ prefetchFlag prefetchable = 8 := by
  cases prefetchable with
  | false => exact Or.inl rfl
  | true => exact Or.inr rfl

lemma allocateAllBars_mem32 {log initial : ℕ} {prefetchable : Bool} (h : 4 ≤ log ∧ log < 32) :
    allocateAllBars ranges ((Bar.mem32 log initial prefetchable h).registers ++ regs) allocators = (do
      let a ← allocateBar (ranges.range .mem32) (allocators .mem32) (2 ^ log)
      let rest ← allocateAllBars ranges regs (Function.update allocators .mem32 a.allocator)
      pure (rest.cons
        [⟨2 ^ log, prefetchFlag prefetchable, Space.stored .mem32 (2 ^ log) a.pciOffset⟩]
        [a.allocated])) := by
  obtain ⟨hlog, hlog'⟩ := h
  have hsixteen : 16 ∣ 2 ^ log := (show (16 : ℕ) = 2 ^ 4 by norm_num) ▸ pow_dvd_pow 2 hlog
  have hlt : 2 ^ log < 2 ^ 32 := Nat.pow_lt_pow_right (by norm_num) hlog'
  have hflags : prefetchFlag prefetchable < 16 ∧ prefetchFlag prefetchable % 2 ≠ 1 ∧
      prefetchFlag prefetchable % 8 / 2 = 0 := by
    rcases prefetchFlag_eq prefetchable with heq | heq <;> rw [heq] <;> decide
  obtain ⟨hlow, hmem, hword⟩ := hflags
  have hne : 2 ^ 32 - 2 ^ log + prefetchFlag prefetchable ≠ 0 := by omega
  have hlow' : prefetchFlag prefetchable < 2 ^ log := hlow.trans_le (Nat.le_of_dvd (by positivity) hsixteen)
  rw [Bar.registers, List.singleton_append, allocateAllBars.eq_def]
  simp only [read_ones hlog'.le, if_neg hne, read_mod ((show 2 ∣ 16 by norm_num).trans hsixteen),
    if_neg hmem, read_mod ((show 8 ∣ 16 by norm_num).trans hsixteen), hword, if_true,
    readback_sub_mod hlog'.le hsixteen hlow, sizeOfReadback_eq hlog', Checked.ok_bind,
    read_mod hsixteen, Nat.mod_eq_of_lt hlow, write_or hlow']
  rfl

lemma allocateAllBars_mem64 {log initialLo initialHi : ℕ} {prefetchable : Bool}
    (h : 4 ≤ log ∧ log < 64) :
    allocateAllBars ranges
      ((Bar.mem64 log initialLo initialHi prefetchable h).registers ++ regs) allocators = (do
      let a ← allocateBar (ranges.range .mem64) (allocators .mem64) (2 ^ log)
      let rest ← allocateAllBars ranges regs (Function.update allocators .mem64 a.allocator)
      let lo := a.pciOffset % 2 ^ 32
      let hi := a.pciOffset / 2 ^ 32 % 2 ^ 32
      pure (rest.cons
        [⟨2 ^ min log 32, 4 + prefetchFlag prefetchable, lo - lo % 2 ^ min log 32⟩,
          ⟨2 ^ (log - 32), 0, hi - hi % 2 ^ (log - 32)⟩]
        [a.allocated, ⟨0, 0⟩])) := by
  obtain ⟨hlog, hlog'⟩ := h
  have hmin : min log 32 ≤ 32 := min_le_right _ _
  have hsixteen : 16 ∣ 2 ^ min log 32 :=
    (show (16 : ℕ) = 2 ^ 4 by norm_num) ▸ pow_dvd_pow 2 (le_min hlog (by norm_num))
  have hflags : 4 + prefetchFlag prefetchable < 16 ∧ (4 + prefetchFlag prefetchable) % 2 ≠ 1 ∧
      (4 + prefetchFlag prefetchable) % 8 / 2 = 2 := by
    rcases prefetchFlag_eq prefetchable with heq | heq <;> rw [heq] <;> decide
  obtain ⟨hlow, hmem, hword⟩ := hflags
  have hne : 2 ^ 32 - 2 ^ min log 32 + (4 + prefetchFlag prefetchable) ≠ 0 := by omega
  have hlow' : 4 + prefetchFlag prefetchable < 2 ^ min log 32 :=
    hlow.trans_le (Nat.le_of_dvd (by positivity) hsixteen)
  have hsize : (2 ^ 32 - 2 ^ (log - 32) + 0) * 2 ^ 32 +
      (2 ^ 32 - 2 ^ min log 32 + (4 + prefetchFlag prefetchable)) =
      2 ^ 64 - 2 ^ log + (4 + prefetchFlag prefetchable) := by
    have hpow : 2 ^ log ≤ 2 ^ 64 := Nat.pow_le_pow_right (by norm_num) hlog'.le
    rcases le_total log 32 with hle | hle
    · have hpow' : 2 ^ log ≤ 2 ^ 32 := Nat.pow_le_pow_right (by norm_num) hle
      rw [min_eq_left hle, Nat.sub_eq_zero_of_le hle]
      omega
    · obtain ⟨d, rfl⟩ := Nat.exists_eq_add_of_le hle
      rw [min_eq_right hle, Nat.add_sub_cancel_left, pow_add] at *
      omega
  have hdvd : 16 ∣ 2 ^ log := hsixteen.trans (pow_dvd_pow 2 (min_le_left _ _))
  rw [Bar.registers, List.cons_append, List.singleton_append, allocateAllBars.eq_def]
  simp only [read_ones hmin, if_neg hne, read_mod ((show 2 ∣ 16 by norm_num).trans hsixteen),
    if_neg hmem, read_mod ((show 8 ∣ 16 by norm_num).trans hsixteen), hword,
    if_neg (show (2 : ℕ) ≠ 0 by norm_num), if_true, read_ones (show log - 32 ≤ 32 by omega), hsize,
    readback_sub_mod hlog'.le hdvd hlow, sizeOfReadback_eq hlog', Checked.ok_bind,
    read_mod hsixteen, Nat.mod_eq_of_lt hlow, write_or hlow']
  rfl

end BarRegisters

/-! ## Where the BARs are put -/

/-- What a BAR needs. -/
structure Need where
  space : Space
  size : ℕ
  deriving DecidableEq, Repr

/-- What a BAR needs, if there is one. -/
def Bar.need : Bar → Option Need
  | absent => none
  | io log _ _ => some ⟨.io, 2 ^ log⟩
  | mem32 log _ _ _ => some ⟨.mem32, 2 ^ log⟩
  | mem64 log _ _ _ _ => some ⟨.mem64, 2 ^ log⟩

/-- The pages in use of each range, after one more BAR. -/
def Need.advance (offset : Space → ℕ) (n : Need) : Space → ℕ :=
  Function.update offset n.space (offset n.space + nextMultipleOf n.size pageSize)

/-- The BARs before each one, all of them rounded up to pages, leave an address that is a multiple of
its size, and one of 32 bits if its registers have no more. -/
def Aligned (ranges : PciRanges) : (offset : Space → ℕ) → List Need → Prop
  | _, [] => True
  | offset, n :: needs =>
      (n.size ∣ (ranges.range n.space).pciBase + offset n.space ∧
        (n.space ≠ .mem64 → (ranges.range n.space).pciBase + offset n.space < 2 ^ 32)) ∧
      Aligned ranges (n.advance offset) needs

instance decidableAligned (ranges : PciRanges) :
    (offset : Space → ℕ) → (needs : List Need) → Decidable (Aligned ranges offset needs)
  | _, [] => isTrue trivial
  | offset, n :: needs =>
      have := decidableAligned ranges (n.advance offset) needs
      inferInstanceAs (Decidable (_ ∧ _))

/-- Each BAR is in its range. -/
def Fits (ranges : PciRanges) : (offset : Space → ℕ) → List Need → Prop
  | _, [] => True
  | offset, n :: needs => 0 < n.size ∧ offset n.space + n.size ≤ (ranges.range n.space).length ∧
      Fits ranges (n.advance offset) needs

/-- What becomes of the BARs. -/
def expected (ranges : PciRanges) : (offset : Space → ℕ) → List Need → List Placement
  | _, [] => []
  | offset, n :: needs =>
      { space := n.space
        base := n.space.stored n.size ((ranges.range n.space).pciBase + offset n.space)
        size := n.size
        recorded := ⟨(ranges.range n.space).socBase + offset n.space, n.size⟩ } ::
      expected ranges (n.advance offset) needs

section Layout

variable {ranges : PciRanges} {offset : Space → ℕ} {needs needs' : List Need}

lemma fits_append : Fits ranges offset (needs ++ needs') ↔
    Fits ranges offset needs ∧ Fits ranges (needs.foldl Need.advance offset) needs' := by
  induction needs generalizing offset with
  | nil => simp [Fits]
  | cons n needs ih =>
      rw [List.cons_append, Fits, Fits, ih, List.foldl_cons, and_assoc, and_assoc]

lemma expected_append : expected ranges offset (needs ++ needs') =
    expected ranges offset needs ++ expected ranges (needs.foldl Need.advance offset) needs' := by
  induction needs generalizing offset with
  | nil => rfl
  | cons n needs ih => rw [List.cons_append, expected, expected, ih, List.foldl_cons, List.cons_append]

/-- The allocators will go on from these offsets. -/
def Ready (ranges : PciRanges) (offset : Space → ℕ) (allocators : Space → BumpAllocator) : Prop :=
  ∀ space, nextMultipleOf (allocators space).start pageSize = offset space ∧
    (allocators space).stop = (ranges.range space).length

lemma nextMultipleOf_add {m a : ℕ} (h : m ∣ a) (b : ℕ) :
    nextMultipleOf (a + b) m = a + nextMultipleOf b m := by
  obtain ⟨c, rfl⟩ := h
  rw [nextMultipleOf, nextMultipleOf, Nat.mul_add_mod]
  split <;> omega

/-- A BAR is put where its range goes on, and the range goes on behind its pages. -/
lemma Ready.allocateBar {allocators : Space → BumpAllocator} (h : Ready ranges offset allocators)
    {n : Need} {a : Allocation}
    (ha : allocateBar (ranges.range n.space) (allocators n.space) n.size = .ok a) :
    a.pciOffset = (ranges.range n.space).pciBase + offset n.space ∧
      a.pciOffset < 2 ^ 64 ∧
      a.allocated = ⟨(ranges.range n.space).socBase + offset n.space, n.size⟩ ∧
      offset n.space + n.size ≤ (ranges.range n.space).length ∧
      Ready ranges (n.advance offset) (Function.update allocators n.space a.allocator) := by
  obtain ⟨hoffset, hstop⟩ := h n.space
  obtain ⟨_, -, ha⟩ := Checked.bind_eq_ok.mp ha
  obtain ⟨result, halloc, ha⟩ := Checked.bind_eq_ok.mp ha
  obtain ⟨_, -, halloc⟩ := Checked.bind_eq_ok.mp halloc
  obtain ⟨newStart, hnewStart, halloc⟩ := Checked.bind_eq_ok.mp halloc
  have hnewStart := usizeAdd_eq_ok hnewStart
  rw [hoffset] at hnewStart halloc
  split at halloc
  · obtain rfl := Except.ok.inj halloc
    cases ha
  · next hle =>
      obtain ⟨allocated, -, halloc⟩ := Checked.bind_eq_ok.mp halloc
      obtain rfl := Except.ok.inj halloc
      obtain ⟨pciOffset, hpci, ha⟩ := Checked.bind_eq_ok.mp ha
      obtain ⟨socOffset, hsoc, ha⟩ := Checked.bind_eq_ok.mp ha
      obtain rfl := Except.ok.inj ha
      have hpciOffset := usizeAdd_eq_ok hpci
      have hlt : (ranges.range n.space).pciBase + offset n.space < 2 ^ 64 := by
        rw [usizeAdd] at hpci
        split at hpci
        · assumption
        · cases hpci
      refine ⟨hpciOffset, hpciOffset.symm ▸ hlt, by rw [usizeAdd_eq_ok hsoc], by omega, ?_⟩
      intro space
      have hdvd : pageSize ∣ offset n.space :=
        hoffset ▸ dvd_nextMultipleOf (by decide) _
      by_cases hspace : space = n.space
      · subst hspace
        rw [Function.update_self, Need.advance, Function.update_self]
        refine ⟨?_, hstop⟩
        show nextMultipleOf newStart pageSize = _
        rw [hnewStart, nextMultipleOf_add hdvd]
      · rw [Function.update_of_ne hspace, Need.advance, Function.update_of_ne hspace]
        exact h space

/-- What `allocate_all_bars` makes of the BARs of a device. -/
lemma Ready.allocateAllBars {bars : List Bar} {allocators : Space → BumpAllocator} {r : Allocated}
    (h : Ready ranges offset allocators)
    (hr : allocateAllBars ranges (bars.flatMap Bar.registers) allocators = .ok r) :
    placements bars r.registers r.allocated = expected ranges offset (bars.filterMap Bar.need) ∧
      Fits ranges offset (bars.filterMap Bar.need) ∧
      Ready ranges ((bars.filterMap Bar.need).foldl Need.advance offset) r.allocators := by
  induction bars generalizing offset allocators r with
  | nil =>
      obtain rfl := Except.ok.inj hr
      exact ⟨rfl, trivial, h⟩
  | cons bar bars ih =>
      rw [List.flatMap_cons] at hr
      -- one case for each kind of BAR, each with the equation for its registers
      cases bar with
      | absent =>
          rw [allocateAllBars_absent] at hr
          obtain ⟨rest, hrest, hr⟩ := Checked.bind_eq_ok.mp hr
          obtain rfl := Except.ok.inj hr
          exact ih h hrest
      | io log initial hlog =>
          rw [allocateAllBars_io] at hr
          obtain ⟨a, ha, hr⟩ := Checked.bind_eq_ok.mp hr
          obtain ⟨rest, hrest, hr⟩ := Checked.bind_eq_ok.mp hr
          obtain rfl := Except.ok.inj hr
          obtain ⟨hpci, -, hrecorded, hfits, hready⟩ := h.allocateBar (n := ⟨.io, 2 ^ log⟩) ha
          obtain ⟨hplaced, hfits', hready'⟩ := ih hready hrest
          refine ⟨?_, ⟨by positivity, hfits, hfits'⟩, hready'⟩
          refine congrArg₂ List.cons ?_ hplaced
          rw [hrecorded, hpci]
      | mem32 log initial prefetchable hlog =>
          rw [allocateAllBars_mem32] at hr
          obtain ⟨a, ha, hr⟩ := Checked.bind_eq_ok.mp hr
          obtain ⟨rest, hrest, hr⟩ := Checked.bind_eq_ok.mp hr
          obtain rfl := Except.ok.inj hr
          obtain ⟨hpci, -, hrecorded, hfits, hready⟩ := h.allocateBar (n := ⟨.mem32, 2 ^ log⟩) ha
          obtain ⟨hplaced, hfits', hready'⟩ := ih hready hrest
          refine ⟨?_, ⟨by positivity, hfits, hfits'⟩, hready'⟩
          refine congrArg₂ List.cons ?_ hplaced
          rw [hrecorded, hpci]
      | mem64 log initialLo initialHi prefetchable hlog =>
          rw [allocateAllBars_mem64] at hr
          obtain ⟨a, ha, hr⟩ := Checked.bind_eq_ok.mp hr
          obtain ⟨rest, hrest, hr⟩ := Checked.bind_eq_ok.mp hr
          obtain rfl := Except.ok.inj hr
          obtain ⟨hpci, hlt, hrecorded, hfits, hready⟩ := h.allocateBar (n := ⟨.mem64, 2 ^ log⟩) ha
          obtain ⟨hplaced, hfits', hready'⟩ := ih hready hrest
          refine ⟨?_, ⟨by positivity, hfits, hfits'⟩, hready'⟩
          refine congrArg₂ List.cons ?_ hplaced
          rw [hrecorded, stored_mem64 hlt, hpci]

lemma Ready.allocateDevices {devices : List Device} {allocators : Space → BumpAllocator}
    {placed : List Placement} (h : Ready ranges offset allocators)
    (hplaced : allocateDevices ranges devices allocators = .ok placed) :
    placed = expected ranges offset (devices.flatMap fun d => d.bars.filterMap Bar.need) ∧
      Fits ranges offset (devices.flatMap fun d => d.bars.filterMap Bar.need) := by
  induction devices generalizing offset allocators placed with
  | nil =>
      obtain rfl := Except.ok.inj hplaced
      exact ⟨rfl, trivial⟩
  | cons device devices ih =>
      obtain ⟨a, ha, hplaced⟩ := Checked.bind_eq_ok.mp hplaced
      obtain ⟨rest, hrest, hplaced⟩ := Checked.bind_eq_ok.mp hplaced
      obtain rfl := Except.ok.inj hplaced
      obtain ⟨hhead, hfits, hready⟩ := h.allocateAllBars ha
      obtain ⟨htail, hfits'⟩ := ih hready hrest
      rw [List.flatMap_cons, expected_append, fits_append, hhead, htail]
      exact ⟨rfl, hfits, hfits'⟩

/-! ## Which addresses are decoded -/

/-- The BAR decodes this address of the SoC, which the bridge translates. -/
def Placement.Decodes (ranges : PciRanges) (p : Placement) (x : ℕ) : Prop :=
  p.base + (ranges.range p.space).socBase ≤ x + (ranges.range p.space).pciBase ∧
    x + (ranges.range p.space).pciBase < p.base + p.size + (ranges.range p.space).socBase

/-- The address is in the range that was recorded. -/
def Placement.Records (p : Placement) (x : ℕ) : Prop :=
  p.recorded.socOffset ≤ x ∧ x < p.recorded.socOffset + p.recorded.length

/-- The address is in the bridge range. -/
def Placement.InRange (ranges : PciRanges) (p : Placement) (x : ℕ) : Prop :=
  (ranges.range p.space).socBase ≤ x ∧
    x < (ranges.range p.space).socBase + (ranges.range p.space).length

/-- Each BAR decodes what is recorded for it, within its bridge range, and no address is decoded
twice. -/
structure Exact (ranges : PciRanges) (placed : List Placement) : Prop where
  recorded : ∀ p ∈ placed, ∀ x, p.Decodes ranges x ↔ p.Records x
  inRange : ∀ p ∈ placed, ∀ x, p.Decodes ranges x → p.InRange ranges x
  disjoint : placed.Pairwise fun p q => ∀ x, p.Decodes ranges x → ¬ q.Decodes ranges x

/-- An address is stored as it is if it is a multiple of the size and has no more bits than the
registers. -/
lemma Space.stored_eq_iff {space : Space} {size pciOffset : ℕ} :
    space.stored size pciOffset = pciOffset ↔
      size ∣ pciOffset ∧ (space ≠ .mem64 → pciOffset < 2 ^ 32) := by
  have hkeep : ∀ {v : ℕ}, v - v % size = v ↔ size ∣ v := by
    intro v
    have hle := Nat.mod_le v size
    rw [Nat.dvd_iff_mod_eq_zero]
    omega
  have hword : pciOffset % 2 ^ 32 - pciOffset % 2 ^ 32 % size = pciOffset ↔
      size ∣ pciOffset ∧ pciOffset < 2 ^ 32 := by
    constructor
    · intro heq
      have hlt : pciOffset < 2 ^ 32 := by
        have hmod := Nat.mod_lt pciOffset (show 0 < 2 ^ 32 by norm_num)
        omega
      rw [Nat.mod_eq_of_lt hlt] at heq
      exact ⟨hkeep.mp heq, hlt⟩
    · rintro ⟨hdvd, hlt⟩
      rw [Nat.mod_eq_of_lt hlt]
      exact hkeep.mpr hdvd
  cases space with
  | io => simpa [Space.stored] using hword
  | mem32 => simpa [Space.stored] using hword
  | mem64 => simpa [Space.stored] using hkeep

/-- A BAR decodes what is recorded if and only if it stores what was written. -/
lemma decodes_iff_records {n : Need} (hpos : 0 < n.size) {p : Placement}
    (hp : p = { space := n.space
                base := n.space.stored n.size ((ranges.range n.space).pciBase + offset n.space)
                size := n.size
                recorded := ⟨(ranges.range n.space).socBase + offset n.space, n.size⟩ }) :
    (∀ x, p.Decodes ranges x ↔ p.Records x) ↔
      n.space.stored n.size ((ranges.range n.space).pciBase + offset n.space) =
        (ranges.range n.space).pciBase + offset n.space := by
  subst hp
  simp only [Placement.Decodes, Placement.Records]
  constructor
  · intro h
    have hfirst := (h ((ranges.range n.space).socBase + offset n.space)).mpr (by omega)
    have hlast := (h ((ranges.range n.space).socBase + offset n.space + n.size - 1)).mpr (by omega)
    omega
  · intro heq x
    rw [heq]
    omega

/-- What is recorded are addresses of the bridge range that were free. -/
lemma Fits.records (h : Fits ranges offset needs) {p : Placement}
    (hp : p ∈ expected ranges offset needs) {x : ℕ} (hx : p.Records x) :
    (ranges.range p.space).socBase + offset p.space ≤ x ∧ p.InRange ranges x := by
  induction needs generalizing offset with
  | nil => cases hp
  | cons n needs ih =>
      obtain ⟨-, hle, hfits⟩ := h
      rcases List.mem_cons.mp hp with rfl | hp
      · obtain ⟨hstart, hstop⟩ := hx
        refine ⟨hstart, (Nat.le_add_right _ _).trans hstart, ?_⟩
        show x < (ranges.range n.space).socBase + (ranges.range n.space).length
        simp only at hstop
        omega
      · obtain ⟨hfree, hrange⟩ := ih hfits hp
        refine ⟨le_trans (Nat.add_le_add_left ?_ _) hfree, hrange⟩
        rw [Need.advance]
        by_cases hspace : p.space = n.space
        · rw [hspace, Function.update_self]
          exact Nat.le_add_right _ _
        · rw [Function.update_of_ne hspace]

/-- No address is recorded twice. -/
lemma Fits.disjoint (h : Fits ranges offset needs) :
    (expected ranges offset needs).Pairwise fun p q => ∀ x, p.Records x → ¬ q.Records x := by
  induction needs generalizing offset with
  | nil => exact List.Pairwise.nil
  | cons n needs ih =>
      refine List.pairwise_cons.mpr ⟨fun q hq x hp hq' => ?_, ih h.2.2⟩
      obtain ⟨hfree, hrange⟩ := h.2.2.records hq hq'
      have hspace : n.space = q.space := by
        obtain ⟨-, hrange'⟩ := h.records List.mem_cons_self hp
        exact ranges.disjoint _ _ x hrange'.1 hrange'.2 hrange.1 hrange.2
      rw [← hspace, Need.advance, Function.update_self] at hfree
      have hle := le_nextMultipleOf n.size pageSize
      have hstop := hp.2
      simp only at hstop
      omega

/-- Each BAR decodes what is recorded if and only if all of them are aligned. -/
lemma Fits.recorded_iff (h : Fits ranges offset needs) :
    (∀ p ∈ expected ranges offset needs, ∀ x, p.Decodes ranges x ↔ p.Records x) ↔
      Aligned ranges offset needs := by
  induction needs generalizing offset with
  | nil => exact ⟨fun _ => trivial, fun _ _ hp => by cases hp⟩
  | cons n needs ih =>
      obtain ⟨hpos, -, hfits⟩ := h
      rw [expected, List.forall_mem_cons, decodes_iff_records hpos rfl, Space.stored_eq_iff, ih hfits,
        Aligned]

end Layout

/-- The allocators of `initialize_all_pci`. -/
def newAllocators (ranges : PciRanges) (space : Space) : BumpAllocator :=
  ⟨0, (ranges.range space).length, 0⟩

/-- **BARs decode what is recorded for them if and only if they are aligned.**  After
`allocate_all_bars` has run on any devices, every BAR decodes exactly the addresses recorded for it,
in its bridge range and apart from those of the others, if and only if the pages of the BARs before it
in the same range end at a multiple of its size. -/
theorem allocateDevices_exact_iff {ranges : PciRanges} {devices : List Device}
    {placed : List Placement}
    (h : allocateDevices ranges devices (newAllocators ranges) = .ok placed) :
    Exact ranges placed ↔
      Aligned ranges (fun _ => 0) (devices.flatMap fun d => d.bars.filterMap Bar.need) := by
  have hready : Ready ranges (fun _ => 0) (newAllocators ranges) := fun space => ⟨rfl, rfl⟩
  obtain ⟨rfl, hfits⟩ := hready.allocateDevices h
  rw [← hfits.recorded_iff]
  refine ⟨fun hexact => hexact.recorded, fun hrecorded => ⟨hrecorded, ?_, ?_⟩⟩
  · intro p hp x hx
    exact (hfits.records hp ((hrecorded p hp x).mp hx)).2
  · refine hfits.disjoint.imp_of_mem fun hp hq hdisjoint x hx hx' => ?_
    exact hdisjoint x ((hrecorded _ hp x).mp hx) ((hrecorded _ hq x).mp hx')

/-- The bridge of a virtual machine. -/
def virtBridge : PciRanges where
  range
    | .io => ⟨0x3000000, 0, 0x10000⟩
    | .mem32 => ⟨0x40000000, 0x40000000, 0x40000000⟩
    | .mem64 => ⟨0x400000000, 0x400000000, 0x400000000⟩
  disjoint := by
    intro a b x
    cases a <;> cases b <;> first | exact fun _ _ _ _ => rfl | (simp only; omega)

/-- A virtio device: one page of 32 bits, four prefetchable ones of 64 bits. -/
def virtioDevice : Device :=
  ⟨[.absent, .mem32 12 0 false (by decide), .absent, .absent,
    .mem64 14 0 0 true (by decide)], by decide⟩

/-- Two such devices. -/
theorem allocateDevices_exact_virtio :
    Exact virtBridge
      [⟨.mem32, 0x40000000, 0x1000, ⟨0x40000000, 0x1000⟩⟩,
        ⟨.mem64, 0x400000000, 0x4000, ⟨0x400000000, 0x4000⟩⟩,
        ⟨.mem32, 0x40001000, 0x1000, ⟨0x40001000, 0x1000⟩⟩,
        ⟨.mem64, 0x400004000, 0x4000, ⟨0x400004000, 0x4000⟩⟩] := by
  have hplaced : allocateDevices virtBridge [virtioDevice, virtioDevice]
    (newAllocators virtBridge) = .ok _ := rfl
  exact (allocateDevices_exact_iff hplaced).mpr (by decide)

/-- A device with one page, and two more. -/
def unevenDevice : Device :=
  ⟨[.mem32 12 0 false (by decide), .mem32 13 0 false (by decide), .absent, .absent, .absent,
    .absent], by decide⟩

/-- The second BAR decodes the addresses of the first one. -/
theorem not_allocateDevices_exact :
    allocateDevices virtBridge [unevenDevice] (newAllocators virtBridge) =
      .ok [⟨.mem32, 0x40000000, 0x1000, ⟨0x40000000, 0x1000⟩⟩,
        ⟨.mem32, 0x40000000, 0x2000, ⟨0x40001000, 0x2000⟩⟩] ∧
    ¬ Exact virtBridge [⟨.mem32, 0x40000000, 0x1000, ⟨0x40000000, 0x1000⟩⟩,
        ⟨.mem32, 0x40000000, 0x2000, ⟨0x40001000, 0x2000⟩⟩] := by
  refine ⟨rfl, fun h => ?_⟩
  have hdisjoint := (List.pairwise_cons.mp h.disjoint).1 _ (List.mem_singleton_self _) 0x40000000
  exact hdisjoint (by constructor <;> decide) (by constructor <;> decide)

end Deravel
