import DeravelOs.Lib.Canonical
import DeravelOs.Memory.Space

/-!
# The direct mapping

`phys_to_virt` and `virt_to_phys` of `kernel/src/page.rs`, with `util/address.rs`.  All of physical
memory is mapped into the upper half of the virtual addresses, which the hardware wants in canonical
form: with bit 38 copied to the bits above.  `sign_extend` gets the copies from a subtraction that
carries, and underflows where bit 38 is clear.

* `Address`: addresses and ranges of addresses, on which the two functions act alike.
* `Address.physToVirt`, `Address.virtToPhys`: the two functions, with `signExtend` and `signUnextend`.
* `physToVirt_eq_ok`, `virtToPhys_direct`: between physical addresses and the canonical addresses of
  the direct mapping, they add and take away the same number.
* `directMapping_bijection`: they are inverse to each other and keep order, offsets and ranges.
-/

namespace Deravel

/-! ## The functions of the source -/

/-- `Address`: what consists of addresses.  The closure may panic. -/
class Address (α : Type) where
  deepMapAddr : α → (ℕ → Checked ℕ) → Checked α

/-- A `usize`, or a pointer. -/
instance : Address ℕ where
  deepMapAddr addr f := f addr

instance : Address AddressRange where
  deepMapAddr range f := do
    let start ← f range.start
    let stop ← f range.stop
    pure ⟨start, stop⟩

/-- `!` of a `usize` -/
def usizeNot (a : ℕ) : ℕ := usizeRange - 1 - a

/-- `sign_extend` -/
def signExtend (addr : ℕ) : Checked ℕ := do
  let carry ← usizeSub .signExtend ((addr &&& virtualAddresses.stop >>> 1) <<< 1) 1
  pure (usizeNot carry ||| addr)

/-- `sign_unextend` -/
def signUnextend (addr : ℕ) : ℕ := addr &&& (virtualAddresses.stop - 1)

namespace Address

variable {α : Type} [Address α]

/-- `phys_to_virt` -/
def physToVirt (phys : α) : Checked α :=
  deepMapAddr phys fun phys => do
    ensure (phys < physicalAddresses.stop) (.assertion .physToVirt)
    let addr ← usizeAdd .physToVirt phys directMapping.start
    signExtend addr

/-- `virt_to_phys` -/
def virtToPhys (virt : α) : Checked α :=
  deepMapAddr virt fun virt => do
    ensure (directMapping.start ≤ virt) (.assertion .virtToPhys)
    let virt := signUnextend virt
    ensure (directMapping.start ≤ virt ∧ virt < directMapping.stop) (.assertion .virtToPhys)
    usizeSub .virtToPhys virt directMapping.start

end Address

/-! ## Canonical addresses -/

/-- The canonical form of a virtual address. -/
def sv39 (addr : ℕ) : ℕ := Canonical.extend 39 64 addr

/-- A canonical address of the direct mapping. -/
def DirectAddress (virt : ℕ) : Prop := ∃ addr ∈ directMapping.addresses, virt = sv39 addr

/-- The number between a physical address and its canonical address. -/
def directOffset : ℕ := usizeRange - physicalAddresses.stop

section Constants

lemma virtualAddresses_half : virtualAddresses.stop >>> 1 = 2 ^ 38 := rfl

lemma directMapping_start : directMapping.start = 2 ^ 38 := rfl

lemma directMapping_stop : directMapping.stop = 2 ^ 39 := rfl

lemma physicalAddresses_stop : physicalAddresses.stop = 2 ^ 38 := rfl

lemma directOffset_eq : directOffset = 2 ^ 64 - 2 ^ 39 + 2 ^ 38 := rfl

end Constants

variable {addr phys virt : ℕ} {range : AddressRange}

lemma sv39_direct (h : addr ∈ directMapping.addresses) : sv39 addr = 2 ^ 64 - 2 ^ 39 + addr :=
  Canonical.extend_upper (by norm_num) h.1 h.2

/-- The canonical addresses are the last ones that there are. -/
lemma directAddress_iff : DirectAddress virt ↔ directOffset ≤ virt ∧ virt < usizeRange := by
  rw [directOffset_eq, usizeRange]
  constructor
  · rintro ⟨addr, haddr, rfl⟩
    rw [sv39_direct haddr]
    obtain ⟨hstart, hstop⟩ := haddr
    rw [directMapping_start] at hstart
    rw [directMapping_stop] at hstop
    omega
  · rintro ⟨hle, hlt⟩
    have haddr : virt - (2 ^ 64 - 2 ^ 39) ∈ directMapping.addresses := by
      rw [AddressRange.mem_addresses, directMapping_start, directMapping_stop]
      omega
    refine ⟨_, haddr, ?_⟩
    rw [sv39_direct haddr]
    omega

/-- **The carry makes the canonical form**, where bit 38 is set. -/
lemma signExtend_direct (h : addr ∈ directMapping.addresses) : signExtend addr = .ok (sv39 addr) := by
  have hhigh : addr &&& 2 ^ 38 = 2 ^ 38 := Canonical.and_highest h.1 h.2
  have hshift : (2 ^ 38 : ℕ) <<< 1 = 2 ^ 39 := rfl
  rw [signExtend, virtualAddresses_half, hhigh, hshift, usizeSub_of_le (by norm_num),
    Checked.ok_bind, sv39_direct h]
  exact congrArg Except.ok (Canonical.carry_or (by norm_num) h.2)

lemma signUnextend_eq (addr : ℕ) : signUnextend addr = addr % 2 ^ 39 :=
  Nat.and_two_pow_sub_one_eq_mod addr 39

/-! ## Addresses -/

lemma deepMapAddr_nat (addr : ℕ) (f : ℕ → Checked ℕ) : Address.deepMapAddr addr f = f addr := rfl

/-- `phys_to_virt` of an address adds a number to it. -/
lemma physToVirt_eq_ok :
    Address.physToVirt phys = .ok virt ↔
      phys < physicalAddresses.stop ∧ virt = phys + directOffset := by
  rw [Address.physToVirt, deepMapAddr_nat]
  by_cases hphys : phys < physicalAddresses.stop
  · have hlt : phys < 2 ^ 38 := hphys
    have haddr : phys + directMapping.start ∈ directMapping.addresses := by
      rw [AddressRange.mem_addresses, directMapping_start, directMapping_stop]
      omega
    have hsum : phys + directMapping.start < usizeRange := by
      rw [directMapping_start, usizeRange]
      omega
    rw [ensure_pos hphys, Checked.ok_bind, usizeAdd_of_lt hsum, Checked.ok_bind,
      signExtend_direct haddr, sv39_direct haddr, directMapping_start, Except.ok.injEq,
      directOffset_eq]
    constructor
    · intro h
      exact ⟨hphys, by omega⟩
    · rintro ⟨-, h⟩
      omega
  · rw [ensure_neg hphys, Checked.error_bind]
    simp [hphys]

/-- `virt_to_phys` of a canonical address takes it away again. -/
lemma virtToPhys_direct (h : DirectAddress virt) :
    Address.virtToPhys virt = .ok (virt - directOffset) := by
  obtain ⟨addr, haddr, rfl⟩ := h
  have hunextend : signUnextend (sv39 addr) = addr := by
    rw [signUnextend_eq, sv39_direct haddr]
    exact Canonical.extend_mod (by norm_num) haddr.2
  have hin : directMapping.start ≤ addr ∧ addr < directMapping.stop := haddr
  have hhigh : directMapping.start ≤ sv39 addr := by
    rw [sv39_direct haddr]
    exact hin.1.trans (Nat.le_add_left _ _)
  rw [Address.virtToPhys, deepMapAddr_nat, ensure_pos hhigh, Checked.ok_bind]
  simp only [hunextend]
  rw [ensure_pos hin, Checked.ok_bind, usizeSub_of_le hin.1, sv39_direct haddr, directOffset_eq,
    directMapping_start]
  rw [directMapping_start] at hin
  exact congrArg Except.ok (by omega)

/-! ## Ranges -/

/-- A range is mapped by its endpoints. -/
lemma deepMapAddr_range {f : ℕ → Checked ℕ} {range' : AddressRange} :
    Address.deepMapAddr range f = .ok range' ↔
      f range.start = .ok range'.start ∧ f range.stop = .ok range'.stop := by
  constructor
  · intro h
    obtain ⟨start, hstart, h⟩ := Checked.bind_eq_ok.mp h
    obtain ⟨stop, hstop, h⟩ := Checked.bind_eq_ok.mp h
    cases h
    exact ⟨hstart, hstop⟩
  · rintro ⟨hstart, hstop⟩
    simp [Address.deepMapAddr, hstart, hstop, pure, Except.pure]

lemma physToVirt_range {range' : AddressRange} :
    Address.physToVirt range = .ok range' ↔
      Address.physToVirt range.start = .ok range'.start ∧
        Address.physToVirt range.stop = .ok range'.stop := deepMapAddr_range

lemma virtToPhys_range {range' : AddressRange} :
    Address.virtToPhys range = .ok range' ↔
      Address.virtToPhys range.start = .ok range'.start ∧
        Address.virtToPhys range.stop = .ok range'.stop := deepMapAddr_range

/-- A function keeps order and offsets on some addresses. -/
def KeepsOffsets (f : ℕ → Checked ℕ) (addresses : Set ℕ) : Prop :=
  ∀ a ∈ addresses, ∀ b ∈ addresses, ∀ x y, f a = .ok x → f b = .ok y →
    (x ≤ y ↔ a ≤ b) ∧ (y : ℤ) - x = b - a

/-- What is mapped by its endpoints is mapped address by address: the result has the images of the
range's addresses and nothing else. -/
def MapsRanges (f : ℕ → Checked ℕ) (onRange : AddressRange → Checked AddressRange)
    (addresses : Set ℕ) : Prop :=
  ∀ range, range.start ∈ addresses → range.stop ∈ addresses →
    ∃ range', onRange range = .ok range' ∧
      ∀ x, x ∈ range'.addresses ↔ ∃ a ∈ range.addresses, f a = .ok x

lemma physToVirt_keepsOffsets : KeepsOffsets Address.physToVirt physicalAddresses.addresses := by
  intro a _ b _ x y hx hy
  obtain ⟨-, rfl⟩ := physToVirt_eq_ok.mp hx
  obtain ⟨-, rfl⟩ := physToVirt_eq_ok.mp hy
  omega

lemma virtToPhys_keepsOffsets : KeepsOffsets Address.virtToPhys {virt | DirectAddress virt} := by
  intro a ha b hb x y hx hy
  rw [virtToPhys_direct ha] at hx
  rw [virtToPhys_direct hb] at hy
  have hle := (directAddress_iff.mp ha).1
  have hle' := (directAddress_iff.mp hb).1
  obtain rfl := Except.ok.inj hx
  obtain rfl := Except.ok.inj hy
  omega

lemma physToVirt_mapsRanges :
    MapsRanges Address.physToVirt Address.physToVirt physicalAddresses.addresses := by
  intro range hstart hstop
  have hstart' := physToVirt_eq_ok.mpr ⟨hstart.2, rfl⟩
  have hstop' := physToVirt_eq_ok.mpr ⟨hstop.2, rfl⟩
  refine ⟨⟨_, _⟩, physToVirt_range.mpr ⟨hstart', hstop'⟩, fun virt => ?_⟩
  show range.start + directOffset ≤ virt ∧ virt < range.stop + directOffset ↔ _
  constructor
  · rintro ⟨hle, hlt⟩
    have hphys : virt - directOffset < range.stop := by omega
    refine ⟨virt - directOffset, ⟨by omega, hphys⟩, ?_⟩
    exact physToVirt_eq_ok.mpr ⟨hphys.trans hstop.2, by omega⟩
  · rintro ⟨phys, ⟨hle, hlt⟩, hvirt⟩
    obtain ⟨-, rfl⟩ := physToVirt_eq_ok.mp hvirt
    omega

lemma virtToPhys_mapsRanges :
    MapsRanges Address.virtToPhys Address.virtToPhys {virt | DirectAddress virt} := by
  intro range hstart hstop
  refine ⟨⟨_, _⟩, virtToPhys_range.mpr ⟨virtToPhys_direct hstart, virtToPhys_direct hstop⟩,
    fun phys => ?_⟩
  have hbounds := directAddress_iff.mp hstart
  have hbounds' := directAddress_iff.mp hstop
  have hdirect : ∀ {virt}, virt ∈ range.addresses → DirectAddress virt := fun hvirt =>
    directAddress_iff.mpr ⟨hbounds.1.trans hvirt.1, hvirt.2.trans hbounds'.2⟩
  show range.start - directOffset ≤ phys ∧ phys < range.stop - directOffset ↔ _
  constructor
  · rintro ⟨hle, hlt⟩
    have hvirt : phys + directOffset ∈ range.addresses := by
      rw [AddressRange.mem_addresses]
      omega
    refine ⟨_, hvirt, ?_⟩
    rw [virtToPhys_direct (hdirect hvirt), Nat.add_sub_cancel]
  · rintro ⟨virt, hvirt, hphys⟩
    rw [virtToPhys_direct (hdirect hvirt)] at hphys
    obtain ⟨hle, hlt⟩ := hvirt
    obtain rfl := Except.ok.inj hphys
    omega

/-- **Address translation is a bijection onto the canonical addresses of the direct mapping.**  Every
physical address has the canonical form of its place in the direct mapping, every canonical address of
the direct mapping has a physical address, one function undoes the other, and both keep order, offsets
and ranges; a range of which an endpoint is not a physical address is not mapped at all. -/
theorem directMapping_bijection :
    (∀ phys < physicalAddresses.stop,
      Address.physToVirt phys = .ok (sv39 (directMapping.start + phys)) ∧
        Address.virtToPhys (sv39 (directMapping.start + phys)) = .ok phys) ∧
    (∀ virt, DirectAddress virt → ∃ phys < physicalAddresses.stop,
      Address.virtToPhys virt = .ok phys ∧ Address.physToVirt phys = .ok virt) ∧
    KeepsOffsets Address.physToVirt physicalAddresses.addresses ∧
    KeepsOffsets Address.virtToPhys {virt | DirectAddress virt} ∧
    MapsRanges Address.physToVirt Address.physToVirt physicalAddresses.addresses ∧
    MapsRanges Address.virtToPhys Address.virtToPhys {virt | DirectAddress virt} ∧
    ∀ range : AddressRange, (∃ range', Address.physToVirt range = .ok range') ↔
      range.start < physicalAddresses.stop ∧ range.stop < physicalAddresses.stop := by
  refine ⟨fun phys hphys => ?_, fun virt hvirt => ?_, physToVirt_keepsOffsets,
    virtToPhys_keepsOffsets, physToVirt_mapsRanges, virtToPhys_mapsRanges, fun range => ?_⟩
  · have haddr : directMapping.start + phys ∈ directMapping.addresses := by
      rw [AddressRange.mem_addresses, directMapping_start, directMapping_stop]
      rw [physicalAddresses_stop] at hphys
      omega
    have hvirt : sv39 (directMapping.start + phys) = phys + directOffset := by
      rw [sv39_direct haddr, directMapping_start, directOffset_eq]
      omega
    refine ⟨physToVirt_eq_ok.mpr ⟨hphys, hvirt⟩, ?_⟩
    rw [virtToPhys_direct ⟨_, haddr, rfl⟩, hvirt, Nat.add_sub_cancel]
  · obtain ⟨hle, hlt⟩ := directAddress_iff.mp hvirt
    have hphys : virt - directOffset < physicalAddresses.stop := by
      rw [directOffset_eq] at hle ⊢
      rw [usizeRange] at hlt
      rw [physicalAddresses_stop]
      omega
    exact ⟨_, hphys, virtToPhys_direct hvirt, physToVirt_eq_ok.mpr ⟨hphys, by omega⟩⟩
  · constructor
    · rintro ⟨range', h⟩
      obtain ⟨hstart, hstop⟩ := physToVirt_range.mp h
      exact ⟨(physToVirt_eq_ok.mp hstart).1, (physToVirt_eq_ok.mp hstop).1⟩
    · rintro ⟨hstart, hstop⟩
      exact ⟨⟨_, _⟩, physToVirt_range.mpr
        ⟨physToVirt_eq_ok.mpr ⟨hstart, rfl⟩, physToVirt_eq_ok.mpr ⟨hstop, rfl⟩⟩⟩

/-! ## The page table -/

end Deravel
