import DeravelOs.Types.Actor

/-!
# Capabilities and certificates

`types/src/capability/raw.rs`, `certificate.rs` and `pages.rs`.  A capability is the address of a
certificate slot in the capability pages.  The page of a slot says who certifies it, the
certificate in the slot says to whom it was granted or forwarded.

`AtomicU64` slots hold the two halves of a `CapabilityCertificateValue`, so a slot's content is
that value here, and `load` and `store` are plain reads and writes.
-/

namespace Deravel

/-- `CAPABILITIES_PER_PAGE`; a certificate takes eight bytes. -/
def capabilitiesPerPage : ℕ := pageSize / 8

instance : NeZero capabilitiesPerPage := ⟨by decide⟩

/-- `is_ptr_valid` -/
def isPtrValid (ptr : ℕ) : Prop :=
  (userCapabilities.start ≤ ptr ∧ ptr < userCapabilities.stop) ∧ ptr % 8 = 0

instance (ptr : ℕ) : Decidable (isPtrValid ptr) :=
  inferInstanceAs (Decidable (_ ∧ _))

/-- `RawCapability`: an address of a certificate slot. -/
structure RawCapability where
  asUsize : ℕ
  valid : isPtrValid asUsize
  deriving DecidableEq, Repr

/-- `InvalidCapabilityError` -/
inductive InvalidCapabilityError
  | mk
  deriving DecidableEq, Repr

namespace RawCapability

@[ext] lemma ext {c d : RawCapability} (h : c.asUsize = d.asUsize) : c = d := by
  cases c
  cases d
  cases h
  rfl

/-- `RawCapability::try_from` -/
def tryFrom (ptr : ℕ) : Except InvalidCapabilityError RawCapability :=
  if h : isPtrValid ptr then .ok ⟨ptr, h⟩ else .error .mk

@[simp] lemma tryFrom_asUsize (c : RawCapability) : tryFrom c.asUsize = .ok c :=
  dif_pos c.valid

/-- `certifier` -/
def certifier (c : RawCapability) : Checked Actor := do
  let offset ← usizeSub .certifier c.asUsize userCapabilities.start
  let pageIndex := offset / pageSize
  if pageIndex = 0 then
    pure .kernel
  else do
    let pid ← ProcessId.new (.ofNat pageIndex)
    pure (.userspace pid)

/-- `local_index`; it is always in bounds of a page. -/
def localIndex (c : RawCapability) : Fin capabilitiesPerPage :=
  ⟨c.asUsize % pageSize / 8, by
    have := Nat.mod_lt c.asUsize (show 0 < 4096 by norm_num)
    simp only [capabilitiesPerPage, pageSize]
    omega⟩

lemma localIndex_val (c : RawCapability) : (c.localIndex : ℕ) = c.asUsize % 4096 / 8 := rfl

/-- The slot `index` of the page of `actor`. -/
def slot (actor : Actor) (index : Fin capabilitiesPerPage) : RawCapability where
  asUsize := userCapabilities.start + actor.pageIndex * pageSize + index * 8
  valid := by
    have hp := actor.pageIndex_le
    have hi := index.isLt
    simp only [maxProcesses, capabilitiesPerPage, pageSize] at hp hi
    simp only [isPtrValid, userCapabilities, pageSize]
    omega

/-- `RawCapability::new` -/
def new (actor : Actor) (localIndex : ℕ) : Checked RawCapability :=
  if h : localIndex < capabilitiesPerPage then
    pure (slot actor ⟨localIndex, h⟩)
  else
    throw (.assertion .rawCapabilityNew)

lemma asUsize_slot (actor : Actor) (index : Fin capabilitiesPerPage) :
    (slot actor index).asUsize = 0x2000000 + actor.pageIndex * 4096 + index * 8 := rfl

/-- The offset of a capability into the capability pages. -/
lemma exists_offset (c : RawCapability) : ∃ offset < 0x2000000, 8 ∣ offset ∧
    c.asUsize = 0x2000000 + offset ∧
    usizeSub .certifier c.asUsize userCapabilities.start = .ok offset := by
  have hvalid : (0x2000000 ≤ c.asUsize ∧ c.asUsize < 0x4000000) ∧ c.asUsize % 8 = 0 := c.valid
  exact ⟨c.asUsize - 0x2000000, by omega, by omega, by omega, usizeSub_of_le hvalid.1.1⟩

/-- A slot is certified by the owner of its page. -/
@[simp] lemma certifier_slot (actor : Actor) (index : Fin capabilitiesPerPage) :
    (slot actor index).certifier = .ok actor := by
  have hi : index.val < 512 := index.isLt
  obtain ⟨offset, -, -, hoffset, hsub⟩ := exists_offset (slot actor index)
  rw [asUsize_slot] at hoffset
  have hpage : offset / pageSize = actor.pageIndex := by
    rw [pageSize]
    omega
  rw [certifier, hsub, Checked.ok_bind]
  simp only [hpage]
  cases actor with
  | userspace pid =>
      rw [Actor.pageIndex_userspace, if_neg (Nat.pos_iff_ne_zero.mp pid.pos),
        ProcessId.new_asU16]
      rfl
  | kernel => rfl

@[simp] lemma localIndex_slot (actor : Actor) (index : Fin capabilitiesPerPage) :
    (slot actor index).localIndex = index := by
  have hi : index.val < 512 := index.isLt
  refine Fin.ext ?_
  rw [localIndex_val, asUsize_slot]
  omega

/-- The page of a capability that has a certifier. -/
lemma page_of_certifier {c : RawCapability} {actor : Actor} (h : c.certifier = .ok actor) :
    ∃ offset, c.asUsize = 0x2000000 + offset ∧ offset / 4096 = actor.pageIndex := by
  obtain ⟨offset, hlt, -, heq, hsub⟩ := exists_offset c
  refine ⟨offset, heq, ?_⟩
  rw [certifier, hsub, Checked.ok_bind] at h
  by_cases hzero : offset / 4096 = 0
  · replace h : (pure .kernel : Checked Actor) = .ok actor := (if_pos hzero).symm.trans h
    cases h
    exact hzero
  · replace h := (if_neg hzero).symm.trans h
    obtain ⟨pid, hnew, hpid⟩ := Checked.bind_eq_ok.mp h
    cases hpid
    have hval : pid.asU16 = offset / 4096 :=
      (ProcessId.asU16_of_new hnew).trans (UInt16.toNat_ofNat_of_lt (by
        have : offset / 4096 < 8192 := by omega
        exact lt_trans this (by decide)))
    exact hval.symm

/-- A capability whose page has an owner is a slot of that owner's page. -/
lemma eq_slot {c : RawCapability} {actor : Actor} (h : c.certifier = .ok actor) :
    c = slot actor c.localIndex := by
  obtain ⟨offset, heq, hpage⟩ := page_of_certifier h
  have haligned : c.asUsize % 8 = 0 := c.valid.2
  refine RawCapability.ext ?_
  rw [asUsize_slot, localIndex_val, ← hpage]
  omega

end RawCapability

/-! ## Certificates -/

/-- `CapabilityCertificateValue` -/
structure CapabilityCertificateValue where
  grantee : UInt32
  payload : UInt32
  deriving DecidableEq, Repr

/-- `CapabilityCertificateUnpacked` -/
inductive CapabilityCertificateUnpacked
  | granted (grantee : Actor)
  | forwarded (forwardee : Actor) (inner : RawCapability)
  deriving DecidableEq, Repr

/-- To whom a certificate was given. -/
def CapabilityCertificateUnpacked.recipient : CapabilityCertificateUnpacked → Actor
  | .granted grantee => grantee
  | .forwarded forwardee _ => forwardee

namespace CapabilityCertificateValue

/-- `granted` -/
def granted (grantee : Actor) : CapabilityCertificateValue where
  grantee := .ofNat grantee.pageIndex
  payload := 0

/-- `forwarded` -/
def forwarded (forwardee : Actor) (capability : RawCapability) : CapabilityCertificateValue where
  grantee := .ofNat forwardee.pageIndex
  payload := .ofNat capability.asUsize

/-- The recipient that `unpack` reads from the `grantee` half. -/
def unpackRecipient (grantee : UInt32) : Checked Actor :=
  if grantee = 0 then
    pure .kernel
  else do
    let pid ← ProcessId.new grantee.toUInt16
    pure (.userspace pid)

/-- `unpack` -/
def unpack (v : CapabilityCertificateValue) : Checked CapabilityCertificateUnpacked := do
  let recipient ← unpackRecipient v.grantee
  if v.payload = 0 then
    pure (.granted recipient)
  else
    match RawCapability.tryFrom v.payload.toNat with
    | .ok inner => pure (.forwarded recipient inner)
    | .error _ => throw (.unwrap .certificateUnpack)

/-- `replace_recipient` -/
def replaceRecipient (v : CapabilityCertificateValue) (recipient : Actor) :
    Checked CapabilityCertificateValue := do
  match ← v.unpack with
  | .granted _ => pure (granted recipient)
  | .forwarded _ inner => pure (forwarded recipient inner)

/-- A recipient is read back from the number it is stored as. -/
@[simp] lemma unpackRecipient_pageIndex (actor : Actor) :
    unpackRecipient (.ofNat actor.pageIndex) = .ok actor := by
  cases actor with
  | userspace pid =>
      have hlt : pid.asU16 < 2 ^ 32 := lt_of_le_of_lt pid.le_max (by decide)
      have hne : UInt32.ofNat pid.asU16 ≠ 0 := by
        intro h
        have hval : (UInt32.ofNat pid.asU16).toNat = pid.asU16 := UInt32.toNat_ofNat_of_lt hlt
        rw [h] at hval
        exact Nat.pos_iff_ne_zero.mp pid.pos hval.symm
      have hcast : (UInt32.ofNat pid.asU16).toUInt16 = UInt16.ofNat pid.asU16 := by simp
      rw [unpackRecipient, Actor.pageIndex, if_neg hne, hcast, ProcessId.new_asU16]
      rfl
  | kernel => rfl

@[simp] lemma unpack_granted (grantee : Actor) :
    (granted grantee).unpack = .ok (.granted grantee) := by
  rw [unpack, granted, unpackRecipient_pageIndex, Checked.ok_bind]
  rfl

@[simp] lemma unpack_forwarded (forwardee : Actor) (c : RawCapability) :
    (forwarded forwardee c).unpack = .ok (.forwarded forwardee c) := by
  have hvalid := c.valid
  simp only [isPtrValid, userCapabilities] at hvalid
  have hval : (UInt32.ofNat c.asUsize).toNat = c.asUsize :=
    UInt32.toNat_ofNat_of_lt (lt_trans hvalid.1.2 (by decide))
  have hne : UInt32.ofNat c.asUsize ≠ 0 := by
    intro h
    have := congrArg UInt32.toNat h
    rw [hval] at this
    simp only [UInt32.toNat_zero] at this
    omega
  rw [unpack, forwarded, unpackRecipient_pageIndex, Checked.ok_bind, if_neg hne, hval,
    RawCapability.tryFrom_asUsize]
  rfl

end CapabilityCertificateValue

end Deravel
