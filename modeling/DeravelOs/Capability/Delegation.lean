import DeravelOs.Capability.Validate

/-!
# Handing capabilities on

When a process is spawned, the certificates of the arguments are rewritten in the page of the sender
so that they name the child, and the child's export is granted to the sender (`Handover`).

* `Handover.validates_export`: the sender holds the export.
* `Handover.validates_argument`: the child holds the arguments as the sender held what is behind
  them.
* `Handover.not_amplified`: nobody else holds more than before, but for the export.
-/

namespace Deravel

/-- The contents of the capability pages. -/
abbrev Certificates : Type := Actor → Fin capabilitiesPerPage → CapabilityCertificateValue

/-- Pages that can be read. -/
def Certificates.pages (certs : Certificates) : CapabilityPages := fun actor index =>
  .ok (certs actor index)

/-- `validate` accepts a capability for a process, with this root. -/
def Certificates.Validates (certs : Certificates) (c : RawCapability) (claimer : ProcessId)
    (r : RawCapability) : Prop :=
  ∃ fuel, RawCapability.validate certs.pages fuel c claimer = some (.ok (.ok r))

variable {certs certs' : Certificates} {sender child claimer : ProcessId} {actor : Actor}
  {args : List RawCapability} {c d r : RawCapability}

namespace RawCapability

variable {pages : CapabilityPages}

lemma readCertificate_pages {u : CapabilityCertificateUnpacked} :
    c.readCertificate certs.pages = .ok (actor, u) ↔
      c.certifier = .ok actor ∧ (certs actor c.localIndex).unpack = .ok u := by
  rw [readCertificate_eq_ok]
  refine and_congr_right fun _ => ⟨?_, fun h => ⟨_, rfl, h⟩⟩
  rintro ⟨v, hv, hunpack⟩
  cases hv
  exact hunpack

/-- What was granted to a process validates for it as it is. -/
lemma validates_granted (h : c.readCertificate pages = .ok (actor, .granted (.userspace claimer))) :
    (∃ fuel, validate pages fuel c claimer = some (.ok (.ok r))) ↔ r = c := by
  have hrun : validate pages 1 c claimer = some (.ok (.ok c)) :=
    Loop.run_done (validateTurn_eq_done_ok.mpr ⟨rfl, actor, h⟩)
  constructor
  · rintro ⟨fuel, hvalid⟩
    have hsame := Loop.ends_unique hvalid hrun
    simpa using hsame
  · rintro rfl
    exact ⟨1, hrun⟩

/-- What was forwarded to a process validates for it as the inner one does for its certifier. -/
lemma validates_forwarded
    (h : c.readCertificate pages = .ok (.userspace sender, .forwarded (.userspace claimer) d)) :
    (∃ fuel, validate pages fuel c claimer = some (.ok (.ok r))) ↔
      ∃ fuel, validate pages fuel d sender = some (.ok (.ok r)) := by
  rw [validate_eq_ok, validate_eq_ok]
  constructor
  · rintro ⟨n, cs, hchain⟩
    cases n with
    | zero =>
        obtain ⟨a, hgranted⟩ := hchain.granted
        have hforwarded : Certified pages (cs 0) (.forwarded (.userspace claimer) d) :=
          hchain.first ▸ ⟨_, h⟩
        cases hgranted.unique hforwarded
    | succ n =>
        obtain ⟨owner, hread, htail⟩ := hchain.tail
        rw [h] at hread
        obtain ⟨howner, hinner⟩ := Prod.mk.inj (Except.ok.inj hread)
        obtain ⟨-, hd⟩ := CapabilityCertificateUnpacked.forwarded.inj hinner
        subst howner
        exact ⟨n, _, hd ▸ htail⟩
  · rintro ⟨n, cs, hchain⟩
    exact ⟨n + 1, _, hchain.cons h⟩

end RawCapability

/-- What a handover does to certificates. -/
structure Handover (certs certs' : Certificates) (sender child : ProcessId)
    (args : List RawCapability) : Prop where
  own : ∀ c ∈ args, c.certifier = .ok (.userspace sender)
  replaced : ∀ c ∈ args,
    (certs (.userspace sender) c.localIndex).replaceRecipient (.userspace child) =
      .ok (certs' (.userspace sender) c.localIndex)
  exported : certs' (.userspace child) 0 = .granted (.userspace sender)
  same : ∀ actor index, ¬ (actor = .userspace child ∧ index = 0) →
    (∀ c ∈ args, c.certifier = .ok actor → c.localIndex ≠ index) →
      certs' actor index = certs actor index

lemma CapabilityCertificateValue.replaceRecipient_eq_ok {v v' : CapabilityCertificateValue}
    (h : v.replaceRecipient actor = .ok v') :
    (∃ a, v.unpack = .ok (.granted a) ∧ v'.unpack = .ok (.granted actor)) ∨
      ∃ a inner, v.unpack = .ok (.forwarded a inner) ∧
        v'.unpack = .ok (.forwarded actor inner) := by
  obtain ⟨u, hunpack, h⟩ := Checked.bind_eq_ok.mp h
  cases u with
  | granted a =>
      cases h
      exact Or.inl ⟨a, hunpack, unpack_granted actor⟩
  | forwarded a inner =>
      cases h
      exact Or.inr ⟨a, inner, hunpack, unpack_forwarded actor inner⟩

/-- A recipient that was replaced is replaced by itself. -/
lemma CapabilityCertificateValue.replaceRecipient_again {v v' : CapabilityCertificateValue}
    (h : v.replaceRecipient actor = .ok v') : v'.replaceRecipient actor = .ok v' := by
  obtain ⟨u, hunpack, h⟩ := Checked.bind_eq_ok.mp h
  cases u with
  | granted a =>
      cases h
      exact Checked.bind_eq_ok.mpr ⟨_, unpack_granted actor, rfl⟩
  | forwarded a inner =>
      cases h
      exact Checked.bind_eq_ok.mpr ⟨_, unpack_forwarded actor inner, rfl⟩

namespace Handover

variable (h : Handover certs certs' sender child args)

include h

/-- The export of the child is the sender's. -/
theorem validates_export :
    certs'.Validates (.slot (.userspace child) 0) sender (.slot (.userspace child) 0) := by
  refine (RawCapability.validates_granted (RawCapability.readCertificate_pages.mpr
    ⟨RawCapability.certifier_slot _ _, ?_⟩)).mpr rfl
  rw [RawCapability.localIndex_slot, h.exported, CapabilityCertificateValue.unpack_granted]

/-- **The child holds the arguments as the sender held what is behind them.** -/
theorem validates_argument (hc : c ∈ args) :
    certs'.Validates c child r ↔
      (∃ a, (certs (.userspace sender) c.localIndex).unpack = .ok (.granted a) ∧ r = c) ∨
        ∃ a inner, (certs (.userspace sender) c.localIndex).unpack = .ok (.forwarded a inner) ∧
          certs'.Validates inner sender r := by
  have hread : ∀ {u}, (certs' (.userspace sender) c.localIndex).unpack = .ok u →
      c.readCertificate certs'.pages = .ok (.userspace sender, u) := fun hunpack =>
    RawCapability.readCertificate_pages.mpr ⟨h.own c hc, hunpack⟩
  rcases CapabilityCertificateValue.replaceRecipient_eq_ok (h.replaced c hc) with
    ⟨a, hbefore, hafter⟩ | ⟨a, inner, hbefore, hafter⟩
  · rw [Certificates.Validates, RawCapability.validates_granted (hread hafter), hbefore]
    simp
  · rw [Certificates.Validates, RawCapability.validates_forwarded (hread hafter), hbefore]
    simp [Certificates.Validates]

/-- A certificate that names somebody else than the child is an old one, or that of the export. -/
lemma read_before {u : CapabilityCertificateUnpacked} {owner : Actor}
    (hread : c.readCertificate certs'.pages = .ok (owner, u)) (hu : u.recipient ≠ .userspace child) :
    c.readCertificate certs.pages = .ok (owner, u) ∨
      c = .slot (.userspace child) 0 ∧ u = .granted (.userspace sender) := by
  obtain ⟨howner, hunpack⟩ := RawCapability.readCertificate_pages.mp hread
  by_cases hexport : owner = .userspace child ∧ c.localIndex = 0
  · refine Or.inr ⟨?_, ?_⟩
    · rw [RawCapability.eq_slot howner, hexport.1, hexport.2]
    · rw [hexport.1, hexport.2, h.exported, CapabilityCertificateValue.unpack_granted] at hunpack
      exact (Except.ok.inj hunpack).symm
  · left
    rw [RawCapability.readCertificate_pages]
    refine ⟨howner, ?_⟩
    rw [← h.same owner c.localIndex hexport fun d hd hcertifier hindex => hu ?_]
    · exact hunpack
    · -- the certificates of the arguments name the child
      rw [h.own d hd] at hcertifier
      obtain rfl := Except.ok.inj hcertifier
      rw [← hindex] at hunpack
      rcases CapabilityCertificateValue.replaceRecipient_eq_ok (h.replaced d hd) with
        ⟨a, -, hafter⟩ | ⟨a, inner, -, hafter⟩
      · rw [hafter] at hunpack
        cases hunpack
        rfl
      · rw [hafter] at hunpack
        cases hunpack
        rfl

/-- A chain of somebody else than the child does not meet the rewritten certificates. -/
lemma chain_before (hzero : ∀ index, certs (.userspace child) index = .granted .kernel) {n : ℕ}
    {cs : ℕ → RawCapability} (hchain : RawCapability.DelegationChain certs'.pages actor c r n cs)
    (hactor : actor ≠ .userspace child) :
    r = .slot (.userspace child) 0 ∨
      ∃ cs', RawCapability.DelegationChain certs.pages actor c r n cs' := by
  induction n generalizing actor c cs with
  | zero =>
      obtain ⟨a, owner, hread⟩ := hchain.granted
      have ha : a = actor := hchain.received.recipient_eq ⟨owner, hread⟩
      subst ha
      have hc : c = r := hchain.first.symm.trans hchain.last
      rw [hchain.last] at hread
      rcases h.read_before hread hactor with hbefore | ⟨hexport, -⟩
      · subst hc
        exact Or.inr ⟨_, .single hbefore⟩
      · exact Or.inl hexport
  | succ n ih =>
      obtain ⟨owner, hread, htail⟩ := hchain.tail
      rcases h.read_before hread hactor with hbefore | ⟨-, hgranted⟩
      · have howner : owner ≠ .userspace child := by
          -- the child has forwarded nothing
          rintro rfl
          obtain ⟨-, hunpack⟩ := RawCapability.readCertificate_pages.mp hbefore
          rw [hzero, CapabilityCertificateValue.unpack_granted] at hunpack
          cases hunpack
        rcases ih htail howner with hexport | ⟨cs', hchain'⟩
        · exact Or.inl hexport
        · exact Or.inr ⟨_, hchain'.cons hbefore⟩
      · cases hgranted

/-- **Nobody else holds more than before**, but for the export of the child. -/
theorem not_amplified (hzero : ∀ index, certs (.userspace child) index = .granted .kernel)
    (hclaimer : claimer ≠ child) (hvalid : certs'.Validates c claimer r) :
    r = .slot (.userspace child) 0 ∨ certs.Validates c claimer r := by
  obtain ⟨n, cs, hchain⟩ := RawCapability.validate_eq_ok.mp hvalid
  have hactor : Actor.userspace claimer ≠ .userspace child := by
    intro heq
    exact hclaimer (Actor.userspace.inj heq)
  refine (h.chain_before hzero hchain hactor).imp_right fun ⟨cs', hchain'⟩ => ?_
  exact RawCapability.validate_eq_ok.mpr ⟨n, cs', hchain'⟩

end Handover

end Deravel
