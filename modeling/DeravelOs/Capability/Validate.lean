import DeravelOs.Lib.Loop
import DeravelOs.Capability.Certificate

/-!
# Validation of capabilities

`RawCapability::validate` and the formatting of `CapabilityError` (`types/src/capability/raw.rs`).
Both walk from a capability to the one it was forwarded from, with the certifier of the last one as
the next claimer.  The pages that they read belong to processes, so nothing is assumed about their
contents: the walk can end in a panic, and it can go on forever.

* `DelegationChain`: what it means that a claimer holds a capability through others.
* `RawCapability.validate_iff_delegationChain`: `validate` decides it.
-/

namespace Deravel

/-- What the reads of the capability pages at `USER_CAPABILITIES` give: the content of a slot, or
a trap when the page cannot be read. -/
abbrev CapabilityPages : Type :=
  Actor → Fin capabilitiesPerPage → Checked CapabilityCertificateValue

/-- `CapabilityError` -/
structure CapabilityError where
  capability : RawCapability
  claimer : ProcessId
  deriving DecidableEq, Repr

/-- How the text of a `CapabilityError` ends: " but it was granted to .." or " but it was forwarded
to ..". -/
inductive Refusal
  | granted (grantee : Actor)
  | forwarded (forwardee : Actor)
  deriving DecidableEq, Repr

/-- The text of a `CapabilityError`: who claimed what, each " forwarded by .. from ..", and the
end. -/
structure CapabilityErrorText where
  error : CapabilityError
  hops : List (Actor × RawCapability)
  refusal : Refusal
  deriving DecidableEq, Repr

namespace RawCapability

variable {pages : CapabilityPages} {c d r : RawCapability} {claimer owner : Actor}

/-- The certifier of a capability and its certificate, as the two loops read them. -/
def readCertificate (pages : CapabilityPages) (capability : RawCapability) :
    Checked (Actor × CapabilityCertificateUnpacked) := do
  let certifier ← capability.certifier
  let certificate ← pages certifier capability.localIndex
  let unpacked ← certificate.unpack
  pure (certifier, unpacked)

/-- One turn of the loop in `validate`; the state is `capability` and `claimer`. -/
def validateTurn (pages : CapabilityPages) (self : RawCapability) (origClaimer : ProcessId) :
    RawCapability × Actor →
      Loop.Turn (RawCapability × Actor) (Checked (Except CapabilityError RawCapability))
  | (capability, claimer) =>
      match capability.readCertificate pages with
      | .error panic => .done (.error panic)
      | .ok (_, .granted grantee) =>
          if grantee = claimer then .done (.ok (.ok capability))
          else .done (.ok (.error ⟨self, origClaimer⟩))
      | .ok (certifier, .forwarded forwardee inner) =>
          if forwardee = claimer then .next (inner, certifier)
          else .done (.ok (.error ⟨self, origClaimer⟩))

/-- `validate`, for at most `fuel` turns of its loop. -/
def validate (pages : CapabilityPages) (fuel : ℕ) (self : RawCapability)
    (origClaimer : ProcessId) : Option (Checked (Except CapabilityError RawCapability)) :=
  Loop.run (validateTurn pages self origClaimer) fuel (self, .userspace origClaimer)

/-- One turn of the loop in `CapabilityError::fmt`. -/
def fmtTurn (pages : CapabilityPages) (error : CapabilityError) :
    RawCapability × Actor × List (Actor × RawCapability) →
      Loop.Turn (RawCapability × Actor × List (Actor × RawCapability))
        (Checked CapabilityErrorText)
  | (capability, claimer, hops) =>
      match capability.readCertificate pages with
      | .error panic => .done (.error panic)
      | .ok (_, .granted grantee) => .done (.ok ⟨error, hops, .granted grantee⟩)
      | .ok (certifier, .forwarded forwardee inner) =>
          if forwardee ≠ claimer then
            .done (.ok ⟨error, hops, .forwarded forwardee⟩)
          else
            match inner.certifier with
            | .error panic => .done (.error panic)
            | .ok innerCertifier => .next (inner, certifier, hops ++ [(innerCertifier, inner)])

lemma readCertificate_eq_ok {u : CapabilityCertificateUnpacked} :
    c.readCertificate pages = .ok (owner, u) ↔
      c.certifier = .ok owner ∧ ∃ v, pages owner c.localIndex = .ok v ∧ v.unpack = .ok u := by
  simp only [readCertificate, Checked.bind_eq_ok]
  constructor
  · rintro ⟨a, hc, v, hv, w, hw, heq⟩
    cases heq
    exact ⟨hc, v, hv, hw⟩
  · rintro ⟨hc, v, hv, hu⟩
    exact ⟨owner, hc, v, hv, u, hu, rfl⟩

section

variable {self : RawCapability} {P : ProcessId}

/-- `validate` goes on exactly from a capability that was forwarded to the claimer. -/
lemma validateTurn_eq_next :
    validateTurn pages self P (c, claimer) = .next (d, owner) ↔
      c.readCertificate pages = .ok (owner, .forwarded claimer d) := by
  cases h : c.readCertificate pages with
  | error e => simp [validateTurn, h]
  | ok read =>
      obtain ⟨certifier, grantee | ⟨forwardee, inner⟩⟩ := read
      · by_cases hg : grantee = claimer <;> simp [validateTurn, h, hg]
      · by_cases hf : forwardee = claimer <;> simp [validateTurn, h, hf, and_comm]

/-- `validate` accepts exactly a capability that was granted to the claimer. -/
lemma validateTurn_eq_done_ok :
    validateTurn pages self P (c, claimer) = .done (.ok (.ok r)) ↔
      c = r ∧ ∃ owner, c.readCertificate pages = .ok (owner, .granted claimer) := by
  cases h : c.readCertificate pages with
  | error e => simp [validateTurn, h]
  | ok read =>
      obtain ⟨certifier, grantee | ⟨forwardee, inner⟩⟩ := read
      · by_cases hg : grantee = claimer <;> simp [validateTurn, h, hg]
      · by_cases hf : forwardee = claimer <;> simp [validateTurn, h, hf]

/-- A turn that leaves the loop at a readable certificate accepts or refuses. -/
lemma validateTurn_eq_done {result : Checked (Except CapabilityError RawCapability)}
    (hread : ∃ read, c.readCertificate pages = .ok read)
    (h : validateTurn pages self P (c, claimer) = .done result) :
    (∃ r, result = .ok (.ok r)) ∨ result = .ok (.error ⟨self, P⟩) := by
  obtain ⟨⟨certifier, grantee | ⟨forwardee, inner⟩⟩, hread⟩ := hread
  · by_cases hg : grantee = claimer
    · simp only [validateTurn, hread, hg, if_true, Loop.Turn.done.injEq] at h
      exact Or.inl ⟨c, h.symm⟩
    · simp only [validateTurn, hread, if_neg hg, Loop.Turn.done.injEq] at h
      exact Or.inr h.symm
  · by_cases hf : forwardee = claimer
    · simp only [validateTurn, hread, hf, if_true, reduceCtorEq] at h
    · simp only [validateTurn, hread, if_neg hf, Loop.Turn.done.injEq] at h
      exact Or.inr h.symm

end

/-! ## Delegation chains -/

/-- The certificate of `c` is `u`. -/
def Certified (pages : CapabilityPages) (c : RawCapability) (u : CapabilityCertificateUnpacked) :
    Prop :=
  ∃ owner, c.readCertificate pages = .ok (owner, u)

/-- The certificate of `c` names `actor` as its recipient. -/
def Names (pages : CapabilityPages) (c : RawCapability) (actor : Actor) : Prop :=
  ∃ u, Certified pages c u ∧ u.recipient = actor

/-- **Delegation.**  `c = cs 0, cs 1, .., cs n = r` where the claimer received `cs 0`, each
capability was forwarded from the next one, which its certifier had received, and the last one was
granted. -/
structure DelegationChain (pages : CapabilityPages) (claimer : Actor) (c r : RawCapability)
    (n : ℕ) (cs : ℕ → RawCapability) : Prop where
  first : cs 0 = c
  last : cs n = r
  received : Names pages (cs 0) claimer
  forwarded : ∀ i < n, ∃ a, Certified pages (cs i) (.forwarded a (cs (i + 1)))
  delegated : ∀ i < n, ∃ owner, (cs i).certifier = .ok owner ∧ Names pages (cs (i + 1)) owner
  granted : ∃ a, Certified pages (cs n) (.granted a)

lemma Certified.unique {u v : CapabilityCertificateUnpacked} (hu : Certified pages c u)
    (hv : Certified pages c v) : u = v := by
  obtain ⟨_, hu⟩ := hu
  obtain ⟨_, hv⟩ := hv
  rw [hu] at hv
  cases hv
  rfl

/-- The recipient of the certificate that a claimer received is the claimer. -/
lemma Names.recipient_eq {u : CapabilityCertificateUnpacked} (h : Names pages c claimer)
    (hu : Certified pages c u) : u.recipient = claimer := by
  obtain ⟨v, hv, hrecipient⟩ := h
  rw [hu.unique hv, hrecipient]

section

variable {self : RawCapability} {P : ProcessId} {n : ℕ} {cs : ℕ → RawCapability}

/-- A chain of one capability. -/
lemma DelegationChain.single (h : c.readCertificate pages = .ok (owner, .granted claimer)) :
    DelegationChain pages claimer c c 0 fun _ => c where
  first := rfl
  last := rfl
  received := ⟨_, ⟨_, h⟩, rfl⟩
  forwarded := by simp
  delegated := by simp
  granted := ⟨_, _, h⟩

/-- A chain grows at its front. -/
lemma DelegationChain.cons (h : c.readCertificate pages = .ok (owner, .forwarded claimer d))
    (hchain : DelegationChain pages owner d r n cs) :
    DelegationChain pages claimer c r (n + 1) fun i => i.casesOn c cs where
  first := rfl
  last := hchain.last
  received := ⟨_, ⟨_, h⟩, rfl⟩
  forwarded := by
    obtain rfl := hchain.first
    rintro (_ | i) hi
    · exact ⟨claimer, owner, h⟩
    · exact hchain.forwarded i (Nat.lt_of_succ_lt_succ hi)
  delegated := by
    rintro (_ | i) hi
    · exact ⟨owner, (readCertificate_eq_ok.mp h).1, hchain.received⟩
    · exact hchain.delegated i (Nat.lt_of_succ_lt_succ hi)
  granted := hchain.granted

/-- A chain of more than one capability is made by `cons`. -/
lemma DelegationChain.tail (h : DelegationChain pages claimer c r (n + 1) cs) :
    ∃ owner, c.readCertificate pages = .ok (owner, .forwarded claimer (cs 1)) ∧
      DelegationChain pages owner (cs 1) r n fun i => cs (i + 1) := by
  obtain ⟨a, owner, hread⟩ := h.forwarded 0 n.succ_pos
  obtain ⟨owner', howner', hnames⟩ := h.delegated 0 n.succ_pos
  have ha : a = claimer := h.received.recipient_eq ⟨owner, hread⟩
  have howner : owner = owner' := by
    have := (readCertificate_eq_ok.mp hread).1
    rw [howner'] at this
    cases this
    rfl
  subst ha howner
  exact ⟨owner, h.first ▸ hread, rfl, h.last, hnames,
    fun i hi => h.forwarded (i + 1) (Nat.succ_lt_succ hi),
    fun i hi => h.delegated (i + 1) (Nat.succ_lt_succ hi), h.granted⟩

/-- The loop follows a chain to its end. -/
lemma DelegationChain.run (h : DelegationChain pages claimer c r n cs) :
    Loop.run (validateTurn pages self P) (n + 1) (c, claimer) = some (.ok (.ok r)) := by
  induction n generalizing claimer c cs with
  | zero =>
      obtain ⟨a, owner, hread⟩ := h.granted
      have ha : a = claimer := h.received.recipient_eq ⟨owner, hread⟩
      subst ha
      exact Loop.run_done (validateTurn_eq_done_ok.mpr
        ⟨h.first.symm.trans h.last, owner, h.first ▸ hread⟩)
  | succ n ih =>
      obtain ⟨owner, hread, htail⟩ := h.tail
      rw [Loop.run_next (validateTurn_eq_next.mpr hread)]
      exact ih htail

/-- A loop that accepts has followed a chain. -/
lemma chain_of_run {fuel : ℕ}
    (h : Loop.run (validateTurn pages self P) fuel (c, claimer) = some (.ok (.ok r))) :
    ∃ n cs, DelegationChain pages claimer c r n cs := by
  induction fuel generalizing c claimer with
  | zero => cases h
  | succ fuel ih =>
      cases hturn : validateTurn pages self P (c, claimer) with
      | next s =>
          obtain ⟨d, owner⟩ := s
          rw [Loop.run_next hturn] at h
          obtain ⟨n, cs, hchain⟩ := ih h
          exact ⟨n + 1, _, hchain.cons (validateTurn_eq_next.mp hturn)⟩
      | done result =>
          rw [Loop.run_done hturn] at h
          cases h
          obtain ⟨rfl, owner, hread⟩ := validateTurn_eq_done_ok.mp hturn
          exact ⟨0, _, .single hread⟩

/-- `validate` accepts what it reaches along a chain, and nothing else. -/
theorem validate_eq_ok :
    (∃ fuel, validate pages fuel c P = some (.ok (.ok r))) ↔
      ∃ n cs, DelegationChain pages (.userspace P) c r n cs :=
  ⟨fun ⟨_, h⟩ => chain_of_run h, fun ⟨n, _, h⟩ => ⟨n + 1, h.run⟩⟩

/-- Where no certificate outside of `S` names a member of `S`, a chain that starts from a member
stays in `S`. -/
lemma DelegationChain.confined {S : Set Actor}
    (hS : ∀ owner ∉ S, ∀ i v u, pages owner i = .ok v → v.unpack = .ok u → u.recipient ∉ S)
    (hclaimer : claimer ∈ S) (h : DelegationChain pages claimer c r n cs) :
    ∃ owner ∈ S, r.certifier = .ok owner := by
  -- whoever certified a capability that a member received is a member
  have hstep : ∀ {c : RawCapability} {owner : Actor} {u : CapabilityCertificateUnpacked},
      c.readCertificate pages = .ok (owner, u) → u.recipient ∈ S → owner ∈ S := by
    intro c owner u hread hu
    obtain ⟨-, v, hv, hunpack⟩ := readCertificate_eq_ok.mp hread
    by_contra howner
    exact hS owner howner _ v u hv hunpack hu
  induction n generalizing claimer c cs with
  | zero =>
      obtain ⟨a, owner, hread⟩ := h.granted
      have ha : a = claimer := h.received.recipient_eq ⟨owner, hread⟩
      refine ⟨owner, hstep hread (ha ▸ hclaimer), ?_⟩
      rw [← h.last, (readCertificate_eq_ok.mp hread).1]
  | succ n ih =>
      obtain ⟨owner, hread, htail⟩ := h.tail
      exact ih (hstep hread hclaimer) htail

end

/-- **Validation is reachability along delegations.**  The pages may hold anything, as long as each
certificate that the loop comes to can be decoded.  When the loop ends, it accepts the end of the
delegation chain if there is one, and refuses the capability for this claimer otherwise.  So a set of
actors that nobody outside of it delegates to validates nothing from outside, whatever its members write
on their own pages. -/
theorem validate_iff_delegationChain (pages : CapabilityPages) (c : RawCapability) (P : ProcessId)
    (hdecode : ∀ d claimer, Loop.Visits (validateTurn pages c P) (c, .userspace P) (d, claimer) →
      ∃ read, d.readCertificate pages = .ok read) :
    (∀ fuel result, validate pages fuel c P = some result →
      (∀ r, result = .ok (.ok r) ↔ ∃ n cs, DelegationChain pages (.userspace P) c r n cs) ∧
      ((∀ r n cs, ¬ DelegationChain pages (.userspace P) c r n cs) →
        result = .ok (.error ⟨c, P⟩))) ∧
    ∀ S : Set Actor,
      (∀ owner ∉ S, ∀ i v u, pages owner i = .ok v → v.unpack = .ok u → u.recipient ∉ S) →
      .userspace P ∈ S →
      ∀ fuel r, validate pages fuel c P = some (.ok (.ok r)) →
        ∃ owner ∈ S, r.certifier = .ok owner := by
  refine ⟨fun fuel result h => ?_, fun S hS hP fuel r h => ?_⟩
  · have haccept : ∀ r, result = .ok (.ok r) ↔
        ∃ n cs, DelegationChain pages (.userspace P) c r n cs := by
      intro r
      refine ⟨fun hr => validate_eq_ok.mp ⟨fuel, hr ▸ h⟩, fun hchain => ?_⟩
      obtain ⟨fuel', h'⟩ := validate_eq_ok.mpr hchain
      exact Loop.ends_unique h h'
    refine ⟨haccept, fun hnone => ?_⟩
    obtain ⟨⟨d, claimer⟩, hvisits, hdone⟩ := Loop.run_eq_some h
    rcases validateTurn_eq_done (hdecode d claimer hvisits) hdone with ⟨r, hr⟩ | hrefused
    · obtain ⟨n, cs, hchain⟩ := (haccept r).mp hr
      exact absurd hchain (hnone r n cs)
    · exact hrefused
  · obtain ⟨n, cs, hchain⟩ := validate_eq_ok.mp ⟨fuel, h⟩
    exact hchain.confined hS hP

/-- The kernel granted everything to process 1, every process forwards the kernel's first
capability to process 2. -/
def lendingPages : CapabilityPages
  | .kernel, _ => .ok (.granted (.userspace ⟨1, by decide, by decide⟩))
  | .userspace _, _ => .ok (.forwarded (.userspace ⟨2, by decide, by decide⟩) (slot .kernel 0))

/-- What process 1 lends to process 2 validates for process 2, along a chain. -/
theorem validate_iff_delegationChain_lending :
    ∃ n cs, DelegationChain lendingPages (.userspace ⟨2, by decide, by decide⟩)
      (slot (.userspace ⟨1, by decide, by decide⟩) 7) (slot .kernel 0) n cs := by
  refine (((validate_iff_delegationChain lendingPages _ ⟨2, by decide, by decide⟩ ?_).1 2 _
    rfl).1 _).mp rfl
  -- every capability that the loop visits has a certifier, and every certificate decodes
  intro d claimer hvisits
  have hcertifier : ∃ owner, d.certifier = .ok owner := by
    refine Loop.invariant (fun s => ∃ owner, s.1.certifier = .ok owner) ?_
      ⟨_, certifier_slot _ _⟩ hvisits
    rintro ⟨c, claimer⟩ ⟨d, owner⟩ - hturn
    obtain ⟨-, v, hv, hunpack⟩ := readCertificate_eq_ok.mp (validateTurn_eq_next.mp hturn)
    cases owner with
    | kernel =>
        cases hv
        rw [CapabilityCertificateValue.unpack_granted] at hunpack
        cases hunpack
    | userspace pid =>
        cases hv
        rw [CapabilityCertificateValue.unpack_forwarded] at hunpack
        cases hunpack
        exact ⟨_, certifier_slot _ _⟩
  obtain ⟨owner, howner⟩ := hcertifier
  cases owner with
  | kernel =>
      exact ⟨_, readCertificate_eq_ok.mpr
        ⟨howner, _, rfl, CapabilityCertificateValue.unpack_granted _⟩⟩
  | userspace pid =>
      exact ⟨_, readCertificate_eq_ok.mpr
        ⟨howner, _, rfl, CapabilityCertificateValue.unpack_forwarded _ _⟩⟩

end RawCapability

/-- `CapabilityError::fmt`, for at most `fuel` turns of its loop. -/
def CapabilityError.fmt (pages : CapabilityPages) (fuel : ℕ) (error : CapabilityError) :
    Option (Checked CapabilityErrorText) :=
  Loop.run (RawCapability.fmtTurn pages error) fuel
    (error.capability, .userspace error.claimer, [])

end Deravel
