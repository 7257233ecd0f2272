import DeravelOs.Capability.Delegation
import DeravelOs.Memory.System

/-!
# What a spawner hands over

`Elf::call_method` rewrites the certificates of the arguments in memory, stores the export of the
child, and creates the child.  The new process gets pages from the heap, where no certificate lies,
so that all that it does to the certificates is a `Handover`.

* `createProcess_rule`: what new pages and containers keep holds after the creation of a process.
* `Reachable.spawn_delegates`: spawning delegates the sender's authority and nothing else.
-/

namespace Deravel

variable {P : Platform} {k k' : Kernel} {proc proc' : Process} {elf : Elf} {mode : Mode}
  {sender child : ProcessId} {caps : List RawCapability}

/-! ## Creation -/

section Creation

variable {I : Kernel → Prop} (hnew : ∀ {k k' : Kernel} {layout : Layout} {contents : ℕ → UInt8}
  {b : Backing}, I k → k.newPages layout contents = .ok (b, k') → I k')
  (huses : ∀ {k k' : Kernel}, I k → k.UsesHeap k' → I k')

include hnew huses

lemma Loads.rule {s s' : Kernel × Process} (hloads : Loads elf s s') (h : I s.1) : I s'.1 :=
  Loads.induct (I := fun s => I s.1) hloads (fun s s' hs hstep => by
    cases hstep with
    | pages hpages _ _ => exact hnew hs hpages
    | image _ _ _ _ _ => exact hs
    | entry pc => exact hs
    | heap h => exact huses hs h) h

/-- **What new pages and containers keep holds after the creation of a process.** -/
theorem createProcess_rule {id : ProcessId} {args : List RawCapability} (h : I k)
    (hcreate : createProcess P k elf id args = .ok k') :
    ∃ k₁ proc, I k₁ ∧ k' = k₁.setProcess proc := by
  obtain ⟨heap, direct, k₁, proc₁, table, k₂, proc₂, -, -, hload, -, hrest, -, rfl⟩ :=
    createProcess_cases hcreate
  have h₁ : I k₁ := Loads.rule hnew huses hload h
  exact ⟨k₂, proc₂, Loads.rule hnew huses hrest h₁, rfl⟩

end Creation

namespace Kernel

/-- The creation of a process writes to memory of the heap only. -/
lemma createProcess_memory {S T : Set Backing} {id : ProcessId} {args : List RawCapability}
    (h : k.HeapOk P S T) (hcreate : createProcess P k elf id args = .ok k') {p : ℕ}
    (hp : p ∉ P.heapFrames) : k'.memory p = k.memory p := by
  let I : Kernel → Prop := fun k₁ => (∃ S, k₁.HeapOk P S T) ∧ k₁.memory p = k.memory p
  have hnew : ∀ {k₁ k₂ : Kernel} {layout : Layout} {contents : ℕ → UInt8} {b : Backing}, I k₁ →
      k₁.newPages layout contents = .ok (b, k₂) → I k₂ := by
    rintro k₁ k₂ layout contents b ⟨⟨S₁, h₁⟩, hmemory⟩ hpages
    rw [newPages_eq_ok] at hpages
    have h₂ := (h₁.allocPages hpages).1
    refine ⟨⟨_, h₂⟩, ?_⟩
    rw [allocPages_memory hpages, hmemory]
    exact fun hframe => hp (h₂.frames (Or.inl (Set.mem_insert b S₁)) hframe).1
  have huses : ∀ {k₁ k₂ : Kernel}, I k₁ → k₁.UsesHeap k₂ → I k₂ := by
    rintro k₁ k₂ ⟨⟨S₁, h₁⟩, hmemory⟩ huses
    exact ⟨⟨S₁, h₁.usesHeap huses⟩, (congrFun huses.memory p).trans hmemory⟩
  obtain ⟨k₁, proc, ⟨-, hmemory⟩, rfl⟩ := createProcess_rule hnew huses ⟨⟨S, h⟩, rfl⟩ hcreate
  exact hmemory

lemma createProcess_certificate {S T : Set Backing} {id : ProcessId} {args : List RawCapability}
    (h : k.HeapOk P S T) (hcreate : createProcess P k elf id args = .ok k') (actor : Actor)
    (index : Fin capabilitiesPerPage) : k'.certificate P actor index = k.certificate P actor index :=
  certificate_congr fun _ hp =>
    createProcess_memory h hcreate fun hheap => P.not_mem_capabilityPage hheap actor hp

/-! ## Arguments -/

/-- One argument is handed over. -/
lemma handOver_certificate {c : RawCapability} (h : handOver P sender child k c = .ok k') :
    c.certifier = .ok (.userspace sender) ∧
      (k.certificate P (.userspace sender) c.localIndex).replaceRecipient (.userspace child) =
        .ok (k'.certificate P (.userspace sender) c.localIndex) ∧
      (∀ actor index, ¬ (actor = .userspace sender ∧ index = c.localIndex) →
        k'.certificate P actor index = k.certificate P actor index) ∧
      k'.heap = k.heap ∧ k'.internal = k.internal := by
  obtain ⟨certifier, hcertifier, h⟩ := Checked.bind_eq_ok.mp h
  obtain ⟨hself, h⟩ := ensure_bind_eq_ok.mp h
  obtain ⟨before, hbefore, h⟩ := Checked.bind_eq_ok.mp h
  obtain ⟨after, hafter, hstore⟩ := Checked.bind_eq_ok.mp h
  subst hself
  obtain ⟨certifier', hcertifier', rfl⟩ := loadCertificate_eq_ok.mp hbefore
  rw [hcertifier] at hcertifier'
  obtain rfl := Except.ok.inj hcertifier'
  have hstored := storeCertificate_certificate hstore hcertifier
  refine ⟨hcertifier, ?_, fun actor index hne => ?_, ?_⟩
  · rw [hafter, hstored, if_pos ⟨rfl, rfl⟩]
  · rw [hstored, if_neg hne]
  · obtain ⟨_, -, rfl⟩ := storeCertificate_eq_ok.mp hstore
    exact ⟨rfl, rfl⟩

/-- The arguments are handed over one after the other; it does not matter if one comes again. -/
lemma handOver_all (h : caps.foldlM (handOver P sender child) k = .ok k') :
    (∀ c ∈ caps, c.certifier = .ok (.userspace sender) ∧
      (k.certificate P (.userspace sender) c.localIndex).replaceRecipient (.userspace child) =
        .ok (k'.certificate P (.userspace sender) c.localIndex)) ∧
      (∀ actor index, (∀ c ∈ caps, c.certifier = .ok actor → c.localIndex ≠ index) →
        k'.certificate P actor index = k.certificate P actor index) ∧
      k'.heap = k.heap ∧ k'.internal = k.internal := by
  induction caps generalizing k with
  | nil =>
      cases h
      exact ⟨by simp, fun _ _ _ => rfl, rfl, rfl⟩
  | cons c rest ih =>
      rw [List.foldlM_cons] at h
      obtain ⟨k₁, hfirst, h⟩ := Checked.bind_eq_ok.mp h
      obtain ⟨hcertifier, hreplaced, hframe, hheap, hinternal⟩ := handOver_certificate hfirst
      obtain ⟨hall, hsame, hheap', hinternal'⟩ := ih h
      have hsender : ∀ d ∈ c :: rest, d.certifier = .ok (.userspace sender) := by
        rintro d hd
        rcases List.mem_cons.mp hd with rfl | hd
        · exact hcertifier
        · exact (hall d hd).1
      refine ⟨fun d hd => ⟨hsender d hd, ?_⟩, fun actor index hout => ?_, hheap'.trans hheap,
        hinternal'.trans hinternal⟩
      · -- the certificate after the first argument, and after the rest
        have hafter : (k₁.certificate P (.userspace sender) d.localIndex).replaceRecipient
            (.userspace child) = .ok (k'.certificate P (.userspace sender) d.localIndex) ∨
              k'.certificate P (.userspace sender) d.localIndex =
                k₁.certificate P (.userspace sender) d.localIndex := by
          by_cases hagain : ∃ e ∈ rest, e.localIndex = d.localIndex
          · obtain ⟨e, he, heq⟩ := hagain
            exact Or.inl (heq ▸ (hall e he).2)
          · exact Or.inr (hsame _ _ fun e he _ heq => hagain ⟨e, he, heq⟩)
        by_cases hfirst : d.localIndex = c.localIndex
        · rw [← hfirst] at hreplaced
          rcases hafter with hafter | hafter
          · rw [CapabilityCertificateValue.replaceRecipient_again hreplaced] at hafter
            rw [← Except.ok.inj hafter]
            exact hreplaced
          · rw [hafter]
            exact hreplaced
        · have hbefore := hframe (.userspace sender) d.localIndex fun heq => hfirst heq.2
          rcases List.mem_cons.mp hd with rfl | hd
          · exact absurd rfl hfirst
          · rw [← hbefore]
            exact (hall d hd).2
      · rw [hsame actor index fun d hd => hout d (List.mem_cons_of_mem _ hd)]
        refine hframe actor index ?_
        rintro ⟨rfl, rfl⟩
        exact hout c List.mem_cons_self hcertifier rfl

/-- **`Elf::call_method` is a handover.** -/
theorem spawnerCallMethod_handover {S T : Set Backing} (h : k.HeapOk P S T)
    {args reply : List UInt8} (hdecode : decodeCapabilities P elf.argCount args = .ok caps)
    (hchild : ProcessId.new (.ofNat (k.processesReserved + 1)) = .ok child) (hne : sender ≠ child)
    (hcall : k.spawnerCallMethod P elf args sender = .ok (reply, k')) :
    Handover (k.certificate P) (k'.certificate P) sender child caps ∧
      reply = P.encodeUsize (RawCapability.slot (.userspace child) 0).asUsize := by
  obtain ⟨⟨child', exported, k₁⟩, hreserve, hcall⟩ := Checked.bind_eq_ok.mp hcall
  obtain ⟨k₂, hstore, hcall⟩ := Checked.bind_eq_ok.mp hcall
  obtain ⟨caps', hdecode', hcall⟩ := Checked.bind_eq_ok.mp hcall
  obtain ⟨k₃, hfold, hcall⟩ := Checked.bind_eq_ok.mp hcall
  obtain ⟨k₄, hcreate, hcall⟩ := Checked.bind_eq_ok.mp hcall
  cases hcall
  rw [hdecode] at hdecode'
  obtain rfl := Except.ok.inj hdecode'
  obtain ⟨pid, hpid, hreserve⟩ := Checked.bind_eq_ok.mp hreserve
  obtain ⟨cap, hnew, hreserve⟩ := Checked.bind_eq_ok.mp hreserve
  cases hreserve
  rw [hchild] at hpid
  obtain rfl := Except.ok.inj hpid
  rw [RawCapability.new, dif_pos (by decide)] at hnew
  obtain rfl := Except.ok.inj hnew
  refine ⟨?_, rfl⟩
  have hexported := storeCertificate_certificate hstore (RawCapability.certifier_slot _ _)
  rw [RawCapability.localIndex_slot] at hexported
  obtain ⟨hall, hsame, hheap, hinternal⟩ := handOver_all hfold
  have hblocks : k₃.HeapOk P S T := by
    obtain ⟨_, -, rfl⟩ := storeCertificate_eq_ok.mp hstore
    obtain ⟨blocks, hblocks, hneeds⟩ := h
    exact ⟨blocks, by rwa [BlocksOk, hheap, hinternal], hneeds⟩
  have hcreated := createProcess_certificate hblocks hcreate
  -- the export is stored before the arguments are handed over, on another page
  have hsender : ∀ index, k₂.certificate P (.userspace sender) index =
      k.certificate P (.userspace sender) index := by
    intro index
    rw [hexported, if_neg]
    · rfl
    · rintro ⟨heq, -⟩
      exact hne (Actor.userspace.inj heq)
  refine ⟨fun c hc => (hall c hc).1, fun c hc => ?_, ?_, fun actor index hnot hout => ?_⟩
  · rw [hcreated, ← hsender]
    exact (hall c hc).2
  · rw [hcreated, hsame, hexported, if_pos ⟨rfl, rfl⟩]
    rintro c hc hcertifier
    rw [(hall c hc).1] at hcertifier
    exact absurd (Actor.userspace.inj (Except.ok.inj hcertifier)) hne
  · rw [hcreated, hsame actor index hout, hexported, if_neg]
    · rfl
    · exact hnot

end Kernel

/-- What spawning does to the authority of the processes: nothing but the certificates of the
arguments and of the export changes, the sender holds the export, the child holds the arguments as
the sender held what is behind them, and nobody else holds more. -/
structure Delegates (before after : Certificates) (sender child : ProcessId)
    (args : List RawCapability) (exported : RawCapability) : Prop where
  same : ∀ actor index, ¬ (exported.certifier = .ok actor ∧ exported.localIndex = index) →
    (∀ c ∈ args, ¬ (c.certifier = .ok actor ∧ c.localIndex = index)) →
      after actor index = before actor index
  holds_export : after.Validates exported sender exported
  holds_argument : ∀ c ∈ args, ∀ r, after.Validates c child r ↔
    (∃ a, (before (.userspace sender) c.localIndex).unpack = .ok (.granted a) ∧ r = c) ∨
      ∃ a i, (before (.userspace sender) c.localIndex).unpack = .ok (.forwarded a i) ∧
        after.Validates i sender r
  not_amplified : ∀ claimer c r, claimer ≠ child → after.Validates c claimer r →
    before.Validates c claimer r ∨ r = exported

/-- **Spawning delegates the authority of the sender.**  In a reachable state a spawner is called with
arguments that can be decoded, and the call returns.  Then its reply is the export of the child, and what
has become of the certificates is what `Delegates` says: the sender holds the export, the child holds
each argument as far as the sender did, and nobody else holds anything new.  The pages may contain
anything, as long as that of the child was never written. -/
theorem Reachable.spawn_delegates (h : Reachable P (k, mode)) (memory : ℕ → UInt8)
    (oracle : Oracle) {args reply : List UInt8}
    (hchild : ProcessId.new (.ofNat (k.processesReserved + 1)) = .ok child) (hne : sender ≠ child)
    (hzero : ∀ p ∈ P.capabilityPage (.userspace child), memory p = 0)
    (hdecode : Kernel.decodeCapabilities P elf.argCount args = .ok caps)
    (hcall : Kernel.spawnerCallMethod P { k with memory := memory, oracle := oracle } elf args
      sender = .ok (reply, k')) :
    ∃ exported, exported.certifier = .ok (.userspace child) ∧ exported.localIndex = 0 ∧
      reply = P.encodeUsize exported.asUsize ∧
      Delegates (Kernel.certificate P { k with memory := memory, oracle := oracle })
        (k'.certificate P) sender child caps exported := by
  have hheap : Kernel.HeapOk P { k with memory := memory, oracle := oracle } _ _ :=
    h.memoryOk.heap
  obtain ⟨hover, hreply⟩ := Kernel.spawnerCallMethod_handover hheap hdecode hchild hne hcall
  refine ⟨.slot (.userspace child) 0, RawCapability.certifier_slot _ _,
    RawCapability.localIndex_slot _ _, hreply, ?_⟩
  refine ⟨fun actor index hexport hout => ?_, hover.validates_export,
    fun c hc r => hover.validates_argument hc, fun claimer c r hclaimer hvalid => ?_⟩
  · refine hover.same actor index ?_ fun c hc hcertifier hindex => hout c hc ⟨hcertifier, hindex⟩
    rintro ⟨rfl, rfl⟩
    exact hexport ⟨RawCapability.certifier_slot _ _, RawCapability.localIndex_slot _ _⟩
  · exact (hover.not_amplified (fun index => Kernel.certificate_zero hzero) hclaimer hvalid).symm

/-- A `usize` in groups of seven bits, the lowest first, of which all but the last have the top bit
set. -/
def encodeVarint : ℕ → ℕ → List UInt8
  | 0, _ => []
  | groups + 1, n =>
      if n < 128 then [n.toUInt8]
      else (n % 128 + 128).toUInt8 :: encodeVarint groups (n / 128)

def decodeVarint : List UInt8 → Option (ℕ × List UInt8)
  | [] => none
  | byte :: rest =>
      if byte < 128 then some (byte.toNat, rest)
      else (decodeVarint rest).map fun found => (byte.toNat - 128 + 128 * found.1, found.2)

/-- The small machine, with numbers of any size. -/
def Platform.varint : Platform :=
  { Platform.small with encodeUsize := encodeVarint 10, decodeUsize := decodeVarint }

set_option maxRecDepth 10000 in
/-- The first process of a small machine spawns another one with a capability of its own. -/
theorem Reachable.spawn_delegates_own : ∃ k k' reply exported, Reachable .varint (k, .user) ∧
    Kernel.spawnerCallMethod .varint { k with memory := fun _ => 0, oracle := .quiet }
      (.small "fat_fs" 1) [0xa8, 0xa0, 0x80, 0x10] ⟨1, by decide, by decide⟩ = .ok (reply, k') ∧
      Delegates (Kernel.certificate .varint { k with memory := fun _ => 0, oracle := .quiet })
        (k'.certificate .varint) ⟨1, by decide, by decide⟩ ⟨3, by decide, by decide⟩
        [.slot (.userspace ⟨1, by decide, by decide⟩) 5] exported := by
  have hplayed : (play .varint .quiet [.schedule]).any (fun s => s.2 = .user ∧
      s.1.processesReserved = 2 ∧
      (match Kernel.spawnerCallMethod .varint { s.1 with memory := fun _ => 0, oracle := .quiet }
        (.small "fat_fs" 1) [0xa8, 0xa0, 0x80, 0x10] ⟨1, by decide, by decide⟩ with
      | .ok _ => true
      | .error _ => false) = true) = true := by
    decide +kernel
  obtain ⟨⟨k, mode⟩, hplay, hstate⟩ := (Option.any_eq_true _ _).mp hplayed
  obtain ⟨hmode, hreserved, hstate⟩ := of_decide_eq_true hstate
  obtain rfl : mode = .user := hmode
  split at hstate
  · next result hcall =>
      obtain ⟨reply, k'⟩ := result
      have hchild : ProcessId.new (.ofNat (k.processesReserved + 1)) =
          .ok ⟨3, by decide, by decide⟩ := by
        rw [show k.processesReserved = 2 from hreserved]
        decide
      have hdecode : Kernel.decodeCapabilities .varint (Elf.small "fat_fs" 1).argCount
          [0xa8, 0xa0, 0x80, 0x10] = .ok [.slot (.userspace ⟨1, by decide, by decide⟩) 5] := by
        decide
      obtain ⟨exported, -, -, -, hdelegates⟩ := (play_reachable hplay).spawn_delegates _ _ hchild
        (by decide) (fun _ _ => rfl) hdecode hcall
      exact ⟨k, k', reply, exported, play_reachable hplay, hcall, hdelegates⟩
  · cases hstate

end Deravel
