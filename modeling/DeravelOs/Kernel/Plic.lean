import DeravelOs.Lib.CountedLoop
import DeravelOs.Memory.DirectMapping

/-!
# The interrupt controller

`kernel/src/plic.rs`, with `index` of `util/volatile.rs`.  Source `s` has a priority of its own and is
bit `s % 32` of enable word `s / 32`.  Sources are numbered from 1, so that there are `n` of them in the
words up to `n / 32`; `initialize_plic` writes the words below `n / 32`, rounded up.

* `initializePlic`: the two loops, after the controller has been found in the device tree.
* `initializePlic_spec`: the registers afterwards.
* `initializePlic_enables_iff`: every source is enabled if and only if rounding up makes up for the
  source that the words are counted without.
-/

namespace Deravel

/-! ## Registers -/

/-- `MAX_SOURCES` -/
def maxSources : ℕ := 1024

/-- `MAX_CONTEXTS` -/
def maxContexts : ℕ := 15872

/-- `Context`, without the part that is reserved. -/
structure PlicContext where
  priorityThreshold : BitVec 32
  claimComplete : BitVec 32

/-- `Plic`, without what is only read. -/
structure Plic where
  priority : Fin maxSources → BitVec 32
  enable : Fin maxContexts → Fin (maxSources / 32) → BitVec 32
  contexts : Fin maxContexts → PlicContext

/-- `Volatile::index` of an array of `n` registers -/
def volatileIndex (n index : ℕ) : Checked (Fin n) :=
  if h : index < n then pure ⟨index, h⟩ else throw (.assertion .volatileIndex)

/-- `plic.priority().index(e).write(value)` -/
def Plic.writePriority (plic : Plic) (e : ℕ) (value : BitVec 32) : Checked Plic := do
  let e ← volatileIndex maxSources e
  pure { plic with priority := Function.update plic.priority e value }

/-- `plic.enable().index(context).index(i).write(value)` -/
def Plic.writeEnable (plic : Plic) (context i : ℕ) (value : BitVec 32) : Checked Plic := do
  let context ← volatileIndex maxContexts context
  let i ← volatileIndex (maxSources / 32) i
  let words := Function.update (plic.enable context) i value
  pure { plic with enable := Function.update plic.enable context words }

/-- `plic.contexts().index(context).priority_threshold().write(value)` -/
def Plic.writeThreshold (plic : Plic) (context : ℕ) (value : BitVec 32) : Checked Plic := do
  let context ← volatileIndex maxContexts context
  let registers := { plic.contexts context with priorityThreshold := value }
  pure { plic with contexts := Function.update plic.contexts context registers }

/-! ## Initialization -/

/-- The node of the controller in the device tree: the first addresses of its regions, and
`riscv,ndev`. -/
structure PlicNode where
  reg : Option (List ℕ)
  ndev : Option ℕ

/-- `find_plic`, up to the registers at the address; the device tree is what `plic_node` finds. -/
def findPlic (dt : Option PlicNode) : Checked (Option ℕ) :=
  match dt.bind PlicNode.reg with
  | some (address :: _) => do
      let address ← Address.physToVirt address
      pure (some address)
  | _ => pure none

/-- `supported_external_interrupts` -/
def supportedExternalInterrupts (dt : Option PlicNode) : Option ℕ := dt.bind PlicNode.ndev

/-- `usize::div_ceil` -/
def divCeil (a b : ℕ) : ℕ := if a % b = 0 then a / b else a / b + 1

/-- `initialize_plic`: the address that is stored in `PLIC`, and the registers behind it. -/
def initializePlic (dt : Option PlicNode) (plic : Plic) : Checked (ℕ × Plic) := do
  match ← findPlic dt with
  | none => throw (.unwrap .initializePlic)
  | some address =>
      match supportedExternalInterrupts dt with
      | none => throw (.unwrap .initializePlic)
      | some supportedExternal => do
          let plic ← CountedLoop.run (fun plic e => plic.writePriority e 1) 1
            (min supportedExternal (maxSources - 1)) plic
          let plic ← CountedLoop.run (fun plic i => plic.writeEnable 1 i (~~~0)) 0
            (divCeil supportedExternal 32) plic
          let plic ← plic.writeThreshold 1 0
          pure (address, plic)

/-- The context of the supervisor. -/
def supervisorContext : Fin maxContexts := ⟨1, by decide⟩

/-- The source has a priority, and its bit is set for the supervisor. -/
def Plic.Enabled (plic : Plic) (source : ℕ) : Prop :=
  ∃ h : source < maxSources, plic.priority ⟨source, h⟩ ≠ 0 ∧
    (plic.enable supervisorContext ⟨source / 32, Nat.div_lt_div_of_lt_of_dvd (by decide) h⟩).getLsbD
      (source % 32) = true

/-- In each state of the registers, the controller is initialized, and all of its sources are enabled
then. -/
def EnablesAll (dt : Option PlicNode) (n : ℕ) : Prop :=
  ∀ plic, ∃ address plic', initializePlic dt plic = .ok (address, plic') ∧
    ∀ source, 1 ≤ source → source ≤ min n (maxSources - 1) → plic'.Enabled source

variable {dt : Option PlicNode} {plic : Plic} {address n count index source : ℕ}

/-! ## The two loops -/

lemma volatileIndex_of_lt {m : ℕ} (h : index < m) : volatileIndex m index = .ok ⟨index, h⟩ :=
  dif_pos h

lemma volatileIndex_of_le {m : ℕ} (h : m ≤ index) :
    volatileIndex m index = .error (.assertion .volatileIndex) := dif_neg (Nat.not_lt.mpr h)

lemma volatileIndex_supervisor : volatileIndex maxContexts 1 = .ok supervisorContext := rfl

/-- The priorities of the sources below `e` have been written. -/
def Plic.withPriorities (plic : Plic) (e : ℕ) : Plic :=
  { plic with priority := fun s => if 1 ≤ s.val ∧ s.val < e then 1 else plic.priority s }

/-- The enable words below `i` of the supervisor have been written. -/
def Plic.withWords (plic : Plic) (i : ℕ) : Plic :=
  { plic with
    enable := Function.update plic.enable supervisorContext fun w =>
      if w.val < i then ~~~0 else plic.enable supervisorContext w }

/-- One turn of the first loop. -/
lemma writePriority_turn (hone : 1 ≤ index) (hindex : index < maxSources) :
    (plic.withPriorities index).writePriority index 1 = .ok (plic.withPriorities (index + 1)) := by
  have hpriority : Function.update (plic.withPriorities index).priority ⟨index, hindex⟩ 1 =
      (plic.withPriorities (index + 1)).priority := by
    funext s
    by_cases hs : s = ⟨index, hindex⟩
    · subst hs
      simp [Plic.withPriorities, hone]
    · have hne : s.val ≠ index := fun h => hs (Fin.ext h)
      have hsame : 1 ≤ s.val ∧ s.val < index ↔ 1 ≤ s.val ∧ s.val < index + 1 := by omega
      rw [Function.update_of_ne hs]
      simp only [Plic.withPriorities, hsame]
  rw [Plic.writePriority, volatileIndex_of_lt hindex, Checked.ok_bind, hpriority]
  rfl

/-- One turn of the second loop. -/
lemma writeEnable_turn (hindex : index < maxSources / 32) :
    (plic.withWords index).writeEnable 1 index (~~~0) = .ok (plic.withWords (index + 1)) := by
  have hwords : Function.update ((plic.withWords index).enable supervisorContext)
      ⟨index, hindex⟩ (~~~0) = (plic.withWords (index + 1)).enable supervisorContext := by
    funext w
    by_cases hw : w = ⟨index, hindex⟩
    · subst hw
      simp [Plic.withWords]
    · have hne : w.val ≠ index := fun h => hw (Fin.ext h)
      have hsame : w.val < index ↔ w.val < index + 1 := by omega
      rw [Function.update_of_ne hw]
      simp only [Plic.withWords, Function.update_self, hsame]
  rw [Plic.writeEnable, volatileIndex_supervisor, Checked.ok_bind, volatileIndex_of_lt hindex,
    Checked.ok_bind, hwords]
  simp [Plic.withWords, pure, Except.pure]

/-- The first loop writes the priorities of sources that there are. -/
lemma priorities_run (hcount : count < maxSources) :
    CountedLoop.run (fun plic e => Plic.writePriority plic e 1) 1 count plic =
      .ok (plic.withPriorities (1 + count)) := by
  have hnone : plic = plic.withPriorities 1 := by
    have hempty : ∀ s : Fin maxSources, ¬ (1 ≤ s.val ∧ s.val < 1) := by omega
    simp only [Plic.withPriorities, hempty, if_false]
  have hturn : ∀ e t, 1 ≤ e → e < 1 + count → t = plic.withPriorities e →
      ∃ u, t.writePriority e 1 = .ok u ∧ u = plic.withPriorities (e + 1) := by
    rintro e _ hle hlt rfl
    exact ⟨_, writePriority_turn hle (by omega), rfl⟩
  obtain ⟨t, hrun, rfl⟩ :=
    CountedLoop.run_total (fun e t => t = plic.withPriorities e) hturn hnone
  exact hrun

/-- The second loop writes so many enable words. -/
lemma words_run (hcount : count ≤ maxSources / 32) :
    CountedLoop.run (fun plic i => Plic.writeEnable plic 1 i (~~~0)) 0 count plic =
      .ok (plic.withWords count) := by
  have hnone : plic = plic.withWords 0 := by simp [Plic.withWords]
  have hturn : ∀ i t, 0 ≤ i → i < 0 + count → t = plic.withWords i →
      ∃ u, t.writeEnable 1 i (~~~0) = .ok u ∧ u = plic.withWords (i + 1) := by
    rintro i _ - hlt rfl
    exact ⟨_, writeEnable_turn (by omega), rfl⟩
  obtain ⟨t, hrun, ht⟩ := CountedLoop.run_total (fun i t => t = plic.withWords i) hturn hnone
  rw [hrun, ht, Nat.zero_add]

/-- It fails if there are more words than the registers have. -/
lemma words_error (plic : Plic) (hcount : maxSources / 32 < count) :
    ∃ e, CountedLoop.run (fun plic i => Plic.writeEnable plic 1 i (~~~0)) 0 count plic = .error e := by
  refine CountedLoop.run_error (Nat.zero_le (maxSources / 32)) (by omega) fun t => ?_
  rw [Plic.writeEnable, volatileIndex_supervisor, Checked.ok_bind, volatileIndex_of_le le_rfl]
  exact ⟨_, rfl⟩

/-! ## Initialization as a whole -/

lemma divCeil_le : divCeil n 32 ≤ maxSources / 32 ↔ n ≤ maxSources := by
  rw [divCeil, maxSources]
  split
  · omega
  · omega

lemma min_sources_lt : min n (maxSources - 1) < maxSources :=
  (min_le_right _ _).trans_lt (by decide)

/-- The threshold is a register of its own. -/
lemma writeThreshold_spec (plic : Plic) : ∃ plic', plic.writeThreshold 1 0 = .ok plic' ∧
    plic'.priority = plic.priority ∧ plic'.enable = plic.enable := ⟨_, rfl, rfl, rfl⟩

/-- **The registers of a controller that has been initialized.** -/
lemma initializePlic_spec (haddress : findPlic dt = .ok (some address))
    (hn : supportedExternalInterrupts dt = some n) (hle : n ≤ maxSources) (plic : Plic) :
    ∃ plic', initializePlic dt plic = .ok (address, plic') ∧
      plic'.priority = (plic.withPriorities (1 + min n (maxSources - 1))).priority ∧
      plic'.enable = (plic.withWords (divCeil n 32)).enable := by
  obtain ⟨plic', hthreshold, hpriority, henable⟩ := writeThreshold_spec
    ((plic.withPriorities (1 + min n (maxSources - 1))).withWords (divCeil n 32))
  refine ⟨plic', ?_, hpriority, henable⟩
  rw [initializePlic, haddress, Checked.ok_bind]
  simp only [hn]
  rw [priorities_run min_sources_lt, Checked.ok_bind, words_run (divCeil_le.mpr hle),
    Checked.ok_bind, hthreshold]
  rfl

/-- With more sources than there are registers, it panics. -/
lemma initializePlic_error (haddress : findPlic dt = .ok (some address))
    (hn : supportedExternalInterrupts dt = some n) (hlt : maxSources < n) (plic : Plic) :
    ∃ e, initializePlic dt plic = .error e := by
  have hwords : maxSources / 32 < divCeil n 32 := by
    rw [← Nat.not_le, divCeil_le, Nat.not_le]
    exact hlt
  rw [initializePlic, haddress, Checked.ok_bind]
  simp only [hn]
  obtain ⟨e, he⟩ := words_error (plic.withPriorities (1 + min n (maxSources - 1))) hwords
  refine ⟨e, ?_⟩
  rw [priorities_run min_sources_lt, Checked.ok_bind, he]
  rfl

/-- The bit of a source is set if its word is one of those that are written. -/
lemma withWords_bit (i : ℕ) (h : source / 32 < maxSources / 32) :
    ((plic.withWords i).enable supervisorContext ⟨source / 32, h⟩).getLsbD (source % 32) =
      (decide (source / 32 < i) ||
        (plic.enable supervisorContext ⟨source / 32, h⟩).getLsbD (source % 32)) := by
  have hbit : source % 32 < 32 := Nat.mod_lt _ (by norm_num)
  have hones : (~~~0 : BitVec 32).getLsbD (source % 32) = true := by
    rw [BitVec.getLsbD_not]
    simp [hbit]
  by_cases hword : source / 32 < i
  · simp only [Plic.withWords, Function.update_self, hword, if_true, hones, decide_true,
      Bool.true_or]
  · simp [Plic.withWords, hword]

/-- The word of a source is written unless the source is the last one and begins a word. -/
lemma word_written_iff (hle : source ≤ n) :
    source / 32 < divCeil n 32 ↔ ¬ (source = n ∧ n % 32 = 0) := by
  rw [divCeil]
  split
  · omega
  · omega

/-- All registers are zero. -/
def Plic.reset : Plic := ⟨fun _ => 0, fun _ _ => 0, fun _ => ⟨0, 0⟩⟩

/-- The last source is not enabled if it begins a word. -/
lemma not_enabled_last {plic' : Plic} (hn : n % 32 = 0)
    (henable : plic'.enable = (Plic.reset.withWords (divCeil n 32)).enable) : ¬ plic'.Enabled n := by
  rintro ⟨_, -, hbit⟩
  rw [henable, withWords_bit] at hbit
  have hword : ¬ n / 32 < divCeil n 32 := fun h => (word_written_iff le_rfl).mp h ⟨rfl, hn⟩
  simp [hword, Plic.reset] at hbit

/-- **Every source is enabled if and only if the last one does not begin a word**, or there is no word
for it anyway.  The loop goes over `n / 32` words rounded up, as if the sources were counted from 0; but
they are counted from 1, and source 32 is the first bit of the second word.  With more than 1024 sources,
the words are not enough and the last one is out of bounds. -/
theorem initializePlic_enables_iff (haddress : findPlic dt = .ok (some address))
    (hn : supportedExternalInterrupts dt = some n) :
    EnablesAll dt n ↔ n ≤ maxSources ∧ (n % 32 = 0 → n = 0 ∨ n = maxSources) := by
  constructor
  · intro h
    have hle : n ≤ maxSources := by
      by_contra hlt
      obtain ⟨e, he⟩ := initializePlic_error haddress hn (Nat.not_le.mp hlt) .reset
      obtain ⟨_, plic', hinit, -⟩ := h .reset
      rw [he] at hinit
      cases hinit
    refine ⟨hle, fun hmod => ?_⟩
    by_contra hn0
    obtain ⟨hpos, hmax⟩ := not_or.mp hn0
    obtain ⟨plic', hinit, -, henable⟩ := initializePlic_spec haddress hn hle .reset
    obtain ⟨_, plic'', hinit', hall⟩ := h .reset
    obtain ⟨rfl, rfl⟩ := Prod.mk.inj (Except.ok.inj (hinit.symm.trans hinit'))
    exact not_enabled_last hmod henable (hall n (by omega) (le_min le_rfl (by omega)))
  · rintro ⟨hle, hlast⟩ plic
    obtain ⟨plic', hinit, hpriority, henable⟩ := initializePlic_spec haddress hn hle plic
    refine ⟨address, plic', hinit, fun source hone hsource => ?_⟩
    have hlt : source < maxSources := hsource.trans_lt min_sources_lt
    refine ⟨hlt, ?_, ?_⟩
    · have hwritten : source < 1 + min n (maxSources - 1) := by omega
      simp [hpriority, Plic.withPriorities, hone, hwritten]
    · have hword : source / 32 < divCeil n 32 := by
        refine (word_written_iff (hsource.trans (min_le_left _ _))).mpr ?_
        rintro ⟨rfl, hmod⟩
        rcases hlast hmod with h | h
        · omega
        · omega
      rw [henable, withWords_bit]
      simp [hword]

/-- The controller of a virtual machine, with 95 sources. -/
def virtPlic (n : ℕ) : Option PlicNode := some ⟨some [0xc000000], some n⟩

theorem initializePlic_enables_virt : EnablesAll (virtPlic 95) 95 := by
  have haddress : findPlic (virtPlic 95) = .ok (some 0xffffffc00c000000) := rfl
  exact (initializePlic_enables_iff haddress rfl).mpr ⟨by decide, by decide⟩

/-- With one more source, the last one is not enabled. -/
theorem not_initializePlic_enables : ¬ EnablesAll (virtPlic 96) 96 := by
  intro h
  have haddress : findPlic (virtPlic 96) = .ok (some 0xffffffc00c000000) := rfl
  obtain ⟨plic', hinit, -, henable⟩ := initializePlic_spec haddress rfl (by decide) .reset
  obtain ⟨_, plic'', hinit', hall⟩ := h .reset
  obtain ⟨rfl, rfl⟩ := Prod.mk.inj (Except.ok.inj (hinit.symm.trans hinit'))
  exact not_enabled_last (by decide) henable (hall 96 (by decide) (by decide))

end Deravel
