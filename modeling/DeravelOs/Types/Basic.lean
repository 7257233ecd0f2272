import Mathlib.Tactic
import Mathlib.Data.Nat.Log

/-!
# Machine words, constants and panics

Every `usize` of the kernel is a natural number here, and the overflow checks of the development
profile (which the kernel is built with) are written out as `usizeAdd` and `usizeSub` where the
source computes on values that the caller chooses.  A function that can panic returns `Checked`;
the panic names its kind and the place in the source (`Site`), so that a theorem can say which of
them is out of reach.
-/

namespace Deravel

/-- `PAGE_SIZE`. -/
def pageSize : ℕ := 4096

lemma pageSize_eq_two_pow : ∃ k, pageSize = 2 ^ k := ⟨12, rfl⟩

/-- `CACHE_LINE_SIZE` -/
def cacheLineSize : ℕ := 64

/-- The number of values of a `usize`. -/
def usizeRange : ℕ := 2 ^ 64

/-- Where a check of the source stands. -/
inductive Site
  | buddyNew
  | buddyAlloc
  | buddyDealloc
  | buddyReserve
  | nodeNew
  | nodeAlloc
  | nodeDealloc
  | nodeReserve
  | processIdNew
  | rawCapabilityNew
  | certifier
  | certificateUnpack
  | tableMap
  | tableUnmap
  | mapImpl
  | unmapImpl
  | isMapped
  | mapLeaf
  | unmapLeaf
  | mapIndirect
  | unwrapIndirect
  | getProcess
  | userPid
  | userProcess
  | mapCapabilityMemory
  | mapInputsMemory
  | loadElf
  | virtToPhys
  | pageGranular
  | layout
  | handlers
  | nextMultipleOf
  | virtualMemory
  | diskRead
  | spawner
  | deviceMethod
  | mapStream
  | sharedMemory
  | ipcReplyCaller
  | ipcReplyState
  | ipcReplyStream
  | ipcStream
  | resumeProcess
  | sepc
  | onUserTrap
  | ringPush
  | ringPoll
  | sendAndRecv
  | inputHandle
  | netConsume
  | bumpAlloc
  | allocateAllBars
  | determineType
  | validateBpb
  | fatLayout
  | readFatEntry
  | walkClusters
  | clusterNumber
  | sectorsOfCluster
  | readFile
  | directoryEntries
  | coalesceLongNames
  | tryAsFirstLong
  | copyLong
  | postprocessLongName
  | traversePath
  | readLarge
  | mountVolume
  | parseType
  | runCall
  | serverHandler
  | parseDrvli
  | physToVirt
  | signExtend
  | volatileIndex
  | initializePlic
  | copyFromRect
  | framebufferRow
  | parseImage
  | ppmParse
  | ppmParseMagic
  | ppmParseWhitespaceAndComments
  | ppmParseNumber
  | ppmParseSingleWhitespace
  | ppmParseRaster
  | imageRgb
  | ppmSample
  | camelCase
  | rustType
  | syscallArgument
  | postcard
  | unknownMethod
  | allocateCertificate
  | framebufferAlloc
  | framebufferRows
  | fillRect
  | createWindow
  | drawWindow
  | windowEvents
  | observeKeyboard
  | observeMouse
  | fromAbs
  deriving DecidableEq, Repr

/-- The ways the kernel can stop. -/
inductive Panic
  /-- an `assert!`, `assert_eq!` or `debug_assert!` -/
  | assertion (site : Site)
  /-- an arithmetic overflow check -/
  | overflow (site : Site)
  /-- `unwrap` of a `None` or an `Err` -/
  | unwrap (site : Site)
  /-- `unreachable!` -/
  | unreachable (site : Site)
  /-- recursion that never reaches its base case -/
  | stackOverflow (site : Site)
  /-- `unimplemented!` -/
  | unimplemented (site : Site)
  /-- `panic!` -/
  | explicit (site : Site)
  /-- an index outside of an array -/
  | indexOutOfBounds (site : Site)
  /-- a `Mutex` that is locked already -/
  | deadlock
  /-- a trap in kernel mode -/
  | kernelTrap
  /-- `Vec::with_capacity` of more than `isize::MAX` bytes -/
  | capacityOverflow
  /-- `handle_alloc_error` -/
  | outOfMemory
  /-- a loop that is still running -/
  | diverges
  /-- `shutdown`; not a panic, but the end all the same -/
  | shutdown
  deriving DecidableEq, Repr

/-- A computation that may panic. -/
abbrev Checked (α : Type) : Type := Except Panic α

/-- `assert!(p)` and its relatives. -/
def ensure (p : Prop) [Decidable p] (e : Panic) : Checked Unit :=
  if p then pure () else throw e

@[simp] lemma ensure_pos {p : Prop} [Decidable p] {e : Panic} (h : p) :
    ensure p e = .ok () := by
  simp [ensure, h, pure, Except.pure]

lemma ensure_neg {p : Prop} [Decidable p] {e : Panic} (h : ¬ p) : ensure p e = .error e :=
  if_neg h

lemma ensure_eq_ok {p : Prop} [Decidable p] {e : Panic} {u : Unit} (h : ensure p e = .ok u) :
    p := by
  by_contra hp
  simp [ensure, hp, throw, throwThe, MonadExceptOf.throw] at h

/-- Peels the first step off a computation that returned. -/
lemma Checked.bind_eq_ok {α β : Type} {x : Checked α} {f : α → Checked β} {b : β} :
    (x >>= f) = .ok b ↔ ∃ a, x = .ok a ∧ f a = .ok b := by
  cases x with
  | error e => simp [bind, Except.bind]
  | ok a => simp [bind, Except.bind]

@[simp] lemma Checked.ok_bind {α β : Type} (a : α) (f : α → Checked β) :
    ((Except.ok a : Checked α) >>= f) = f a := rfl

@[simp] lemma Checked.error_bind {α β : Type} (e : Panic) (f : α → Checked β) :
    ((Except.error e : Checked α) >>= f) = .error e := rfl

/-- What every step of a loop keeps holds after the loop. -/
lemma Checked.foldlM_keeps {σ α : Type} (I : σ → Prop) {f : σ → α → Checked σ} :
    ∀ {l : List α} {s s' : σ}, I s →
      (∀ a ∈ l, ∀ s s', I s → f s a = .ok s' → I s') → l.foldlM f s = .ok s' → I s' := by
  intro l
  induction l with
  | nil =>
      intro s s' hs _ h
      cases h
      exact hs
  | cons a l ih =>
      intro s s' hs hstep h
      rw [List.foldlM_cons] at h
      obtain ⟨t, ht, hrest⟩ := Checked.bind_eq_ok.mp h
      exact ih (hstep a List.mem_cons_self s t hs ht)
        (fun b hb => hstep b (List.mem_cons_of_mem _ hb)) hrest

/-- A loop that collects results has one for each element. -/
lemma Checked.mapM_eq_ok {α β : Type} {f : α → Checked β} {l : List α} {results : List β} :
    l.mapM f = .ok results ↔ List.Forall₂ (fun a b => f a = .ok b) l results := by
  induction l generalizing results with
  | nil => simp [pure, Except.pure, eq_comm]
  | cons a l ih =>
      rw [List.mapM_cons]
      constructor
      · intro h
        obtain ⟨b, hb, h⟩ := Checked.bind_eq_ok.mp h
        obtain ⟨bs, hbs, h⟩ := Checked.bind_eq_ok.mp h
        cases h
        exact .cons hb (ih.mp hbs)
      · rintro (_ | ⟨hb, hbs⟩)
        rw [hb, Checked.ok_bind, ih.mpr hbs]
        rfl

lemma Checked.mapM_of_ok {α β : Type} {f : α → Checked β} {g : α → β} {l : List α}
    (h : ∀ a ∈ l, f a = .ok (g a)) : l.mapM f = .ok (l.map g) :=
  Checked.mapM_eq_ok.mpr (List.forall₂_map_right_iff.mpr (List.forall₂_same.mpr h))

/-- Such a loop returns if every step does. -/
lemma Checked.mapM_returns_iff {α β : Type} {f : α → Checked β} {l : List α} :
    (∃ results, l.mapM f = .ok results) ↔ ∀ a ∈ l, ∃ b, f a = .ok b := by
  simp only [Checked.mapM_eq_ok]
  induction l with
  | nil => exact iff_of_true ⟨[], .nil⟩ fun a ha => absurd ha List.not_mem_nil
  | cons a l ih =>
      rw [List.forall_mem_cons, ← ih]
      constructor
      · rintro ⟨_, h⟩
        cases h with
        | cons hb hbs => exact ⟨⟨_, hb⟩, _, hbs⟩
      · rintro ⟨⟨b, hb⟩, results, hbs⟩
        exact ⟨b :: results, .cons hb hbs⟩

/-- Checked addition of two `usize`s. -/
def usizeAdd (site : Site) (a b : ℕ) : Checked ℕ :=
  if a + b < usizeRange then pure (a + b) else throw (.overflow site)

/-- Checked subtraction of two `usize`s. -/
def usizeSub (site : Site) (a b : ℕ) : Checked ℕ :=
  if b ≤ a then pure (a - b) else throw (.overflow site)

@[simp] lemma usizeAdd_of_lt {site : Site} {a b : ℕ} (h : a + b < usizeRange) :
    usizeAdd site a b = .ok (a + b) := by
  simp [usizeAdd, h, pure, Except.pure]

lemma usizeAdd_eq_ok {site : Site} {a b c : ℕ} (h : usizeAdd site a b = .ok c) : c = a + b := by
  rw [usizeAdd] at h
  split at h
  · cases h
    rfl
  · cases h

@[simp] lemma usizeSub_of_le {site : Site} {a b : ℕ} (h : b ≤ a) :
    usizeSub site a b = .ok (a - b) := by
  simp [usizeSub, h, pure, Except.pure]

lemma usizeSub_eq_ok {site : Site} {a b c : ℕ} (h : usizeSub site a b = .ok c) :
    b ≤ a ∧ c = a - b := by
  rw [usizeSub] at h
  split at h
  · next hle =>
      cases h
      exact ⟨hle, rfl⟩
  · cases h

/-- Checked addition of two integers of `bits` bits. -/
def uintAdd (bits : ℕ) (site : Site) (a b : ℕ) : Checked ℕ :=
  if a + b < 2 ^ bits then pure (a + b) else throw (.overflow site)

/-- Checked subtraction of two unsigned integers. -/
def uintSub (site : Site) (a b : ℕ) : Checked ℕ :=
  if b ≤ a then pure (a - b) else throw (.overflow site)

/-- Checked multiplication of two integers of `bits` bits. -/
def uintMul (bits : ℕ) (site : Site) (a b : ℕ) : Checked ℕ :=
  if a * b < 2 ^ bits then pure (a * b) else throw (.overflow site)

/-- A check before a result. -/
lemma Checked.ite_eq_ok {α : Type} {p : Prop} [Decidable p] {a b : α} {e : Panic} :
    (if p then pure a else throw e : Checked α) = .ok b ↔ p ∧ b = a := by
  split
  · next h =>
      refine ⟨fun hb => ⟨h, (Except.ok.inj hb).symm⟩, ?_⟩
      rintro ⟨-, rfl⟩
      rfl
  · next h =>
      refine ⟨fun hb => ?_, fun hb => absurd hb.1 h⟩
      cases hb

section Words

variable {bits : ℕ} {site : Site} {a b c : ℕ}

lemma uintAdd_eq_ok : uintAdd bits site a b = .ok c ↔ a + b < 2 ^ bits ∧ c = a + b :=
  Checked.ite_eq_ok

lemma uintSub_eq_ok : uintSub site a b = .ok c ↔ b ≤ a ∧ c = a - b := Checked.ite_eq_ok

lemma uintAdd_overflow (h : 2 ^ bits ≤ a + b) : uintAdd bits site a b = .error (.overflow site) :=
  if_neg (Nat.not_lt.mpr h)

lemma uintSub_underflow (h : a < b) : uintSub site a b = .error (.overflow site) :=
  if_neg (Nat.not_le.mpr h)

lemma uintMul_overflow (h : 2 ^ bits ≤ a * b) : uintMul bits site a b = .error (.overflow site) :=
  if_neg (Nat.not_lt.mpr h)

lemma uintMul_eq_ok : uintMul bits site a b = .ok c ↔ a * b < 2 ^ bits ∧ c = a * b :=
  Checked.ite_eq_ok

end Words

/-- What holds of all elements of a list is checked element by element, also where there are only
finitely many values. -/
instance (priority := high) decidableForallMem {α : Type} {p : α → Prop} [DecidablePred p]
    (l : List α) : Decidable (∀ a ∈ l, p a) := List.decidableBAll p l

/-- `usize::next_multiple_of`, where the result is known to fit. -/
def nextMultipleOf (a m : ℕ) : ℕ :=
  if a % m = 0 then a else a + (m - a % m)

lemma le_nextMultipleOf (a m : ℕ) : a ≤ nextMultipleOf a m := by
  rw [nextMultipleOf]
  split <;> omega

lemma dvd_nextMultipleOf {m : ℕ} (hm : 0 < m) (a : ℕ) : m ∣ nextMultipleOf a m := by
  rw [nextMultipleOf]
  split
  · next h => exact Nat.dvd_of_mod_eq_zero h
  · have hlt := Nat.mod_lt a hm
    have hsum : a + (m - a % m) = m * (a / m) + m := by
      have := Nat.div_add_mod a m
      omega
    rw [hsum]
    exact dvd_add (dvd_mul_right _ _) dvd_rfl

lemma nextMultipleOf_lt {m : ℕ} (hm : 0 < m) (a : ℕ) : nextMultipleOf a m < a + m := by
  rw [nextMultipleOf]
  have := Nat.mod_lt a hm
  split <;> omega

lemma nextMultipleOf_of_dvd {a m : ℕ} (h : m ∣ a) : nextMultipleOf a m = a :=
  if_pos (Nat.mod_eq_zero_of_dvd h)

/-- `Range<usize>`; `stop` is the source's `end`. -/
structure AddressRange where
  start : ℕ
  stop : ℕ
  deriving DecidableEq, Repr

/-- `Range::is_empty` -/
abbrev AddressRange.IsEmpty (r : AddressRange) : Prop := r.stop ≤ r.start

/-- The addresses of a range. -/
def AddressRange.addresses (r : AddressRange) : Set ℕ := Set.Ico r.start r.stop

@[simp] lemma AddressRange.mem_addresses {r : AddressRange} {a : ℕ} :
    a ∈ r.addresses ↔ r.start ≤ a ∧ a < r.stop := Iff.rfl

/-- `core::alloc::Layout`.  The standard library only hands out layouts whose alignment is a power
of two and whose size, rounded up to the alignment, does not exceed `isize::MAX`. -/
structure Layout where
  size : ℕ
  align : ℕ
  align_pow : ∃ k, align = 2 ^ k
  size_le : size + (align - 1) < 2 ^ 63

lemma Layout.align_pos (l : Layout) : 0 < l.align := by
  obtain ⟨k, hk⟩ := l.align_pow
  rw [hk]; positivity

end Deravel
