import Mathlib
import DeravelOs.Lib.Bump
import DeravelOs.Types.Basic

/-!
# The bump allocator

`kernel/src/heap/bump.rs`, which the early heap and the PCI bridge ranges are given away by.  The test
whether a request fits comes after the addition and the rounding, which are checked: a request whose
end is not a `usize` is a panic and not an `AllocError`.

* `BumpAllocator.allocAll`: a sequence of calls.
* `Serves`, `Exact`: what a call and a sequence have to do, in exact integers.
* `Addressable`: each call has an end that is a `usize`.
* `BumpAllocator.allocAll_exact_iff`: this is when a sequence of calls is exact.
* `addressable_of_lower`: it always is in the lower half of the addresses.
-/

namespace Deravel

/-- `BumpAllocator` -/
structure BumpAllocator where
  start : ℕ
  stop : ℕ
  allocated : ℕ
  deriving DecidableEq, Repr

/-- `BumpAllocator::alloc`; `none` is its `AllocError`. -/
def BumpAllocator.alloc (a : BumpAllocator) (size align : ℕ) :
    Checked (Option (ℕ × BumpAllocator)) := do
  let pointer := nextMultipleOf a.start align
  ensure (pointer < usizeRange) (.overflow .bumpAlloc)
  let newStart ← usizeAdd .bumpAlloc pointer size
  if a.stop < newStart then pure none
  else do
    let allocated ← usizeAdd .bumpAlloc a.allocated size
    pure (some (pointer, { a with start := newStart, allocated := allocated }))

/-- `BumpAllocator::new` -/
def BumpAllocator.new (range : AddressRange) : BumpAllocator := ⟨range.start, range.stop, 0⟩

/-- A call of `alloc`: what it returns, and the allocator behind the `&mut self`. -/
def BumpAllocator.call (a : BumpAllocator) (l : Layout) : Checked (Option ℕ × BumpAllocator) := do
  match ← a.alloc l.size l.align with
  | none => pure (none, a)
  | some (pointer, a) => pure (some pointer, a)

/-- Calls of `alloc`, one after the other. -/
def BumpAllocator.allocAll (a : BumpAllocator) :
    List Layout → Checked (List (Option ℕ) × BumpAllocator)
  | [] => pure ([], a)
  | l :: layouts => do
      let (result, a) ← a.call l
      let (results, a) ← a.allocAll layouts
      pure (result :: results, a)

/-! ## What the calls have to do -/

/-- A layout as a request for exact numbers. -/
def Layout.request (l : Layout) : Bump.Request := ⟨l.size, l.align⟩

/-- What one call has to do: `p` is the first multiple of the alignment at or above the start, and it
is returned unless its end exceeds that of the range.  On an error, nothing changes. -/
inductive BumpAllocator.Serves (a : BumpAllocator) (l : Layout) :
    Option ℕ → BumpAllocator → Prop
  | refused {p : ℕ} (hp : IsLeast {m | a.start ≤ m ∧ l.align ∣ m} p) (hfull : a.stop < p + l.size) :
      Serves a l none a
  | granted {p : ℕ} (hp : IsLeast {m | a.start ≤ m ∧ l.align ∣ m} p) (hfits : p + l.size ≤ a.stop) :
      Serves a l (some p) ⟨p + l.size, a.stop, a.allocated + l.size⟩

/-- What a sequence of calls has to do. -/
inductive BumpAllocator.ServesAll :
    BumpAllocator → List Layout → List (Option ℕ) → BumpAllocator → Prop
  | nil {a : BumpAllocator} : ServesAll a [] [] a
  | cons {a b c : BumpAllocator} {l : Layout} {layouts : List Layout} {result : Option ℕ}
      {results : List (Option ℕ)} (h : a.Serves l result b) (hrest : ServesAll b layouts results c) :
      ServesAll a (l :: layouts) (result :: results) c

/-- The regions that were returned. -/
def BumpAllocator.regions (layouts : List Layout) (results : List (Option ℕ)) : List AddressRange :=
  (Bump.regions (layouts.map Layout.request) results).map fun g => ⟨g.1, g.2⟩

/-- A sequence of calls is exact: each call does what it has to, and the regions are increasing, apart
from one another and inside of the range. -/
structure BumpAllocator.Exact (range : AddressRange) (layouts : List Layout)
    (results : List (Option ℕ)) (a : BumpAllocator) : Prop where
  served : (BumpAllocator.new range).ServesAll layouts results a
  increasing : (regions layouts results).Pairwise fun r s => r.stop ≤ s.start
  disjoint : (regions layouts results).Pairwise fun r s => Disjoint r.addresses s.addresses
  inside : ∀ r ∈ regions layouts results, range.start ≤ r.start ∧ r.stop ≤ range.stop

/-- In each call, the first multiple of the alignment plus the size is a `usize`; the next call begins
behind it if it fits. -/
def BumpAllocator.Addressable (stop : ℕ) : ℕ → List Layout → Prop
  | _, [] => True
  | start, l :: layouts =>
      let newStart := nextMultipleOf start l.align + l.size
      newStart < usizeRange ∧ Addressable stop (if newStart ≤ stop then newStart else start) layouts

namespace BumpAllocator

variable {a b : BumpAllocator} {l : Layout} {layouts : List Layout} {result : Option ℕ}
  {results : List (Option ℕ)} {range : AddressRange}

/-- `next_multiple_of` is the first multiple. -/
lemma isLeast_nextMultipleOf (start : ℕ) (l : Layout) :
    IsLeast {m | start ≤ m ∧ l.align ∣ m} (nextMultipleOf start l.align) := by
  refine ⟨⟨le_nextMultipleOf _ _, dvd_nextMultipleOf l.align_pos _⟩, ?_⟩
  rintro m ⟨hle, hdvd⟩
  by_contra hlt
  -- two multiples that are less than the alignment apart are equal
  have hnear := nextMultipleOf_lt l.align_pos start
  obtain ⟨c, hc⟩ := Nat.dvd_sub (dvd_nextMultipleOf l.align_pos start) hdvd
  cases c with
  | zero => omega
  | succ c =>
      have hge : l.align ≤ l.align * (c + 1) := Nat.le_mul_of_pos_right _ (Nat.succ_pos c)
      omega

/-! ## One call -/

/-- A call whose end is not a `usize` panics. -/
lemma call_overflow (h : usizeRange ≤ nextMultipleOf a.start l.align + l.size) :
    a.call l = .error (.overflow .bumpAlloc) := by
  rw [call, alloc]
  by_cases hpointer : nextMultipleOf a.start l.align < usizeRange
  · simp [hpointer, usizeAdd, Nat.not_lt.mpr h, throw, throwThe, MonadExceptOf.throw]
  · simp [ensure_neg hpointer]

/-- Any other call returns what it has to. -/
lemma call_serves (hallocated : a.allocated ≤ a.start)
    (h : nextMultipleOf a.start l.align + l.size < usizeRange) :
    ∃ result b, a.call l = .ok (result, b) ∧ a.Serves l result b := by
  have hle := le_nextMultipleOf a.start l.align
  have hpointer : nextMultipleOf a.start l.align < usizeRange := by omega
  have hcount : a.allocated + l.size < usizeRange := by omega
  by_cases hfits : nextMultipleOf a.start l.align + l.size ≤ a.stop
  · refine ⟨_, _, ?_, .granted (isLeast_nextMultipleOf a.start l) hfits⟩
    simp [call, alloc, hpointer, h, hcount, Nat.not_lt.mpr hfits, pure, Except.pure]
  · have hfull : a.stop < nextMultipleOf a.start l.align + l.size := by omega
    refine ⟨_, _, ?_, .refused (isLeast_nextMultipleOf a.start l) hfull⟩
    simp [call, alloc, hpointer, h, hfull, pure, Except.pure]

/-- The exact request that a call serves. -/
lemma Serves.answers (h : a.Serves l result b) :
    b.stop = a.stop ∧ Bump.Answers a.stop a.start l.request result b.start := by
  cases h with
  | refused hp hfull => exact ⟨rfl, .refused hp hfull⟩
  | granted hp hfits => exact ⟨rfl, .granted hp hfits⟩

/-- Where the next call begins. -/
lemma Serves.start_eq (h : a.Serves l result b) :
    b.start = if nextMultipleOf a.start l.align + l.size ≤ a.stop
      then nextMultipleOf a.start l.align + l.size else a.start := by
  cases h with
  | refused hp hfull =>
      obtain rfl := hp.unique (isLeast_nextMultipleOf a.start l)
      rw [if_neg (Nat.not_le.mpr hfull)]
  | granted hp hfits =>
      obtain rfl := hp.unique (isLeast_nextMultipleOf a.start l)
      rw [if_pos hfits]

/-- What is allocated is never more than what is used up. -/
lemma Serves.allocated_le (h : a.Serves l result b) (hallocated : a.allocated ≤ a.start) :
    b.allocated ≤ b.start := by
  cases h with
  | refused _ _ => exact hallocated
  | granted hp _ =>
      have hle := hp.1.1
      show a.allocated + l.size ≤ _ + l.size
      omega

/-! ## Sequences of calls -/

/-- A sequence of calls serves the exact requests one after the other. -/
lemma ServesAll.run (h : a.ServesAll layouts results b) :
    Bump.Run a.stop a.start (layouts.map Layout.request) results b.start := by
  induction h with
  | nil => exact .nil
  | cons hserves _ ih =>
      obtain ⟨hstop, hanswers⟩ := hserves.answers
      rw [hstop] at ih
      exact .cons hanswers ih

/-- A sequence of calls that does what it has to is exact. -/
lemma ServesAll.exact (h : (new range).ServesAll layouts results a) :
    Exact range layouts results a := by
  have hstacked : (regions layouts results).Pairwise fun r s => r.stop ≤ s.start :=
    List.pairwise_map.mpr h.run.regions_stacked
  refine ⟨h, hstacked, hstacked.imp fun hle => ?_, fun r hr => ?_⟩
  · exact Set.Ico_disjoint_Ico.mpr (le_trans (min_le_left _ _) (hle.trans (le_max_right _ _)))
  · obtain ⟨g, hg, rfl⟩ := List.mem_map.mp hr
    obtain ⟨hstart, -, hstop⟩ := h.run.regions_inside g hg
    exact ⟨hstart, hstop⟩

/-- Calls that return have ends that are `usize`s, and do what they have to. -/
lemma allocAll_returned (hallocated : a.allocated ≤ a.start)
    (h : a.allocAll layouts = .ok (results, b)) :
    Addressable a.stop a.start layouts ∧ a.ServesAll layouts results b := by
  induction layouts generalizing a results with
  | nil =>
      cases h
      exact ⟨trivial, .nil⟩
  | cons l layouts ih =>
      obtain ⟨⟨result, c⟩, hcall, h⟩ := Checked.bind_eq_ok.mp h
      obtain ⟨⟨results, b⟩, hrest, h⟩ := Checked.bind_eq_ok.mp h
      cases h
      have hend : nextMultipleOf a.start l.align + l.size < usizeRange := by
        by_contra hend
        rw [call_overflow (Nat.not_lt.mp hend)] at hcall
        cases hcall
      obtain ⟨result', c', hcall', hserves⟩ := call_serves hallocated hend
      cases hcall.symm.trans hcall'
      obtain ⟨haddressable, hall⟩ := ih (hserves.allocated_le hallocated) hrest
      rw [hserves.start_eq, hserves.answers.1] at haddressable
      exact ⟨⟨hend, haddressable⟩, .cons hserves hall⟩

/-- Calls whose ends are `usize`s return. -/
lemma allocAll_total (hallocated : a.allocated ≤ a.start)
    (h : Addressable a.stop a.start layouts) :
    ∃ results b, a.allocAll layouts = .ok (results, b) := by
  induction layouts generalizing a with
  | nil => exact ⟨[], a, rfl⟩
  | cons l layouts ih =>
      obtain ⟨hend, hrest⟩ := h
      obtain ⟨result, b, hcall, hserves⟩ := call_serves hallocated hend
      rw [← hserves.start_eq, ← hserves.answers.1] at hrest
      obtain ⟨results, c, hrest⟩ := ih (hserves.allocated_le hallocated) hrest
      refine ⟨result :: results, c, ?_⟩
      simp [allocAll, hcall, hrest, pure, Except.pure]

/-- **Calls are exact if and only if their ends are `usize`s.**  For every range and every sequence of
layouts, each call returns the first multiple of the alignment, or an error and leaves the allocator as
it is, exactly as the sizes of the numbers demand, if and only if no call needs an end of 2^64 or more;
a call that does is a panic. -/
theorem allocAll_exact_iff (range : AddressRange) (layouts : List Layout) :
    (∃ results a, (new range).allocAll layouts = .ok (results, a) ∧
      Exact range layouts results a) ↔ Addressable range.stop range.start layouts := by
  have hnew : (new range).allocated ≤ (new range).start := Nat.zero_le _
  constructor
  · rintro ⟨results, a, h, -⟩
    exact (allocAll_returned hnew h).1
  · intro h
    obtain ⟨results, a, hrun⟩ := allocAll_total hnew h
    exact ⟨results, a, hrun, (allocAll_returned hnew hrun).2.exact⟩

/-- A part of the early heap, in the high half, and a request for 2^38 bytes: they would not fit, but the
answer is a panic. -/
theorem not_allocAll_exact :
    let range : AddressRange := ⟨0xffffffc080300000, 0xffffffc080400000⟩
    let layouts : List Layout := [⟨2 ^ 38, 8, ⟨3, rfl⟩, by norm_num⟩]
    (new range).allocAll layouts = .error (.overflow .bumpAlloc) ∧
      ¬ ∃ results a, (new range).allocAll layouts = .ok (results, a) ∧
        Exact range layouts results a := by
  refine ⟨by decide, ?_⟩
  rintro ⟨results, a, h, -⟩
  cases h

/-- In the lower half of the addresses, all ends are `usize`s: that is where the PCI ranges are. -/
theorem addressable_of_lower {start stop : ℕ} (hstart : start ≤ 2 ^ 63) (hstop : stop ≤ 2 ^ 63)
    (layouts : List Layout) : Addressable stop start layouts := by
  induction layouts generalizing start with
  | nil => trivial
  | cons l layouts ih =>
      have hnear := nextMultipleOf_lt l.align_pos start
      have hsize := l.size_le
      have hrange : usizeRange = 2 ^ 63 + 2 ^ 63 := by norm_num [usizeRange]
      refine ⟨by omega, ih ?_⟩
      split
      · omega
      · exact hstart

end BumpAllocator

end Deravel
