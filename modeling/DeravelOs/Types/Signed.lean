import DeravelOs.Types.Basic

/-!
# Signed machine words

An `isize` or an `i32` is an integer here.  Its arithmetic is checked, but `as` is not: it takes the same
bits for a number of the other type.
-/

namespace Deravel

/-- The values of an `isize`. -/
def InIsize (i : ℤ) : Prop := -2 ^ 63 ≤ i ∧ i < 2 ^ 63

instance (i : ℤ) : Decidable (InIsize i) := inferInstanceAs (Decidable (_ ∧ _))

/-- An `isize` that has been computed. -/
def isizeChecked (site : Site) (i : ℤ) : Checked ℤ :=
  if InIsize i then pure i else throw (.overflow site)

/-- Checked negation. -/
def isizeNeg (site : Site) (a : ℤ) : Checked ℤ := isizeChecked site (-a)

/-- Checked addition. -/
def isizeAdd (site : Site) (a b : ℤ) : Checked ℤ := isizeChecked site (a + b)

/-- Checked subtraction. -/
def isizeSub (site : Site) (a b : ℤ) : Checked ℤ := isizeChecked site (a - b)

/-- The values of an `i32`. -/
def InI32 (i : ℤ) : Prop := -2 ^ 31 ≤ i ∧ i < 2 ^ 31

instance (i : ℤ) : Decidable (InI32 i) := inferInstanceAs (Decidable (_ ∧ _))

/-- An `i32` that has been computed. -/
def i32Checked (site : Site) (i : ℤ) : Checked ℤ :=
  if InI32 i then pure i else throw (.overflow site)

/-- Checked addition. -/
def i32Add (site : Site) (a b : ℤ) : Checked ℤ := i32Checked site (a + b)

/-- Checked subtraction. -/
def i32Sub (site : Site) (a b : ℤ) : Checked ℤ := i32Checked site (a - b)

/-- `as i32` of a number that is not signed -/
def asI32 (n : ℕ) : ℤ := if n % 2 ^ 32 < 2 ^ 31 then (n % 2 ^ 32 : ℕ) else (n % 2 ^ 32 : ℕ) - 2 ^ 32

/-- `as u32` of an `i32` -/
def asU32 (i : ℤ) : ℕ := if 0 ≤ i then i.toNat else (i + 2 ^ 32).toNat

/-- `as isize` of a `usize` -/
def asIsize (n : ℕ) : ℤ := if n < 2 ^ 63 then n else n - 2 ^ 64

/-- `as usize` of an `isize` -/
def asUsize (i : ℤ) : ℕ := if 0 ≤ i then i.toNat else (i + 2 ^ 64).toNat

section Signed

variable {site : Site} {a b c i : ℤ} {n : ℕ}

@[simp] lemma isizeNeg_of_in (h : InIsize (-a)) : isizeNeg site a = .ok (-a) := if_pos h

@[simp] lemma isizeAdd_of_in (h : InIsize (a + b)) : isizeAdd site a b = .ok (a + b) := if_pos h

lemma isizeAdd_eq_ok : isizeAdd site a b = .ok c ↔ InIsize (a + b) ∧ c = a + b :=
  Checked.ite_eq_ok

@[simp] lemma isizeSub_of_in (h : InIsize (a - b)) : isizeSub site a b = .ok (a - b) := if_pos h

lemma asIsize_of_lt (h : n < 2 ^ 63) : asIsize n = n := if_pos h

@[simp] lemma i32Add_of_in (h : InI32 (a + b)) : i32Add site a b = .ok (a + b) := if_pos h

@[simp] lemma i32Sub_of_in (h : InI32 (a - b)) : i32Sub site a b = .ok (a - b) := if_pos h

lemma asI32_of_lt (h : n < 2 ^ 31) : asI32 n = n := by
  have hsmall : n % 2 ^ 32 = n := Nat.mod_eq_of_lt (by omega)
  rw [asI32, hsmall, if_pos h]

/-- A number that is positive as an `isize` is the same one. -/
lemma asIsize_of_pos (h : 0 < asIsize n) (hn : n < usizeRange) : n < 2 ^ 63 ∧ asIsize n = n := by
  rw [usizeRange] at hn
  rw [asIsize] at h ⊢
  split at h
  · next hlt => exact ⟨hlt, if_pos hlt⟩
  · omega

lemma asUsize_of_nonneg (h : 0 ≤ i) : asUsize i = i.toNat := if_pos h

lemma asUsize_natCast (n : ℕ) : asUsize n = n := by simp [asUsize]

/-- A negative number becomes a huge one. -/
lemma asUsize_of_neg (hneg : i < 0) (h : InIsize i) : 2 ^ 63 ≤ asUsize i := by
  obtain ⟨hle, -⟩ := h
  rw [asUsize, if_neg (not_le.mpr hneg)]
  omega

end Signed

end Deravel
