import Mathlib.Data.Nat.Bitwise
import Mathlib.Tactic.Common

/-!
# Canonical addresses

An address of `bits` bits stands in a register of `width` bits with its highest bit copied to all bits
above.  With `bits = n + 1`, the addresses from `2 ^ n` on get a run of ones in front.

* `extend`: the canonical form of an address.
* `extend_upper`: what it is in the upper half.
* `and_highest`, `carry_or`: how the ones are made out of the highest bit by a carry.
* `extend_mod`: cutting the ones off again.
-/

namespace Canonical

/-- The canonical form of an address. -/
def extend (bits width a : ℕ) : ℕ := ((BitVec.ofNat bits a).signExtend width).toNat

variable {n width a : ℕ}

/-- The ones in front of an address, as a multiple of its range. -/
lemma ones_eq (hn : n + 1 ≤ width) :
    2 ^ width - 2 ^ (n + 1) = 2 ^ (n + 1) * (2 ^ (width - (n + 1)) - 1) := by
  rw [Nat.mul_sub, mul_one, ← pow_add, Nat.add_sub_cancel' hn]

/-- In the upper half, the highest bit is set. -/
lemma extend_upper (hn : n + 1 ≤ width) (hle : 2 ^ n ≤ a) (hlt : a < 2 ^ (n + 1)) :
    extend (n + 1) width a = 2 ^ width - 2 ^ (n + 1) + a := by
  have hpow : 2 ^ (n + 1) ≤ 2 ^ width := Nat.pow_le_pow_right Nat.two_pos hn
  have hmsb : (BitVec.ofNat (n + 1) a).msb = true := by
    simp [BitVec.msb_eq_decide, Nat.mod_eq_of_lt hlt, hle]
  rw [extend, BitVec.toNat_signExtend, hmsb, if_pos rfl, BitVec.toNat_setWidth, BitVec.toNat_ofNat,
    Nat.mod_eq_of_lt hlt, Nat.mod_eq_of_lt (hlt.trans_le hpow), Nat.add_comm]

/-- In the upper half, the highest bit is all that a mask with one bit leaves. -/
lemma and_highest (hle : 2 ^ n ≤ a) (hlt : a < 2 ^ (n + 1)) : a &&& 2 ^ n = 2 ^ n := by
  rw [Nat.and_two_pow, Nat.testBit_of_two_pow_le_and_two_pow_add_one_gt hle hlt]
  simp

/-- The complement of the ones below is the ones above, and none of them is a bit of the address. -/
lemma carry_or (hn : n + 1 ≤ width) (hlt : a < 2 ^ (n + 1)) :
    (2 ^ width - 1 - (2 ^ (n + 1) - 1)) ||| a = 2 ^ width - 2 ^ (n + 1) + a := by
  have hpos : 0 < 2 ^ (n + 1) := Nat.two_pow_pos _
  have hones : 2 ^ width - 1 - (2 ^ (n + 1) - 1) = 2 ^ width - 2 ^ (n + 1) := by omega
  rw [hones, ones_eq hn, Nat.two_pow_add_eq_or_of_lt hlt]

/-- The copies can be cut off again. -/
lemma extend_mod (hn : n + 1 ≤ width) (hlt : a < 2 ^ (n + 1)) :
    (2 ^ width - 2 ^ (n + 1) + a) % 2 ^ (n + 1) = a := by
  rw [ones_eq hn, Nat.mul_add_mod, Nat.mod_eq_of_lt hlt]

end Canonical
