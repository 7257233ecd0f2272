import Mathlib.Tactic

/-!
# UTF-16

Text as code units of 16 bits.  A character outside of the first plane is two units, a high and a low
surrogate.

* `Utf16.encode`, `Utf16.decode`: the two directions.
* `Utf16.decode_encode`, `Utf16.encode_of_decode`: each undoes the other, so that a sequence of units
  can be decoded if and only if it is the encoding of a text.
-/

namespace Utf16

/-- The units of a character. -/
def encodeChar (c : Char) : List UInt16 :=
  if c.toNat < 0x10000 then
    [.ofNat c.toNat]
  else
    [.ofNat (0xD800 + (c.toNat - 0x10000) / 0x400), .ofNat (0xDC00 + (c.toNat - 0x10000) % 0x400)]

/-- The units of a text. -/
def encode (text : List Char) : List UInt16 := text.flatMap encodeChar

/-- The first half of a pair. -/
abbrev IsHigh (u : UInt16) : Prop := 0xD800 ≤ u.toNat ∧ u.toNat < 0xDC00

/-- The second half of a pair. -/
abbrev IsLow (u : UInt16) : Prop := 0xDC00 ≤ u.toNat ∧ u.toNat < 0xE000

/-- The character of a pair. -/
def ofPair (high low : UInt16) : Char :=
  .ofNat (0x10000 + (high.toNat - 0xD800) * 0x400 + (low.toNat - 0xDC00))

/-- The text of these units; a half without its other half has none. -/
def decode : List UInt16 → Option (List Char)
  | [] => some []
  | [u] => if IsHigh u ∨ IsLow u then none else some [.ofNat u.toNat]
  | u :: w :: units =>
      if IsHigh u ∧ IsLow w then (decode units).map (ofPair u w :: ·)
      else if IsHigh u ∨ IsLow u then none
      else (decode (w :: units)).map (.ofNat u.toNat :: ·)

@[simp] lemma encode_nil : encode [] = [] := rfl

@[simp] lemma encode_cons (c : Char) (text : List Char) :
    encode (c :: text) = encodeChar c ++ encode text := rfl

lemma encode_append (front back : List Char) :
    encode (front ++ back) = encode front ++ encode back := List.flatMap_append

lemma encodeChar_ne_nil (c : Char) : encodeChar c ≠ [] := by
  rw [encodeChar]
  split <;> exact List.cons_ne_nil _ _

/-! ## One character -/

lemma toNat_ofNat {n : ℕ} (h : n < 0x10000) : (UInt16.ofNat n).toNat = n :=
  UInt16.toNat_ofNat_of_lt h

/-- A character of the first plane is not a surrogate. -/
lemma notSurrogate (c : Char) : c.toNat < 0xD800 ∨ 0xE000 ≤ c.toNat ∧ c.toNat < 0x110000 := by
  rcases c.valid with h | h
  · exact Or.inl h
  · exact Or.inr ⟨Nat.succ_le_of_lt h.1, h.2⟩

lemma toNat_charOfNat {n : ℕ} (h : n < 0xD800 ∨ 0xE000 ≤ n ∧ n < 0x110000) :
    (Char.ofNat n).toNat = n := by
  have hvalid : n.isValidChar := by
    rcases h with h | h
    · exact Or.inl h
    · exact Or.inr ⟨by omega, h.2⟩
  rw [Char.ofNat, dif_pos hvalid]
  rfl

/-- A unit that stands for itself in front of others. -/
lemma decode_single {u : UInt16} (hhigh : ¬ IsHigh u) (hlow : ¬ IsLow u) (units : List UInt16) :
    decode (u :: units) = (decode units).map (.ofNat u.toNat :: ·) := by
  cases units with
  | nil => simp [decode, hhigh, hlow]
  | cons w units => simp [decode, hhigh, hlow]

lemma decode_pair {u w : UInt16} (hhigh : IsHigh u) (hlow : IsLow w) (units : List UInt16) :
    decode (u :: w :: units) = (decode units).map (ofPair u w :: ·) := by
  rw [decode, if_pos ⟨hhigh, hlow⟩]

/-- The units of a character are decoded to it. -/
lemma decode_encodeChar (c : Char) (units : List UInt16) :
    decode (encodeChar c ++ units) = (decode units).map (c :: ·) := by
  have hc := notSurrogate c
  by_cases hplane : c.toNat < 0x10000
  · have hu : (UInt16.ofNat c.toNat).toNat = c.toNat := toNat_ofNat hplane
    have hhigh : ¬ IsHigh (.ofNat c.toNat) := by
      rw [IsHigh, hu]
      omega
    have hlow : ¬ IsLow (.ofNat c.toNat) := by
      rw [IsLow, hu]
      omega
    rw [encodeChar, if_pos hplane, List.singleton_append, decode_single hhigh hlow, hu,
      Char.ofNat_toNat]
  · have hu : (UInt16.ofNat (0xD800 + (c.toNat - 0x10000) / 0x400)).toNat =
        0xD800 + (c.toNat - 0x10000) / 0x400 := toNat_ofNat (by omega)
    have hw : (UInt16.ofNat (0xDC00 + (c.toNat - 0x10000) % 0x400)).toNat =
        0xDC00 + (c.toNat - 0x10000) % 0x400 := toNat_ofNat (by omega)
    have hchar : ofPair (.ofNat (0xD800 + (c.toNat - 0x10000) / 0x400))
        (.ofNat (0xDC00 + (c.toNat - 0x10000) % 0x400)) = c := by
      rw [ofPair, hu, hw]
      have hsum : 0x10000 + (0xD800 + (c.toNat - 0x10000) / 0x400 - 0xD800) * 0x400 +
          (0xDC00 + (c.toNat - 0x10000) % 0x400 - 0xDC00) = c.toNat := by
        omega
      rw [hsum, Char.ofNat_toNat]
    rw [encodeChar, if_neg hplane, List.cons_append, List.cons_append, List.nil_append,
      decode_pair ⟨by omega, by omega⟩ ⟨by omega, by omega⟩, hchar]

/-! ## Texts -/

/-- **Decoding undoes encoding.** -/
theorem decode_encode (text : List Char) : decode (encode text) = some text := by
  induction text with
  | nil => rfl
  | cons c text ih => rw [encode_cons, decode_encodeChar, ih, Option.map_some]

lemma encodeChar_of_unit {u : UInt16} (hhigh : ¬ IsHigh u) (hlow : ¬ IsLow u) :
    encodeChar (.ofNat u.toNat) = [u] := by
  have hlt := u.toNat_lt
  have hu : (Char.ofNat u.toNat).toNat = u.toNat := toNat_charOfNat (by omega)
  rw [encodeChar, hu, if_pos (by omega), UInt16.ofNat_toNat]

lemma encodeChar_ofPair {u w : UInt16} (hhigh : IsHigh u) (hlow : IsLow w) :
    encodeChar (ofPair u w) = [u, w] := by
  have hc : (ofPair u w).toNat = 0x10000 + (u.toNat - 0xD800) * 0x400 + (w.toNat - 0xDC00) :=
    toNat_charOfNat (by omega)
  have hu : 0xD800 + ((ofPair u w).toNat - 0x10000) / 0x400 = u.toNat := by omega
  have hw : 0xDC00 + ((ofPair u w).toNat - 0x10000) % 0x400 = w.toNat := by omega
  rw [encodeChar, if_neg (by omega), hu, hw, UInt16.ofNat_toNat, UInt16.ofNat_toNat]

/-- **Encoding undoes decoding.** -/
theorem encode_of_decode {units : List UInt16} {text : List Char} (h : decode units = some text) :
    encode text = units := by
  induction units using decode.induct generalizing text with
  | case1 =>
      cases h
      rfl
  | case2 u hsurrogate =>
      rw [decode, if_pos hsurrogate] at h
      cases h
  | case3 u hsurrogate =>
      rw [decode, if_neg hsurrogate] at h
      cases h
      rw [encode_cons, encode_nil, List.append_nil]
      exact encodeChar_of_unit (fun hhigh => hsurrogate (Or.inl hhigh))
        fun hlow => hsurrogate (Or.inr hlow)
  | case4 u w units hpair ih =>
      rw [decode, if_pos hpair] at h
      obtain ⟨rest, hrest, rfl⟩ := Option.map_eq_some_iff.mp h
      rw [encode_cons, encodeChar_ofPair hpair.1 hpair.2, ih hrest]
      rfl
  | case5 u w units hpair hsurrogate =>
      rw [decode, if_neg hpair, if_pos hsurrogate] at h
      cases h
  | case6 u w units hpair hsurrogate ih =>
      rw [decode, if_neg hpair, if_neg hsurrogate] at h
      obtain ⟨rest, hrest, rfl⟩ := Option.map_eq_some_iff.mp h
      rw [encode_cons, ih hrest, encodeChar_of_unit (fun hhigh => hsurrogate (Or.inl hhigh))
        fun hlow => hsurrogate (Or.inr hlow)]
      rfl

end Utf16
