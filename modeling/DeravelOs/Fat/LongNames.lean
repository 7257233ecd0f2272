import Mathlib.Data.List.GetD
import DeravelOs.Lib.Chunks
import DeravelOs.Fat.Directory

/-!
# Long names

How the FAT specification stores a long name, and that `coalesce_long_names` reads it back.  The
entries of a set come in reverse, and the units of the last part are followed by a 0 and by `0xFFFF`
if they do not fill it.

* `longEntries`: the set of entries of a name.
* `copyLong_longEntries`: `copy_long` accepts the set and puts the units in order.
* `postprocessLongName_padded`: what `postprocess_long_name` makes of them, whatever the name.
* `coalesceNext_longName`: a name that neither starts nor ends with something to strip comes back as
  it was.
-/

namespace Deravel

variable {units : List UInt16} {text : List Char} {short : DirectoryEntry} {checksum : UInt8}

/-! ## Storing a name -/

/-- The low byte of a unit. -/
def lowByte (u : UInt16) : UInt8 := .ofNat (u.toNat % 256)

/-- The high byte of a unit. -/
def highByte (u : UInt16) : UInt8 := .ofNat (u.toNat / 256)

lemma wordLE_bytes (u : UInt16) : wordLE (lowByte u) (highByte u) = u := by
  have hlt := u.toNat_lt
  have hlow : (lowByte u).toNat = u.toNat % 256 := by simp [lowByte]
  have hhigh : (highByte u).toNat = u.toNat / 256 :=
    UInt8.toNat_ofNat_of_lt' (Nat.div_lt_of_lt_mul hlt)
  rw [wordLE, hlow, hhigh, Nat.mod_add_div, UInt16.ofNat_toNat]

/-- An entry with 13 units of a long name. -/
def longEntry (ordinal checksum : UInt8) (unit : ℕ → UInt16) : DirectoryEntry where
  bytes := #v[ordinal,
    lowByte (unit 0), highByte (unit 0), lowByte (unit 1), highByte (unit 1),
    lowByte (unit 2), highByte (unit 2), lowByte (unit 3), highByte (unit 3),
    lowByte (unit 4), highByte (unit 4), attrLongName, 0, checksum,
    lowByte (unit 5), highByte (unit 5), lowByte (unit 6), highByte (unit 6),
    lowByte (unit 7), highByte (unit 7), lowByte (unit 8), highByte (unit 8),
    lowByte (unit 9), highByte (unit 9), lowByte (unit 10), highByte (unit 10), 0, 0,
    lowByte (unit 11), highByte (unit 11), lowByte (unit 12), highByte (unit 12)]

section LongEntry

variable {ordinal : UInt8} {unit : ℕ → UInt16}

@[simp] lemma longEntry_ord : (longEntry ordinal checksum unit).ord = ordinal := rfl

@[simp] lemma longEntry_attr : (longEntry ordinal checksum unit).attr = attrLongName := rfl

@[simp] lemma longEntry_chksum : (longEntry ordinal checksum unit).chksum = checksum := rfl

@[simp] lemma longEntry_chunk :
    (longEntry ordinal checksum unit).chunk = (List.range maxLongEntryLength).map unit := by
  have hwords : (longEntry ordinal checksum unit).chunk = (List.range maxLongEntryLength).map
      fun i => wordLE (lowByte (unit i)) (highByte (unit i)) := rfl
  simp only [hwords, wordLE_bytes]

end LongEntry

/-- The checksum of a short name: rotated to the right by one bit, with the next byte added. -/
def rotateAdd (shortName : List UInt8) : UInt8 :=
  shortName.foldl
    (fun sum byte => .ofNat (sum.toNat % 2 * 128 + sum.toNat / 2 + byte.toNat)) 0

/-- The number of entries of a name of this length. -/
def longCount (units : List UInt16) : ℕ := (units.length + 12) / 13

/-- The units that are stored: the name, a 0 and padding. -/
def longUnit (units : List UInt16) (i : ℕ) : UInt16 :=
  if i < units.length then units.getD i 0 else if i = units.length then 0 else 0xFFFF

/-- The sequence number of a part, which marks the last one. -/
def longOrdinal (units : List UInt16) (i : ℕ) : UInt8 :=
  .ofNat (i + 1 + if i + 1 = longCount units then 0x40 else 0)

/-- The entries of a long name, the last part first. -/
def longEntries (checksum : UInt8) (units : List UInt16) : List DirectoryEntry :=
  ((List.range (longCount units)).map fun i =>
    longEntry (longOrdinal units i) checksum fun j => longUnit units (i * 13 + j)).reverse

@[simp] lemma longEntries_length : (longEntries checksum units).length = longCount units := by
  simp [longEntries]

/-! ## The parts -/

lemma computeChecksum_eq (shortName : List UInt8) :
    computeChecksum shortName = rotateAdd shortName := by
  have hstep : ∀ sum byte : UInt8,
      (if sum &&& 1 ≠ 0 then (0x80 : UInt8) else 0) + (sum >>> 1) + byte =
        .ofNat (sum.toNat % 2 * 128 + sum.toNat / 2 + byte.toNat) := by
    intro sum byte
    have hbit : ∀ n < 256, (if UInt8.ofNat n &&& 1 ≠ 0 then (0x80 : UInt8) else 0) +
        (UInt8.ofNat n >>> 1) = .ofNat (n % 2 * 128 + n / 2) := by decide +kernel
    have hsum := hbit sum.toNat sum.toNat_lt
    rw [UInt8.ofNat_toNat] at hsum
    rw [hsum, UInt8.ofNat_add _ byte.toNat, UInt8.ofNat_toNat]
  simp only [computeChecksum, rotateAdd, hstep]

lemma longCount_le (hle : units.length ≤ maxLongResultLength) :
    longCount units ≤ maxLongEntries := by
  have hlength : units.length ≤ 255 := hle
  have hmax : maxLongEntries = 20 := rfl
  rw [longCount, hmax]
  omega

lemma longCount_pos (hpos : 0 < units.length) : 0 < longCount units := by
  rw [longCount]
  omega

/-- The sequence numbers are those that `copy_long` asks for. -/
lemma longOrdinal_eq {i : ℕ} (hcount : longCount units ≤ maxLongEntries)
    (hi : i < longCount units) : longOrdinal units i = ord i (longCount units) := by
  have hall : ∀ n ≤ 20, ∀ i < n,
      UInt8.ofNat (i + 1 + if i + 1 = n then 0x40 else 0) = ord i n := by decide
  exact hall _ hcount i hi

/-- The first entry of a set is the last part, and says how many there are. -/
lemma longEntries_eq_cons (checksum : UInt8) (hcount : 0 < longCount units) :
    ∃ rest, longEntries checksum units =
      longEntry (longOrdinal units (longCount units - 1)) checksum
        (fun j => longUnit units ((longCount units - 1) * 13 + j)) :: rest := by
  obtain ⟨n, hn⟩ : ∃ n, longCount units = n + 1 := ⟨longCount units - 1, by omega⟩
  rw [longEntries, hn, List.range_succ, List.map_append, List.reverse_append]
  exact ⟨_, rfl⟩

lemma tryAsFirstLong_longEntry {unit : ℕ → UInt16} (hpos : 0 < longCount units)
    (hcount : longCount units ≤ maxLongEntries) :
    (longEntry (longOrdinal units (longCount units - 1)) checksum unit).tryAsFirstLong =
      .ok (some (longCount units)) := by
  have hall : ∀ n ≤ 20, 0 < n → ord (n - 1) n &&& lastLongEntry ≠ 0 ∧
      (ord (n - 1) n ^^^ lastLongEntry).toNat = n := by decide
  obtain ⟨hlast, hnumber⟩ := hall _ hcount hpos
  have hord := longOrdinal_eq hcount (Nat.sub_one_lt_of_lt hpos)
  have hattr : ¬ (longEntry (longOrdinal units (longCount units - 1)) checksum unit).attr &&&
      attrLongNameMask ≠ attrLongName := by
    rw [longEntry_attr]
    decide
  rw [DirectoryEntry.tryAsFirstLong, if_neg hattr, longEntry_ord, hord, ensure_pos hlast,
    Checked.ok_bind, hnumber]
  exact Checked.bind_eq_ok.mpr ⟨(), ensure_pos ⟨hpos, hcount⟩, rfl⟩

/-- **`copy_long` puts the units of a set in order.** -/
theorem copyLong_longEntries (hcount : longCount units ≤ maxLongEntries) :
    copyLong (longEntries checksum units) checksum =
      .ok ((List.range (longCount units * 13)).map (longUnit units)) := by
  have hbuffer : (longEntries checksum units).length * maxLongEntryLength ≤ maxLongBufferLength := by
    rw [longEntries_length, Nat.mul_comm]
    exact Nat.mul_le_mul_left _ hcount
  have hparts : (longEntries checksum units).reverse.zipIdx.mapM (fun p => do
      ensure (p.1.ord = ord p.2 (longEntries checksum units).length) (.assertion .copyLong)
      ensure (p.1.chksum = checksum) (.assertion .copyLong)
      pure p.1.chunk) = .ok ((longEntries checksum units).reverse.zipIdx.map fun p => p.1.chunk) := by
    refine Checked.mapM_of_ok fun p hp => ?_
    obtain ⟨hlt, hpart⟩ := List.mem_zipIdx' hp
    simp only [longEntries, List.reverse_reverse, List.length_map, List.length_range] at hlt
    simp only [longEntries, List.reverse_reverse, List.getElem_map, List.getElem_range] at hpart
    have hord : p.1.ord = ord p.2 (longEntries checksum units).length := by
      rw [hpart, longEntry_ord, longEntries_length, longOrdinal_eq hcount hlt]
    have hchksum : p.1.chksum = checksum := by rw [hpart, longEntry_chksum]
    rw [ensure_pos hord, Checked.ok_bind, ensure_pos hchksum]
    rfl
  have hchunks : ((longEntries checksum units).reverse.zipIdx.map fun p => p.1.chunk) =
      (List.range (longCount units)).map fun i =>
        (List.range 13).map fun j => longUnit units (i * 13 + j) := by
    rw [show (fun p : DirectoryEntry × ℕ => p.1.chunk) = DirectoryEntry.chunk ∘ Prod.fst from rfl,
      ← List.map_map, List.zipIdx_map_fst, longEntries, List.reverse_reverse, List.map_map]
    exact List.map_congr_left fun i _ => longEntry_chunk
  rw [copyLong, ensure_pos hbuffer, Checked.ok_bind, hparts, Checked.ok_bind, hchunks,
    Chunks.flatten_range]
  rfl

/-! ## The name -/

/-- What is stored behind the units. -/
def longPadding (units : List UInt16) : List UInt16 :=
  if longCount units * 13 = units.length then []
  else 0 :: List.replicate (longCount units * 13 - units.length - 1) 0xFFFF

/-- The units that are stored are the name and its padding. -/
lemma longUnits_eq : (List.range (longCount units * 13)).map (longUnit units) =
    units ++ longPadding units := by
  have hname : (List.range units.length).map (longUnit units) = units := by
    refine List.ext_getElem (by simp) fun i hi hi' => ?_
    simp only [List.getElem_map, List.getElem_range, longUnit, if_pos hi']
    exact List.getD_eq_getElem _ _ hi'
  have hle : units.length ≤ longCount units * 13 := by
    rw [longCount]
    omega
  obtain ⟨extra, hextra⟩ := Nat.exists_eq_add_of_le hle
  have hpadding : (List.range extra).map (fun i => longUnit units (units.length + i)) =
      longPadding units := by
    cases extra with
    | zero => rw [longPadding, if_pos (by omega), List.range_zero, List.map_nil]
    | succ extra =>
        rw [longPadding, if_neg (by omega), List.range_succ_eq_map, List.map_cons, List.map_map]
        have hnull : longUnit units (units.length + 0) = 0 := by simp [longUnit]
        have hrest : ∀ i, longUnit units (units.length + (i + 1)) = 0xFFFF := fun i => by
          rw [longUnit, if_neg (by omega), if_neg (by omega)]
        rw [hnull, show longCount units * 13 - units.length - 1 = extra by omega]
        simp only [Function.comp_def, Nat.succ_eq_add_one, hrest, List.map_const',
          List.length_range]
  rw [hextra, List.range_add, List.map_append, hname, List.map_map]
  exact congrArg (units ++ ·) hpadding

/-- The units that `postprocess_long_name` strips at the front, and those it strips at the back. -/
def trimUnits (units : List UInt16) : List UInt16 :=
  (units.dropWhile (· = utf16Space)).rdropWhile fun cp => cp = utf16Space ∨ cp = utf16Period

/-- A text without the spaces at its front, and without the spaces and periods at its back. -/
def trimText (text : List Char) : List Char :=
  (text.dropWhile (· = ' ')).rdropWhile fun c => c = ' ' ∨ c = '.'

/-- The unit of an ASCII character is only found in that character. -/
lemma mem_encodeChar_ascii {c d : Char} {u : UInt16} (hd : d.toNat < 128) (hu : u.toNat = d.toNat) :
    u ∈ Utf16.encodeChar c ↔ c = d := by
  have hc := Utf16.notSurrogate c
  rw [Utf16.encodeChar, ← Char.toNat_inj, ← hu]
  split
  · next hplane =>
      rw [List.mem_singleton, ← UInt16.toNat_inj, Utf16.toNat_ofNat hplane, eq_comm]
  · next hplane =>
      simp only [List.mem_cons, List.not_mem_nil, or_false, ← UInt16.toNat_inj]
      rw [Utf16.toNat_ofNat (by omega), Utf16.toNat_ofNat (by omega)]
      omega

lemma mem_encodeChar_space {c : Char} : utf16Space ∈ Utf16.encodeChar c ↔ c = ' ' :=
  mem_encodeChar_ascii (by decide) rfl

lemma mem_encodeChar_period {c : Char} : utf16Period ∈ Utf16.encodeChar c ↔ c = '.' :=
  mem_encodeChar_ascii (by decide) rfl

lemma dropWhile_encode (text : List Char) :
    (Utf16.encode text).dropWhile (· = utf16Space) = Utf16.encode (text.dropWhile (· = ' ')) := by
  induction text with
  | nil => rfl
  | cons c text ih =>
      by_cases hc : c = ' '
      · subst hc
        exact ih
      · obtain ⟨u, rest, hu⟩ := List.exists_cons_of_ne_nil (Utf16.encodeChar_ne_nil c)
        have hspace : u ≠ utf16Space := fun heq =>
          hc (mem_encodeChar_space.mp (by rw [hu, heq]; exact List.mem_cons_self))
        rw [List.dropWhile_cons_of_neg (by simpa using hc), Utf16.encode_cons, hu, List.cons_append,
          List.dropWhile_cons_of_neg (by simpa using hspace)]

lemma rdropWhile_encode (text : List Char) :
    (Utf16.encode text).rdropWhile (fun cp => cp = utf16Space ∨ cp = utf16Period) =
      Utf16.encode (text.rdropWhile fun c => c = ' ' ∨ c = '.') := by
  induction text using List.reverseRecOn with
  | nil => rfl
  | append_singleton text c ih =>
      by_cases hc : c = ' ' ∨ c = '.'
      · rw [List.rdropWhile_concat_pos _ _ _ (by simpa using hc), ← ih, Utf16.encode_append]
        rcases hc with rfl | rfl
        · exact List.rdropWhile_concat_pos _ _ _ (by decide)
        · exact List.rdropWhile_concat_pos _ _ _ (by decide)
      · rw [List.rdropWhile_concat_neg _ _ _ (by simpa using hc), List.rdropWhile_eq_self_iff]
        intro hne hlast
        have hmem : (Utf16.encode (text ++ [c])).getLast hne ∈ Utf16.encodeChar c := by
          simp only [Utf16.encode_append, Utf16.encode_cons, Utf16.encode_nil, List.append_nil]
          rw [List.getLast_append_of_ne_nil _ (Utf16.encodeChar_ne_nil c)]
          exact List.getLast_mem _
        rcases of_decide_eq_true hlast with h | h
        · exact hc (Or.inl (mem_encodeChar_space.mp (h ▸ hmem)))
        · exact hc (Or.inr (mem_encodeChar_period.mp (h ▸ hmem)))

/-- Trimming the units trims the text. -/
lemma trimUnits_encode (text : List Char) :
    trimUnits (Utf16.encode text) = Utf16.encode (trimText text) := by
  rw [trimUnits, dropWhile_encode, rdropWhile_encode, trimText]

lemma trimUnits_sublist (units : List UInt16) : (trimUnits units).Sublist units :=
  (List.rdropWhile_prefix _ _).sublist.trans (List.dropWhile_sublist _)

/-- The padding is cut off. -/
lemma cutAtNull_padded (hnull : 0 ∉ units) (stored : List UInt16) :
    cutAtNull (units ++ longPadding stored) = .ok units := by
  rw [longPadding]
  split
  · rw [List.append_nil, cutAtNull, Text.splitOnce_eq_none.mpr hnull]
    rfl
  · rw [cutAtNull, Text.splitOnce_eq_some.mpr ⟨rfl, hnull⟩]
    exact Checked.bind_eq_ok.mpr
      ⟨(), ensure_pos fun cp hcp => List.eq_of_mem_replicate hcp, rfl⟩

/-- Spaces are only stripped from the name. -/
lemma dropWhile_padded (stored : List UInt16) :
    (units ++ longPadding stored).dropWhile (· = utf16Space) =
      units.dropWhile (· = utf16Space) ++ longPadding stored := by
  have hpadding : (longPadding stored).dropWhile (· = utf16Space) = longPadding stored := by
    rw [longPadding]
    split
    · rfl
    · exact List.dropWhile_cons_of_neg (by decide)
  rw [List.dropWhile_append]
  split
  · next hempty => rw [hpadding, List.isEmpty_iff.mp hempty, List.nil_append]
  · rfl

/-- **What `postprocess_long_name` makes of a name that was stored.**  It strips it, and refuses it if
one of its units is not allowed. -/
theorem postprocessLongName_padded (htext : Utf16.decode units = some text) (hnull : 0 ∉ units)
    (hle : units.length ≤ maxLongResultLength) :
    postprocessLongName (units ++ longPadding units) =
      if ∀ cp ∈ trimUnits units, isValidLongChar cp then .ok (trimText text)
      else .error (.assertion .postprocessLongName) := by
  have hnull' : 0 ∉ units.dropWhile (· = utf16Space) := fun h =>
    hnull ((List.dropWhile_sublist _).subset h)
  have htrim : Utf16.decode (trimUnits units) = some (trimText text) := by
    rw [← Utf16.encode_of_decode htext, trimUnits_encode, Utf16.decode_encode]
  have hlength : (trimUnits units).length ≤ maxLongResultLength :=
    (trimUnits_sublist units).length_le.trans hle
  rw [postprocessLongName, dropWhile_padded, cutAtNull_padded hnull', Checked.ok_bind]
  split
  · next hvalid =>
      refine Checked.bind_eq_ok.mpr ⟨(), ensure_pos hvalid, ?_⟩
      refine Checked.bind_eq_ok.mpr ⟨(), ensure_pos hlength, ?_⟩
      rw [← trimUnits, htrim]
      rfl
  · next hvalid =>
      change ((ensure (∀ cp ∈ trimUnits units, isValidLongChar cp = true)
        (.assertion .postprocessLongName)) >>= fun _ => _) = _
      rw [ensure_neg hvalid]
      rfl

/-! ## Reading a name back -/

/-- One step of the iterator at the set of a name. -/
lemma coalesceNext_longEntries (htext : Utf16.decode units = some text) (hpos : 0 < units.length)
    (hle : units.length ≤ maxLongResultLength) (hnull : 0 ∉ units) (short : DirectoryEntry)
    (rest : List DirectoryEntry) :
    coalesceNext (longEntries (rotateAdd short.name) units ++ short :: rest) =
      if ∀ cp ∈ trimUnits units, isValidLongChar cp then
        .ok ((short, some (trimText text)), short :: rest)
      else .error (.assertion .postprocessLongName) := by
  have hcount := longCount_le hle
  have hpos := longCount_pos hpos
  obtain ⟨others, hfirst⟩ := longEntries_eq_cons (rotateAdd short.name) hpos
  have hlength : (longEntries (rotateAdd short.name) units).length = longCount units :=
    longEntries_length
  have hshort : (longEntries (rotateAdd short.name) units ++ short :: rest)[longCount units]? =
      some short := by
    rw [← hlength, List.getElem?_append_right le_rfl, Nat.sub_self]
    rfl
  have htake : (longEntries (rotateAdd short.name) units ++ short :: rest).take (longCount units) =
      longEntries (rotateAdd short.name) units := by
    rw [← hlength, List.take_left]
  have hdrop : (longEntries (rotateAdd short.name) units ++ short :: rest).drop (longCount units) =
      short :: rest := by
    rw [← hlength, List.drop_left]
  rw [hfirst, List.cons_append] at hshort htake hdrop ⊢
  rw [← hfirst] at htake
  simp only [coalesceNext, tryAsFirstLong_longEntry hpos hcount, Checked.ok_bind, hshort, htake,
    hdrop, computeChecksum_eq, copyLong_longEntries hcount, longUnits_eq,
    postprocessLongName_padded htext hnull hle]
  split
  · rfl
  · rfl

/-- A name without anything to strip is not changed. -/
lemma trimUnits_eq_self (hfront : units.head? ≠ some utf16Space)
    (hback : ∀ cp ∈ [utf16Space, utf16Period], units.getLast? ≠ some cp) :
    trimUnits units = units := by
  have hdrop : units.dropWhile (· = utf16Space) = units := by
    rw [List.dropWhile_eq_self_iff]
    intro hlength hfirst
    rw [List.head?_eq_getElem?, List.getElem?_eq_getElem hlength] at hfront
    exact hfront (congrArg some (of_decide_eq_true hfirst))
  rw [trimUnits, hdrop, List.rdropWhile_eq_self_iff]
  intro hne hlast
  rw [List.getLast?_eq_some_getLast hne] at hback
  rcases of_decide_eq_true hlast with h | h
  · exact hback _ (by simp) (congrArg some h)
  · exact hback _ (by simp) (congrArg some h)

/-- **Long names come back as they were stored.**  This is so for every name of up to 255 units that
is valid UTF-16, has only units that `is_valid_long_char` allows, and neither starts with a space nor
ends with a space or a period. -/
theorem coalesceNext_longName (units : List UInt16) (text : List Char)
    (htext : Utf16.decode units = some text) (hpos : 1 ≤ units.length)
    (hle : units.length ≤ 255) (hvalid : ∀ cp ∈ units, isValidLongChar cp)
    (hfront : units.head? ≠ some utf16Space)
    (hback : ∀ cp ∈ [utf16Space, utf16Period], units.getLast? ≠ some cp)
    (short : DirectoryEntry) (rest : List DirectoryEntry) :
    ∃ left, coalesceNext (longEntries (rotateAdd short.name) units ++ short :: rest) =
      .ok ((short, some text), left) := by
  have hnull : 0 ∉ units := fun h => absurd (hvalid 0 h) (by decide)
  have htrim := trimUnits_eq_self hfront hback
  have hsame : trimText text = text := by
    have hunits : Utf16.encode (trimText text) = units := by
      rw [← trimUnits_encode, Utf16.encode_of_decode htext, htrim]
    have hdecode := Utf16.decode_encode (trimText text)
    rw [hunits, htext] at hdecode
    exact (Option.some.inj hdecode).symm
  have hstep := coalesceNext_longEntries htext hpos hle hnull short rest
  rw [htrim, if_pos hvalid, hsame] at hstep
  exact ⟨short :: rest, hstep⟩

/-- The short entry of a file, with spaces in all other fields, too. -/
def blankEntry : DirectoryEntry := ⟨Vector.replicate 32 0x20⟩

theorem coalesceNext_longName_two :
    ∃ left, coalesceNext (longEntries (rotateAdd blankEntry.name) [0xE9, 0x61] ++ [blankEntry]) =
      .ok ((blankEntry, some ['é', 'a']), left) :=
  coalesceNext_longName [0xE9, 0x61] ['é', 'a'] (by decide) (by decide) (by decide) (by decide)
    (by decide) (by decide) blankEntry []

end Deravel
