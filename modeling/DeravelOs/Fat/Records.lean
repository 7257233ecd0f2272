import DeravelOs.Fat.LongNames

/-!
# The records of a directory

A file has a short entry, and in front of it the set of its long name if it has one.  Iterating
`coalesce_long_names` should take a directory apart into these records.  It does not step over the
short entry behind a long name (`&entries[long_count..]` is short by one), and so yields it twice.

* `LongName`, `Record`: names and files as the specification has them.
* `coalesceNext_record`: what one step of the iterator does at a record.
* `coalesce_records_iff`: the iterator takes a directory apart if and only if no file has a long name.
-/

namespace Deravel

/-- A long name: up to 255 units, of which none is 0. -/
structure LongName where
  text : List Char
  pos : 0 < (Utf16.encode text).length
  le_max : (Utf16.encode text).length ≤ maxLongResultLength
  notNull : 0 ∉ Utf16.encode text

/-- The units of a name. -/
def LongName.units (name : LongName) : List UInt16 := Utf16.encode name.text

/-- `postprocess_long_name` accepts what is left of the name when it is stripped. -/
def LongName.Accepted (name : LongName) : Prop := ∀ cp ∈ trimUnits name.units, isValidLongChar cp

instance (name : LongName) : Decidable name.Accepted :=
  inferInstanceAs (Decidable (∀ _ ∈ _, _))

/-- A file in a directory. -/
structure Record where
  short : DirectoryEntry
  notLong : ¬ short.IsLong
  long : Option LongName

namespace Record

/-- The entries of a file. -/
def entries (r : Record) : List DirectoryEntry :=
  match r.long with
  | some name => longEntries (rotateAdd r.short.name) name.units ++ [r.short]
  | none => [r.short]

/-- What the iterator should yield for a file. -/
def item (r : Record) : Item := (r.short, r.long.map LongName.text)

end Record

variable {r : Record} {name : LongName} {entries : List DirectoryEntry}

/-! ## One step -/

lemma tryAsFirstLong_short {e : DirectoryEntry} (h : ¬ e.IsLong) :
    e.tryAsFirstLong = .ok none := by
  have hattr : e.attr &&& attrLongNameMask ≠ attrLongName := h
  rw [DirectoryEntry.tryAsFirstLong, if_pos hattr]
  rfl

/-- An entry that is no part of a long name is yielded alone. -/
lemma coalesceNext_short {e : DirectoryEntry} (h : ¬ e.IsLong) (rest : List DirectoryEntry) :
    coalesceNext (e :: rest) = .ok ((e, none), rest) := by
  rw [coalesceNext, tryAsFirstLong_short h]
  rfl

/-- At a file with a long name the iterator stops in front of the short entry. -/
lemma coalesceNext_long (hlong : r.long = some name) (rest : List DirectoryEntry) :
    coalesceNext (r.entries ++ rest) =
      if name.Accepted then .ok ((r.short, some (trimText name.text)), r.short :: rest)
      else .error (.assertion .postprocessLongName) := by
  have hentries : r.entries ++ rest =
      longEntries (rotateAdd r.short.name) name.units ++ r.short :: rest := by
    rw [Record.entries, hlong, List.append_assoc]
    rfl
  rw [hentries]
  exact coalesceNext_longEntries (Utf16.decode_encode name.text) name.pos name.le_max name.notNull _ _

/-- **One step of the iterator consumes the entries of a record** if and only if it has no long
name. -/
lemma coalesceNext_record (r : Record) (rest : List DirectoryEntry) :
    (∃ item, coalesceNext (r.entries ++ rest) = .ok (item, rest)) ↔ r.long = none := by
  cases hlong : r.long with
  | none =>
      have hentries : r.entries = [r.short] := by rw [Record.entries, hlong]
      rw [hentries, List.singleton_append, coalesceNext_short r.notLong]
      exact ⟨fun _ => rfl, fun _ => ⟨_, rfl⟩⟩
  | some name =>
      refine ⟨?_, nofun⟩
      rintro ⟨item, hstep⟩
      rw [coalesceNext_long hlong] at hstep
      split at hstep
      · have hleft := (Prod.mk.inj (Except.ok.inj hstep)).2
        exact absurd hleft (List.cons_ne_self _ _)
      · cases hstep

/-! ## The whole iterator -/

section Steps

variable {n : ℕ} {item : Item} {items : List Item} {rest left : List DirectoryEntry}

/-- The first of so many steps. -/
lemma coalesce_cons (hnext : coalesceNext entries = .ok (item, rest))
    (hothers : coalesce n rest = .ok (items, left)) :
    coalesce (n + 1) entries = .ok (item :: items, left) := by
  simp only [coalesce, hnext, hothers, Checked.ok_bind]
  rfl

/-- The last of so many steps. -/
lemma coalesce_succ (h : coalesce (n + 1) entries = .ok (items, left)) :
    ∃ before middle item, coalesce n entries = .ok (before, middle) ∧
      coalesceNext middle = .ok (item, left) := by
  induction n generalizing entries items with
  | zero =>
      obtain ⟨⟨item, rest⟩, hnext, h⟩ := Checked.bind_eq_ok.mp h
      obtain ⟨⟨others, rest'⟩, hothers, h⟩ := Checked.bind_eq_ok.mp h
      cases hothers
      cases h
      exact ⟨[], entries, item, rfl, hnext⟩
  | succ n ih =>
      obtain ⟨⟨item, rest⟩, hnext, h⟩ := Checked.bind_eq_ok.mp h
      obtain ⟨⟨others, rest'⟩, hothers, h⟩ := Checked.bind_eq_ok.mp h
      cases h
      obtain ⟨before, middle, last, hbefore, hlast⟩ := ih hothers
      exact ⟨item :: before, middle, last, coalesce_cons hnext hbefore, hlast⟩

end Steps

/-- The iterator takes the first `k` records of a directory apart. -/
def Coalesces (records : List Record) (k : ℕ) : Prop :=
  coalesce k (records.flatMap Record.entries) =
    .ok ((records.take k).map Record.item, (records.drop k).flatMap Record.entries)

/-- Files without long names are taken apart. -/
lemma coalesces_of_short : ∀ {records : List Record} (_ : ∀ r ∈ records, r.long = none) {k : ℕ}
    (_ : k ≤ records.length), Coalesces records k := by
  intro records
  induction records with
  | nil =>
      intro _ k hk
      obtain rfl := Nat.le_zero.mp hk
      rfl
  | cons r records ih =>
      intro hshort k hk
      cases k with
      | zero => rfl
      | succ k =>
          have hnone := hshort r List.mem_cons_self
          have hentries : r.entries = [r.short] := by rw [Record.entries, hnone]
          have hrest := ih (fun r' hr' => hshort r' (List.mem_cons_of_mem _ hr'))
            (Nat.le_of_succ_le_succ hk)
          have hitem : r.item = (r.short, none) := by rw [Record.item, hnone, Option.map_none]
          rw [Coalesces, List.flatMap_cons, hentries, List.take_succ_cons, List.drop_succ_cons,
            List.map_cons, hitem]
          exact coalesce_cons (coalesceNext_short r.notLong _) hrest

/-- **Each record is yielded once,** in order and with just its own entries consumed, if and only if
no file of the directory has a long name.  The slice that is left behind a long name is advanced by the
number of its entries only, and not by the short entry that belongs to it: that one is yielded a second
time, as a file of its own. -/
theorem coalesce_records_iff (records : List Record) :
    (∀ k ≤ records.length, Coalesces records k) ↔ ∀ r ∈ records, r.long = none := by
  refine ⟨fun h r hr => ?_, fun h k hk => coalesces_of_short h hk⟩
  obtain ⟨front, back, rfl⟩ := List.append_of_mem hr
  have hbefore : Coalesces (front ++ r :: back) front.length := h _ (by simp)
  have hafter : Coalesces (front ++ r :: back) (front.length + 1) := h _ (by simp)
  obtain ⟨items, middle, item, hitems, hlast⟩ := coalesce_succ hafter
  rw [Coalesces, hitems] at hbefore
  have hmiddle := (Prod.mk.inj (Except.ok.inj hbefore)).2
  rw [List.drop_left, List.flatMap_cons] at hmiddle
  rw [hmiddle, ← List.singleton_append (x := r), ← List.append_assoc, List.drop_left'
    (by simp)] at hlast
  exact (coalesceNext_record r _).mp ⟨item, hlast⟩

/-- A file with the long name `a`. -/
def longRecord : Record where
  short := blankEntry
  notLong := by decide
  long := some ⟨['a'], by decide, by decide, by decide⟩

/-- The short entry behind a long name is left for the next step. -/
theorem not_coalesce_records : ¬ ∀ k ≤ [longRecord].length, Coalesces [longRecord] k := by
  intro h
  have hone : coalesce 1 longRecord.entries = .ok ([longRecord.item], []) := by
    simpa [Coalesces] using h 1 le_rfl
  have htwice : coalesce 1 longRecord.entries = .ok ([longRecord.item], [blankEntry]) := by
    decide +kernel
  rw [htwice] at hone
  cases hone

end Deravel
