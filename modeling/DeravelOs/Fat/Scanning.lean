import DeravelOs.Fat.Paths
import DeravelOs.Fat.Records

/-!
# Scanning a directory

What the FAT specification allows in a directory, and for which segments the loop of `traverse_path`
gets through it.  The assertions about long names are made before the entries are looked at, and the
iterator does not know where the directory ends.

* `Slot`, `Listing`: files, deleted entries and the end of a directory.
* `scanDirectory_long`, `scanDirectory_short`, `scanDirectory_deleted`: what the loop does at a slot.
* `scanDirectory_ok_iff`: it gets through if and only if it meets no deleted part of a long name, no
  name with a plus sign and no end without a marker.
-/

namespace Deravel

/-! ## Directories on the disk -/

/-- `+`, which may be part of a long name. -/
def utf16Plus : UInt16 := 0x2B

/-- The units of the name are those that the specification allows. -/
def LongName.Legal (name : LongName) : Prop :=
  ∀ cp ∈ name.units, isValidLongChar cp ∨ cp = utf16Plus

/-- What a directory consists of. -/
inductive Slot
  | file (r : Record) (inUse : r.short.byte 0 ≠ 0xE5 ∧ r.short.byte 0 ≠ 0)
      (legal : ∀ name ∈ r.long, name.Legal)
  | deleted (e : DirectoryEntry) (mark : e.byte 0 = 0xE5)

/-- How a directory ends.  Behind a marker there may be anything. -/
inductive Ending
  | full
  | marker (e : DirectoryEntry) (null : e.byte 0 = 0) (rest : List DirectoryEntry)

/-- A directory as the specification has it. -/
structure Listing where
  slots : List Slot
  ending : Ending

def Slot.entries : Slot → List DirectoryEntry
  | .file r _ _ => r.entries
  | .deleted e _ => [e]

def Ending.entries : Ending → List DirectoryEntry
  | .full => []
  | .marker e _ rest => e :: rest

def Listing.entries (l : Listing) : List DirectoryEntry :=
  l.slots.flatMap Slot.entries ++ l.ending.entries

/-! ## Names in a directory -/

/-- The name of a file is the segment.  A long name is compared without what is stripped from it, and a
file that has one is known by its short name too. -/
def Record.Named (segment : List Char) (r : Record) : Prop :=
  (∃ name ∈ r.long, trimText name.text = segment) ∨ toShortName segment = some r.short.name

/-- The slot is a file of this name. -/
def Slot.Named (segment : List Char) : Slot → Prop
  | .file r _ _ => r.Named segment
  | .deleted _ _ => False

/-- A slot without anything that the iterator refuses. -/
def Slot.Harmless : Slot → Prop
  | .file r _ _ => ∀ name ∈ r.long, utf16Plus ∉ name.units
  | .deleted e _ => ¬ e.IsLong

/-- Up to the first file of this name the slots are harmless, and if there is none, an end marker
follows that is not taken for a part of a long name. -/
structure Listing.Scannable (l : Listing) (segment : List Char) : Prop where
  harmless : ∀ front slot back, l.slots = front ++ slot :: back →
    (∀ s ∈ front, ¬ s.Named segment) → slot.Harmless
  ended : (∀ s ∈ l.slots, ¬ s.Named segment) → ∃ e null rest, l.ending = .marker e null rest ∧
    ¬ e.IsLong

instance (segment : List Char) (r : Record) : Decidable (r.Named segment) :=
  inferInstanceAs (Decidable (_ ∨ _))

variable {r : Record} {name : LongName} {segment : List Char} {rest : List DirectoryEntry}
  {e : DirectoryEntry}

/-- Only spaces and periods are stripped. -/
lemma mem_trimUnits {units : List UInt16} {cp : UInt16} (h : cp ∈ units) (hspace : cp ≠ utf16Space)
    (hperiod : cp ≠ utf16Period) : cp ∈ trimUnits units := by
  have hdrop : ∀ (p : UInt16 → Bool) (l : List UInt16), cp ∈ l → p cp = false →
      cp ∈ l.dropWhile p := by
    intro p l hmem hp
    rw [← List.takeWhile_append_dropWhile (p := p) (l := l)] at hmem
    rcases List.mem_append.mp hmem with htake | hdrop
    · rw [List.mem_takeWhile_imp htake] at hp
      cases hp
    · exact hdrop
  rw [trimUnits, List.rdropWhile, List.mem_reverse]
  refine hdrop _ _ (List.mem_reverse.mpr (hdrop _ _ h ?_)) ?_
  · exact decide_eq_false hspace
  · exact decide_eq_false (not_or.mpr ⟨hspace, hperiod⟩)

/-- Of what the specification allows, only the plus sign is refused. -/
lemma LongName.accepted_iff (h : name.Legal) : name.Accepted ↔ utf16Plus ∉ name.units := by
  constructor
  · intro haccepted hmem
    exact absurd (haccepted _ (mem_trimUnits hmem (by decide) (by decide))) (by decide)
  · intro hmem cp hcp
    have hcp' := (trimUnits_sublist name.units).subset hcp
    rcases h cp hcp' with hvalid | rfl
    · exact hvalid
    · exact absurd hcp' hmem

/-! ## What the loop does at a slot -/

/-- An entry that is taken for the first of a long name, without a number that says so. -/
lemma tryAsFirstLong_refused (hlong : e.IsLong)
    (h : ¬ (e.byte 0 &&& lastLongEntry ≠ 0 ∧ 1 ≤ (e.byte 0 ^^^ lastLongEntry).toNat ∧
      (e.byte 0 ^^^ lastLongEntry).toNat ≤ maxLongEntries)) :
    e.tryAsFirstLong = .error (.assertion .tryAsFirstLong) := by
  have hattr : ¬ e.attr &&& attrLongNameMask ≠ attrLongName := not_not.mpr hlong
  rw [DirectoryEntry.tryAsFirstLong, if_neg hattr, DirectoryEntry.ord]
  by_cases hlast : e.byte 0 &&& lastLongEntry ≠ 0
  · rw [ensure_pos hlast, Checked.ok_bind]
    have hcount : ¬ (1 ≤ (e.byte 0 ^^^ lastLongEntry).toNat ∧
        (e.byte 0 ^^^ lastLongEntry).toNat ≤ maxLongEntries) := fun hcount => h ⟨hlast, hcount⟩
    simp only [ensure_neg hcount, Checked.error_bind]
  · rw [ensure_neg hlast, Checked.error_bind]

lemma scanDirectory_refused (h : e.tryAsFirstLong = .error (.assertion .tryAsFirstLong)) :
    scanDirectory segment (e :: rest) = .error (.assertion .tryAsFirstLong) := by
  refine scanDirectory_error ?_
  rw [coalesceNext, h, Checked.error_bind]

/-- A short entry is matched by its name. -/
lemma scanDirectory_short (h : ¬ e.IsLong) (inUse : e.byte 0 ≠ 0xE5 ∧ e.byte 0 ≠ 0) :
    scanDirectory segment (e :: rest) =
      if toShortName segment = some e.name then .ok (some e) else scanDirectory segment rest := by
  rw [scanDirectory_step (coalesceNext_short h rest), if_neg inUse.1, if_neg inUse.2]
  rfl

/-- **What the loop does at a file.**  A file with a long name is compared twice. -/
lemma scanDirectory_file (inUse : r.short.byte 0 ≠ 0xE5 ∧ r.short.byte 0 ≠ 0) :
    scanDirectory segment (r.entries ++ rest) =
      if ∀ name ∈ r.long, name.Accepted then
        if r.Named segment then .ok (some r.short) else scanDirectory segment rest
      else .error (.assertion .postprocessLongName) := by
  cases hlong : r.long with
  | none =>
      have hnamed : r.Named segment ↔ toShortName segment = some r.short.name := by
        simp [Record.Named, hlong]
      rw [Record.entries, hlong, List.singleton_append, scanDirectory_short r.notLong inUse,
        if_pos (fun _ hmem => absurd hmem (by simp)), if_congr hnamed rfl rfl]
  | some name =>
      have hstep := coalesceNext_long hlong rest
      have hall : (∀ other ∈ some name, other.Accepted) ↔ name.Accepted := by simp
      rw [if_congr hall rfl rfl]
      by_cases haccepted : name.Accepted
      · rw [if_pos haccepted] at hstep ⊢
        rw [scanDirectory_step hstep, if_neg inUse.1, if_neg inUse.2,
          scanDirectory_short r.notLong inUse]
        have hnamed : r.Named segment ↔ nameMatches segment (r.short, some (trimText name.text)) ∨
            toShortName segment = some r.short.name := by
          simp [Record.Named, hlong, nameMatches]
        rw [if_congr hnamed rfl rfl]
        by_cases hmatches : nameMatches segment (r.short, some (trimText name.text))
        · rw [if_pos hmatches, if_pos (Or.inl hmatches)]
        · rw [if_neg hmatches, if_congr (or_iff_right hmatches) rfl rfl]
      · rw [if_neg haccepted] at hstep ⊢
        exact scanDirectory_error hstep

/-- A deleted entry is skipped, unless it was part of a long name. -/
lemma scanDirectory_deleted (mark : e.byte 0 = 0xE5) :
    scanDirectory segment (e :: rest) =
      if e.IsLong then .error (.assertion .tryAsFirstLong) else scanDirectory segment rest := by
  split
  · next hlong =>
      refine scanDirectory_refused (tryAsFirstLong_refused hlong ?_)
      rw [mark]
      decide
  · next hshort => rw [scanDirectory_step (coalesceNext_short hshort rest), if_pos mark]

/-- An end marker ends the loop, unless its attribute is that of a long name. -/
lemma scanDirectory_marker (null : e.byte 0 = 0) :
    scanDirectory segment (e :: rest) =
      if e.IsLong then .error (.assertion .tryAsFirstLong) else .ok none := by
  split
  · next hlong =>
      refine scanDirectory_refused (tryAsFirstLong_refused hlong ?_)
      rw [null]
      decide
  · next hshort =>
      have hmark : e.byte 0 ≠ 0xE5 := by
        rw [null]
        decide
      rw [scanDirectory_step (coalesceNext_short hshort rest), if_neg hmark, if_pos null]

/-! ## The whole directory -/

/-- **What the loop does at a slot.**  It gets through if the slot is harmless, and is done if it is a
file of this name. -/
lemma Slot.scan_ok_iff (slot : Slot) :
    (∃ found, scanDirectory segment (slot.entries ++ rest) = .ok found) ↔
      slot.Harmless ∧ (slot.Named segment ∨ ∃ found, scanDirectory segment rest = .ok found) := by
  cases slot with
  | file r inUse legal =>
      have haccepted : (∀ name ∈ r.long, name.Accepted) ↔ ∀ name ∈ r.long, utf16Plus ∉ name.units :=
        forall₂_congr fun name hname => LongName.accepted_iff (legal name hname)
      rw [Slot.entries, scanDirectory_file inUse, if_congr haccepted rfl rfl, Slot.Harmless,
        Slot.Named]
      split
      · next hharmless =>
          rw [and_iff_right hharmless]
          split
          · next hnamed => exact iff_of_true ⟨_, rfl⟩ (Or.inl hnamed)
          · next hnamed => rw [or_iff_right hnamed]
      · next hharmless => exact iff_of_false (by simp) fun h => hharmless h.1
  | deleted e mark =>
      rw [Slot.entries, List.singleton_append, scanDirectory_deleted mark, Slot.Harmless,
        Slot.Named, false_or]
      split
      · next hlong => exact iff_of_false (by simp) fun h => h.1 hlong
      · next hshort => rw [and_iff_right hshort]

/-- What is found at a slot is the file that it is. -/
lemma Slot.scan_found (slot : Slot)
    (h : scanDirectory segment (slot.entries ++ rest) = .ok (some e)) :
    (∃ r inUse legal, slot = .file r inUse legal ∧ e = r.short ∧ r.Named segment) ∨
      scanDirectory segment rest = .ok (some e) := by
  cases slot with
  | file r inUse legal =>
      rw [Slot.entries, scanDirectory_file inUse] at h
      split at h
      · split at h
        · next hnamed =>
            cases h
            exact Or.inl ⟨r, inUse, legal, rfl, rfl, hnamed⟩
        · exact Or.inr h
      · cases h
  | deleted e' mark =>
      rw [Slot.entries, List.singleton_append, scanDirectory_deleted mark] at h
      split at h
      · cases h
      · exact Or.inr h

/-- **What is found in a directory** is one of its files, under one of its names. -/
theorem scanDirectory_found {l : Listing} (h : scanDirectory segment l.entries = .ok (some e)) :
    ∃ r inUse legal, Slot.file r inUse legal ∈ l.slots ∧ e = r.short ∧ r.Named segment := by
  obtain ⟨slots, ending⟩ := l
  induction slots with
  | nil =>
      cases ending with
      | full => cases h
      | marker e' null rest =>
          change scanDirectory segment (e' :: rest) = _ at h
          rw [scanDirectory_marker null] at h
          split at h
          · cases h
          · cases h
  | cons slot slots ih =>
      rw [Listing.entries, List.flatMap_cons, List.append_assoc] at h
      rcases slot.scan_found h with ⟨r, inUse, legal, rfl, hfound⟩ | hrest
      · exact ⟨r, inUse, legal, List.mem_cons_self, hfound⟩
      · obtain ⟨r, inUse, legal, hmem, hfound⟩ := ih hrest
        exact ⟨r, inUse, legal, List.mem_cons_of_mem _ hmem, hfound⟩

lemma Listing.scannable_nil {ending : Ending} : Listing.Scannable ⟨[], ending⟩ segment ↔
    ∃ e null rest, ending = .marker e null rest ∧ ¬ e.IsLong := by
  refine ⟨fun h => h.ended fun _ hs => absurd hs List.not_mem_nil, fun h => ⟨?_, fun _ => h⟩⟩
  intro front slot back heq
  exact absurd heq.symm (List.append_ne_nil_of_right_ne_nil _ (List.cons_ne_nil _ _))

lemma Listing.scannable_cons {slot : Slot} {slots : List Slot} {ending : Ending} :
    Listing.Scannable ⟨slot :: slots, ending⟩ segment ↔
      slot.Harmless ∧ (slot.Named segment ∨ Listing.Scannable ⟨slots, ending⟩ segment) := by
  constructor
  · intro h
    refine ⟨h.harmless [] slot slots rfl fun _ hs => absurd hs List.not_mem_nil, ?_⟩
    by_cases hnamed : slot.Named segment
    · exact Or.inl hnamed
    · refine Or.inr ⟨fun front s back heq hfront => ?_, fun hslots => ?_⟩
      · exact h.harmless (slot :: front) s back (congrArg (slot :: ·) heq)
          (List.forall_mem_cons.mpr ⟨hnamed, hfront⟩)
      · exact h.ended (List.forall_mem_cons.mpr ⟨hnamed, hslots⟩)
  · rintro ⟨hharmless, hrest⟩
    refine ⟨fun front s back heq hfront => ?_, fun hslots => ?_⟩
    · cases front with
      | nil =>
          obtain rfl := (List.cons.inj heq).1
          exact hharmless
      | cons s' front =>
          obtain ⟨rfl, hslots⟩ := List.cons.inj heq
          have hscannable := hrest.resolve_left (hfront slot List.mem_cons_self)
          exact hscannable.harmless front s back hslots
            fun t ht => hfront t (List.mem_cons_of_mem _ ht)
    · have hscannable := hrest.resolve_left (hslots slot List.mem_cons_self)
      exact hscannable.ended fun t ht => hslots t (List.mem_cons_of_mem _ ht)

/-- **Directories that can be scanned.**  Looking for a segment in a directory of the specification,
the loop of `traverse_path` gets to a file of this name or to the end of the directory without a
panic if and only if the directory is scannable. -/
theorem scanDirectory_ok_iff (l : Listing) (segment : List Char) :
    (∃ found, scanDirectory segment l.entries = .ok found) ↔ l.Scannable segment := by
  obtain ⟨slots, ending⟩ := l
  induction slots with
  | nil =>
      rw [Listing.scannable_nil]
      cases ending with
      | full => exact iff_of_false (by rintro ⟨found, h⟩; cases h) (by simp)
      | marker e null rest =>
          change (∃ found, scanDirectory segment (e :: rest) = .ok found) ↔ _
          rw [scanDirectory_marker null]
          split
          · next hlong =>
              refine iff_of_false (by simp) ?_
              rintro ⟨e', null', rest', heq, hshort⟩
              cases heq
              exact hshort hlong
          · next hshort => exact iff_of_true ⟨_, rfl⟩ ⟨e, null, rest, rfl, hshort⟩
  | cons slot slots ih =>
      rw [Listing.scannable_cons, ← ih, Listing.entries, List.flatMap_cons, List.append_assoc]
      exact slot.scan_ok_iff

/-- A directory from which a file with a long name has been deleted. -/
def deletedName : Listing where
  slots :=
    [.deleted ⟨((Vector.replicate 32 0).set 0 0xE5).set 11 attrLongName⟩ (by decide),
      .deleted ⟨(Vector.replicate 32 0).set 0 0xE5⟩ (by decide)]
  ending := .marker ⟨Vector.replicate 32 0⟩ (by decide) []

/-- `0xE5` is no number of a part of a long name. -/
theorem not_scanDirectory_ok :
    ¬ ∃ found, scanDirectory ['a'] deletedName.entries = .ok found := by
  rintro ⟨found, h⟩
  change scanDirectory ['a'] (_ :: _) = _ at h
  rw [scanDirectory_deleted (by decide), if_pos (by decide)] at h
  cases h

end Deravel
