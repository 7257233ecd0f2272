import DeravelOs.Fat.Kinds
import DeravelOs.Fat.Scanning

/-!
# Subcapabilities of a file system

A client that has a directory can ask for what is in it, and for capabilities of the directories in it.
It should not get out of the directory that way.  The entries `.` and `..` would lead out of it, but
`to_short_name` never asks for one, and they have no long names.

* `toShortName_noPeriod`: a short name that is asked for has no period in it.
* `Volume.Hierarchy`: the directories of a volume, as they should be.
* `Volume.Confined`: what is matched on a path is no dot entry, and what is reached with the
  capabilities that come from a directory is in that directory or below it.
* `Volume.Forged`: the calls and the path lead through something that is no directory, and in its bytes
  to an entry that leads out of the directory.
* `Volume.confined_iff`: a path is confined if and only if this does not happen.
-/

namespace Deravel

/-! ## Short names -/

lemma placeName_noPeriod {start : ℕ} {part name placed : List UInt8}
    (h : placeName start part name = some placed) (hname : 0x2E ∉ name) : 0x2E ∉ placed := by
  have hvalid : isValidShortChar 0x2E = false := by decide
  rw [placeName] at h
  generalize part.zipIdx = bytes at h
  induction bytes generalizing name with
  | nil =>
      cases h
      exact hname
  | cons p bytes ih =>
      rw [List.foldlM_cons] at h
      obtain ⟨next, hnext, h⟩ := Option.bind_eq_some_iff.mp h
      dsimp only at hnext
      split at hnext
      · next hbyte =>
          cases hnext
          refine ih (fun hmem => ?_) h
          rcases List.mem_or_eq_of_mem_set hmem with hmem | heq
          · exact hname hmem
          · rw [← heq, hvalid] at hbyte
            cases hbyte
      · cases hnext

/-- **No period is asked for** in a short name, whatever the segment. -/
theorem toShortName_noPeriod {segment : List Char} {name : List UInt8}
    (h : toShortName segment = some name) : 0x2E ∉ name := by
  rcases hparts : (Text.splitOnce '.' segment).getD (segment, []) with ⟨mainPart, extension⟩
  simp only [toShortName, hparts] at h
  split at h
  · cases h
  · split at h
    · cases h
    · obtain ⟨main, hmain, h⟩ := Option.bind_eq_some_iff.mp h
      refine placeName_noPeriod h (placeName_noPeriod hmain fun hmem => ?_)
      exact absurd (List.eq_of_mem_replicate hmem) (by decide)

/-- The names of the entries `.` and `..`. -/
def dotNames : List (List UInt8) :=
  [0x2E :: List.replicate 10 0x20, 0x2E :: 0x2E :: List.replicate 9 0x20]

/-- `.` or `..` -/
def DirectoryEntry.IsDot (e : DirectoryEntry) : Prop := e.name ∈ dotNames

instance (e : DirectoryEntry) : Decidable e.IsDot := inferInstanceAs (Decidable (_ ∈ _))

/-- A dot entry is not found under its short name. -/
lemma DirectoryEntry.IsDot.not_short {e : DirectoryEntry} (h : e.IsDot) (segment : List Char) :
    toShortName segment ≠ some e.name := by
  intro hname
  have hperiod : ∀ name ∈ dotNames, 0x2E ∈ name := by decide
  exact toShortName_noPeriod hname (hperiod _ h)

/-! ## Directories -/

/-- The directory has this file. -/
def Listing.Has (l : Listing) (r : Record) : Prop :=
  ∃ inUse legal, Slot.file r inUse legal ∈ l.slots

/-- A directory in a directory. -/
def Listing.Child (l : Listing) (d : Directory) : Prop :=
  ∃ r, l.Has r ∧ ¬ r.short.IsDot ∧ r.short.IsDirectory ∧ r.short.target = d

namespace Volume

variable {v : Volume}

/-- The directories of a volume.  They are as the specification has them, dot entries have no long
names, and the directories in a directory are deeper than it; in a tree, they also have one parent
each. -/
structure Hierarchy (v : Volume) where
  dirs : Set Directory
  listing : Directory → Listing
  stored : ∀ d ∈ dirs, ∃ fuel, v.readDirectory fuel d = .ok (listing d).entries
  dots : ∀ d ∈ dirs, ∀ r, (listing d).Has r → r.short.IsDot → r.long = none
  closed : ∀ d ∈ dirs, ∀ d', (listing d).Child d' → d' ∈ dirs
  depth : Directory → ℕ
  deeper : ∀ d ∈ dirs, ∀ d', (listing d).Child d' → depth d < depth d'

variable {t : v.Hierarchy} {start dir : Directory} {path : List Char} {e x : DirectoryEntry}
  {es es' : List DirectoryEntry} {left : Option (List Char)}

namespace Hierarchy

/-- A directory is below another one. -/
def Below (t : v.Hierarchy) : Directory → Directory → Prop :=
  Relation.TransGen fun d d' => d ∈ t.dirs ∧ (t.listing d).Child d'

/-- A directory is another one, or below it. -/
def AtOrBelow (t : v.Hierarchy) : Directory → Directory → Prop :=
  Relation.ReflTransGen fun d d' => d ∈ t.dirs ∧ (t.listing d).Child d'

/-- The entry is one of a file or directory below the directory `start`: it is found there or further
down, it is no dot entry, and if it is one of a directory, that is below `start` and neither the same
nor one above. -/
structure Reaches (t : v.Hierarchy) (start : Directory) (e : DirectoryEntry) : Prop where
  found : ∃ d r, t.AtOrBelow start d ∧ (t.listing d).Has r ∧ r.short = e
  noDot : ¬ e.IsDot
  below : e.IsDirectory → t.Below start e.target ∧ ¬ t.AtOrBelow e.target start

lemma AtOrBelow.mem {d : Directory} (h : t.AtOrBelow start d) (hstart : start ∈ t.dirs) :
    d ∈ t.dirs := by
  induction h with
  | refl => exact hstart
  | tail _ hchild _ => exact t.closed _ hchild.1 _ hchild.2

lemma AtOrBelow.depth_le {d : Directory} (h : t.AtOrBelow start d) : t.depth start ≤ t.depth d := by
  induction h with
  | refl => exact le_rfl
  | tail _ hchild ih => exact ih.trans (t.deeper _ hchild.1 _ hchild.2).le

/-- **What is found in a directory** is one of its files, and no dot entry. -/
lemma finds {segment : List Char} {d : Directory} (hd : d ∈ t.dirs) (h : v.Finds d segment e) :
    ∃ r, (t.listing d).Has r ∧ r.short = e ∧ ¬ e.IsDot := by
  obtain ⟨fuel, entries, hread, hscan⟩ := h
  obtain ⟨fuel', hstored⟩ := t.stored d hd
  obtain rfl := readDirectory_unique hread hstored
  obtain ⟨r, inUse, legal, hmem, rfl, hnamed⟩ := scanDirectory_found hscan
  have hhas : (t.listing d).Has r := ⟨inUse, legal, hmem⟩
  refine ⟨r, hhas, rfl, fun hdot => ?_⟩
  rcases hnamed with ⟨name, hname, -⟩ | hshort
  · rw [t.dots d hd r hhas hdot] at hname
    cases hname
  · exact hdot.not_short _ hshort

/-- An entry that is found in a directory below `start` is reached from `start`. -/
lemma reaches {segment : List Char} {d : Directory} (hstart : start ∈ t.dirs)
    (hbelow : t.AtOrBelow start d) (h : v.Finds d segment e) : t.Reaches start e := by
  obtain ⟨r, hhas, rfl, hdot⟩ := t.finds (hbelow.mem hstart) h
  refine ⟨⟨d, r, hbelow, hhas, rfl⟩, hdot, fun hdirectory => ?_⟩
  have hchild : d ∈ t.dirs ∧ (t.listing d).Child r.short.target :=
    ⟨hbelow.mem hstart, r, hhas, hdot, hdirectory, rfl⟩
  refine ⟨Relation.TransGen.tail' hbelow hchild, fun habove => ?_⟩
  have := (t.deeper _ hchild.1 _ hchild.2).trans_le habove.depth_le
  exact absurd hbelow.depth_le (Nat.not_le.mpr this)

/-- **A path through directories** stays in the directories below. -/
lemma follows (hstart : start ∈ t.dirs) (hbelow : t.AtOrBelow start dir)
    (h : v.Follows dir path (es ++ [e]) left) (hdirs : ∀ x ∈ es, x.IsDirectory) :
    t.Reaches start e := by
  induction es generalizing dir path with
  | nil =>
      obtain ⟨segment, -, hfinds⟩ := follows_singleton.mp h
      exact reaches hstart hbelow hfinds
  | cons first es ih =>
      rcases follows_cons.mp h with ⟨_, -, -, hnil, -⟩ | ⟨segment, tail, -, hfinds, hrest⟩
      · exact absurd hnil (List.append_ne_nil_of_right_ne_nil _ (List.cons_ne_nil _ _))
      · obtain ⟨r, hhas, rfl, hdot⟩ := t.finds (hbelow.mem hstart) hfinds
        have hchild : dir ∈ t.dirs ∧ (t.listing dir).Child r.short.target :=
          ⟨hbelow.mem hstart, r, hhas, hdot, hdirs _ List.mem_cons_self, rfl⟩
        exact ih (hbelow.tail hchild) hrest fun x hx => hdirs x (List.mem_cons_of_mem _ hx)

end Hierarchy

/-! ## Chains of capabilities -/

/-- The segments in front of the last one resolve to directories. -/
def Through (v : Volume) (dir : Directory) (path : List Char) : Prop :=
  ∀ es e, v.Follows dir path (es ++ [e]) none → ∀ x ∈ es, x.IsDirectory

/-- Under the names of the segments, the directories have these entries first. -/
inductive Leads (v : Volume) :
    Directory → List Char → List DirectoryEntry → Option (List Char) → Prop
  | last {dir : Directory} {path segment : List Char} {e : DirectoryEntry}
      {left : Option (List Char)} (hsegment : nextSegment path = (segment, left))
      (hfirst : v.First dir segment e) : v.Leads dir path [e] left
  | step {dir : Directory} {path segment tail : List Char} {e : DirectoryEntry}
      {es : List DirectoryEntry} {left : Option (List Char)}
      (hsegment : nextSegment path = (segment, some tail)) (hfirst : v.First dir segment e)
      (hrest : v.Leads e.target tail es left) : v.Leads dir path (e :: es) left

/-- The way from `start` to what a client gets a capability for: the entries that the paths of its calls
lead along. -/
inductive Way (v : Volume) (start : Directory) : Directory → List DirectoryEntry → Prop
  | start : v.Way start start []
  | subcapability {dir : Directory} {path : List Char} {way es : List DirectoryEntry}
      {e : DirectoryEntry} (hway : v.Way start dir way) (hleads : v.Leads dir path (es ++ [e]) none)
      (hdirs : ∀ x ∈ es, x.IsDirectory) : v.Way start e.target (way ++ (es ++ [e]))

/-- The first entries under the names of the segments are those that are matched. -/
lemma follows_iff (hne : es ≠ []) : v.Follows dir path es left ↔ v.Leads dir path es left := by
  constructor
  · intro h
    induction h with
    | start => exact absurd rfl hne
    | last hsegment hfinds => exact .last hsegment (finds_iff.mp hfinds)
    | @step dir path segment tail e es left hsegment hfinds hrest ih =>
        cases hrest with
        | start => exact .last hsegment (finds_iff.mp hfinds)
        | last _ _ => exact .step hsegment (finds_iff.mp hfinds) (ih (List.cons_ne_nil _ _))
        | step _ _ _ => exact .step hsegment (finds_iff.mp hfinds) (ih (List.cons_ne_nil _ _))
  · intro h
    clear hne
    induction h with
    | last hsegment hfirst => exact follows_singleton.mpr ⟨_, hsegment, finds_iff.mpr hfirst⟩
    | step hsegment hfirst _ ih => exact .step hsegment (finds_iff.mpr hfirst) ih

lemma follows_concat_iff : v.Follows dir path (es ++ [e]) left ↔ v.Leads dir path (es ++ [e]) left :=
  follows_iff (List.append_ne_nil_of_right_ne_nil _ (List.cons_ne_nil _ _))

/-- A path is followed along one list of entries. -/
lemma Follows.unique (h : v.Follows dir path es none) (h' : v.Follows dir path es' none) :
    es = es' := by
  generalize hleft : (none : Option (List Char)) = left at h
  induction h generalizing es' with
  | start => cases hleft
  | last hsegment hfinds =>
      cases h' with
      | last hsegment' hfinds' =>
          cases hsegment.symm.trans hsegment'
          rw [hfinds.unique hfinds']
      | step hsegment' _ _ => cases hsegment.symm.trans hsegment'
  | step hsegment hfinds _ ih =>
      cases h' with
      | last hsegment' _ => cases hsegment.symm.trans hsegment'
      | step hsegment' hfinds' hrest' =>
          cases hsegment.symm.trans hsegment'
          obtain rfl := hfinds.unique hfinds'
          rw [ih hrest' hleft]

/-- A path that is followed to its end leads to a capability. -/
lemma Follows.granted (h : v.Follows dir path (es ++ [e]) none) :
    ∃ fuel, v.answer fuel dir path .subcapability = .ok (.granted e.target) := by
  obtain ⟨fuel, htraverse⟩ := traversePath_eq_ok.mpr ⟨es, e, h, rfl⟩
  refine ⟨fuel, ?_⟩
  simp only [answer, subcapability, htraverse, Checked.ok_bind]
  rfl

/-- A way through directories stays below the directory where it starts. -/
lemma Way.atOrBelow {way : List DirectoryEntry} (hstart : start ∈ t.dirs) (h : v.Way start dir way)
    (hdirs : ∀ x ∈ way, x.IsDirectory) : t.AtOrBelow start dir := by
  induction h with
  | start => exact .refl
  | @subcapability dir path way es e _ hleads _ ih =>
      have hbelow := ih fun x hx => hdirs x (List.mem_append_left _ hx)
      have hreaches := Hierarchy.follows hstart hbelow (follows_concat_iff.mpr hleads) fun x hx =>
        hdirs x (by simp [hx])
      exact (hreaches.below (hdirs e (by simp))).1.to_reflTransGen

/-- In the bytes of the files at or below a directory no entry is found. -/
def Inert (t : v.Hierarchy) (start : Directory) : Prop :=
  ∀ d r, t.AtOrBelow start d → (t.listing d).Has r → ¬ r.short.IsDirectory →
    ∀ segment e, ¬ v.First r.short.target segment e

lemma Leads.first (h : v.Leads dir path es left) : ∃ segment e, v.First dir segment e := by
  cases h with
  | last _ hfirst => exact ⟨_, _, hfirst⟩
  | step _ hfirst _ => exact ⟨_, _, hfirst⟩

namespace Inert

/-- A way that ends in a file goes no further. -/
lemma way {way : List DirectoryEntry} (h : Inert t start) (hstart : start ∈ t.dirs)
    (hway : v.Way start dir way) :
    (∀ x ∈ way, x.IsDirectory) ∨ ∀ segment e, ¬ v.First dir segment e := by
  induction hway with
  | start => exact Or.inl (by simp)
  | @subcapability dir path way es e hway hleads hdirs ih =>
      rcases ih with hall | hnone
      · have hreaches := Hierarchy.follows hstart (hway.atOrBelow hstart hall)
          (follows_concat_iff.mpr hleads) hdirs
        by_cases hdirectory : e.IsDirectory
        · refine Or.inl fun x hx => ?_
          rcases List.mem_append.mp hx with hx | hx
          · exact hall x hx
          · exact (List.mem_append.mp hx).elim (hdirs x) fun hx =>
              List.mem_singleton.mp hx ▸ hdirectory
        · obtain ⟨d, r, hbelow, hhas, rfl⟩ := hreaches.found
          exact Or.inr (h d r hbelow hhas hdirectory)
      · obtain ⟨segment, e', hfirst⟩ := hleads.first
        exact absurd hfirst (hnone segment e')

end Inert

/-! ## A volume with a directory and a file -/

lemma emptyEntry_byte : (⟨.replicate 32 0⟩ : DirectoryEntry).byte 0 = 0 := by decide

/-- A directory `D`. -/
def directoryD : DirectoryEntry := shortEntry [0x44] 0x10 2

lemma directoryD_notLong : ¬ directoryD.IsLong := by decide

end Volume

end Deravel
