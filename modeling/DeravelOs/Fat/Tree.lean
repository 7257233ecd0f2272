import DeravelOs.Fat.Confinement
import DeravelOs.Fat.Reading

/-!
# Trees on a volume

What a file system is for: there is a tree of files and directories, and a path in it leads to the
bytes of a file.  On the drive there are only a table and sectors.

* `FileNode`, `FileNode.resolve`, `FileNode.Lacks`: trees, what a path leads to, and paths that lead
  nowhere.
* `Volume.Stored`: the drive answers, and the table has the chains of the volume.
* `Volume.Holds`: a directory of the volume holds a tree.
* `Volume.answer_resolve`: then `read` returns the bytes that the path leads to, and `subcapability`
  grants the directory; for a path of which a directory lacks a segment, they say so.

What is needed of the volume is in `Stored` and `Holds`.  It is more than that the bytes describe a tree:
the code does not read an empty file, and it does not get through every directory.
-/

namespace Deravel

/-! ## Trees -/

/-- The names of a file: the short one as it is stored, and the long one if there is one. -/
structure FileName where
  short : List UInt8
  long : Option (List Char)

/-- A segment of a path is one of the names. -/
def FileName.Is (name : FileName) (segment : List Char) : Prop :=
  segment ∈ name.long ∨ toShortName segment = some name.short

instance (name : FileName) (segment : List Char) : Decidable (name.Is segment) :=
  inferInstanceAs (Decidable (_ ∨ _))

/-- A file, or a directory with what is in it. -/
inductive FileNode
  | file (bytes : List UInt8)
  | directory (entries : List (FileName × FileNode))

namespace FileNode

/-- What has this name, if anything does; if several do, it is the first. -/
def find (segment : List Char) (entries : List (FileName × FileNode)) : Option FileNode :=
  (entries.find? (·.1.Is segment)).map Prod.snd

/-- What a path leads to. -/
def resolve : FileNode → List (List Char) → Option FileNode
  | node, [] => some node
  | file _, _ :: _ => none
  | directory entries, segment :: segments => (find segment entries).bind (·.resolve segments)

/-- A path leads through directories to one in which there is nothing of the next name.  A path that
goes on after a file is none of these: the code takes the bytes of the file for entries. -/
def Lacks : FileNode → List (List Char) → Prop
  | _, [] => False
  | file _, _ :: _ => False
  | directory entries, segment :: segments =>
      match find segment entries with
      | none => True
      | some node => node.Lacks segments

end FileNode

/-- The path with these segments. -/
def pathOf (segments : List (List Char)) : List Char := ['/'].intercalate segments

variable {segment : List Char} {segments : List (List Char)}

lemma nextSegment_pathOf_single (h : '/' ∉ segment) : nextSegment (pathOf [segment]) = (segment, none) := by
  have hpath : pathOf [segment] = segment := by simp [pathOf, List.intercalate]
  rw [hpath, nextSegment, Text.splitOnce_eq_none.mpr h]

lemma nextSegment_pathOf_cons {next : List Char} (h : '/' ∉ segment) :
    nextSegment (pathOf (segment :: next :: segments)) =
      (segment, some (pathOf (next :: segments))) := by
  have hpath : pathOf (segment :: next :: segments) = segment ++ '/' :: pathOf (next :: segments) := by
    simp [pathOf, List.intercalate]
  rw [nextSegment, Text.splitOnce_eq_some.mpr ⟨hpath, h⟩]

/-! ## Listings -/

/-- The file that a slot is. -/
def Slot.record? : Slot → Option Record
  | .file r _ _ => some r
  | .deleted _ _ => none

/-- The files of a directory, without the dot entries. -/
def Listing.files (l : Listing) : List Record :=
  (l.slots.filterMap Slot.record?).filter fun r => ¬ r.short.IsDot

/-- The bytes of a directory. -/
def Listing.bytes (l : Listing) : List UInt8 := l.entries.flatMap fun e => e.bytes.toList

/-- The names of a file are these. -/
def FileName.Of (name : FileName) (r : Record) : Prop :=
  name.short = r.short.name ∧ name.long = r.long.map fun long => trimText long.text

lemma FileName.Of.is_iff {name : FileName} {r : Record} (h : name.Of r) :
    name.Is segment ↔ r.Named segment := by
  simp [FileName.Is, Record.Named, h.1, h.2]

/-- **The first file of a name is found**, if the directory can be scanned. -/
lemma scanDirectory_find {l : Listing} (h : l.Scannable segment) :
    scanDirectory segment l.entries =
      .ok (((l.slots.filterMap Slot.record?).find? (·.Named segment)).map Record.short) := by
  obtain ⟨slots, ending⟩ := l
  induction slots with
  | nil =>
      obtain ⟨e, null, rest, rfl, hlong⟩ := Listing.scannable_nil.mp h
      change scanDirectory segment (e :: rest) = _
      rw [scanDirectory_marker null, if_neg hlong]
      rfl
  | cons slot slots ih =>
      obtain ⟨hharmless, hrest⟩ := Listing.scannable_cons.mp h
      have hentries : Listing.entries ⟨slot :: slots, ending⟩ =
          slot.entries ++ Listing.entries ⟨slots, ending⟩ := by
        rw [Listing.entries, List.flatMap_cons, List.append_assoc]
        rfl
      rw [hentries]
      cases slot with
      | file r inUse legal =>
          have hrecords : (Slot.file r inUse legal :: slots).filterMap Slot.record? =
              r :: slots.filterMap Slot.record? := rfl
          have haccepted : ∀ name ∈ r.long, name.Accepted := fun name hname =>
            (LongName.accepted_iff (legal name hname)).mpr (hharmless name hname)
          rw [Slot.entries, scanDirectory_file inUse, if_pos haccepted, hrecords, List.find?_cons]
          by_cases hnamed : r.Named segment
          · rw [if_pos hnamed, decide_eq_true hnamed]
            rfl
          · rw [if_neg hnamed, decide_eq_false hnamed]
            exact ih (hrest.resolve_left hnamed)
      | deleted e mark =>
          rw [Slot.entries, List.singleton_append, scanDirectory_deleted mark, if_neg hharmless]
          exact ih (hrest.resolve_left id)

/-! ## Reading -/

namespace FileBuffer

/-- A buffer of whole sectors. -/
def Whole (buffer : FileBuffer) : Prop := 512 ∣ buffer.data.length ∧ 512 ∣ buffer.capacity

variable {buffer r : FileBuffer}

lemma Whole.extend (h : buffer.Whole) (bytes : Vector UInt8 512) :
    (buffer.extend bytes.toList).Whole := by
  obtain ⟨hdata, hcapacity⟩ := h
  have hlength : 512 ∣ (buffer.data ++ bytes.toList).length := by
    rw [List.length_append, Vector.length_toList]
    exact dvd_add hdata dvd_rfl
  refine ⟨hlength, ?_⟩
  show 512 ∣ grow buffer.capacity (buffer.data ++ bytes.toList).length
  rw [grow]
  split
  · exact hcapacity
  · rcases max_choice (2 * buffer.capacity) (buffer.data ++ bytes.toList).length with hmax | hmax
    · rw [hmax]
      exact hcapacity.mul_left 2
    · rw [hmax]
      exact hlength

end FileBuffer

namespace Volume

variable {v : Volume} {max c : ℕ} {cs : List ℕ} {content : ℕ → Vector UInt8 512} {size : Option ℕ}
  {buffer : FileBuffer}

lemma readDriveSectors_whole {sectors : List ℕ} {r : FileBuffer × Bool} (h : buffer.Whole)
    (hread : v.readDriveSectors size sectors buffer = .ok r) : r.1.Whole := by
  induction sectors generalizing buffer with
  | nil =>
      cases hread
      exact h
  | cons sector sectors ih =>
      obtain ⟨bytes, -, hread⟩ := Checked.bind_eq_ok.mp hread
      dsimp only at hread
      split at hread
      · cases hread
        exact h.extend bytes
      · exact ih (h.extend bytes) hread

lemma readSectors_whole {is : List ℕ} {r : FileBuffer × Bool} (h : buffer.Whole)
    (hread : v.readSectors size c is buffer = .ok r) : r.1.Whole := by
  induction is generalizing buffer with
  | nil =>
      cases hread
      exact h
  | cons i is ih =>
      obtain ⟨sector, -, hread⟩ := Checked.bind_eq_ok.mp hread
      obtain ⟨⟨middle, stop⟩, hdrive, hread⟩ := Checked.bind_eq_ok.mp hread
      have hmiddle : middle.Whole := readDriveSectors_whole h hdrive
      cases stop with
      | true =>
          cases hread
          exact hmiddle
      | false => exact ih hmiddle hread

/-- Whole sectors are read, and the buffer grows by whole sectors. -/
lemma readClusters_whole {fuel : ℕ} {r : FileBuffer} (h : buffer.Whole)
    (hread : v.readClusters size fuel c buffer = .ok r) : r.Whole := by
  induction fuel generalizing c buffer with
  | zero => cases hread
  | succ fuel ih =>
      obtain ⟨next, -, hread⟩ := Checked.bind_eq_ok.mp hread
      obtain ⟨⟨middle, stop⟩, hsectors, hread⟩ := Checked.bind_eq_ok.mp hread
      have hmiddle : middle.Whole := readSectors_whole h hsectors
      cases stop with
      | true =>
          cases hread
          exact hmiddle
      | false =>
          cases next with
          | none =>
              cases hread
              exact hmiddle
          | some d => exact ih hmiddle hread

/-- A volume whose drive answers, with `max` as its last cluster: what `validate_bpb` accepts, with a
table that covers the clusters. -/
structure Stored (v : Volume) (max : ℕ) (content : ℕ → Vector UInt8 512) : Prop where
  valid : v.bpb.validateBpb v.type = .ok ()
  maxCluster_eq : v.maxCluster = .ok max
  below_marks : max < v.type.endMark
  covers : v.Covers max
  drive : ∀ c, 2 ≤ c → c ≤ max → ∀ sector ∈ v.clusterSectors c, v.drive sector = .ok (content sector)

namespace Stored

lemma walkable (h : v.Stored max content) : v.Walkable max :=
  ⟨h.maxCluster_eq, h.below_marks, h.covers⟩

lemma geometry (h : v.Stored max content) : v.Geometry max := Volume.geometry h.valid h.maxCluster_eq

lemma drive_chain (h : v.Stored max content) (hchain : v.Chain max cs) :
    ∀ d ∈ cs, ∀ sector ∈ v.clusterSectors d, v.drive sector = .ok (content sector) :=
  fun d hd => h.drive d (hchain.mem d hd).1 (hchain.mem d hd).2

/-- **A file is read** that is stored in a chain. -/
lemma readFile_take (h : v.Stored max content) (hchain : v.Chain max (c :: cs)) {n fuel : ℕ}
    (hn : n ≤ (v.fileBytes content (c :: cs)).length) (hfuel : (c :: cs).length ≤ fuel) :
    ∃ r, v.readFile fuel c (some n) = .ok r ∧ r.data = (v.fileBytes content (c :: cs)).take n := by
  have hn' := hn
  rw [fileBytes_length h.geometry] at hn'
  obtain ⟨r, hr, hprefix, henough⟩ := readClusters_chain (some n) h.geometry h.walkable hchain
    (h.drive_chain hchain) hfuel ⟨[], nextMultipleOf n diskSectorSize⟩
  rw [List.nil_append] at hprefix henough
  have hlength : n ≤ r.data.length := by
    rcases henough with hall | ⟨m, hm, hle⟩
    · exact hall ▸ hn
    · obtain rfl := Option.mem_some.mp hm
      exact hle
  refine ⟨r.cutTo (some n), ?_, ?_⟩
  · rw [readFile, reserve_total h.geometry h.below_marks hchain hn', Checked.ok_bind, hr]
    rfl
  · obtain ⟨rest, hrest⟩ := hprefix
    rw [← hrest, List.take_append_of_le_length hlength]
    simp [FileBuffer.cutTo, FileBuffer.resize, Nat.sub_eq_zero_of_le hlength]

/-- **A directory is read** that is stored in a chain. -/
lemma readDirectory_chain (h : v.Stored max content) (hchain : v.Chain max (c :: cs)) {l : Listing}
    (hbytes : v.fileBytes content (c :: cs) = l.bytes) {fuel : ℕ} (hfuel : (c :: cs).length ≤ fuel) :
    v.readDirectory fuel (.normal c) = .ok l.entries := by
  obtain ⟨r, hr, -, henough⟩ := readClusters_chain none h.geometry h.walkable hchain
    (h.drive_chain hchain) hfuel ⟨[], 0⟩
  have hdata : r.data = v.fileBytes content (c :: cs) := by
    rcases henough with hall | ⟨n, hn, -⟩
    · exact hall
    · cases hn
  have hwhole : r.Whole := readClusters_whole ⟨dvd_zero 512, dvd_zero 512⟩ hr
  have hfile : v.readFile fuel c none = .ok r := by
    change (v.readClusters none fuel c ⟨[], 0⟩ >>= fun buffer => pure (buffer.cutTo none)) = _
    rw [hr]
    rfl
  have hflatten : r.data = ((l.entries.toArray.toVector.map DirectoryEntry.bytes).flatten).toList := by
    rw [hdata, hbytes, Listing.bytes, List.flatMap_def]
    simp [Vector.flatten, Vector.toList, Function.comp_def]
  obtain ⟨data, capacity⟩ := r
  obtain rfl : data = _ := hflatten
  rw [readDirectory, hfile, Checked.ok_bind,
    directoryBytesToEntries_flatten _ (Nat.mod_eq_zero_of_dvd ((by decide : 32 ∣ 512).trans hwhole.2))]
  simp

end Stored

/-! ## Trees on a volume -/

/-- A directory of the volume is this listing. -/
def Lists (v : Volume) (max : ℕ) (content : ℕ → Vector UInt8 512) (l : Listing) : Directory → Prop
  | .rootDirectoryRegion => v.rdr = l.entries
  | .normal c => ∃ cs, v.Chain max (c :: cs) ∧ v.fileBytes content (c :: cs) = l.bytes

/-- An entry of the volume is one of a file with these bytes, of which there is at least one: an empty
file has no first cluster, and `read` panics where it subtracts 2 from it. -/
def HoldsFile (v : Volume) (max : ℕ) (content : ℕ → Vector UInt8 512) (e : DirectoryEntry)
    (bytes : List UInt8) : Prop :=
  bytes ≠ [] ∧ e.fileSize.toNat = bytes.length ∧
    ∃ cs, v.Chain max (e.fstClus.toNat :: cs) ∧ bytes <+: v.fileBytes content (e.fstClus.toNat :: cs)

/-- A directory of the volume holds a tree.  Its listing has a file of the volume for each entry of the
tree, besides dot entries without long names.  And it can be scanned for every segment
(`scanDirectory_ok_iff` says what that means): it ends with a marker, no deleted entry is taken for a
part of a long name, and no long name has a '+' in it. -/
inductive Holds (v : Volume) (max : ℕ) (content : ℕ → Vector UInt8 512) :
    Directory → List (FileName × FileNode) → Prop
  | mk {dir : Directory} {l : Listing} {entries : List (FileName × FileNode)}
      (lists : v.Lists max content l dir) (scannable : ∀ segment, l.Scannable segment)
      (dots : ∀ r, l.Has r → r.short.IsDot → r.long = none)
      (length : l.files.length = entries.length)
      (names : ∀ (i : ℕ) (r : Record) (name : FileName) (node : FileNode), l.files[i]? = some r →
        entries[i]? = some (name, node) → name.Of r)
      (files : ∀ (i : ℕ) (r : Record) (name : FileName) (bytes : List UInt8), l.files[i]? = some r →
        entries[i]? = some (name, .file bytes) → v.HoldsFile max content r.short bytes)
      (directories : ∀ (i : ℕ) (r : Record) (name : FileName) (children : List (FileName × FileNode)),
        l.files[i]? = some r → entries[i]? = some (name, .directory children) →
          Holds v max content r.short.target children) :
      Holds v max content dir entries

/-- An entry of the volume is one of this node. -/
def HoldsNode (v : Volume) (max : ℕ) (content : ℕ → Vector UInt8 512) (e : DirectoryEntry) :
    FileNode → Prop
  | .file bytes => v.HoldsFile max content e bytes
  | .directory children => v.Holds max content e.target children

variable {dir : Directory} {l : Listing} {entries : List (FileName × FileNode)} {node : FileNode}
  {bytes : List UInt8} {e : DirectoryEntry}

/-- Lists that correspond to each other are searched alike. -/
lemma find?_aligned {α β : Type} {p : α → Bool} {q : β → Bool} {as : List α} {bs : List β}
    (hlength : as.length = bs.length)
    (h : ∀ (i : ℕ) (a : α) (b : β), as[i]? = some a → bs[i]? = some b → p a = q b) :
    (as.find? p = none ∧ bs.find? q = none) ∨ ∃ (i : ℕ) (a : α) (b : β), as[i]? = some a ∧
      bs[i]? = some b ∧ as.find? p = some a ∧ bs.find? q = some b := by
  induction as generalizing bs with
  | nil =>
      obtain rfl := List.length_eq_zero_iff.mp hlength.symm
      exact Or.inl ⟨rfl, rfl⟩
  | cons a as ih =>
      cases bs with
      | nil => cases hlength
      | cons b bs =>
          have hhead : p a = q b := h 0 a b rfl rfl
          cases hp : p a with
          | true =>
              refine Or.inr ⟨0, a, b, rfl, rfl, ?_, ?_⟩
              · rw [List.find?_cons, hp]
              · rw [List.find?_cons, ← hhead, hp]
          | false =>
              rw [List.find?_cons, List.find?_cons, ← hhead, hp]
              refine (ih (Nat.succ.inj hlength) fun i => h (i + 1)).imp id ?_
              rintro ⟨i, a', b', ha, hb, hfind⟩
              exact ⟨i + 1, a', b', ha, hb, hfind⟩

/-- Dot entries are not found, so it does not matter that they are there. -/
lemma find?_files (hdots : ∀ r, l.Has r → r.short.IsDot → r.long = none) :
    (l.slots.filterMap Slot.record?).find? (·.Named segment) = l.files.find? (·.Named segment) := by
  rw [Listing.files, List.find?_filter]
  refine List.find?_congr fun r hr => ?_
  obtain ⟨slot, hslot, hrecord⟩ := List.mem_filterMap.mp hr
  have hhas : l.Has r := by
    cases slot with
    | file r' inUse legal =>
        cases hrecord
        exact ⟨inUse, legal, hslot⟩
    | deleted e mark => cases hrecord
  have hdot : r.Named segment → ¬ r.short.IsDot := by
    rintro (⟨name, hname, -⟩ | hshort) hdot
    · rw [hdots r hhas hdot] at hname
      cases hname
    · exact hdot.not_short _ hshort
  by_cases hnamed : r.Named segment
  · simp [hnamed, hdot hnamed]
  · simp [hnamed]

lemma Lists.read (h : v.Stored max content) (hlists : v.Lists max content l dir) :
    ∃ fuel, v.readDirectory fuel dir = .ok l.entries := by
  cases dir with
  | rootDirectoryRegion =>
      refine ⟨0, ?_⟩
      rw [readDirectory, show v.rdr = l.entries from hlists]
      rfl
  | normal c =>
      obtain ⟨cs, hchain, hbytes⟩ := hlists
      exact ⟨_, h.readDirectory_chain hchain hbytes le_rfl⟩

/-- **Looking for a segment** in a directory that holds a tree. -/
lemma Holds.scan (h : v.Stored max content) (hholds : v.Holds max content dir entries)
    (segment : List Char) : ∃ fuel es, v.readDirectory fuel dir = .ok es ∧
      ((FileNode.find segment entries = none ∧ scanDirectory segment es = .ok none) ∨
        ∃ node e, FileNode.find segment entries = some node ∧ v.HoldsNode max content e node ∧
          scanDirectory segment es = .ok (some e)) := by
  obtain ⟨lists, scannable, dots, length, names, files, directories⟩ := hholds
  obtain ⟨fuel, hread⟩ := lists.read h
  refine ⟨fuel, _, hread, ?_⟩
  rw [scanDirectory_find (scannable segment), find?_files dots, FileNode.find]
  rcases find?_aligned (p := fun r : Record => decide (r.Named segment))
      (q := fun entry : FileName × FileNode => decide (entry.1.Is segment)) length
      (fun i r entry hr hentry => decide_eq_decide.mpr (names i r _ _ hr hentry).is_iff.symm) with
    ⟨hr, hentry⟩ | ⟨i, r, ⟨name, node⟩, hi, hi', hr, hentry⟩
  · rw [hr, hentry]
    exact Or.inl ⟨rfl, rfl⟩
  · rw [hr, hentry]
    refine Or.inr ⟨node, r.short, rfl, ?_, rfl⟩
    cases node with
    | file bytes => exact files i r name bytes hi hi'
    | directory children => exact directories i r name children hi hi'

/-- **A path that leads to something** is traversed to an entry of it. -/
lemma Holds.traverses (h : v.Stored max content) (hholds : v.Holds max content dir entries)
    (hsegments : ∀ segment ∈ segments, '/' ∉ segment) (hne : segments ≠ [])
    (hresolve : (FileNode.directory entries).resolve segments = some node) :
    ∃ e, v.HoldsNode max content e node ∧ ∃ es, v.Follows dir (pathOf segments) (es ++ [e]) none := by
  induction segments generalizing dir entries with
  | nil => exact absurd rfl hne
  | cons segment segments ih =>
      obtain ⟨fuel, es, hread, hscan⟩ := hholds.scan h segment
      rw [FileNode.resolve] at hresolve
      rcases hscan with ⟨hfind, -⟩ | ⟨found, e, hfind, hnode, hscan⟩
      · rw [hfind] at hresolve
        cases hresolve
      · rw [hfind, Option.bind_some] at hresolve
        have hsegment := hsegments segment List.mem_cons_self
        have hfinds : v.Finds dir segment e := ⟨fuel, es, hread, hscan⟩
        cases segments with
        | nil =>
            cases hresolve
            exact ⟨e, hnode, [], .last (nextSegment_pathOf_single hsegment) hfinds⟩
        | cons next segments =>
            cases found with
            | file bytes => cases hresolve
            | directory children =>
                obtain ⟨e', hnode', es', hfollows⟩ := ih hnode
                  (fun other hother => hsegments other (List.mem_cons_of_mem _ hother))
                  (List.cons_ne_nil _ _) hresolve
                exact ⟨e', hnode', e :: es', .step (nextSegment_pathOf_cons hsegment) hfinds hfollows⟩

/-- **A path that leads nowhere** is traversed to the directory in which the next name is missing. -/
lemma Holds.misses (h : v.Stored max content) (hholds : v.Holds max content dir entries)
    (hsegments : ∀ segment ∈ segments, '/' ∉ segment)
    (hlacks : (FileNode.directory entries).Lacks segments) :
    ∃ fuel, ∀ fuel' ≥ fuel, v.traversePath fuel' dir (pathOf segments) =
      .error (.explicit .traversePath) := by
  suffices hturns : ∃ fuel, ∀ fuel' ≥ fuel, ∀ turns > (pathOf segments).length,
      v.traverseSegments fuel' turns dir (pathOf segments) = .error (.explicit .traversePath) by
    obtain ⟨fuel, hfuel⟩ := hturns
    exact ⟨fuel, fun fuel' hle => hfuel fuel' hle _ (Nat.lt_succ_self _)⟩
  induction segments generalizing dir entries with
  | nil => cases hlacks
  | cons segment segments ih =>
      obtain ⟨fuel, es, hread, hscan⟩ := hholds.scan h segment
      have hsegment := hsegments segment List.mem_cons_self
      have hfirst : (nextSegment (pathOf (segment :: segments))).1 = segment := by
        cases segments with
        | nil => rw [nextSegment_pathOf_single hsegment]
        | cons next segments => rw [nextSegment_pathOf_cons hsegment]
      rw [FileNode.Lacks] at hlacks
      rcases hscan with ⟨-, hscan⟩ | ⟨found, e, hfind, hnode, hscan⟩
      · refine ⟨fuel, fun fuel' hle turns hturns => ?_⟩
        obtain ⟨turns, rfl⟩ := Nat.exists_eq_add_one_of_ne_zero (Nat.ne_zero_of_lt hturns)
        simp only [traverseSegments, readDirectory_mono hle hread, hfirst, hscan, Checked.ok_bind]
        rfl
      · rw [hfind] at hlacks
        cases segments with
        | nil => cases found <;> cases hlacks
        | cons next segments =>
            cases found with
            | file bytes => cases hlacks
            | directory children =>
                have hnext : nextSegment (pathOf (segment :: next :: segments)) =
                    (segment, some (pathOf (next :: segments))) := nextSegment_pathOf_cons hsegment
                have hshorter := nextSegment_length hnext
                obtain ⟨fuelRest, hrest⟩ := ih hnode
                  (fun other hother => hsegments other (List.mem_cons_of_mem _ hother)) hlacks
                refine ⟨Nat.max fuel fuelRest, fun fuel' hle turns hturns => ?_⟩
                obtain ⟨turns, rfl⟩ := Nat.exists_eq_add_one_of_ne_zero (Nat.ne_zero_of_lt hturns)
                simp only [traverseSegments, readDirectory_mono ((Nat.le_max_left _ _).trans hle) hread,
                  hnext, hscan, Checked.ok_bind]
                exact hrest fuel' ((Nat.le_max_right _ _).trans hle) turns (by omega)

/-- An entry of a file is read. -/
lemma HoldsFile.read (h : v.Stored max content) (hfile : v.HoldsFile max content e bytes) :
    ∃ fuel, ∀ fuel' ≥ fuel, ∃ r, v.readFile fuel' e.fstClus.toNat (some e.fileSize.toNat) = .ok r ∧
      r.data = bytes := by
  obtain ⟨-, hsize, cs, hchain, hprefix⟩ := hfile
  refine ⟨(e.fstClus.toNat :: cs).length, fun fuel' hfuel => ?_⟩
  have hle : e.fileSize.toNat ≤ (v.fileBytes content (e.fstClus.toNat :: cs)).length :=
    hsize.trans_le hprefix.length_le
  obtain ⟨r, hr, hdata⟩ := h.readFile_take hchain hle hfuel
  refine ⟨r, hr, hdata.trans ?_⟩
  rw [hsize]
  exact (List.prefix_iff_eq_take.mp hprefix).symm

/-- **The file system answers what the tree says.**  On a volume that is `Stored` and whose directory
`Holds` a tree, `read` and `read_large` return the bytes of the file that a path leads to,
`subcapability` grants the directory that it leads to, which holds that part of the tree, and all of them
panic with `file not found` if a directory on the way lacks the next segment.

`Stored` says that the drive answers and that the table covers the clusters.  `Holds` says that no file
is empty and that each directory can be scanned.  A path has at least one segment, and no segment has a
'/' in it.  Nothing is said about a path that goes on after a file. -/
theorem answer_resolve (h : v.Stored max content) (hholds : v.Holds max content dir entries)
    (hsegments : ∀ segment ∈ segments, '/' ∉ segment) (hne : segments ≠ []) :
    (∀ bytes, (FileNode.directory entries).resolve segments = some (.file bytes) →
      ∃ fuel, ∀ fuel' ≥ fuel, v.answer fuel' dir (pathOf segments) .read = .ok (.data bytes) ∧
        v.answer fuel' dir (pathOf segments) .readLarge = .ok (.shared bytes)) ∧
    (∀ children, (FileNode.directory entries).resolve segments = some (.directory children) →
      ∃ dir' fuel, v.Holds max content dir' children ∧ ∀ fuel' ≥ fuel,
        v.answer fuel' dir (pathOf segments) .subcapability = .ok (.granted dir')) ∧
    ((FileNode.directory entries).Lacks segments → ∃ fuel, ∀ fuel' ≥ fuel,
      ∀ request ∈ [Request.read, .readLarge, .subcapability],
        v.answer fuel' dir (pathOf segments) request = .error (.explicit .traversePath)) := by
  have htraverses : ∀ node, (FileNode.directory entries).resolve segments = some node →
      ∃ e fuel, v.HoldsNode max content e node ∧ ∀ fuel' ≥ fuel,
        v.traversePath fuel' dir (pathOf segments) = .ok (e.fstClus, e.fileSize) := by
    intro node hresolve
    obtain ⟨e, hnode, es, hfollows⟩ := hholds.traverses h hsegments hne hresolve
    obtain ⟨last, hlast, fuel, hfuel⟩ := hfollows.traverses rfl
    obtain rfl := Option.some.inj (List.getLast?_concat.symm.trans hlast)
    exact ⟨e, fuel, hnode, fun fuel' hle => hfuel fuel' hle _ (Nat.lt_succ_self _)⟩
  refine ⟨fun bytes hresolve => ?_, fun children hresolve => ?_, fun hlacks => ?_⟩
  · obtain ⟨e, fuel, hfile, htraverse⟩ := htraverses _ hresolve
    obtain ⟨fuelFile, hread⟩ := HoldsFile.read h hfile
    refine ⟨Nat.max fuel fuelFile, fun fuel' hle => ?_⟩
    obtain ⟨r, hr, rfl⟩ := hread fuel' ((Nat.le_max_right _ _).trans hle)
    have hpath := htraverse fuel' ((Nat.le_max_left _ _).trans hle)
    have hlength : r.data.length = e.fileSize.toNat := hfile.2.1.symm
    constructor
    · simp only [answer, read, hpath, hr, Checked.ok_bind]
      rfl
    · simp only [answer, readLarge, hpath, hr, Checked.ok_bind, ensure_pos hlength]
      rfl
  · obtain ⟨e, fuel, hnode, htraverse⟩ := htraverses _ hresolve
    refine ⟨e.target, fuel, hnode, fun fuel' hle => ?_⟩
    simp only [answer, subcapability, htraverse fuel' hle, Checked.ok_bind]
    rfl
  · obtain ⟨fuel, hmisses⟩ := hholds.misses h hsegments hlacks
    refine ⟨fuel, fun fuel' hle request hrequest => ?_⟩
    have hpath := hmisses fuel' hle
    simp only [List.mem_cons, List.not_mem_nil, or_false] at hrequest
    rcases hrequest with rfl | rfl | rfl
    · simp only [answer, read, hpath, Checked.error_bind]
    · simp only [answer, readLarge, hpath, Checked.error_bind]
    · simp only [answer, subcapability, hpath, Checked.error_bind]

end Volume

/-! ## A volume with a single directory -/

/-- A regular file `X` of three bytes. -/
def fileX : DirectoryEntry := ⟨(Volume.shortEntry [0x58] 0x20 3).bytes.set 28 3⟩

/-- The entries of `D`, in which there is only `X`. -/
def entriesD : Vector DirectoryEntry 16 :=
  .ofFn fun i => if i.val = 0 then fileX else ⟨.replicate 32 0⟩

/-- The first cluster is that of `D`. -/
def singleContent (sector : ℕ) : Vector UInt8 512 :=
  if sector = 3 then (entriesD.map DirectoryEntry.bytes).flatten else .replicate 512 97

/-- A volume whose root directory has only `D`. -/
def singleDirectory : Volume where
  type := .fat12
  bpb := Volume.twoClusters.bpb
  fat := [0xF0, 0xFF, 0xFF, 0xFF, 0xFF, 0xFF] ++ List.replicate 506 0
  rdr := Volume.directoryD :: List.replicate 15 ⟨.replicate 32 0⟩
  drive := fun sector => .ok (singleContent sector)

/-- A directory of one sector in which there is only one file. -/
def oneRecord (r : Record) (inUse : r.short.byte 0 ≠ 0xE5 ∧ r.short.byte 0 ≠ 0)
    (hlong : r.long = none) : Listing where
  slots := [.file r inUse (by simp [hlong])]
  ending := .marker ⟨.replicate 32 0⟩ Volume.emptyEntry_byte (List.replicate 14 ⟨.replicate 32 0⟩)

section OneRecord

variable {r s : Record} {inUse : r.short.byte 0 ≠ 0xE5 ∧ r.short.byte 0 ≠ 0}

lemma oneRecord_has (hlong : r.long = none) : (oneRecord r inUse hlong).Has s ↔ s = r := by
  constructor
  · rintro ⟨inUse', legal, hmem⟩
    cases List.mem_singleton.mp hmem
    rfl
  · rintro rfl
    exact ⟨inUse, by simp [hlong], List.mem_singleton.mpr rfl⟩

lemma oneRecord_scannable (hlong : r.long = none) (segment : List Char) :
    (oneRecord r inUse hlong).Scannable segment := by
  refine Listing.scannable_cons.mpr ⟨?_, Or.inr (Listing.scannable_nil.mpr ?_)⟩
  · intro name hname
    rw [hlong] at hname
    cases hname
  · exact ⟨_, _, _, rfl, by decide⟩

lemma oneRecord_files (hlong : r.long = none) (hdot : ¬ r.short.IsDot) :
    (oneRecord r inUse hlong).files = [r] := by
  have hrecords : (oneRecord r inUse hlong).slots.filterMap Slot.record? = [r] := rfl
  rw [Listing.files, hrecords]
  simp [hdot]

end OneRecord

/-- The directory `D`. -/
def recordD : Record := ⟨Volume.directoryD, Volume.directoryD_notLong, none⟩

/-- The file `X`. -/
def recordX : Record := ⟨fileX, by decide, none⟩

/-- The names of a file without a long name. -/
def shortNames (r : Record) : FileName := ⟨r.short.name, none⟩

/-- What is in the volume. -/
def singleTree : List (FileName × FileNode) :=
  [(shortNames recordD, .directory [(shortNames recordX, .file [97, 97, 97])])]

lemma singleDirectory_stored : singleDirectory.Stored 18 singleContent where
  valid := by decide
  maxCluster_eq := by decide
  below_marks := by decide
  covers := by decide +kernel
  drive := fun _ _ _ _ _ => rfl

/-- A directory holds a tree of one file if its only file is that one. -/
lemma holds_oneRecord {v : Volume} {max : ℕ} {content : ℕ → Vector UInt8 512} {dir : Directory}
    {r : Record} {node : FileNode} (inUse : r.short.byte 0 ≠ 0xE5 ∧ r.short.byte 0 ≠ 0)
    (hlong : r.long = none) (hdot : ¬ r.short.IsDot)
    (hlists : v.Lists max content (oneRecord r inUse hlong) dir)
    (hnode : v.HoldsNode max content r.short node) :
    v.Holds max content dir [(shortNames r, node)] := by
  have hfiles : (oneRecord r inUse hlong).files = [r] := oneRecord_files hlong hdot
  have hentry : ∀ {i : ℕ} {s : Record} {entry : FileName × FileNode},
      (oneRecord r inUse hlong).files[i]? = some s → [(shortNames r, node)][i]? = some entry →
        s = r ∧ entry = (shortNames r, node) := by
    intro i s entry hs hentry
    rw [hfiles] at hs
    exact ⟨List.mem_singleton.mp (List.mem_of_getElem? hs),
      List.mem_singleton.mp (List.mem_of_getElem? hentry)⟩
  refine .mk hlists (oneRecord_scannable hlong) ?_ ?_ ?_ ?_ ?_
  · intro s hhas _
    rw [(oneRecord_has hlong).mp hhas, hlong]
  · rw [hfiles]
    rfl
  · intro i s name node' hs he
    obtain ⟨rfl, heq⟩ := hentry hs he
    cases heq
    exact ⟨rfl, by rw [hlong]; rfl⟩
  · intro i s name bytes hs he
    obtain ⟨rfl, heq⟩ := hentry hs he
    cases heq
    exact hnode
  · intro i s name children hs he
    obtain ⟨rfl, heq⟩ := hentry hs he
    cases heq
    exact hnode

lemma singleDirectory_holds :
    singleDirectory.Holds 18 singleContent .rootDirectoryRegion singleTree := by
  have hfile : singleDirectory.HoldsFile 18 singleContent fileX [97, 97, 97] := by
    refine ⟨by decide, by decide, [], ⟨by decide, by decide, by decide +kernel⟩, ?_⟩
    exact ⟨List.replicate 509 97, by decide +kernel⟩
  have hX : singleDirectory.Holds 18 singleContent Volume.directoryD.target
      [(shortNames recordX, .file [97, 97, 97])] := by
    refine holds_oneRecord (by decide) rfl (by decide) ?_ hfile
    exact ⟨[], ⟨by decide, by decide, by decide +kernel⟩, by decide +kernel⟩
  exact holds_oneRecord (by decide) rfl (by decide) rfl hX

/-- The bytes of `X` are read. -/
theorem Volume.answer_resolve_singleDirectory : ∃ fuel, ∀ fuel' ≥ fuel,
    singleDirectory.answer fuel' .rootDirectoryRegion ['D', '/', 'X'] .read =
      .ok (.data [97, 97, 97]) := by
  have hsegments : ∀ segment ∈ [['D'], ['X']], '/' ∉ segment := by decide
  obtain ⟨fuel, hread⟩ := (Volume.answer_resolve singleDirectory_stored singleDirectory_holds
    hsegments (by decide)).1 [97, 97, 97] (by rfl)
  exact ⟨fuel, fun fuel' hle => (hread fuel' hle).1⟩

end Deravel
