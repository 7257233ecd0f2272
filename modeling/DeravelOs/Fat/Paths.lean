import Mathlib.Data.List.GetD
import DeravelOs.Fat.Volume

/-!
# Paths of a volume

`traverse_path` of `filesystems/fat/src/main.rs` and the requests that are answered with it.  It looks
for each segment of a path in a directory, and takes the entry that it finds first for the directory
of the next segment.

* `scanDirectory`: the loop over the entries of a directory.
* `Volume.traversePath`: the loop over the segments of a path.
* `Volume.answer`: the requests.
* `Volume.Finds`, `Volume.Follows`: the entries that the segments are matched with.
* `Volume.traversePath_eq_ok`: a path that is traversed is followed to its last entry.
-/

namespace Deravel

variable {segment : List Char} {entries rest : List DirectoryEntry} {item : Item}

/-! ## Directories -/

/-- `name_matches`: an entry that is yielded with a long name is known by that name alone. -/
def nameMatches (segment : List Char) : Item → Prop
  | (_, some longName) => longName = segment
  | (e, none) => toShortName segment = some e.name

instance (segment : List Char) : ∀ item, Decidable (nameMatches segment item)
  | (_, some _) => inferInstanceAs (Decidable (_ = _))
  | (_, none) => inferInstanceAs (Decidable (_ = _))

/-- So many turns of the loop over the entries of a directory.  A deleted entry is skipped, and an end
marker ends the loop. -/
def scan (segment : List Char) : (fuel : ℕ) → List DirectoryEntry → Checked (Option DirectoryEntry)
  | 0, _ => throw .diverges
  | fuel + 1, entries => do
      let (item, rest) ← coalesceNext entries
      if item.1.byte 0 = 0xE5 then scan segment fuel rest
      else if item.1.byte 0 = 0 then pure none
      else if nameMatches segment item then pure (some item.1)
      else scan segment fuel rest

/-- The loop of `traverse_path` over the entries of a directory. -/
def scanDirectory (segment : List Char) (entries : List DirectoryEntry) :
    Checked (Option DirectoryEntry) :=
  scan segment (entries.length + 1) entries

/-- A set of long names has at least one entry. -/
lemma tryAsFirstLong_pos {e : DirectoryEntry} {n : ℕ} (h : e.tryAsFirstLong = .ok (some n)) :
    0 < n := by
  rw [DirectoryEntry.tryAsFirstLong] at h
  split at h
  · cases h
  · obtain ⟨_, -, h⟩ := Checked.bind_eq_ok.mp h
    obtain ⟨_, hcount, h⟩ := Checked.bind_eq_ok.mp h
    cases h
    exact (ensure_eq_ok hcount).1

/-- Each step of the iterator consumes something. -/
lemma coalesceNext_length (h : coalesceNext entries = .ok (item, rest)) :
    rest.length < entries.length := by
  cases entries with
  | nil => cases h
  | cons first others =>
      obtain ⟨longCount, hfirst, h⟩ := Checked.bind_eq_ok.mp h
      cases longCount with
      | none =>
          cases h
          exact Nat.lt_succ_self _
      | some longCount =>
          have hpos := tryAsFirstLong_pos hfirst
          dsimp only at h
          split at h
          · cases h
          · obtain ⟨units, -, h⟩ := Checked.bind_eq_ok.mp h
            obtain ⟨name, -, h⟩ := Checked.bind_eq_ok.mp h
            cases h
            rw [List.length_drop, List.length_cons]
            omega

/-- The loop ends, so that it does not matter which bound is given. -/
lemma scan_eq {fuel : ℕ} (h : entries.length < fuel) :
    scan segment fuel entries = scanDirectory segment entries := by
  have hall : ∀ n m {entries : List DirectoryEntry}, entries.length < n → entries.length < m →
      scan segment n entries = scan segment m entries := by
    intro n
    induction n with
    | zero => exact fun m entries hn _ => absurd hn (Nat.not_lt_zero _)
    | succ n ih =>
        intro m entries hn hm
        cases m with
        | zero => exact absurd hm (Nat.not_lt_zero _)
        | succ m =>
            rw [scan, scan]
            cases hnext : coalesceNext entries with
            | error e => rfl
            | ok step =>
                have hlt := coalesceNext_length hnext
                have hrest : scan segment n step.2 = scan segment m step.2 :=
                  ih m (by omega) (by omega)
                simp only [Checked.ok_bind, hrest]
  exact hall _ _ h (Nat.lt_succ_self _)

/-- One turn of the loop. -/
lemma scanDirectory_step (h : coalesceNext entries = .ok (item, rest)) :
    scanDirectory segment entries =
      if item.1.byte 0 = 0xE5 then scanDirectory segment rest
      else if item.1.byte 0 = 0 then .ok none
      else if nameMatches segment item then .ok (some item.1)
      else scanDirectory segment rest := by
  have hrest : scan segment entries.length rest = scanDirectory segment rest :=
    scan_eq (coalesceNext_length h)
  rw [scanDirectory, scan, h]
  simp only [Checked.ok_bind, hrest]
  rfl

lemma scanDirectory_error {e : Panic} (h : coalesceNext entries = .error e) :
    scanDirectory segment entries = .error e := by
  rw [scanDirectory, scan, h, Checked.error_bind]

/-! ## Segments -/

/-- `path.split_once('/')`: the first segment of a path, and what is behind it. -/
def nextSegment (path : List Char) : List Char × Option (List Char) :=
  match Text.splitOnce '/' path with
  | some (segment, tail) => (segment, some tail)
  | none => (path, none)

/-- What is behind a segment is shorter. -/
lemma nextSegment_length {path tail : List Char} (h : nextSegment path = (segment, some tail)) :
    tail.length < path.length := by
  rw [nextSegment] at h
  cases hsplit : Text.splitOnce '/' path with
  | none =>
      rw [hsplit] at h
      cases h
  | some parts =>
      obtain ⟨front, back⟩ := parts
      obtain ⟨heq, -⟩ := Text.splitOnce_eq_some.mp hsplit
      rw [hsplit] at h
      cases h
      rw [heq, List.length_append, List.length_cons]
      omega

namespace Volume

variable {v : Volume} {dir : Directory} {path tail : List Char} {e : DirectoryEntry}
  {es : List DirectoryEntry} {left : Option (List Char)}

/-- So many turns of the loop over the segments of a path. -/
def traverseSegments (v : Volume) (fuel : ℕ) :
    (turns : ℕ) → Directory → List Char → Checked (UInt32 × UInt32)
  | 0, _, _ => throw .diverges
  | turns + 1, dir, path => do
      let entries ← v.readDirectory fuel dir
      match ← scanDirectory (nextSegment path).1 entries with
      | none => throw (.explicit .traversePath)
      | some de =>
          match (nextSegment path).2 with
          | none => pure (de.fstClus, de.fileSize)
          | some pathTail => v.traverseSegments fuel turns (.normal de.fstClus.toNat) pathTail

/-- `traverse_path`.  A turn takes at least a character from the path. -/
def traversePath (v : Volume) (fuel : ℕ) (dir : Directory) (path : List Char) :
    Checked (UInt32 × UInt32) :=
  v.traverseSegments fuel (path.length + 1) dir path

/-- `read` -/
def read (v : Volume) (fuel : ℕ) (dir : Directory) (path : List Char) : Checked (List UInt8) := do
  let (file, fileSize) ← v.traversePath fuel dir path
  let buffer ← v.readFile fuel file.toNat (some fileSize.toNat)
  pure buffer.data

/-- `read_large`, which answers with shared memory of the size of the file. -/
def readLarge (v : Volume) (fuel : ℕ) (dir : Directory) (path : List Char) :
    Checked (List UInt8) := do
  let (file, fileSize) ← v.traversePath fuel dir path
  let buffer ← v.readFile fuel file.toNat (some fileSize.toNat)
  ensure (buffer.data.length = fileSize.toNat) (.assertion .readLarge)
  pure buffer.data

/-- `subcapability` -/
def subcapability (v : Volume) (fuel : ℕ) (dir : Directory) (path : List Char) :
    Checked Directory := do
  let (cluster, _) ← v.traversePath fuel dir path
  pure (.normal cluster.toNat)

/-- The requests of `FilesystemServer`. -/
inductive Request
  | read
  | readLarge
  | write (data : List UInt8)
  | subcapability
  deriving DecidableEq, Repr

/-- What a request is answered with. -/
inductive Reply
  | data (bytes : List UInt8)
  | shared (bytes : List UInt8)
  | granted (dir : Directory)
  deriving DecidableEq, Repr

/-- The answer to a request. -/
def answer (v : Volume) (fuel : ℕ) (dir : Directory) (path : List Char) : Request → Checked Reply
  | .read => do
      let bytes ← v.read fuel dir path
      pure (.data bytes)
  | .readLarge => do
      let bytes ← v.readLarge fuel dir path
      pure (.shared bytes)
  | .write _ => throw (.unimplemented .serverHandler)
  | .subcapability => do
      let granted ← v.subcapability fuel dir path
      pure (.granted granted)

/-! ## What is read -/

/-- A directory is stored as the bytes of its entries, one entry after the other. -/
lemma directoryBytesToEntries_flatten {n : ℕ} (entries : Vector DirectoryEntry n) {capacity : ℕ}
    (hcapacity : capacity % 32 = 0) :
    directoryBytesToEntries ⟨(entries.map DirectoryEntry.bytes).flatten.toList, capacity⟩ =
      .ok entries.toList := by
  have hlength : (entries.map DirectoryEntry.bytes).flatten.toList.length = n * 32 :=
    Vector.length_toList
  rw [directoryBytesToEntries]
  simp only [hlength, Nat.mul_mod_left, hcapacity, ensure_pos, Checked.ok_bind,
    Nat.mul_div_cancel n (by decide : 0 < 32)]
  refine congrArg Except.ok (List.ext_getElem (by simp) fun k hk hk' => ?_)
  rw [Vector.length_toList] at hk'
  rw [List.getElem_map, List.getElem_range, Vector.getElem_toList]
  have hbyte : ∀ i (hi : i < 32), (entries.map DirectoryEntry.bytes).flatten.toList.getD
      (k * 32 + i) 0 = entries[k].bytes[i] := by
    intro i hi
    have hlt : k * 32 + i < n * 32 := by omega
    rw [List.getD_eq_getElem _ _ (by omega), Vector.getElem_toList, Vector.getElem_flatten hlt]
    simp only [Vector.getElem_map, show (k * 32 + i) / 32 = k by omega,
      show (k * 32 + i) % 32 = i by omega]
  refine congrArg DirectoryEntry.mk (Vector.ext fun i hi => ?_)
  rw [Vector.getElem_ofFn]
  exact hbyte i hi

/-- More turns do not change what is read. -/
lemma readClusters_mono {size : Option ℕ} {buffer r : FileBuffer} {fuel fuel' c : ℕ}
    (hle : fuel ≤ fuel') (h : v.readClusters size fuel c buffer = .ok r) :
    v.readClusters size fuel' c buffer = .ok r := by
  induction fuel generalizing fuel' c buffer with
  | zero => cases h
  | succ fuel ih =>
      cases fuel' with
      | zero => exact absurd hle (Nat.not_succ_le_zero _)
      | succ fuel' =>
          obtain ⟨next, hnext, h⟩ := Checked.bind_eq_ok.mp h
          obtain ⟨⟨middle, stop⟩, hread, h⟩ := Checked.bind_eq_ok.mp h
          refine Checked.bind_eq_ok.mpr ⟨next, hnext, Checked.bind_eq_ok.mpr ⟨_, hread, ?_⟩⟩
          cases stop with
          | true => exact h
          | false =>
              cases next with
              | none => exact h
              | some d => exact ih (Nat.le_of_succ_le_succ hle) h

lemma readDirectory_mono {fuel fuel' : ℕ} (hle : fuel ≤ fuel')
    (h : v.readDirectory fuel dir = .ok entries) : v.readDirectory fuel' dir = .ok entries := by
  cases dir with
  | rootDirectoryRegion => exact h
  | normal cluster =>
      obtain ⟨buffer, hfile, h⟩ := Checked.bind_eq_ok.mp h
      obtain ⟨empty, hempty, hfile⟩ := Checked.bind_eq_ok.mp hfile
      obtain ⟨full, hfull, hfile⟩ := Checked.bind_eq_ok.mp hfile
      exact Checked.bind_eq_ok.mpr ⟨buffer, Checked.bind_eq_ok.mpr ⟨empty, hempty,
        Checked.bind_eq_ok.mpr ⟨full, readClusters_mono hle hfull, hfile⟩⟩, h⟩

/-- A directory has one content. -/
lemma readDirectory_unique {fuel fuel' : ℕ} {entries' : List DirectoryEntry}
    (h : v.readDirectory fuel dir = .ok entries) (h' : v.readDirectory fuel' dir = .ok entries') :
    entries = entries' := by
  have hmax := readDirectory_mono (Nat.le_max_left fuel fuel') h
  rw [readDirectory_mono (Nat.le_max_right fuel fuel') h'] at hmax
  exact (Except.ok.inj hmax).symm

/-- In this directory, the segment is matched with this entry. -/
def Finds (v : Volume) (dir : Directory) (segment : List Char) (e : DirectoryEntry) : Prop :=
  ∃ fuel entries, v.readDirectory fuel dir = .ok entries ∧
    scanDirectory segment entries = .ok (some e)

/-- A segment is matched with one entry. -/
lemma Finds.unique {e' : DirectoryEntry} (h : v.Finds dir segment e) (h' : v.Finds dir segment e') :
    e = e' := by
  obtain ⟨fuel, entries, hread, hscan⟩ := h
  obtain ⟨fuel', entries', hread', hscan'⟩ := h'
  obtain rfl := readDirectory_unique hread hread'
  exact Option.some.inj (Except.ok.inj (hscan.symm.trans hscan'))

/-- The loop of `traverse_path`, starting in this directory, has matched these entries, and has this
part of the path left to look for. -/
inductive Follows (v : Volume) :
    Directory → List Char → List DirectoryEntry → Option (List Char) → Prop
  | start (dir : Directory) (path : List Char) : v.Follows dir path [] (some path)
  | last {dir : Directory} {path segment : List Char} {e : DirectoryEntry}
      (hsegment : nextSegment path = (segment, none)) (hfinds : v.Finds dir segment e) :
      v.Follows dir path [e] none
  | step {dir : Directory} {path segment tail : List Char} {e : DirectoryEntry}
      {es : List DirectoryEntry} {left : Option (List Char)}
      (hsegment : nextSegment path = (segment, some tail)) (hfinds : v.Finds dir segment e)
      (hrest : v.Follows (.normal e.fstClus.toNat) tail es left) : v.Follows dir path (e :: es) left

/-- A path that is followed to its end is traversed. -/
lemma Follows.traverses (h : v.Follows dir path es left) (hleft : left = none) :
    ∃ e, es.getLast? = some e ∧ ∃ fuel, ∀ fuel' ≥ fuel, ∀ turns > path.length,
      v.traverseSegments fuel' turns dir path = .ok (e.fstClus, e.fileSize) := by
  induction h with
  | start => cases hleft
  | @last dir path segment e hsegment hfinds =>
      obtain ⟨fuel, entries, hread, hscan⟩ := hfinds
      refine ⟨e, rfl, fuel, fun fuel' hle turns hturns => ?_⟩
      obtain ⟨turns, rfl⟩ := Nat.exists_eq_add_one_of_ne_zero (Nat.ne_zero_of_lt hturns)
      simp only [traverseSegments, readDirectory_mono hle hread, hsegment, hscan, Checked.ok_bind]
      rfl
  | @step dir path segment tail e es left hsegment hfinds _ ih =>
      have hshorter := nextSegment_length hsegment
      obtain ⟨fuel, entries, hread, hscan⟩ := hfinds
      obtain ⟨last, hlast, fuelRest, hrest⟩ := ih hleft
      refine ⟨last, by rw [List.getLast?_cons, hlast, Option.getD_some], max fuel fuelRest,
        fun fuel' hle turns hturns => ?_⟩
      obtain ⟨turns, rfl⟩ := Nat.exists_eq_add_one_of_ne_zero (Nat.ne_zero_of_lt hturns)
      simp only [traverseSegments, readDirectory_mono ((Nat.le_max_left _ _).trans hle) hread,
        hsegment, hscan, Checked.ok_bind]
      exact hrest fuel' ((Nat.le_max_right _ _).trans hle) turns (by omega)

/-- **A path that is traversed** is followed to its last entry, and what is returned is where that
entry points to. -/
theorem traversePath_eq_ok {target : UInt32 × UInt32} :
    (∃ fuel, v.traversePath fuel dir path = .ok target) ↔
      ∃ es e, v.Follows dir path (es ++ [e]) none ∧ target = (e.fstClus, e.fileSize) := by
  constructor
  · rintro ⟨fuel, h⟩
    rw [traversePath] at h
    generalize path.length + 1 = turns at h
    induction turns generalizing dir path with
    | zero => cases h
    | succ turns ih =>
        obtain ⟨entries, hread, h⟩ := Checked.bind_eq_ok.mp h
        obtain ⟨found, hscan, h⟩ := Checked.bind_eq_ok.mp h
        cases found with
        | none => cases h
        | some e =>
            have hfinds : v.Finds dir (nextSegment path).1 e := ⟨fuel, entries, hread, hscan⟩
            cases htail : (nextSegment path).2 with
            | none =>
                simp only [htail] at h
                cases h
                exact ⟨[], e, .last (Prod.ext rfl htail) hfinds, rfl⟩
            | some tail =>
                simp only [htail] at h
                obtain ⟨es, last, hfollows, htarget⟩ := ih h
                exact ⟨e :: es, last, .step (Prod.ext rfl htail) hfinds hfollows, htarget⟩
  · rintro ⟨es, e, hfollows, rfl⟩
    obtain ⟨last, hlast, fuel, hfuel⟩ := hfollows.traverses rfl
    obtain rfl := Option.some.inj (List.getLast?_concat.symm.trans hlast)
    exact ⟨fuel, hfuel fuel le_rfl _ (Nat.lt_succ_self _)⟩

/-- This is the answer to a request for what an entry points to. -/
def IsAnswer (v : Volume) (e : DirectoryEntry) : Request → Reply → Prop
  | .read, reply => ∃ fuel buffer, reply = .data buffer.data ∧
      v.readFile fuel e.fstClus.toNat (some e.fileSize.toNat) = .ok buffer
  | .readLarge, reply => ∃ fuel buffer, reply = .shared buffer.data ∧
      v.readFile fuel e.fstClus.toNat (some e.fileSize.toNat) = .ok buffer
  | .write _, _ => False
  | .subcapability, reply => reply = .granted (.normal e.fstClus.toNat)

/-- **Answers are about the last entry of the path.** -/
theorem answer_eq_ok {fuel : ℕ} {request : Request} {reply : Reply}
    (h : v.answer fuel dir path request = .ok reply) :
    ∃ es e, v.Follows dir path (es ++ [e]) none ∧ v.IsAnswer e request reply := by
  have hpath : ∀ {cluster size}, v.traversePath fuel dir path = .ok (cluster, size) →
      ∃ es e, v.Follows dir path (es ++ [e]) none ∧ cluster = e.fstClus ∧ size = e.fileSize := by
    intro cluster size htraverse
    obtain ⟨es, e, hfollows, htarget⟩ := traversePath_eq_ok.mp ⟨fuel, htraverse⟩
    exact ⟨es, e, hfollows, Prod.mk.inj htarget⟩
  cases request with
  | read =>
      obtain ⟨bytes, hread, h⟩ := Checked.bind_eq_ok.mp h
      cases h
      obtain ⟨⟨cluster, size⟩, htraverse, hread⟩ := Checked.bind_eq_ok.mp hread
      obtain ⟨buffer, hfile, hread⟩ := Checked.bind_eq_ok.mp hread
      cases hread
      obtain ⟨es, e, hfollows, rfl, rfl⟩ := hpath htraverse
      exact ⟨es, e, hfollows, fuel, buffer, rfl, hfile⟩
  | readLarge =>
      obtain ⟨bytes, hread, h⟩ := Checked.bind_eq_ok.mp h
      cases h
      obtain ⟨⟨cluster, size⟩, htraverse, hread⟩ := Checked.bind_eq_ok.mp hread
      obtain ⟨buffer, hfile, hread⟩ := Checked.bind_eq_ok.mp hread
      obtain ⟨_, -, hread⟩ := Checked.bind_eq_ok.mp hread
      cases hread
      obtain ⟨es, e, hfollows, rfl, rfl⟩ := hpath htraverse
      exact ⟨es, e, hfollows, fuel, buffer, rfl, hfile⟩
  | write data => cases h
  | subcapability =>
      obtain ⟨granted, hsub, h⟩ := Checked.bind_eq_ok.mp h
      cases h
      obtain ⟨⟨cluster, size⟩, htraverse, hsub⟩ := Checked.bind_eq_ok.mp hsub
      cases hsub
      obtain ⟨es, e, hfollows, rfl, -⟩ := hpath htraverse
      exact ⟨es, e, hfollows, rfl⟩

end Volume

end Deravel
