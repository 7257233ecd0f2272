import DeravelOs.Fat.Reading
import DeravelOs.Lib.Loop

/-!
# Reading along pointers of the disk

The first cluster of a file comes from its directory entry, the others from the table, and both are
what the disk says.  `walk_clusters` compares the others with `max_cluster`, but not the first, and
keeps no account of where it has been.

* `Volume.faults`: running forever, arithmetic that underflows and requests outside of the data
  region.
* `Volume.Acyclic`: the walk does not come back to a cluster.
* `Volume.Harmless`: when a first cluster can be followed.
* `Volume.safe_iff`: `read_file` is safe exactly then.
-/

namespace Deravel

namespace Volume

variable {v : Volume} {max c : ℕ} {size : Option ℕ} {content : ℕ → Vector UInt8 512}

/-! ## Faults -/

/-- What must not come of reading a file.  The arithmetic that can underflow is `cluster - 2`, and the
one of `count_of_clusters`. -/
def faults : List Panic :=
  [.diverges, .overflow .clusterNumber, .overflow .fatLayout, .unwrap .diskRead]

/-- A run without a fault.  It may end with another panic. -/
def Sound {α : Type} (x : Checked α) : Prop := ∀ e ∈ faults, x ≠ .error e

/-- The volume on a drive that refuses the sectors outside of the data region. -/
def guarded (v : Volume) (content : ℕ → Vector UInt8 512) : Volume :=
  { v with drive := fun sector =>
      if v.ratio * v.dataStart ≤ sector ∧ sector < v.ratio * v.dataStop then .ok (content sector)
      else .error (.unwrap .diskRead) }

/-- `read_file` ends, without arithmetic that underflows, and asks for sectors of the data region
only. -/
def Safe (v : Volume) (content : ℕ → Vector UInt8 512) (c : ℕ) (size : Option ℕ) : Prop :=
  ∃ fuel, Sound ((v.guarded content).readFile fuel c size)

lemma sound_ok {α : Type} (a : α) : Sound (.ok a : Checked α) := nofun

lemma sound_error {α : Type} {e : Panic} : Sound (.error e : Checked α) ↔ e ∉ faults :=
  ⟨fun h hmem => h e hmem rfl, fun h _ hmem heq => h (Except.error.inj heq ▸ hmem)⟩

lemma sound_bind {α β : Type} {x : Checked α} {f : α → β} :
    Sound (x >>= fun a => pure (f a)) ↔ Sound x := by
  cases x with
  | error e => rw [Checked.error_bind, sound_error, sound_error]
  | ok a => exact ⟨fun _ => sound_ok a, fun _ => sound_ok (f a)⟩

/-- Reserving room for a file is no fault, and for a size that a directory entry has there is room. -/
lemma readFile_sound (hsize : ∀ n ∈ size, n < 2 ^ 32) : ∃ capacity, ∀ fuel,
    Sound (v.readFile fuel c size) ↔ Sound (v.readClusters size fuel c ⟨[], capacity⟩) := by
  cases size with
  | none => exact ⟨0, fun fuel => sound_bind⟩
  | some n =>
      refine ⟨nextMultipleOf n diskSectorSize, fun fuel => ?_⟩
      have hn := hsize n rfl
      rw [readFile, FileBuffer.reserve_eq (by omega), Checked.ok_bind]
      exact sound_bind

/-! ## Links -/

/-- `max_cluster`, on a volume with a data region. -/
def lastCluster (v : Volume) : ℕ := (v.dataStop - v.dataStart) / v.secPerClus + 1

/-- The table links one cluster to another. -/
def Linked (v : Volume) (c d : ℕ) : Prop :=
  v.Covers c ∧ v.Indexed c ∧ v.IsLink v.lastCluster c ∧ v.entry c = d

/-- From this cluster on, the table does not lead in a circle. -/
def Acyclic (v : Volume) (c : ℕ) : Prop :=
  ∀ d, Relation.ReflTransGen v.Linked c d → ¬ Relation.TransGen v.Linked d d

/-- A first cluster behind the clusters of the volume.  Either its sectors have no number, or the bytes
that are asked for are found in the sectors behind the last cluster. -/
def Truncated (v : Volume) (c : ℕ) (size : Option ℕ) : Prop :=
  2 ^ 32 ≤ v.firstSector c ∨ v.firstSector c < v.dataStop ∧
    ∃ n ∈ size, n ≤ (v.dataStop - v.firstSector c) * v.bpb.bytsPerSec.toNat

/-- When a first cluster can be followed: the walk panics at once, or it is one of the clusters of the
volume and, where nothing else ends the walk, the table does not lead in a circle. -/
def Harmless (v : Volume) (c : ℕ) (size : Option ℕ) : Prop :=
  v.Covers c → v.Indexed c → 2 ≤ v.entry c → v.dataStart ≤ v.dataStop ∧
    (v.IsLink v.lastCluster c ∨ v.IsEnd c → 2 ≤ c ∧
      if c ≤ v.lastCluster then size = none → v.Acyclic c else v.Truncated c size)

/-! ## One step of the walk -/

/-- A volume in use: it has been accepted, and its layout has been computed. -/
structure Mounted (v : Volume) : Prop where
  valid : v.bpb.validateBpb v.type = .ok ()
  root : ∃ root, v.bpb.rootDirectorySectors v.type = .ok root

lemma Mounted.maxCluster_eq (h : v.Mounted) (hroom : v.dataStart ≤ v.dataStop) :
    v.maxCluster = .ok v.lastCluster := by
  have hcount := (Bpb.countOfClusters_eq_ok (Bpb.valid_of_validateBpb h.valid)).mpr ⟨hroom, rfl⟩
  have hstart : 0 < v.dataStart := by
    have hrsvd : v.bpb.rsvdSecCnt.toNat ≠ 0 := fun hzero =>
      Bpb.rsvdSecCnt_of_validateBpb h.valid (UInt16.toNat_inj.mp hzero)
    exact Nat.add_pos_left (Nat.add_pos_left (Nat.pos_of_ne_zero hrsvd) _) _
  have hle : (v.dataStop - v.dataStart) / v.secPerClus ≤ v.dataStop - v.dataStart :=
    Nat.div_le_self _ _
  have hlt := v.dataStop_lt
  refine Checked.bind_eq_ok.mpr ⟨_, hcount, uintAdd_eq_ok.mpr ⟨?_, rfl⟩⟩
  change (v.dataStop - v.dataStart) / v.secPerClus + 1 < 2 ^ 32
  omega

lemma Mounted.geometry (h : v.Mounted) (hroom : v.dataStart ≤ v.dataStop) :
    v.Geometry v.lastCluster :=
  Volume.geometry h.valid (h.maxCluster_eq hroom)

/-- Without room for a data region, the clusters cannot be counted. -/
lemma Mounted.maxCluster_underflow (h : v.Mounted) (hroom : v.dataStop < v.dataStart) :
    v.maxCluster = .error (.overflow .fatLayout) := by
  obtain ⟨root, hroot⟩ := h.root
  have hstop := Bpb.rootDirectorySectors_stop hroot
  rw [maxCluster, Bpb.countOfClusters, Bpb.dataSectors, hroot]
  change v.dataStop < v.bpb.sectorsBeforeData v.type at hroom
  rw [← hstop] at hroom
  change ((uintSub .fatLayout v.dataStop root.stop >>= _) >>= _) = _
  rw [uintSub_underflow hroom]
  rfl

/-- What the walk makes of an entry where the clusters cannot be counted. -/
lemma nextCluster_uncounted {e : Panic} (hmax : v.maxCluster = .error e) (hcovers : v.Covers c)
    (hindexed : v.Indexed c) : v.nextCluster c =
      if 2 ≤ v.entry c then .error e else .error (.unimplemented .walkClusters) := by
  obtain ⟨value, hvalue, hentry⟩ := readFatEntry_eq hcovers hindexed
  simp only [nextCluster, hvalue, Checked.ok_bind, hentry, hmax]
  by_cases hlow : 2 ≤ v.entry c
  · simp only [hlow, if_true]
    rfl
  · have hmark : ¬ v.type.endMark ≤ v.entry c := by
      cases v.type with
      | fat12 => rw [FatType.endMark]; omega
      | fat16 => rw [FatType.endMark]; omega
      | fat32 => rw [FatType.endMark]; omega
    simp only [hlow, if_false, hmark, false_and]
    rfl

/-- Without an entry, the walk panics, and that is no fault. -/
lemma nextCluster_outside (h : ¬ (v.Covers c ∧ v.Indexed c)) :
    ∃ e ∉ faults, v.nextCluster c = .error e := by
  by_cases hindexed : v.Indexed c
  · have hcovers : ¬ v.Covers c := fun hcovers => h ⟨hcovers, hindexed⟩
    refine ⟨.indexOutOfBounds .readFatEntry, by decide, ?_⟩
    rw [nextCluster, readFatEntry_outside hcovers hindexed, Checked.error_bind]
  · refine ⟨.overflow .readFatEntry, by decide, ?_⟩
    rw [nextCluster, readFatEntry_overflow hindexed, Checked.error_bind]

/-- **What one step of the walk does,** on a volume with a data region. -/
lemma Mounted.nextCluster_cases (h : v.Mounted) (hroom : v.dataStart ≤ v.dataStop) (c : ℕ) :
    (v.Linked c (v.entry c) ∧ v.nextCluster c = .ok (some (v.entry c))) ∨
      (v.IsEnd c ∧ v.nextCluster c = .ok none) ∨ ∃ e ∉ faults, v.nextCluster c = .error e := by
  by_cases hin : v.Covers c ∧ v.Indexed c
  · have heq := nextCluster_eq (h.maxCluster_eq hroom) hin.1 hin.2
    by_cases hlink : v.IsLink v.lastCluster c
    · rw [if_pos hlink] at heq
      exact Or.inl ⟨⟨hin.1, hin.2, hlink, rfl⟩, heq⟩
    rw [if_neg hlink] at heq
    by_cases hend : v.IsEnd c
    · rw [if_pos hend] at heq
      exact Or.inr (Or.inl ⟨hend, heq⟩)
    · rw [if_neg hend] at heq
      exact Or.inr (Or.inr ⟨_, by decide, heq⟩)
  · exact Or.inr (Or.inr (nextCluster_outside hin))

lemma Mounted.nextCluster_some (h : v.Mounted) (hroom : v.dataStart ≤ v.dataStop) {d : ℕ} :
    v.nextCluster c = .ok (some d) ↔ v.Linked c d := by
  constructor
  · intro hnext
    rcases h.nextCluster_cases hroom c with ⟨hlinked, heq⟩ | ⟨-, heq⟩ | ⟨e, -, heq⟩
    · rw [heq] at hnext
      cases hnext
      exact hlinked
    · rw [heq] at hnext
      cases hnext
    · rw [heq] at hnext
      cases hnext
  · rintro ⟨hcovers, hindexed, hlink, rfl⟩
    rw [nextCluster_eq (h.maxCluster_eq hroom) hcovers hindexed, if_pos hlink]

/-! ## Clusters of the volume -/

/-- A drive that answers for the data region, and refuses what is behind it. -/
structure Guarded (v : Volume) (content : ℕ → Vector UInt8 512) : Prop where
  inside : ∀ s, v.ratio * v.dataStart ≤ s → s < v.ratio * v.dataStop → v.drive s = .ok (content s)
  behind : ∀ s, v.ratio * v.dataStop ≤ s → v.drive s = .error (.unwrap .diskRead)

lemma guarded_guarded (v : Volume) (content : ℕ → Vector UInt8 512) :
    (v.guarded content).Guarded content :=
  ⟨fun _ hstart hstop => if_pos ⟨hstart, hstop⟩,
    fun _ hstop => if_neg fun h => absurd h.2 (Nat.not_lt.mpr hstop)⟩

lemma Guarded.answers (hguard : v.Guarded content) {first n : ℕ} (hstart : v.dataStart ≤ first)
    (hstop : first + n ≤ v.dataStop) :
    ∀ s ∈ List.range' (v.ratio * first) (v.ratio * n), v.drive s = .ok (content s) := by
  intro s hs
  obtain ⟨hle, hlt⟩ := List.mem_range'_1.mp hs
  refine hguard.inside s ((Nat.mul_le_mul_left _ hstart).trans hle) (hlt.trans_le ?_)
  rw [← Nat.mul_add]
  exact Nat.mul_le_mul_left _ hstop

/-- The clusters of the volume lie in the data region, and they have bytes. -/
lemma Guarded.readSectors_inside (hguard : v.Guarded content) (hgeometry : v.Geometry max) (hc : 2 ≤ c)
    (hle : c ≤ max) (size : Option ℕ) (buffer : FileBuffer) :
    ∃ r bytes, v.readSectors size c (List.range v.secPerClus) buffer = .ok r ∧ bytes ≠ [] ∧
      Progress size buffer.data bytes r := by
  obtain ⟨r, hr, hprogress⟩ := hgeometry.readSectors_progress size hc hle
    (hguard.answers (Nat.le_add_right _ _) (hgeometry.cluster_le hc hle)) buffer
  refine ⟨r, _, hr, ?_, hprogress⟩
  rw [← List.length_pos_iff_ne_nil, sectorBytes_length, clusterSectors, List.length_range']
  exact Nat.mul_pos (by decide) (Nat.mul_pos hgeometry.ratio_pos hgeometry.secPerClus_pos)

/-- **Reading so many bytes is safe,** wherever the table leads: each cluster adds some. -/
lemma Mounted.readClusters_some (h : v.Mounted) (hroom : v.dataStart ≤ v.dataStop)
    (hguard : v.Guarded content) {n : ℕ} : ∀ fuel {c : ℕ} (buffer : FileBuffer), 2 ≤ c →
      c ≤ v.lastCluster → n ≤ fuel + buffer.data.length →
        Sound (v.readClusters (some n) (fuel + 1) c buffer) := by
  intro fuel
  induction fuel with
  | zero =>
      intro c buffer hc hle hn
      obtain ⟨r, bytes, hr, hne, hprogress⟩ := hguard.readSectors_inside (h.geometry hroom) hc hle (some n)
        buffer
      have hstop : r.2 = true := hprogress.stops_iff.mpr ⟨hne, n, rfl, by
        rw [List.length_append]
        omega⟩
      rw [readClusters]
      rcases h.nextCluster_cases hroom c with ⟨-, heq⟩ | ⟨-, heq⟩ | ⟨e, he, heq⟩
      · simp only [heq, hr, Checked.ok_bind, hstop]
        exact sound_ok _
      · simp only [heq, hr, Checked.ok_bind, hstop]
        exact sound_ok _
      · rw [heq, Checked.error_bind]
        exact sound_error.mpr he
  | succ fuel ih =>
      intro c buffer hc hle hn
      obtain ⟨r, bytes, hr, hne, hprogress⟩ := hguard.readSectors_inside (h.geometry hroom) hc hle (some n)
        buffer
      rw [readClusters]
      rcases h.nextCluster_cases hroom c with ⟨⟨-, -, hlink, -⟩, heq⟩ | ⟨-, heq⟩ | ⟨e, he, heq⟩
      · simp only [heq, hr, Checked.ok_bind]
        cases hstop : r.2 with
        | true => exact sound_ok _
        | false =>
            refine ih r.1 hlink.1 hlink.2 ?_
            rw [hprogress.whole hstop, List.length_append]
            have := List.length_pos_iff_ne_nil.mpr hne
            omega
      · simp only [heq, hr, Checked.ok_bind]
        cases r.2 with
        | true => exact sound_ok _
        | false => exact sound_ok _
      · rw [heq, Checked.error_bind]
        exact sound_error.mpr he

/-- The loop of the walk. -/
def walkTurn (v : Volume) (c : ℕ) : Loop.Turn ℕ (Option Panic) :=
  match v.nextCluster c with
  | .ok (some d) => .next d
  | .ok none => .done none
  | .error e => .done (some e)

lemma Mounted.walkTurn_next (h : v.Mounted) (hroom : v.dataStart ≤ v.dataStop) :
    (fun c d => v.walkTurn c = .next d) = v.Linked := by
  funext c d
  rw [← h.nextCluster_some hroom, walkTurn]
  rcases v.nextCluster c with e | (_ | d')
  · simp
  · simp
  · simp

/-- Without a size, `read_file` goes as far as the walk. -/
lemma Mounted.readClusters_none (h : v.Mounted) (hroom : v.dataStart ≤ v.dataStop)
    (hguard : v.Guarded content) : ∀ fuel {c : ℕ} (buffer : FileBuffer), 2 ≤ c →
      c ≤ v.lastCluster → (Sound (v.readClusters none fuel c buffer) ↔
        ∃ r, Loop.run v.walkTurn fuel c = some r) := by
  intro fuel
  induction fuel with
  | zero =>
      intro c buffer _ _
      refine iff_of_false (fun hsound => hsound .diverges (by decide) rfl) ?_
      rintro ⟨r, hr⟩
      cases hr
  | succ fuel ih =>
      intro c buffer hc hle
      obtain ⟨r, bytes, hr, -, hprogress⟩ := hguard.readSectors_inside (h.geometry hroom) hc hle none buffer
      have hgoes : r.2 = false := by
        rw [← Bool.not_eq_true, hprogress.stops_iff]
        rintro ⟨-, n, hn, -⟩
        cases hn
      rw [readClusters, Loop.run, walkTurn]
      rcases h.nextCluster_cases hroom c with ⟨⟨-, -, hlink, -⟩, heq⟩ | ⟨-, heq⟩ | ⟨e, he, heq⟩
      · simp only [heq, hr, Checked.ok_bind, hgoes]
        exact ih r.1 hlink.1 hlink.2
      · simp only [heq, hr, Checked.ok_bind, hgoes]
        exact iff_of_true (sound_ok _) ⟨none, rfl⟩
      · simp only [heq, Checked.error_bind]
        exact iff_of_true (sound_error.mpr he) ⟨some e, rfl⟩

/-- The walk ends where the table does not lead in a circle. -/
lemma Mounted.walk_ends_iff (h : v.Mounted) (hroom : v.dataStart ≤ v.dataStop) (hc : 2 ≤ c)
    (hle : c ≤ v.lastCluster) : (∃ fuel r, Loop.run v.walkTurn fuel c = some r) ↔ v.Acyclic c := by
  have hinside : {d | Loop.Visits v.walkTurn c d} ⊆ Set.Icc 2 v.lastCluster := by
    refine fun d => Loop.invariant (· ∈ Set.Icc 2 v.lastCluster) (fun s t _ hturn => ?_) ⟨hc, hle⟩
    have hlinked : v.Linked s t := by
      rw [← h.walkTurn_next hroom]
      exact hturn
    obtain ⟨-, -, hlink, rfl⟩ := hlinked
    exact hlink
  rw [Loop.ends_iff_of_finite ((Set.finite_Icc 2 v.lastCluster).subset hinside)]
  simp only [Loop.Visits, Loop.Returns, h.walkTurn_next hroom]
  rfl

/-- **A cluster of the volume is safe to start from** if the size is known, or if the table does not
lead in a circle. -/
lemma Mounted.cluster_safe_iff (h : v.Mounted) (hroom : v.dataStart ≤ v.dataStop)
    (hguard : v.Guarded content) (hc : 2 ≤ c) (hle : c ≤ v.lastCluster) (buffer : FileBuffer) :
    (∃ fuel, Sound (v.readClusters size fuel c buffer)) ↔ (size = none → v.Acyclic c) := by
  cases size with
  | none =>
      simp only [h.readClusters_none hroom hguard _ buffer hc hle, h.walk_ends_iff hroom hc hle,
        forall_const]
  | some n =>
      refine iff_of_true ⟨n + 1, h.readClusters_some hroom hguard n buffer hc hle ?_⟩ nofun
      exact Nat.le_add_right _ _

/-! ## Other numbers -/

/-- The sectors of a cluster without a number underflow. -/
lemma Geometry.readSectors_low (hgeometry : v.Geometry max) (hc : c < 2) (buffer : FileBuffer) :
    v.readSectors size c (List.range v.secPerClus) buffer = .error (.overflow .clusterNumber) := by
  obtain ⟨n, hn⟩ := Nat.exists_eq_succ_of_ne_zero hgeometry.secPerClus_pos.ne'
  rw [hn, List.range_succ_eq_map, readSectors, sectorOfCluster,
    Bpb.dataSectors_eq hgeometry.valid hgeometry.start_le]
  simp only [Checked.ok_bind, uintSub_underflow hc, Checked.error_bind]

/-- The sectors of a cluster far behind the volume have no number. -/
lemma Geometry.readSectors_high (hgeometry : v.Geometry max) (hc : 2 ≤ c)
    (hfirst : 2 ^ 32 ≤ v.firstSector c) (buffer : FileBuffer) :
    v.readSectors size c (List.range v.secPerClus) buffer =
      .error (.overflow .sectorsOfCluster) := by
  obtain ⟨n, hn⟩ := Nat.exists_eq_succ_of_ne_zero hgeometry.secPerClus_pos.ne'
  change 2 ^ 32 ≤ v.dataStart + (c - 2) * v.secPerClus at hfirst
  have hindex : uintSub .clusterNumber c 2 = .ok (c - 2) := uintSub_eq_ok.mpr ⟨hc, rfl⟩
  rw [hn, List.range_succ_eq_map, readSectors, sectorOfCluster,
    Bpb.dataSectors_eq hgeometry.valid hgeometry.start_le]
  simp only [Checked.ok_bind, hindex]
  rcases Nat.lt_or_ge ((c - 2) * v.secPerClus) (2 ^ 32) with hlt | hge
  · have hoffset : uintMul 32 .sectorsOfCluster (c - 2) v.secPerClus =
        .ok ((c - 2) * v.secPerClus) := uintMul_eq_ok.mpr ⟨hlt, rfl⟩
    simp only [hoffset, Checked.ok_bind, uintAdd_overflow hfirst, Checked.error_bind]
  · simp only [uintMul_overflow hge, Checked.error_bind]

/-- Behind the clusters of the volume, `read_file` reads the sectors that are left and then asks for
one that is not there, unless it has enough before. -/
lemma Guarded.readSectors_behind (hguard : v.Guarded content) (hgeometry : v.Geometry max)
    (hc : max < c) (hfirst : v.firstSector c < 2 ^ 32) (capacity : ℕ) :
    (v.firstSector c < v.dataStop ∧
        (∃ n ∈ size, n ≤ (v.dataStop - v.firstSector c) * v.bpb.bytsPerSec.toNat) ∧
          ∃ buffer, v.readSectors size c (List.range v.secPerClus) ⟨[], capacity⟩ =
            .ok (buffer, true)) ∨
      (¬ (v.firstSector c < v.dataStop ∧
          ∃ n ∈ size, n ≤ (v.dataStop - v.firstSector c) * v.bpb.bytsPerSec.toNat) ∧
        v.readSectors size c (List.range v.secPerClus) ⟨[], capacity⟩ =
          .error (.unwrap .diskRead)) := by
  have hpos : 0 < max := hgeometry.max_eq ▸ Nat.succ_pos _
  have hstart : v.dataStart ≤ v.firstSector c := Nat.le_add_right _ _
  have hend := hgeometry.lt_cluster hc
  have hstop := v.dataStop_lt
  have hsectors := hgeometry.secPerClus_pos
  obtain ⟨k, hk⟩ : ∃ k, v.secPerClus = v.dataStop - v.firstSector c + (k + 1) :=
    ⟨v.secPerClus - (v.dataStop - v.firstSector c) - 1, by omega⟩
  have hsector : ∀ i ≤ v.dataStop - v.firstSector c,
      v.sectorOfCluster c i = .ok (v.firstSector c + i) := fun i hi =>
    hgeometry.sectorOfCluster_eq (by omega) (by omega)
  -- the sectors that are left
  obtain ⟨r, hr, hprogress⟩ : ∃ r, v.readSectors size c
      (List.range (v.dataStop - v.firstSector c)) ⟨[], capacity⟩ = .ok r ∧
        Progress size [] (sectorBytes content (List.range' (v.ratio * v.firstSector c)
          (v.ratio * (v.dataStop - v.firstSector c)))) r := by
    rw [readSectors_eq fun i hi => hsector i hi.le]
    refine readDriveSectors_progress (fun s hs => ?_) _
    rcases Nat.lt_or_ge (v.firstSector c) v.dataStop with hlt | hge
    · exact hguard.answers hstart (by omega) s hs
    · rw [Nat.sub_eq_zero_of_le hge] at hs
      exact absurd hs List.not_mem_nil
  have hlength : (sectorBytes content (List.range' (v.ratio * v.firstSector c)
      (v.ratio * (v.dataStop - v.firstSector c)))).length =
        (v.dataStop - v.firstSector c) * v.bpb.bytsPerSec.toNat := by
    rw [sectorBytes_length, List.length_range', hgeometry.bytes_eq]
    ring
  have hbytes : 0 < v.bpb.bytsPerSec.toNat := by
    rw [hgeometry.bytes_eq]
    exact Nat.mul_pos hgeometry.ratio_pos (by decide)
  have hiff := hprogress.stops_iff
  rw [List.nil_append, ← List.length_pos_iff_ne_nil, hlength,
    Nat.mul_pos_iff_of_pos_right hbytes, Nat.sub_pos_iff_lt] at hiff
  rw [hk, List.range_add, readSectors_append, hr]
  simp only [Checked.ok_bind]
  cases hr2 : r.2 with
  | true =>
      obtain ⟨hlt, hn⟩ := hiff.mp hr2
      exact Or.inl ⟨hlt, hn, r.1, rfl⟩
  | false =>
      refine Or.inr ⟨fun h => ?_, ?_⟩
      · rw [hiff.mpr h] at hr2
        cases hr2
      · -- the first sector behind the volume
        have hbehind : v.ratio * v.dataStop ≤
            v.ratio * (v.firstSector c + (v.dataStop - v.firstSector c)) :=
          Nat.mul_le_mul_left _ (by omega)
        obtain ⟨m, hm⟩ := Nat.exists_eq_succ_of_ne_zero hgeometry.ratio_pos.ne'
        rw [List.range_succ_eq_map, List.map_cons, Nat.add_zero, readSectors, hsector _ le_rfl]
        simp only [Bool.false_eq_true, if_false, Checked.ok_bind]
        rw [driveSectorsOfSector, hm, List.range_succ_eq_map, List.map_cons, Nat.add_zero, ← hm,
          readDriveSectors, hguard.behind _ hbehind]
        rfl

/-! ## Safety -/

/-- Where the first turn panics, what matters is how. -/
lemma sound_iff_of_error {buffer : FileBuffer} {e : Panic}
    (h : ∀ fuel, v.readClusters size (fuel + 1) c buffer = .error e) :
    (∃ fuel, Sound (v.readClusters size fuel c buffer)) ↔ e ∉ faults := by
  constructor
  · rintro ⟨fuel, hsound⟩
    cases fuel with
    | zero => exact absurd rfl (hsound .diverges (by decide))
    | succ fuel =>
        rw [h fuel] at hsound
        exact sound_error.mp hsound
  · intro he
    refine ⟨1, ?_⟩
    rw [h 0]
    exact sound_error.mpr he

/-- A first cluster that the walk goes on from, or ends at. -/
lemma Mounted.first_iff (h : v.Mounted) (hroom : v.dataStart ≤ v.dataStop)
    (hguard : v.Guarded content) {next : Option ℕ} (hnext : v.nextCluster c = .ok next)
    (capacity : ℕ) : (∃ fuel, Sound (v.readClusters size fuel c ⟨[], capacity⟩)) ↔
      2 ≤ c ∧ if c ≤ v.lastCluster then size = none → v.Acyclic c else v.Truncated c size := by
  have hgeometry := h.geometry hroom
  have herror : ∀ {e : Panic}, v.readSectors size c (List.range v.secPerClus) ⟨[], capacity⟩ =
      .error e → ∀ fuel, v.readClusters size (fuel + 1) c ⟨[], capacity⟩ = .error e := by
    intro e he fuel
    rw [readClusters, hnext, Checked.ok_bind, he, Checked.error_bind]
  rcases Nat.lt_or_ge c 2 with hlow | hc
  · rw [sound_iff_of_error (herror (hgeometry.readSectors_low hlow _))]
    exact iff_of_false (by decide) fun h => absurd h.1 (Nat.not_le.mpr hlow)
  rw [and_iff_right hc]
  rcases Nat.lt_or_ge v.lastCluster c with hbehind | hle
  · rw [if_neg (Nat.not_le.mpr hbehind), Truncated]
    rcases Nat.lt_or_ge (v.firstSector c) (2 ^ 32) with hfirst | hfirst
    · rw [or_iff_right (Nat.not_le.mpr hfirst)]
      rcases hguard.readSectors_behind hgeometry hbehind hfirst capacity with
        ⟨hlt, hn, buffer, hread⟩ | ⟨hnot, hread⟩
      · refine iff_of_true ⟨1, ?_⟩ ⟨hlt, hn⟩
        rw [readClusters, hnext, Checked.ok_bind, hread]
        exact sound_ok _
      · rw [sound_iff_of_error (herror hread)]
        exact iff_of_false (by decide) hnot
    · rw [sound_iff_of_error (herror (hgeometry.readSectors_high hc hfirst _))]
      exact iff_of_true (by decide) (Or.inl hfirst)
  · rw [if_pos hle]
    exact h.cluster_safe_iff hroom hguard hc hle _

/-- When reading a file is safe, on a drive that is guarded. -/
lemma Mounted.sound_iff (h : v.Mounted) (hguard : v.Guarded content)
    (hsize : ∀ n ∈ size, n < 2 ^ 32) :
    (∃ fuel, Sound (v.readFile fuel c size)) ↔ v.Harmless c size := by
  obtain ⟨capacity, hfile⟩ := readFile_sound (v := v) (c := c) hsize
  simp only [hfile]
  have herror : ∀ {e : Panic}, v.nextCluster c = .error e →
      ∀ fuel, v.readClusters size (fuel + 1) c ⟨[], capacity⟩ = .error e := by
    intro e he fuel
    rw [readClusters, he, Checked.error_bind]
  by_cases hin : v.Covers c ∧ v.Indexed c
  swap
  · obtain ⟨e, he, heq⟩ := nextCluster_outside hin
    rw [sound_iff_of_error (herror heq)]
    exact iff_of_true he fun hcovers hindexed => absurd ⟨hcovers, hindexed⟩ hin
  rw [Harmless, imp_iff_right hin.1, imp_iff_right hin.2]
  rcases Nat.lt_or_ge v.dataStop v.dataStart with hroom | hroom
  · have heq := nextCluster_uncounted (h.maxCluster_underflow hroom) hin.1 hin.2
    rw [sound_iff_of_error (herror (e := if 2 ≤ v.entry c then _ else _) (by
      rw [heq]
      split <;> rfl))]
    by_cases hlow : 2 ≤ v.entry c
    · rw [if_pos hlow]
      exact iff_of_false (by decide) fun hall => absurd (hall hlow).1 (Nat.not_le.mpr hroom)
    · rw [if_neg hlow]
      exact iff_of_true (by decide) fun hge => absurd hge hlow
  · have heq := nextCluster_eq (h.maxCluster_eq hroom) hin.1 hin.2
    by_cases hleads : v.IsLink v.lastCluster c ∨ v.IsEnd c
    · have hentry : 2 ≤ v.entry c := by
        rcases hleads with hlink | hend
        · exact hlink.1
        · refine le_trans ?_ hend
          cases v.type with
          | fat12 => decide
          | fat16 => decide
          | fat32 => decide
      have hnext : ∃ next, v.nextCluster c = .ok next := by
        rw [heq]
        split
        · exact ⟨_, rfl⟩
        · next hlink =>
            rw [if_pos (hleads.resolve_left hlink)]
            exact ⟨_, rfl⟩
      obtain ⟨next, hnext⟩ := hnext
      rw [h.first_iff hroom hguard hnext, imp_iff_right hentry, and_iff_right hroom,
        imp_iff_right hleads]
    · rw [if_neg fun hlink => hleads (Or.inl hlink), if_neg fun hend => hleads (Or.inr hend)] at heq
      rw [sound_iff_of_error (herror heq)]
      exact iff_of_true (by decide) fun _ => ⟨hroom, fun h => absurd h hleads⟩

lemma Mounted.safe_iff_harmless (h : v.Mounted) (hsize : ∀ n ∈ size, n < 2 ^ 32) :
    v.Safe content c size ↔ v.Harmless c size :=
  Mounted.sound_iff (v := v.guarded content) ⟨h.valid, h.root⟩ (guarded_guarded v content) hsize

/-- **Pointers of the disk.**  On a volume in use, whatever the bytes of its table, and for every first
cluster and every size, `read_file` is safe if and only if the cluster is `Harmless`: the walk panics at
once, as it may, or the cluster is one of the data region and, where no size ends the walk, its chain does
not lead in a circle.  Neither 0, which is the first cluster of an empty file, nor 1 is in the data
region. -/
theorem safe_iff (v : Volume) (h : v.Mounted) (content : ℕ → Vector UInt8 512) (cluster : UInt32)
    (size : Option UInt32) : v.Safe content cluster.toNat (size.map UInt32.toNat) ↔
      v.Harmless cluster.toNat (size.map UInt32.toNat) := by
  refine h.safe_iff_harmless fun n hn => ?_
  obtain ⟨m, -, rfl⟩ := Option.mem_map.mp hn
  exact m.toNat_lt

lemma twoClusters_mounted : twoClusters.Mounted := ⟨by decide, ⟨2, 3⟩, by decide⟩

/-- A file whose pointers are what they should be. -/
theorem safe_twoClusters : twoClusters.Safe (fun _ => .replicate 512 0) 2 (some 700) :=
  (safe_iff twoClusters twoClusters_mounted _ 2 (some 700)).mpr fun _ _ _ =>
    ⟨by decide, fun _ => ⟨by decide, nofun⟩⟩

/-- The same volume, on a disk that cannot be removed, with a cluster that is linked to itself. -/
def selfLinked : Volume :=
  { twoClusters with
    bpb := { twoClusters.bpb with media := 0xF8 }
    fat := [0xF8, 0xFF, 0xFF, 0x02, 0x00, 0x00] ++ List.replicate 506 0 }

/-- An empty file has cluster 0, whose entry ends the walk there; and a directory that begins at the
cluster is read forever. -/
theorem not_safe_selfLinked :
    ¬ selfLinked.Safe (fun _ => .replicate 512 0) 0 (some 0) ∧
      ¬ selfLinked.Safe (fun _ => .replicate 512 0) 2 none := by
  have hmounted : selfLinked.Mounted := ⟨by decide, ⟨2, 3⟩, by decide⟩
  constructor
  · rw [hmounted.safe_iff_harmless (by simp)]
    intro h
    have hlow := ((h (by decide +kernel) (by decide) (by decide +kernel)).2 (by decide +kernel)).1
    exact absurd hlow (by decide)
  · rw [hmounted.safe_iff_harmless (by simp)]
    intro h
    have hacyclic := ((h (by decide +kernel) (by decide) (by decide +kernel)).2
      (by decide +kernel)).2
    rw [if_pos (by decide)] at hacyclic
    have hlinked : selfLinked.Linked 2 2 :=
      ⟨by decide +kernel, by decide, by decide +kernel, by decide +kernel⟩
    exact hacyclic rfl 2 .refl (.single hlinked)

end Volume

end Deravel
