import DeravelOs.Fat.Table

/-!
# The sectors of a cluster

`read_file` goes through the sectors of a cluster in two nested loops, one over the sectors of the
volume and one over those of the drive, and leaves both when it has enough.  Together they read one
run of sectors of the drive.

* `Volume.Geometry`: what is known of the sizes of a volume whose `max_cluster` can be computed.
* `Volume.clusterSectors`: the sectors of the drive where a cluster is.
* `Volume.readSectors_eq`: the two loops are one.
* `Volume.readDriveSectors_progress`: what reading some sectors does to the buffer.
-/

namespace Deravel

namespace Volume

variable {v : Volume} {max c : ℕ} {size : Option ℕ} {buffer : FileBuffer}
  {content : ℕ → Vector UInt8 512}

/-! ## Sizes -/

/-- The sectors before the data region. -/
abbrev dataStart (v : Volume) : ℕ := v.bpb.sectorsBeforeData v.type

/-- The sectors of the volume. -/
abbrev dataStop (v : Volume) : ℕ := v.bpb.totalSectorsCount v.type

/-- `sec_per_clus` -/
abbrev secPerClus (v : Volume) : ℕ := v.bpb.secPerClus.toNat

/-- The first sector of a cluster. -/
def firstSector (v : Volume) (c : ℕ) : ℕ := v.dataStart + (c - 2) * v.secPerClus

/-- The sectors of the drive where a cluster is. -/
def clusterSectors (v : Volume) (c : ℕ) : List ℕ :=
  List.range' (v.ratio * v.firstSector c) (v.ratio * v.secPerClus)

/-- The sizes of a volume. -/
structure Geometry (v : Volume) (max : ℕ) : Prop where
  valid : v.bpb.Valid v.type
  ratio_pos : 0 < v.ratio
  ratio_le : v.ratio ≤ 8
  bytes_eq : v.bpb.bytsPerSec.toNat = v.ratio * diskSectorSize
  secPerClus_pos : 0 < v.secPerClus
  start_le : v.dataStart ≤ v.dataStop
  max_eq : max = (v.dataStop - v.dataStart) / v.secPerClus + 1

lemma geometry (hvalid : v.bpb.validateBpb v.type = .ok ()) (hmax : v.maxCluster = .ok max) :
    v.Geometry max := by
  have hok := Bpb.valid_of_validateBpb hvalid
  obtain ⟨count, hcount, hadd⟩ := Checked.bind_eq_ok.mp hmax
  obtain ⟨hle, rfl⟩ := (Bpb.countOfClusters_eq_ok hok).mp hcount
  obtain ⟨-, rfl⟩ := uintAdd_eq_ok.mp hadd
  have hbytes : v.bpb.bytsPerSec.toNat ∈ [512, 1024, 2048, 4096] :=
    List.mem_map_of_mem (f := UInt16.toNat) (Bpb.bytsPerSec_of_validateBpb hvalid)
  have hratio : v.ratio = v.bpb.bytsPerSec.toNat / 512 := rfl
  simp only [List.mem_cons, List.not_mem_nil, or_false] at hbytes
  exact ⟨hok, by omega, by omega, by rw [diskSectorSize]; omega,
    Nat.pos_of_ne_zero fun hzero => hok.secPerClus (UInt8.toNat_inj.mp hzero), hle, rfl⟩

lemma dataStop_lt (v : Volume) : v.dataStop < 2 ^ 32 := v.bpb.totalSectorsCount_lt v.type

/-- The clusters lie before the end of the volume. -/
lemma Geometry.cluster_le (h : v.Geometry max) (hc : 2 ≤ c) (hle : c ≤ max) :
    v.firstSector c + v.secPerClus ≤ v.dataStop := by
  have hcount : (c - 1) * v.secPerClus ≤ v.dataStop - v.dataStart := by
    rw [← Nat.le_div_iff_mul_le h.secPerClus_pos]
    have := h.max_eq
    omega
  have hsplit : (c - 1) * v.secPerClus = (c - 2) * v.secPerClus + v.secPerClus := by
    rw [← Nat.succ_mul]
    congr 1
    omega
  have := h.start_le
  rw [firstSector]
  omega

/-- What follows the clusters is less than a cluster. -/
lemma Geometry.lt_cluster (h : v.Geometry max) (hlt : max < c) :
    v.dataStop < v.firstSector c + v.secPerClus := by
  have hpos : 0 < max := h.max_eq ▸ Nat.succ_pos _
  have hquot : (v.dataStop - v.dataStart) / v.secPerClus = max - 1 := by
    rw [h.max_eq, Nat.add_sub_cancel]
  have hcount : v.dataStop - v.dataStart < (c - 1) * v.secPerClus := by
    rw [← Nat.div_lt_iff_lt_mul h.secPerClus_pos, hquot]
    omega
  have hsplit : (c - 1) * v.secPerClus = (c - 2) * v.secPerClus + v.secPerClus := by
    rw [← Nat.succ_mul]
    congr 1
    omega
  rw [firstSector]
  omega

/-- The arithmetic of `sectors_of_cluster`, where it fits. -/
lemma Geometry.sectorOfCluster_eq (h : v.Geometry max) (hc : 2 ≤ c) {i : ℕ}
    (hfit : v.firstSector c + i < 2 ^ 32) :
    v.sectorOfCluster c i = .ok (v.firstSector c + i) := by
  change v.dataStart + (c - 2) * v.secPerClus + i < 2 ^ 32 at hfit
  have hfirst : v.dataStart + (c - 2) * v.secPerClus < 2 ^ 32 := by omega
  have hoffset : (c - 2) * v.secPerClus < 2 ^ 32 := by omega
  refine Checked.bind_eq_ok.mpr ⟨_, Bpb.dataSectors_eq h.valid h.start_le, ?_⟩
  refine Checked.bind_eq_ok.mpr ⟨_, uintSub_eq_ok.mpr ⟨hc, rfl⟩, ?_⟩
  refine Checked.bind_eq_ok.mpr ⟨_, uintMul_eq_ok.mpr ⟨hoffset, rfl⟩, ?_⟩
  refine Checked.bind_eq_ok.mpr ⟨_, uintAdd_eq_ok.mpr ⟨hfirst, rfl⟩, ?_⟩
  exact uintAdd_eq_ok.mpr ⟨hfit, rfl⟩

/-! ## Two loops -/

lemma readDriveSectors_append (front back : List ℕ) : ∀ buffer : FileBuffer,
    v.readDriveSectors size (front ++ back) buffer = (do
      let (buffer, stop) ← v.readDriveSectors size front buffer
      if stop then pure (buffer, true) else v.readDriveSectors size back buffer) := by
  induction front with
  | nil => exact fun _ => rfl
  | cons sector front ih =>
      intro buffer
      rw [List.cons_append, readDriveSectors, readDriveSectors]
      cases v.drive sector with
      | error e => rfl
      | ok bytes =>
          simp only [Checked.ok_bind]
          split
          · rfl
          · exact ih _

lemma readSectors_append (front back : List ℕ) : ∀ buffer : FileBuffer,
    v.readSectors size c (front ++ back) buffer = (do
      let (buffer, stop) ← v.readSectors size c front buffer
      if stop then pure (buffer, true) else v.readSectors size c back buffer) := by
  induction front with
  | nil => exact fun _ => rfl
  | cons i front ih =>
      intro buffer
      rw [List.cons_append, readSectors, readSectors]
      cases v.sectorOfCluster c i with
      | error e => rfl
      | ok sector =>
          simp only [Checked.ok_bind]
          cases v.readDriveSectors size (v.driveSectorsOfSector sector) buffer with
          | error e => rfl
          | ok result =>
              simp only [Checked.ok_bind]
              split
              · rfl
              · exact ih _

/-- The sectors of the drive for consecutive sectors of the volume are consecutive. -/
lemma driveSectors_range (v : Volume) (first n : ℕ) :
    ((List.range n).flatMap fun i => v.driveSectorsOfSector (first + i)) =
      List.range' (v.ratio * first) (v.ratio * n) := by
  have hsector : ∀ sector, v.driveSectorsOfSector sector =
      List.range' (v.ratio * sector) v.ratio := fun sector => by
    rw [driveSectorsOfSector, List.range'_eq_map_range]
  induction n with
  | zero => rfl
  | succ n ih =>
      rw [List.range_succ, List.flatMap_append, ih, List.flatMap_singleton, hsector, Nat.mul_add,
        Nat.mul_succ, List.range'_append_1]

/-- **The two loops of a cluster are one.** -/
theorem readSectors_eq {n first : ℕ} (h : ∀ i < n, v.sectorOfCluster c i = .ok (first + i))
    (buffer : FileBuffer) : v.readSectors size c (List.range n) buffer =
      v.readDriveSectors size (List.range' (v.ratio * first) (v.ratio * n)) buffer := by
  have hflat : ∀ (is : List ℕ), (∀ i ∈ is, i < n) → ∀ buffer,
      v.readSectors size c is buffer =
        v.readDriveSectors size (is.flatMap fun i => v.driveSectorsOfSector (first + i)) buffer := by
    intro is
    induction is with
    | nil => exact fun _ _ => rfl
    | cons i is ih =>
        intro hlt buffer
        rw [readSectors, h i (hlt i List.mem_cons_self), List.flatMap_cons, readDriveSectors_append]
        simp only [Checked.ok_bind, ih fun j hj => hlt j (List.mem_cons_of_mem _ hj)]
  rw [hflat _ (fun i hi => List.mem_range.mp hi), driveSectors_range]

/-! ## One run of sectors -/

/-- The bytes of some sectors of the drive. -/
def sectorBytes (content : ℕ → Vector UInt8 512) (sectors : List ℕ) : List UInt8 :=
  sectors.flatMap fun sector => (content sector).toList

lemma sectorBytes_length (sectors : List ℕ) :
    (sectorBytes content sectors).length = diskSectorSize * sectors.length := by
  induction sectors with
  | nil => rfl
  | cons sector sectors ih =>
      rw [sectorBytes, List.flatMap_cons, List.length_append, Vector.length_toList, List.length_cons,
        Nat.mul_succ, ← ih, Nat.add_comm, sectorBytes, diskSectorSize]

/-- What reading these bytes behind `data` leaves.  It stops early when it has enough. -/
structure Progress (size : Option ℕ) (data bytes : List UInt8) (r : FileBuffer × Bool) : Prop where
  isPrefix : r.1.data <+: data ++ bytes
  whole : r.2 = false → r.1.data = data ++ bytes
  enough : r.2 = true → ∀ n ∈ size, n ≤ r.1.data.length
  stops_iff : r.2 = true ↔ bytes ≠ [] ∧ ∃ n ∈ size, n ≤ (data ++ bytes).length

lemma Progress.nothing (size : Option ℕ) (buffer : FileBuffer) :
    Progress size buffer.data [] (buffer, false) where
  isPrefix := by rw [List.append_nil]
  whole _ := (List.append_nil _).symm
  enough := nofun
  stops_iff := by simp

lemma Progress.append {data front back : List UInt8} {r r' : FileBuffer × Bool}
    (h : Progress size data front r) (h' : Progress size r.1.data back r')
    (hgoes : r.2 = false) : Progress size data (front ++ back) r' := by
  rw [h.whole hgoes] at h'
  obtain ⟨hfront, hwhole, henough, hstops⟩ := h'
  rw [List.append_assoc] at hfront hwhole hstops
  refine ⟨hfront, hwhole, henough, hstops.trans ⟨?_, ?_⟩⟩
  · rintro ⟨hne, hn⟩
    exact ⟨List.append_ne_nil_of_right_ne_nil _ hne, hn⟩
  · rintro ⟨hne, hn⟩
    refine ⟨fun hback => ?_, hn⟩
    subst hback
    rw [List.append_nil] at hne hn
    have hstopped := h.stops_iff.mpr ⟨hne, hn⟩
    rw [hgoes] at hstopped
    cases hstopped

lemma Progress.stop {data front : List UInt8} {r : FileBuffer × Bool}
    (h : Progress size data front r) (hstop : r.2 = true) (back : List UInt8) :
    Progress size data (front ++ back) (r.1, true) := by
  obtain ⟨hne, n, hsize, hn⟩ := h.stops_iff.mp hstop
  refine ⟨?_, nofun, fun _ => h.enough hstop, fun _ => ⟨?_, n, hsize, ?_⟩, fun _ => rfl⟩
  · rw [← List.append_assoc]
    exact h.isPrefix.trans (List.prefix_append _ _)
  · exact List.append_ne_nil_of_left_ne_nil hne _
  · rw [← List.append_assoc, List.length_append]
    exact hn.trans (Nat.le_add_right _ _)

/-- **Reading a run of sectors** that the drive answers. -/
theorem readDriveSectors_progress {sectors : List ℕ}
    (h : ∀ s ∈ sectors, v.drive s = .ok (content s)) : ∀ buffer : FileBuffer,
    ∃ r, v.readDriveSectors size sectors buffer = .ok r ∧
      Progress size buffer.data (sectorBytes content sectors) r := by
  induction sectors with
  | nil => exact fun buffer => ⟨_, rfl, .nothing size buffer⟩
  | cons sector sectors ih =>
      intro buffer
      have hne : (content sector).toList ≠ [] := by
        rw [← List.length_pos_iff_ne_nil, Vector.length_toList]
        decide
      have hone : ∀ stop, (stop = true ↔ ∃ n ∈ size, n ≤ (buffer.data ++
          (content sector).toList).length) → Progress size buffer.data (content sector).toList
            (buffer.extend (content sector).toList, stop) := fun stop hstop =>
        ⟨List.prefix_rfl, fun _ => rfl, fun h n hn => by
          obtain ⟨m, hm, hle⟩ := hstop.mp h
          obtain rfl := Option.mem_unique hn hm
          exact hle, by rw [hstop]; simp [hne]⟩
      rw [readDriveSectors, h sector List.mem_cons_self, sectorBytes, List.flatMap_cons]
      simp only [Checked.ok_bind]
      split
      · next hstop =>
          exact ⟨_, rfl, (hone true ⟨fun _ => hstop, fun _ => rfl⟩).stop rfl _⟩
      · next hgoes =>
          obtain ⟨r, hr, hprogress⟩ := ih (fun s hs => h s (List.mem_cons_of_mem _ hs))
            (buffer.extend (content sector).toList)
          exact ⟨r, hr, (hone false ⟨nofun, fun h => absurd h hgoes⟩).append hprogress rfl⟩

/-- **Reading a cluster of the volume.** -/
theorem Geometry.readSectors_progress (h : v.Geometry max) (size : Option ℕ) (hc : 2 ≤ c) (hle : c ≤ max)
    (hdrive : ∀ s ∈ v.clusterSectors c, v.drive s = .ok (content s)) (buffer : FileBuffer) :
    ∃ r, v.readSectors size c (List.range v.secPerClus) buffer = .ok r ∧
      Progress size buffer.data (sectorBytes content (v.clusterSectors c)) r := by
  have hinside := h.cluster_le hc hle
  have hlt := v.dataStop_lt
  rw [readSectors_eq fun i hi => h.sectorOfCluster_eq hc (by omega)]
  exact readDriveSectors_progress hdrive buffer

end Volume

end Deravel
