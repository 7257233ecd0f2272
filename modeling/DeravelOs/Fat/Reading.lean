import DeravelOs.Fat.Sectors

/-!
# Files are read as they are stored

A file is a chain of clusters in the table, the last of which has a mark, and its bytes are those of
the sectors of these clusters.

* `Volume.Chain`: the chains of a table.
* `Volume.walkClusters_chain`: the walk yields the clusters of a chain.
* `Volume.readClusters_chain`: `read_file` reads along it until it has enough.
* `Volume.Chain.length_le`: a chain has no more clusters than the volume.
* `Volume.readFile_chain`: `read_file` returns the bytes of the file.
-/

namespace Deravel

/-- Room for a file whose size fits into a `Vec`. -/
lemma FileBuffer.reserve_eq {n : ℕ} (h : n < 2 ^ 62) :
    reserve (some n) = .ok ⟨[], nextMultipleOf n diskSectorSize⟩ := by
  have hlt := nextMultipleOf_lt (m := diskSectorSize) (by decide) n
  rw [show diskSectorSize = 512 from rfl] at hlt ⊢
  refine Checked.bind_eq_ok.mpr ⟨(), ensure_pos ?_, Checked.bind_eq_ok.mpr ⟨(), ensure_pos ?_, rfl⟩⟩
  · rw [usizeRange, show diskSectorSize = 512 from rfl]
    omega
  · rw [show diskSectorSize = 512 from rfl]
    omega

namespace Volume

variable {v : Volume} {max c : ℕ} {cs : List ℕ} {size : Option ℕ} {buffer : FileBuffer}
  {content : ℕ → Vector UInt8 512}

/-! ## Chains -/

/-- A chain of the table: clusters of the volume, each linked to the next, and a mark at the last. -/
def Chain (v : Volume) (max : ℕ) : List ℕ → Prop
  | [] => False
  | [c] => 2 ≤ c ∧ c ≤ max ∧ v.IsEnd c
  | c :: d :: cs => 2 ≤ c ∧ c ≤ max ∧ v.entry c = d ∧ v.Chain max (d :: cs)

lemma Chain.head (h : v.Chain max (c :: cs)) : 2 ≤ c ∧ c ≤ max := by
  cases cs with
  | nil => exact ⟨h.1, h.2.1⟩
  | cons d cs => exact ⟨h.1, h.2.1⟩

lemma Chain.mem (h : v.Chain max cs) : ∀ d ∈ cs, 2 ≤ d ∧ d ≤ max := by
  induction cs with
  | nil => exact fun d hd => absurd hd List.not_mem_nil
  | cons c cs ih =>
      intro d hd
      rcases List.mem_cons.mp hd with rfl | hd
      · exact h.head
      · cases cs with
        | nil => exact absurd hd List.not_mem_nil
        | cons c' cs => exact ih h.2.2.2 d hd

/-- What the walk does at the clusters of a volume whose table covers them. -/
structure Walkable (v : Volume) (max : ℕ) : Prop where
  maxCluster_eq : v.maxCluster = .ok max
  below_marks : max < v.type.endMark
  covers : v.Covers max

lemma Walkable.nextCluster_eq (h : v.Walkable max) (hle : c ≤ max) : v.nextCluster c =
    if v.IsLink max c then .ok (some (v.entry c)) else if v.IsEnd c then .ok none
    else .error (.unimplemented .walkClusters) := by
  refine Volume.nextCluster_eq h.maxCluster_eq (h.covers.mono hle) fun htype => ?_
  have hmarks := h.below_marks
  rw [htype, FatType.endMark] at hmarks
  omega

lemma Walkable.nextCluster_link (h : v.Walkable max) {d : ℕ} (hchain : v.Chain max (c :: d :: cs)) :
    v.nextCluster c = .ok (some d) := by
  obtain ⟨-, hle, rfl, hrest⟩ := hchain
  rw [h.nextCluster_eq hle, if_pos (show v.IsLink max c from hrest.head)]

lemma Walkable.nextCluster_end (h : v.Walkable max) (hchain : v.Chain max [c]) :
    v.nextCluster c = .ok none := by
  obtain ⟨-, hle, hend⟩ := hchain
  have hlink : ¬ v.IsLink max c := fun hlink =>
    absurd (hend.trans hlink.2) (Nat.not_le.mpr h.below_marks)
  rw [h.nextCluster_eq hle, if_neg hlink, if_pos hend]

/-- **The walk yields the clusters of the chain.** -/
theorem walkClusters_chain (h : v.Walkable max) : ∀ {c : ℕ} (_ : v.Chain max (c :: cs)) {fuel : ℕ}
    (_ : (c :: cs).length ≤ fuel), v.walkClusters fuel c = .ok (c :: cs) := by
  induction cs with
  | nil =>
      intro c hchain fuel hfuel
      cases fuel with
      | zero => cases hfuel
      | succ fuel =>
          rw [walkClusters, h.nextCluster_end hchain]
          rfl
  | cons d cs ih =>
      intro c hchain fuel hfuel
      cases fuel with
      | zero => cases hfuel
      | succ fuel =>
          rw [walkClusters, h.nextCluster_link hchain]
          simp only [Checked.ok_bind, ih hchain.2.2.2 (Nat.le_of_succ_le_succ hfuel)]
          rfl

/-! ## Reading along a chain -/

/-- The bytes of a file. -/
def fileBytes (v : Volume) (content : ℕ → Vector UInt8 512) (chain : List ℕ) : List UInt8 :=
  sectorBytes content (chain.flatMap v.clusterSectors)

/-- **`read_file` reads along a chain,** and stops early only when it has enough. -/
theorem readClusters_chain (size : Option ℕ) (hgeometry : v.Geometry max) (hwalk : v.Walkable max) :
    ∀ {c : ℕ} (_ : v.Chain max (c :: cs))
      (_ : ∀ d ∈ c :: cs, ∀ s ∈ v.clusterSectors d, v.drive s = .ok (content s))
      {fuel : ℕ} (_ : (c :: cs).length ≤ fuel) (buffer : FileBuffer),
      ∃ r, v.readClusters size fuel c buffer = .ok r ∧
        r.data <+: buffer.data ++ v.fileBytes content (c :: cs) ∧
          (r.data = buffer.data ++ v.fileBytes content (c :: cs) ∨
            ∃ n ∈ size, n ≤ r.data.length) := by
  induction cs with
  | nil =>
      intro c hchain hdrive fuel hfuel buffer
      cases fuel with
      | zero => cases hfuel
      | succ fuel =>
          obtain ⟨r, hr, hprogress⟩ := hgeometry.readSectors_progress size hchain.head.1
            hchain.head.2 (hdrive c List.mem_cons_self) buffer
          have hbytes : v.fileBytes content [c] = sectorBytes content (v.clusterSectors c) := by
            rw [fileBytes, List.flatMap_singleton]
          rw [readClusters, hwalk.nextCluster_end hchain, hbytes]
          simp only [Checked.ok_bind, hr]
          cases hstop : r.2 with
          | false => exact ⟨r.1, rfl, hprogress.isPrefix, Or.inl (hprogress.whole hstop)⟩
          | true =>
              obtain ⟨-, n, hn, -⟩ := hprogress.stops_iff.mp hstop
              exact ⟨r.1, rfl, hprogress.isPrefix, Or.inr ⟨n, hn, hprogress.enough hstop n hn⟩⟩
  | cons d cs ih =>
      intro c hchain hdrive fuel hfuel buffer
      cases fuel with
      | zero => cases hfuel
      | succ fuel =>
          obtain ⟨r, hr, hprogress⟩ := hgeometry.readSectors_progress size hchain.head.1
            hchain.head.2 (hdrive c List.mem_cons_self) buffer
          have hbytes : v.fileBytes content (c :: d :: cs) =
              sectorBytes content (v.clusterSectors c) ++ v.fileBytes content (d :: cs) := by
            rw [fileBytes, List.flatMap_cons, sectorBytes, List.flatMap_append]
            rfl
          rw [readClusters, hwalk.nextCluster_link hchain, hbytes]
          simp only [Checked.ok_bind, hr]
          cases hstop : r.2 with
          | false =>
              obtain ⟨r', hr', hprefix, henough⟩ := ih hchain.2.2.2
                (fun e he => hdrive e (List.mem_cons_of_mem _ he)) (Nat.le_of_succ_le_succ hfuel) r.1
              rw [hprogress.whole hstop, List.append_assoc] at hprefix henough
              exact ⟨r', hr', hprefix, henough⟩
          | true =>
              have hrest := hprogress.stop hstop (v.fileBytes content (d :: cs))
              obtain ⟨-, n, hn, -⟩ := hprogress.stops_iff.mp hstop
              exact ⟨r.1, rfl, hrest.isPrefix, Or.inr ⟨n, hn, hprogress.enough hstop n hn⟩⟩

/-! ## How long a chain is -/

/-- A chain is known from its first cluster. -/
lemma Chain.unique (hmarks : max < v.type.endMark) : ∀ {c : ℕ} {ds : List ℕ}
    (_ : v.Chain max (c :: cs)) (_ : v.Chain max (c :: ds)), cs = ds := by
  have hdistinct : ∀ {c d : ℕ} {ds : List ℕ}, v.Chain max [c] → ¬ v.Chain max (c :: d :: ds) := by
    rintro c d ds ⟨-, -, hend⟩ ⟨-, -, rfl, hrest⟩
    exact absurd (hend.trans hrest.head.2) (Nat.not_le.mpr hmarks)
  induction cs with
  | nil =>
      intro c ds h h'
      cases ds with
      | nil => rfl
      | cons d ds => exact absurd h' (hdistinct h)
  | cons d cs ih =>
      intro c ds h h'
      cases ds with
      | nil => exact absurd h (hdistinct h')
      | cons e ds =>
          obtain ⟨-, -, rfl, hrest⟩ := h
          obtain ⟨-, -, rfl, hrest'⟩ := h'
          rw [ih hrest hrest']

lemma Chain.suffix (front : List ℕ) (h : v.Chain max (front ++ c :: cs)) :
    v.Chain max (c :: cs) := by
  induction front with
  | nil => exact h
  | cons d front ih =>
      cases front with
      | nil => exact h.2.2.2
      | cons e front => exact ih h.2.2.2

/-- A chain does not come back to a cluster, since it would then not end. -/
lemma Chain.nodup (hmarks : max < v.type.endMark) (h : v.Chain max cs) : cs.Nodup := by
  induction cs with
  | nil => exact List.nodup_nil
  | cons c cs ih =>
      refine List.nodup_cons.mpr ⟨fun hmem => ?_, ?_⟩
      · obtain ⟨front, back, rfl⟩ := List.append_of_mem hmem
        have hback := Chain.suffix (c :: front) h
        have hlength := congrArg List.length (Chain.unique hmarks h hback)
        rw [List.length_append, List.length_cons] at hlength
        omega
      · cases cs with
        | nil => exact List.nodup_nil
        | cons d cs => exact ih h.2.2.2

lemma Chain.length_le (hmarks : max < v.type.endMark) (h : v.Chain max cs) :
    cs.length ≤ max - 1 := by
  have hsub : cs.toFinset ⊆ Finset.Icc 2 max := fun d hd =>
    Finset.mem_Icc.mpr (h.mem d (List.mem_toFinset.mp hd))
  calc cs.length = cs.toFinset.card := (List.toFinset_card_of_nodup (h.nodup hmarks)).symm
    _ ≤ (Finset.Icc 2 max).card := Finset.card_le_card hsub
    _ = max - 1 := by rw [Nat.card_Icc]; omega

/-! ## Files -/

/-- The bytes of a cluster. -/
def clusterBytes (v : Volume) : ℕ := v.secPerClus * v.bpb.bytsPerSec.toNat

lemma fileBytes_length (hgeometry : v.Geometry max) (chain : List ℕ) :
    (v.fileBytes content chain).length = chain.length * v.clusterBytes := by
  rw [fileBytes, sectorBytes_length, clusterBytes, hgeometry.bytes_eq]
  have hsectors : (chain.flatMap v.clusterSectors).length =
      chain.length * (v.ratio * v.secPerClus) := by
    rw [List.length_flatMap]
    simp [clusterSectors]
  rw [hsectors]
  ring

/-- The size of a file fits into a `Vec`. -/
lemma reserve_total (hgeometry : v.Geometry max) (hmarks : max < v.type.endMark)
    (hchain : v.Chain max cs) {n : ℕ} (hn : n ≤ cs.length * v.clusterBytes) :
    FileBuffer.reserve (some n) = .ok ⟨[], nextMultipleOf n diskSectorSize⟩ := by
  have hclusters : (max - 1) * v.secPerClus ≤ v.dataStop - v.dataStart := by
    rw [hgeometry.max_eq, Nat.add_sub_cancel]
    exact Nat.div_mul_le_self _ _
  have hsectors : cs.length * v.secPerClus ≤ 2 ^ 32 :=
    calc cs.length * v.secPerClus ≤ (max - 1) * v.secPerClus :=
          Nat.mul_le_mul_right _ (hchain.length_le hmarks)
      _ ≤ v.dataStop := hclusters.trans (Nat.sub_le _ _)
      _ ≤ 2 ^ 32 := v.dataStop_lt.le
  have hbytes : v.bpb.bytsPerSec.toNat ≤ 2 ^ 12 := by
    rw [hgeometry.bytes_eq, diskSectorSize]
    have := hgeometry.ratio_le
    omega
  have hsize : n ≤ 2 ^ 32 * 2 ^ 12 :=
    calc n ≤ cs.length * v.secPerClus * v.bpb.bytsPerSec.toNat := by rwa [Nat.mul_assoc]
      _ ≤ 2 ^ 32 * 2 ^ 12 := Nat.mul_le_mul hsectors hbytes
  exact FileBuffer.reserve_eq (by omega)

/-- **Reading a file returns its bytes.**  On a volume that `validate_bpb` accepts, whose table covers
its clusters and whose clusters have numbers below the marks, a chain that ends with a mark is what
`walk_clusters` yields, and `read_file` returns the bytes of its clusters, or as many of them as it is
asked for. -/
theorem readFile_chain (v : Volume) {max : ℕ} (hvalid : v.bpb.validateBpb v.type = .ok ())
    (hmax : v.maxCluster = .ok max) (hmarks : max < v.type.endMark) (hcovers : v.Covers max)
    {c : ℕ} {cs : List ℕ} (hchain : v.Chain max (c :: cs)) (content : ℕ → Vector UInt8 512)
    (hdrive : ∀ d ∈ c :: cs, ∀ s ∈ v.clusterSectors d, v.drive s = .ok (content s)) {fuel : ℕ}
    (hfuel : (c :: cs).length ≤ fuel) :
    v.walkClusters fuel c = .ok (c :: cs) ∧
      (∀ n, 1 ≤ n → n ≤ (c :: cs).length * v.clusterBytes → ∃ r,
        v.readFile fuel c (some n) = .ok r ∧ r.data = (v.fileBytes content (c :: cs)).take n) ∧
      ∃ r, v.readFile fuel c none = .ok r ∧ r.data = v.fileBytes content (c :: cs) := by
  have hgeometry := geometry hvalid hmax
  have hwalk : v.Walkable max := ⟨hmax, hmarks, hcovers⟩
  refine ⟨walkClusters_chain hwalk hchain hfuel, fun n _ hn => ?_, ?_⟩
  · obtain ⟨r, hr, hprefix, henough⟩ := readClusters_chain (some n) hgeometry hwalk hchain
      hdrive hfuel ⟨[], nextMultipleOf n diskSectorSize⟩
    rw [List.nil_append] at hprefix henough
    have hlength : n ≤ r.data.length := by
      rcases henough with hall | ⟨m, hm, hle⟩
      · rw [hall, fileBytes_length hgeometry]
        exact hn
      · obtain rfl := Option.mem_some.mp hm
        exact hle
    have hdata : (r.cutTo (some n)).data = (v.fileBytes content (c :: cs)).take n := by
      obtain ⟨rest, hrest⟩ := hprefix
      rw [← hrest, List.take_append_of_le_length hlength]
      simp [FileBuffer.cutTo, FileBuffer.resize, Nat.sub_eq_zero_of_le hlength]
    refine ⟨r.cutTo (some n), ?_, hdata⟩
    rw [readFile, reserve_total hgeometry hmarks hchain hn, Checked.ok_bind, hr]
    rfl
  · obtain ⟨r, hr, hprefix, henough⟩ := readClusters_chain none hgeometry hwalk hchain
      hdrive hfuel ⟨[], 0⟩
    have hdata : r.data = v.fileBytes content (c :: cs) := by
      rcases henough with hall | ⟨n, hn, -⟩
      · exact hall
      · cases hn
    refine ⟨r, ?_, hdata⟩
    change (v.readClusters none fuel c ⟨[], 0⟩ >>= fun buffer => pure (buffer.cutTo none)) = _
    rw [hr]
    rfl

/-- A FAT12 volume of 17 clusters with a file in the first two, on a drive that answers every
request. -/
def twoClusters : Volume where
  type := .fat12
  bpb := { Bpb.floppy with numFats := 1, rootEntCnt := 16, totSec16 := 20, fatSz16 := 1 }
  fat := [0xF0, 0xFF, 0xFF, 0x03, 0xF0, 0xFF] ++ List.replicate 506 0
  rdr := []
  drive := fun sector => .ok (Vector.replicate 512 (UInt8.ofNat sector))

theorem readFile_chain_twoClusters :
    twoClusters.walkClusters 2 2 = .ok [2, 3] ∧
      (∀ n, 1 ≤ n → n ≤ 2 * twoClusters.clusterBytes → ∃ r,
        twoClusters.readFile 2 2 (some n) = .ok r ∧
          r.data = (twoClusters.fileBytes (fun sector => .replicate 512 (.ofNat sector))
            [2, 3]).take n) ∧
      ∃ r, twoClusters.readFile 2 2 none = .ok r ∧
        r.data = twoClusters.fileBytes (fun sector => .replicate 512 (.ofNat sector)) [2, 3] := by
  have hmax : twoClusters.maxCluster = .ok 18 := by decide
  have hchain : twoClusters.Chain 18 [2, 3] :=
    ⟨by decide, by decide, by decide +kernel, by decide, by decide, by decide +kernel⟩
  exact readFile_chain twoClusters (by decide) hmax (by decide) (by decide +kernel) hchain _
    (fun _ _ _ _ => rfl) (by decide)

end Volume

end Deravel
