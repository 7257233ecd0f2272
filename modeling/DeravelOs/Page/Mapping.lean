import DeravelOs.Page.Ranges

/-!
# `map` and `unmap`

The two calls as changes of the flat translation, for every table that they can have built.

* `PageTable.map_refines`: `map` adds exactly the translations it is asked for.
* `PageTable.unmap_undoes_map`: `unmap` takes away exactly what a `map` added, whatever was mapped
  and unmapped elsewhere in between, and leaves no empty table behind.
-/

namespace Deravel.PageTable

open IntervalMap (View Fills Clears)

variable {virt phys size l v base : ℕ} {flags : PageFlags} {t t' t₁ t₂ : PageTable} {site : Site}

/-! ## One level -/

lemma noNextLevel_piece {a b : ℕ} (hal : PageAligned virt phys size)
    (hpiece : Piece virt size 0 a b) :
    ¬ ∀ v ∈ Set.Ico a b, ¬ Fits virt phys size 0 v := fun h =>
  h a ⟨le_rfl, hpiece.lt⟩ (hal.fits_zero (hpiece.mem ⟨le_rfl, hpiece.lt⟩))

/-- In a block that is one leaf, every address has that leaf. -/
lemma leaf_of_block {a : ℕ} (ha : levelPageSize l ∣ a) (hle : virt ≤ a)
    (hge : a + levelPageSize l ≤ virt + size) (hphys : levelPageSize l ∣ phys + (a - virt))
    (hv : v ∈ Set.Ico a (a + levelPageSize l)) :
    leafLevel virt phys size l v = l ∧ leafPhys virt phys size l v = phys + (a - virt) := by
  have hstart : v / levelPageSize l * levelPageSize l = a := by
    rw [(mem_block_iff (levelPageSize_pos l) ha).mp hv, Nat.div_mul_cancel ha]
  have hlevel : leafLevel virt phys size l v = l := by
    refine leafLevel_of_fits ?_
    rw [Fits, hstart]
    exact ⟨hle, hge, hphys⟩
  exact ⟨hlevel, by rw [leafPhys, hlevel, hstart]⟩

/-- The table number of a piece, from that of its range. -/
lemma Piece.base_eq {a b : ℕ} (h : Piece virt size l a b)
    (hbase : ∀ v ∈ Set.Ico virt (virt + size), v / levelPageSize (l + 1) = base) :
    a / levelPageSize (l + 1) = base :=
  hbase a (h.mem ⟨le_rfl, h.lt⟩)

/-- A block that is one leaf, as a part of the range. -/
lemma mapLeaf_fills_block {a : ℕ}
    (hbase : Set.Ico virt (virt + size) ⊆ (view l base).dom) (hle : virt ≤ a)
    (hge : a + levelPageSize l ≤ virt + size) (ha : levelPageSize l ∣ a)
    (hphys : levelPageSize l ∣ phys + (a - virt)) :
    Fills (view l base) (leafAt virt phys size flags l) a (a + levelPageSize l)
      fun t => mapLeaf t a (phys + (a - virt)) flags l := by
  have hmem : a ∈ Set.Ico virt (virt + size) :=
    ⟨hle, lt_of_lt_of_le (Nat.lt_add_of_pos_right (levelPageSize_pos l)) hge⟩
  refine (mapLeaf_fills (hbase hmem) ha hphys).congr fun v hv => ?_
  obtain ⟨hlevel, hleafPhys⟩ := leaf_of_block ha hle hge hphys hv
  rw [leafAt, hlevel, hleafPhys]

/-- `map_impl` fills its range. -/
theorem mapImpl_fills (hal : PageAligned virt phys size)
    (hbase : Set.Ico virt (virt + size) ⊆ (view l base).dom) :
    Fills (view l base) (leafAt virt phys size flags l) virt (virt + size)
      fun t => mapImpl flags l t virt phys size := by
  induction l generalizing virt phys size base with
  | zero =>
      simp only [mapImpl, mapBody]
      exact rangeBody_rule Fills.compositional hal hbase
        (fun a b hpiece hfits => absurd hfits (noNextLevel_piece hal hpiece))
        fun a => mapLeaf_fills_block hbase
  | succ l ih =>
      simp only [mapImpl, mapBody]
      refine rangeBody_rule Fills.compositional hal hbase (fun a b hpiece hfits => ?_)
        fun a => mapLeaf_fills_block hbase
      have hnext := ih (hpiece.pageAligned hal) (by rw [hpiece.size_eq]; exact hpiece.block)
      rw [hpiece.size_eq] at hnext
      refine mapChild_fills hpiece.lt hpiece.block (hpiece.base_eq hbase)
        (hnext.congr fun v hv => ?_)
      rw [leafAt, leafAt, hpiece.leafLevel_eq hv (hfits v hv),
        hpiece.leafPhys_eq hal hv (hfits v hv)]

/-- The leaf that `unmap_impl` expects at an address: the one that `map_impl` makes, with any
permissions. -/
def Expected (virt phys size l v : ℕ) (leaf : Leaf) : Prop :=
  leaf.level = leafLevel virt phys size l v ∧ leaf.phys = leafPhys virt phys size l v

lemma unmapLeaf_clears_block {a : ℕ}
    (hbase : Set.Ico virt (virt + size) ⊆ (view l base).dom) (hle : virt ≤ a)
    (hge : a + levelPageSize l ≤ virt + size) (ha : levelPageSize l ∣ a)
    (hphys : levelPageSize l ∣ phys + (a - virt)) :
    Clears (view l base) (Expected virt phys size l) a (a + levelPageSize l)
      fun t => unmapLeaf t a (phys + (a - virt)) l := by
  have hmem : a ∈ Set.Ico virt (virt + size) :=
    ⟨hle, lt_of_lt_of_le (Nat.lt_add_of_pos_right (levelPageSize_pos l)) hge⟩
  refine (unmapLeaf_clears (hbase hmem) ha).congr fun v hv x hx => ?_
  obtain ⟨hlevel, hleafPhys⟩ := leaf_of_block ha hle hge hphys hv
  exact ⟨hx.1.trans hlevel, hx.2.trans hleafPhys⟩

/-- `unmap_impl` clears its range. -/
theorem unmapImpl_clears (hal : PageAligned virt phys size)
    (hbase : Set.Ico virt (virt + size) ⊆ (view l base).dom) :
    Clears (view l base) (Expected virt phys size l) virt (virt + size)
      fun t => unmapImpl l t virt phys size := by
  induction l generalizing virt phys size base with
  | zero =>
      simp only [unmapImpl, unmapBody]
      exact rangeBody_rule Clears.compositional hal hbase
        (fun a b hpiece hfits => absurd hfits (noNextLevel_piece hal hpiece))
        fun a => unmapLeaf_clears_block hbase
  | succ l ih =>
      simp only [unmapImpl, unmapBody]
      refine rangeBody_rule Clears.compositional hal hbase (fun a b hpiece hfits => ?_)
        fun a => unmapLeaf_clears_block hbase
      have hnext := ih (hpiece.pageAligned hal) (by rw [hpiece.size_eq]; exact hpiece.block)
      rw [hpiece.size_eq] at hnext
      have hfirst : a ∈ Set.Ico a b := ⟨le_rfl, hpiece.lt⟩
      refine unmapChild_clears hpiece.lt hpiece.block (hpiece.base_eq hbase) (fun x hx => ?_)
        (hnext.congr fun v hv x hx => ?_)
      · rw [hx.1, ← hpiece.leafLevel_eq hfirst (hfits a hfirst)]
        exact leafLevel_le _ _ _ _ _
      · rw [Expected, hpiece.leafLevel_eq hv (hfits v hv),
          hpiece.leafPhys_eq hal hv (hfits v hv)]
        exact hx

/-! ## The two calls -/

/-- What the assertions of `map` and `unmap` ask of their arguments. -/
structure RangeOk (virt phys size : ℕ) : Prop where
  aligned : PageAligned virt phys size
  virt_lt : virt < virtualAddresses.stop
  virt_end : virt + size ≤ virtualAddresses.stop
  phys_lt : phys < physicalAddresses.stop
  phys_end : phys + size ≤ physicalAddresses.stop

lemma checkRange_eq_ok : checkRange site virt phys size = .ok () ↔ RangeOk virt phys size := by
  simp only [checkRange, Checked.bind_eq_ok]
  constructor
  · rintro ⟨u1, h1, u2, h2, e, he, u3, h3, u4, h4, u5, h5, f, hf, u6, h6, h7⟩
    obtain rfl := usizeAdd_eq_ok he
    obtain rfl := usizeAdd_eq_ok hf
    exact ⟨⟨Nat.dvd_of_mod_eq_zero (ensure_eq_ok h1), Nat.dvd_of_mod_eq_zero (ensure_eq_ok h4),
      Nat.dvd_of_mod_eq_zero (ensure_eq_ok h7)⟩, ensure_eq_ok h2, ensure_eq_ok h3,
      ensure_eq_ok h5, ensure_eq_ok h6⟩
  · rintro ⟨⟨hvirt, hphys, hsize⟩, h1, h2, h3, h4⟩
    have hsmall : virtualAddresses.stop < usizeRange := by decide
    have hsmall' : physicalAddresses.stop < usizeRange := by decide
    exact ⟨(), ensure_pos (Nat.mod_eq_zero_of_dvd hvirt), (), ensure_pos h1, _,
      usizeAdd_of_lt (h2.trans_lt hsmall), (), ensure_pos h2, (),
      ensure_pos (Nat.mod_eq_zero_of_dvd hphys), (), ensure_pos h3, _,
      usizeAdd_of_lt (h4.trans_lt hsmall'), (), ensure_pos h4,
      ensure_pos (Nat.mod_eq_zero_of_dvd hsize)⟩

/-- A table of a process as a partial map: three levels, all virtual addresses. -/
abbrev rootView : View PageTable Leaf := view 2 0

lemma mem_rootView : v ∈ rootView.dom ↔ v < virtualAddresses.stop := by
  have hsize : levelPageSize 3 = virtualAddresses.stop := by decide
  rw [mem_view_dom, hsize, Nat.div_eq_zero_iff]
  simp [virtualAddresses, pageTableEntryCount, level2PageSize, level1PageSize, pageSize]

lemma RangeOk.subset (h : RangeOk virt phys size) :
    Set.Ico virt (virt + size) ⊆ rootView.dom := fun _ hv =>
  mem_rootView.mpr (lt_of_lt_of_le hv.2 h.virt_end)

lemma map_eq (h : RangeOk virt phys size) :
    t.map virt phys size flags = mapImpl flags 2 t virt phys size := by
  rw [map, checkRange_eq_ok.mpr h, Checked.ok_bind]

lemma unmap_eq (h : RangeOk virt phys size) :
    t.unmap virt phys size = unmapImpl 2 t virt phys size := by
  rw [unmap, checkRange_eq_ok.mpr h, Checked.ok_bind]

/-- `map` fills its range. -/
theorem map_fills (h : RangeOk virt phys size) :
    Fills rootView (leafAt virt phys size flags 2) virt (virt + size)
      fun t => t.map virt phys size flags := by
  simp only [map_eq h]
  exact mapImpl_fills h.aligned h.subset

/-- `unmap` clears its range. -/
theorem unmap_clears (h : RangeOk virt phys size) :
    Clears rootView (Expected virt phys size 2) virt (virt + size)
      fun t => t.unmap virt phys size := by
  simp only [unmap_eq h]
  exact unmapImpl_clears h.aligned h.subset

lemma map_eq_ok (ht : WF 2 t) (h : t.map virt phys size flags = .ok t') :
    RangeOk virt phys size ∧ rootView.Vacant virt (virt + size) t ∧
      rootView.Filled (leafAt virt phys size flags 2) virt (virt + size) t t' := by
  obtain ⟨u, hcheck, -⟩ := Checked.bind_eq_ok.mp h
  have hr := checkRange_eq_ok.mp hcheck
  have hvacant := (map_fills hr t ht).1 t' h
  obtain ⟨t'', h', hfilled⟩ := (map_fills hr t ht).2 hvacant
  cases h.symm.trans h'
  exact ⟨hr, hvacant, hfilled⟩

lemma unmap_eq_ok (ht : WF 2 t) (h : t.unmap virt phys size = .ok t') :
    RangeOk virt phys size ∧ rootView.Cleared virt (virt + size) t t' := by
  obtain ⟨u, hcheck, -⟩ := Checked.bind_eq_ok.mp h
  have hr := checkRange_eq_ok.mp hcheck
  exact ⟨hr, (unmap_clears hr t ht).1 t' h⟩

/-! ## Tables that processes can have -/

/-- Tables built from the empty one by `map` and `unmap`. -/
inductive Built : PageTable → Prop
  | new : Built PageTable.new
  | map {t t' : PageTable} {virt phys size : ℕ} {flags : PageFlags} (built : Built t)
      (h : t.map virt phys size flags = .ok t') : Built t'
  | unmap {t t' : PageTable} {virt phys size : ℕ} (built : Built t)
      (h : t.unmap virt phys size = .ok t') : Built t'

/-- **Every table that can be built is well formed.** -/
theorem Built.wf (h : Built t) : WF 2 t := by
  induction h with
  | new => exact .new 2
  | map _ h ih => exact (map_eq_ok ih h).2.2.wf
  | unmap _ h ih => exact (unmap_eq_ok ih h).2.wf

lemma translate_eq_none : t.translate v = none ↔ walk 2 t v = none := by
  rw [translate, Option.map_eq_none_iff]

/-- What a leaf of a range translates to. -/
lemma translate_leafAt (hal : PageAligned virt phys size) (hv : v ∈ Set.Ico virt (virt + size))
    (h : walk 2 t v = some (leafAt virt phys size flags 2 v)) :
    t.translate v = some (phys + (v - virt), flags) := by
  have hstart := (hal.fits_leafLevel (l := 2) hv).1
  have hmod := Nat.div_add_mod v (levelPageSize (leafLevel virt phys size 2 v))
  rw [mul_comm] at hmod
  have hphys : leafPhys virt phys size 2 v + v % levelPageSize (leafLevel virt phys size 2 v) =
      phys + (v - virt) := by
    rw [leafPhys]
    omega
  rw [translate, h, Option.map_some, leafAt, hphys]

/-- The leaf for `v` covers one aligned block of the range. -/
structure LeafIn (virt phys size v start : ℕ) (leaf : Leaf) : Prop where
  mem : v ∈ Set.Ico start (start + levelPageSize leaf.level)
  virt_dvd : levelPageSize leaf.level ∣ start
  phys_dvd : levelPageSize leaf.level ∣ leaf.phys
  le : virt ≤ start
  ge : start + levelPageSize leaf.level ≤ virt + size
  phys_eq : leaf.phys = phys + (start - virt)

lemma leafAt_leafIn (hal : PageAligned virt phys size) (hv : v ∈ Set.Ico virt (virt + size)) :
    ∃ start, LeafIn virt phys size v start (leafAt virt phys size flags 2 v) := by
  obtain ⟨hle, hge, hphys⟩ := hal.fits_leafLevel (l := 2) hv
  have hs := levelPageSize_pos (leafLevel virt phys size 2 v)
  exact ⟨_, (mem_block_iff hs (dvd_mul_left _ _)).mpr (Nat.mul_div_cancel _ hs).symm,
    dvd_mul_left _ _, hphys, hle, hge, rfl⟩

/-- **`map` refines the flat translation.**  For every table that can be built and every range of whole
pages of which nothing is translated yet, `map` goes through and adds exactly the translations that it
is asked for: each address of the range goes where its offset says, with these flags, and no other
address changes.  It makes superpages only of blocks of the range that are aligned on both sides. -/
theorem map_refines (ht : Built t) (hr : RangeOk virt phys size)
    (hfree : ∀ v, virt ≤ v → v < virt + size → t.translate v = none) :
    ∃ t', t.map virt phys size flags = .ok t' ∧
      (∀ v, virt ≤ v → v < virt + size → t'.translate v = some (phys + (v - virt), flags)) ∧
      (∀ v < virtualAddresses.stop, ¬ (virt ≤ v ∧ v < virt + size) →
        t'.translate v = t.translate v) ∧
      ∀ v, virt ≤ v → v < virt + size →
        ∃ leaf start, walk 2 t' v = some leaf ∧ LeafIn virt phys size v start leaf := by
  obtain ⟨t', hmap, hfilled⟩ := (@map_fills virt phys size flags hr t ht.wf).2 fun v hv =>
    translate_eq_none.mp (hfree v hv.1 hv.2)
  refine ⟨t', hmap, fun v h1 h2 => translate_leafAt hr.aligned ⟨h1, h2⟩
    (hfilled.inside v ⟨h1, h2⟩), fun v hv hnot => ?_, fun v h1 h2 => ?_⟩
  · have hsame : walk 2 t' v = walk 2 t v := hfilled.frame v (mem_rootView.mpr hv) hnot
    rw [translate, translate, hsame]
  · obtain ⟨start, hin⟩ := @leafAt_leafIn _ _ _ _ flags hr.aligned ⟨h1, h2⟩
    exact ⟨_, start, hfilled.inside v ⟨h1, h2⟩, hin⟩

/-- A gigapage, two megapages and a page at once, next to nothing else. -/
theorem map_refines_mixed :
    ∃ t', PageTable.new.map 0x3fc00000 0x7fc00000 0x40401000 .readonly = .ok t' ∧
      (∀ v, 0x3fc00000 ≤ v → v < 0x3fc00000 + 0x40401000 →
        t'.translate v = some (0x7fc00000 + (v - 0x3fc00000), .readonly)) ∧
      (∀ v < virtualAddresses.stop, ¬ (0x3fc00000 ≤ v ∧ v < 0x3fc00000 + 0x40401000) →
        t'.translate v = PageTable.new.translate v) ∧
      ∀ v, 0x3fc00000 ≤ v → v < 0x3fc00000 + 0x40401000 →
        ∃ leaf start, walk 2 t' v = some leaf ∧
          LeafIn 0x3fc00000 0x7fc00000 0x40401000 v start leaf :=
  map_refines .new
    ⟨⟨by decide, by decide, by decide⟩, by decide, by decide, by decide, by decide⟩
    fun v _ _ => translate_eq_none.mpr (walk_of_unmapped (fun _ => rfl) v)

/-! ## Unmapping -/

/-- `child` is a table that `t` points to, directly or through other tables. -/
inductive Below : PageTable → PageTable → Prop
  | direct {t child : PageTable} {i : Fin pageTableEntryCount} (h : t i = .indirect child) :
      Below t child
  | step {t child table : PageTable} {i : Fin pageTableEntryCount} (h : t i = .indirect child)
      (below : Below child table) : Below t table

/-- A well-formed table points to no empty table. -/
lemma WF.below (h : WF l t) {table : PageTable} (hbelow : Below t table) :
    ¬ table.IsCompletelyUnmapped := by
  induction hbelow generalizing l with
  | direct hentry => exact (h.indirect hentry).1
  | step hentry _ ih =>
      cases l with
      | zero => exact absurd (h.indirect hentry).2 id
      | succ l => exact ih (h.indirect hentry).2

/-- `map` and `unmap` calls on ranges that are disjoint from `[virt, virt + size)`. -/
inductive RunOutside (virt size : ℕ) : PageTable → PageTable → Prop
  | refl (t : PageTable) : RunOutside virt size t t
  | map {t t' t'' : PageTable} {v p s : ℕ} {flags : PageFlags} (run : RunOutside virt size t t')
      (hdisjoint : Disjoint (Set.Ico virt (virt + size)) (Set.Ico v (v + s)))
      (h : t'.map v p s flags = .ok t'') : RunOutside virt size t t''
  | unmap {t t' t'' : PageTable} {v p s : ℕ} (run : RunOutside virt size t t')
      (hdisjoint : Disjoint (Set.Ico virt (virt + size)) (Set.Ico v (v + s)))
      (h : t'.unmap v p s = .ok t'') : RunOutside virt size t t''

lemma RunOutside.wf (h : RunOutside virt size t t') (ht : WF 2 t) : WF 2 t' := by
  induction h with
  | refl => exact ht
  | map _ _ h ih => exact (map_eq_ok ih h).2.2.wf
  | unmap _ _ h ih => exact (unmap_eq_ok ih h).2.wf

/-- Calls on other ranges leave the walks through the range alone. -/
lemma RunOutside.walk_eq (h : RunOutside virt size t t') (ht : WF 2 t)
    (hdom : Set.Ico virt (virt + size) ⊆ rootView.dom) :
    ∀ v ∈ Set.Ico virt (virt + size), walk 2 t' v = walk 2 t v := by
  induction h with
  | refl => exact fun _ _ => rfl
  | map run hdisjoint h ih =>
      intro v hv
      have hframe := (map_eq_ok (run.wf ht) h).2.2.frame v (hdom hv)
        (Set.disjoint_left.mp hdisjoint hv)
      exact hframe.trans (ih v hv)
  | unmap run hdisjoint h ih =>
      intro v hv
      have hframe := (unmap_eq_ok (run.wf ht) h).2.frame v (hdom hv)
        (Set.disjoint_left.mp hdisjoint hv)
      exact hframe.trans (ih v hv)

/-- **`unmap` undoes `map`.**  Whatever is mapped and unmapped elsewhere in between, `unmap` of a
mapped range goes through and takes away exactly its translations; directly after the `map` it
gives back the same table.  No table that can be built points to an empty one. -/
theorem unmap_undoes_map (ht : Built t) (hmap : t.map virt phys size flags = .ok t₁)
    (hrun : RunOutside virt size t₁ t₂) :
    (∃ t₃, t₂.unmap virt phys size = .ok t₃ ∧
      (∀ v, virt ≤ v → v < virt + size → t₃.translate v = none) ∧
      (∀ v < virtualAddresses.stop, ¬ (virt ≤ v ∧ v < virt + size) →
        t₃.translate v = t₂.translate v)) ∧
    t₁.unmap virt phys size = .ok t ∧
    ∀ u, Built u → ∀ table, Below u table → ¬ table.IsCompletelyUnmapped := by
  obtain ⟨hr, hvacant, hfilled⟩ := map_eq_ok ht.wf hmap
  have hunmap : ∀ u, WF 2 u → (∀ v ∈ Set.Ico virt (virt + size), walk 2 u v = walk 2 t₁ v) →
      ∃ u', u.unmap virt phys size = .ok u' ∧ rootView.Cleared virt (virt + size) u u' := by
    intro u hu hsame
    obtain ⟨u', h⟩ := (unmap_clears hr u hu).2 fun v hv =>
      ⟨_, (hsame v hv).trans (hfilled.inside v hv), rfl, rfl⟩
    exact ⟨u', h, (unmap_clears hr u hu).1 u' h⟩
  refine ⟨?_, ?_, fun u hu table hbelow => hu.wf.below hbelow⟩
  · obtain ⟨t₃, h, hcleared⟩ := hunmap t₂ (hrun.wf hfilled.wf) (hrun.walk_eq hfilled.wf hr.subset)
    refine ⟨t₃, h, fun v h1 h2 => translate_eq_none.mpr (hcleared.inside v ⟨h1, h2⟩),
      fun v hv hnot => ?_⟩
    have hsame : walk 2 t₃ v = walk 2 t₂ v := hcleared.frame v (mem_rootView.mpr hv) hnot
    rw [translate, translate, hsame]
  · obtain ⟨t', h, hcleared⟩ := hunmap t₁ hfilled.wf fun _ _ => rfl
    rw [h, ext_of_walk hcleared.wf ht.wf 0 (hcleared.look_eq hfilled hvacant)]

/-- Two pages are mapped, then the page after them, and the two are unmapped again. -/
theorem unmap_undoes_map_neighbour :
    ∃ t₁ t₂, PageTable.new.map 0x1000 0x5000 0x2000 .readWrite = .ok t₁ ∧
      t₁.map 0x3000 0x9000 0x1000 .readonly = .ok t₂ ∧
      (∃ t₃, t₂.unmap 0x1000 0x5000 0x2000 = .ok t₃ ∧
        (∀ v, 0x1000 ≤ v → v < 0x1000 + 0x2000 → t₃.translate v = none) ∧
        (∀ v < virtualAddresses.stop, ¬ (0x1000 ≤ v ∧ v < 0x1000 + 0x2000) →
          t₃.translate v = t₂.translate v)) ∧
      t₁.unmap 0x1000 0x5000 0x2000 = .ok PageTable.new ∧
      ∀ u, Built u → ∀ table, Below u table → ¬ table.IsCompletelyUnmapped := by
  have hempty (v : ℕ) : walk 2 PageTable.new v = none := walk_of_unmapped (fun _ => rfl) v
  have hr : RangeOk 0x1000 0x5000 0x2000 :=
    ⟨⟨by decide, by decide, by decide⟩, by decide, by decide, by decide, by decide⟩
  have hr' : RangeOk 0x3000 0x9000 0x1000 :=
    ⟨⟨by decide, by decide, by decide⟩, by decide, by decide, by decide, by decide⟩
  have hdisjoint : Disjoint (Set.Ico 0x1000 (0x1000 + 0x2000)) (Set.Ico 0x3000 (0x3000 + 0x1000)) :=
    Set.disjoint_left.mpr fun v hv hv' => absurd hv.2 (not_lt.mpr hv'.1)
  obtain ⟨t₁, h₁, hfilled⟩ :=
    (@map_fills _ _ _ .readWrite hr PageTable.new (.new 2)).2 fun v _ => hempty v
  obtain ⟨t₂, h₂, -⟩ := (@map_fills _ _ _ .readonly hr' t₁ hfilled.wf).2 fun v hv =>
    (hfilled.frame v (hr'.subset hv) fun hmem => Set.disjoint_left.mp hdisjoint hmem hv).trans
      (hempty v)
  exact ⟨t₁, t₂, h₁, h₂, unmap_undoes_map .new h₁ (.map (.refl t₁) hdisjoint h₂)⟩

end Deravel.PageTable
