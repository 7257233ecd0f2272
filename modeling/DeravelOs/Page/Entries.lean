import DeravelOs.Page.Walk

/-!
# Mapping and unmapping one entry

What `map_leaf`, `unmap_leaf` and the calls on the next level do to the addresses of one entry, as
`IntervalMap.Fills` and `IntervalMap.Clears`.  A table at level `l` is viewed through its walk, on
the addresses of the table number `base`, which are those with `v / levelPageSize (l + 1) = base`.
-/

namespace Deravel.PageTable

open IntervalMap (View Fills Clears)

/-- A table as a partial map from virtual addresses to leaves. -/
def view (l base : ℕ) : View PageTable Leaf where
  look := walk l
  wf := WF l
  dom := {v | v / levelPageSize (l + 1) = base}

variable {l v w a b base : ℕ} {t t' child : PageTable} {phys size : ℕ} {flags : PageFlags}
  {leaf : Leaf} {next : NextLevel}

@[simp] lemma mem_view_dom : v ∈ (view l base).dom ↔ v / levelPageSize (l + 1) = base := Iff.rfl

/-- The block of an aligned address. -/
lemma mem_block_iff {s : ℕ} (hs : 0 < s) (hv : s ∣ v) :
    w ∈ Set.Ico v (v + s) ↔ w / s = v / s := by
  obtain ⟨k, rfl⟩ := hv
  rw [Nat.mul_div_cancel_left _ hs, Nat.div_eq_iff hs, Set.mem_Ico, mul_comm k s]
  omega

/-- The number of a block, from the number of its table and its entry. -/
lemma div_eq_entry (v l : ℕ) :
    v / levelPageSize l = v / levelPageSize (l + 1) * 512 + vpnSegment v l := by
  rw [div_levelPageSize_succ, vpnSegment_val]
  omega

/-- The entry for `v` is invalid when its block is not translated. -/
lemma entry_invalid_of_block (h : WF l t)
    (hnone : ∀ w, w / levelPageSize l = v / levelPageSize l → walk l t w = none) :
    t (vpnSegment v l) = .invalid :=
  entry_invalid h (v / levelPageSize (l + 1)) fun w hw => hnone w (by rw [hw, ← div_eq_entry])

lemma walk_of_unmapped (h : t.IsCompletelyUnmapped) (v : ℕ) : walk l t v = none := by
  refine walk_invalid ?_
  have hvalid := h (vpnSegment v l)
  cases hentry : t (vpnSegment v l) with
  | invalid => rfl
  | leaf phys flags => rw [hentry] at hvalid; cases hvalid
  | indirect child => rw [hentry] at hvalid; cases hvalid

lemma not_unmapped_of_walk (h : walk l t v = some leaf) : ¬ t.IsCompletelyUnmapped := by
  intro hempty
  rw [walk_of_unmapped hempty] at h
  cases h

/-! ## Leaves -/

lemma mapLeaf_eq_ok :
    t.mapLeaf v phys flags l = .ok t' ↔
      (t (vpnSegment v l)).isValid = false ∧ t' = t.set v l (.leaf phys flags) := by
  rw [mapLeaf, Checked.bind_eq_ok]
  constructor
  · rintro ⟨u, hu, ht⟩
    cases ht
    exact ⟨ensure_eq_ok hu, rfl⟩
  · rintro ⟨hvalid, rfl⟩
    exact ⟨(), ensure_pos hvalid, rfl⟩

lemma isValid_eq_false {entry : PageTableEntry} : entry.isValid = false ↔ entry = .invalid := by
  cases entry <;> simp [PageTableEntry.isValid]

/-- `map_leaf` fills one block. -/
lemma mapLeaf_fills (hbase : v / levelPageSize (l + 1) = base) (hv : levelPageSize l ∣ v)
    (hphys : levelPageSize l ∣ phys) :
    Fills (view l base) (fun _ => ⟨l, phys, flags⟩) v (v + levelPageSize l)
      fun t => t.mapLeaf v phys flags l := by
  intro t ht
  have hblock {w : ℕ} : w ∈ Set.Ico v (v + levelPageSize l) ↔ _ :=
    mem_block_iff (levelPageSize_pos l) hv
  refine ⟨fun t' ht' w hw => ?_, fun hvacant => ?_⟩
  · have hinvalid := isValid_eq_false.mp (mapLeaf_eq_ok.mp ht').1
    exact walk_invalid (by rw [vpnSegment_congr (hblock.mp hw), hinvalid])
  · have hinvalid : t (vpnSegment v l) = .invalid :=
      entry_invalid_of_block ht fun w hw => hvacant w (hblock.mpr hw)
    refine ⟨_, mapLeaf_eq_ok.mpr ⟨isValid_eq_false.mpr hinvalid, rfl⟩, ht.set hphys,
      fun w hw => walk_leaf (set_same _ (hblock.mp hw)) hphys, fun w hw hnot => ?_⟩
    exact walk_set_other _ (hw.trans hbase.symm) fun heq => hnot (hblock.mpr heq)

lemma unmapLeaf_eq_ok :
    t.unmapLeaf v phys l = .ok t' ↔
      (∃ flags, t (vpnSegment v l) = .leaf phys flags) ∧ t' = t.set v l .invalid := by
  rw [unmapLeaf]
  cases hentry : t (vpnSegment v l) with
  | invalid => simp [throw, throwThe, MonadExceptOf.throw]
  | indirect child => simp [throw, throwThe, MonadExceptOf.throw]
  | leaf physPtr flags =>
      simp only [Checked.bind_eq_ok, PageTableEntry.leaf.injEq, exists_eq_right']
      constructor
      · rintro ⟨u, hu, ht⟩
        cases ht
        exact ⟨ensure_eq_ok hu, rfl⟩
      · rintro ⟨hphys, rfl⟩
        exact ⟨(), ensure_pos hphys, rfl⟩

/-- A leaf of the table's own level is an entry of the table. -/
lemma entry_of_walk (ht : WF l t) (h : walk l t v = some leaf) (hlevel : leaf.level = l) :
    t (vpnSegment v l) = .leaf leaf.phys leaf.flags := by
  cases hentry : t (vpnSegment v l) with
  | invalid =>
      rw [walk_invalid hentry] at h
      cases h
  | leaf phys flags =>
      rw [walk_leaf hentry (ht.leaf_dvd hentry)] at h
      cases h
      rfl
  | indirect child =>
      cases l with
      | zero => exact absurd (ht.indirect hentry).2 id
      | succ l =>
          rw [walk_indirect hentry] at h
          exact absurd (walk_level_le h) (by rw [hlevel]; exact Nat.not_succ_le_self l)

/-- `unmap_leaf` clears one block, which must be one leaf. -/
lemma unmapLeaf_clears (hbase : v / levelPageSize (l + 1) = base) (hv : levelPageSize l ∣ v) :
    Clears (view l base) (fun _ x => x.level = l ∧ x.phys = phys) v (v + levelPageSize l)
      fun t => t.unmapLeaf v phys l := by
  intro t ht
  have hblock {w : ℕ} : w ∈ Set.Ico v (v + levelPageSize l) ↔ _ :=
    mem_block_iff (levelPageSize_pos l) hv
  refine ⟨fun t' ht' => ?_, fun hholds => ?_⟩
  · obtain ⟨-, rfl⟩ := unmapLeaf_eq_ok.mp ht'
    exact ⟨ht.set trivial, fun w hw => walk_invalid (set_same _ (hblock.mp hw)),
      fun w hw hnot => walk_set_other _ (hw.trans hbase.symm) fun heq => hnot (hblock.mpr heq)⟩
  · obtain ⟨leaf, hwalk, hlevel, rfl⟩ :=
      hholds v ⟨le_rfl, Nat.lt_add_of_pos_right (levelPageSize_pos l)⟩
    exact ⟨_, unmapLeaf_eq_ok.mpr ⟨⟨_, entry_of_walk ht hwalk hlevel⟩, rfl⟩⟩

/-! ## Tables below -/

lemma set_indirect_wf (ht : WF (l + 1) t) (hchild : WF l child)
    (hwalk : walk l child w = some leaf) : WF (l + 1) (t.set v (l + 1) (.indirect child)) :=
  ht.set ⟨not_unmapped_of_walk hwalk, hchild⟩

/-- `map_indirect` gives a table with the translations of its block, or finds a leaf that
translates the whole block. -/
lemma mapIndirect_cases (ht : WF (l + 1) t) (v : ℕ) :
    (∃ child, t.mapIndirect v (l + 1) = .ok child ∧ WF l child ∧
      ∀ w, w / levelPageSize (l + 1) = v / levelPageSize (l + 1) →
        walk (l + 1) t w = walk l child w) ∨
    ((∀ child, t.mapIndirect v (l + 1) ≠ .ok child) ∧ ∃ leaf, walk (l + 1) t v = some leaf) := by
  cases hentry : t (vpnSegment v (l + 1)) with
  | invalid =>
      refine Or.inl ⟨PageTable.new, by rw [mapIndirect, hentry]; rfl, .new l, fun w hw => ?_⟩
      rw [walk_invalid (by rw [vpnSegment_congr hw, hentry]), walk_of_unmapped fun _ => rfl]
  | leaf phys flags =>
      refine Or.inr ⟨fun child h => ?_, _, walk_leaf hentry (ht.leaf_dvd hentry)⟩
      rw [mapIndirect, hentry] at h
      cases h
  | indirect child =>
      exact Or.inl ⟨child, by rw [mapIndirect, hentry]; rfl, (ht.indirect hentry).2, fun w hw =>
        walk_indirect (by rw [vpnSegment_congr hw, hentry])⟩

/-- A call on the next level that fills a part of one block. -/
lemma mapChild_fills {value : ℕ → Leaf} (hab : a < b)
    (hblock : ∀ v ∈ Set.Ico a b, v / levelPageSize (l + 1) = a / levelPageSize (l + 1))
    (hbase : a / levelPageSize (l + 2) = base)
    (hnext : Fills (view l (a / levelPageSize (l + 1))) value a b fun t => next t a phys size) :
    Fills (view (l + 1) base) value a b fun t => mapChild next (l + 1) t a phys size := by
  intro t ht
  have ha : a ∈ Set.Ico a b := ⟨le_rfl, hab⟩
  rcases mapIndirect_cases ht a with ⟨child, hchild, hwf, hsame⟩ | ⟨hfail, leaf, hleaf⟩
  · have hok (t' : PageTable) : mapChild next (l + 1) t a phys size = .ok t' ↔
        ∃ child', next child a phys size = .ok child' ∧
          t' = t.set a (l + 1) (.indirect child') := by
      rw [mapChild, hchild, Checked.ok_bind, Checked.bind_eq_ok]
      exact exists_congr fun child' => and_congr_right fun _ =>
        ⟨fun h => by cases h; rfl, fun h => by rw [h]; rfl⟩
    refine ⟨fun t' ht' v hv => ?_, fun hvacant => ?_⟩
    · obtain ⟨child', hchild', -⟩ := (hok t').mp ht'
      have hnone := (hnext child hwf).1 child' hchild' v hv
      exact (hsame v (hblock v hv)).trans hnone
    · obtain ⟨child', hchild', hwf', hinside, hframe⟩ := (hnext child hwf).2 fun v hv =>
        (hsame v (hblock v hv)).symm.trans (hvacant v hv)
      have hset {v : ℕ} (hv : v / levelPageSize (l + 1) = a / levelPageSize (l + 1)) :
          walk (l + 1) (t.set a (l + 1) (.indirect child')) v = walk l child' v :=
        walk_indirect (set_same _ hv)
      refine ⟨_, (hok _).mpr ⟨child', hchild', rfl⟩, set_indirect_wf ht hwf' (hinside a ha),
        fun v hv => (hset (hblock v hv)).trans (hinside v hv), fun v hv hnot => ?_⟩
      by_cases hva : v / levelPageSize (l + 1) = a / levelPageSize (l + 1)
      · exact (hset hva).trans ((hframe v hva hnot).trans (hsame v hva).symm)
      · exact walk_set_other _ (hv.trans hbase.symm) hva
  · refine ⟨fun t' ht' => ?_, fun hvacant => ?_⟩
    · obtain ⟨child, hchild, -⟩ := Checked.bind_eq_ok.mp ht'
      exact absurd hchild (hfail child)
    · exact absurd ((hvacant a ha).symm.trans hleaf) (by simp)

lemma unwrapIndirect_eq_ok :
    t.unwrapIndirect v l = .ok child ↔ t (vpnSegment v l) = .indirect child := by
  rw [unwrapIndirect]
  cases hentry : t (vpnSegment v l) with
  | invalid => simp [throw, throwThe, MonadExceptOf.throw]
  | leaf phys flags => simp [throw, throwThe, MonadExceptOf.throw]
  | indirect c => simp [pure, Except.pure]

/-- Storing a changed table below and dropping it when it is empty. -/
lemma checkUnmapIndirect_set (ht : WF (l + 1) t) (hchild : WF l child) (v : ℕ) :
    ∃ t', (t.set v (l + 1) (.indirect child)).checkUnmapIndirect v (l + 1) = .ok t' ∧
      WF (l + 1) t' ∧
      (∀ w, w / levelPageSize (l + 1) = v / levelPageSize (l + 1) →
        walk (l + 1) t' w = walk l child w) ∧
      ∀ w, w / levelPageSize (l + 2) = v / levelPageSize (l + 2) →
        w / levelPageSize (l + 1) ≠ v / levelPageSize (l + 1) →
          walk (l + 1) t' w = walk (l + 1) t w := by
  have hunwrap : (t.set v (l + 1) (.indirect child)).unwrapIndirect v (l + 1) = .ok child :=
    unwrapIndirect_eq_ok.mpr (set_same _ rfl)
  have hcheck : (t.set v (l + 1) (.indirect child)).checkUnmapIndirect v (l + 1) =
      if child.IsCompletelyUnmapped then .ok (t.set v (l + 1) .invalid)
      else .ok (t.set v (l + 1) (.indirect child)) := by
    rw [checkUnmapIndirect, hunwrap, Checked.ok_bind]
    refine if_congr Iff.rfl ?_ rfl
    rw [set, set, set, Function.update_idem]
    rfl
  by_cases hempty : child.IsCompletelyUnmapped
  · exact ⟨_, hcheck.trans (if_pos hempty), ht.set trivial,
      fun w hw => by rw [walk_invalid (set_same _ hw), walk_of_unmapped hempty],
      fun w hw hne => walk_set_other _ hw hne⟩
  · exact ⟨_, hcheck.trans (if_neg hempty), ht.set ⟨hempty, hchild⟩,
      fun w hw => walk_indirect (set_same _ hw), fun w hw hne => walk_set_other _ hw hne⟩

/-- A call on the next level that clears a part of one block. -/
lemma unmapChild_clears {expected : ℕ → Leaf → Prop} (hab : a < b)
    (hblock : ∀ v ∈ Set.Ico a b, v / levelPageSize (l + 1) = a / levelPageSize (l + 1))
    (hbase : a / levelPageSize (l + 2) = base) (hlevel : ∀ x, expected a x → x.level ≤ l)
    (hnext : Clears (view l (a / levelPageSize (l + 1))) expected a b
      fun t => next t a phys size) :
    Clears (view (l + 1) base) expected a b fun t => unmapChild next (l + 1) t a phys size := by
  intro t ht
  have ha : a ∈ Set.Ico a b := ⟨le_rfl, hab⟩
  have hwalk {child : PageTable} (hentry : t (vpnSegment a (l + 1)) = .indirect child) (v : ℕ)
      (hv : v / levelPageSize (l + 1) = a / levelPageSize (l + 1)) :
      walk (l + 1) t v = walk l child v :=
    walk_indirect (by rw [vpnSegment_congr hv, hentry])
  refine ⟨fun t' ht' => ?_, fun hholds => ?_⟩
  · obtain ⟨child, hunwrap, ht'⟩ := Checked.bind_eq_ok.mp ht'
    obtain ⟨child', hchild', ht'⟩ := Checked.bind_eq_ok.mp ht'
    have hentry := unwrapIndirect_eq_ok.mp hunwrap
    obtain ⟨hwf', hinside, hframe⟩ := (hnext child (ht.indirect hentry).2).1 child' hchild'
    obtain ⟨t'', hcheck, hwf, hsame, hother⟩ := checkUnmapIndirect_set ht hwf' a
    cases hcheck.symm.trans ht'
    refine ⟨hwf, fun v hv => (hsame v (hblock v hv)).trans (hinside v hv), fun v hv hnot => ?_⟩
    by_cases hva : v / levelPageSize (l + 1) = a / levelPageSize (l + 1)
    · exact (hsame v hva).trans ((hframe v hva hnot).trans (hwalk hentry v hva).symm)
    · exact hother v (hv.trans hbase.symm) hva
  · obtain ⟨leaf, hleaf, hexpected⟩ := hholds a ha
    obtain ⟨child, hentry⟩ : ∃ child, t (vpnSegment a (l + 1)) = .indirect child := by
      cases hentry : t (vpnSegment a (l + 1)) with
      | invalid => exact absurd (hleaf.symm.trans (walk_invalid hentry)) (by simp)
      | leaf phys flags =>
          cases hleaf.symm.trans (walk_leaf hentry (ht.leaf_dvd hentry))
          exact absurd (hlevel _ hexpected) (Nat.not_succ_le_self l)
      | indirect child => exact ⟨child, rfl⟩
    have hwf := (ht.indirect hentry).2
    obtain ⟨child', hchild'⟩ := (hnext child hwf).2 fun v hv => by
      obtain ⟨x, hx, hxe⟩ := hholds v hv
      exact ⟨x, (hwalk hentry v (hblock v hv)).symm.trans hx, hxe⟩
    obtain ⟨t', hcheck, -⟩ := checkUnmapIndirect_set ht ((hnext child hwf).1 _ hchild').wf a
    exact ⟨t', Checked.bind_eq_ok.mpr ⟨child, unwrapIndirect_eq_ok.mpr hentry,
      Checked.bind_eq_ok.mpr ⟨child', hchild', hcheck⟩⟩⟩

end Deravel.PageTable
