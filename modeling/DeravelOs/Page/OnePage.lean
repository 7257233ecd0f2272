import DeravelOs.Page.Mapping

/-!
# One page

A `map` of one page goes down to the last level, whatever the table looks like.  Here nothing is
assumed about the table, not even that `map` and `unmap` have built it.

* `PageTable.map_page`: a page that `is_mapped` does not see can be mapped, and then nothing else is
  different.
-/

namespace Deravel.PageTable

variable {virt phys l v w : ℕ} {flags : PageFlags} {t t' : PageTable}

/-! ## Down to the last level -/

lemma levelPageSize_gt (l : ℕ) : pageSize < levelPageSize (l + 1) := by
  have hle := Nat.le_of_dvd (levelPageSize_pos l) (pageSize_dvd_levelPageSize l)
  have hpos := levelPageSize_pos l
  rw [levelPageSize_succ]
  omega

/-- Above the last level no block fits into a page: the page is the front or the back of its
range. -/
lemma alignBy_page (hvirt : pageSize ∣ virt) :
    alignBy ⟨virt, virt + pageSize⟩ (levelPageSize (l + 1)) =
        (⟨virt, virt + pageSize⟩, ⟨0, 0⟩, ⟨virt + pageSize, virt + pageSize⟩) ∨
      alignBy ⟨virt, virt + pageSize⟩ (levelPageSize (l + 1)) =
        (⟨virt, virt⟩, ⟨virt, virt⟩, ⟨virt, virt + pageSize⟩) := by
  have hgt := levelPageSize_gt l
  have hpage : 0 < pageSize := by decide
  by_cases hdvd : levelPageSize (l + 1) ∣ virt
  · have hnot : (virt + pageSize) % levelPageSize (l + 1) = pageSize := by
      obtain ⟨n, rfl⟩ := hdvd
      rw [Nat.mul_add_mod, Nat.mod_eq_of_lt hgt]
    have hend : nextMultipleOf (virt + pageSize) (levelPageSize (l + 1)) =
        virt + levelPageSize (l + 1) := by
      rw [nextMultipleOf, hnot, if_neg hpage.ne']
      omega
    refine Or.inr ?_
    have hstop : ¬ virt ≥ virt + pageSize := by omega
    have hover : virt + levelPageSize (l + 1) > virt + pageSize := by omega
    simp only [alignBy, nextMultipleOf_of_dvd hdvd, hend, if_neg hstop, if_pos hover,
      Nat.add_sub_cancel]
  · have hnext : virt + pageSize ≤ nextMultipleOf virt (levelPageSize (l + 1)) := by
      have hle := le_nextMultipleOf virt (levelPageSize (l + 1))
      have hmul : levelPageSize (l + 1) ∣ nextMultipleOf virt (levelPageSize (l + 1)) :=
        dvd_nextMultipleOf (levelPageSize_pos _) virt
      have hne : nextMultipleOf virt (levelPageSize (l + 1)) ≠ virt := fun h => hdvd (h ▸ hmul)
      have hpages := (pageSize_dvd_levelPageSize (l + 1)).trans hmul
      exact Nat.add_le_of_le_sub' hle (Nat.le_of_dvd (by omega) (Nat.dvd_sub hpages hvirt))
    refine Or.inl ?_
    rw [alignBy, if_pos hnext]

variable {child : NextLevel} {leaf : PageTable → (virt phys : ℕ) → Checked PageTable}

lemma rangeBody_page (hvirt : pageSize ∣ virt) :
    rangeBody (l + 1) child leaf t virt phys pageSize = child t virt phys pageSize := by
  have hpage : ¬ virt + pageSize ≤ virt := by simp [pageSize]
  have hstep (a : ℕ) : (⟨a, a⟩ : AddressRange).stepBy (levelPageSize (l + 1)) = [] := by
    have hpos := levelPageSize_pos (l + 1)
    simp only [AddressRange.stepBy, Nat.sub_self, Nat.zero_add]
    rw [Nat.div_eq_of_lt (by omega)]
    rfl
  rcases alignBy_page (l := l) hvirt with halign | halign
  · simp [rangeBody, halign, AddressRange.IsEmpty, hpage, hstep, pure, Except.pure, bind, Except.bind]
    cases child t virt phys pageSize <;> rfl
  · simp [rangeBody, halign, AddressRange.IsEmpty, hpage, hstep, pure, Except.pure, bind, Except.bind]

/-- At the last level the page is one leaf. -/
lemma rangeBody_zero (hvirt : pageSize ∣ virt) (hphys : pageSize ∣ phys) :
    rangeBody 0 child leaf t virt phys pageSize = leaf t virt phys := by
  have hpage : ¬ virt ≥ virt + pageSize := by simp [pageSize]
  have halign : alignBy ⟨virt, virt + pageSize⟩ pageSize =
      (⟨virt, virt⟩, ⟨virt, virt + pageSize⟩, ⟨virt + pageSize, virt + pageSize⟩) := by
    have hend : pageSize ∣ virt + pageSize := hvirt.add dvd_rfl
    simp only [alignBy, nextMultipleOf_of_dvd hvirt, nextMultipleOf_of_dvd hend, if_neg hpage,
      gt_iff_lt, lt_irrefl, if_false]
  have hstep : (⟨virt, virt + pageSize⟩ : AddressRange).stepBy pageSize = [virt] := by
    simp [AddressRange.stepBy, pageSize]
  simp [rangeBody, levelPageSize_zero, halign, hstep, AddressRange.IsEmpty,
    Nat.mod_eq_zero_of_dvd hphys, pure, Except.pure, bind, Except.bind]
  cases leaf t virt phys <;> rfl

lemma mapImpl_page_zero (hvirt : pageSize ∣ virt) (hphys : pageSize ∣ phys) :
    mapImpl flags 0 t virt phys pageSize = mapLeaf t virt phys flags 0 := by
  rw [mapImpl, mapBody, rangeBody_zero hvirt hphys]

lemma mapImpl_page_succ (hvirt : pageSize ∣ virt) :
    mapImpl flags (l + 1) t virt phys pageSize =
      mapChild (mapImpl flags l) (l + 1) t virt phys pageSize := by
  rw [mapImpl, mapBody, rangeBody_page hvirt]

/-! ## The page and the rest -/

/-- A page was added to a table at `level`: it is mapped, and every other page of the same table
has the walk it had. -/
structure PageAdded (l virt phys : ℕ) (flags : PageFlags) (t t' : PageTable) : Prop where
  mapped : isMappedImpl l t' virt = .ok true
  inside : ∀ v, v / pageSize = virt / pageSize → walk l t' v = some ⟨0, phys, flags⟩
  outside : ∀ v, v / levelPageSize (l + 1) = virt / levelPageSize (l + 1) →
    v / pageSize ≠ virt / pageSize → walk l t' v = walk l t v

lemma div_congr (h : v / pageSize = w / pageSize) (l : ℕ) :
    v / levelPageSize l = w / levelPageSize l := by
  obtain ⟨n, hn⟩ := pageSize_dvd_levelPageSize l
  rw [hn, ← Nat.div_div_eq_div_mul, ← Nat.div_div_eq_div_mul, h]

/-- `is_mapped` has one answer for a page. -/
lemma isMappedImpl_congr (h : v / pageSize = w / pageSize) :
    isMappedImpl l t v = isMappedImpl l t w := by
  have hentry (l : ℕ) : vpnSegment v l = vpnSegment w l := vpnSegment_congr (div_congr h l)
  induction l generalizing t with
  | zero => rw [isMappedImpl, isMappedImpl, hentry]
  | succ l ih =>
      rw [isMappedImpl, isMappedImpl, hentry]
      split
      · rfl
      · rfl
      · exact ih

/-- A page in the table behind an entry is a page in the table. -/
lemma PageAdded.below {child child' : PageTable} (h : PageAdded l virt phys flags child child')
    (hchild : ∀ v, v / levelPageSize (l + 1) = virt / levelPageSize (l + 1) →
      walk (l + 1) t v = walk l child v) :
    PageAdded (l + 1) virt phys flags t (t.set virt (l + 1) (.indirect child')) where
  mapped := by
    rw [isMappedImpl, set_same _ rfl]
    exact h.mapped
  inside v hv := by
    rw [walk_indirect (set_same _ (div_congr hv (l + 1)))]
    exact h.inside v hv
  outside v hv hother := by
    by_cases hblock : v / levelPageSize (l + 1) = virt / levelPageSize (l + 1)
    · rw [walk_indirect (set_same _ hblock), h.outside v hblock hother, hchild v hblock]
    · exact walk_set_other _ hv hblock

/-- Where `is_mapped` is false, `map_impl` adds the page. -/
theorem mapImpl_page (hvirt : pageSize ∣ virt) (hphys : pageSize ∣ phys) (flags : PageFlags)
    (hfree : isMappedImpl l t virt = .ok false) :
    ∃ t', mapImpl flags l t virt phys pageSize = .ok t' ∧ PageAdded l virt phys flags t t' := by
  induction l generalizing t with
  | zero =>
      have hentry : t (vpnSegment virt 0) = .invalid := by
        rw [isMappedImpl] at hfree
        cases hentry : t (vpnSegment virt 0) with
        | invalid => rfl
        | leaf phys flags => rw [hentry] at hfree; cases hfree
        | indirect child => rw [hentry] at hfree; cases hfree
      refine ⟨t.set virt 0 (.leaf phys flags), ?_, ?_, fun v hv => ?_, fun v hv hother => ?_⟩
      · rw [mapImpl_page_zero hvirt hphys, mapLeaf, hentry]
        rfl
      · rw [isMappedImpl, set_same _ rfl]
        rfl
      · exact walk_leaf (set_same _ (div_congr hv 0)) (levelPageSize_zero ▸ hphys)
      · exact walk_set_other _ hv (by rwa [levelPageSize_zero])
  | succ l ih =>
      rw [isMappedImpl] at hfree
      cases hentry : t (vpnSegment virt (l + 1)) with
      | leaf phys flags => rw [hentry] at hfree; cases hfree
      | invalid =>
          obtain ⟨t', hmap, hadded⟩ := ih (t := new) (by rw [isMappedImpl]; rfl)
          refine ⟨_, ?_, hadded.below fun v hv => ?_⟩
          · rw [mapImpl_page_succ hvirt, mapChild, mapIndirect, hentry]
            simp only [pure, Except.pure, Checked.ok_bind]
            rw [hmap]
            rfl
          · rw [walk_invalid (by rw [vpnSegment_congr hv, hentry]), walk_of_unmapped fun _ => rfl]
      | indirect child =>
          rw [hentry] at hfree
          obtain ⟨t', hmap, hadded⟩ := ih (t := child) hfree
          refine ⟨_, ?_, hadded.below fun v hv => ?_⟩
          · rw [mapImpl_page_succ hvirt, mapChild, mapIndirect, hentry]
            simp only [pure, Except.pure, Checked.ok_bind]
            rw [hmap]
            rfl
          · rw [walk_indirect (by rw [vpnSegment_congr hv, hentry])]

/-- **One page.**  Where `is_mapped` is false, `map` of a page goes through: the page is mapped, and
no other translation changes. -/
theorem map_page (hr : RangeOk virt phys pageSize) (flags : PageFlags)
    (hfree : t.isMapped virt = .ok false) :
    ∃ t', t.map virt phys pageSize flags = .ok t' ∧ t'.isMapped virt = .ok true ∧
      (∀ v, v / pageSize = virt / pageSize →
        t'.translate v = some (phys + v % pageSize, flags)) ∧
      ∀ v < virtualAddresses.stop, v / pageSize ≠ virt / pageSize →
        t'.translate v = t.translate v := by
  obtain ⟨t', hmap, hadded⟩ :=
    mapImpl_page hr.aligned.virt hr.aligned.phys flags hfree
  refine ⟨t', (map_eq hr).trans hmap, hadded.mapped, fun v hv => ?_, fun v hv hother => ?_⟩
  · rw [translate, hadded.inside v hv, Option.map_some, levelPageSize_zero]
  · have hroot {w : ℕ} (hw : w < virtualAddresses.stop) : w / levelPageSize (2 + 1) = 0 :=
      Nat.div_eq_of_lt hw
    rw [translate, translate, hadded.outside v ((hroot hv).trans (hroot hr.virt_lt).symm) hother]

end Deravel.PageTable
