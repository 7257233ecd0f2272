import DeravelOs.Page.Table
import DeravelOs.Lib.IntervalMap

/-!
# Translation

What a page table means: the walk that the hardware makes (Sv39 with superpages), and the tables
that have a meaning at every level (`PageTable.WF`).  Well-formed tables are determined by their
walk (`ext_of_walk`), so a statement about translations is a statement about the table itself.

The walk is defined for any number of levels; the table of a process has levels 2, 1 and 0.
-/

namespace Deravel

open IntervalMap (View)

/-! ## Levels -/

lemma levelPageSize_zero : levelPageSize 0 = pageSize := by
  simp only [levelPageSize, pow_zero, mul_one]

lemma levelPageSize_succ (l : ℕ) : levelPageSize (l + 1) = 512 * levelPageSize l := by
  simp only [levelPageSize, pageTableEntryCount, pow_succ]
  ring

lemma levelPageSize_pos (l : ℕ) : 0 < levelPageSize l := by
  simp only [levelPageSize, pageSize, pageTableEntryCount]
  positivity

lemma levelPageSize_eq_two_pow (l : ℕ) : levelPageSize l = 2 ^ (12 + 9 * l) := by
  simp only [levelPageSize, pageSize, pageTableEntryCount, pow_add, pow_mul]
  norm_num

lemma levelPageSize_dvd {k l : ℕ} (h : k ≤ l) : levelPageSize k ∣ levelPageSize l := by
  rw [levelPageSize_eq_two_pow, levelPageSize_eq_two_pow]
  exact pow_dvd_pow 2 (by omega)

lemma pageSize_dvd_levelPageSize (l : ℕ) : pageSize ∣ levelPageSize l :=
  levelPageSize_zero ▸ levelPageSize_dvd (Nat.zero_le l)

lemma vpnSegment_val (virt level : ℕ) :
    (vpnSegment virt level : ℕ) = virt / levelPageSize level % 512 := by
  have hval : (vpnSegment virt level : ℕ) = virt >>> (12 + 9 * level) &&& (2 ^ 9 - 1) := rfl
  rw [hval, Nat.and_two_pow_sub_one_eq_mod, Nat.shiftRight_eq_div_pow, levelPageSize_eq_two_pow]

lemma div_levelPageSize_succ (v l : ℕ) : v / levelPageSize (l + 1) = v / levelPageSize l / 512 := by
  rw [Nat.div_div_eq_div_mul, levelPageSize_succ, mul_comm]

/-- Among the addresses of one table, the same entry means the same block. -/
lemma vpnSegment_eq_iff {v w l : ℕ}
    (h : v / levelPageSize (l + 1) = w / levelPageSize (l + 1)) :
    vpnSegment v l = vpnSegment w l ↔ v / levelPageSize l = w / levelPageSize l := by
  rw [div_levelPageSize_succ, div_levelPageSize_succ] at h
  rw [Fin.ext_iff, vpnSegment_val, vpnSegment_val]
  omega

/-- The first address of the `i`-th entry of the table number `base`. -/
def entryStart (l base : ℕ) (i : Fin pageTableEntryCount) : ℕ :=
  (base * 512 + i) * levelPageSize l

lemma entryStart_div (l base : ℕ) (i : Fin pageTableEntryCount) :
    entryStart l base i / levelPageSize l = base * 512 + i :=
  Nat.mul_div_cancel _ (levelPageSize_pos l)

lemma vpnSegment_of_div {l base v : ℕ} {i : Fin pageTableEntryCount}
    (h : v / levelPageSize l = base * 512 + i) : vpnSegment v l = i := by
  have hi : i.val < 512 := i.isLt
  rw [Fin.ext_iff, vpnSegment_val, h]
  omega

lemma table_of_div {l base v : ℕ} {i : Fin pageTableEntryCount}
    (h : v / levelPageSize l = base * 512 + i) : v / levelPageSize (l + 1) = base := by
  have hi : i.val < 512 := i.isLt
  rw [div_levelPageSize_succ, h]
  omega

/-! ## The walk -/

/-- A leaf that a walk ends in. -/
structure Leaf where
  level : ℕ
  phys : ℕ
  flags : PageFlags
  deriving DecidableEq, Repr

namespace PageTable

/-- The walk of the hardware.  A superpage that is not physically aligned, or a pointer in the last
level, is a page fault. -/
def walk : (level : ℕ) → PageTable → (virt : ℕ) → Option Leaf
  | level, table, virt =>
      match table (vpnSegment virt level) with
      | .invalid => none
      | .leaf phys flags =>
          if phys % levelPageSize level = 0 then some ⟨level, phys, flags⟩ else none
      | .indirect child =>
          match level with
          | 0 => none
          | level + 1 => walk level child virt

/-- The physical address and the permissions that a table gives to a virtual address. -/
def translate (table : PageTable) (virt : ℕ) : Option (ℕ × PageFlags) :=
  (walk 2 table virt).map fun leaf =>
    (leaf.phys + virt % levelPageSize leaf.level, leaf.flags)

variable {l v w a b base : ℕ} {t t' : PageTable} {phys : ℕ} {flags : PageFlags}
  {leaf : Leaf}

lemma walk_invalid (h : t (vpnSegment v l) = .invalid) : walk l t v = none := by
  rw [walk, h]

lemma walk_leaf (h : t (vpnSegment v l) = .leaf phys flags) (hphys : levelPageSize l ∣ phys) :
    walk l t v = some ⟨l, phys, flags⟩ := by
  rw [walk, h]
  exact if_pos (Nat.mod_eq_zero_of_dvd hphys)

lemma walk_indirect {child : PageTable} (h : t (vpnSegment v (l + 1)) = .indirect child) :
    walk (l + 1) t v = walk l child v := by
  rw [walk, h]

/-- Well-formed entries of a table at `level`; `child` is well-formedness one level below. -/
def WFEntry (child : PageTable → Prop) (level : ℕ) : PageTableEntry → Prop
  | .invalid => True
  | .leaf phys _ => levelPageSize level ∣ phys
  | .indirect table => ¬ IsCompletelyUnmapped table ∧ child table

/-- **Well-formed tables.**  Leaves are aligned, no table below is empty, and the last level has no
tables below. -/
def WF : (level : ℕ) → PageTable → Prop
  | 0, table => ∀ i, WFEntry (fun _ => False) 0 (table i)
  | level + 1, table => ∀ i, WFEntry (WF level) (level + 1) (table i)

/-- Well-formedness of the tables below a level. -/
def WFBelow : (level : ℕ) → PageTable → Prop
  | 0 => fun _ => False
  | level + 1 => WF level

lemma wf_iff : WF l t ↔ ∀ i, WFEntry (WFBelow l) l (t i) := by
  cases l with
  | zero => exact Iff.rfl
  | succ l => exact Iff.rfl

lemma WF.entry (h : WF l t) (i : Fin pageTableEntryCount) : WFEntry (WFBelow l) l (t i) :=
  wf_iff.mp h i

lemma WF.new (l : ℕ) : WF l PageTable.new := wf_iff.mpr fun _ => trivial

lemma WF.leaf_dvd (h : WF l t) {i : Fin pageTableEntryCount} (hi : t i = .leaf phys flags) :
    levelPageSize l ∣ phys := by
  have hentry := h.entry i
  rwa [hi] at hentry

lemma WF.indirect (h : WF l t) {i : Fin pageTableEntryCount} {child : PageTable}
    (hi : t i = .indirect child) : ¬ child.IsCompletelyUnmapped ∧ WFBelow l child := by
  have hentry := h.entry i
  rwa [hi] at hentry

lemma WF.set (h : WF l t) {entry : PageTableEntry} (hentry : WFEntry (WFBelow l) l entry) :
    WF l (t.set w l entry) := by
  refine wf_iff.mpr fun i => ?_
  by_cases hi : i = vpnSegment w l
  · rw [hi, PageTable.set, Function.update_self]
    exact hentry
  · rw [PageTable.set, Function.update_of_ne hi]
    exact h.entry i

/-! ## Replacing one entry -/

/-- A walk depends on one entry only. -/
lemma walk_congr (h : t (vpnSegment v l) = t' (vpnSegment v l)) : walk l t v = walk l t' v := by
  cases l with
  | zero => rw [walk, walk, h]
  | succ l => rw [walk, walk, h]

lemma vpnSegment_congr (h : v / levelPageSize l = w / levelPageSize l) :
    vpnSegment v l = vpnSegment w l := by
  rw [Fin.ext_iff, vpnSegment_val, vpnSegment_val, h]

lemma set_same (entry : PageTableEntry) (h : v / levelPageSize l = w / levelPageSize l) :
    t.set w l entry (vpnSegment v l) = entry := by
  rw [set, vpnSegment_congr h, Function.update_self]

/-- Replacing an entry leaves the walks through the other entries alone. -/
lemma walk_set_other (entry : PageTableEntry)
    (htable : v / levelPageSize (l + 1) = w / levelPageSize (l + 1))
    (h : v / levelPageSize l ≠ w / levelPageSize l) :
    walk l (t.set w l entry) v = walk l t v := by
  refine walk_congr ?_
  rw [set, Function.update_of_ne fun heq => h ((vpnSegment_eq_iff htable).mp heq)]

/-! ## A table is determined by its walk -/

lemma walk_level_le (h : walk l t v = some leaf) : leaf.level ≤ l := by
  induction l generalizing t with
  | zero =>
      rw [walk] at h
      split at h
      · cases h
      · split at h
        · cases h
          exact le_rfl
        · cases h
      · cases h
  | succ l ih =>
      rw [walk] at h
      split at h
      · cases h
      · split at h
        · cases h
          exact le_rfl
        · cases h
      · exact (ih h).trans (Nat.le_succ l)

lemma exists_entry (hsome : ¬ t.IsCompletelyUnmapped) : ∃ i, t i ≠ .invalid := by
  simp only [IsCompletelyUnmapped, not_forall] at hsome
  obtain ⟨i, hi⟩ := hsome
  exact ⟨i, fun hentry => hi (by rw [hentry]; rfl)⟩

/-- The walk to the first address of an entry that is a leaf. -/
lemma walk_entryStart (h : WF l t) {i : Fin pageTableEntryCount} (hi : t i = .leaf phys flags)
    (base : ℕ) : walk l t (entryStart l base i) = some ⟨l, phys, flags⟩ :=
  walk_leaf (by rw [vpnSegment_of_div (entryStart_div l base i), hi]) (h.leaf_dvd hi)

/-- A table that is not empty translates something. -/
lemma exists_walk (h : WF l t) (hsome : ¬ t.IsCompletelyUnmapped) (base : ℕ) :
    ∃ v leaf, v / levelPageSize (l + 1) = base ∧ walk l t v = some leaf := by
  induction l generalizing t base with
  | zero =>
      obtain ⟨i, hi⟩ := exists_entry hsome
      cases hentry : t i with
      | invalid => exact absurd hentry hi
      | leaf phys flags =>
          exact ⟨_, _, table_of_div (entryStart_div 0 base i), walk_entryStart h hentry base⟩
      | indirect child => exact absurd (h.indirect hentry).2 id
  | succ l ih =>
      obtain ⟨i, hi⟩ := exists_entry hsome
      cases hentry : t i with
      | invalid => exact absurd hentry hi
      | leaf phys flags =>
          exact ⟨_, _, table_of_div (entryStart_div (l + 1) base i), walk_entryStart h hentry base⟩
      | indirect child =>
          obtain ⟨hchild, hwf⟩ := h.indirect hentry
          obtain ⟨v, leaf, hv, hwalk⟩ := ih hwf hchild (base * 512 + i)
          exact ⟨v, leaf, table_of_div hv, by
            rwa [walk_indirect (by rw [vpnSegment_of_div hv, hentry])]⟩

/-- An entry is invalid when nothing is translated through it. -/
lemma entry_invalid (h : WF l t) {i : Fin pageTableEntryCount} (base : ℕ)
    (hnone : ∀ v, v / levelPageSize l = base * 512 + i → walk l t v = none) : t i = .invalid := by
  cases hentry : t i with
  | invalid => rfl
  | leaf phys flags =>
      have hwalk := hnone _ (entryStart_div l base i)
      rw [walk_entryStart h hentry base] at hwalk
      cases hwalk
  | indirect child =>
      obtain ⟨hchild, hwf⟩ := h.indirect hentry
      cases l with
      | zero => exact absurd hwf id
      | succ l =>
          obtain ⟨v, leaf, hv, hwalk⟩ := exists_walk hwf hchild (base * 512 + i)
          have hthrough : walk (l + 1) t v = walk l child v :=
            walk_indirect (by rw [vpnSegment_of_div hv, hentry])
          rw [← hthrough, hnone v hv] at hwalk
          cases hwalk

/-- A leaf is recognised by the walk: a walk through a table below ends in a lower level. -/
lemma entry_eq_of_leaf (h : WF l t) (h' : WF l t') {i : Fin pageTableEntryCount}
    (hentry : t i = .leaf phys flags) (base : ℕ)
    (hwalk : walk l t (entryStart l base i) = walk l t' (entryStart l base i)) : t' i = t i := by
  have hdiv := entryStart_div l base i
  rw [walk_entryStart h hentry] at hwalk
  rw [hentry]
  cases hentry' : t' i with
  | invalid =>
      rw [walk_invalid (by rw [vpnSegment_of_div hdiv, hentry'])] at hwalk
      cases hwalk
  | leaf phys' flags' =>
      rw [walk_entryStart h' hentry'] at hwalk
      cases hwalk
      rfl
  | indirect child =>
      cases l with
      | zero => exact absurd (h'.indirect hentry').2 id
      | succ l =>
          rw [walk_indirect (by rw [vpnSegment_of_div hdiv, hentry'])] at hwalk
          exact absurd (walk_level_le hwalk.symm) (Nat.not_succ_le_self l)

/-- **Extensionality.**  Well-formed tables with the same walk are equal. -/
theorem ext_of_walk (h : WF l t) (h' : WF l t') (base : ℕ)
    (hwalk : ∀ v, v / levelPageSize (l + 1) = base → walk l t v = walk l t' v) : t = t' := by
  induction l generalizing t t' base with
  | zero =>
      funext i
      have hstart := hwalk _ (table_of_div (entryStart_div 0 base i))
      cases hentry : t i with
      | invalid =>
          refine (entry_invalid h' base fun v hv => ?_).symm
          rw [← hwalk v (table_of_div hv), walk_invalid (by rw [vpnSegment_of_div hv, hentry])]
      | leaf phys flags => rw [entry_eq_of_leaf h h' hentry base hstart, hentry]
      | indirect child => exact absurd (h.indirect hentry).2 id
  | succ l ih =>
      funext i
      have hstart := hwalk _ (table_of_div (entryStart_div (l + 1) base i))
      cases hentry : t i with
      | invalid =>
          refine (entry_invalid h' base fun v hv => ?_).symm
          rw [← hwalk v (table_of_div hv), walk_invalid (by rw [vpnSegment_of_div hv, hentry])]
      | leaf phys flags => rw [entry_eq_of_leaf h h' hentry base hstart, hentry]
      | indirect child =>
          obtain ⟨-, hwf⟩ := h.indirect hentry
          cases hentry' : t' i with
          | invalid =>
              refine absurd (entry_invalid h base fun v hv => ?_) (by rw [hentry]; simp)
              rw [hwalk v (table_of_div hv), walk_invalid (by rw [vpnSegment_of_div hv, hentry'])]
          | leaf phys flags =>
              rw [← hentry, entry_eq_of_leaf h' h hentry' base hstart.symm, hentry']
          | indirect child' =>
              obtain ⟨-, hwf'⟩ := h'.indirect hentry'
              rw [ih hwf hwf' (base * 512 + i) fun v hv => ?_]
              have hchild := hwalk v (table_of_div hv)
              rwa [walk_indirect (by rw [vpnSegment_of_div hv, hentry]),
                walk_indirect (by rw [vpnSegment_of_div hv, hentry'])] at hchild

end PageTable

end Deravel
