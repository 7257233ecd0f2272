import DeravelOs.Page.Entries

/-!
# Mapping and unmapping ranges

`map_impl` and `unmap_impl` split a range into a front, an aligned body and a back, at every level.
`leafLevel` says in one formula which leaf an address ends up in: the largest superpage whose block
lies in the range and whose physical address is aligned.  Both functions make the same decisions,
so one lemma about their shared body (`rangeBody_rule`) serves both.
-/

namespace Deravel.PageTable

open IntervalMap (View Fills Clears Compositional)

/-! ## Which leaf -/

section

variable {virt phys size k l v a b : ℕ}

/-- The block of `v` at level `k` can be one leaf: it lies in the range and is physically
aligned. -/
def Fits (virt phys size k v : ℕ) : Prop :=
  virt ≤ v / levelPageSize k * levelPageSize k ∧
  v / levelPageSize k * levelPageSize k + levelPageSize k ≤ virt + size ∧
  levelPageSize k ∣ phys + (v / levelPageSize k * levelPageSize k - virt)

instance (virt phys size k v : ℕ) : Decidable (Fits virt phys size k v) :=
  inferInstanceAs (Decidable (_ ∧ _ ∧ _))

/-- The level of the leaf for `v`, when tables of level `l` and below are to be filled. -/
def leafLevel (virt phys size : ℕ) : (l : ℕ) → (v : ℕ) → ℕ
  | 0, _ => 0
  | l + 1, v => if Fits virt phys size (l + 1) v then l + 1 else leafLevel virt phys size l v

/-- The physical address of that leaf. -/
def leafPhys (virt phys size l v : ℕ) : ℕ :=
  phys + (v / levelPageSize (leafLevel virt phys size l v) *
    levelPageSize (leafLevel virt phys size l v) - virt)

/-- The leaf for `v`. -/
def leafAt (virt phys size : ℕ) (flags : PageFlags) (l v : ℕ) : Leaf :=
  ⟨leafLevel virt phys size l v, leafPhys virt phys size l v, flags⟩

lemma leafLevel_le (virt phys size l v : ℕ) : leafLevel virt phys size l v ≤ l := by
  induction l with
  | zero => exact le_rfl
  | succ l ih =>
      rw [leafLevel]
      split
      · exact le_rfl
      · exact ih.trans (Nat.le_succ l)

/-- Ranges whose ends are at page boundaries. -/
structure PageAligned (virt phys size : ℕ) : Prop where
  virt : pageSize ∣ virt
  phys : pageSize ∣ phys
  size : pageSize ∣ size

/-- A page can always be one leaf. -/
lemma PageAligned.fits_zero (h : PageAligned virt phys size)
    (hv : v ∈ Set.Ico virt (virt + size)) : Fits virt phys size 0 v := by
  obtain ⟨⟨i, hi⟩, ⟨j, hj⟩, ⟨n, hn⟩⟩ := h
  simp only [Set.mem_Ico, pageSize] at hv hi hj hn
  simp only [Fits, levelPageSize_zero, pageSize]
  omega

lemma PageAligned.fits_leafLevel (h : PageAligned virt phys size)
    (hv : v ∈ Set.Ico virt (virt + size)) :
    Fits virt phys size (leafLevel virt phys size l v) v := by
  induction l with
  | zero => exact h.fits_zero hv
  | succ l ih =>
      rw [leafLevel]
      split
      · assumption
      · exact ih

lemma leafLevel_of_fits (h : Fits virt phys size l v) : leafLevel virt phys size l v = l := by
  cases l with
  | zero => rfl
  | succ l => exact if_pos h

/-- An address of a smaller block is in the same larger block. -/
lemma div_mul_le_div_mul (h : k ≤ l) (v : ℕ) :
    v / levelPageSize l * levelPageSize l ≤ v / levelPageSize k * levelPageSize k ∧
    v / levelPageSize k * levelPageSize k + levelPageSize k ≤
      v / levelPageSize l * levelPageSize l + levelPageSize l := by
  obtain ⟨m, hm⟩ := levelPageSize_dvd h
  have hk := levelPageSize_pos k
  have hm' : 0 < m := Nat.pos_of_mul_pos_left (hm ▸ levelPageSize_pos l)
  have hdiv : v / levelPageSize l = v / levelPageSize k / m := by
    rw [hm, Nat.div_div_eq_div_mul]
  generalize v / levelPageSize k = x at *
  generalize levelPageSize k = s at *
  rw [hdiv, hm]
  have hlo : x / m * m ≤ x := Nat.div_mul_le_self x m
  have hhi : x + 1 ≤ x / m * m + m := Nat.lt_div_mul_add hm'
  constructor
  · calc x / m * (s * m) = x / m * m * s := by ring
      _ ≤ x * s := Nat.mul_le_mul_right s hlo
  · calc x * s + s = (x + 1) * s := by ring
      _ ≤ (x / m * m + m) * s := Nat.mul_le_mul_right s hhi
      _ = x / m * (s * m) + s * m := by ring

/-- A piece `[a, b)` of a range that is all of the range's part of one block of level `l`. -/
structure Piece (virt size l a b : ℕ) : Prop where
  le : virt ≤ a
  lt : a < b
  ge : b ≤ virt + size
  front : pageSize ∣ a
  back : pageSize ∣ b
  block : ∀ v ∈ Set.Ico a b, v / levelPageSize l = a / levelPageSize l
  all : ∀ v ∈ Set.Ico virt (virt + size),
    v / levelPageSize l = a / levelPageSize l → v ∈ Set.Ico a b

lemma Piece.size_eq (h : Piece virt size l a b) : a + (b - a) = b := by
  have := h.lt
  omega

lemma Piece.mem (h : Piece virt size l a b) (hv : v ∈ Set.Ico a b) :
    v ∈ Set.Ico virt (virt + size) :=
  ⟨h.le.trans hv.1, lt_of_lt_of_le hv.2 h.ge⟩

lemma Piece.pageAligned (h : Piece virt size l a b) (hal : PageAligned virt phys size) :
    PageAligned a (phys + (a - virt)) (b - a) where
  virt := h.front
  phys := dvd_add hal.phys (Nat.dvd_sub h.front hal.virt)
  size := Nat.dvd_sub h.back h.front

/-- Inside a piece the same smaller blocks can be leaves as in the whole range. -/
lemma Piece.fits_iff (h : Piece virt size l a b) (hv : v ∈ Set.Ico a b) (hk : k ≤ l) :
    Fits a (phys + (a - virt)) (b - a) k v ↔ Fits virt phys size k v := by
  have hblock := div_mul_le_div_mul hk v
  have hpos := levelPageSize_pos k
  have hle := h.le
  have hge := h.ge
  have hsize := h.size_eq
  have hphys (hstart : a ≤ v / levelPageSize k * levelPageSize k) :
      phys + (a - virt) + (v / levelPageSize k * levelPageSize k - a) =
        phys + (v / levelPageSize k * levelPageSize k - virt) := by omega
  constructor
  · rintro ⟨h1, h2, h3⟩
    exact ⟨by omega, by omega, hphys h1 ▸ h3⟩
  · rintro ⟨h1, h2, h3⟩
    -- the block of `v` is in the large block of the piece, so the range's part of it is the piece
    have hdiv (w : ℕ) (hw : w / levelPageSize k = v / levelPageSize k) :
        w / levelPageSize l = a / levelPageSize l := by
      rw [← h.block v hv]
      obtain ⟨m, hm⟩ := levelPageSize_dvd hk
      rw [hm, ← Nat.div_div_eq_div_mul, ← Nat.div_div_eq_div_mul, hw]
    have hfirst := h.all (v / levelPageSize k * levelPageSize k) ⟨h1, by omega⟩
      (hdiv _ (Nat.mul_div_cancel _ hpos))
    have hlast := h.all (v / levelPageSize k * levelPageSize k + (levelPageSize k - 1))
      ⟨by omega, by omega⟩ (hdiv _ (by
        rw [Nat.add_comm, Nat.add_mul_div_right _ _ hpos, Nat.div_eq_of_lt (by omega), zero_add]))
    exact ⟨hfirst.1, by have := hlast.2; omega, (hphys hfirst.1).symm ▸ h3⟩

lemma Piece.leafLevel_eq (h : Piece virt size (l + 1) a b) (hv : v ∈ Set.Ico a b)
    (hfits : ¬ Fits virt phys size (l + 1) v) :
    leafLevel a (phys + (a - virt)) (b - a) l v = leafLevel virt phys size (l + 1) v := by
  have hsame : ∀ k ≤ l + 1, leafLevel a (phys + (a - virt)) (b - a) k v =
      leafLevel virt phys size k v := by
    intro k hk
    induction k with
    | zero => rfl
    | succ k ih =>
        rw [leafLevel, leafLevel, ih (Nat.le_of_succ_le hk)]
        exact if_congr (h.fits_iff hv hk) rfl rfl
  rw [leafLevel, if_neg hfits, hsame l (Nat.le_succ l)]

/-- Filling a piece on the next level makes the leaves that the whole range asks for. -/
lemma Piece.leafPhys_eq (h : Piece virt size (l + 1) a b) (hal : PageAligned virt phys size)
    (hv : v ∈ Set.Ico a b) (hfits : ¬ Fits virt phys size (l + 1) v) :
    leafPhys a (phys + (a - virt)) (b - a) l v = leafPhys virt phys size (l + 1) v := by
  have hstart := ((h.pageAligned hal).fits_leafLevel (l := l) (by rwa [h.size_eq])).1
  rw [h.leafLevel_eq hv hfits] at hstart
  have hle := h.le
  rw [leafPhys, leafPhys, h.leafLevel_eq hv hfits]
  omega

end

/-! ## The shared body -/

/-- How `align_by` splits a range: `[virt, p)` is a part of one block, `[p, q)` is made of whole
blocks, and `[q, stop)` is the beginning of one block. -/
structure Split (virt stop s p q : ℕ) (aligned : AddressRange) : Prop where
  le_p : virt ≤ p
  p_le : p ≤ q
  q_le : q ≤ stop
  front : virt < p → ¬ s ∣ virt ∧ p ≤ (virt / s + 1) * s ∧ (p = stop ∨ p = (virt / s + 1) * s)
  back : q < stop → s ∣ q ∧ stop < q + s
  empty : p = q → aligned.IsEmpty
  body : p < q → s ∣ p ∧ s ∣ q ∧ aligned = ⟨p, q⟩

lemma alignBy_split {virt stop s : ℕ} (hs : 0 < s) (hle : virt ≤ stop) :
    ∃ p q aligned, alignBy ⟨virt, stop⟩ s = (⟨virt, p⟩, aligned, ⟨q, stop⟩) ∧
      Split virt stop s p q aligned := by
  have hup := le_nextMultipleOf virt s
  have hdvd := dvd_nextMultipleOf hs virt
  have hlt := nextMultipleOf_lt hs virt
  have hnot : virt < nextMultipleOf virt s →
      ¬ s ∣ virt ∧ nextMultipleOf virt s = (virt / s + 1) * s := by
    intro h
    have hvirt : ¬ s ∣ virt := fun hd => by
      rw [nextMultipleOf_of_dvd hd] at h
      exact lt_irrefl _ h
    obtain ⟨k, hk⟩ := hdvd
    refine ⟨hvirt, ?_⟩
    have hdiv : virt / s = k - 1 := by
      rw [Nat.div_eq_iff hs]
      cases k with
      | zero => omega
      | succ k =>
          rw [Nat.succ_sub_one]
          rw [hk, Nat.mul_succ, mul_comm s k] at hlt h
          omega
    have hkpos : k ≠ 0 := by
      rintro rfl
      omega
    rw [hdiv, hk, Nat.sub_add_cancel (Nat.pos_of_ne_zero hkpos), mul_comm]
  by_cases hge : nextMultipleOf virt s ≥ stop
  · refine ⟨stop, stop, ⟨0, 0⟩, by rw [alignBy]; exact if_pos hge, hle, le_rfl, le_rfl,
      fun hpos => ?_, fun h => absurd h (lt_irrefl _), fun _ => le_rfl,
      fun h => absurd h (lt_irrefl _)⟩
    obtain ⟨h1, h2⟩ := hnot (lt_of_lt_of_le hpos hge)
    exact ⟨h1, h2 ▸ hge, Or.inl rfl⟩
  · have hup' := le_nextMultipleOf stop s
    have hdvd' := dvd_nextMultipleOf hs stop
    have hlt' := nextMultipleOf_lt hs stop
    -- the end of the body is the last multiple of `s` in the range
    obtain ⟨q, hq, hqdvd, hqle, hqlt⟩ : ∃ q,
        (if nextMultipleOf stop s > stop then nextMultipleOf stop s - s
          else nextMultipleOf stop s) = q ∧ s ∣ q ∧ q ≤ stop ∧ stop < q + s := by
      split
      · exact ⟨_, rfl, Nat.dvd_sub hdvd' dvd_rfl, by omega, by omega⟩
      · exact ⟨_, rfl, hdvd', by omega, by omega⟩
    have hpq : nextMultipleOf virt s ≤ q := by
      have hbelow : nextMultipleOf virt s < q + s := by omega
      obtain ⟨i, hi⟩ := hdvd
      obtain ⟨j, hj⟩ := hqdvd
      rw [hi, hj, ← Nat.mul_succ] at hbelow
      rw [hi, hj]
      exact Nat.mul_le_mul_left s (Nat.lt_succ_iff.mp (Nat.lt_of_mul_lt_mul_left hbelow))
    have halign : alignBy ⟨virt, stop⟩ s = _ := if_neg hge
    simp only [hq] at halign
    refine ⟨nextMultipleOf virt s, q, ⟨nextMultipleOf virt s, q⟩, halign, hup, hpq, hqle,
      fun hpos => ?_, fun _ => ⟨hqdvd, hqlt⟩, fun h => h ▸ le_rfl, fun _ => ⟨hdvd, hqdvd, rfl⟩⟩
    obtain ⟨h1, h2⟩ := hnot hpos
    exact ⟨h1, h2.le, Or.inr h2⟩

section

variable {virt phys size l : ℕ} {child : NextLevel}
  {leaf : PageTable → (virt phys : ℕ) → Checked PageTable} {dom : Set ℕ}
  {P : ℕ → ℕ → (PageTable → Checked PageTable) → Prop}

lemma Split.piece_front {p q : ℕ} {aligned : AddressRange}
    (h : Split virt (virt + size) (levelPageSize l) p q aligned) (hal : PageAligned virt phys size)
    (hlt : virt < p) :
    Piece virt size l virt p ∧ ∀ v ∈ Set.Ico virt p, ¬ Fits virt phys size l v := by
  obtain ⟨hnot, hle, hp⟩ := h.front hlt
  have hs := levelPageSize_pos l
  have hblock : ∀ v ∈ Set.Ico virt p, v / levelPageSize l = virt / levelPageSize l := fun v hv => by
    rw [Nat.div_eq_iff hs]
    have := Nat.div_mul_le_self virt (levelPageSize l)
    rw [add_mul, one_mul] at hle
    have := hv.1
    have := hv.2
    omega
  refine ⟨⟨le_rfl, hlt, h.p_le.trans h.q_le, hal.virt, ?_, hblock, fun v hv hdiv => ?_⟩,
    fun v hv hfits => ?_⟩
  · rcases hp with hp | hp
    · rw [hp]
      exact dvd_add hal.virt hal.size
    · rw [hp]
      exact (pageSize_dvd_levelPageSize l).trans (dvd_mul_left _ _)
  · rcases hp with hp | hp
    · rwa [hp]
    · refine ⟨hv.1, ?_⟩
      rw [hp, ← hdiv]
      exact Nat.lt_mul_of_div_lt (Nat.lt_succ_self _) hs
  · rw [Fits, hblock v hv] at hfits
    refine hnot ?_
    rw [le_antisymm hfits.1 (Nat.div_mul_le_self virt (levelPageSize l))]
    exact dvd_mul_left _ _

lemma Split.piece_back {p q : ℕ} {aligned : AddressRange}
    (h : Split virt (virt + size) (levelPageSize l) p q aligned) (hal : PageAligned virt phys size)
    (hlt : q < virt + size) :
    Piece virt size l q (virt + size) ∧
      ∀ v ∈ Set.Ico q (virt + size), ¬ Fits virt phys size l v := by
  obtain ⟨hdvd, hstop⟩ := h.back hlt
  have hs := levelPageSize_pos l
  have hstart : q / levelPageSize l * levelPageSize l = q := Nat.div_mul_cancel hdvd
  have hblock : ∀ v ∈ Set.Ico q (virt + size), v / levelPageSize l = q / levelPageSize l :=
    fun v hv => (mem_block_iff hs hdvd).mp ⟨hv.1, hv.2.trans hstop⟩
  refine ⟨⟨h.le_p.trans h.p_le, hlt, le_rfl, (pageSize_dvd_levelPageSize l).trans hdvd,
    dvd_add hal.virt hal.size, hblock, fun v hv hdiv => ⟨?_, hv.2⟩⟩, fun v hv hfits => ?_⟩
  · exact ((mem_block_iff hs hdvd).mpr hdiv).1
  · rw [Fits, hblock v hv, hstart] at hfits
    exact absurd hfits.2.1 (not_le.mpr hstop)

/-- A whole block in the body of a range, which is not physically aligned. -/
lemma Split.piece_body {p q a : ℕ} {aligned : AddressRange}
    (h : Split virt (virt + size) (levelPageSize l) p q aligned) (hpa : p ≤ a)
    (haq : a + levelPageSize l ≤ q) (ha : levelPageSize l ∣ a)
    (hphys : ¬ levelPageSize l ∣ phys + (a - virt)) :
    Piece virt size l a (a + levelPageSize l) ∧
      ∀ v ∈ Set.Ico a (a + levelPageSize l), ¬ Fits virt phys size l v := by
  have hs := levelPageSize_pos l
  have hblock {v : ℕ} : v ∈ Set.Ico a (a + levelPageSize l) ↔ _ := mem_block_iff hs ha
  have hpage := (pageSize_dvd_levelPageSize l).trans ha
  refine ⟨⟨h.le_p.trans hpa, Nat.lt_add_of_pos_right hs, haq.trans h.q_le, hpage,
    dvd_add hpage (pageSize_dvd_levelPageSize l), fun v hv => hblock.mp hv,
    fun v _ hdiv => hblock.mpr hdiv⟩, fun v hv hfits => hphys ?_⟩
  have hdvd := hfits.2.2
  rwa [hblock.mp hv, Nat.div_mul_cancel ha] at hdvd

lemma stepBy_eq {s : ℕ} (hs : 0 < s) (p n : ℕ) :
    (AddressRange.mk p (p + n * s)).stepBy s = List.range' p n s := by
  have hlen : (p + n * s - p + s - 1) / s = n := by
    rw [Nat.add_sub_cancel_left, Nat.add_sub_assoc hs, Nat.add_comm (n * s),
      Nat.add_mul_div_right _ _ hs, Nat.div_eq_of_lt (by omega), zero_add]
  rw [AddressRange.stepBy, hlen]

/-- **The shared body.**  A property that adjacent intervals share holds of the whole range when it
holds of every piece that is left to the next level and of every block that is one leaf. -/
theorem rangeBody_rule (hP : Compositional dom P) (hal : PageAligned virt phys size)
    (hdom : Set.Ico virt (virt + size) ⊆ dom)
    (hchild : ∀ a b, Piece virt size l a b → (∀ v ∈ Set.Ico a b, ¬ Fits virt phys size l v) →
      P a b fun t => child t a (phys + (a - virt)) (b - a))
    (hleaf : ∀ a, virt ≤ a → a + levelPageSize l ≤ virt + size → levelPageSize l ∣ a →
      levelPageSize l ∣ phys + (a - virt) →
        P a (a + levelPageSize l) fun t => leaf t a (phys + (a - virt))) :
    P virt (virt + size) fun t => rangeBody l child leaf t virt phys size := by
  have hs := levelPageSize_pos l
  obtain ⟨p, q, aligned, halign, hsplit⟩ := alignBy_split hs (Nat.le_add_right virt size)
  have hbody (t : PageTable) : rangeBody l child leaf t virt phys size =
      ((if ¬ p ≤ virt then child t virt (phys + (virt - virt)) (p - virt) else pure t) >>=
        fun t => (if ¬ aligned.IsEmpty ∧ (phys + (aligned.start - virt)) % levelPageSize l ≠ 0 then
            (aligned.stepBy (levelPageSize l)).foldlM
              (fun t v => child t v (phys + (v - virt)) (levelPageSize l)) t
          else
            (aligned.stepBy (levelPageSize l)).foldlM
              (fun t v => leaf t v (phys + (v - virt))) t) >>=
        fun t => if ¬ virt + size ≤ q then
            child t q (phys + (q - virt)) (virt + size - q)
          else pure t) := by
    rw [rangeBody, halign]
  simp only [hbody]
  refine hP.seq hdom hsplit.le_p (hsplit.p_le.trans hsplit.q_le) ?_
    (hP.seq (fun v hv => hdom ⟨hsplit.le_p.trans hv.1, hv.2⟩) hsplit.p_le hsplit.q_le ?_ ?_)
  · by_cases hlt : virt < p
    · obtain ⟨hpiece, hfits⟩ := hsplit.piece_front hal hlt
      simp only [not_le.mpr hlt, not_false_iff, if_true]
      exact hchild virt p hpiece hfits
    · obtain rfl : virt = p := le_antisymm hsplit.le_p (not_lt.mp hlt)
      simp only [le_refl, not_true, if_false]
      exact hP.nil virt
  · rcases lt_or_eq_of_le hsplit.p_le with hlt | heq
    · obtain ⟨hp, hq, rfl⟩ := hsplit.body hlt
      obtain ⟨n, hn⟩ : ∃ n, q = p + n * levelPageSize l := by
        obtain ⟨n, hn⟩ := Nat.dvd_sub hq hp
        exact ⟨n, by rw [mul_comm] at hn; omega⟩
      have hsteps := hn ▸ stepBy_eq hs p n
      have hblocks : Set.Ico p (p + n * levelPageSize l) ⊆ dom := fun v hv =>
        hdom ⟨hsplit.le_p.trans hv.1, lt_of_lt_of_le (hn ▸ hv.2) hsplit.q_le⟩
      -- the `k`-th block, and whether it is physically aligned like the first one
      have hk {k : ℕ} (hkn : k < n) : p + k * levelPageSize l + levelPageSize l ≤ q := by
        rw [hn, add_assoc, ← Nat.succ_mul]
        exact Nat.add_le_add_left (Nat.mul_le_mul_right _ hkn) p
      have hkdvd (k : ℕ) : levelPageSize l ∣ p + k * levelPageSize l :=
        dvd_add hp (dvd_mul_left _ _)
      have hphys (k : ℕ) : levelPageSize l ∣ phys + (p + k * levelPageSize l - virt) ↔
          (phys + (p - virt)) % levelPageSize l = 0 := by
        have hle := hsplit.le_p
        rw [show phys + (p + k * levelPageSize l - virt) =
          phys + (p - virt) + k * levelPageSize l by omega, Nat.dvd_iff_mod_eq_zero,
          Nat.add_mul_mod_self_right]
      simp only [hsteps, not_le.mpr hlt, not_false_iff, true_and]
      rw [hn]
      by_cases hmod : (phys + (p - virt)) % levelPageSize l = 0
      · simp only [hmod, ne_eq, not_true, if_false]
        exact hP.steps hblocks fun k hkn => hleaf _ (hsplit.le_p.trans (Nat.le_add_right _ _))
          ((hk hkn).trans hsplit.q_le) (hkdvd k) ((hphys k).mpr hmod)
      · simp only [hmod, ne_eq, not_false_iff, if_true]
        refine hP.steps hblocks fun k hkn => ?_
        obtain ⟨hpiece, hfits⟩ := hsplit.piece_body (Nat.le_add_right p _) (hk hkn) (hkdvd k)
          fun hd => hmod ((hphys k).mp hd)
        have := hchild _ _ hpiece hfits
        rwa [Nat.add_sub_cancel_left] at this
    · have hempty := hsplit.empty heq
      have hsteps : aligned.stepBy (levelPageSize l) = [] := by
        rw [AddressRange.stepBy, Nat.sub_eq_zero_of_le hempty, zero_add,
          Nat.div_eq_of_lt (by omega)]
        rfl
      simp only [hempty, not_true, false_and, if_false, hsteps, List.foldlM_nil]
      rw [heq]
      exact hP.nil q
  · by_cases hlt : q < virt + size
    · obtain ⟨hpiece, hfits⟩ := hsplit.piece_back hal hlt
      simp only [not_le.mpr hlt, not_false_iff, if_true]
      exact hchild q (virt + size) hpiece hfits
    · obtain rfl : q = virt + size := le_antisymm hsplit.q_le (not_lt.mp hlt)
      simp only [le_refl, not_true, if_false]
      exact hP.nil _

end

end Deravel.PageTable
