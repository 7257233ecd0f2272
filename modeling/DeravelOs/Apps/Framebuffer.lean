import DeravelOs.Lib.CountedLoop
import DeravelOs.Lib.Raster
import DeravelOs.Types.Signed
import DeravelOs.Types.Slices

/-!
# Framebuffers

`copy_from_rect` of `kernel-api/src/framebuffer.rs`, with which the windowing server draws a window at
any place.  The rectangle is cut to what the framebuffer has of it.  From top to bottom that is a range
of rows, which may be empty or inverted; from left to right it is a range to slice with, which may be
empty but not inverted.

* `Framebuffer.copyFromRect`: the loop over the rows.
* `Framebuffer.image`: the pixels as an image, of which the rest of the memory is not a part.
* `Drawn`: the invariant of the loop.
* `copyFromRect_blits`: the rectangle is drawn as a `Raster.blit`.
* `Framebuffer.copyFromRect_blits_iff`: this is so if and only if the rectangle has no rows to copy, or
  touches the framebuffer from left to right.
-/

namespace Deravel

/-! ## The functions of the source -/

/-- `Framebuffer`.  The memory has all of the rows, and a slice is never larger than an `isize`. -/
structure Framebuffer where
  ptr : List (BitVec 32)
  width : ℕ
  height : ℕ
  width_lt : width < usizeRange
  height_lt : height < usizeRange
  fits : width * height ≤ ptr.length
  ptr_lt : 4 * ptr.length < 2 ^ 63

/-- Where `row` and `row_mut` slice. -/
def Framebuffer.rowStart (self : Framebuffer) (y : ℕ) : Checked ℕ := do
  ensure (y < self.height) (.assertion .framebufferRow)
  let start ← uintMul 64 .framebufferRow y self.width
  ensure (start ≤ self.ptr.length) (.indexOutOfBounds .framebufferRow)
  ensure (self.width ≤ self.ptr.length - start) (.indexOutOfBounds .framebufferRow)
  pure start

/-- `row` -/
def Framebuffer.row (self : Framebuffer) (y : ℕ) : Checked (List (BitVec 32)) := do
  let start ← self.rowStart y
  pure ((self.ptr.drop start).take self.width)

/-- Pixels in place of what is there. -/
def Framebuffer.overwrite (self : Framebuffer) (start : ℕ) (pixels : List (BitVec 32)) :
    Framebuffer :=
  { self with
    ptr := Raster.overwrite self.ptr start pixels
    fits := by rw [Raster.length_overwrite]; exact self.fits
    ptr_lt := by rw [Raster.length_overwrite]; exact self.ptr_lt }

/-- The body of the loop of `copy_from_rect`. -/
def Framebuffer.copyRow (self : Framebuffer) (offsetX offsetY : ℤ) (rect : Framebuffer)
    (minRectX maxRectX rectY : ℤ) : Checked Framebuffer := do
  let y ← isizeAdd .copyFromRect offsetY rectY
  let start ← self.rowStart (asUsize y)
  let left ← isizeAdd .copyFromRect offsetX minRectX
  let right ← isizeAdd .copyFromRect offsetX maxRectX
  ensure (asUsize left ≤ asUsize right ∧ asUsize right ≤ self.width)
    (.indexOutOfBounds .copyFromRect)
  let row ← rect.row (asUsize rectY)
  let source ← slice .copyFromRect row (asUsize minRectX) (asUsize maxRectX)
  -- `copy_from_slice` wants slices of the same length
  ensure (source.length = asUsize right - asUsize left) (.explicit .copyFromRect)
  pure (self.overwrite (start + asUsize left) source)

/-- `copy_from_rect` -/
def Framebuffer.copyFromRect (self : Framebuffer) (offsetX offsetY : ℤ) (rect : Framebuffer) :
    Checked Framebuffer := do
  let negX ← isizeNeg .copyFromRect offsetX
  let minRectX := max negX 0
  let negY ← isizeNeg .copyFromRect offsetY
  let minRectY := max negY 0
  let overX ← isizeSub .copyFromRect (asIsize self.width) offsetX
  let maxRectX := min overX (asIsize rect.width)
  let overY ← isizeSub .copyFromRect (asIsize self.height) offsetY
  let maxRectY := min overY (asIsize rect.height)
  CountedLoop.run
    (fun self i => self.copyRow offsetX offsetY rect minRectX maxRectX (minRectY + (i : ℤ)))
    0 (maxRectY - minRectY).toNat self

/-! ## Pixels -/

/-- The pixel at some place, if there is one. -/
def Framebuffer.pixel (self : Framebuffer) (x y : ℕ) : Option (BitVec 32) :=
  if x < self.width ∧ y < self.height then self.ptr[y * self.width + x]? else none

/-- The framebuffer as an image. -/
def Framebuffer.image (self : Framebuffer) : Raster.Image (BitVec 32) := fun x y =>
  if 0 ≤ x ∧ 0 ≤ y then self.pixel x.toNat y.toNat else none

/-- `result` is `target` with `rect` drawn at an offset, as far as it is in it; everything else is as it
was. -/
structure Blits (target : Framebuffer) (offsetX offsetY : ℤ) (rect result : Framebuffer) : Prop where
  width : result.width = target.width
  height : result.height = target.height
  length : result.ptr.length = target.ptr.length
  copied : ∀ x < target.width, ∀ y < target.height, ∀ u < rect.width, ∀ v < rect.height,
    (x : ℤ) - offsetX = u → (y : ℤ) - offsetY = v → result.pixel x y = rect.pixel u v
  kept : ∀ x < target.width, ∀ y < target.height,
    (∀ u < rect.width, ∀ v < rect.height,
      ¬ ((x : ℤ) - offsetX = u ∧ (y : ℤ) - offsetY = v)) →
        result.pixel x y = target.pixel x y
  spare : ∀ i, target.width * target.height ≤ i → result.ptr[i]? = target.ptr[i]?

/-- The offsets are small enough for the arithmetic of `copy_from_rect`. -/
structure OffsetsFit (target : Framebuffer) (offsetX offsetY : ℤ) : Prop where
  negX : InIsize (-offsetX)
  negY : InIsize (-offsetY)
  overX : InIsize (asIsize target.width - offsetX)
  overY : InIsize (asIsize target.height - offsetY)

/-- The rectangle begins at the right edge of the framebuffer or before it, and ends at the left edge or
behind it. -/
def Touches (self : Framebuffer) (offsetX : ℤ) (rect : Framebuffer) : Prop :=
  -(rect.width : ℤ) ≤ offsetX ∧ offsetX ≤ self.width

/-- No row of the rectangle is one of the framebuffer. -/
def RowsApart (self : Framebuffer) (offsetY : ℤ) (rect : Framebuffer) : Prop :=
  asIsize self.height ≤ 0 ∨ asIsize rect.height ≤ 0 ∨
    asIsize self.height ≤ offsetY ∨ offsetY + asIsize rect.height ≤ 0

variable {self t rect result : Framebuffer} {offsetX offsetY : ℤ} {x y u v left a n : ℕ}

/-! ## Rows -/

/-- The rows are in the memory. -/
lemma Framebuffer.row_le (hy : y < self.height) : y * self.width + self.width ≤ self.ptr.length := by
  have hrows : (y + 1) * self.width ≤ self.height * self.width := Nat.mul_le_mul_right _ hy
  have hfits := self.fits
  rw [Nat.mul_comm] at hfits
  rw [← Nat.succ_mul]
  exact hrows.trans hfits

/-- A framebuffer that has a row is not very wide. -/
lemma Framebuffer.width_small (h : 0 < self.height) : self.width < 2 ^ 61 := by
  have hle := Framebuffer.row_le h
  have hptr := self.ptr_lt
  omega

/-- One that has a column is not very high. -/
lemma Framebuffer.height_small (h : 0 < self.width) : self.height < 2 ^ 61 := by
  have hle : self.height ≤ self.width * self.height := Nat.le_mul_of_pos_left _ h
  have hfits := self.fits
  have hptr := self.ptr_lt
  omega

lemma Framebuffer.rowStart_of_lt (hy : y < self.height) : self.rowStart y = .ok (y * self.width) := by
  have hle := Framebuffer.row_le hy
  have hptr := self.ptr_lt
  have hmul : y * self.width < 2 ^ 64 := by omega
  have hstart : y * self.width ≤ self.ptr.length := by omega
  have hrest : self.width ≤ self.ptr.length - y * self.width := by omega
  rw [Framebuffer.rowStart, ensure_pos hy, Checked.ok_bind, uintMul_eq_ok.mpr ⟨hmul, rfl⟩,
    Checked.ok_bind, ensure_pos hstart, Checked.ok_bind, ensure_pos hrest, Checked.ok_bind]
  rfl

/-- A row has the pixels of its height. -/
lemma Framebuffer.row_of_lt (hy : y < self.height) :
    ∃ row, self.row y = .ok row ∧ row.length = self.width ∧
      ∀ x < self.width, row[x]? = self.pixel x y := by
  have hle := Framebuffer.row_le hy
  refine ⟨(self.ptr.drop (y * self.width)).take self.width, ?_, ?_, ?_⟩
  · rw [Framebuffer.row, Framebuffer.rowStart_of_lt hy]
    rfl
  · rw [List.length_take, List.length_drop]
    omega
  · intro x hx
    rw [List.getElem?_take_of_lt hx, List.getElem?_drop, Framebuffer.pixel, if_pos ⟨hx, hy⟩]

/-- What is cut off from left to right: `n` pixels, from `a` on, belong at `left`. -/
structure Clip (width rectWidth : ℕ) (offsetX : ℤ) (left a n : ℕ) : Prop where
  min_eq : max (-offsetX) 0 = a
  max_eq : min ((width : ℤ) - offsetX) rectWidth = a + n
  left_eq : offsetX + a = left
  left_le : left + n ≤ width
  rect_le : a + n ≤ rectWidth

/-- There is such a part if the rectangle touches the framebuffer from left to right. -/
lemma exists_clip (h : Touches self offsetX rect) :
    ∃ left a n, Clip self.width rect.width offsetX left a n := by
  obtain ⟨hleft, hright⟩ := h
  refine ⟨(max offsetX 0).toNat, (max (-offsetX) 0).toNat,
    (min ((self.width : ℤ) - offsetX) rect.width - max (-offsetX) 0).toNat, ?_⟩
  constructor
  · omega
  · omega
  · omega
  · omega
  · omega

/-- One turn of the loop overwrites a part of a row. -/
lemma copyRow_of_clip (hclip : Clip self.width rect.width offsetX left a n)
    (hrow : offsetY + v = u) (hu : u < self.height) (hu' : u < 2 ^ 63) (hv : v < rect.height) :
    ∃ source, self.copyRow offsetX offsetY rect a (a + n) v =
        .ok (self.overwrite (u * self.width + left) source) ∧
      source.length = n ∧ ∀ i < n, source[i]? = rect.pixel (a + i) v := by
  obtain ⟨row, hrowOf, hlength, hpixels⟩ := Framebuffer.row_of_lt hv
  have hrect := hclip.rect_le
  have hslice : slice .copyFromRect row a (a + n) = .ok ((row.drop a).take n) := by
    rw [slice_of_le (Nat.le_add_right a n) (hlength ▸ hrect), Nat.add_sub_cancel_left]
  have hn : ((row.drop a).take n).length = n := by
    rw [List.length_take, List.length_drop]
    omega
  refine ⟨(row.drop a).take n, ?_, hn, ?_⟩
  · have hwidth := Framebuffer.width_small (u.zero_le.trans_lt hu)
    have hle := hclip.left_le
    have hleft := hclip.left_eq
    have hright : offsetX + ((a : ℤ) + n) = ((left + n : ℕ) : ℤ) := by omega
    have hin : ∀ m : ℕ, m < 2 ^ 63 → InIsize m := fun m hm => ⟨by omega, by omega⟩
    have hy : InIsize (offsetY + v) := hrow ▸ hin u hu'
    have hl : InIsize (offsetX + a) := hleft ▸ hin left (by omega)
    have hr : InIsize (offsetX + ((a : ℤ) + n)) := hright ▸ hin (left + n) (by omega)
    have hsame : ((row.drop a).take n).length = left + n - left := by omega
    rw [Framebuffer.copyRow, isizeAdd_of_in hy, Checked.ok_bind, hrow, asUsize_natCast,
      Framebuffer.rowStart_of_lt hu, Checked.ok_bind, isizeAdd_of_in hl, Checked.ok_bind,
      isizeAdd_of_in hr, Checked.ok_bind, hleft, hright, asUsize_natCast, asUsize_natCast,
      ensure_pos ⟨Nat.le_add_right left n, hle⟩, Checked.ok_bind, asUsize_natCast, hrowOf,
      Checked.ok_bind, ← Nat.cast_add, asUsize_natCast, asUsize_natCast, hslice, Checked.ok_bind,
      ensure_pos hsame, Checked.ok_bind]
    rfl
  · intro i hi
    rw [List.getElem?_take_of_lt hi, List.getElem?_drop, hpixels (a + i) (by omega)]

/-! ## Images -/

lemma Framebuffer.image_of_eq {x' y' : ℤ} (hx : x' = x) (hy : y' = y) :
    self.image x' y' = self.pixel x y := by
  subst hx hy
  rw [Framebuffer.image, if_pos ⟨Int.natCast_nonneg x, Int.natCast_nonneg y⟩]
  rfl

lemma Framebuffer.pixel_of_le (h : self.width ≤ x ∨ self.height ≤ y) : self.pixel x y = none := by
  rw [Framebuffer.pixel, if_neg]
  omega

lemma Framebuffer.pixel_of_lt (hx : x < self.width) (hy : y < self.height) :
    ∃ color, self.pixel x y = some color := by
  have hle := Framebuffer.row_le hy
  have hin : y * self.width + x < self.ptr.length := by omega
  refine ⟨self.ptr[y * self.width + x], ?_⟩
  rw [Framebuffer.pixel, if_pos ⟨hx, hy⟩, List.getElem?_eq_getElem hin]

/-- The image has no other points than the pixels. -/
lemma Framebuffer.image_eq_none {x' y' : ℤ}
    (h : ∀ u < self.width, ∀ v < self.height, ¬ (x' = u ∧ y' = v)) : self.image x' y' = none := by
  by_cases hpos : 0 ≤ x' ∧ 0 ≤ y'
  · obtain ⟨hx, hy⟩ := hpos
    lift x' to ℕ using hx
    lift y' to ℕ using hy
    rw [Framebuffer.image_of_eq rfl rfl, Framebuffer.pixel, if_neg]
    rintro ⟨hu, hv⟩
    exact h x' hu y' hv ⟨rfl, rfl⟩
  · rw [Framebuffer.image, if_neg hpos]

/-- It is enough to know the pixels of a drawing. -/
lemma Framebuffer.image_eq_blit {src : Raster.Image (BitVec 32)} {dx dy : ℤ}
    (h : ∀ x y : ℕ, t.pixel x y = Raster.blit self.image src dx dy x y) :
    t.image = Raster.blit self.image src dx dy := by
  funext x y
  by_cases hpos : 0 ≤ x ∧ 0 ≤ y
  · obtain ⟨hx, hy⟩ := hpos
    lift x to ℕ using hx
    lift y to ℕ using hy
    rw [Framebuffer.image_of_eq rfl rfl, h x y]
  · rw [Raster.blit_of_dst_none (if_neg hpos), Framebuffer.image, if_neg hpos]

section Overwrite

variable {source : List (BitVec 32)}

lemma pixel_overwrite_inside (hle : left ≤ x) (hlt : x < left + source.length)
    (hend : left + source.length ≤ self.width) (hu : u < self.height) :
    (self.overwrite (u * self.width + left) source).pixel x u = source[x - left]? := by
  have hrow := Framebuffer.row_le hu
  have hx : x < self.width := by omega
  have hin : u * self.width + x < self.ptr.length := by omega
  have hstart : u * self.width + left ≤ u * self.width + x := by omega
  have hstop : u * self.width + x < u * self.width + left + source.length := by omega
  have hget := Raster.getElem?_overwrite_inside hstart hstop hin
  rw [Nat.add_sub_add_left] at hget
  rw [Framebuffer.pixel]
  exact (if_pos ⟨hx, hu⟩).trans hget

/-- The other pixels stay. -/
lemma pixel_overwrite_outside (hend : left + source.length ≤ self.width)
    (h : ¬ (y = u ∧ left ≤ x ∧ x < left + source.length)) :
    (self.overwrite (u * self.width + left) source).pixel x y = self.pixel x y := by
  by_cases hin : x < self.width ∧ y < self.height
  · have hout : ¬ (u * self.width + left ≤ y * self.width + x ∧
        y * self.width + x < u * self.width + left + source.length) := by
      rw [Nat.add_assoc (u * self.width), Raster.mem_stretch_iff hin.1 hend]
      exact h
    rw [Framebuffer.pixel, Framebuffer.pixel, if_pos hin]
    exact (if_pos hin).trans (Raster.getElem?_overwrite_outside hout)
  · rw [Framebuffer.pixel, Framebuffer.pixel, if_neg hin]
    exact if_neg hin

end Overwrite

/-! ## Drawing -/

/-- The rows of the rectangle below `row` have been drawn. -/
structure Drawn (target : Framebuffer) (offsetX offsetY : ℤ) (rect : Framebuffer) (row : ℤ)
    (t : Framebuffer) : Prop where
  width : t.width = target.width
  height : t.height = target.height
  length : t.ptr.length = target.ptr.length
  image : t.image = Raster.blit target.image (Raster.upTo rect.image row) offsetX offsetY
  spare : ∀ i, target.width * target.height ≤ i → t.ptr[i]? = target.ptr[i]?

/-- No pixel is in the rows above both. -/
lemma Drawn.refl : Drawn self offsetX offsetY rect (max (-offsetY) 0) self := by
  refine ⟨rfl, rfl, rfl, Framebuffer.image_eq_blit fun x y => ?_, fun _ _ => rfl⟩
  rw [Raster.blit_of_none, Framebuffer.image_of_eq rfl rfl]
  by_cases hy : (y : ℤ) - offsetY < max (-offsetY) 0
  · refine Raster.upTo_of_none (Framebuffer.image_eq_none ?_)
    rintro u - v - ⟨-, hv⟩
    omega
  · exact Raster.upTo_of_le (not_lt.mp hy)

/-- The rows that follow are as they were. -/
lemma Drawn.pixel_eq {row : ℤ} (h : Drawn self offsetX offsetY rect row t)
    (hrow : row ≤ y - offsetY) : t.pixel x y = self.pixel x y := by
  rw [← Framebuffer.image_of_eq rfl rfl, h.image, Raster.blit_of_none (Raster.upTo_of_le hrow),
    Framebuffer.image_of_eq rfl rfl]

/-- A pixel of the row that is drawn is one of the rectangle, or beside it. -/
lemma Drawn.row_pixel {source : List (BitVec 32)} (h : Drawn self offsetX offsetY rect v t)
    (hclip : Clip t.width rect.width offsetX left a n) (hrow : offsetY + v = u)
    (hu : u < t.height) (hv : v < rect.height) (hn : source.length = n)
    (hsource : ∀ i < n, source[i]? = rect.pixel (a + i) v) :
    (t.overwrite (u * t.width + left) source).pixel x u =
      Raster.blit self.image rect.image offsetX offsetY x u := by
  obtain ⟨hmin, hmax, hleft, hend, hrect⟩ := hclip
  rw [← hn] at hend
  by_cases hx : left ≤ x ∧ x < left + source.length
  · have hxw : x < self.width := h.width ▸ hx.2.trans_le hend
    have huh : u < self.height := h.height ▸ hu
    obtain ⟨old, hold⟩ := Framebuffer.pixel_of_lt hxw huh
    have hcolumn : a + (x - left) < rect.width := by omega
    obtain ⟨color, hcolor⟩ := Framebuffer.pixel_of_lt hcolumn hv
    have hpoint : rect.image (x - offsetX) (u - offsetY) = some color := by
      rw [← hcolor]
      exact Framebuffer.image_of_eq (by omega) (by omega)
    rw [pixel_overwrite_inside hx.1 hx.2 hend hu, hsource (x - left) (by omega), hcolor,
      Raster.blit_of_some ((Framebuffer.image_of_eq rfl rfl).trans hold) hpoint]
  · rw [pixel_overwrite_outside hend (fun hin => hx hin.2), h.pixel_eq (by omega)]
    by_cases hxw : x < self.width
    · -- to the left or to the right of the rectangle
      have hnone : rect.image (x - offsetX) (u - offsetY) = none := by
        refine Framebuffer.image_eq_none ?_
        rintro u' hu' v' - ⟨hxu, -⟩
        rw [← h.width] at hxw
        omega
      rw [Raster.blit_of_none hnone, Framebuffer.image_of_eq rfl rfl]
    · have hnone := Framebuffer.pixel_of_le (y := u) (.inl (not_lt.mp hxw))
      rw [hnone, Raster.blit_of_dst_none ((Framebuffer.image_of_eq rfl rfl).trans hnone)]

/-- One more row. -/
lemma Drawn.turn (h : Drawn self offsetX offsetY rect v t)
    (hclip : Clip self.width rect.width offsetX left a n) (hrow : offsetY + v = u)
    (hu : u < self.height) (hu' : u < 2 ^ 63) (hv : v < rect.height) :
    ∃ t', t.copyRow offsetX offsetY rect a (a + n) v = .ok t' ∧
      Drawn self offsetX offsetY rect (v + 1) t' := by
  have hut : u < t.height := by rwa [h.height]
  rw [← h.width] at hclip
  obtain ⟨source, hcopy, hn, hsource⟩ := copyRow_of_clip hclip hrow hut hu' hv
  have hend : left + source.length ≤ t.width := by
    rw [hn]
    exact hclip.left_le
  refine ⟨_, hcopy, h.width, h.height, ?_, ?_, ?_⟩
  · exact (Raster.length_overwrite _ _ _).trans h.length
  · refine Framebuffer.image_eq_blit fun x y => Raster.blit_upTo_succ (fun hy => ?_) (fun hy => ?_)
    · obtain rfl : y = u := by omega
      exact h.row_pixel hclip hrow hut hv hn hsource
    · rw [pixel_overwrite_outside hend (fun hx => hy (by omega)), ← h.image]
      exact (Framebuffer.image_of_eq rfl rfl).symm
  · -- the row ends before the spare memory
    intro i hi
    rw [← h.spare i hi]
    refine Raster.getElem?_overwrite_outside fun hin => ?_
    have hrows : (u + 1) * t.width ≤ t.height * t.width := Nat.mul_le_mul_right _ hut
    rw [Nat.succ_mul] at hrows
    rw [Nat.mul_comm, ← h.width, ← h.height] at hi
    omega

/-! ## The loop -/

/-- The first of the rows to copy. -/
def firstRow (offsetY : ℤ) : ℤ := max (-offsetY) 0

/-- The end of the rows to copy. -/
def lastRow (self : Framebuffer) (offsetY : ℤ) (rect : Framebuffer) : ℤ :=
  min (asIsize self.height - offsetY) (asIsize rect.height)

/-- There are rows to copy if some are in both. -/
lemma rowsApart_iff : RowsApart self offsetY rect ↔ lastRow self offsetY rect ≤ firstRow offsetY := by
  rw [RowsApart, lastRow, firstRow]
  omega

/-- The arithmetic in front of the loop does not overflow. -/
lemma copyFromRect_of_fit (hfit : OffsetsFit self offsetX offsetY) :
    self.copyFromRect offsetX offsetY rect =
      CountedLoop.run (fun t i => t.copyRow offsetX offsetY rect (max (-offsetX) 0)
          (min (asIsize self.width - offsetX) (asIsize rect.width)) (firstRow offsetY + (i : ℤ)))
        0 (lastRow self offsetY rect - firstRow offsetY).toNat self := by
  rw [Framebuffer.copyFromRect, isizeNeg_of_in hfit.negX, Checked.ok_bind,
    isizeNeg_of_in hfit.negY, Checked.ok_bind, isizeSub_of_in hfit.overX, Checked.ok_bind,
    isizeSub_of_in hfit.overY, Checked.ok_bind]
  rfl

/-- If there are rows to copy, all sizes are positive or small, and no `as` changes them. -/
lemma sizes_of_rows (h : firstRow offsetY < lastRow self offsetY rect) :
    (asIsize self.height = self.height ∧ self.height < 2 ^ 63) ∧
    (asIsize rect.height = rect.height ∧ rect.height < 2 ^ 63) ∧
    (asIsize self.width = self.width ∧ self.width < 2 ^ 61) ∧
    (asIsize rect.width = rect.width ∧ rect.width < 2 ^ 61) := by
  rw [firstRow, lastRow] at h
  have hself : 0 < asIsize self.height := by omega
  have hrect : 0 < asIsize rect.height := by omega
  obtain ⟨hselfLt, hselfEq⟩ := asIsize_of_pos hself self.height_lt
  obtain ⟨hrectLt, hrectEq⟩ := asIsize_of_pos hrect rect.height_lt
  have hwidth : self.width < 2 ^ 61 := Framebuffer.width_small (by omega)
  have hrectWidth : rect.width < 2 ^ 61 := Framebuffer.width_small (by omega)
  refine ⟨⟨hselfEq, hselfLt⟩, ⟨hrectEq, hrectLt⟩, ⟨asIsize_of_lt ?_, hwidth⟩, ?_⟩
  · omega
  · exact ⟨asIsize_of_lt (by omega), hrectWidth⟩

/-- One turn of the loop, if the rectangle touches the framebuffer. -/
lemma Drawn.loop_turn {row : ℤ} (h : Drawn self offsetX offsetY rect row t)
    (htouches : Touches self offsetX rect) (hfirst : firstRow offsetY ≤ row)
    (hlast : row < lastRow self offsetY rect) :
    ∃ t', t.copyRow offsetX offsetY rect (max (-offsetX) 0)
        (min (asIsize self.width - offsetX) (asIsize rect.width)) row = .ok t' ∧
      Drawn self offsetX offsetY rect (row + 1) t' := by
  obtain ⟨left, a, n, hclip⟩ := exists_clip htouches
  obtain ⟨⟨hheight, hheightLt⟩, ⟨hrectHeight, -⟩, ⟨hwidth, -⟩, ⟨hrectWidth, -⟩⟩ :=
    sizes_of_rows (hfirst.trans_lt hlast)
  rw [hwidth, hrectWidth, hclip.min_eq, hclip.max_eq]
  rw [lastRow, hheight, hrectHeight] at hlast
  rw [firstRow] at hfirst
  obtain ⟨v, rfl⟩ := Int.eq_ofNat_of_zero_le (show 0 ≤ row by omega)
  obtain ⟨u, hu⟩ := Int.eq_ofNat_of_zero_le (show 0 ≤ offsetY + (v : ℤ) by omega)
  exact h.turn hclip hu (by omega) (by omega) (by omega)

/-- The loop draws all of its rows. -/
lemma copyFromRect_drawn (hfit : OffsetsFit self offsetX offsetY)
    (h : RowsApart self offsetY rect ∨ Touches self offsetX rect) :
    ∃ result row, self.copyFromRect offsetX offsetY rect = .ok result ∧
      lastRow self offsetY rect ≤ row ∧ Drawn self offsetX offsetY rect row result := by
  rw [copyFromRect_of_fit hfit]
  by_cases hrows : firstRow offsetY < lastRow self offsetY rect
  · have htouches := h.resolve_left fun hapart => absurd (rowsApart_iff.mp hapart) (not_le.mpr hrows)
    have hfirst : Drawn self offsetX offsetY rect (firstRow offsetY + ((0 : ℕ) : ℤ)) self := by
      rw [Nat.cast_zero, add_zero]
      exact Drawn.refl
    have hturn : ∀ i t, 0 ≤ i → i < 0 + (lastRow self offsetY rect - firstRow offsetY).toNat →
        Drawn self offsetX offsetY rect (firstRow offsetY + (i : ℤ)) t →
        ∃ u, t.copyRow offsetX offsetY rect (max (-offsetX) 0)
            (min (asIsize self.width - offsetX) (asIsize rect.width))
            (firstRow offsetY + (i : ℤ)) = .ok u ∧
          Drawn self offsetX offsetY rect (firstRow offsetY + ((i + 1 : ℕ) : ℤ)) u := by
      intro i t _ hi ht
      rw [Nat.cast_succ, ← add_assoc]
      exact ht.loop_turn htouches (by omega) (by omega)
    obtain ⟨result, hrun, hdrawn⟩ := CountedLoop.run_total
      (fun i t => Drawn self offsetX offsetY rect (firstRow offsetY + (i : ℤ)) t) hturn hfirst
    exact ⟨result, _, hrun, by omega, hdrawn⟩
  · have hcount : (lastRow self offsetY rect - firstRow offsetY).toNat = 0 := by omega
    rw [hcount]
    exact ⟨self, firstRow offsetY, CountedLoop.run_zero, not_lt.mp hrows, Drawn.refl⟩

/-- What has been drawn down to the last row is a copy of the whole rectangle. -/
lemma Drawn.blits {row : ℤ} (h : Drawn self offsetX offsetY rect row result)
    (hlast : lastRow self offsetY rect ≤ row) : Blits self offsetX offsetY rect result := by
  refine ⟨h.width, h.height, h.length, ?_, ?_, h.spare⟩
  · intro x hx y hy u hu v hv hxu hyv
    obtain ⟨old, hold⟩ := Framebuffer.pixel_of_lt hx hy
    obtain ⟨color, hcolor⟩ := Framebuffer.pixel_of_lt hu hv
    have hrow : (y : ℤ) - offsetY < row := by
      have hheight := Framebuffer.height_small (x.zero_le.trans_lt hx)
      have hrectHeight := Framebuffer.height_small (u.zero_le.trans_lt hu)
      rw [lastRow, asIsize_of_lt (by omega), asIsize_of_lt (by omega)] at hlast
      omega
    have hpoint : Raster.upTo rect.image row (x - offsetX) (y - offsetY) = some color := by
      rw [Raster.upTo_of_lt hrow, Framebuffer.image_of_eq hxu hyv, hcolor]
    rw [← Framebuffer.image_of_eq rfl rfl, h.image, hcolor]
    exact Raster.blit_of_some ((Framebuffer.image_of_eq rfl rfl).trans hold) hpoint
  · intro x _ y _ hnone
    have hpoint := Framebuffer.image_eq_none hnone
    rw [← Framebuffer.image_of_eq rfl rfl, h.image, Raster.blit_of_none (Raster.upTo_of_none hpoint),
      Framebuffer.image_of_eq rfl rfl]

/-- **A rectangle that touches the framebuffer is drawn in it, as far as it is in it.** -/
lemma copyFromRect_blits (hfit : OffsetsFit self offsetX offsetY)
    (h : RowsApart self offsetY rect ∨ Touches self offsetX rect) :
    ∃ result, self.copyFromRect offsetX offsetY rect = .ok result ∧
      Blits self offsetX offsetY rect result := by
  obtain ⟨result, row, hresult, hlast, hdrawn⟩ := copyFromRect_drawn hfit h
  exact ⟨result, hresult, hdrawn.blits hlast⟩

/-! ## The range to slice with -/

/-- A row can be copied only if the range is not inverted, and does not wrap around. -/
lemma touches_of_copyRow {row : ℤ} (hwidth : self.width < 2 ^ 61)
    (h : self.copyRow offsetX offsetY rect (max (-offsetX) 0)
      (min (self.width - offsetX) rect.width) row = .ok result) : Touches self offsetX rect := by
  obtain ⟨_, -, h⟩ := Checked.bind_eq_ok.mp h
  obtain ⟨_, -, h⟩ := Checked.bind_eq_ok.mp h
  obtain ⟨left, hleft, h⟩ := Checked.bind_eq_ok.mp h
  obtain ⟨right, hright, h⟩ := Checked.bind_eq_ok.mp h
  obtain ⟨_, hrange, -⟩ := Checked.bind_eq_ok.mp h
  obtain ⟨hle, hend⟩ := ensure_eq_ok hrange
  obtain ⟨-, rfl⟩ := isizeAdd_eq_ok.mp hleft
  obtain ⟨hin, rfl⟩ := isizeAdd_eq_ok.mp hright
  have hpos : 0 ≤ offsetX + min ((self.width : ℤ) - offsetX) rect.width := by
    by_contra hneg
    have hhuge := asUsize_of_neg (not_le.mp hneg) hin
    omega
  have hleftPos : 0 ≤ offsetX + max (-offsetX) 0 := by omega
  rw [asUsize_of_nonneg hleftPos, asUsize_of_nonneg hpos] at hle
  constructor
  · omega
  · omega

/-- **The rectangle is drawn if and only if it touches the framebuffer from left to right, or has no row
to copy.**  For all sizes and all offsets of which the differences fit into an `isize`: each pixel of the
framebuffer that is in the rectangle gets the color that is there, and all others are as they were.
Otherwise the first row is sliced with a range that is inverted, or that ends at a huge number. -/
theorem Framebuffer.copyFromRect_blits_iff (hfit : OffsetsFit self offsetX offsetY) :
    (∃ result, self.copyFromRect offsetX offsetY rect = .ok result ∧
      Blits self offsetX offsetY rect result) ↔
        RowsApart self offsetY rect ∨ Touches self offsetX rect := by
  refine ⟨?_, copyFromRect_blits hfit⟩
  rintro ⟨result, hresult, -⟩
  by_cases hrows : lastRow self offsetY rect ≤ firstRow offsetY
  · exact .inl (rowsApart_iff.mpr hrows)
  · obtain ⟨-, -, ⟨hwidth, hsmall⟩, ⟨hrectWidth, -⟩⟩ := sizes_of_rows (not_le.mp hrows)
    have hcount : 0 < (lastRow self offsetY rect - firstRow offsetY).toNat := by omega
    rw [copyFromRect_of_fit hfit, hwidth, hrectWidth] at hresult
    obtain ⟨_, hfirst⟩ := CountedLoop.first_of_run hcount hresult
    exact .inr (touches_of_copyRow hsmall hfirst)

/-- A framebuffer of one color. -/
def Framebuffer.filled (width height : ℕ) (color : BitVec 32) (h : width < 2 ^ 16)
    (h' : height < 2 ^ 16) : Framebuffer where
  ptr := .replicate (width * height) color
  width := width
  height := height
  width_lt := h.trans (by decide)
  height_lt := h'.trans (by decide)
  fits := by rw [List.length_replicate]
  ptr_lt := by
    have hlt : width * height < 2 ^ 16 * 2 ^ 16 := Nat.mul_lt_mul'' h h'
    rw [List.length_replicate]
    omega

/-- A screen of 4 × 3 pixels. -/
def smallScreen : Framebuffer := .filled 4 3 0 (by decide) (by decide)

/-- A window of 2 × 2 pixels. -/
def smallWindow : Framebuffer := .filled 2 2 7 (by decide) (by decide)

/-- The window overhangs to the left. -/
theorem Framebuffer.copyFromRect_blits_overhang :
    ∃ result, smallScreen.copyFromRect (-1) 1 smallWindow = .ok result ∧
      Blits smallScreen (-1) 1 smallWindow result := by
  have hfit : OffsetsFit smallScreen (-1) 1 := ⟨by decide, by decide, by decide, by decide⟩
  have htouches : Touches smallScreen (-1) smallWindow := ⟨by decide, by decide⟩
  exact (Framebuffer.copyFromRect_blits_iff hfit).mpr (.inr htouches)

/-- The window has been moved out to the right, and the rows are there. -/
theorem Framebuffer.not_copyFromRect_blits :
    OffsetsFit smallScreen 5 1 ∧ ¬ ∃ result,
      smallScreen.copyFromRect 5 1 smallWindow = .ok result ∧
        Blits smallScreen 5 1 smallWindow result := by
  refine ⟨⟨by decide, by decide, by decide, by decide⟩, ?_⟩
  rintro ⟨result, hresult, -⟩
  have herror : smallScreen.copyFromRect 5 1 smallWindow =
      .error (.indexOutOfBounds .copyFromRect) := rfl
  rw [herror] at hresult
  cases hresult

end Deravel
