import DeravelOs.Apps.Framebuffer

/-!
# Filling framebuffers

More of `kernel-api/src/framebuffer.rs`: pixels of one color, everywhere or in a rectangle.  Each
function has some checks and then overwrites stretches of the memory.

* `Framebuffer.fill`, `fillRect`: the functions.
* `Paints`: which pixels a function changes, and to what; everything else is as it was.
* `fill_paints`, `fillRect_paints`: the functions return if their arguments are in order, and this is
  what they do.
-/

namespace Deravel

/-! ## The functions of the source -/

/-- `bgra` -/
def bgra (r g b a : UInt8) : BitVec 32 :=
  b.toBitVec.zeroExtend 32 ||| g.toBitVec.zeroExtend 32 <<< 8 |||
    r.toBitVec.zeroExtend 32 <<< 16 ||| a.toBitVec.zeroExtend 32 <<< 24

namespace Framebuffer

/-- `fill` -/
def fill (self : Framebuffer) (r g b a : UInt8) : Framebuffer :=
  self.overwrite 0 (.replicate self.ptr.length (bgra r g b a))

/-- Where `rows` slices. -/
def rowsRange (self : Framebuffer) (yStart yEnd : ℕ) : Checked (ℕ × ℕ) := do
  ensure (yStart ≤ yEnd) (.assertion .framebufferRows)
  ensure (yEnd ≤ self.height) (.assertion .framebufferRows)
  let start ← uintMul 64 .framebufferRows yStart self.width
  let stop ← uintMul 64 .framebufferRows yEnd self.width
  ensure (start ≤ stop ∧ stop ≤ self.ptr.length) (.indexOutOfBounds .framebufferRows)
  pure (start, stop)

/-- The body of the loop of `fill_rect`, for one of the chunks of `rect`. -/
def fillChunk (self : Framebuffer) (start xStart xEnd : ℕ) (color : BitVec 32) (chunk : ℕ) :
    Checked Framebuffer := do
  ensure (xStart ≤ xEnd ∧ xEnd ≤ self.width) (.indexOutOfBounds .fillRect)
  pure (self.overwrite (start + chunk * self.width + xStart) (.replicate (xEnd - xStart) color))

/-- `fill_rect`.  What it asserts, `rect` asserts once more. -/
def fillRect (self : Framebuffer) (xStart yStart xEnd yEnd : ℕ) (r g b a : UInt8) :
    Checked Framebuffer := do
  ensure (xStart ≤ xEnd) (.assertion .fillRect)
  ensure (xEnd ≤ self.width) (.assertion .fillRect)
  ensure (yStart ≤ yEnd) (.assertion .fillRect)
  ensure (yEnd ≤ self.height) (.assertion .fillRect)
  let (start, stop) ← self.rowsRange yStart yEnd
  -- `chunks_mut` wants chunks that are not empty
  ensure (self.width ≠ 0) (.explicit .fillRect)
  CountedLoop.run (fun self chunk => self.fillChunk start xStart xEnd (bgra r g b a) chunk) 0
    ((stop - start) / self.width) self

end Framebuffer

/-! ## Painting -/

/-- `result` is `target` with new colors at some of its pixels. -/
structure Paints (target : Framebuffer) (color : ℕ → ℕ → Option (BitVec 32)) (result : Framebuffer) :
    Prop where
  width : result.width = target.width
  height : result.height = target.height
  length : result.ptr.length = target.ptr.length
  pixel : ∀ x < target.width, ∀ y < target.height,
    result.pixel x y = (color x y).or (target.pixel x y)

/-- One color for the pixels in some columns and rows. -/
def rectangle (xStart yStart xEnd yEnd : ℕ) (color : BitVec 32) : ℕ → ℕ → Option (BitVec 32) :=
  fun x y => if (xStart ≤ x ∧ x < xEnd) ∧ yStart ≤ y ∧ y < yEnd then some color else none

variable {self result target middle : Framebuffer} {color color' : ℕ → ℕ → Option (BitVec 32)}
  {x y u left rows n : ℕ} {r g b a : UInt8} {value : BitVec 32}

namespace Paints

/-- Nothing is painted. -/
lemma refl : Paints self (fun _ _ => none) self where
  width := rfl
  height := rfl
  length := rfl
  pixel := by
    intro x _ y _
    simp

lemma congr (h : Paints target color result)
    (hsame : ∀ x < target.width, ∀ y < target.height, color x y = color' x y) :
    Paints target color' result where
  width := h.width
  height := h.height
  length := h.length
  pixel := by
    intro x hx y hy
    rw [h.pixel x hx y hy, hsame x hx y hy]

/-- What is painted later covers what was painted before. -/
lemma trans (h : Paints target color middle) (h' : Paints middle color' result) :
    Paints target (fun x y => (color' x y).or (color x y)) result where
  width := h'.width.trans h.width
  height := h'.height.trans h.height
  length := h'.length.trans h.length
  pixel := by
    intro x hx y hy
    rw [h'.pixel x (by rwa [h.width]) y (by rwa [h.height]), h.pixel x hx y hy, Option.or_assoc]

lemma pixel_of_none (h : Paints target color result) (hx : x < target.width) (hy : y < target.height)
    (hnone : color x y = none) : result.pixel x y = target.pixel x y := by
  rw [h.pixel x hx y hy, hnone, Option.none_or]

lemma pixel_of_some (h : Paints target color result) (hx : x < target.width) (hy : y < target.height)
    (hsome : color x y = some value) : result.pixel x y = some value := by
  rw [h.pixel x hx y hy, hsome, Option.some_or]

end Paints

/-- A drawn rectangle is painted. -/
lemma Blits.paints {offsetX offsetY : ℤ} {rect : Framebuffer}
    (h : Blits target offsetX offsetY rect result) :
    Paints target (fun x y => rect.image (x - offsetX) (y - offsetY)) result where
  width := h.width
  height := h.height
  length := h.length
  pixel := by
    intro x hx y hy
    by_cases hin : ∃ u < rect.width, ∃ v < rect.height, (x : ℤ) - offsetX = u ∧ (y : ℤ) - offsetY = v
    · obtain ⟨u, hu, v, hv, hxu, hyv⟩ := hin
      obtain ⟨value, hvalue⟩ := Framebuffer.pixel_of_lt hu hv
      rw [h.copied x hx y hy u hu v hv hxu hyv, Framebuffer.image_of_eq hxu hyv, hvalue, Option.some_or]
    · push Not at hin
      have hout : ∀ u < rect.width, ∀ v < rect.height,
          ¬ ((x : ℤ) - offsetX = u ∧ (y : ℤ) - offsetY = v) := by
        rintro u hu v hv ⟨hxu, hyv⟩
        exact hin u hu v hv hxu hyv
      rw [h.kept x hx y hy hout, Framebuffer.image_eq_none hout, Option.none_or]

/-! ## Stretches of memory -/

/-- A part of one row. -/
lemma paints_row {source : List (BitVec 32)} (hend : left + source.length ≤ self.width)
    (hu : u < self.height) :
    Paints self (fun x y => if y = u ∧ left ≤ x then source[x - left]? else none)
      (self.overwrite (u * self.width + left) source) where
  width := rfl
  height := rfl
  length := Raster.length_overwrite _ _ _
  pixel := by
    intro x hx y hy
    by_cases hin : y = u ∧ left ≤ x ∧ x < left + source.length
    · obtain ⟨rfl, hle, hlt⟩ := hin
      have hindex : x - left < source.length := by omega
      rw [pixel_overwrite_inside hle hlt hend hu, if_pos ⟨rfl, hle⟩, List.getElem?_eq_getElem hindex,
        Option.some_or]
    · rw [pixel_overwrite_outside hend hin]
      split
      · next hin' =>
          have hnone : source[x - left]? = none := List.getElem?_eq_none (by omega)
          rw [hnone, Option.none_or]
      · rw [Option.none_or]

/-! ## What the functions do -/

namespace Framebuffer

/-- The rows up to some row are in the memory. -/
lemma rows_le (h : y ≤ self.height) : y * self.width ≤ self.ptr.length := by
  have hle : y * self.width ≤ self.height * self.width := Nat.mul_le_mul_right _ h
  rw [Nat.mul_comm self.height] at hle
  exact hle.trans self.fits

/-- The product of a row and the width is one of the memory. -/
lemma uintMul_of_row {site : Site} (h : y ≤ self.height) :
    uintMul 64 site y self.width = .ok (y * self.width) := by
  have hle := rows_le h
  have hptr := self.ptr_lt
  exact uintMul_eq_ok.mpr ⟨by omega, rfl⟩

variable {xStart yStart xEnd yEnd : ℕ}

lemma rowsRange_of_le (hle : yStart ≤ yEnd) (hend : yEnd ≤ self.height) :
    self.rowsRange yStart yEnd = .ok (yStart * self.width, yEnd * self.width) := by
  have hbound := rows_le hend
  have hrange : yStart * self.width ≤ yEnd * self.width ∧ yEnd * self.width ≤ self.ptr.length :=
    ⟨Nat.mul_le_mul_right _ hle, hbound⟩
  rw [rowsRange, ensure_pos hle, Checked.ok_bind, ensure_pos hend, Checked.ok_bind,
    uintMul_of_row (hle.trans hend), Checked.ok_bind, uintMul_of_row hend, Checked.ok_bind,
    ensure_pos hrange, Checked.ok_bind]
  rfl

/-- One more row of a rectangle. -/
lemma fillChunk_paints {chunk : ℕ} (value : BitVec 32) (hx : xStart ≤ xEnd) (hxEnd : xEnd ≤ self.width)
    (hrow : yStart + chunk < self.height) :
    ∃ result, self.fillChunk (yStart * self.width) xStart xEnd value chunk = .ok result ∧
      Paints self (rectangle xStart (yStart + chunk) xEnd (yStart + chunk + 1) value) result := by
  refine ⟨self.overwrite ((yStart + chunk) * self.width + xStart) (.replicate (xEnd - xStart) value),
    ?_, ?_⟩
  · rw [fillChunk, ensure_pos ⟨hx, hxEnd⟩, Checked.ok_bind, ← Nat.add_mul]
    rfl
  · refine (paints_row ?_ hrow).congr ?_
    · rw [List.length_replicate]
      omega
    · intro x _ y _
      simp only [rectangle, List.getElem?_replicate]
      by_cases hin : (xStart ≤ x ∧ x < xEnd) ∧ yStart + chunk ≤ y ∧ y < yStart + chunk + 1
      · rw [if_pos hin, if_pos (by omega), if_pos (by omega)]
      · rw [if_neg hin]
        split
        · rw [if_neg (by omega)]
        · rfl

lemma fillRect_paints (hwidth : 0 < self.width) (hx : xStart ≤ xEnd) (hxEnd : xEnd ≤ self.width)
    (hy : yStart ≤ yEnd) (hyEnd : yEnd ≤ self.height) :
    ∃ result, self.fillRect xStart yStart xEnd yEnd r g b a = .ok result ∧
      Paints self (rectangle xStart yStart xEnd yEnd (bgra r g b a)) result := by
  have hcount : (yEnd * self.width - yStart * self.width) / self.width = yEnd - yStart := by
    rw [← Nat.sub_mul, Nat.mul_div_cancel _ hwidth]
  have hturn : ∀ i t, 0 ≤ i → i < 0 + (yEnd - yStart) →
      Paints self (rectangle xStart yStart xEnd (yStart + i) (bgra r g b a)) t →
      ∃ t', t.fillChunk (yStart * self.width) xStart xEnd (bgra r g b a) i = .ok t' ∧
        Paints self (rectangle xStart yStart xEnd (yStart + (i + 1)) (bgra r g b a)) t' := by
    intro i t _ hi ht
    have hrow : yStart + i < t.height := by
      rw [ht.height]
      omega
    obtain ⟨t', hfill, hpaints⟩ := fillChunk_paints (bgra r g b a) hx
      (by rw [ht.width]; exact hxEnd) hrow
    rw [ht.width] at hfill
    refine ⟨t', hfill, (ht.trans hpaints).congr ?_⟩
    intro x _ y _
    simp only [rectangle]
    split
    · rw [Option.some_or, if_pos (by omega)]
    · rw [Option.none_or]
      congr 1
      exact propext ⟨fun h => by omega, fun h => by omega⟩
  have hstart : Paints self (rectangle xStart yStart xEnd (yStart + 0) (bgra r g b a)) self := by
    refine Paints.refl.congr ?_
    intro x _ y _
    rw [rectangle, if_neg (by omega)]
  obtain ⟨result, hrun, hpaints⟩ := CountedLoop.run_total
    (fun i t => Paints self (rectangle xStart yStart xEnd (yStart + i) (bgra r g b a)) t) hturn hstart
  refine ⟨result, ?_, ?_⟩
  · rw [fillRect, ensure_pos hx, Checked.ok_bind, ensure_pos hxEnd, Checked.ok_bind, ensure_pos hy,
      Checked.ok_bind, ensure_pos hyEnd, Checked.ok_bind, rowsRange_of_le hy hyEnd, Checked.ok_bind]
    dsimp only
    rw [ensure_pos (Nat.pos_iff_ne_zero.mp hwidth), Checked.ok_bind, hcount]
    exact hrun
  · rw [Nat.zero_add, Nat.add_sub_cancel' hy] at hpaints
    exact hpaints

end Framebuffer

end Deravel
