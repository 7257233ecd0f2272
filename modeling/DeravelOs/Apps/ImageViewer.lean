import DeravelOs.Lib.Decimal
import DeravelOs.Types.Slices

/-!
# The image viewer

`apps/src/bin/image_viewer.rs`: an image is read from a file, and its colors from the image.  The
parsers shorten the slice that they are given; here they return what is left of it.

* `ppmParse`: the parser, with one function for each part of the header.
* `Image.rgb`: the color of a pixel.
* `skipBlanks_comment`, `ppmParseNumber_text`, ..: what each of them does in front of other bytes.
-/

namespace Deravel

/-! ## Bytes -/

/-- `PPM_RAW_MAGIC`, that is `P6` -/
def ppmRawMagic : List UInt8 := [80, 54]

/-- `#` -/
def numberSign : UInt8 := 35

/-- `\n` -/
def newline : UInt8 := 10

/-- `u8::is_ascii_whitespace` -/
def isAsciiWhitespace (b : UInt8) : Bool := b == 32 || b == 9 || b == 10 || b == 12 || b == 13

/-- `u8::is_ascii_digit` -/
def isAsciiDigit (b : UInt8) : Bool := 48 ≤ b && b ≤ 57

/-! ## The functions of the source -/

/-- `Image`, of which `PpmRaw` is the only kind -/
structure Image where
  width : ℕ
  height : ℕ
  maxval : ℕ
  sampleSize : ℕ
  raster : List UInt8
  deriving DecidableEq

/-- `ppm_sample`; a division by zero is an overflow. -/
def ppmSample (sample : List UInt8) (maxval : ℕ) : Checked UInt8 := do
  let sample ← match sample with
    | [sample] => pure sample.toNat
    | [msb, lsb] => pure (msb.toNat * 256 + lsb.toNat)
    | _ => throw (.unreachable .ppmSample)
  ensure (maxval ≠ 0) (.overflow .ppmSample)
  pure (UInt8.ofNat (sample * 255 / maxval))

/-- `rgb` -/
def Image.rgb (self : Image) (x y : ℕ) : Checked (UInt8 × UInt8 × UInt8) := do
  let rowStart ← uintMul 64 .imageRgb y self.width
  let rowStart ← uintMul 64 .imageRgb rowStart 3
  let rowStart ← uintMul 64 .imageRgb rowStart self.sampleSize
  let row ← sliceFrom .imageRgb self.raster rowStart
  let pixelStart ← uintMul 64 .imageRgb x 3
  let pixelStart ← uintMul 64 .imageRgb pixelStart self.sampleSize
  let pixel ← sliceFrom .imageRgb row pixelStart
  let red ← sliceTo .imageRgb pixel self.sampleSize
  let r ← ppmSample red self.maxval
  let second ← uintMul 64 .imageRgb 2 self.sampleSize
  let green ← slice .imageRgb pixel self.sampleSize second
  let g ← ppmSample green self.maxval
  let third ← uintMul 64 .imageRgb 3 self.sampleSize
  let blue ← slice .imageRgb pixel second third
  let b ← ppmSample blue self.maxval
  pure (r, g, b)

/-- `ppm_parse_magic` -/
def ppmParseMagic (image : List UInt8) : Checked (List UInt8) := do
  let magic ← sliceTo .ppmParseMagic image ppmRawMagic.length
  ensure (magic = ppmRawMagic) (.assertion .ppmParseMagic)
  sliceFrom .ppmParseMagic image ppmRawMagic.length

/-- The loop of `ppm_parse_whitespace_and_comments`, with `skipped`; in a `comment`, the inner loop is
running.  The `#` is the first byte that the inner loop skips. -/
def skipBlanks : (comment skipped : Bool) → List UInt8 → Checked (List UInt8)
  | _, _, [] => throw (.indexOutOfBounds .ppmParseWhitespaceAndComments)
  | true, skipped, b :: image =>
      if b ≠ newline then skipBlanks true skipped image else skipBlanks false true image
  | false, skipped, b :: image =>
      if isAsciiWhitespace b then skipBlanks false true image
      else if b = numberSign then skipBlanks true skipped image
      else do
        ensure (skipped = true) (.assertion .ppmParseWhitespaceAndComments)
        pure (b :: image)

/-- `ppm_parse_whitespace_and_comments` -/
def ppmParseWhitespaceAndComments (image : List UInt8) : Checked (List UInt8) :=
  skipBlanks false false image

/-- The loop of `ppm_parse_number`. -/
def countDigits : List UInt8 → Checked ℕ
  | [] => throw (.indexOutOfBounds .ppmParseNumber)
  | b :: image =>
      if isAsciiDigit b then do
        let i ← countDigits image
        pure (i + 1)
      else pure 0

/-- The number that a digit stands for. -/
def digitValue (b : UInt8) : ℕ := b.toNat - 48

/-- `parse` of a `usize`, from a text that is made of digits -/
def parseUsize (text : List UInt8) : Option ℕ :=
  if text = [] then none else Decimal.read usizeRange (text.map digitValue)

/-- `ppm_parse_number`; digits are always valid UTF-8. -/
def ppmParseNumber (image : List UInt8) : Checked (ℕ × List UInt8) := do
  let i ← countDigits image
  let text ← sliceTo .ppmParseNumber image i
  match parseUsize text with
  | none => throw (.unwrap .ppmParseNumber)
  | some number => do
      let image ← sliceFrom .ppmParseNumber image i
      pure (number, image)

/-- `ppm_parse_single_whitespace` -/
def ppmParseSingleWhitespace : List UInt8 → Checked (List UInt8)
  | [] => throw (.indexOutOfBounds .ppmParseSingleWhitespace)
  | b :: image => do
      ensure (isAsciiWhitespace b = true) (.assertion .ppmParseSingleWhitespace)
      pure image

/-- `ppm_parse_raster` -/
def ppmParseRaster (width height sampleSize : ℕ) (image : List UInt8) :
    Checked (List UInt8 × List UInt8) := do
  let pixelSize ← uintMul 64 .ppmParseRaster 3 sampleSize
  let rowSize ← uintMul 64 .ppmParseRaster width pixelSize
  let imageSize ← uintMul 64 .ppmParseRaster height rowSize
  let raster ← sliceTo .ppmParseRaster image imageSize
  let image ← sliceFrom .ppmParseRaster image imageSize
  pure (raster, image)

/-- The `sample_size` of a `maxval`. -/
def sampleSizeOf (maxval : ℕ) : ℕ := if maxval < 256 then 1 else 2

/-- `ppm_parse` -/
def ppmParse (image : List UInt8) : Checked Image := do
  let image ← ppmParseMagic image
  let image ← ppmParseWhitespaceAndComments image
  let (width, image) ← ppmParseNumber image
  let image ← ppmParseWhitespaceAndComments image
  let (height, image) ← ppmParseNumber image
  let image ← ppmParseWhitespaceAndComments image
  let (maxval, image) ← ppmParseNumber image
  ensure (0 < maxval) (.assertion .ppmParse)
  ensure (maxval < 65536) (.assertion .ppmParse)
  let image ← ppmParseSingleWhitespace image
  let sampleSize := sampleSizeOf maxval
  let (raster, _) ← ppmParseRaster width height sampleSize image
  pure ⟨width, height, maxval, sampleSize, raster⟩

/-- `parse_image` -/
def parseImage (image : List UInt8) : Checked Image := do
  let magic ← sliceTo .parseImage image ppmRawMagic.length
  if magic = ppmRawMagic then ppmParse image else throw (.explicit .parseImage)

variable {text rest : List UInt8} {b : UInt8} {skipped : Bool}

/-! ## The header -/

lemma isAsciiDigit_of_whitespace (h : isAsciiWhitespace b = true) : isAsciiDigit b = false := by
  simp only [isAsciiWhitespace, Bool.or_eq_true, beq_iff_eq] at h
  rcases h with (((rfl | rfl) | rfl) | rfl) | rfl
  · rfl
  · rfl
  · rfl
  · rfl
  · rfl

/-- A digit is the end of a separator. -/
lemma not_blank_of_isAsciiDigit (h : isAsciiDigit b = true) :
    isAsciiWhitespace b = false ∧ b ≠ numberSign := by
  constructor
  · by_contra hblank
    rw [Bool.not_eq_false] at hblank
    rw [isAsciiDigit_of_whitespace hblank] at h
    cases h
  · rintro rfl
    cases h

lemma ppmParseMagic_append : ppmParseMagic (ppmRawMagic ++ rest) = .ok rest := by
  rw [ppmParseMagic, sliceTo_append rest rfl, Checked.ok_bind, ensure_pos rfl, Checked.ok_bind,
    sliceFrom_append rest rfl]

lemma skipBlanks_whitespace (h : isAsciiWhitespace b = true) :
    skipBlanks false skipped (b :: rest) = skipBlanks false true rest := by
  rw [skipBlanks, if_pos h]

lemma skipBlanks_numberSign :
    skipBlanks false skipped (numberSign :: rest) = skipBlanks true skipped rest := rfl

/-- The inner loop ends behind the first newline. -/
lemma skipBlanks_comment (h : newline ∉ text) :
    skipBlanks true skipped (text ++ newline :: rest) = skipBlanks false true rest := by
  induction text with
  | nil => rfl
  | cons b text ih =>
      rw [List.mem_cons, not_or] at h
      obtain ⟨hb, htext⟩ := h
      rw [List.cons_append, skipBlanks, if_pos (Ne.symm hb), ih htext]

lemma skipBlanks_digit (h : isAsciiDigit b = true) :
    skipBlanks false true (b :: rest) = .ok (b :: rest) := by
  obtain ⟨hspace, hsign⟩ := not_blank_of_isAsciiDigit h
  rw [skipBlanks, if_neg (by rw [hspace]; exact Bool.false_ne_true), if_neg hsign]
  rfl

/-- The digits end where another byte is. -/
lemma countDigits_append (hdigits : ∀ d ∈ text, isAsciiDigit d = true)
    (hstop : isAsciiDigit b = false) : countDigits (text ++ b :: rest) = .ok text.length := by
  induction text with
  | nil => simp [countDigits, hstop, pure, Except.pure]
  | cons d text ih =>
      obtain ⟨hd, htext⟩ := List.forall_mem_cons.mp hdigits
      rw [List.cons_append, countDigits, if_pos hd, ih htext]
      rfl

/-- The number is read if it is a `usize`. -/
lemma ppmParseNumber_text (hdigits : ∀ d ∈ text, isAsciiDigit d = true) (htext : text ≠ [])
    (hstop : isAsciiDigit b = false) :
    ppmParseNumber (text ++ b :: rest) =
      if Decimal.value (text.map digitValue) < usizeRange then
        .ok (Decimal.value (text.map digitValue), b :: rest)
      else .error (.unwrap .ppmParseNumber) := by
  rw [ppmParseNumber, countDigits_append hdigits hstop, Checked.ok_bind, sliceTo_append _ rfl,
    Checked.ok_bind, parseUsize, if_neg htext, Decimal.read_eq (by decide)]
  by_cases hvalue : Decimal.value (text.map digitValue) < usizeRange
  · simp only [if_pos hvalue, sliceFrom_append _ rfl, Checked.ok_bind]
    rfl
  · simp only [if_neg hvalue]
    rfl

lemma ppmParseSingleWhitespace_cons (h : isAsciiWhitespace b = true) :
    ppmParseSingleWhitespace (b :: rest) = .ok rest := by
  rw [ppmParseSingleWhitespace, ensure_pos h]
  rfl

/-! ## The raster -/

section Raster

variable {width height sampleSize maxval x y : ℕ} {raster red green blue : List UInt8}

/-- The raster is cut off if the size of a row fits. -/
lemma ppmParseRaster_append (hsample : sampleSize ≤ 2) (hrow : width * (3 * sampleSize) < 2 ^ 64)
    (hlength : raster.length = height * (width * (3 * sampleSize)))
    (hsmall : raster.length < 2 ^ 64) :
    ppmParseRaster width height sampleSize (raster ++ rest) = .ok (raster, rest) := by
  have hpixel : 3 * sampleSize < 2 ^ 64 := by omega
  have himage : height * (width * (3 * sampleSize)) < 2 ^ 64 := hlength ▸ hsmall
  rw [ppmParseRaster, uintMul_eq_ok.mpr ⟨hpixel, rfl⟩, Checked.ok_bind,
    uintMul_eq_ok.mpr ⟨hrow, rfl⟩, Checked.ok_bind, uintMul_eq_ok.mpr ⟨himage, rfl⟩,
    Checked.ok_bind, sliceTo_append rest hlength, Checked.ok_bind, sliceFrom_append rest hlength]
  rfl

/-- Otherwise the parser panics, also if the image has no rows. -/
lemma ppmParseRaster_overflow (hrow : 2 ^ 64 ≤ width * (3 * sampleSize)) (height : ℕ)
    (rest : List UInt8) : ∃ e, ppmParseRaster width height sampleSize rest = .error e := by
  rw [ppmParseRaster]
  cases hpixel : uintMul 64 .ppmParseRaster 3 sampleSize with
  | error e => exact ⟨e, rfl⟩
  | ok pixelSize =>
      obtain ⟨-, rfl⟩ := uintMul_eq_ok.mp hpixel
      rw [Checked.ok_bind, uintMul_overflow hrow]
      exact ⟨_, rfl⟩

/-- The color of a pixel, from its three samples. -/
lemma Image.rgb_of_samples {image : Image} {r g b : UInt8}
    (hsmall : image.raster.length < 2 ^ 63)
    (hraster : image.raster.drop ((y * image.width + x) * (3 * image.sampleSize)) =
      red ++ (green ++ (blue ++ rest)))
    (hred : red.length = image.sampleSize) (hgreen : green.length = image.sampleSize)
    (hblue : blue.length = image.sampleSize) (hpos : 0 < image.sampleSize)
    (hr : ppmSample red image.maxval = .ok r) (hg : ppmSample green image.maxval = .ok g)
    (hb : ppmSample blue image.maxval = .ok b) : image.rgb x y = .ok (r, g, b) := by
  -- nothing is larger than the place of the pixel, which is in the raster
  have hplace : (y * image.width + x) * (3 * image.sampleSize) =
      y * image.width * 3 * image.sampleSize + x * 3 * image.sampleSize := by ring
  have hlength := congrArg List.length hraster
  simp only [List.length_drop, List.length_append, hred, hgreen, hblue] at hlength
  have hrowSample : y * image.width * 3 ≤ y * image.width * 3 * image.sampleSize :=
    Nat.le_mul_of_pos_right _ hpos
  have hpixelSample : x * 3 ≤ x * 3 * image.sampleSize := Nat.le_mul_of_pos_right _ hpos
  have hend : y * image.width * 3 * image.sampleSize + x * 3 * image.sampleSize +
      3 * image.sampleSize ≤ image.raster.length := by
    omega
  have hrow : y * image.width * 3 * image.sampleSize ≤ image.raster.length := by omega
  have hpixel : x * 3 * image.sampleSize ≤
      (image.raster.drop (y * image.width * 3 * image.sampleSize)).length := by
    rw [List.length_drop]
    omega
  have hpixelEq : (image.raster.drop (y * image.width * 3 * image.sampleSize)).drop
      (x * 3 * image.sampleSize) = red ++ (green ++ (blue ++ rest)) := by
    rw [List.drop_drop, ← hplace, hraster]
  have hgreenEnd : image.sampleSize + green.length = 2 * image.sampleSize := by omega
  have hblueStart : (red ++ green).length = 2 * image.sampleSize := by
    rw [List.length_append]
    omega
  have hblueEnd : 2 * image.sampleSize + blue.length = 3 * image.sampleSize := by omega
  rw [Image.rgb, uintMul_eq_ok.mpr ⟨by omega, rfl⟩, Checked.ok_bind,
    uintMul_eq_ok.mpr ⟨by omega, rfl⟩, Checked.ok_bind, uintMul_eq_ok.mpr ⟨by omega, rfl⟩,
    Checked.ok_bind, sliceFrom_of_le hrow, Checked.ok_bind, uintMul_eq_ok.mpr ⟨by omega, rfl⟩,
    Checked.ok_bind, uintMul_eq_ok.mpr ⟨by omega, rfl⟩, Checked.ok_bind, sliceFrom_of_le hpixel,
    Checked.ok_bind, hpixelEq, sliceTo_append _ hred, Checked.ok_bind, hr, Checked.ok_bind,
    uintMul_eq_ok.mpr ⟨by omega, rfl⟩, Checked.ok_bind, slice_append _ hred hgreenEnd,
    Checked.ok_bind, hg, Checked.ok_bind, uintMul_eq_ok.mpr ⟨by omega, rfl⟩, Checked.ok_bind,
    ← List.append_assoc red, slice_append _ hblueStart hblueEnd, Checked.ok_bind, hb]
  rfl

end Raster

end Deravel
