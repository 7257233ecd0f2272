import DeravelOs.Apps.ImageViewer
import DeravelOs.Lib.Chunks

/-!
# The PPM format

A picture has colors between 0 and its `maxval`, and a file is the picture with a header in front, whose
numbers are separated in any way that the format allows.  The image viewer reads each such file back,
except that it multiplies the width before it looks at the height: without any rows, the width of a file
is not bounded by its length.

* `Ppm`: a picture, with its raster.
* `PpmHeader`, `Ppm.file`: a way to write the header, and the file.
* `ppmParse_file`: what the parser does with a file.
* `Ppm.reads_iff`: it reads the picture if and only if its sizes fit.
-/

namespace Deravel

/-! ## Headers -/

/-- A byte of white space, or a comment up to the end of its line. -/
inductive Blank
  | whitespace (b : UInt8) (h : isAsciiWhitespace b = true)
  | comment (text : List UInt8) (h : newline ∉ text)

def Blank.bytes : Blank → List UInt8
  | .whitespace b _ => [b]
  | .comment text _ => numberSign :: (text ++ [newline])

/-- What stands in front of a number. -/
structure Separator where
  first : Blank
  others : List Blank

def Separator.bytes (s : Separator) : List UInt8 := s.first.bytes ++ s.others.flatMap Blank.bytes

/-- A number in decimal, with any zeros in front. -/
structure Numeral (n : ℕ) where
  text : List UInt8
  ne_nil : text ≠ []
  digits : ∀ d ∈ text, isAsciiDigit d = true
  value_eq : Decimal.value (text.map digitValue) = n

/-! ## Pictures -/

/-- The three samples of a pixel. -/
structure PpmPixel (maxval : ℕ) where
  red : Fin (maxval + 1)
  green : Fin (maxval + 1)
  blue : Fin (maxval + 1)

/-- A picture, row by row. -/
structure Ppm where
  width : ℕ
  height : ℕ
  maxval : ℕ
  maxval_pos : 0 < maxval
  maxval_lt : maxval < 65536
  pixels : List (PpmPixel maxval)
  length_eq : pixels.length = height * width

/-- One byte for a sample, or two with the most significant one in front. -/
def sampleBytes (maxval sample : ℕ) : List UInt8 :=
  if maxval < 256 then [UInt8.ofNat sample]
  else [UInt8.ofNat (sample / 256), UInt8.ofNat (sample % 256)]

def PpmPixel.bytes {maxval : ℕ} (p : PpmPixel maxval) : List UInt8 :=
  sampleBytes maxval p.red ++ (sampleBytes maxval p.green ++ sampleBytes maxval p.blue)

def Ppm.raster (p : Ppm) : List UInt8 := p.pixels.flatMap PpmPixel.bytes

/-- A way to write the header of a picture. -/
structure PpmHeader (p : Ppm) where
  beforeWidth : Separator
  width : Numeral p.width
  beforeHeight : Separator
  height : Numeral p.height
  beforeMaxval : Separator
  maxval : Numeral p.maxval
  single : UInt8
  isWhitespace : isAsciiWhitespace single = true

/-- A file with the picture, and anything behind it. -/
def Ppm.file (p : Ppm) (header : PpmHeader p) (trailing : List UInt8) : List UInt8 :=
  ppmRawMagic ++ (header.beforeWidth.bytes ++ (header.width.text ++
    (header.beforeHeight.bytes ++ (header.height.text ++ (header.beforeMaxval.bytes ++
      (header.maxval.text ++ header.single :: (p.raster ++ trailing)))))))

/-- The parser returns the picture, and each of its pixels has the color that it has in the picture. -/
def Ppm.Reads (p : Ppm) (file : List UInt8) : Prop :=
  ∃ image, ppmParse file = .ok image ∧
    image = ⟨p.width, p.height, p.maxval, sampleSizeOf p.maxval, p.raster⟩ ∧
    ∀ x < p.width, ∀ y < p.height, ∃ pixel r g b, p.pixels[y * p.width + x]? = some pixel ∧
      image.rgb x y = .ok (r, g, b) ∧ r.toNat = pixel.red * 255 / p.maxval ∧
        g.toNat = pixel.green * 255 / p.maxval ∧ b.toNat = pixel.blue * 255 / p.maxval

variable {p : Ppm} {rest : List UInt8} {n : ℕ} {b : UInt8} {skipped : Bool}

/-! ## The parts of a header -/

lemma Blank.skip (blank : Blank) :
    skipBlanks false skipped (blank.bytes ++ rest) = skipBlanks false true rest := by
  cases blank with
  | whitespace b h => exact skipBlanks_whitespace h
  | comment text h =>
      rw [Blank.bytes, List.cons_append, skipBlanks_numberSign, List.append_assoc,
        List.singleton_append, skipBlanks_comment h]

lemma Separator.skip (s : Separator) (h : isAsciiDigit b = true) :
    ppmParseWhitespaceAndComments (s.bytes ++ b :: rest) = .ok (b :: rest) := by
  have hothers : ∀ others : List Blank,
      skipBlanks false true (others.flatMap Blank.bytes ++ b :: rest) = .ok (b :: rest) := by
    intro others
    induction others with
    | nil => exact skipBlanks_digit h
    | cons blank others ih => rw [List.flatMap_cons, List.append_assoc, blank.skip, ih]
  rw [ppmParseWhitespaceAndComments, Separator.bytes, List.append_assoc, s.first.skip, hothers]

/-- There is a byte that is no digit. -/
def EndsNumber (rest : List UInt8) : Prop := ∃ b tail, rest = b :: tail ∧ isAsciiDigit b = false

lemma endsNumber_of_whitespace (h : isAsciiWhitespace b = true) : EndsNumber (b :: rest) :=
  ⟨b, rest, rfl, isAsciiDigit_of_whitespace h⟩

lemma Separator.endsNumber (s : Separator) : EndsNumber (s.bytes ++ rest) := by
  obtain ⟨first, others⟩ := s
  cases first with
  | whitespace b h => exact ⟨b, _, rfl, isAsciiDigit_of_whitespace h⟩
  | comment text h => exact ⟨numberSign, _, rfl, rfl⟩

/-- A number of the header, if it is a `usize`. -/
def fitting (n : ℕ) : Checked ℕ := if n < usizeRange then .ok n else .error (.unwrap .ppmParseNumber)

lemma fitting_of_lt (h : n < usizeRange) : fitting n = .ok n := if_pos h

lemma fitting_eq_ok {m : ℕ} (h : fitting n = .ok m) : n < usizeRange ∧ m = n := by
  rw [fitting] at h
  split at h
  · next hlt =>
      cases h
      exact ⟨hlt, rfl⟩
  · cases h

lemma Numeral.read (numeral : Numeral n) (hrest : EndsNumber rest) :
    ppmParseNumber (numeral.text ++ rest) = fitting n >>= fun number => pure (number, rest) := by
  obtain ⟨b, tail, rfl, hstop⟩ := hrest
  rw [ppmParseNumber_text numeral.digits numeral.ne_nil hstop, numeral.value_eq, fitting]
  split
  · rfl
  · rfl

/-- A separator, and a number behind it. -/
lemma Separator.number {α : Type} (s : Separator) (numeral : Numeral n) (hrest : EndsNumber rest)
    (f : ℕ × List UInt8 → Checked α) :
    (ppmParseWhitespaceAndComments (s.bytes ++ (numeral.text ++ rest)) >>= fun image =>
      ppmParseNumber image >>= f) = fitting n >>= fun number => f (number, rest) := by
  have hskip : ppmParseWhitespaceAndComments (s.bytes ++ (numeral.text ++ rest)) =
      .ok (numeral.text ++ rest) := by
    obtain ⟨text, hne, hdigits, -⟩ := numeral
    cases text with
    | nil => exact absurd rfl hne
    | cons d text => exact s.skip (hdigits d List.mem_cons_self)
  rw [hskip, Checked.ok_bind, numeral.read hrest]
  cases fitting n with
  | error e => rfl
  | ok number => rfl

/-! ## The raster -/

lemma sampleSizeOf_pos (maxval : ℕ) : 0 < sampleSizeOf maxval := by
  rw [sampleSizeOf]
  split
  · exact Nat.one_pos
  · exact Nat.two_pos

lemma sampleSizeOf_le (maxval : ℕ) : sampleSizeOf maxval ≤ 2 := by
  rw [sampleSizeOf]
  split
  · exact one_le_two
  · exact le_rfl

@[simp] lemma length_sampleBytes (maxval sample : ℕ) :
    (sampleBytes maxval sample).length = sampleSizeOf maxval := by
  rw [sampleBytes, sampleSizeOf]
  split
  · rfl
  · rfl

lemma PpmPixel.length_bytes {maxval : ℕ} (pixel : PpmPixel maxval) :
    pixel.bytes.length = 3 * sampleSizeOf maxval := by
  simp only [PpmPixel.bytes, List.length_append, length_sampleBytes]
  omega

lemma Ppm.length_raster (p : Ppm) :
    p.raster.length = p.height * (p.width * (3 * sampleSizeOf p.maxval)) := by
  rw [Ppm.raster, Chunks.length_flatMap PpmPixel.length_bytes, p.length_eq, Nat.mul_assoc]

/-- The bytes of a pixel stand where its number of pixels are in front of it. -/
lemma Ppm.drop_raster {i : ℕ} {pixel : PpmPixel p.maxval} (h : p.pixels[i]? = some pixel) :
    p.raster.drop (i * (3 * sampleSizeOf p.maxval)) =
      pixel.bytes ++ (p.pixels.drop (i + 1)).flatMap PpmPixel.bytes := by
  obtain ⟨hi, rfl⟩ := List.getElem?_eq_some_iff.mp h
  rw [Ppm.raster, Chunks.drop_flatMap PpmPixel.length_bytes, List.drop_eq_getElem_cons hi,
    List.flatMap_cons]

/-- **A sample is scaled to a byte.** -/
lemma Ppm.ppmSample_sampleBytes (p : Ppm) (sample : Fin (p.maxval + 1)) :
    ∃ value, ppmSample (sampleBytes p.maxval sample) p.maxval = .ok value ∧
      value.toNat = sample * 255 / p.maxval := by
  have hpos := p.maxval_pos
  have hlt := p.maxval_lt
  have hle : sample.val ≤ p.maxval := Nat.le_of_lt_succ sample.isLt
  refine ⟨UInt8.ofNat (sample * 255 / p.maxval), ?_, ?_⟩
  · by_cases hbyte : p.maxval < 256
    · have hbytes : sampleBytes p.maxval sample = [UInt8.ofNat sample] := if_pos hbyte
      have hsample : sample.val % 256 = sample := Nat.mod_eq_of_lt (by omega)
      simp [ppmSample, hbytes, hsample, hpos.ne', pure, Except.pure]
    · have hbytes : sampleBytes p.maxval sample =
          [UInt8.ofNat (sample / 256), UInt8.ofNat (sample % 256)] := if_neg hbyte
      have hsample : sample.val / 256 % 256 * 256 + sample.val % 256 = sample := by omega
      simp [ppmSample, hbytes, hsample, hpos.ne', pure, Except.pure]
  · have hscaled : sample * 255 / p.maxval ≤ 255 :=
      Nat.div_le_of_le_mul (Nat.mul_le_mul_right 255 hle)
    rw [UInt8.toNat_ofNat']
    exact Nat.mod_eq_of_lt (by omega)

/-! ## Files -/

/-- **Of the header, only the sizes can be out of range.** -/
lemma ppmParse_file (header : PpmHeader p) (trailing : List UInt8) :
    ppmParse (p.file header trailing) = fitting p.width >>= fun width =>
      fitting p.height >>= fun height =>
        ppmParseRaster width height (sampleSizeOf p.maxval) (p.raster ++ trailing) >>= fun parts =>
          pure ⟨width, height, p.maxval, sampleSizeOf p.maxval, parts.1⟩ := by
  have hmaxval : p.maxval < usizeRange := p.maxval_lt.trans (by decide)
  rw [ppmParse, Ppm.file, ppmParseMagic_append, Checked.ok_bind,
    Separator.number _ _ header.beforeHeight.endsNumber]
  cases fitting p.width with
  | error e => rfl
  | ok width =>
      rw [Checked.ok_bind, Checked.ok_bind]
      dsimp only
      rw [Separator.number _ _ header.beforeMaxval.endsNumber]
      cases fitting p.height with
      | error e => rfl
      | ok height =>
          rw [Checked.ok_bind, Checked.ok_bind]
          dsimp only
          rw [Separator.number _ _ (endsNumber_of_whitespace header.isWhitespace),
            fitting_of_lt hmaxval, Checked.ok_bind]
          dsimp only
          rw [ensure_pos p.maxval_pos, Checked.ok_bind, ensure_pos p.maxval_lt, Checked.ok_bind,
            ppmParseSingleWhitespace_cons header.isWhitespace, Checked.ok_bind]

/-- **The colors of an image are the samples of its pixels, scaled to bytes.** -/
lemma Ppm.rgb_of_lt {x y : ℕ} (hsmall : p.raster.length < 2 ^ 63) (hx : x < p.width)
    (hy : y < p.height) :
    ∃ pixel r g b, p.pixels[y * p.width + x]? = some pixel ∧
      Image.rgb ⟨p.width, p.height, p.maxval, sampleSizeOf p.maxval, p.raster⟩ x y =
        .ok (r, g, b) ∧ r.toNat = pixel.red * 255 / p.maxval ∧
      g.toNat = pixel.green * 255 / p.maxval ∧ b.toNat = pixel.blue * 255 / p.maxval := by
  have hrows : (y + 1) * p.width ≤ p.height * p.width := Nat.mul_le_mul_right _ hy
  have hin : y * p.width + x < p.pixels.length := by
    rw [Nat.succ_mul] at hrows
    rw [p.length_eq]
    omega
  have hpixel := List.getElem?_eq_getElem hin
  obtain ⟨r, hr, hrValue⟩ := p.ppmSample_sampleBytes p.pixels[y * p.width + x].red
  obtain ⟨g, hg, hgValue⟩ := p.ppmSample_sampleBytes p.pixels[y * p.width + x].green
  obtain ⟨b, hb, hbValue⟩ := p.ppmSample_sampleBytes p.pixels[y * p.width + x].blue
  refine ⟨_, r, g, b, hpixel, ?_, hrValue, hgValue, hbValue⟩
  have hraster := Ppm.drop_raster hpixel
  rw [PpmPixel.bytes, List.append_assoc, List.append_assoc] at hraster
  exact Image.rgb_of_samples hsmall hraster (length_sampleBytes _ _) (length_sampleBytes _ _)
    (length_sampleBytes _ _) (sampleSizeOf_pos _) hr hg hb

/-- **A file is read as the picture that was written, if and only if its sizes fit**: those of a row in
bytes, and the height.  This is so for every picture, every header of it with comments and blanks as the
format allows them, and whatever is behind the pixels.  The sizes fit if the picture has any pixels, since
the file is shorter than 2^63; without any, `width * 3` can overflow where the row is never read. -/
theorem Ppm.reads_iff (header : PpmHeader p) (trailing : List UInt8)
    (h : (p.file header trailing).length < 2 ^ 63) :
    p.Reads (p.file header trailing) ↔
      p.width * (3 * sampleSizeOf p.maxval) < 2 ^ 64 ∧ p.height < 2 ^ 64 := by
  constructor
  · rintro ⟨image, hparse, -⟩
    rw [ppmParse_file] at hparse
    obtain ⟨width, hwidth, hparse⟩ := Checked.bind_eq_ok.mp hparse
    obtain ⟨height, hheight, hparse⟩ := Checked.bind_eq_ok.mp hparse
    obtain ⟨parts, hraster, -⟩ := Checked.bind_eq_ok.mp hparse
    obtain ⟨-, rfl⟩ := fitting_eq_ok hwidth
    refine ⟨?_, (fitting_eq_ok hheight).1⟩
    by_contra hrow
    obtain ⟨e, he⟩ := ppmParseRaster_overflow (Nat.not_lt.mp hrow) height (p.raster ++ trailing)
    rw [he] at hraster
    cases hraster
  · rintro ⟨hrow, hheight⟩
    have hpixel : 0 < 3 * sampleSizeOf p.maxval := Nat.mul_pos (by decide) (sampleSizeOf_pos _)
    have hwidth : p.width < usizeRange := (Nat.le_mul_of_pos_right _ hpixel).trans_lt hrow
    have hsmall : p.raster.length < 2 ^ 63 := by
      simp only [Ppm.file, List.length_append, List.length_cons] at h
      omega
    refine ⟨_, ?_, rfl, fun x hx y hy => Ppm.rgb_of_lt hsmall hx hy⟩
    rw [ppmParse_file, fitting_of_lt hwidth, Checked.ok_bind, fitting_of_lt hheight, Checked.ok_bind,
      ppmParseRaster_append (sampleSizeOf_le _) hrow p.length_raster (by omega)]
    rfl

/-! ## Two files -/

/-- One line feed. -/
def lineFeed : Separator := ⟨.whitespace newline rfl, []⟩

/-- A picture of one pixel, with two bytes for each sample. -/
def onePixel : Ppm where
  width := 1
  height := 1
  maxval := 300
  maxval_pos := by decide
  maxval_lt := by decide
  pixels := [⟨300, 0, 150⟩]
  length_eq := rfl

/-- Its header has a comment, and zeros in front of the width. -/
def onePixelHeader : PpmHeader onePixel where
  beforeWidth := ⟨.comment [71] (by decide), [.whitespace 32 rfl]⟩
  width := ⟨[48, 48, 49], by decide, by decide, rfl⟩
  beforeHeight := lineFeed
  height := ⟨[49], by decide, by decide, rfl⟩
  beforeMaxval := lineFeed
  maxval := ⟨[51, 48, 48], by decide, by decide, rfl⟩
  single := 10
  isWhitespace := rfl

theorem Ppm.reads_onePixel : onePixel.Reads (onePixel.file onePixelHeader [10]) :=
  (Ppm.reads_iff onePixelHeader [10] (by decide)).mpr ⟨by decide, by decide⟩

/-- A picture without rows, whose width in bytes is not below 2^64. -/
def wideEmpty : Ppm where
  width := 6148914691236517206
  height := 0
  maxval := 255
  maxval_pos := by decide
  maxval_lt := by decide
  pixels := []
  length_eq := rfl

def wideEmptyHeader : PpmHeader wideEmpty where
  beforeWidth := lineFeed
  width := ⟨[54, 49, 52, 56, 57, 49, 52, 54, 57, 49, 50, 51, 54, 53, 49, 55, 50, 48, 54], by decide,
    by decide, rfl⟩
  beforeHeight := lineFeed
  height := ⟨[48], by decide, by decide, rfl⟩
  beforeMaxval := lineFeed
  maxval := ⟨[50, 53, 53], by decide, by decide, rfl⟩
  single := 10
  isWhitespace := rfl

/-- The parser panics. -/
theorem Ppm.not_reads : ¬ wideEmpty.Reads (wideEmpty.file wideEmptyHeader []) := by
  rintro ⟨image, hparse, -⟩
  have herror : ppmParse (wideEmpty.file wideEmptyHeader []) =
      .error (.overflow .ppmParseRaster) := rfl
  rw [herror] at hparse
  cases hparse

end Deravel
