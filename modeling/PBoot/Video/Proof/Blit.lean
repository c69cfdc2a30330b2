import PBoot.Video.Console

/-!
# Redrawing

`redraw_iff`: the framebuffer shows the text, from glyphs of the atlas only, if and only if no cell
holds 128, the first character behind the font, which the test for such characters lets through.
-/

namespace PBoot

open Bytes Arrays

/-- What the framebuffer should show at `(px, py)`. -/
def Vidconsole.pixel (font : Mem) (c : Vidconsole) (px py : Nat) : BitVec 32 :=
  let pos := py / (fontHeight * c.scale) * c.w + px / (fontWidth * c.scale)
  let ch := (c.screen.getD pos 0).toNat
  let glyph := if ch < fontChars then ch else 63
  let row := (font (glyph * fontHeight + py / c.scale % fontHeight)).toBitVec
  if row.getLsbD (7 - px / c.scale % fontWidth) then c.fgColor.getD pos 0 else c.bgColor.getD pos 0

/-- A redraw writes every pixel and only these, as the cell says, and reads glyphs of the atlas only. -/
structure Drawn (font : Mem) (c : Vidconsole) (fb : Nat → BitVec 32) : Prop where
  pixels : ∀ px < c.fbWidth, ∀ py < c.fbHeight,
    vidconsoleRedraw c fb (py * c.fbWidth + px) = c.pixel font px py
  reads : ∀ k ∈ c.copies, k.src < atlasSize c.scale
  written : ∀ i, i < c.fbHeight * c.fbWidth ↔ ∃ k ∈ c.copies, k.dst = i

/-! ## Sizes -/

/-- The framebuffer has less than 4 GiB. -/
structure Fits (w h scale : Nat) : Prop where
  w_pos : 1 ≤ w
  h_pos : 1 ≤ h
  scale_pos : 1 ≤ scale
  bytes : w * fontWidth * scale * 4 * (h * fontHeight * scale) < 2 ^ 32

section
variable {w h scale : Nat}

theorem Fits.pixels (hf : Fits w h scale) : h * 16 * scale * (w * 8 * scale) < 2 ^ 30 := by
  have hb := hf.bytes
  unfold fontWidth fontHeight at hb
  have : w * 8 * scale * 4 * (h * 16 * scale) = 4 * (h * 16 * scale * (w * 8 * scale)) := by ring
  omega

theorem Fits.width_pos (hf : Fits w h scale) : 0 < w * 8 * scale :=
  Nat.mul_pos (Nat.mul_pos hf.w_pos (by decide)) hf.scale_pos

theorem Fits.height_pos (hf : Fits w h scale) : 0 < h * 16 * scale :=
  Nat.mul_pos (Nat.mul_pos hf.h_pos (by decide)) hf.scale_pos

theorem Fits.width_lt (hf : Fits w h scale) : w * 8 * scale < 2 ^ 30 :=
  (Nat.le_mul_of_pos_left _ hf.height_pos).trans_lt hf.pixels

theorem Fits.height_lt (hf : Fits w h scale) : h * 16 * scale < 2 ^ 30 :=
  (Nat.le_mul_of_pos_right _ hf.width_pos).trans_lt hf.pixels

theorem Fits.scale_lt (hf : Fits w h scale) : scale < 2 ^ 12 := by
  by_contra hs
  have h1 : 16 * 2 ^ 12 ≤ h * 16 * scale :=
    Nat.mul_le_mul (Nat.le_mul_of_pos_left _ hf.h_pos) (not_lt.1 hs)
  have h2 : 8 * 2 ^ 12 ≤ w * 8 * scale :=
    Nat.mul_le_mul (Nat.le_mul_of_pos_left _ hf.w_pos) (not_lt.1 hs)
  have := (Nat.mul_le_mul h1 h2).trans_lt hf.pixels
  omega

theorem Fits.cells (hf : Fits w h scale) : w * h < 2 ^ 32 := by
  have hle : w * h ≤ h * 16 * scale * (w * 8 * scale) := by
    rw [Nat.mul_comm w h]
    refine Nat.mul_le_mul ?_ ?_
    · rw [Nat.mul_assoc]
      exact Nat.le_mul_of_pos_right _ (Nat.mul_pos (by decide) hf.scale_pos)
    · rw [Nat.mul_assoc]
      exact Nat.le_mul_of_pos_right _ (Nat.mul_pos (by decide) hf.scale_pos)
  have := hf.pixels
  omega

theorem Fits.charStride (hf : Fits w h scale) : charStride scale = 8 * scale := by
  have := hf.scale_lt
  unfold PBoot.charStride fontWidth
  exact u32_of_lt (by omega)

theorem Fits.charSize (hf : Fits w h scale) : charSize scale = 16 * (8 * scale) := by
  have := hf.scale_lt
  unfold PBoot.charSize fontHeight
  rw [hf.charStride, u32_of_lt (by omega), Nat.mul_comm]

theorem Fits.atlasSize (hf : Fits w h scale) : atlasSize scale = 128 * (16 * (8 * scale)) := by
  have := hf.scale_lt
  unfold PBoot.atlasSize fontChars
  rw [hf.charSize, u32_of_lt (by omega)]
  omega

end

/-! ## The atlas -/

section
variable {font : Mem} {w h scale : Nat} {heap : Nat → BitVec 32}

/-- A pixel of the atlas. -/
def mask (b : Bool) : BitVec 32 := if b then 0xffffffff else 0

theorem vbsl_mask (b : Bool) (x y : BitVec 32) : vbsl (mask b) x y = if b then x else y := by
  have hones : (0xffffffff : BitVec 32) = BitVec.allOnes 32 := rfl
  unfold vbsl mask
  rw [hones]
  cases b
  · exact (congrArg₂ _ BitVec.zero_and BitVec.allOnes_and).trans BitVec.zero_or
  · rw [if_pos rfl, BitVec.not_allOnes, BitVec.allOnes_and, BitVec.zero_and, BitVec.or_zero,
      if_pos rfl]

theorem and_0x80 (ln : BitVec 8) :
    (if ln &&& 0x80 ≠ 0 then 0xffffffff else 0) = mask (ln.getLsbD 7) := by
  revert ln
  decide

theorem getLsbD_shiftLeft_one {ln : BitVec 8} {j : Nat} (h : j < 7) :
    (ln <<< 1).getLsbD (7 - j) = ln.getLsbD (7 - (j + 1)) := by
  rw [BitVec.getLsbD_shiftLeft]
  simp [show 7 - j < 8 by omega, show 7 - j - 1 = 7 - (j + 1) by omega, show ¬ 7 - j < 1 by omega]

/-- The loop shifts the line to the left, so its pixel `j` is bit `7 - j`. -/
theorem mem_glyphLine {ch y n x : Nat} {ln : BitVec 8} {p : Nat × BitVec 32} (hn : n ≤ 8) :
    p ∈ glyphLine scale ch y n x ln ↔ ∃ j < n, ∃ s < scale,
      p = (u32 (ch * charSize scale + y * charStride scale + scale * (x + j) + s),
        mask (ln.getLsbD (7 - j))) := by
  induction n generalizing x ln with
  | zero => simp [glyphLine]
  | succ n ih =>
    rw [glyphLine, List.mem_append, ih (by omega), List.mem_map]
    constructor
    · rintro (⟨s, hs, rfl⟩ | ⟨j, hj, s, hs, rfl⟩)
      · exact ⟨0, by omega, s, List.mem_range.1 hs, by rw [and_0x80]; rfl⟩
      · refine ⟨j + 1, by omega, s, hs, ?_⟩
        rw [getLsbD_shiftLeft_one (by omega), Nat.add_assoc x 1 j, Nat.add_comm 1 j]
    · rintro ⟨j, hj, s, hs, rfl⟩
      rcases j with _ | j
      · exact .inl ⟨s, List.mem_range.2 hs, by rw [and_0x80]; rfl⟩
      · refine .inr ⟨j, by omega, s, hs, ?_⟩
        rw [getLsbD_shiftLeft_one (by omega), Nat.add_assoc x 1 j, Nat.add_comm 1 j]

/-- What the atlas should hold at an offset. -/
def atlasPixel (font : Mem) (scale i : Nat) : BitVec 32 :=
  let line := i % (16 * (8 * scale))
  mask ((font (i / (16 * (8 * scale)) * 16 + line / (8 * scale))).toBitVec.getLsbD
    (7 - line % (8 * scale) / scale))

theorem atlasPixel_at (font : Mem) {ch y x : Nat} (hy : y < 16) (hx : x < 8 * scale) :
    atlasPixel font scale (ch * (16 * (8 * scale)) + (y * (8 * scale) + x)) =
      mask ((font (ch * 16 + y)).toBitVec.getLsbD (7 - x / scale)) := by
  have hline : y * (8 * scale) + x < 16 * (8 * scale) := row_lt hy hx
  unfold atlasPixel
  rw [div_row hline, mod_row hline]
  dsimp only
  rw [div_row hx, mod_row hx]

theorem mem_buildAtlas (hf : Fits w h scale) {p : Nat × BitVec 32} :
    p ∈ buildAtlas font scale ↔ ∃ ch < 128, ∃ y < 16, ∃ j < 8, ∃ s < scale,
      p = (ch * (16 * (8 * scale)) + (y * (8 * scale) + (j * scale + s)),
        mask ((font (ch * 16 + y)).toBitVec.getLsbD (7 - j))) := by
  have hs := hf.scale_lt
  simp only [buildAtlas, List.mem_flatMap, List.mem_range, fontChars, fontHeight, fontWidth,
    mem_glyphLine (le_refl 8), hf.charSize, hf.charStride, Nat.zero_add]
  refine exists_congr fun ch => and_congr_right fun hch => exists_congr fun y =>
    and_congr_right fun hy => exists_congr fun j => and_congr_right fun hj => exists_congr fun t =>
    and_congr_right fun ht => ?_
  have hlt := row_lt hch (row_lt hy (row_lt hj ht))
  rw [show ch * (16 * (8 * scale)) + y * (8 * scale) + scale * j + t =
    ch * (16 * (8 * scale)) + (y * (8 * scale) + (j * scale + t)) by ring, u32_of_lt (by omega)]

/-- **The atlas** holds every pixel of the font, `scale` times. -/
theorem store_buildAtlas (hf : Fits w h scale) {ch y x : Nat} (hch : ch < 128) (hy : y < 16)
    (hx : x < 8 * scale) :
    store heap (buildAtlas font scale) (ch * (16 * (8 * scale)) + (y * (8 * scale) + x)) =
      mask ((font (ch * 16 + y)).toBitVec.getLsbD (7 - x / scale)) := by
  have hpos : 0 < scale := hf.scale_pos
  rw [← atlasPixel_at font hy hx]
  refine store_eq (fun p hp => ?_) ?_
  · obtain ⟨ch, -, y, hy, j, hj, s, hs, rfl⟩ := (mem_buildAtlas hf).1 hp
    exact ((atlasPixel_at font hy (row_lt hj hs)).trans (by rw [div_row hs])).symm
  · refine ⟨_, (mem_buildAtlas hf).2 ⟨ch, hch, y, hy, x / scale, Nat.div_lt_of_lt_mul (by
      rwa [Nat.mul_comm]), x % scale, Nat.mod_lt x hpos, rfl⟩, ?_⟩
    simp only [Nat.div_add_mod']

end

/-! ## The copies -/

section
variable {fg bg : BitVec 32} {k : Copy} {w h scale : Nat} {c : Vidconsole}

theorem mem_blitLine {n m dst src : Nat} (hn : m ≤ n) :
    k ∈ blitLine fg bg n dst src (m * 8) ↔
      ∃ j < m * 8, k = { dst := dst + j, src := src + j, fg, bg } := by
  induction m generalizing n dst src with
  | zero => cases n <;> simp [blitLine]
  | succ m ih =>
    obtain ⟨n, rfl⟩ := Nat.exists_eq_add_of_le' (show 1 ≤ n by omega)
    rw [blitLine, if_pos (by omega), show (m + 1) * 8 - 4 * 2 = m * 8 by omega, List.mem_append,
      List.mem_append, ih (by omega)]
    simp only [copy4, List.mem_map, List.mem_range]
    constructor
    · rintro ((⟨j, hj, rfl⟩ | ⟨j, hj, rfl⟩) | ⟨j, hj, rfl⟩)
      · exact ⟨j, by omega, rfl⟩
      · exact ⟨4 + j, by omega, by simp only [Nat.add_assoc]⟩
      · exact ⟨4 * 2 + j, by omega, by simp only [Nat.add_assoc]⟩
    · rintro ⟨j, hj, rfl⟩
      by_cases h4 : j < 4
      · exact .inl (.inl ⟨j, h4, rfl⟩)
      · obtain ⟨j, rfl⟩ := Nat.exists_eq_add_of_le (not_lt.1 h4)
        by_cases h8 : j < 4
        · exact .inl (.inr ⟨j, h8, by simp only [Nat.add_assoc]⟩)
        · obtain ⟨j, rfl⟩ := Nat.exists_eq_add_of_le (not_lt.1 h8)
          exact .inr ⟨j, by omega, by rw [← Nat.add_assoc 4 4 j, Nat.add_assoc dst, Nat.add_assoc src]⟩

/-- The console has its sizes. -/
structure Vidconsole.Sized (c : Vidconsole) : Prop where
  fits : Fits c.w c.h c.scale
  fbWidth : c.fbWidth = c.w * 8 * c.scale
  fbHeight : c.fbHeight = c.h * 16 * c.scale
  screen : c.screen.length = c.w * c.h

theorem glyphOf_le (ch : UInt8) : glyphOf ch ≤ 128 := by
  unfold glyphOf fontChars
  split <;> omega

/-- Characters behind the font are question marks, but for the first one. -/
theorem glyphOf_eq {ch : UInt8} (h : ch ≠ 128) :
    glyphOf ch = if ch.toNat < 128 then ch.toNat else 63 := by
  have hne : ch.toNat ≠ 128 := fun he => h (UInt8.toNat.inj he)
  unfold glyphOf fontChars
  split
  · rw [if_neg (by omega)]
  · rw [if_pos (by omega)]

/-- A cell is drawn line by line. -/
theorem mem_drawCell (hc : c.Sized) {x y : Nat} (hx : x < c.w) (hy : y < c.h) :
    k ∈ c.drawCell x y ↔ ∃ cy < 16, ∃ s < c.scale, ∃ j < 8 * c.scale, k =
      { dst := ((y * 16 + cy) * c.scale + s) * c.fbWidth + (x * (8 * c.scale) + j)
        src := glyphOf (c.screen.getD (y * c.w + x) 0) * (16 * (8 * c.scale)) +
          (cy * (8 * c.scale) + j)
        fg := c.fgColor.getD (y * c.w + x) 0, bg := c.bgColor.getD (y * c.w + x) 0 } := by
  have hf := hc.fits
  have hpix := hf.pixels
  have hfw := hc.fbWidth
  rw [← hfw] at hpix
  have hpos : y * c.w + x < 2 ^ 32 := (row_lt hy hx).trans (Nat.mul_comm c.w c.h ▸ hf.cells)
  -- none of the offsets wraps
  have hrow : c.fbWidth * y * 16 * c.scale < 2 ^ 32 := by
    have hle : y * 16 * c.scale * c.fbWidth ≤ c.h * 16 * c.scale * c.fbWidth := by gcongr
    rw [show c.fbWidth * y * 16 * c.scale = y * 16 * c.scale * c.fbWidth by ring]
    omega
  have hcol : x * (8 * c.scale) < 2 ^ 32 := by
    have hle : x * (8 * c.scale) ≤ c.w * (8 * c.scale) := by gcongr
    have := hf.width_lt
    rw [Nat.mul_assoc] at this
    omega
  have hglyph : 16 * (8 * c.scale) * glyphOf (c.screen.getD (y * c.w + x) 0) < 2 ^ 32 := by
    have hle := glyphOf_le (c.screen.getD (y * c.w + x) 0)
    have := hf.scale_lt
    calc 16 * (8 * c.scale) * glyphOf (c.screen.getD (y * c.w + x) 0)
        ≤ 16 * (8 * c.scale) * 128 := by gcongr
      _ < 2 ^ 32 := by omega
  simp only [Vidconsole.drawCell, List.mem_flatMap, List.mem_range, hf.charSize, hf.charStride,
    fontHeight, u32_of_lt hpos, u32_of_lt hrow, u32_of_lt hcol, u32_of_lt hglyph]
  refine exists_congr fun cy => and_congr_right fun hcy => exists_congr fun s =>
    and_congr_right fun hs => ?_
  have hline : c.fbWidth * (c.scale * cy + s) < 2 ^ 32 := by
    have hlt : cy * c.scale + s < 16 * c.scale := row_lt hcy hs
    have hle : 16 * c.scale ≤ c.h * 16 * c.scale := by
      rw [Nat.mul_assoc]
      exact Nat.le_mul_of_pos_left _ hf.h_pos
    have hle' : (cy * c.scale + s) * c.fbWidth ≤ c.h * 16 * c.scale * c.fbWidth :=
      Nat.mul_le_mul_right _ (by omega)
    rw [show c.fbWidth * (c.scale * cy + s) = (cy * c.scale + s) * c.fbWidth by ring]
    omega
  have hsrc : 8 * c.scale * cy < 2 ^ 32 := by
    have := hf.scale_lt
    calc 8 * c.scale * cy ≤ 8 * c.scale * 16 := by gcongr
      _ < 2 ^ 32 := by omega
  rw [u32_of_lt hline, u32_of_lt hsrc, Nat.mul_comm 8 c.scale, mem_blitLine (by omega)]
  refine exists_congr fun j => and_congr_right fun hj => ?_
  rw [show c.fbWidth * y * 16 * c.scale + x * (c.scale * 8) + c.fbWidth * (c.scale * cy + s) + j =
      ((y * 16 + cy) * c.scale + s) * c.fbWidth + (x * (c.scale * 8) + j) by ring,
    show ∀ g, 16 * (c.scale * 8) * g + c.scale * 8 * cy + j =
      g * (16 * (c.scale * 8)) + (cy * (c.scale * 8) + j) by intro g; ring]

theorem mem_copies (hc : c.Sized) : k ∈ c.copies ↔ ∃ x < c.w, ∃ y < c.h, ∃ cy < 16,
    ∃ s < c.scale, ∃ j < 8 * c.scale, k =
      { dst := ((y * 16 + cy) * c.scale + s) * c.fbWidth + (x * (8 * c.scale) + j)
        src := glyphOf (c.screen.getD (y * c.w + x) 0) * (16 * (8 * c.scale)) +
          (cy * (8 * c.scale) + j)
        fg := c.fgColor.getD (y * c.w + x) 0, bg := c.bgColor.getD (y * c.w + x) 0 } := by
  simp only [Vidconsole.copies, List.mem_flatMap, List.mem_range]
  refine exists_congr fun x => and_congr_right fun hx => exists_congr fun y =>
    and_congr_right fun hy => mem_drawCell hc hx hy

end

/-! ## The picture -/

section
variable {font : Mem} {c : Vidconsole} {x y cy s j : Nat} {fb : Nat → BitVec 32}

theorem column_lt (hc : c.Sized) (hx : x < c.w) (hj : j < 8 * c.scale) :
    x * (8 * c.scale) + j < c.fbWidth := by
  rw [hc.fbWidth, Nat.mul_assoc]
  exact row_lt hx hj

theorem line_lt (hc : c.Sized) (hy : y < c.h) (hcy : cy < 16) (hs : s < c.scale) :
    (y * 16 + cy) * c.scale + s < c.fbHeight := by
  rw [hc.fbHeight]
  exact row_lt (row_lt hy hcy) hs

/-- The position of a pixel in its cell. -/
theorem pixel_at (hcy : cy < 16) (hs : s < c.scale) (hj : j < 8 * c.scale) :
    c.pixel font (x * (8 * c.scale) + j) ((y * 16 + cy) * c.scale + s) =
      let ch := (c.screen.getD (y * c.w + x) 0).toNat
      if (font ((if ch < 128 then ch else 63) * 16 + cy)).toBitVec.getLsbD (7 - j / c.scale) then
        c.fgColor.getD (y * c.w + x) 0
      else c.bgColor.getD (y * c.w + x) 0 := by
  have hpos : 0 < c.scale := by omega
  have hrow : ((y * 16 + cy) * c.scale + s) / (16 * c.scale) = y := by
    rw [show (y * 16 + cy) * c.scale + s = y * (16 * c.scale) + (cy * c.scale + s) by ring]
    exact div_row (row_lt hcy hs)
  have hbit : (x * (8 * c.scale) + j) / c.scale % 8 = j / c.scale := by
    rw [show x * (8 * c.scale) = x * 8 * c.scale by ring, Nat.add_comm, Nat.add_mul_div_right _ _ hpos,
      Nat.add_mul_mod_self_right]
    exact Nat.mod_eq_of_lt (Nat.div_lt_of_lt_mul (by rwa [Nat.mul_comm]))
  unfold Vidconsole.pixel fontHeight fontWidth fontChars
  rw [hrow, div_row hj, div_row hs, mod_row hcy, hbit]

/-- Every pixel is in a cell. -/
theorem exists_cell (hc : c.Sized) {px py : Nat} (hx : px < c.fbWidth) (hy : py < c.fbHeight) :
    ∃ x < c.w, ∃ y < c.h, ∃ cy < 16, ∃ s < c.scale, ∃ j < 8 * c.scale,
      px = x * (8 * c.scale) + j ∧ py = (y * 16 + cy) * c.scale + s := by
  have hpos : 0 < c.scale := hc.fits.scale_pos
  rw [hc.fbWidth, Nat.mul_assoc, Nat.mul_comm] at hx
  rw [hc.fbHeight, Nat.mul_assoc, Nat.mul_comm] at hy
  refine ⟨px / (8 * c.scale), Nat.div_lt_of_lt_mul hx, py / (16 * c.scale), Nat.div_lt_of_lt_mul hy,
    py / c.scale % 16, Nat.mod_lt _ (by decide), py % c.scale, Nat.mod_lt _ hpos,
    px % (8 * c.scale), Nat.mod_lt _ (by omega), (Nat.div_add_mod' _ _).symm, ?_⟩
  rw [Nat.mul_comm 16, ← Nat.div_div_eq_div_mul, Nat.div_add_mod', Nat.div_add_mod']

theorem cell_ne (hc : c.Sized) (hno : ∀ ch ∈ c.screen, ch ≠ 128) (hx : x < c.w) (hy : y < c.h) :
    c.screen.getD (y * c.w + x) 0 ≠ 128 := by
  have hpos : y * c.w + x < c.screen.length := by
    rw [hc.screen, Nat.mul_comm c.w]
    exact row_lt hy hx
  rw [List.getD_eq_getElem?_getD, List.getElem?_eq_getElem hpos]
  exact hno _ (List.getElem_mem hpos)

/-- What a copy stores is what its pixel should show. -/
theorem copy_pixel (hc : c.Sized) {heap : Nat → BitVec 32}
    (ha : c.atlas = store heap (buildAtlas font c.scale)) (hno : ∀ ch ∈ c.screen, ch ≠ 128)
    {k : Copy} (hk : k ∈ c.copies) :
    vbsl (c.atlas k.src) k.fg k.bg = c.pixel font (k.dst % c.fbWidth) (k.dst / c.fbWidth) := by
  obtain ⟨x, hx, y, hy, cy, hcy, s, hs, j, hj, rfl⟩ := (mem_copies hc).1 hk
  dsimp only
  rw [mod_row (column_lt hc hx hj), div_row (column_lt hc hx hj), pixel_at hcy hs hj]
  rw [glyphOf_eq (cell_ne hc hno hx hy), ha, store_buildAtlas hc.fits (by split <;> omega) hcy hj, vbsl_mask]

/-- The copies fill the framebuffer. -/
theorem dst_iff (hc : c.Sized) (i : Nat) :
    i < c.fbHeight * c.fbWidth ↔ ∃ k ∈ c.copies, k.dst = i := by
  constructor
  · intro hi
    have hw : 0 < c.fbWidth := Nat.pos_of_ne_zero fun h0 => by simp [h0] at hi
    obtain ⟨x, hx, y, hy, cy, hcy, s, hs, j, hj, hpx, hpy⟩ := exists_cell hc (Nat.mod_lt i hw)
      (Nat.div_lt_of_lt_mul (by rwa [Nat.mul_comm]))
    refine ⟨_, (mem_copies hc).2 ⟨x, hx, y, hy, cy, hcy, s, hs, j, hj, rfl⟩, ?_⟩
    dsimp only
    rw [← hpx, ← hpy, Nat.div_add_mod']
  · rintro ⟨k, hk, rfl⟩
    obtain ⟨x, hx, y, hy, cy, hcy, s, hs, j, hj, rfl⟩ := (mem_copies hc).1 hk
    exact row_lt (line_lt hc hy hcy hs) (column_lt hc hx hj)

theorem redraw_pixels (hc : c.Sized) {heap : Nat → BitVec 32}
    (ha : c.atlas = store heap (buildAtlas font c.scale)) (hno : ∀ ch ∈ c.screen, ch ≠ 128)
    {px py : Nat} (hx : px < c.fbWidth) (hy : py < c.fbHeight) :
    vidconsoleRedraw c fb (py * c.fbWidth + px) = c.pixel font px py := by
  have hspec : c.pixel font px py =
      (fun i => c.pixel font (i % c.fbWidth) (i / c.fbWidth)) (py * c.fbWidth + px) := by
    dsimp only
    rw [mod_row hx, div_row hx]
  rw [hspec, vidconsoleRedraw]
  refine store_eq (f := fun i => c.pixel font (i % c.fbWidth) (i / c.fbWidth)) (fun p hp => ?_) ?_
  · obtain ⟨k, hk, rfl⟩ := List.mem_map.1 hp
    exact copy_pixel hc ha hno hk
  · obtain ⟨k, hk, he⟩ := (dst_iff hc _).1 (row_lt hy hx)
    exact ⟨_, List.mem_map_of_mem hk, he⟩

theorem reads_iff (hc : c.Sized) :
    (∀ k ∈ c.copies, k.src < atlasSize c.scale) ↔ ∀ ch ∈ c.screen, ch ≠ 128 := by
  rw [hc.fits.atlasSize]
  constructor
  · rintro h ch hch rfl
    obtain ⟨n, hn, he⟩ := List.getElem_of_mem hch
    have hw : 0 < c.w := hc.fits.w_pos
    have hpos : 0 < c.scale := hc.fits.scale_pos
    rw [hc.screen] at hn
    -- the first pixel of that cell
    have hsrc := h _ ((mem_copies hc).2 ⟨n % c.w, Nat.mod_lt n hw, n / c.w, Nat.div_lt_of_lt_mul hn,
      0, by decide, 0, hpos, 0, by omega, rfl⟩)
    dsimp only at hsrc
    rw [Nat.div_add_mod', List.getD_eq_getElem?_getD, List.getElem?_eq_getElem (hc.screen ▸ hn),
      he] at hsrc
    exact absurd hsrc (by simp [glyphOf, fontChars])
  · intro hno k hk
    obtain ⟨x, hx, y, hy, cy, hcy, s, hs, j, hj, rfl⟩ := (mem_copies hc).1 hk
    refine row_lt ?_ (row_lt hcy hj)
    rw [glyphOf_eq (cell_ne hc hno hx hy)]
    split <;> omega

end

/-! ## The console -/

section
variable {font : Mem} {w h scale : Nat} {fg bg : BitVec 32} {screen : List UInt8}
  {fgColor bgColor : List (BitVec 32)}

/-- **The framebuffer shows the text**, whatever memory holds behind the atlas, if and only if no
cell holds the character right behind the font. -/
theorem redraw_iff (hf : Fits w h scale) (hs : screen.length = w * h) :
    (∀ heap fb, Drawn font
      { vidconsoleInit font heap w h scale fg bg with screen, fgColor, bgColor } fb) ↔
      ∀ ch ∈ screen, ch ≠ 128 := by
  have hsized : ∀ heap, Vidconsole.Sized
      { vidconsoleInit font heap w h scale fg bg with screen, fgColor, bgColor } := fun heap =>
    ⟨hf, u32_of_lt (hf.width_lt.trans (by decide)), u32_of_lt (hf.height_lt.trans (by decide)), hs⟩
  constructor
  · exact fun h => (reads_iff (hsized fun _ => 0)).1 (h (fun _ => 0) fun _ => 0).reads
  · intro hno heap fb
    exact ⟨fun px hx py hy => redraw_pixels (hsized heap) rfl hno hx hy,
      (reads_iff (hsized heap)).2 hno, dst_iff (hsized heap)⟩

end

theorem redraw_question : Fits 2 1 1 ∧ ∀ heap fb, Drawn (fun _ => 0x3c)
    { vidconsoleInit (fun _ => 0x3c) heap 2 1 1 7 0 with
      screen := [0x3f, 0xff], fgColor := [7, 7], bgColor := [0, 0] } fb :=
  have hf : Fits 2 1 1 := ⟨by decide, by decide, by decide, by decide⟩
  ⟨hf, (redraw_iff hf rfl).2 (by simp)⟩

/-- A cell with the character behind the font is drawn from behind the atlas. -/
theorem redraw_behind : ¬ ∀ heap fb, Drawn (fun _ => 0)
    { vidconsoleInit (fun _ => 0) heap 1 1 1 7 0 with
      screen := [128], fgColor := [7], bgColor := [0] } fb := by
  intro h
  have hread := (h (fun _ => 0) fun _ => 0).reads { dst := 0, src := 16384, fg := 7, bg := 0 }
    (by decide)
  exact absurd hread (by decide)

end PBoot
