import PBoot.Lib.Arrays
import PBoot.Lib.Bytes

/-!
# The text console (`vidconsole.c`)

Sizes, positions and offsets are 32-bit (`u32`), pointers are not. The glyphs are unpacked once, into
the atlas; a redraw copies them from there, eight pixels at a time. What is stored is a list of
`Copy`s, so that the offsets that are read can be told apart from what is found there.
-/

namespace PBoot

open Bytes Arrays

/-- `FONT_WIDTH`, `FONT_HEIGHT` and `FONT_CHARS`. -/
def fontWidth : Nat := 8
def fontHeight : Nat := 16
def fontChars : Nat := 128

/-- `struct vidconsole`; `atlas` is what memory holds from the pointer on. -/
structure Vidconsole where
  w : Nat
  h : Nat
  size : Nat
  scale : Nat
  fbPitch : Nat
  fbWidth : Nat
  fbHeight : Nat
  atlas : Nat → BitVec 32
  screen : List UInt8
  fgColor : List (BitVec 32)
  bgColor : List (BitVec 32)
  cursor : Nat

/-! ## `vidconsole_init` -/

/-- In pixels. -/
def charStride (scale : Nat) : Nat := u32 (fontWidth * scale)
def charSize (scale : Nat) : Nat := u32 (charStride scale * fontHeight)

/-- `char_size * FONT_CHARS`, what `malloc` gets for the atlas, in pixels. -/
def atlasSize (scale : Nat) : Nat := u32 (charSize scale * fontChars * 4) / 4

/-- A line of a glyph from pixel `x` on: the stores of the loop for some pixels. -/
def glyphLine (scale ch y : Nat) : Nat → Nat → BitVec 8 → List (Nat × BitVec 32)
  | 0, _, _ => []
  | n + 1, x, lnData =>
    let pix : BitVec 32 := if lnData &&& 0x80 ≠ 0 then 0xffffffff else 0
    ((List.range scale).map fun s =>
      (u32 (ch * charSize scale + y * charStride scale + scale * x + s), pix)) ++
    glyphLine scale ch y n (x + 1) (lnData <<< 1)

/-- The stores that build the atlas from the unpacked font. -/
def buildAtlas (font : Mem) (scale : Nat) : List (Nat × BitVec 32) :=
  (List.range fontChars).flatMap fun ch => (List.range fontHeight).flatMap fun y =>
    glyphLine scale ch y fontWidth 0 (font (ch * fontHeight + y)).toBitVec

/-- `heap` is what the memory of the atlas and behind it holds before. -/
def vidconsoleInit (font : Mem) (heap : Nat → BitVec 32) (w h scale : Nat) (fg bg : BitVec 32) :
    Vidconsole :=
  let size := u32 (w * h)
  let fbWidth := u32 (w * fontWidth * scale)
  { w, h, size, scale, fbWidth, fbHeight := u32 (h * fontHeight * scale), fbPitch := u32 (fbWidth * 4)
    atlas := store heap (buildAtlas font scale), screen := List.replicate size 0x20
    fgColor := List.replicate size fg, bgColor := List.replicate size bg, cursor := 0 }

/-! ## `vidconsole_redraw` -/

/-- A pixel of the atlas that is drawn, in two colours. -/
structure Copy where
  dst : Nat
  src : Nat
  fg : BitVec 32
  bg : BitVec 32
  deriving DecidableEq

/-- `vbslq_u32`, on a lane. -/
def vbsl (mask a b : BitVec 32) : BitVec 32 := mask &&& a ||| ~~~mask &&& b

/-- A load, a selection and a store of a vector. -/
def copy4 (fg bg : BitVec 32) (dst src : Nat) : List Copy :=
  (List.range 4).map fun i => { dst := dst + i, src := src + i, fg, bg }

/-- The loop over a line of a glyph, for at most `k` rounds. -/
def blitLine (fg bg : BitVec 32) : Nat → Nat → Nat → Nat → List Copy
  | 0, _, _, _ => []
  | k + 1, dst, src, len =>
    if 4 * 2 ≤ len then
      copy4 fg bg dst src ++ copy4 fg bg (dst + 4) (src + 4) ++
        blitLine fg bg k (dst + 4 * 2) (src + 4 * 2) (len - 4 * 2)
    else []

/-- The character that is drawn for `ch`. -/
def glyphOf (ch : UInt8) : Nat := if fontChars < ch.toNat then 63 else ch.toNat

/-- The cell in column `x` and row `y`. -/
def Vidconsole.drawCell (c : Vidconsole) (x y : Nat) : List Copy :=
  let pos := u32 (y * c.w + x)
  let ch := glyphOf (c.screen.getD pos 0)
  let conP := u32 (c.fbWidth * y * fontHeight * c.scale) + u32 (x * charStride c.scale)
  (List.range fontHeight).flatMap fun cy => (List.range c.scale).flatMap fun s =>
    let dst := conP + u32 (c.fbWidth * (c.scale * cy + s))
    let src := u32 (charSize c.scale * ch) + u32 (charStride c.scale * cy)
    blitLine (c.fgColor.getD pos 0) (c.bgColor.getD pos 0) (charStride c.scale) dst src
      (charStride c.scale)

def Vidconsole.copies (c : Vidconsole) : List Copy :=
  (List.range c.w).flatMap fun x => (List.range c.h).flatMap fun y => c.drawCell x y

/-- The framebuffer after `vidconsole_redraw`; `fb` is what it held before. -/
def vidconsoleRedraw (c : Vidconsole) (fb : Nat → BitVec 32) : Nat → BitVec 32 :=
  store fb (c.copies.map fun k => (k.dst, vbsl (c.atlas k.src) k.fg k.bg))

/-! ## `vidconsole_putc` -/

/-- A row scrolls off; none when a store is outside the screen. -/
def Vidconsole.scroll (c : Vidconsole) : Option Vidconsole :=
  let last := u32 (c.w * (c.h - 1))
  (memcpy c.screen 0 c.w last).bind fun screen =>
    (memset screen last 0 c.w).map fun screen => { c with screen, cursor := last }

/-- `c->screen[c->cursor++] = ch`. -/
def Vidconsole.store (c : Vidconsole) (ch : UInt8) : Option Vidconsole :=
  (put c.screen c.cursor ch).map fun screen => { c with screen, cursor := u32 (c.cursor + 1) }

def vidconsolePutc (c : Vidconsole) (ch : UInt8) : Option Vidconsole :=
  if ch = 0x0d then some c
  else
    let c := if ch = 0x0a then { c with cursor := u32 (c.cursor + (c.w - c.cursor % c.w)) } else c
    let scrolled := if c.size ≤ c.cursor then c.scroll else some c
    if ch = 0x0a then scrolled else scrolled.bind (·.store ch)

end PBoot
