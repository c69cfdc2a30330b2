import PBoot.Lib.Bytes

/-!
# Showing the planes (`display_commit` in `display.c`)

`displayCommit resize d` is what one call writes, for a build with or without `DE2_RESIZE`. The
computations are on `u32` and `int`, as in the source and wrapping, and a division by zero yields
zero. `displayCommitChecked` is the same with no result where the source divides by zero, which C
leaves undefined.
-/

namespace PBoot

open Bytes

/-- `PANEL_WIDTH` and `PANEL_HEIGHT`. -/
def panelWidth : Int := 720
def panelHeight : Int := 1440

/-- `struct display_plane`. -/
structure DisplayPlane where
  fbStart : BitVec 32
  fbPitch : BitVec 32
  srcX : BitVec 32
  srcY : BitVec 32
  srcW : BitVec 32
  srcH : BitVec 32
  /-- An `int32_t`, as `dstY` is. -/
  dstX : BitVec 32
  dstY : BitVec 32
  dstW : BitVec 32
  dstH : BitVec 32
  alpha : BitVec 32

structure Display where
  planes : List DisplayPlane
  count : planes.length = 3

/-! ## Clipping -/

def clamp (v lo hi : Int) : Int := min (max v lo) hi

/-- A `u32` as an `int`. -/
def toInt (n : Nat) : Int := wrapInt n

/-- One direction of a clipped plane. -/
@[ext]
structure Clip where
  dst : Nat
  dstLen : Nat
  src : Nat
  srcLen : Nat

/-- The computations for `x` and `w`, and for `y` and `h`. -/
def clip (panel : Int) (dst dstLen src srcLen : BitVec 32) : Clip :=
  let o := u32 (-min dst.toInt 0).toNat
  let d := u32 (clamp dst.toInt 0 panel).toNat
  let len := u32 (clamp (wrapInt (dstLen.toInt - toInt o)) 0 (panel - toInt d)).toNat
  { dst := d, dstLen := len, src := u32 (src.toNat + u32 (o * srcLen.toNat) / dstLen.toNat)
    srcLen := u32 (len * srcLen.toNat) / dstLen.toNat }

def DisplayPlane.clipX (p : DisplayPlane) : Clip := clip panelWidth p.dstX p.dstW p.srcX p.srcW
def DisplayPlane.clipY (p : DisplayPlane) : Clip := clip panelHeight p.dstY p.dstH p.srcY p.srcH

/-- `fb_start`; zero when the plane is not shown. -/
def DisplayPlane.start (p : DisplayPlane) : Nat :=
  if p.clipX.srcLen = 0 ∨ p.clipY.srcLen = 0 ∨ p.fbStart = 0 then 0
  else u32 (p.fbStart.toNat + u32 (4 * p.clipX.src) + u32 (p.clipY.src * p.fbPitch.toNat))

/-! ## Registers -/

/-- `SUNXI_DE2_WH`, of sizes that are not zero. -/
def de2Wh (w h : Nat) : Nat := u32 ((h - 1) <<< 16) ||| (w - 1)

/-- `SUNXI_DE2_XY`. -/
def de2Xy (x y : Nat) : Nat := u32 (y <<< 16) ||| x

/-- The format of plane `i`: the first one has no alpha. -/
def planeFormat (i : Nat) : Nat := (if i = 0 then 4 else 0) <<< 8

/-- What `sun8i_ui_scaler_setup` gets. -/
structure Scaler where
  insize : Nat
  outsize : Nat
  hscale : Nat
  vscale : Nat
  deriving DecidableEq

/-- What is written for a plane that is shown: the overlay, and an input pipe of the blender. -/
structure Programmed where
  plane : Nat
  pipe : Nat
  attr : Nat
  topLaddr : Nat
  pitch : Nat
  /-- The size of the overlay and of its only layer. -/
  size : Nat
  insize : Nat
  offset : Nat
  deriving DecidableEq

def DisplayPlane.attr (p : DisplayPlane) (i : Nat) : Nat :=
  1 ||| (2 <<< 1) ||| u32 ((255 - p.alpha.toNat % 256) <<< 24) ||| planeFormat i

def DisplayPlane.program (p : DisplayPlane) (i pipe : Nat) : Programmed :=
  { plane := i, pipe, attr := p.attr i, topLaddr := p.start, pitch := p.fbPitch.toNat
    size := de2Wh p.clipX.srcLen p.clipY.srcLen, insize := de2Wh p.clipX.dstLen p.clipY.dstLen
    offset := de2Xy p.clipX.dst p.clipY.dst }

/-- The scaler of a plane that is shown; none turns it off. -/
def DisplayPlane.scaler (p : DisplayPlane) : Option Scaler :=
  if p.clipX.srcLen ≠ p.clipX.dstLen ∨ p.clipY.srcLen ≠ p.clipY.dstLen then
    some { insize := de2Wh p.clipX.srcLen p.clipY.srcLen
           outsize := de2Wh p.clipX.dstLen p.clipY.dstLen
           hscale := u32 ((0x10000 <<< 4) * p.clipX.srcLen) / p.clipX.dstLen
           vscale := u32 ((0x10000 <<< 4) * p.clipY.srcLen) / p.clipY.dstLen }
  else none

/-! ## `display_commit` -/

/-- The loop's variables and writes. -/
structure Commit where
  route : Nat
  fcolorCtl : Nat
  pipe : Nat
  programmed : List Programmed
  /-- The planes whose overlay is turned off. -/
  disabled : List Nat
  /-- The scalers that are set up or turned off. -/
  scalers : List (Nat × Option Scaler)
  /-- The size of the output, when the first plane is shown. -/
  outputSize : Option Nat

/-- One plane. -/
def Commit.step (resize : Bool) (c : Commit) (i : Nat) (p : DisplayPlane) : Commit :=
  if p.start = 0 then
    { c with disabled := c.disabled ++ [i]
             scalers := c.scalers ++ if resize then [(i, none)] else [] }
  else
    { route := c.route ||| u32 ((i + 1) <<< (c.pipe * 4))
      fcolorCtl :=
        c.fcolorCtl ||| u32 (1 <<< (8 + c.pipe)) ||| if c.pipe = 0 then 1 <<< c.pipe else 0
      pipe := c.pipe + 1
      programmed := c.programmed ++ [p.program i c.pipe]
      disabled := c.disabled
      scalers := c.scalers ++ if resize then [(i, p.scaler)] else []
      outputSize := if i = 0 then some (de2Wh p.clipX.dstLen p.clipY.dstLen) else c.outputSize }

/-- The loop from plane `i` on. -/
def Commit.steps (resize : Bool) : Commit → Nat → List DisplayPlane → Commit
  | c, _, [] => c
  | c, i, p :: ps => (c.step resize i p).steps resize (i + 1) ps

def Commit.init : Commit :=
  { route := 0, fcolorCtl := 0, pipe := 0, programmed := [], disabled := [], scalers := []
    outputSize := none }

def displayCommit (resize : Bool) (d : Display) : Commit := Commit.init.steps resize 0 d.planes

/-! ## Divisions -/

/-- A division of the source. -/
def divide (a b : Nat) : Option Nat := if b = 0 then none else some (a / b)

/-- `clip` with its divisions checked. -/
def clipChecked (panel : Int) (dst dstLen src srcLen : BitVec 32) : Option Clip := do
  let o := u32 (-min dst.toInt 0).toNat
  let d := u32 (clamp dst.toInt 0 panel).toNat
  let len := u32 (clamp (wrapInt (dstLen.toInt - toInt o)) 0 (panel - toInt d)).toNat
  let off ← divide (u32 (o * srcLen.toNat)) dstLen.toNat
  let cut ← divide (u32 (len * srcLen.toNat)) dstLen.toNat
  some { dst := d, dstLen := len, src := u32 (src.toNat + off), srcLen := cut }

/-- The scaler of a plane that is shown, with the divisions checked. -/
def scalerChecked (x y : Clip) : Option (Option Scaler) :=
  if x.srcLen ≠ x.dstLen ∨ y.srcLen ≠ y.dstLen then do
    let hscale ← divide (u32 ((0x10000 <<< 4) * x.srcLen)) x.dstLen
    let vscale ← divide (u32 ((0x10000 <<< 4) * y.srcLen)) y.dstLen
    some (some { insize := de2Wh x.srcLen y.srcLen, outsize := de2Wh x.dstLen y.dstLen
                 hscale, vscale })
  else some none

/-- One plane. Its clipping comes before it is known whether it is shown. -/
def Commit.stepChecked (resize : Bool) (c : Commit) (i : Nat) (p : DisplayPlane) :
    Option Commit := do
  let x ← clipChecked panelWidth p.dstX p.dstW p.srcX p.srcW
  let y ← clipChecked panelHeight p.dstY p.dstH p.srcY p.srcH
  if p.start ≠ 0 ∧ resize then
    let _ ← scalerChecked x y
    some (c.step resize i p)
  else some (c.step resize i p)

def Commit.stepsChecked (resize : Bool) : Commit → Nat → List DisplayPlane → Option Commit
  | c, _, [] => some c
  | c, i, p :: ps => do
    let c ← c.stepChecked resize i p
    c.stepsChecked resize (i + 1) ps

/-- `display_commit`; none when it divides by zero. -/
def displayCommitChecked (resize : Bool) (d : Display) : Option Commit :=
  Commit.init.stepsChecked resize 0 d.planes

end PBoot
