import PBoot.Display.Commit
import Mathlib.Data.Nat.ModEq
import Mathlib.Tactic.Ring

/-!
# Clipping planes

`cut` is the part of an interval on the panel and the part of the source behind it, in exact
arithmetic. `clip_eq`: that is what is computed on `u32` and `int`, when there is such a part.
-/

namespace PBoot

open Bytes

/-- The part on a panel of `n` pixels of the `len` pixels from `x` on. -/
structure Cut extends Clip where
  /-- How many pixels are cut off in front. -/
  off : Nat

def cut (n x : Int) (len src srcLen : Nat) : Cut :=
  let lo := max x 0
  let hi := min (x + len) n
  let off := (lo - x).toNat
  let dstLen := (hi - lo).toNat
  { off, dst := lo.toNat, dstLen, src := src + off * srcLen / len, srcLen := dstLen * srcLen / len }

/-! ## Exact facts -/

section
variable {n x : Int} {len src srcLen : Nat}

theorem cut_le (hn : 0 ≤ n) : (cut n x len src srcLen).dstLen ≤ n.toNat := by
  simp only [cut]
  omega

/-- What is cut off and what is left. -/
theorem cut_off_add (h : 0 < (cut n x len src srcLen).dstLen) :
    (cut n x len src srcLen).off + (cut n x len src srcLen).dstLen ≤ len := by
  simp only [cut] at h ⊢
  omega

/-- The source is cut like the destination, and stays inside. -/
theorem cut_inside (h : 0 < (cut n x len src srcLen).dstLen) :
    src ≤ (cut n x len src srcLen).src ∧
      (cut n x len src srcLen).src + (cut n x len src srcLen).srcLen ≤ src + srcLen := by
  have hle := Nat.mul_le_mul_right srcLen (cut_off_add h)
  refine ⟨Nat.le_add_right _ _, ?_⟩
  change src + (cut n x len src srcLen).off * srcLen / len +
    (cut n x len src srcLen).dstLen * srcLen / len ≤ src + srcLen
  rw [Nat.add_assoc]
  refine Nat.add_le_add_left ((Nat.div_add_div_le_add_div).trans ?_) src
  rw [← Nat.add_mul]
  exact Nat.div_le_of_le_mul hle

theorem cut_unscaled (hl : 0 < len) :
    (cut n x len src len).src = src + (cut n x len src len).off ∧
      (cut n x len src len).srcLen = (cut n x len src len).dstLen := by
  simp [cut, Nat.mul_div_cancel _ hl]

theorem cut_srcLen_le (h : 0 < (cut n x len src srcLen).dstLen) :
    (cut n x len src srcLen).srcLen ≤ srcLen := by
  have := cut_inside h
  omega

end

/-! ## Machine words -/

/-- Sizes fit the registers, and positions do not overflow. -/
structure ClipOk (dst dstLen src srcLen : BitVec 32) : Prop where
  dst : -2 ^ 31 < dst.toInt
  dstLen : 1 ≤ dstLen.toNat ∧ dstLen.toNat ≤ 65535
  srcLen : 1 ≤ srcLen.toNat ∧ srcLen.toNat ≤ 65535
  src : src.toNat ≤ 65535

section
variable {n : Int} {dst dstLen src srcLen : BitVec 32}

theorem toInt_of_lt {k : Nat} (h : k < 2 ^ 31) : toInt k = k :=
  wrapInt_of_lt (by omega) (by omega)

theorem u32_toNat {z : Int} (h0 : 0 ≤ z) (h : z < 2 ^ 31) :
    u32 z.toNat = z.toNat ∧ toInt z.toNat = z := by
  refine ⟨u32_of_lt (by omega), ?_⟩
  rw [toInt_of_lt (by omega), Int.toNat_of_nonneg h0]

/-- The destination, also when nothing is left of it. -/
theorem clip_dst (hn : 0 ≤ n) (hn' : n ≤ 65535) (h : ClipOk dst dstLen src srcLen) :
    u32 (-min dst.toInt 0).toNat = (-min dst.toInt 0).toNat ∧
      (clip n dst dstLen src srcLen).dst = (clamp dst.toInt 0 n).toNat ∧
      (clip n dst dstLen src srcLen).dstLen =
        (cut n dst.toInt dstLen.toNat src.toNat srcLen.toNat).dstLen := by
  have hlen := h.dstLen
  have hlo := h.dst
  have hhi := dst.toInt_lt
  have hint : dstLen.toInt = dstLen.toNat := BitVec.toInt_eq_toNat_of_lt (by omega)
  obtain ⟨ho, ho'⟩ := u32_toNat (z := -min dst.toInt 0) (by omega) (by omega)
  obtain ⟨hd, hd'⟩ := u32_toNat (z := clamp dst.toInt 0 n) (by unfold clamp; omega)
    (by unfold clamp; omega)
  refine ⟨ho, hd, ?_⟩
  have hdiff : wrapInt ((dstLen.toNat : Int) - (-min dst.toInt 0)) =
      dstLen.toNat - (-min dst.toInt 0) := wrapInt_of_lt (by omega) (by omega)
  simp only [clip, hint, ho, ho', hd, hd', hdiff, cut]
  rw [(u32_toNat (by unfold clamp; omega) (by unfold clamp; omega)).1]
  unfold clamp
  omega

/-- The products, of two 16-bit numbers each. -/
theorem cut_mul_le (h : ClipOk dst dstLen src srcLen)
    (hpos : 0 < (cut n dst.toInt dstLen.toNat src.toNat srcLen.toNat).dstLen) :
    (cut n dst.toInt dstLen.toNat src.toNat srcLen.toNat).off * srcLen.toNat ≤ 65535 * 65535 ∧
      (cut n dst.toInt dstLen.toNat src.toNat srcLen.toNat).dstLen * srcLen.toNat ≤
        65535 * 65535 := by
  have hsum := cut_off_add hpos
  have hlen := h.dstLen.2
  exact ⟨Nat.mul_le_mul (by omega) h.srcLen.2, Nat.mul_le_mul (by omega) h.srcLen.2⟩

/-- **Nothing wraps** where a part of the plane is on the panel. -/
theorem clip_eq (hn : 0 ≤ n) (hn' : n ≤ 65535) (h : ClipOk dst dstLen src srcLen)
    (hpos : 0 < (cut n dst.toInt dstLen.toNat src.toNat srcLen.toNat).dstLen) :
    clip n dst dstLen src srcLen = (cut n dst.toInt dstLen.toNat src.toNat srcLen.toNat).toClip := by
  obtain ⟨ho, hd, hw⟩ := clip_dst hn hn' h
  have hoff : (-min dst.toInt 0).toNat =
      (cut n dst.toInt dstLen.toNat src.toNat srcLen.toNat).off := by
    simp only [cut]
    omega
  have hsrc := h.src
  have hin := cut_inside hpos
  have hsrcLen := h.srcLen
  obtain ⟨hoffs, hlens⟩ := cut_mul_le h hpos
  ext
  · rw [hd]
    simp only [cut, clamp] at hpos ⊢
    omega
  · exact hw
  · change u32 (src.toNat + u32 (u32 (-min dst.toInt 0).toNat * srcLen.toNat) / dstLen.toNat) = _
    rw [ho, hoff, u32_of_lt (n := _ * _) (by omega)]
    exact u32_of_lt (show (cut n dst.toInt dstLen.toNat src.toNat srcLen.toNat).src < 2 ^ 32 by omega)
  · change u32 ((clip n dst dstLen src srcLen).dstLen * srcLen.toNat) / dstLen.toNat = _
    rw [hw, u32_of_lt (by omega)]
    rfl

end

end PBoot
