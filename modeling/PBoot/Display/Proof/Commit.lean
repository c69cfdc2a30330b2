import PBoot.Display.Proof.Clip
import Mathlib.Data.Nat.Digits.Lemmas

/-!
# Showing planes

`commitLaw_iff`: every plane that is shown is programmed with its part on the panel, and the route
lists exactly those planes, if and only if no scaled plane is 4096 pixels wide or high behind the
panel. Only a build with `DE2_RESIZE` computes the scale that wraps there.
-/

namespace PBoot

open Bytes

/-! ## What a plane should be -/

def DisplayPlane.cutX (p : DisplayPlane) : Cut :=
  cut panelWidth p.dstX.toInt p.dstW.toNat p.srcX.toNat p.srcW.toNat

def DisplayPlane.cutY (p : DisplayPlane) : Cut :=
  cut panelHeight p.dstY.toInt p.dstH.toNat p.srcY.toNat p.srcH.toNat

/-- Sizes are those of the registers, and the framebuffer is below 4 GiB. -/
structure DisplayPlane.Ok (p : DisplayPlane) : Prop where
  x : ClipOk p.dstX p.dstW p.srcX p.srcW
  y : ClipOk p.dstY p.dstH p.srcY p.srcH
  below : p.fbStart ≠ 0 → p.fbStart.toNat + (p.srcY.toNat + p.srcH.toNat - 1) * p.fbPitch.toNat +
    4 * (p.srcX.toNat + p.srcW.toNat) ≤ 2 ^ 32

/-- Some of its source is on the panel. -/
def DisplayPlane.Shows (p : DisplayPlane) : Prop :=
  p.fbStart ≠ 0 ∧ p.dstW.toNat ≤ p.cutX.dstLen * p.srcW.toNat ∧
    p.dstH.toNat ≤ p.cutY.dstLen * p.srcH.toNat

/-- What is shown of it changes its size. -/
def DisplayPlane.Scaled (p : DisplayPlane) : Prop :=
  p.cutX.srcLen ≠ p.cutX.dstLen ∨ p.cutY.srcLen ≠ p.cutY.dstLen

instance (p : DisplayPlane) : Decidable p.Scaled := inferInstanceAs (Decidable (_ ∨ _))

/-- The exact values of what is computed for one direction. -/
def Cut.values (c : Cut) (src srcLen len : Nat) : List Nat :=
  [c.off, c.off * srcLen, c.off * srcLen / len, src + c.off * srcLen / len, c.dst, c.dstLen,
    c.dstLen * srcLen, c.srcLen, (c.srcLen - 1) * 2 ^ 16, (c.dstLen - 1) * 2 ^ 16]

/-- The exact values of what is computed for a plane that is shown. -/
def DisplayPlane.values (p : DisplayPlane) (resize : Bool) : List Nat :=
  p.cutX.values p.srcX.toNat p.srcW.toNat p.dstW.toNat ++
    p.cutY.values p.srcY.toNat p.srcH.toNat p.dstH.toNat ++
    [4 * p.cutX.src, p.cutY.src * p.fbPitch.toNat, p.fbStart.toNat + 4 * p.cutX.src,
      p.fbStart.toNat + 4 * p.cutX.src + p.cutY.src * p.fbPitch.toNat, p.cutY.dst * 2 ^ 16,
      (255 - p.alpha.toNat % 256) * 2 ^ 24] ++
    if resize ∧ p.Scaled then [2 ^ 20 * p.cutX.srcLen, 2 ^ 20 * p.cutY.srcLen] else []

/-- A direction of the source stays inside, and is cut like the destination when it has its size. -/
structure Cut.Inside (c : Cut) (x : Int) (len src srcLen : Nat) : Prop where
  shown : 0 < c.dstLen ∧ 0 < c.srcLen
  source : src ≤ c.src ∧ c.src + c.srcLen ≤ src + srcLen
  same : srcLen = len → (c.src : Int) - src = c.dst - x ∧ c.srcLen = c.dstLen

/-- What is written for a plane that is shown, with the scaler `s`. -/
structure Placed (resize : Bool) (p : DisplayPlane) (q : Programmed) (s : Option Scaler) : Prop where
  insideX : p.cutX.Inside p.dstX.toInt p.dstW.toNat p.srcX.toNat p.srcW.toNat
  insideY : p.cutY.Inside p.dstY.toInt p.dstH.toNat p.srcY.toNat p.srcH.toNat
  offset : q.offset = p.cutY.dst * 2 ^ 16 + p.cutX.dst
  insize : q.insize = (p.cutY.dstLen - 1) * 2 ^ 16 + (p.cutX.dstLen - 1)
  size : q.size = (p.cutY.srcLen - 1) * 2 ^ 16 + (p.cutX.srcLen - 1)
  topLaddr : q.topLaddr = p.fbStart.toNat + 4 * p.cutX.src + p.cutY.src * p.fbPitch.toNat
  pitch : q.pitch = p.fbPitch.toNat
  enabled : q.attr.testBit 0 = true
  scaler : resize = true → s = if p.Scaled then some
    { insize := q.size, outsize := q.insize, hscale := 2 ^ 20 * p.cutX.srcLen / p.cutX.dstLen
      vscale := 2 ^ 20 * p.cutY.srcLen / p.cutY.dstLen } else none
  exact : ∀ v ∈ p.values resize, v < 2 ^ 32

/-- The planes that are shown, in the order of their pipes. -/
def Commit.enabled (c : Commit) : List Nat := c.programmed.map (·.plane)

/-- What a call should write. -/
structure CommitLaw (resize : Bool) (d : Display) (c : Commit) : Prop where
  placed : ∀ q ∈ c.programmed, ∃ p s, d.planes[q.plane]? = some p ∧
    (resize = true → (q.plane, s) ∈ c.scalers) ∧ Placed resize p q s
  hidden : ∀ i p, d.planes[i]? = some p → p.fbStart = 0 ∨ p.cutX.dstLen = 0 ∨ p.cutY.dstLen = 0 →
    i ∈ c.disabled
  partition : ∀ i < 3, i ∈ c.disabled ↔ i ∉ c.enabled
  ascending : c.enabled.Pairwise (· < ·) ∧ ∀ i ∈ c.enabled, i < 3
  pipes : c.programmed.map (·.pipe) = List.range c.enabled.length
  route : c.route = Nat.ofDigits 16 (c.enabled.map (· + 1))
  fcolor : ∀ k, c.fcolorCtl.testBit (8 + k) = decide (k < c.enabled.length)

/-- No scale wraps. -/
def ScaleFits (d : Display) : Prop :=
  ∀ p ∈ d.planes, p.Shows → p.cutX.dstLen * p.srcW.toNat < 4096 * p.dstW.toNat ∧
    p.cutY.dstLen * p.srcH.toNat < 4096 * p.dstH.toNat

/-! ## One plane -/

section
variable {p : DisplayPlane} {n : Int} {dst dstLen src srcLen : BitVec 32}

theorem clip_srcLen (hn : 0 ≤ n) (hn' : n ≤ 65535) (h : ClipOk dst dstLen src srcLen) :
    (clip n dst dstLen src srcLen).srcLen =
      (cut n dst.toInt dstLen.toNat src.toNat srcLen.toNat).srcLen := by
  rcases Nat.eq_zero_or_pos (cut n dst.toInt dstLen.toNat src.toNat srcLen.toNat).dstLen with
    h0 | hpos
  · change u32 ((clip n dst dstLen src srcLen).dstLen * srcLen.toNat) / dstLen.toNat =
      (cut n dst.toInt dstLen.toNat src.toNat srcLen.toNat).dstLen * srcLen.toNat / dstLen.toNat
    rw [(clip_dst hn hn' h).2.2, h0, Nat.zero_mul]
    rfl
  · rw [clip_eq hn hn' h hpos]

theorem srcLen_eq_zero {n x : Int} {len src srcLen : Nat} (hl : 0 < len) :
    (cut n x len src srcLen).srcLen = 0 ↔ ¬ len ≤ (cut n x len src srcLen).dstLen * srcLen := by
  rw [not_le]
  exact Nat.div_eq_zero_iff_lt hl

theorem clipX_srcLen (h : p.Ok) : p.clipX.srcLen = p.cutX.srcLen :=
  clip_srcLen (by decide) (by decide) h.x

theorem clipY_srcLen (h : p.Ok) : p.clipY.srcLen = p.cutY.srcLen :=
  clip_srcLen (by decide) (by decide) h.y

/-- A plane that shows has something on the panel, in both directions. -/
theorem DisplayPlane.Shows.pos (h : p.Ok) (hs : p.Shows) : (0 < p.cutX.dstLen ∧ 0 < p.cutX.srcLen) ∧
    0 < p.cutY.dstLen ∧ 0 < p.cutY.srcLen := by
  obtain ⟨-, hx, hy⟩ := hs
  have hlx := h.x.dstLen
  have hly := h.y.dstLen
  refine ⟨⟨Nat.pos_of_ne_zero fun h0 => ?_, Nat.pos_of_ne_zero fun h0 => ?_⟩,
    Nat.pos_of_ne_zero fun h0 => ?_, Nat.pos_of_ne_zero fun h0 => ?_⟩
  · rw [h0] at hx
    omega
  · exact (srcLen_eq_zero hlx.1).1 h0 hx
  · rw [h0] at hy
    omega
  · exact (srcLen_eq_zero hly.1).1 h0 hy

theorem DisplayPlane.Shows.clipX (h : p.Ok) (hs : p.Shows) : p.clipX = p.cutX.toClip :=
  clip_eq (by decide) (by decide) h.x (hs.pos h).1.1

theorem DisplayPlane.Shows.clipY (h : p.Ok) (hs : p.Shows) : p.clipY = p.cutY.toClip :=
  clip_eq (by decide) (by decide) h.y (hs.pos h).2.1

/-- The address of the first pixel is in the framebuffer. -/
theorem DisplayPlane.Shows.start_lt (h : p.Ok) (hs : p.Shows) :
    p.fbStart.toNat + 4 * p.cutX.src + p.cutY.src * p.fbPitch.toNat < 2 ^ 32 := by
  obtain ⟨⟨hwx, hsx⟩, hwy, hsy⟩ := hs.pos h
  have hx := (cut_inside hwx).2
  have hy := (cut_inside hwy).2
  have hle : p.cutY.src * p.fbPitch.toNat ≤ (p.srcY.toNat + p.srcH.toNat - 1) * p.fbPitch.toNat :=
    Nat.mul_le_mul_right _ (by unfold DisplayPlane.cutY at hsy ⊢; omega)
  have hbelow := h.below hs.1
  unfold DisplayPlane.cutX at hsx ⊢
  omega

theorem start_of_shows (h : p.Ok) (hs : p.Shows) :
    p.start = p.fbStart.toNat + 4 * p.cutX.src + p.cutY.src * p.fbPitch.toNat := by
  obtain ⟨⟨-, hsx⟩, -, hsy⟩ := hs.pos h
  have hlt := hs.start_lt h
  have hne : ¬ (p.clipX.srcLen = 0 ∨ p.clipY.srcLen = 0 ∨ p.fbStart = 0) := by
    rw [clipX_srcLen h, clipY_srcLen h]
    rintro (h0 | h0 | h0)
    · omega
    · omega
    · exact hs.1 h0
  rw [DisplayPlane.start, if_neg hne, hs.clipX h, hs.clipY h, u32_of_lt (n := 4 * _) (by omega),
    u32_of_lt (n := _ * _) (by omega), u32_of_lt hlt]

theorem start_eq_zero_iff (h : p.Ok) : p.start = 0 ↔ ¬ p.Shows := by
  constructor
  · intro h0 hs
    rw [start_of_shows h hs] at h0
    have hfb : p.fbStart.toNat = 0 := by omega
    exact hs.1 (BitVec.eq_of_toNat_eq hfb)
  · intro hs
    have hzero : p.clipX.srcLen = 0 ∨ p.clipY.srcLen = 0 ∨ p.fbStart = 0 := by
      rw [clipX_srcLen h, clipY_srcLen h]
      by_contra hno
      simp only [not_or] at hno
      refine hs ⟨hno.2.2, ?_, ?_⟩
      · exact not_not.1 fun hle => hno.1 ((srcLen_eq_zero h.x.dstLen.1).2 hle)
      · exact not_not.1 fun hle => hno.2.1 ((srcLen_eq_zero h.y.dstLen.1).2 hle)
    rw [DisplayPlane.start, if_pos hzero]

theorem hidden_start (h : p.Ok) (hh : p.fbStart = 0 ∨ p.cutX.dstLen = 0 ∨ p.cutY.dstLen = 0) :
    p.start = 0 := by
  refine (start_eq_zero_iff h).2 fun hs => ?_
  obtain ⟨⟨hx, -⟩, hy, -⟩ := hs.pos h
  rcases hh with h0 | h0 | h0
  · exact hs.1 h0
  · omega
  · omega

/-! ### Registers -/

theorem de2Wh_eq {w h : Nat} (hw : w ≤ 65536) (hh : h ≤ 65536) :
    de2Wh w h = (h - 1) * 2 ^ 16 + (w - 1) := by
  rw [de2Wh, Nat.shiftLeft_eq, u32_of_lt (by omega), Nat.mul_comm,
    ← Nat.two_pow_add_eq_or_of_lt (by omega)]

theorem de2Xy_eq {x y : Nat} (hx : x < 65536) (hy : y < 65536) : de2Xy x y = y * 2 ^ 16 + x := by
  rw [de2Xy, Nat.shiftLeft_eq, u32_of_lt (by omega), Nat.mul_comm,
    ← Nat.two_pow_add_eq_or_of_lt (by omega)]

theorem cut_dst_lt {x : Int} {len src srcLen : Nat}
    (h : 0 < (cut n x len src srcLen).dstLen) : ((cut n x len src srcLen).dst : Int) < n := by
  simp only [cut] at h ⊢
  omega

theorem inside_cut {x : Int} {len src srcLen : Nat} (hl : 0 < len)
    (h : 0 < (cut n x len src srcLen).dstLen) (hs : 0 < (cut n x len src srcLen).srcLen) :
    (cut n x len src srcLen).Inside x len src srcLen := by
  refine ⟨⟨h, hs⟩, cut_inside h, ?_⟩
  rintro rfl
  obtain ⟨he, hlen⟩ : (cut n x srcLen src srcLen).src = src + (cut n x srcLen src srcLen).off ∧ _ :=
    cut_unscaled hl
  refine ⟨?_, hlen⟩
  rw [he]
  simp only [cut]
  omega

theorem values_lt (hn : 0 ≤ n) (hn' : n ≤ 65535) (h : ClipOk dst dstLen src srcLen)
    (hpos : 0 < (cut n dst.toInt dstLen.toNat src.toNat srcLen.toNat).dstLen) :
    ∀ v ∈ (cut n dst.toInt dstLen.toNat src.toNat srcLen.toNat).values src.toNat srcLen.toNat
      dstLen.toNat, v < 2 ^ 32 := by
  have hsum := cut_off_add hpos
  have hin := cut_inside hpos
  have hle := cut_srcLen_le hpos
  have hd := cut_dst_lt hpos
  have hlen := h.dstLen
  have hsrcLen := h.srcLen
  have hsrc := h.src
  obtain ⟨hoffs, hlens⟩ := cut_mul_le h hpos
  have hdiv := Nat.div_le_self
    ((cut n dst.toInt dstLen.toNat src.toNat srcLen.toNat).off * srcLen.toNat) dstLen.toNat
  have hsrc' : src.toNat + (cut n dst.toInt dstLen.toNat src.toNat srcLen.toNat).off * srcLen.toNat /
      dstLen.toNat = (cut n dst.toInt dstLen.toNat src.toNat srcLen.toNat).src := rfl
  simp only [Cut.values, List.forall_mem_cons, List.not_mem_nil, false_imp_iff, implies_true, and_true]
  refine ⟨?_, ?_, ?_, ?_, ?_, ?_, ?_, ?_, ?_, ?_⟩ <;> omega

theorem values_fit (h : p.Ok) (hs : p.Shows) (resize : Bool)
    (hfit : resize = true → p.cutX.srcLen < 4096 ∧ p.cutY.srcLen < 4096) :
    ∀ v ∈ p.values resize, v < 2 ^ 32 := by
  obtain ⟨⟨hwx, -⟩, hwy, -⟩ := hs.pos h
  have hstart := hs.start_lt h
  have hd : (p.cutY.dst : Int) < panelHeight := cut_dst_lt hwy
  intro v hv
  simp only [DisplayPlane.values, List.mem_append] at hv
  rcases hv with ((hv | hv) | hv) | hv
  · exact values_lt (by decide) (by decide) h.x hwx v hv
  · exact values_lt (by decide) (by decide) h.y hwy v hv
  · simp only [List.mem_cons, List.not_mem_nil, or_false, panelHeight] at hv hd
    omega
  · split at hv
    · next hr =>
      have := hfit hr.1
      simp only [List.mem_cons, List.not_mem_nil, or_false] at hv
      omega
    · cases hv

/-- The scale is exact, below 4096 pixels. -/
theorem scaler_eq (h : p.Ok) (hs : p.Shows) (hfit : p.cutX.srcLen < 4096 ∧ p.cutY.srcLen < 4096) :
    p.scaler = if p.Scaled then some
      { insize := de2Wh p.cutX.srcLen p.cutY.srcLen, outsize := de2Wh p.cutX.dstLen p.cutY.dstLen
        hscale := 2 ^ 20 * p.cutX.srcLen / p.cutX.dstLen
        vscale := 2 ^ 20 * p.cutY.srcLen / p.cutY.dstLen } else none := by
  have hk : 0x10000 <<< 4 = 2 ^ 20 := rfl
  rw [DisplayPlane.scaler, hs.clipX h, hs.clipY h, hk, u32_of_lt (by omega), u32_of_lt (by omega)]
  rfl

theorem placed_of_shows (h : p.Ok) (hs : p.Shows) (resize : Bool) (i pipe : Nat)
    (hfit : resize = true → p.cutX.srcLen < 4096 ∧ p.cutY.srcLen < 4096) :
    Placed resize p (p.program i pipe) p.scaler := by
  obtain ⟨⟨hwx, hsx⟩, hwy, hsy⟩ := hs.pos h
  have hlx := h.x.dstLen
  have hly := h.y.dstLen
  have hslx := h.x.srcLen
  have hsly := h.y.srcLen
  have hx := cut_off_add hwx
  have hy := cut_off_add hwy
  have hcx : p.cutX.srcLen ≤ p.srcW.toNat := cut_srcLen_le hwx
  have hcy : p.cutY.srcLen ≤ p.srcH.toNat := cut_srcLen_le hwy
  have hdx : (p.cutX.dst : Int) < panelWidth := cut_dst_lt hwx
  have hdy : (p.cutY.dst : Int) < panelHeight := cut_dst_lt hwy
  have hsize : de2Wh p.cutX.srcLen p.cutY.srcLen =
      (p.cutY.srcLen - 1) * 2 ^ 16 + (p.cutX.srcLen - 1) := de2Wh_eq (by omega) (by omega)
  have hinsize : de2Wh p.cutX.dstLen p.cutY.dstLen =
      (p.cutY.dstLen - 1) * 2 ^ 16 + (p.cutX.dstLen - 1) :=
    de2Wh_eq (by unfold DisplayPlane.cutX; omega) (by unfold DisplayPlane.cutY; omega)
  simp only [panelWidth, panelHeight] at hdx hdy
  refine ⟨inside_cut hlx.1 hwx hsx, inside_cut hly.1 hwy hsy, ?_, ?_, ?_, ?_, rfl, ?_, ?_,
    values_fit h hs resize hfit⟩
  · rw [DisplayPlane.program, hs.clipX h, hs.clipY h]
    exact de2Xy_eq (by omega) (by omega)
  · rw [DisplayPlane.program, hs.clipX h, hs.clipY h]
    exact hinsize
  · rw [DisplayPlane.program, hs.clipX h, hs.clipY h]
    exact hsize
  · exact start_of_shows h hs
  · simp [DisplayPlane.program, DisplayPlane.attr]
  · intro hr
    rw [scaler_eq h hs (hfit hr), DisplayPlane.program, hs.clipX h, hs.clipY h]

end

/-! ## The loop -/

/-- The planes that are shown, with their numbers. -/
def shown (ps : List DisplayPlane) : List (DisplayPlane × Nat) := ps.zipIdx.filter (·.1.start ≠ 0)

/-- What the planes `ps` have written. -/
structure Commit.Ran (resize : Bool) (ps : List DisplayPlane) (c : Commit) : Prop where
  pipe : c.pipe = (shown ps).length
  programmed : c.programmed = (shown ps).mapIdx fun k x => x.1.program x.2 k
  disabled : c.disabled = (ps.zipIdx.filter (·.1.start = 0)).map (·.2)
  scalers : resize = true → ∀ x ∈ shown ps, (x.2, x.1.scaler) ∈ c.scalers
  route : c.route = Nat.ofDigits 16 ((shown ps).map (·.2 + 1))
  fcolor : ∀ k, c.fcolorCtl.testBit (8 + k) = decide (k < (shown ps).length)

section
variable {ps : List DisplayPlane} {p : DisplayPlane} {resize : Bool} {c : Commit}

theorem shown_append : shown (ps ++ [p]) =
    shown ps ++ if p.start = 0 then [] else [(p, ps.length)] := by
  by_cases h : p.start = 0
  · simp [shown, List.zipIdx_append, h]
  · simp [shown, List.zipIdx_append, h]

theorem mem_shown {x : DisplayPlane × Nat} :
    x ∈ shown ps ↔ ps[x.2]? = some x.1 ∧ x.1.start ≠ 0 := by
  simp [shown, List.mem_zipIdx_iff_getElem?]

theorem length_shown_le (ps : List DisplayPlane) : (shown ps).length ≤ ps.length := by
  simpa [shown] using List.length_filter_le (fun x : DisplayPlane × Nat => x.1.start ≠ 0) ps.zipIdx

theorem route_lt (hn : ps.length ≤ 3) :
    Nat.ofDigits 16 ((shown ps).map (·.2 + 1)) < 16 ^ (shown ps).length := by
  rw [← List.length_map (f := fun x : DisplayPlane × Nat => x.2 + 1)]
  refine Nat.ofDigits_lt_base_pow_length (by decide) fun v hv => ?_
  obtain ⟨x, hx, rfl⟩ := List.mem_map.1 hv
  obtain ⟨hlt, -⟩ := List.getElem?_eq_some_iff.1 (mem_shown.1 hx).1
  omega

theorem route_or {r k : Nat} (i : Nat) (hr : r < 16 ^ k) (hk : k < 3) (hi : i < 3) :
    r ||| u32 ((i + 1) <<< (k * 4)) = r + 16 ^ k * (i + 1) := by
  have hpow : 16 ^ k = 2 ^ (k * 4) := by rw [Nat.mul_comm, Nat.pow_mul]
  have hle : 2 ^ (k * 4) ≤ 2 ^ 8 := Nat.pow_le_pow_right (by decide) (by omega)
  rw [hpow] at hr ⊢
  have hmul : 2 ^ (k * 4) * (i + 1) ≤ 2 ^ 8 * 3 := Nat.mul_le_mul hle (by omega)
  rw [Nat.shiftLeft_eq, Nat.mul_comm (i + 1), u32_of_lt (by omega), Nat.or_comm,
    ← Nat.two_pow_add_eq_or_of_lt hr, Nat.add_comm]

theorem fcolor_or {f m : Nat} (hm : m < 3) (h : ∀ k, f.testBit (8 + k) = decide (k < m)) (k : Nat) :
    (f ||| u32 (1 <<< (8 + m)) ||| if m = 0 then 1 <<< m else 0).testBit (8 + k) =
      decide (k < m + 1) := by
  have hlt : 2 ^ (8 + m) ≤ 2 ^ 10 := Nat.pow_le_pow_right (by decide) (by omega)
  have hlow : (if m = 0 then 1 <<< m else 0).testBit (8 + k) = false := by
    have hpow : 2 ^ 8 ≤ 2 ^ (8 + k) := Nat.pow_le_pow_right (by decide) (Nat.le_add_right 8 k)
    refine Nat.testBit_lt_two_pow (lt_of_lt_of_le ?_ hpow)
    split
    · next h0 => simp [h0]
    · decide
  rw [Nat.testBit_or, Nat.testBit_or, hlow, h, Nat.one_shiftLeft, u32_of_lt (by omega),
    Nat.testBit_two_pow, Bool.eq_iff_iff]
  simp
  omega

theorem ran_step (hn : ps.length < 3) (h : c.Ran resize ps) :
    (c.step resize ps.length p).Ran resize (ps ++ [p]) := by
  have hlen := length_shown_le ps
  by_cases h0 : p.start = 0
  · have hs : shown (ps ++ [p]) = shown ps := by simp [shown_append, h0]
    refine ⟨?_, ?_, ?_, ?_, ?_, ?_⟩
    · simp [Commit.step, h0, hs, h.pipe]
    · simp [Commit.step, h0, hs, h.programmed]
    · simp [Commit.step, h0, h.disabled, List.zipIdx_append]
    · intro hr x hx
      simpa [Commit.step, h0] using .inl (h.scalers hr x (hs ▸ hx))
    · simp [Commit.step, h0, hs, h.route]
    · simpa [Commit.step, h0, hs] using h.fcolor
  · have hs : shown (ps ++ [p]) = shown ps ++ [(p, ps.length)] := by simp [shown_append, h0]
    refine ⟨?_, ?_, ?_, ?_, ?_, ?_⟩
    · simp [Commit.step, h0, hs, h.pipe]
    · simp [Commit.step, h0, hs, h.programmed, h.pipe, List.mapIdx_append]
    · simp [Commit.step, h0, h.disabled, List.zipIdx_append]
    · intro hr x hx
      rw [hs, List.mem_append, List.mem_singleton] at hx
      rcases hx with hx | rfl
      · simpa [Commit.step, h0, hr] using .inl (h.scalers hr x hx)
      · simp [Commit.step, h0, hr]
    · have hor := route_or ps.length (route_lt (by omega)) (by omega : (shown ps).length < 3) hn
      simp only [Commit.step, if_neg h0, h.route, h.pipe, hor, hs, List.map_append,
        Nat.ofDigits_append, List.length_map, List.map_cons, List.map_nil, Nat.ofDigits_singleton]
    · have hor := fcolor_or (by omega) h.fcolor
      simpa only [Commit.step, if_neg h0, h.pipe, hs, List.length_append, List.length_singleton]
        using hor

theorem ran_steps (ps qs : List DisplayPlane) (hn : (ps ++ qs).length ≤ 3) (h : c.Ran resize ps) :
    (c.steps resize ps.length qs).Ran resize (ps ++ qs) := by
  induction qs generalizing ps c with
  | nil => simpa [Commit.steps] using h
  | cons p qs ih =>
    have hlt : ps.length < 3 := by simp at hn; omega
    have hstep := ih _ (by simpa using hn) (ran_step (p := p) hlt h)
    simpa [Commit.steps] using hstep

theorem ran_displayCommit (resize : Bool) (d : Display) :
    (displayCommit resize d).Ran resize d.planes := by
  have hinit : Commit.init.Ran resize [] := by
    constructor <;> simp [Commit.init, shown]
  exact ran_steps [] d.planes d.count.le hinit

/-! ## The law -/

theorem Commit.Ran.enabled (h : c.Ran resize ps) : c.enabled = (shown ps).map (·.2) := by
  rw [Commit.enabled, h.programmed]
  refine List.ext_getElem (by simp) fun k _ _ => ?_
  simp [DisplayPlane.program]

theorem Commit.Ran.mem_enabled (h : c.Ran resize ps) {i : Nat} :
    i ∈ c.enabled ↔ ∃ p, ps[i]? = some p ∧ p.start ≠ 0 := by
  rw [h.enabled, List.mem_map]
  constructor
  · rintro ⟨x, hx, rfl⟩
    exact ⟨x.1, mem_shown.1 hx⟩
  · rintro ⟨p, hp⟩
    exact ⟨(p, i), mem_shown.2 hp, rfl⟩

theorem Commit.Ran.mem_disabled (h : c.Ran resize ps) {i : Nat} :
    i ∈ c.disabled ↔ ∃ p, ps[i]? = some p ∧ p.start = 0 := by
  simp [h.disabled, List.mem_zipIdx_iff_getElem?]

theorem Commit.Ran.ascending (h : c.Ran resize ps) : c.enabled.Pairwise (· < ·) := by
  have hsub : (shown ps).Sublist ps.zipIdx := List.filter_sublist
  have hrange : ps.zipIdx.map (·.2) = List.range' 0 ps.length := List.zipIdx_map_snd 0 ps
  rw [h.enabled]
  refine List.Pairwise.sublist (hsub.map _) ?_
  rw [hrange]
  exact List.pairwise_lt_range'

theorem Commit.Ran.pipes (h : c.Ran resize ps) :
    c.programmed.map (·.pipe) = List.range c.enabled.length := by
  rw [h.enabled, h.programmed]
  refine List.ext_getElem (by simp) fun k _ _ => ?_
  simp [DisplayPlane.program]

/-- What is programmed is a plane that shows. -/
theorem Commit.Ran.mem_programmed (h : c.Ran resize ps) {q : Programmed} (hq : q ∈ c.programmed) :
    ∃ p, ps[q.plane]? = some p ∧ p.start ≠ 0 ∧ q = p.program q.plane q.pipe ∧
      (resize = true → (q.plane, p.scaler) ∈ c.scalers) := by
  rw [h.programmed, List.mem_mapIdx] at hq
  obtain ⟨k, hk, rfl⟩ := hq
  have hx := List.getElem_mem hk
  exact ⟨(shown ps)[k].1, (mem_shown.1 hx).1, (mem_shown.1 hx).2, rfl, fun hr => h.scalers hr _ hx⟩

end

theorem fits_iff {n x : Int} {len src srcLen : Nat} (hl : 0 < len) :
    (cut n x len src srcLen).srcLen < 4096 ↔
      (cut n x len src srcLen).dstLen * srcLen < 4096 * len :=
  Nat.div_lt_iff_lt_mul hl

/-- A scaled plane fits when the words that are computed for it do; others are no larger than the
panel. -/
theorem Placed.fits {p : DisplayPlane} {q : Programmed} {s : Option Scaler}
    (hp : Placed true p q s) : p.cutX.srcLen < 4096 ∧ p.cutY.srcLen < 4096 := by
  by_cases hs : p.Scaled
  · have hx := hp.exact (2 ^ 20 * p.cutX.srcLen) (by simp [DisplayPlane.values, hs])
    have hy := hp.exact (2 ^ 20 * p.cutY.srcLen) (by simp [DisplayPlane.values, hs])
    omega
  · have hx : p.cutX.dstLen ≤ panelWidth.toNat := cut_le (by decide)
    have hy : p.cutY.dstLen ≤ panelHeight.toNat := cut_le (by decide)
    simp only [DisplayPlane.Scaled, not_or, not_not, panelWidth, panelHeight] at hs hx hy
    omega

/-- **The law holds exactly where no scale wraps.** -/
theorem commitLaw_iff (d : Display) (resize : Bool) (h : ∀ p ∈ d.planes, p.Ok) :
    CommitLaw resize d (displayCommit resize d) ↔ (resize = true → ScaleFits d) := by
  have hran := ran_displayCommit resize d
  constructor
  · rintro hlaw rfl p hp hs
    have hok := h p hp
    obtain ⟨i, hi⟩ := List.mem_iff_getElem?.1 hp
    have h0 : p.start ≠ 0 := fun h0 => (start_eq_zero_iff hok).1 h0 hs
    obtain ⟨q, hq, rfl⟩ := List.mem_map.1 (hran.mem_enabled.2 ⟨p, hi, h0⟩)
    obtain ⟨p', s, hp', -, hplaced⟩ := hlaw.placed q hq
    obtain rfl : p = p' := Option.some.inj (hi.symm.trans hp')
    obtain ⟨hx, hy⟩ := hplaced.fits
    exact ⟨(fits_iff hok.x.dstLen.1).1 hx, (fits_iff hok.y.dstLen.1).1 hy⟩
  · intro hfit
    refine ⟨?_, ?_, ?_, ⟨hran.ascending, ?_⟩, hran.pipes, ?_, ?_⟩
    · intro q hq
      obtain ⟨p, hp, h0, hqp, hsc⟩ := hran.mem_programmed hq
      have hmem := List.mem_of_getElem? hp
      have hok := h p hmem
      have hs : p.Shows := not_not.1 fun hno => h0 ((start_eq_zero_iff hok).2 hno)
      refine ⟨p, p.scaler, hp, hsc, ?_⟩
      rw [hqp]
      refine placed_of_shows hok hs resize _ _ fun hr => ?_
      obtain ⟨hx, hy⟩ := hfit hr p hmem hs
      exact ⟨(fits_iff hok.x.dstLen.1).2 hx, (fits_iff hok.y.dstLen.1).2 hy⟩
    · intro i p hp hh
      exact hran.mem_disabled.2 ⟨p, hp, hidden_start (h p (List.mem_of_getElem? hp)) hh⟩
    · intro i hi
      have hlen : i < d.planes.length := d.count ▸ hi
      rw [hran.mem_disabled, hran.mem_enabled, List.getElem?_eq_getElem hlen]
      simp
    · intro i hi
      obtain ⟨p, hp, -⟩ := hran.mem_enabled.1 hi
      exact d.count ▸ (List.getElem?_eq_some_iff.1 hp).1
    · rw [hran.route, hran.enabled, List.map_map]
      rfl
    · rw [hran.enabled, List.length_map]
      exact hran.fcolor

/-! ## Displays -/

def DisplayPlane.hidden : DisplayPlane :=
  { fbStart := 0, fbPitch := 2880, srcX := 0, srcY := 0, srcW := 720, srcH := 1440, dstX := 0
    dstY := 0, dstW := 720, dstH := 1440, alpha := 0 }

/-- The scaled plane of `dtest` where it is largest, of `w` by `h` pixels. -/
def DisplayPlane.zoomed (w h : BitVec 32) : DisplayPlane :=
  { fbStart := 0x48000000, fbPitch := 4 * w, srcX := 0, srcY := 0, srcW := w, srcH := h
    dstX := -360, dstY := -720, dstW := 1440, dstH := 2880, alpha := 255 }

def Display.one (p : DisplayPlane) : Display := ⟨[p, .hidden, .hidden], rfl⟩

theorem ok_hidden : DisplayPlane.hidden.Ok :=
  ⟨⟨by decide, by decide, by decide, by decide⟩, ⟨by decide, by decide, by decide, by decide⟩,
    by decide⟩

theorem ok_one {p : DisplayPlane} (h : p.Ok) : ∀ q ∈ (Display.one p).planes, q.Ok := by
  simp [Display.one, h, ok_hidden]

theorem ok_zoomed {w : BitVec 32} (hw : w = 720 ∨ w = 16384) : (DisplayPlane.zoomed w 1440).Ok := by
  rcases hw with rfl | rfl
  · exact ⟨⟨by decide, by decide, by decide, by decide⟩, ⟨by decide, by decide, by decide, by decide⟩,
      by decide⟩
  · exact ⟨⟨by decide, by decide, by decide, by decide⟩, ⟨by decide, by decide, by decide, by decide⟩,
      by decide⟩

theorem commitLaw_zoomed :
    CommitLaw true (.one (.zoomed 720 1440)) (displayCommit true (.one (.zoomed 720 1440))) := by
  refine (commitLaw_iff _ true (ok_one (ok_zoomed (.inl rfl)))).2 fun _ p hp hs => ?_
  simp only [Display.one, List.mem_cons, List.not_mem_nil, or_false] at hp
  rcases hp with rfl | rfl | rfl
  · decide
  · exact absurd rfl hs.1
  · exact absurd rfl hs.1

/-- From 16384 pixels, half of them on the panel, the scale wraps to 0. -/
theorem commitLaw_wide : (∀ p ∈ (Display.one (.zoomed 16384 1440)).planes, p.Ok) ∧
    ¬ CommitLaw true (.one (.zoomed 16384 1440))
      (displayCommit true (.one (.zoomed 16384 1440))) := by
  refine ⟨ok_one (ok_zoomed (.inr rfl)), fun hlaw => ?_⟩
  have hran := ran_displayCommit true (.one (.zoomed 16384 1440))
  have hstart : (DisplayPlane.zoomed 16384 1440).start ≠ 0 := by decide
  have hget : (Display.one (.zoomed 16384 1440)).planes[0]? = some (.zoomed 16384 1440) := rfl
  obtain ⟨q, hq, h0⟩ := List.mem_map.1 (hran.mem_enabled.2 ⟨_, hget, hstart⟩)
  obtain ⟨p, s, hp, -, hplaced⟩ := hlaw.placed q hq
  rw [h0, hget, Option.some.injEq] at hp
  subst hp
  exact absurd hplaced.fits.1 (by decide)

end PBoot
