import PBoot.Display.Proof.Commit

/-!
# Divisions by zero

`divideLaw_iff`: a call that hides the planes that are empty, or have no framebuffer, and never
divides by zero is one whose planes all have a size on the panel that is not zero. The clipping of a
plane divides before it is known whether the plane is shown, so that a plane that is left as
`zalloc` returns it is enough to divide by zero.
-/

namespace PBoot

open Bytes

/-- Nothing of the plane is on the panel, or it has no source. -/
def DisplayPlane.Empty (p : DisplayPlane) : Prop :=
  (p.cutX.dstLen = 0 ∨ p.cutY.dstLen = 0) ∨ p.srcW = 0 ∨ p.srcH = 0

/-- The call gets to its end without dividing by zero, and the planes that cannot be seen are
disabled. -/
def DivideLaw (resize : Bool) (d : Display) : Prop :=
  ∃ c, displayCommitChecked resize d = some c ∧
    ∀ i p, d.planes[i]? = some p → p.Empty ∨ p.fbStart = 0 → i ∈ c.disabled

/-- The size on the panel is not zero. -/
def DisplayPlane.Sized (p : DisplayPlane) : Prop := p.dstW ≠ 0 ∧ p.dstH ≠ 0

/-! ## What is checked -/

section
variable {panel : Int} {dst dstLen src srcLen : BitVec 32} {resize : Bool} {c : Commit} {i : Nat}
  {p : DisplayPlane}

theorem toNat_ne_zero {b : BitVec 32} (h : b ≠ 0) : b.toNat ≠ 0 :=
  fun h0 => h (BitVec.eq_of_toNat_eq h0)

theorem divide_of_ne {a b : Nat} (h : b ≠ 0) : divide a b = some (a / b) := if_neg h

theorem clipChecked_zero : clipChecked panel dst 0 src srcLen = none := rfl

theorem clipChecked_of_ne (h : dstLen ≠ 0) :
    clipChecked panel dst dstLen src srcLen = some (clip panel dst dstLen src srcLen) := by
  simp only [clipChecked, divide_of_ne (toNat_ne_zero h), Option.bind_eq_bind, Option.bind_some]
  rfl

/-- The scale divides by what is left on the panel, of which something is left where the source
shows. -/
theorem clip_dstLen_ne (h : (clip panel dst dstLen src srcLen).srcLen ≠ 0) :
    (clip panel dst dstLen src srcLen).dstLen ≠ 0 := by
  intro h0
  apply h
  change u32 ((clip panel dst dstLen src srcLen).dstLen * srcLen.toNat) / dstLen.toNat = 0
  rw [h0, Nat.zero_mul]
  exact Nat.zero_div _

theorem scalerChecked_isSome {x y : Clip} (hx : x.dstLen ≠ 0) (hy : y.dstLen ≠ 0) :
    ∃ s, scalerChecked x y = some s := by
  unfold scalerChecked
  split
  · rw [divide_of_ne hx, divide_of_ne hy]
    exact ⟨_, rfl⟩
  · exact ⟨_, rfl⟩

theorem start_ne (h : p.start ≠ 0) : p.clipX.dstLen ≠ 0 ∧ p.clipY.dstLen ≠ 0 := by
  unfold DisplayPlane.start at h
  split at h
  · exact absurd rfl h
  · rename_i hno
    simp only [not_or] at hno
    unfold DisplayPlane.clipX DisplayPlane.clipY at hno ⊢
    exact ⟨clip_dstLen_ne hno.1, clip_dstLen_ne hno.2.1⟩

/-- A plane with a size divides by nothing that is zero. -/
theorem stepChecked_sized (h : p.Sized) : c.stepChecked resize i p = some (c.step resize i p) := by
  have hx : clipChecked panelWidth p.dstX p.dstW p.srcX p.srcW = some p.clipX :=
    clipChecked_of_ne h.1
  have hy : clipChecked panelHeight p.dstY p.dstH p.srcY p.srcH = some p.clipY :=
    clipChecked_of_ne h.2
  unfold Commit.stepChecked
  rw [hx, hy, Option.bind_eq_bind, Option.bind_some, Option.bind_eq_bind, Option.bind_some]
  by_cases hs : p.start ≠ 0 ∧ resize = true
  · rw [if_pos hs]
    obtain ⟨hlx, hly⟩ := start_ne hs.1
    obtain ⟨s, hsc⟩ := scalerChecked_isSome hlx hly
    rw [hsc, Option.bind_some]
  · rw [if_neg hs]

/-- A plane without one divides by zero, whether it is shown or not. -/
theorem stepChecked_none (h : ¬ p.Sized) : c.stepChecked resize i p = none := by
  unfold Commit.stepChecked
  by_cases hw : p.dstW = 0
  · rw [hw, clipChecked_zero]
    rfl
  · have hh : p.dstH = 0 := by
      by_contra hh
      exact h ⟨hw, hh⟩
    rw [clipChecked_of_ne hw, hh, clipChecked_zero]
    rfl

theorem stepsChecked_sized {ps : List DisplayPlane} (h : ∀ p ∈ ps, p.Sized) :
    c.stepsChecked resize i ps = some (c.steps resize i ps) := by
  induction ps generalizing c i with
  | nil => rfl
  | cons p ps ih =>
    obtain ⟨hp, hps⟩ := List.forall_mem_cons.1 h
    rw [Commit.stepsChecked, stepChecked_sized hp, Commit.steps]
    exact ih hps

theorem sized_of_stepsChecked {ps : List DisplayPlane} {c' : Commit}
    (h : c.stepsChecked resize i ps = some c') : ∀ p ∈ ps, p.Sized := by
  induction ps generalizing c i with
  | nil => exact fun p hp => absurd hp List.not_mem_nil
  | cons p ps ih =>
    rw [Commit.stepsChecked] at h
    by_cases hp : p.Sized
    · rw [stepChecked_sized hp] at h
      exact List.forall_mem_cons.2 ⟨hp, ih h⟩
    · rw [stepChecked_none hp] at h
      cases h

/-! ## What is empty -/

/-- **Nothing of an empty interval is left**, also where positions and sizes overflow. -/
theorem clip_dstLen_zero (hn : 0 < panel) (hn' : panel ≤ 65535)
    (h : (cut panel dst.toInt dstLen.toNat src.toNat srcLen.toNat).dstLen = 0) :
    (clip panel dst dstLen src srcLen).dstLen = 0 := by
  have hlo := dst.le_toInt
  have hhi := dst.toInt_lt
  have hlt := dstLen.isLt
  simp only [cut] at h
  obtain ⟨hd, hd'⟩ := u32_toNat (z := clamp dst.toInt 0 panel) (by unfold clamp; omega)
    (by unfold clamp; omega)
  have ho : u32 (-min dst.toInt 0).toNat = (-min dst.toInt 0).toNat := u32_of_lt (by omega)
  have hdiff : wrapInt (dstLen.toInt - toInt (-min dst.toInt 0).toNat) =
      wrapInt (dstLen.toNat + min dst.toInt 0) := by
    rw [BitVec.toInt_eq_toNat_bmod]
    unfold toInt wrapInt
    rw [Int.bmod_sub_bmod, Int.sub_bmod_bmod, Int.toNat_of_nonneg (by omega), sub_neg_eq_add]
  have hclamp : clamp (wrapInt (dstLen.toNat + min dst.toInt 0)) 0
      (panel - clamp dst.toInt 0 panel) = 0 := by
    rcases le_or_gt panel dst.toInt with hout | hin
    · unfold clamp
      omega
    · have hneg : (dstLen.toNat : Int) + min dst.toInt 0 ≤ 0 := by omega
      rw [wrapInt_of_lt (by omega) (by omega)]
      unfold clamp
      omega
  simp only [clip, ho, hd, hd', hdiff, hclamp]
  rfl

/-- What is empty, in one direction, has no source left. -/
theorem clip_srcLen_zero (hn : 0 < panel) (hn' : panel ≤ 65535)
    (h : (cut panel dst.toInt dstLen.toNat src.toNat srcLen.toNat).dstLen = 0 ∨ srcLen = 0) :
    (clip panel dst dstLen src srcLen).srcLen = 0 := by
  change u32 ((clip panel dst dstLen src srcLen).dstLen * srcLen.toNat) / dstLen.toNat = 0
  have hmul : (clip panel dst dstLen src srcLen).dstLen * srcLen.toNat = 0 := by
    rcases h with h | h
    · rw [clip_dstLen_zero hn hn' h, Nat.zero_mul]
    · rw [h]
      exact Nat.mul_zero _
  rw [hmul]
  exact Nat.zero_div _

theorem start_of_empty (h : p.Empty ∨ p.fbStart = 0) : p.start = 0 := by
  have hx : p.cutX.dstLen = 0 ∨ p.srcW = 0 → p.clipX.srcLen = 0 :=
    clip_srcLen_zero (by decide) (by decide)
  have hy : p.cutY.dstLen = 0 ∨ p.srcH = 0 → p.clipY.srcLen = 0 :=
    clip_srcLen_zero (by decide) (by decide)
  unfold DisplayPlane.start
  refine if_pos ?_
  rcases h with ((h | h) | h | h) | h
  · exact .inl (hx (.inl h))
  · exact .inr (.inl (hy (.inl h)))
  · exact .inl (hx (.inr h))
  · exact .inr (.inl (hy (.inr h)))
  · exact .inr (.inr h)

end

/-! ## The law -/

/-- **The law holds exactly where all planes have a size.** -/
theorem divideLaw_iff (resize : Bool) (d : Display) :
    DivideLaw resize d ↔ ∀ p ∈ d.planes, p.dstW ≠ 0 ∧ p.dstH ≠ 0 := by
  constructor
  · rintro ⟨c, hc, -⟩
    exact sized_of_stepsChecked hc
  · intro h
    refine ⟨displayCommit resize d, stepsChecked_sized h, fun i p hp he => ?_⟩
    exact (ran_displayCommit resize d).mem_disabled.2 ⟨p, hp, start_of_empty he⟩

/-- A plane as `zalloc` leaves it. -/
def DisplayPlane.zero : DisplayPlane :=
  { fbStart := 0, fbPitch := 0, srcX := 0, srcY := 0, srcW := 0, srcH := 0, dstX := 0, dstY := 0
    dstW := 0, dstH := 0, alpha := 0 }

/-- The display that `main` shows the splash screen with. -/
def Display.splash : Display :=
  ⟨[{ DisplayPlane.zero with
      fbStart := 0x48000000, fbPitch := 720 * 4, srcW := 720, srcH := 1440, dstW := 720
      dstH := 1440 }, .zero, .zero], rfl⟩

/-- The splash screen divides by zero, in either build. -/
theorem divideLaw_splash : ¬ DivideLaw true .splash ∧ ¬ DivideLaw false .splash := by
  have hmem : DisplayPlane.zero ∈ Display.splash.planes := by simp [Display.splash]
  refine ⟨?_, ?_⟩
  · rintro ⟨c, hc, -⟩
    exact (sized_of_stepsChecked hc _ hmem).1 rfl
  · rintro ⟨c, hc, -⟩
    exact (sized_of_stepsChecked hc _ hmem).1 rfl

end PBoot
