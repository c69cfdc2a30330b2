import PBoot.Boot.Proof.Decision
import PBoot.Lib.Run

/-!
# The one-time boot request

A request at 0x104 is consumed by the preamble or by `bootfs_select_configuration`.

* `bootOnce_request`: what one boot does to a request it finds.
* `requestGone_iff`, `neverStale`: a boot that hands over leaves the request in place exactly when
  it takes one of the paths of `main` that never look at it, and without such boots no request
  outlives the boot that finds it.
-/

namespace PBoot

open Runs

/-! ## One boot -/

/-- `main` runs with a request in the word and takes a path that never looks at it. -/
def IgnoresRequest (i : BootInput) (r : Rtc) : Prop :=
  isRequest r.oneTime = true ∧ r.oneTime ≠ felRequest ∧ r.oneTime ≠ emmcRequest ∧
    (i.MenuForced ∨ (i.build = .noGui ∧ i.key ≠ .none))

section
variable (boots : Bootfs → Nat → Bool)

/-- The boot ends in an operating system, the menu, FEL or the eMMC boot loader; `boots` tells
which blocks `boot_selection` can boot. -/
def HandsOver : BootEnd → Prop
  | .fel | .emmcLoader | .main (.menu _) => True
  | .main (.boot fs k _) => boots fs k = true
  | .main _ => False

/-- A boot that hands over does not leave the request it found. -/
def RequestGone (i : BootInput) (r : Rtc) : Prop :=
  isRequest r.oneTime = true → HandsOver boots (bootOnce i r).1 →
    (bootOnce i r).2.oneTime ≠ r.oneTime

/-- The request is ignored and there is something to hand over to. -/
def KeepsRequest (i : BootInput) (r : Rtc) : Prop :=
  IgnoresRequest i r ∧
    (i.build = .noGui → ∃ fs k, keyBlock i.media i.key = some (fs, k) ∧ boots fs k = true)

end

theorem start32_pboot {r : Rtc} (hf : r.oneTime ≠ felRequest) (he : r.oneTime ≠ emmcRequest) :
    start32 r = (.pboot, r) := by
  unfold start32
  rw [if_neg hf, if_neg he]

theorem bootOnce_pboot (i : BootInput) {r : Rtc} (hf : r.oneTime ≠ felRequest)
    (he : r.oneTime ≠ emmcRequest) : bootOnce i r = (.main (i.main r).1, (i.main r).2) := by
  unfold bootOnce
  rw [start32_pboot hf he]

theorem Rtc.consumed_of_request {r : Rtc} (h : isRequest r.oneTime = true) :
    r.consumed = { r with oneTime := 0 } := if_pos h

theorem ne_of_isRequest {w : BitVec 32} (h : isRequest w = true) : (0 : BitVec 32) ≠ w := by
  rintro rfl
  exact absurd h (by decide)

theorem rebootTo_request {opt : Int} {r r' : Rtc} (h : rebootTo opt r = some r') :
    r'.oneTime = felRequest ∨ r'.oneTime = emmcRequest := by
  unfold rebootTo at h
  split at h
  · cases h; exact .inl rfl
  · split at h
    · cases h; exact .inr rfl
    · cases h

/-- Whatever its ending, a boot that looks at the request replaces it. -/
theorem bootOnce_request {i : BootInput} {r : Rtc} (hr : isRequest r.oneTime = true)
    (hi : ¬ IgnoresRequest i r) : (bootOnce i r).2.oneTime ≠ r.oneTime := by
  have h0 := ne_of_isRequest hr
  by_cases hf : r.oneTime = felRequest
  · unfold bootOnce start32
    rw [if_pos hf]
    exact h0
  · by_cases he : r.oneTime = emmcRequest
    · unfold bootOnce start32
      rw [if_neg hf, if_pos he]
      exact h0
    · rw [bootOnce_pboot i hf he]
      have hm : ¬ i.MenuForced := fun h => hi ⟨hr, hf, he, .inl h⟩
      by_cases hk : i.key = .none
      · obtain ⟨hreset, hgo⟩ := main_noKey hk hm r
        by_cases hreq : RebootRequested .none r
        · rcases rebootTo_request (hreset hreq).2 with h | h
          · exact fun hne => hf (hne.symm.trans h)
          · exact fun hne => he (hne.symm.trans h)
        · rw [(hgo hreq).2, Rtc.consumed_of_request hr]
          exact h0
      · have hb : i.build = .gui := by
          rcases hb : i.build with _ | _
          · rfl
          · exact absurd ⟨hr, hf, he, .inr ⟨hb, hk⟩⟩ hi
        have hv : i.key = .volumeUp := by
          rcases hkey : i.key with _ | _ | _
          · exact absurd hkey hk
          · exact absurd ⟨hb, .inl hkey⟩ hm
          · rfl
        -- volume up writes a FEL request over it
        have hw : (i.main r).2.oneTime = felRequest := by
          unfold BootInput.main mainGui
          rw [hb, hv]
          rfl
        rw [hw]
        exact fun h => hf h.symm

/-- A boot that ignores the request changes nothing. -/
theorem bootOnce_ignores {i : BootInput} {r : Rtc} (hi : IgnoresRequest i r) :
    (bootOnce i r).2 = r ∧ ((∃ g, (bootOnce i r).1 = .main (.menu g)) ∧ i.build = .gui ∨
      (bootOnce i r).1 = .main (bootSbc (keyBlock i.media i.key)) ∧ i.build = .noGui) := by
  obtain ⟨-, hf, he, h⟩ := hi
  rw [bootOnce_pboot i hf he]
  rcases h with h | ⟨hb, hk⟩
  · obtain ⟨⟨g, hg⟩, hr⟩ := main_menuForced h r
    exact ⟨hr, .inl ⟨⟨g, congrArg _ hg⟩, h.1⟩⟩
  · obtain ⟨ho, hr⟩ := mainNoGui_key hb hk r
    exact ⟨hr, .inr ⟨congrArg _ ho, hb⟩⟩

theorem handsOver_bootSbc {boots : Bootfs → Nat → Bool} (sbc : Option ConfPtr) :
    HandsOver boots (.main (bootSbc sbc)) ↔
      ∃ fs k, sbc = some (fs, k) ∧ boots fs k = true := by
  rcases sbc with _ | ⟨fs, k⟩
  · exact ⟨fun h => h.elim, fun ⟨_, _, h, _⟩ => nomatch h⟩
  · exact ⟨fun h => ⟨fs, k, rfl, h⟩, fun ⟨_, _, h, hb⟩ => by cases h; exact hb⟩

theorem requestGone_iff (boots : Bootfs → Nat → Bool) (i : BootInput) (r : Rtc) :
    RequestGone boots i r ↔ ¬ KeepsRequest boots i r := by
  constructor
  · rintro hg ⟨hi, hk⟩
    obtain ⟨hr, ⟨⟨g, hm⟩, -⟩ | ⟨hs, hb⟩⟩ := bootOnce_ignores hi
    · refine hg hi.1 ?_ (congrArg _ hr)
      rw [hm]
      trivial
    · refine hg hi.1 ?_ (congrArg _ hr)
      rw [hs]
      exact (handsOver_bootSbc _).2 (hk hb)
  · intro hk hr ho
    by_cases hi : IgnoresRequest i r
    · obtain ⟨-, ⟨-, hb⟩ | ⟨hs, -⟩⟩ := bootOnce_ignores hi
      · exact absurd ⟨hi, fun h => by rw [hb] at h; cases h⟩ hk
      · rw [hs] at ho
        exact absurd ⟨hi, fun _ => (handsOver_bootSbc _).1 ho⟩ hk
    · exact bootOnce_request hr hi

/-! ## Sequences of boots -/

/-- The RTC words between boots; `stale` is set when the word at 0x104 holds a request that the
boot before has already found there. -/
structure Boots where
  rtc : Rtc
  stale : Bool

inductive BootEvent where
  | boot (i : BootInput)
  /-- An operating system writes the word at 0x104. -/
  | request (w : BitVec 32)
  /-- The menu or an operating system writes the word at 0x100. -/
  | persist (w : BitVec 32)

def Boots.next (s : Boots) : BootEvent → Boots
  | .boot i =>
    let r := (bootOnce i s.rtc).2
    { rtc := r, stale := isRequest s.rtc.oneTime && r.oneTime == s.rtc.oneTime }
  | .request w => { rtc := { s.rtc with oneTime := w }, stale := false }
  | .persist w => { s with rtc := { s.rtc with persistent := w } }

/-- The boots of a run do not ignore requests. -/
def LooksAtRequest (s : Boots) (e : BootEvent) : Prop := ∀ i, e = .boot i → ¬ IgnoresRequest i s.rtc

def Boots.step (s : Boots) (e : BootEvent) (s' : Boots) : Prop := s' = s.next e

theorem stale_step {s s' : Boots} {e : BootEvent} (hs : s.stale = false)
    (h : Guarded Boots.step LooksAtRequest s e s') : s'.stale = false := by
  obtain ⟨hl, rfl⟩ := h
  cases e with
  | boot i =>
    rcases hr : isRequest s.rtc.oneTime with _ | _
    · simp [Boots.next, hr]
    · simp [Boots.next, bootOnce_request hr (hl i rfl)]
  | request w => rfl
  | persist w => exact hs

/-- In every run no boot finds a request that an earlier boot has found. -/
def NeverStale : Prop :=
  ∀ r es s', Run (Guarded Boots.step LooksAtRequest) ⟨r, false⟩ es s' → s'.stale = false

theorem neverStale : NeverStale := by
  intro r es s' h
  exact h.inv (P := fun s => s.stale = false) rfl fun _ _ _ hs hst => stale_step hs hst

/-- **The one-time request is gone** after a boot that hands over, except on the paths that never
look at it; over a run without such boots no request affects a second boot. -/
theorem oneTime_gone (boots : Bootfs → Nat → Bool) :
    (∀ i r, RequestGone boots i r ↔ ¬ KeepsRequest boots i r) ∧ NeverStale :=
  ⟨requestGone_iff boots, neverStale⟩

/-- Powered up by VBUS, the GUI build shows the menu and leaves the request for SD option 1. -/
def vbusBoot : BootInput :=
  { build := .gui, key := .none, vbus := true, bootSource := bootedFromMmc0
    media := { sd := some blankFs, emmc := none }, mem := fun _ => 0 }

theorem oneTime_survives :
    ¬ RequestGone (fun _ _ => true) vbusBoot ⟨0#32, 0xb0010021#32⟩ :=
  fun h => h (by decide) trivial rfl

end PBoot
