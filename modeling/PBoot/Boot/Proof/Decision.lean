import PBoot.Boot.Proof.Priority
import PBoot.Boot.Start

/-!
# What `main` does to the RTC words

* `main_noKey`: without a key, and unless the GUI build was powered up by VBUS, `main` consumes the
  one-time request and resets the board exactly when the selected option asks for it.
* `main_menuForced`, `mainNoGui_key`: the paths that never look at the request leave it in place.
-/

namespace PBoot

/-- The GUI build goes to the menu without looking at the RTC words. -/
def BootInput.MenuForced (i : BootInput) : Prop :=
  i.build = .gui ∧ (i.key = .volumeDown ∨ (i.key = .none ∧ i.vbus = true))

/-- The RTC words after `bootfs_select_configuration`. -/
def Rtc.consumed (r : Rtc) : Rtc := if isRequest r.oneTime then { r with oneTime := 0 } else r

/-- The default is in the other word. -/
theorem rtcBootselGet_consumed (r : Rtc) : rtcBootselGet r.consumed = rtcBootselGet r := by
  unfold Rtc.consumed
  split <;> rfl

theorem main_menuForced {i : BootInput} (h : i.MenuForced) (r : Rtc) :
    (∃ g, (i.main r).1 = .menu g) ∧ (i.main r).2 = r := by
  obtain ⟨hb, hk⟩ := h
  unfold BootInput.main
  rw [hb]
  unfold mainGui
  rcases hk with hk | ⟨hk, hv⟩
  · rw [hk]
    exact ⟨⟨_, rfl⟩, rfl⟩
  · rw [hk, show i.globals.vbusPowerup = true from hv]
    exact ⟨⟨_, rfl⟩, rfl⟩

theorem bootFirst_ne_reset {media : Media} {order : List (Medium × Nat)} :
    bootFirst media order ≠ .reset := by
  unfold bootFirst
  split <;> exact fun h => nomatch h

theorem Globals.loaded_globals (i : BootInput) : i.globals.Loaded i.media :=
  Globals.loaded_init _ _ _

/-- Both builds go on so after `bootfs_select_configuration`: `boot` takes the block, `other` is
what happens when there is none and no reboot is asked for. -/
def selectThen (media : Media) (g : Globals) (r : Rtc) (boot : Selection → ConfPtr → Globals → Outcome)
    (other : Globals → Outcome) : Outcome × Rtc :=
  let (s, g, r) := bootfsSelectConfiguration media g r
  match s.sel with
  | some sbc => (boot s sbc g, r)
  | none =>
    match rebootTo s.opt r with
    | some r => (.reset, r)
    | none => (other g, r)

theorem selectThen_spec {media : Media} {g : Globals} (h : g.Loaded media) (r : Rtc)
    {boot : Selection → ConfPtr → Globals → Outcome} {other : Globals → Outcome}
    (hboot : ∀ s sbc g, boot s sbc g ≠ .reset)
    (hother : ∀ g : Globals, g.Loaded media → other g ≠ .reset) :
    (RebootRequested .none r → (selectThen media g r boot other).1 = .reset ∧
        rebootTo (rtcOption r) r.consumed = some (selectThen media g r boot other).2) ∧
      (¬ RebootRequested .none r → (selectThen media g r boot other).1 ≠ .reset ∧
        (selectThen media g r boot other).2 = r.consumed) := by
  obtain ⟨hs, ho, hl, hr⟩ := selectConfiguration_spec h r
  have hr : (bootfsSelectConfiguration media g r).2.2 = r.consumed := hr
  unfold selectThen
  constructor
  · intro hreq
    obtain ⟨r', hr'⟩ := rebootTo_isSome (r := r.consumed) hreq.2
    -- a reboot request selects no block
    have hsel : (optionOf (rtcOption r)).bind media.conf = none := by
      rcases hreq.2 with he | he <;> rw [he] <;> rfl
    simp only [hs, hsel, ho, hr, hr', and_self]
  · intro hreq
    have hno : ¬(rtcOption r = bootselFel ∨ rtcOption r = bootselEmmc) := fun h => hreq ⟨rfl, h⟩
    simp only [hs, ho, hr, rebootTo_eq_none hno]
    rcases (optionOf (rtcOption r)).bind media.conf with _ | sbc
    · exact ⟨hother _ hl, rfl⟩
    · exact ⟨hboot _ _ _, rfl⟩

/-- **`main` without a key**: a reset exactly on a reboot request, which then is what the word at
0x104 holds; otherwise the request is gone. -/
theorem main_noKey {i : BootInput} (hk : i.key = .none) (hm : ¬ i.MenuForced) (r : Rtc) :
    (RebootRequested .none r → (i.main r).1 = .reset ∧
        rebootTo (rtcOption r) r.consumed = some (i.main r).2) ∧
      (¬ RebootRequested .none r → (i.main r).1 ≠ .reset ∧ (i.main r).2 = r.consumed) := by
  have hl := Globals.loaded_globals i
  rcases hb : i.build with _ | _
  · have hv : i.globals.vbusPowerup = false := by
      by_contra hv
      exact hm ⟨hb, .inr ⟨hk, by simpa [BootInput.globals, Globals.init] using hv⟩⟩
    have he : i.main r = selectThen i.media i.globals r
        (fun _ sbc _ => .boot sbc.1 sbc.2 (hasSplash sbc.1 sbc.2 i.mem)) (bootUi i.media) := by
      unfold BootInput.main mainGui selectThen
      rw [hb, hk, hv]
      simp only [reduceCtorEq, ↓reduceIte, Bool.false_eq_true, or_self]
      rcases (bootfsSelectConfiguration i.media i.globals r).1.sel with _ | ⟨fs, k⟩ <;> rfl
    rw [he]
    exact selectThen_spec hl r (fun _ _ _ h => nomatch h) fun _ _ h => nomatch h
  · have he : i.main r = selectThen i.media i.globals r
        (fun s sbc g => tryConf i.media s.opt.toNat (some sbc) g)
        (fun g => tryConf i.media 0 none g) := by
      unfold BootInput.main mainNoGui
      rw [hb, hk]
      rfl
    rw [he]
    exact selectThen_spec hl r (fun _ _ _ h => nomatch h) fun g hg => by
      rw [tryConf_zero hg]
      exact bootFirst_ne_reset

/-- The block that the build without GUI boots for a volume key. -/
def keyBlock (media : Media) : Key → Option ConfPtr
  | .none => none
  | .volumeUp => media.conf (.sd, 0)
  | .volumeDown => (media.conf (.emmc, 1)).or
      ((media.conf (.sd, 1)).or ((confAt media.sd 1).or (media.conf (.emmc, 0))))

theorem mainNoGui_key {i : BootInput} (hb : i.build = .noGui) (hk : i.key ≠ .none) (r : Rtc) :
    (i.main r).1 = bootSbc (keyBlock i.media i.key) ∧ (i.main r).2 = r := by
  have hl := Globals.loaded_globals i
  unfold BootInput.main
  rw [hb]
  rcases hkey : i.key with _ | _ | _
  · exact absurd hkey hk
  · refine ⟨?_, rfl⟩
    dsimp only
    rw [mainNoGui_volumeDown, tryConf_one hl]
    unfold keyBlock bootFirst
    rcases he : i.media.conf (.emmc, 1) with _ | ⟨fs, k⟩
    · rcases hs : i.media.conf (.sd, 1) with _ | ⟨fs, k⟩
      · rcases hm : i.media.sd with _ | fs
        · have hs0 : i.media.conf (.sd, 0) = none := by
            simp [Media.conf, Media.fs, hm, confAt, ConfPtr.valid]
          rcases h0 : i.media.conf (.emmc, 0) with _ | ⟨fs, k⟩
          · simp [confAt, h0, hs0, bootSbc]
          · simp [confAt, h0, bootSbc]
        · simp [confAt, bootSbc]
      · simp [bootSbc]
    · simp [bootSbc]
  · dsimp only
    rw [mainNoGui_volumeUp hl]
    refine ⟨?_, rfl⟩
    unfold keyBlock bootFirst
    rcases hs : i.media.conf (.sd, 0) with _ | ⟨fs, k⟩
    · simp [hs, bootSbc]
    · simp [hs, bootSbc]

end PBoot
