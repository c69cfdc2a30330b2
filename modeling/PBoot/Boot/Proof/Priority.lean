import PBoot.Boot.Main

/-!
# The boot priority of the build without GUI

`bootOrder` is the documented list of options for a pressed key and the RTC words; `Media.conf`
is the configuration an option names, if it exists.

* `selectConfiguration_spec`: `bootfs_select_configuration` yields the option of the RTC words.
* `tryConf_zero`, `tryConf_one`: what is booted from the label `try_conf0` on. On the second pass
  `sbc` still points to the SD card's block 1, so that the pass is skipped.
* `mainNoGui_priority_iff`: the list is followed unless volume down is pressed, an SD boot file
  system is loaded and option 1 exists nowhere.
-/

namespace PBoot

/-! ## The documented order -/

inductive Medium where
  | emmc | sd
  deriving DecidableEq, Repr

def Media.fs (media : Media) : Medium → Option Bootfs
  | .emmc => media.emmc
  | .sd => media.sd

/-- The configuration of an option: its file system was loaded and its block has the magic. -/
def Media.conf (media : Media) (c : Medium × Nat) : Option ConfPtr :=
  if ConfPtr.valid (confAt (media.fs c.1) c.2) then confAt (media.fs c.1) c.2 else none

/-- The option number the RTC words ask for, -1 for none. -/
def rtcOption (r : Rtc) : Int :=
  if isRequest r.oneTime then (r.oneTime &&& 0xffff#32).toNat else rtcBootselGet r

/-- The medium and block of an option number. -/
def optionOf (opt : Int) : Option (Medium × Nat) :=
  if opt < 0 then none
  else if opt < 32 then some (.emmc, opt.toNat)
  else if opt < 64 then some (.sd, opt.toNat - 32)
  else none

/-- The options to try, in order. -/
def bootOrder (key : Key) (r : Rtc) : List (Medium × Nat) :=
  match key with
  | .volumeUp => [(.sd, 0)]
  | .volumeDown => [(.emmc, 1), (.sd, 1), (.emmc, 0), (.sd, 0)]
  | .none => (optionOf (rtcOption r)).toList ++ [(.emmc, 0), (.sd, 0)]

/-- The RTC words ask for a reboot. -/
def RebootRequested (key : Key) (r : Rtc) : Prop :=
  key = .none ∧ (rtcOption r = bootselFel ∨ rtcOption r = bootselEmmc)

/-- What is to happen: the first option that exists is booted. -/
def bootFirst (media : Media) (order : List (Medium × Nat)) : Outcome :=
  match order.findSome? media.conf with
  | some (fs, i) => .boot fs i false
  | none => nothingToBoot

/-- The boot priority is kept. -/
structure PriorityKept (media : Media) (key : Key) (g : Globals) (r : Rtc) : Prop where
  /-- `boot_selection` never gets a block without the magic. -/
  valid : ∀ fs i splash, (mainNoGui media key g r).1 = .boot fs i splash → fs.isConf i = true
  reboot : RebootRequested key r → (mainNoGui media key g r).1 = .reset
  first : ¬ RebootRequested key r →
    (mainNoGui media key g r).1 = bootFirst media (bootOrder key r)

/-! ## Selecting by the RTC words -/

theorem Media.conf_some {media : Media} {c : Medium × Nat} {fs : Bootfs} {i : Nat}
    (h : media.conf c = some (fs, i)) : media.fs c.1 = some fs ∧ i = c.2 ∧ fs.isConf i = true := by
  unfold Media.conf at h
  split at h
  · rename_i hv
    rcases hf : media.fs c.1 with _ | fs'
    · simp [confAt, hf] at h
    · simp only [confAt, hf, Option.map_some, Option.some.injEq, Prod.mk.injEq] at h
      obtain ⟨rfl, rfl⟩ := h
      rw [hf] at hv
      exact ⟨rfl, rfl, hv⟩
  · cases h

/-- An option exists, and `sbc` is its valid block; or `sbc` is not valid. -/
theorem Media.conf_cases (media : Media) (c : Medium × Nat) :
    (∃ sbc, confAt (media.fs c.1) c.2 = some sbc ∧ ConfPtr.valid (some sbc) = true ∧
        media.conf c = some sbc) ∨
      (ConfPtr.valid (confAt (media.fs c.1) c.2) = false ∧ media.conf c = none) := by
  unfold Media.conf
  rcases hc : confAt (media.fs c.1) c.2 with _ | sbc
  · exact .inr ⟨rfl, rfl⟩
  · rcases hv : ConfPtr.valid (some sbc) with _ | _
    · exact .inr ⟨rfl, rfl⟩
    · exact .inl ⟨sbc, rfl, hv, if_pos rfl⟩

section
variable {media : Media} {g : Globals} {r : Rtc}

/-- The block the RTC words select, what is loaded to find it, and what is left of the words. -/
theorem selectBlock_spec (h : g.Loaded media) (n : Nat) :
    (selectBlock media g n).1.sel = (optionOf n).bind media.conf ∧
      (selectBlock media g n).1.opt = n ∧ (selectBlock media g n).2.Loaded media := by
  unfold selectBlock
  by_cases h32 : n < 32
  · have ho : optionOf (n : Int) = some (.emmc, n) := by
      simp only [optionOf, show ¬(n : Int) < 0 by omega, show (n : Int) < 32 by omega, ↓reduceIte,
        Int.toNat_natCast]
    rw [if_pos h32, ho]
    dsimp only
    rw [mmcTryLoad_emmc h _ (by decide)]
    exact ⟨rfl, rfl, mmcTryLoad_loaded h _⟩
  · by_cases h64 : n < 64
    · have ho : optionOf (n : Int) = some (.sd, n - 32) := by
        simp only [optionOf, show ¬(n : Int) < 0 by omega, show ¬(n : Int) < 32 by omega,
          show (n : Int) < 64 by omega, ↓reduceIte, Int.toNat_natCast]
      rw [if_neg h32, if_pos h64, ho]
      dsimp only
      rw [mmcTryLoad_sd h _ (by decide)]
      exact ⟨rfl, rfl, mmcTryLoad_loaded h _⟩
    · have ho : optionOf (n : Int) = none := by
        simp only [optionOf, show ¬(n : Int) < 0 by omega, show ¬(n : Int) < 32 by omega,
          show ¬(n : Int) < 64 by omega, ↓reduceIte]
      rw [if_neg h32, if_neg h64, ho]
      exact ⟨rfl, rfl, h⟩

theorem selectConfiguration_spec (h : g.Loaded media) (r : Rtc) :
    (bootfsSelectConfiguration media g r).1.sel = (optionOf (rtcOption r)).bind media.conf ∧
      (bootfsSelectConfiguration media g r).1.opt = rtcOption r ∧
      (bootfsSelectConfiguration media g r).2.1.Loaded media ∧
      (bootfsSelectConfiguration media g r).2.2 =
        if isRequest r.oneTime then { r with oneTime := 0 } else r := by
  unfold bootfsSelectConfiguration rtcOption
  rcases hr : isRequest r.oneTime with _ | _
  · by_cases h0 : 0 ≤ rtcBootselGet r
    · obtain ⟨n, hn⟩ := Int.eq_ofNat_of_zero_le h0
      obtain ⟨h1, h2, h3⟩ := selectBlock_spec h (rtcBootselGet r).toNat
      rw [hn, Int.toNat_natCast] at h1 h2 h3
      simp only [hr, Bool.false_eq_true, ↓reduceIte, hn, Int.toNat_natCast, Int.natCast_nonneg]
      exact ⟨h1, h2, h3, trivial⟩
    · have hm : rtcBootselGet r = -1 := by have := rtcBootselGet_range r; omega
      simp only [hr, Bool.false_eq_true, ↓reduceIte, hm, show ¬(0 : Int) ≤ -1 by decide]
      exact ⟨rfl, trivial, h, trivial⟩
  · obtain ⟨h1, h2, h3⟩ := selectBlock_spec h (r.oneTime &&& 0xffff#32).toNat
    simp only [hr, ↓reduceIte]
    exact ⟨h1, h2, h3, trivial⟩

/-! ## From `try_conf0` on -/

/-- One pass: eMMC, then SD, then the jump back. -/
theorem tryConf0_none (h : g.Loaded media) (retry : Option ConfPtr → Globals → Outcome) (k : Nat) :
    ∃ g', g'.Loaded media ∧
      tryConf0 media retry k none g =
        match media.conf (.emmc, k), media.conf (.sd, k) with
        | some sbc, _ => bootSbc (some sbc)
        | none, some sbc => bootSbc (some sbc)
        | none, none => if k = 1 then retry (confAt media.sd k) g' else nothingToBoot := by
  refine ⟨mmcTryLoad media (mmcTryLoad media g (bit 2)) (bit 0),
    mmcTryLoad_loaded (mmcTryLoad_loaded h _) _, ?_⟩
  unfold tryConf0
  simp only [Option.isNone_none, ↓reduceIte, mmcTryLoad_emmc h (bit 2) (by decide),
    mmcTryLoad_sd (mmcTryLoad_loaded h (bit 2)) (bit 0) (by decide)]
  rcases media.conf_cases (.emmc, k) with ⟨sbc, hc, hv, he⟩ | ⟨hv, he⟩
  · simp only [Media.fs] at hc
    rw [hc, if_pos hv, he]
  · simp only [Media.fs] at hv
    rw [hv, he]
    rcases media.conf_cases (.sd, k) with ⟨sbc, hc, hv, hs⟩ | ⟨hv, hs⟩
    · simp only [Media.fs] at hc
      rw [hc, hv, hs]
      rfl
    · simp only [Media.fs] at hv
      rw [hv, hs]
      rfl

theorem tryConf_zero (h : g.Loaded media) :
    tryConf media 0 none g = bootFirst media [(.emmc, 0), (.sd, 0)] := by
  obtain ⟨g', -, hp⟩ := tryConf0_none h (tryConf0 media (fun _ _ => nothingToBoot) 0) 0
  rw [tryConf, hp]
  unfold bootFirst
  rcases he : media.conf (.emmc, 0) with _ | ⟨fs, i⟩
  · rcases hs : media.conf (.sd, 0) with _ | ⟨fs, i⟩
    · simp [he, hs]
    · simp [he, hs, bootSbc]
  · simp [he, bootSbc]

/-- With volume down pressed: the second pass runs only when no SD file system is loaded, else
what `sbc` still points to is booted. -/
theorem tryConf_one (h : g.Loaded media) :
    tryConf media 1 none g =
      match media.conf (.emmc, 1), media.conf (.sd, 1), media.sd with
      | some (fs, i), _, _ => .boot fs i false
      | none, some (fs, i), _ => .boot fs i false
      | none, none, some fs => .boot fs 1 false
      | none, none, none => bootFirst media [(.emmc, 0), (.sd, 0)] := by
  obtain ⟨g', hg', hp⟩ := tryConf0_none h (tryConf0 media (fun _ _ => nothingToBoot) 0) 1
  rw [tryConf, hp]
  rcases he : media.conf (.emmc, 1) with _ | ⟨fs, i⟩
  · rcases hs : media.conf (.sd, 1) with _ | ⟨fs, i⟩
    · rcases hm : media.sd with _ | fs
      · have := tryConf_zero hg'
        obtain ⟨g2, -, hp2⟩ := tryConf0_none hg' (fun _ _ => nothingToBoot) 0
        obtain ⟨g3, -, hp3⟩ :=
          tryConf0_none hg' (tryConf0 media (fun _ _ => nothingToBoot) 0) 0
        rw [tryConf, hp3] at this
        simp only [↓reduceIte, confAt, Option.map_none]
        rw [hp2]
        exact this
      · simp [confAt, tryConf0, bootSbc]
    · rfl
  · rfl

/-! ## The priority -/

/-- The input on which the order is not followed. -/
def SkipsSecondPass (media : Media) (key : Key) : Prop :=
  key = .volumeDown ∧ media.sd.isSome = true ∧ media.conf (.emmc, 1) = none ∧
    media.conf (.sd, 1) = none

theorem bootFirst_valid {order : List (Medium × Nat)} {fs : Bootfs} {i : Nat} {splash : Bool}
    (h : bootFirst media order = .boot fs i splash) : fs.isConf i = true := by
  unfold bootFirst at h
  split at h
  · rename_i fs' i' hf
    cases h
    obtain ⟨c, -, hc⟩ := List.exists_of_findSome?_eq_some hf
    exact (Media.conf_some hc).2.2
  · cases h

theorem mainNoGui_volumeUp (h : g.Loaded media) :
    mainNoGui media .volumeUp g r = (bootFirst media [(.sd, 0)], r) := by
  unfold mainNoGui
  simp only [mmcTryLoad_sd h (bit 0) (by decide)]
  rcases media.conf_cases (.sd, 0) with ⟨⟨fs, i⟩, hc, hv, hs⟩ | ⟨hv, hs⟩
  · simp only [Media.fs] at hc
    simp [hc, hv, bootFirst, hs, bootSbc]
  · simp only [Media.fs] at hv
    simp [hv, bootFirst, hs]

theorem mainNoGui_volumeDown : (mainNoGui media .volumeDown g r).1 = tryConf media 1 none g := rfl

theorem rebootTo_eq_none {opt : Int} (h : ¬(opt = bootselFel ∨ opt = bootselEmmc)) :
    rebootTo opt r = none := by
  rw [not_or] at h
  rw [rebootTo, if_neg h.1, if_neg h.2]

theorem rebootTo_isSome {opt : Int} (h : opt = bootselFel ∨ opt = bootselEmmc) :
    ∃ r', rebootTo opt r = some r' := by
  unfold rebootTo
  rcases h with rfl | rfl
  · exact ⟨_, if_pos rfl⟩
  · exact ⟨_, if_neg (by decide)⟩

/-- Without a key, the RTC words come first. -/
theorem mainNoGui_none (h : g.Loaded media) :
    (RebootRequested .none r → (mainNoGui media .none g r).1 = .reset) ∧
      (¬ RebootRequested .none r →
        (mainNoGui media .none g r).1 = bootFirst media (bootOrder .none r)) := by
  obtain ⟨hs, ho, hl, -⟩ := selectConfiguration_spec h r
  unfold mainNoGui
  rcases hc : (optionOf (rtcOption r)).bind media.conf with _ | ⟨fs, i⟩
  · rw [hc] at hs
    simp only [hs, ho]
    refine ⟨fun hr => ?_, fun hr => ?_⟩
    · obtain ⟨r', hr'⟩ := rebootTo_isSome (r := (bootfsSelectConfiguration media g r).2.2) hr.2
      rw [hr']
    · rw [rebootTo_eq_none fun ho => hr ⟨rfl, ho⟩]
      dsimp only
      rw [tryConf_zero hl]
      unfold bootFirst bootOrder
      rcases hopt : optionOf (rtcOption r) with _ | c
      · rfl
      · rw [hopt, Option.bind_some] at hc
        simp [List.findSome?_cons, hc]
  · rw [hc] at hs
    obtain ⟨c, hopt, hcc⟩ := Option.bind_eq_some_iff.1 hc
    simp only [hs]
    refine ⟨fun hr => ?_, fun _ => ?_⟩
    · -- an option below 64 is no reboot request
      rcases hr.2 with he | he <;> rw [he] at hopt <;> cases hopt
    · unfold bootFirst bootOrder
      rw [hopt]
      simp [hcc, tryConf, tryConf0, bootSbc]

end

/-- **The documented boot order is followed**, and only blocks with the magic are booted, exactly
when the second pass of `try_conf0` is not skipped. -/
theorem mainNoGui_priority_iff (media : Media) (key : Key) (src : Nat) (vbus : Bool) (r : Rtc) :
    PriorityKept media key (Globals.init src vbus) r ↔ ¬ SkipsSecondPass media key := by
  have hl := Globals.loaded_init media src vbus
  cases key with
  | none =>
    obtain ⟨h1, h2⟩ := mainNoGui_none (r := r) hl
    refine ⟨fun _ h => Key.noConfusion h.1, fun _ => ⟨fun fs i splash hb => ?_, h1, h2⟩⟩
    by_cases hr : RebootRequested .none r
    · rw [h1 hr] at hb; cases hb
    · rw [h2 hr] at hb; exact bootFirst_valid hb
  | volumeUp =>
    refine ⟨fun _ h => Key.noConfusion h.1, fun _ => ⟨fun fs i splash hb => ?_, fun h => ?_, ?_⟩⟩
    · rw [mainNoGui_volumeUp hl] at hb; exact bootFirst_valid hb
    · exact Key.noConfusion h.1
    · intro _; rw [mainNoGui_volumeUp hl]; rfl
  | volumeDown =>
    have hmain : (mainNoGui media .volumeDown (Globals.init src vbus) r).1 = _ :=
      mainNoGui_volumeDown
    have hnr : ¬ RebootRequested .volumeDown r := fun h => Key.noConfusion h.1
    rw [tryConf_one hl] at hmain
    constructor
    · rintro hk ⟨-, hsd, he, hs⟩
      obtain ⟨fs, hfs⟩ := Option.isSome_iff_exists.1 hsd
      rw [he, hs, hfs] at hmain
      -- the block that is booted is SD's option 1, which does not exist
      have hv := hk.valid fs 1 false hmain
      have : media.conf (.sd, 1) = some (fs, 1) := by
        simp [Media.conf, Media.fs, hfs, confAt, ConfPtr.valid, hv]
      rw [hs] at this
      cases this
    · intro hn
      have hfirst : (mainNoGui media .volumeDown (Globals.init src vbus) r).1 =
          bootFirst media (bootOrder .volumeDown r) := by
        rw [hmain]
        unfold bootOrder bootFirst
        rcases he : media.conf (.emmc, 1) with _ | ⟨fs, i⟩
        · rcases hs : media.conf (.sd, 1) with _ | ⟨fs, i⟩
          · rcases hm : media.sd with _ | fs
            · simp [List.findSome?_cons, he, hs]
            · exact absurd ⟨rfl, by rw [hm]; rfl, he, hs⟩ hn
          · simp [he, hs]
        · simp [he]
      refine ⟨fun fs i splash hb => ?_, fun h => absurd h hnr, fun _ => hfirst⟩
      rw [hfirst] at hb
      exact bootFirst_valid hb

/-- A boot file system without configurations. -/
def blankFs : Bootfs where
  mmc := { data := fun i => (sbMagic[i]?).getD 0, readable := fun _ _ => true }
  mmcOffset := 0
  sb := sbMagic ++ List.replicate (metaSize - 8) 0
  length_sb := by rw [List.length_append, length_sbMagic, List.length_replicate]; rfl

theorem isConf_blankFs (i : Nat) : blankFs.isConf i = false := by
  unfold Bootfs.isConf Bootfs.blockFrom blankFs
  dsimp only
  rw [List.drop_append, List.drop_eq_nil_of_le (by rw [length_sbMagic]; unfold blockSize; omega),
    List.nil_append, List.drop_replicate, List.take_replicate, beq_eq_false_iff_ne]
  intro h
  have := congrArg (List.contains · 0x3a) h
  rw [show confMagic.contains 0x3a = true by decide] at this
  simp at this

/-- With volume down pressed and such a file system on the SD card, its block 1 is booted. -/
theorem mainNoGui_boots_blank :
    ¬ PriorityKept { sd := some blankFs, emmc := none } .volumeDown (Globals.init 0 false) ⟨0, 0⟩ ∧
      (mainNoGui { sd := some blankFs, emmc := none } .volumeDown (Globals.init 0 false) ⟨0, 0⟩).1 =
        .boot blankFs 1 false ∧
      blankFs.isConf 1 = false := by
  have hb : (mainNoGui { sd := some blankFs, emmc := none } .volumeDown
      (Globals.init 0 false) ⟨0, 0⟩).1 = .boot blankFs 1 false := by
    have hsd : Media.conf { sd := some blankFs, emmc := none } (.sd, 1) = none := by
      simp [Media.conf, Media.fs, confAt, ConfPtr.valid, isConf_blankFs]
    have hemmc : Media.conf { sd := some blankFs, emmc := none } (.emmc, 1) = none := rfl
    have hmain := tryConf_one
      (Globals.loaded_init { sd := some blankFs, emmc := none } 0 false)
    rw [mainNoGui_volumeDown, hmain, hemmc, hsd]
  refine ⟨fun h => ?_, hb, isConf_blankFs 1⟩
  have := h.valid _ _ _ hb
  rw [isConf_blankFs] at this
  cases this

end PBoot
