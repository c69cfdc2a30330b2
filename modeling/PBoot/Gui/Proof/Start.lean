import PBoot.Boot.Proof.Decision
import PBoot.Gui.Events
import PBoot.Gui.Proof.Options

/-!
# From the boot decision to the menu

* `mainGui_decides`: the GUI build boots on its own only what the RTC words name, and only without a
  volume key and a power-up by VBUS.
* `usesOpened_iff`: the menu uses file systems that are there, over all runs, exactly when one is
  loaded, the lines fit, and without eMMC the cursor starts on an option.
* `guiStart_iff`: both together. Nothing checks that there is a file system before the menu is shown.
-/

namespace PBoot

open Runs

/-! ## The decision -/

/-- What `main` decides. -/
structure GuiDecides (media : Media) (key : Key) (g : Globals) (r : Rtc) (mem : Bytes.Mem) : Prop where
  /-- Volume up asks for FEL. -/
  volumeUp : key = .volumeUp →
    mainGui media key g r mem = (.reset, { r with oneTime := felRequest })
  /-- Volume down or a power-up by VBUS: the menu, whatever the RTC words are. -/
  forced : key = .volumeDown ∨ key = .none ∧ g.vbusPowerup = true →
    ∃ g', mainGui media key g r mem = (.menu g', r)
  /-- Otherwise the option of the RTC words is booted from its own medium, if its block has the
  magic; a reboot is done; or else the menu is shown. -/
  option : key = .none → g.vbusPowerup = false →
    match (optionOf (rtcOption r)).bind media.conf with
    | some (fs, i) => mainGui media key g r mem = (.boot fs i (hasSplash fs i mem), r.consumed)
    | none =>
      if rtcOption r = bootselFel ∨ rtcOption r = bootselEmmc then
        (mainGui media key g r mem).1 = .reset
      else ∃ g', mainGui media key g r mem = (.menu g', r.consumed)

section
variable {media : Media} {key : Key} {g : Globals} {r : Rtc} {mem : Bytes.Mem}

theorem mainGui_decides (h : g.Loaded media) : GuiDecides media key g r mem := by
  refine ⟨?_, ?_, ?_⟩
  · rintro rfl
    rfl
  · rintro (rfl | ⟨rfl, hv⟩)
    · exact ⟨_, rfl⟩
    · unfold mainGui
      rw [hv]
      exact ⟨_, rfl⟩
  · rintro rfl hv
    obtain ⟨hs, ho, -, hr⟩ := selectConfiguration_spec h r
    have hr : (bootfsSelectConfiguration media g r).2.2 = r.consumed := hr
    unfold mainGui
    simp only [reduceCtorEq, ↓reduceIte, hv, Bool.false_eq_true, or_self, hs, ho, hr]
    rcases (optionOf (rtcOption r)).bind media.conf with _ | ⟨fs, i⟩
    · dsimp only
      split
      · rename_i hreq
        obtain ⟨r', hr'⟩ := rebootTo_isSome (r := r.consumed) hreq
        rw [hr']
      · rename_i hreq
        rw [rebootTo_eq_none hreq]
        exact ⟨_, rfl⟩
    · rfl

theorem selectConfiguration_bootSource (media : Media) (g : Globals) (r : Rtc) :
    (bootfsSelectConfiguration media g r).2.1.bootSource = g.bootSource := by
  have hblock : ∀ n, (selectBlock media g n).2.bootSource = g.bootSource := fun n => by
    unfold selectBlock
    split
    · simp only [mmcTryLoad_eq]
    · split
      · simp only [mmcTryLoad_eq]
      · rfl
  unfold bootfsSelectConfiguration
  dsimp only
  split
  · exact hblock _
  · split
    · exact hblock _
    · rfl

/-- The globals with which the menu is shown. -/
theorem mainGui_menu (h : g.Loaded media) {g' : Globals} (hm : (mainGui media key g r mem).1 = .menu g') :
    g'.emmc = media.emmc ∧ g'.sd = media.sd ∧ g'.bootSource = g.bootSource := by
  have hui : ∀ g₁ : Globals, g₁.Loaded media → g₁.bootSource = g.bootSource →
      bootUi media g₁ = .menu g' →
      g'.emmc = media.emmc ∧ g'.sd = media.sd ∧ g'.bootSource = g.bootSource := by
    intro g₁ h₁ hsrc hm
    cases hm
    refine ⟨mmcTryLoad_emmc h₁ _ (by decide), mmcTryLoad_sd h₁ _ (by decide), ?_⟩
    rw [mmcTryLoad_eq]
    exact hsrc
  unfold mainGui at hm
  split at hm
  · cases hm
  · split at hm
    · exact hui g h rfl hm
    · obtain ⟨-, -, hl, -⟩ := selectConfiguration_spec h r
      dsimp only at hm
      split at hm
      · cases hm
      · split at hm
        · cases hm
        · exact hui _ hl (selectConfiguration_bootSource media g r) hm

end

/-! ## What the menu uses -/

/-- A pointer to a file system that was opened. -/
def Globals.Opened (g : Globals) (u : Option Bootfs) : Prop := u.isSome ∧ (u = g.emmc ∨ u = g.sd)

/-- The menu is filled, and in every round of every run the file systems that are used are opened
ones. -/
def UsesOpened (g : Globals) (r : Rtc) (timer : Nat) : Prop :=
  g.Opened (menuFs g) ∧ ∃ s₀, bootGuiSetup g r timer = some s₀ ∧
    ∀ is s, Run (LoopNext g) s₀ is s → ∀ i, ∀ u ∈ loopUses g s i, g.Opened u

/-- The menu can be shown: a file system is loaded, the lines fit, and the heading is not chosen as
an option of eMMC that is not there. -/
structure MenuReady (g : Globals) (r : Rtc) : Prop where
  fs : (menuFs g).isSome
  fits : MenuFits g
  start : g.emmc.isSome ∨ StartsOnOption g r

/-- The file system of what is to be booted is there, and without eMMC the cursor is on an option. -/
structure UseInv (g : Globals) (s : BootGui) : Prop extends MenuInv g s where
  option : g.emmc.isSome ∨ 0 ≤ guiMenuGetSelection s.menu
  boot : s.state = .boot → (optionFs g s.bootSel).isSome

section
variable {g : Globals} {s s' : BootGui} {i : LoopInput}

theorem optionFs_isSome {id : Int} (hmem : id ∈ menuIds g) (h64 : id < 64)
    (h : g.emmc.isSome ∨ 0 ≤ id) : (optionFs g id).isSome := by
  unfold optionFs
  by_cases h0 : 0 ≤ id
  · obtain ⟨-, -, fs, hfs, -⟩ := bootable_of_lt hmem h0 h64
    rw [hfs]
    rfl
  · rw [if_pos (by omega)]
    exact h.resolve_right h0

/-- The cursor after an update. -/
theorem UseInv.update (h : UseInv g s) {m : GuiMenu} {e : Events}
    (hm : guiMenuUpdate s.menu e = some m) : g.emmc.isSome ∨ 0 ≤ guiMenuGetSelection m :=
  update_cursor (K := fun id => g.emmc.isSome ∨ 0 ≤ id) (fun _ => .inr) h.toMenuInv h.option hm

theorem useInv_step (hs : UseInv g s) (h : LoopNext g s i s') : UseInv g s' := by
  obtain ⟨hopt, hboot⟩ := cursor_step (K := fun id => g.emmc.isSome ∨ 0 ≤ id) (fun _ => .inr)
    (fun _ hmem h64 hk => optionFs_isSome hmem h64 hk) hs.toMenuInv hs.option hs.boot h
  exact ⟨menuInv_step hs.toMenuInv h, hopt, hboot⟩

theorem menuFs_cases (g : Globals) : menuFs g = g.emmc ∨ menuFs g = g.sd := by
  unfold menuFs
  cases g.emmc with
  | none => exact .inr rfl
  | some fs => exact .inl rfl

theorem optionFs_cases (g : Globals) (sel : Int) : optionFs g sel = g.emmc ∨ optionFs g sel = g.sd := by
  unfold optionFs
  split
  · exact .inl rfl
  · exact .inr rfl

/-- **What a round uses was opened.** -/
theorem loopUses_opened (hfs : (menuFs g).isSome) (h : UseInv g s) (i : LoopInput) :
    ∀ u ∈ loopUses g s i, g.Opened u := by
  have hmenu : ∀ u ∈ [menuFs g], g.Opened u := fun u hu => by
    rw [List.mem_singleton.1 hu]
    exact ⟨hfs, menuFs_cases g⟩
  unfold loopUses
  cases hm : guiMenuUpdate s.menu i.events with
  | none => exact fun _ hu => (nomatch hu)
  | some m =>
    obtain ⟨hids, hon, -⟩ := update_menuInv h.toMenuInv hm
    dsimp only
    split
    · exact hmenu
    split
    · rename_i hboot
      intro u hu
      rw [List.mem_singleton.1 hu]
      exact ⟨h.boot hboot.2, optionFs_cases _ _⟩
    unfold selectionUses
    split
    · dsimp only
      split
      · exact hmenu
      split
      · rename_i h64
        have hopt : (optionFs g (guiMenuGetSelection m)).isSome :=
          optionFs_isSome (hids ▸ getSelection_mem hon) h64 (h.update hm)
        exact List.forall_mem_cons.2 ⟨⟨hopt, optionFs_cases _ _⟩, hmenu⟩
      · exact fun _ hu => (nomatch hu)
    · exact fun _ hu => (nomatch hu)

theorem usesOpened_of_ready {r : Rtc} (h : MenuReady g r) (timer : Nat) : UsesOpened g r timer := by
  obtain ⟨s₀, hs₀⟩ := setup_isSome h.fs h.fits r timer
  obtain ⟨hids, -, -, hstate, -, hon, hiff⟩ := setup_spec h.fs hs₀
  refine ⟨⟨h.fs, menuFs_cases g⟩, s₀, hs₀, fun is s hrun => loopUses_opened h.fs ?_⟩
  refine hrun.inv ⟨⟨hids, hon⟩, h.start.imp_right hiff.2, fun h => ?_⟩ fun _ _ _ => useInv_step
  rw [hstate] at h
  cases h

/-! ## A heading that is chosen -/

/-- A short press between two frames. -/
def shortPress (timer : Nat) : LoopInput :=
  { events := { Events.none with pokShort := true }, now := timer, timer }

/-- A frame. -/
def nextFrame (timer : Nat) : LoopInput :=
  { events := { Events.none with vblank := true }, now := timer, timer }

/-- A short press on a heading is taken for an option of eMMC. -/
theorem heading_chosen (h : MenuInv g s) (hid : guiMenuGetSelection s.menu < 0) (timer : Nat) :
    ∃ s', LoopNext g s (shortPress timer) s' ∧ s'.state = .boot ∧ s'.bootSel < 0 := by
  obtain ⟨m, hm, hitems, hsel⟩ := update_still (e := (shortPress timer).events) h.on rfl
  have hid' : guiMenuGetSelection m < 0 := by
    rwa [getSelection_congr (congrArg (List.map MenuItem.id) hitems) hsel]
  have hreboot : ∀ r, rebootTo (guiMenuGetSelection m) r = none := fun r => by
    refine rebootTo_eq_none (not_or.2 ⟨fun he => ?_, fun he => ?_⟩)
    · rw [he] at hid'; exact absurd hid' (by decide)
    · rw [he] at hid'; exact absurd hid' (by decide)
  have hoff : guiMenuGetSelection m ≠ bootselPoweroff := fun he => by
    rw [he] at hid'
    exact absurd hid' (by decide)
  have hwatch : BootGui.watch { s with menu := m } (shortPress timer) =
      { s with menu := m, deadline := timer + 10000000 } := by
    unfold BootGui.watch
    exact if_neg (Nat.not_lt.2 (Nat.le_add_right _ _))
  refine ⟨{ s with
    menu := m, deadline := timer + 10000000, state := .boot, bootSel := guiMenuGetSelection m },
    ?_, rfl, hid'⟩
  unfold LoopNext loopStep
  rw [hm]
  dsimp only
  rw [hwatch]
  simp [shortPress, Events.none, BootGui.press, BootGui.choose, hreboot, hoff,
    show guiMenuGetSelection m < 64 by omega]

end

/-! ## Exactly when -/

section
variable {g : Globals} {r : Rtc} {timer : Nat}

theorem ready_of_usesOpened (h : UsesOpened g r timer) : MenuReady g r := by
  obtain ⟨⟨hfs, -⟩, s₀, hs₀, hrun⟩ := h
  obtain ⟨hids, -, -, -, -, hon, hiff⟩ := setup_spec hfs hs₀
  refine ⟨hfs, menuFits_of_setup hs₀, ?_⟩
  by_contra hno
  obtain ⟨hemmc, hstart⟩ := not_or.1 hno
  -- the cursor is on a heading: a short press, and then a frame
  have hinv : MenuInv g s₀ := ⟨hids, hon⟩
  obtain ⟨s', hstep, hboot, hneg⟩ := heading_chosen hinv (Int.not_le.1 fun h => hstart (hiff.1 h)) 0
  obtain ⟨m, hm, -⟩ := update_spec (e := (nextFrame 0).events) (menuInv_step hinv hstep).on
  have hmem : optionFs g s'.bootSel ∈ loopUses g s' (nextFrame 0) := by
    unfold loopUses
    rw [hm]
    simp [nextFrame, hboot]
  obtain ⟨hsome, -⟩ := hrun _ s' (Run.nil.snoc hstep) (nextFrame 0) _ hmem
  rw [optionFs, if_pos (by omega)] at hsome
  exact hemmc hsome

theorem usesOpened_iff : UsesOpened g r timer ↔ MenuReady g r :=
  ⟨ready_of_usesOpened, fun h => usesOpened_of_ready h timer⟩

/-- Whether the menu can be shown depends on the media, the boot source and the default alone. -/
theorem menuReady_congr {g' : Globals} {r' : Rtc} (hemmc : g'.emmc = g.emmc) (hsd : g'.sd = g.sd)
    (hsrc : g'.bootSource = g.bootSource) (hdflt : rtcBootselGet r' = rtcBootselGet r) :
    MenuReady g' r' ↔ MenuReady g r := by
  have hlines : menuLines g' = menuLines g := by
    unfold menuLines emmcLines sdLines
    rw [hemmc, hsd, hsrc]
  have hfs : menuFs g' = menuFs g := by
    unfold menuFs
    rw [hemmc, hsd]
  have hfits : MenuFits g' ↔ MenuFits g := by
    refine ⟨fun h => ⟨?_, ?_⟩, fun h => ⟨?_, ?_⟩⟩
    · exact hlines ▸ h.count
    · exact hlines ▸ h.text
    · exact hlines ▸ h.count
    · exact hlines ▸ h.text
  have hstart : StartsOnOption g' r' ↔ StartsOnOption g r := by
    unfold StartsOnOption menuIds startOption
    rw [hlines, hemmc, hdflt]
  refine ⟨fun h => ⟨?_, hfits.1 h.fits, ?_⟩, fun h => ⟨?_, hfits.2 h.fits, ?_⟩⟩
  · exact hfs ▸ h.fs
  · exact hemmc ▸ h.start.imp_right hstart.1
  · exact hfs ▸ h.fs
  · exact hemmc ▸ h.start.imp_right hstart.2

end

section
variable {media : Media} {key : Key} {g : Globals} {r : Rtc} {mem : Bytes.Mem}

/-- The globals when both media were tried. -/
def Globals.tried (g : Globals) (media : Media) : Globals :=
  { g with sd := media.sd, emmc := media.emmc }

/-- The menu is shown. -/
def MenuShown (media : Media) (key : Key) (g : Globals) (r : Rtc) : Prop :=
  key = .volumeDown ∨ key = .none ∧ (g.vbusPowerup = true ∨
    (optionOf (rtcOption r)).bind media.conf = none ∧
      ¬(rtcOption r = bootselFel ∨ rtcOption r = bootselEmmc))

/-- On the way to the kernel no file system is used that was not opened. -/
def OpenedOnly (media : Media) (key : Key) (g : Globals) (r : Rtc) (mem : Bytes.Mem) : Prop :=
  match mainGui media key g r mem with
  | (.boot fs _ _, _) => (g.tried media).Opened (some fs)
  | (.menu g', r') => g'.emmc = media.emmc ∧ g'.sd = media.sd ∧ ∀ timer, UsesOpened g' r' timer
  | (.reset, _) => True
  | (.panic _, _) => True

theorem mainGui_shown (h : g.Loaded media) (hm : MenuShown media key g r) :
    ∃ g' r', mainGui media key g r mem = (.menu g', r') ∧ rtcBootselGet r' = rtcBootselGet r := by
  have hd : GuiDecides media key g r mem := mainGui_decides h
  by_cases hforced : key = .volumeDown ∨ key = .none ∧ g.vbusPowerup = true
  · obtain ⟨g', hg'⟩ := hd.forced hforced
    exact ⟨g', r, hg', rfl⟩
  · obtain ⟨hkey, hv⟩ := not_or.1 hforced
    obtain ⟨hnone, hsel⟩ := hm.resolve_left hkey
    have hv : g.vbusPowerup = false := by simpa [hnone] using hv
    rw [hv] at hsel
    obtain ⟨hconf, hno⟩ := hsel.resolve_left Bool.false_ne_true
    have ho := hd.option hnone hv
    rw [hconf] at ho
    dsimp only at ho
    rw [if_neg hno] at ho
    obtain ⟨g', hg'⟩ := ho
    exact ⟨g', r.consumed, hg', rtcBootselGet_consumed r⟩

theorem openedOnly_of_hidden (h : g.Loaded media) (hm : ¬ MenuShown media key g r) :
    OpenedOnly media key g r mem := by
  have hd : GuiDecides media key g r mem := mainGui_decides h
  unfold OpenedOnly
  cases key with
  | none =>
    simp only [MenuShown, reduceCtorEq, true_and, false_or, not_or, Bool.not_eq_true] at hm
    obtain ⟨hv, hsel⟩ := hm
    have ho := hd.option rfl hv
    rcases hconf : (optionOf (rtcOption r)).bind media.conf with _ | ⟨fs, i⟩
    · rw [hconf] at ho
      dsimp only at ho
      rw [if_pos (by_contra fun hno => hsel ⟨hconf, not_or.1 hno⟩)] at ho
      rcases hmain : mainGui media .none g r mem with ⟨o, r'⟩
      rw [hmain] at ho
      dsimp only at ho
      rw [ho]
      trivial
    · rw [hconf] at ho
      rw [show mainGui media .none g r mem = _ from ho]
      obtain ⟨c, -, hc⟩ := Option.bind_eq_some_iff.1 hconf
      obtain ⟨hfs, -⟩ := Media.conf_some hc
      refine ⟨rfl, ?_⟩
      rw [← hfs]
      rcases c.1 with _ | _
      · exact .inl rfl
      · exact .inr rfl
  | volumeDown => exact absurd (.inl rfl) hm
  | volumeUp =>
    rw [hd.volumeUp rfl]
    trivial

theorem openedOnly_iff (h : g.Loaded media) :
    OpenedOnly media key g r mem ↔ (MenuShown media key g r → MenuReady (g.tried media) r) := by
  by_cases hm : MenuShown media key g r
  · obtain ⟨g', r', hmain, hdflt⟩ : ∃ g' r', mainGui media key g r mem = (.menu g', r') ∧
        rtcBootselGet r' = rtcBootselGet r := mainGui_shown h hm
    obtain ⟨hemmc, hsd, hsrc⟩ := mainGui_menu h (congrArg Prod.fst hmain)
    have hready : MenuReady g' r' ↔ MenuReady (g.tried media) r :=
      menuReady_congr hemmc hsd hsrc hdflt
    unfold OpenedOnly
    rw [hmain]
    dsimp only
    refine ⟨fun ho _ => hready.1 (usesOpened_iff.1 (ho.2.2 0)), fun ho => ⟨hemmc, hsd, fun _ => ?_⟩⟩
    exact usesOpened_iff.2 (hready.2 (ho hm))
  · exact ⟨fun _ h => absurd h hm, fun _ => openedOnly_of_hidden h hm⟩

end

section
variable (media : Media) (key : Key) (src : Nat) (vbus : Bool) (r : Rtc) (mem : Bytes.Mem)

/-- **From power-up to the kernel or the menu**, for every key, power-up reason, RTC words and media:
the decision is the one named, and no file system is used that was not opened, exactly when the menu
is not shown or one is loaded, its lines fit, and without eMMC its cursor starts on an option. -/
theorem guiStart_iff :
    (GuiDecides media key (.init src vbus) r mem ∧ OpenedOnly media key (.init src vbus) r mem) ↔
      (MenuShown media key (.init src vbus) r →
        MenuReady ((Globals.init src vbus).tried media) r) := by
  have hl := Globals.loaded_init media src vbus
  rw [openedOnly_iff hl]
  exact and_iff_right (mainGui_decides hl)

end

/-- Neither medium has a boot file system, and volume down is pressed. -/
theorem openedOnly_noMedia :
    ¬ OpenedOnly ⟨none, none⟩ .volumeDown (.init bootedFromMmc0 false) ⟨0, 0⟩ fun _ => 0 := by
  rintro ⟨-, -, h⟩
  exact absurd (h 0).1.1 (by decide)

end PBoot
