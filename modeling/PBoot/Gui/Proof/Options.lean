import PBoot.Boot.Proof.Priority
import PBoot.Gui.Proof.Setup
import PBoot.Lib.Run

/-!
# The cursor of the boot menu

* `loopStep_next`: what a round that goes on does.
* `optionInv_step`: once the cursor is on an option it stays on options, and what is to be booted
  is a configuration.
* `bootMenu_iff`: over all runs the menu acts on options only, exactly when its lines fit and the
  option it starts on is in the menu.
-/

namespace PBoot

open Runs

/-- A round of the loop that goes on. -/
def LoopNext (g : Globals) (s : BootGui) (i : LoopInput) (s' : BootGui) : Prop :=
  loopStep g s i = some (.next s')

/-- The option is a configuration of a loaded file system. -/
def Bootable (g : Globals) (sel : Int) : Prop :=
  0 ≤ sel ∧ sel < 64 ∧ ∃ fs, (if sel < 32 then g.emmc else g.sd) = some fs ∧
    fs.isConf (Int.tmod sel 32).toNat = true

/-! ## The ids of the menu -/

section
variable {g : Globals} {id : Int}

theorem mem_confLines {fs : Option Bootfs} {base : Nat}
    (h : id ∈ (confLines fs base).map MenuLine.id) :
    ∃ f i, fs = some f ∧ i < 32 ∧ f.isConf i = true ∧ id = (i + base : Nat) := by
  rcases fs with _ | f
  · cases h
  · simp only [confLines, List.map_map, List.mem_map, List.mem_filter, List.mem_range] at h
    obtain ⟨i, ⟨hi, hc⟩, rfl⟩ := h
    exact ⟨f, i, rfl, hi, hc, rfl⟩

/-- The ids of the first file system are those of its configurations. -/
theorem bootable_emmc (h : id ∈ (confLines g.emmc 0).map MenuLine.id) : Bootable g id := by
  obtain ⟨f, i, hf, hi, hc, rfl⟩ := mem_confLines h
  refine ⟨by omega, by omega, f, ?_, ?_⟩
  · rw [if_pos (by omega), hf]
  · rwa [Int.tmod_eq_emod_of_nonneg (by omega), show ((i + 0 : Nat) : Int) % 32 = i by omega,
      Int.toNat_natCast]

/-- Those of the second one come after them. -/
theorem bootable_sd (h : id ∈ (confLines g.sd 32).map MenuLine.id) : Bootable g id := by
  obtain ⟨f, i, hf, hi, hc, rfl⟩ := mem_confLines h
  refine ⟨by omega, by omega, f, ?_, ?_⟩
  · rw [if_neg (by omega), hf]
  · rwa [Int.tmod_eq_emod_of_nonneg (by omega), show ((i + 32 : Nat) : Int) % 32 = i by omega,
      Int.toNat_natCast]

theorem emmcIds_cases (h : id ∈ (emmcLines g).map MenuLine.id) :
    id = -2 ∨ Bootable g id ∨ id = bootselEmmc := by
  unfold emmcLines at h
  split at h
  · simp only [List.map_append, List.map_cons, List.map_nil, List.mem_append, List.mem_cons,
      List.not_mem_nil, or_false] at h
    rcases h with ((rfl | h) | h) | rfl
    · exact .inl rfl
    · exact .inr (.inl (bootable_emmc h))
    · split at h
      · rw [List.map_singleton, List.mem_singleton] at h
        exact .inr (.inr h)
      · cases h
    · exact .inl rfl
  · cases h

theorem sdIds_cases (h : id ∈ (sdLines g).map MenuLine.id) : id = -2 ∨ Bootable g id := by
  unfold sdLines at h
  split at h
  · simp only [List.map_append, List.map_cons, List.map_nil, List.mem_append, List.mem_cons,
      List.not_mem_nil, or_false] at h
    rcases h with (rfl | h) | rfl
    · exact .inl rfl
    · exact .inr (bootable_sd h)
    · exact .inl rfl
  · cases h

theorem menuIds_cases (h : id ∈ menuIds g) :
    id = -2 ∨ Bootable g id ∨ id = bootselPoweroff ∨ id = bootselEmmc ∨ id = bootselFel ∨
      id = privId := by
  simp only [menuIds, menuLines, List.map_append, List.map_cons, List.mem_append, List.mem_cons] at h
  rcases h with (h | h) | rfl | h
  · rcases emmcIds_cases h with h | h | h
    · exact .inl h
    · exact .inr (.inl h)
    · exact .inr (.inr (.inr (.inl h)))
  · rcases sdIds_cases h with h | h
    · exact .inl h
    · exact .inr (.inl h)
  · exact .inr (.inr (.inr (.inr (.inr rfl))))
  · simp only [endLines, List.map_cons, List.map_nil, List.mem_cons, List.not_mem_nil,
      or_false] at h
    rcases h with rfl | rfl
    · exact .inr (.inr (.inr (.inr (.inl rfl))))
    · exact .inr (.inr (.inl rfl))

end

/-! ## What a round does -/

section
variable {m m' : GuiMenu}

theorem getSelection_congr (hids : m'.ids = m.ids) (hsel : m'.selection = m.selection) :
    guiMenuGetSelection m' = guiMenuGetSelection m := by
  unfold guiMenuGetSelection
  rw [hsel, GuiMenu.idAt_congr hids]

theorem GuiMenu.OnItem.congr (h : m.OnItem) (hids : m'.ids = m.ids)
    (hsel : m'.selection = m.selection) : m'.OnItem := by
  refine ⟨?_, ?_⟩
  · rw [hsel]; exact h.pos
  · rw [hsel, ← length_ids, hids, length_ids]; exact h.lt

/-- The id under the cursor is one of the menu's. -/
theorem getSelection_mem (h : m.OnItem) : guiMenuGetSelection m ∈ m.ids := by
  obtain ⟨n, hn⟩ := Int.eq_ofNat_of_zero_le h.pos
  have hlt : n < m.items.length := by have := h.lt; omega
  unfold guiMenuGetSelection
  rw [hn, GuiMenu.idAt_of_lt hlt]
  exact List.mem_map_of_mem (List.getElem_mem hlt)

end

section
variable {g : Globals} {s s' : BootGui} {i : LoopInput}

/-- A long press changes neither the ids nor the cursor, nor what was decided. -/
theorem markDefault_frame (s : BootGui) :
    s.markDefault.menu.ids = s.menu.ids ∧ s.markDefault.menu.selection = s.menu.selection ∧
      s.markDefault.state = s.state ∧ s.markDefault.bootSel = s.bootSel ∧
      s.markDefault.deadline = s.deadline := by
  unfold BootGui.markDefault
  dsimp only
  split
  · exact ⟨setActive_ids _ _, rfl, rfl, rfl, rfl⟩
  · split
    · exact ⟨setPrivActive_ids _ _ _, rfl, rfl, rfl, rfl⟩
    · exact ⟨setActive_ids _ _, rfl, rfl, rfl, rfl⟩

theorem watch_frame (s : BootGui) (i : LoopInput) :
    (s.watch i).menu = s.menu ∧ (s.watch i).rtc = s.rtc ∧ (s.watch i).priv = s.priv ∧
      (s.watch i).bootSel = s.bootSel ∧ ((s.watch i).state = s.state ∨ (s.watch i).state = .off) := by
  unfold BootGui.watch
  dsimp only
  split <;> split
  · exact ⟨rfl, rfl, rfl, rfl, .inr rfl⟩
  · exact ⟨rfl, rfl, rfl, rfl, .inl rfl⟩
  · exact ⟨rfl, rfl, rfl, rfl, .inr rfl⟩
  · exact ⟨rfl, rfl, rfl, rfl, .inl rfl⟩

/-- What a short press decides, when it does not reset; nothing else changes. -/
theorem choose_next (h : s.choose = .next s') :
    s'.menu = s.menu ∧ s'.rtc = s.rtc ∧ s'.priv = s.priv ∧ s'.deadline = s.deadline ∧
      ((guiMenuGetSelection s.menu = bootselPoweroff ∧ s'.state = .off) ∨
        (guiMenuGetSelection s.menu < 64 ∧ s'.state = .boot ∧
          s'.bootSel = guiMenuGetSelection s.menu) ∨
        (64 < guiMenuGetSelection s.menu ∧ s'.state = s.state ∧ s'.bootSel = s.bootSel)) := by
  unfold BootGui.choose at h
  dsimp only at h
  split at h
  · cases h
  · cases h
    split
    · rename_i hoff
      exact ⟨rfl, rfl, rfl, rfl, .inl ⟨hoff, rfl⟩⟩
    · rename_i hoff
      split
      · rename_i h64
        exact ⟨rfl, rfl, rfl, rfl, .inr (.inl ⟨h64, rfl, rfl⟩)⟩
      · rename_i h64
        have hne : guiMenuGetSelection s.menu ≠ 64 := hoff
        exact ⟨rfl, rfl, rfl, rfl, .inr (.inr ⟨by omega, rfl, rfl⟩)⟩

/-- A round that goes on updates the menu, watches the deadline and handles the power key. -/
theorem loopStep_press (h : LoopNext g s i s') :
    ∃ m, guiMenuUpdate s.menu i.events = some m ∧
      (BootGui.watch { s with menu := m } i).press i.events = .next s' := by
  unfold LoopNext loopStep at h
  split at h
  · cases h
  · rename_i m hm
    dsimp only at h
    split at h
    · cases h
    · split at h
      · cases h
      · exact ⟨m, hm, Option.some.inj h⟩

/-- **A round that goes on**: the menu is updated, the deadline watched, a long press marks the
default, and a short press may choose. -/
theorem loopStep_next (h : LoopNext g s i s') :
    ∃ m s₁, guiMenuUpdate s.menu i.events = some m ∧
      s₁ = (if i.events.pokLong then (BootGui.watch { s with menu := m } i).markDefault
        else BootGui.watch { s with menu := m } i) ∧
      s'.menu = s₁.menu ∧ s'.rtc = s₁.rtc ∧ s'.priv = s₁.priv ∧
      ((s'.state = s₁.state ∧ s'.bootSel = s₁.bootSel) ∨ s'.state = .off ∨
        (s'.state = .boot ∧ s'.bootSel = guiMenuGetSelection s₁.menu ∧ s'.bootSel < 64)) := by
  obtain ⟨m, hm, hp⟩ := loopStep_press h
  refine ⟨m, _, hm, rfl, ?_⟩
  unfold BootGui.press at hp
  dsimp only at hp
  split at hp
  · obtain ⟨hmenu, hrtc, hpriv, -, ⟨-, hoff⟩ | ⟨h64, hboot, hbs⟩ | ⟨-, hsame⟩⟩ := choose_next hp
    · exact ⟨hmenu, hrtc, hpriv, .inr (.inl hoff)⟩
    · exact ⟨hmenu, hrtc, hpriv, .inr (.inr ⟨hboot, hbs, hbs ▸ h64⟩)⟩
    · exact ⟨hmenu, hrtc, hpriv, .inl hsame⟩
  · cases hp
    exact ⟨rfl, rfl, rfl, .inl ⟨rfl, rfl⟩⟩

/-- The items of the menu are there and the cursor is on one of them. -/
structure MenuInv (g : Globals) (s : BootGui) : Prop where
  ids : s.menu.ids = menuIds g
  on : s.menu.OnItem

/-- Every round comes to an end. -/
theorem loopStep_isSome (h : MenuInv g s) (i : LoopInput) : ∃ res, loopStep g s i = some res := by
  obtain ⟨m, hm, -⟩ := update_spec (e := i.events) h.on
  unfold loopStep
  rw [hm]
  dsimp only
  split
  · exact ⟨_, rfl⟩
  · split <;> exact ⟨_, rfl⟩

theorem update_menuInv (h : MenuInv g s) {m : GuiMenu} {e : Events}
    (hm : guiMenuUpdate s.menu e = some m) : m.ids = menuIds g ∧ m.OnItem ∧
      m.items = s.menu.items ∧ (m.selection = s.menu.selection ∨ 0 ≤ guiMenuGetSelection m) := by
  obtain ⟨m', hm', hitems, hon, hsel⟩ := update_spec (e := e) h.on
  cases hm.symm.trans hm'
  refine ⟨?_, hon, hitems, hsel⟩
  rw [← h.ids, GuiMenu.ids, hitems, GuiMenu.ids]

/-- The menu of the next round, up to what is shown active. -/
theorem loopStep_menu (h : LoopNext g s i s') :
    ∃ m, guiMenuUpdate s.menu i.events = some m ∧ s'.menu.ids = m.ids ∧
      s'.menu.selection = m.selection := by
  obtain ⟨m, s₁, hm, rfl, hmenu, -⟩ := loopStep_next h
  obtain ⟨hw, -⟩ := watch_frame { s with menu := m } i
  refine ⟨m, hm, ?_⟩
  rw [hmenu]
  split
  · obtain ⟨hi, hs, -⟩ := markDefault_frame (BootGui.watch { s with menu := m } i)
    rw [hi, hs, hw]
    exact ⟨rfl, rfl⟩
  · rw [hw]
    exact ⟨rfl, rfl⟩

/-- What is to be booted was so before, or is chosen in this round. -/
theorem loopStep_boot (h : LoopNext g s i s') (hboot : s'.state = .boot) :
    (s.state = .boot ∧ s'.bootSel = s.bootSel) ∨
      (s'.bootSel = guiMenuGetSelection s'.menu ∧ s'.bootSel < 64) := by
  obtain ⟨m, s₁, -, hs₁, hmenu, -, -, hst⟩ := loopStep_next h
  rcases hst with ⟨hstate, hbs⟩ | hoff | ⟨-, hbs, h64⟩
  · -- nothing was chosen in this round
    obtain ⟨-, -, -, hwb, hw⟩ := watch_frame { s with menu := m } i
    obtain ⟨-, -, hds, hdb, -⟩ := markDefault_frame (BootGui.watch { s with menu := m } i)
    have hs₁' : s₁.state = (BootGui.watch { s with menu := m } i).state ∧
        s₁.bootSel = (BootGui.watch { s with menu := m } i).bootSel := by
      rw [hs₁]
      split
      · exact ⟨hds, hdb⟩
      · exact ⟨rfl, rfl⟩
    rw [hstate, hs₁'.1] at hboot
    refine .inl ⟨?_, by rw [hbs, hs₁'.2, hwb]⟩
    rcases hw with hw | hw
    · exact hw.symm.trans hboot
    · rw [hw] at hboot; cases hboot
  · rw [hoff] at hboot; cases hboot
  · rw [← hmenu] at hbs
    exact .inr ⟨hbs, h64⟩

theorem menuInv_step (hs : MenuInv g s) (h : LoopNext g s i s') : MenuInv g s' := by
  obtain ⟨m, hm, hi, hsel⟩ := loopStep_menu h
  obtain ⟨hids, hon, -⟩ := update_menuInv hs hm
  exact ⟨hi.trans hids, hon.congr hi hsel⟩

/-! ## Staying on options -/

/-- What holds of the cursor's item and of every option holds after an update. -/
theorem update_cursor {K : Int → Prop} (hK : ∀ id, 0 ≤ id → K id) (h : MenuInv g s)
    (hk : K (guiMenuGetSelection s.menu)) {m : GuiMenu} {e : Events}
    (hm : guiMenuUpdate s.menu e = some m) : K (guiMenuGetSelection m) := by
  obtain ⟨hids, -, -, hsel | hopt⟩ := update_menuInv h hm
  · rw [getSelection_congr (hids.trans h.ids.symm) hsel]
    exact hk
  · exact hK _ hopt

/-- **Cursor rule**: a round keeps what holds of the cursor's item, and of what is to be booted
holds what follows for the ids below 64. -/
theorem cursor_step {K B : Int → Prop} (hK : ∀ id, 0 ≤ id → K id)
    (hB : ∀ id ∈ menuIds g, id < 64 → K id → B id) (hs : MenuInv g s)
    (hk : K (guiMenuGetSelection s.menu)) (hb : s.state = .boot → B s.bootSel)
    (h : LoopNext g s i s') :
    K (guiMenuGetSelection s'.menu) ∧ (s'.state = .boot → B s'.bootSel) := by
  have hinv := menuInv_step hs h
  obtain ⟨m, hm, hids, hsel⟩ := loopStep_menu h
  have hk' : K (guiMenuGetSelection s'.menu) := by
    rw [getSelection_congr hids hsel]
    exact update_cursor hK hs hk hm
  refine ⟨hk', fun hboot => ?_⟩
  rcases loopStep_boot h hboot with ⟨hbefore, hbs⟩ | ⟨hbs, h64⟩
  · rw [hbs]
    exact hb hbefore
  · rw [hbs] at h64 ⊢
    exact hB _ (hinv.ids ▸ getSelection_mem hinv.on) h64 hk'

/-- The cursor is on an option, and what is to be booted is one. -/
structure OptionInv (g : Globals) (s : BootGui) : Prop extends MenuInv g s where
  option : 0 ≤ guiMenuGetSelection s.menu
  boot : s.state = .boot → Bootable g s.bootSel

theorem update_option (h : OptionInv g s) {m : GuiMenu} {e : Events}
    (hm : guiMenuUpdate s.menu e = some m) : 0 ≤ guiMenuGetSelection m :=
  update_cursor (fun _ h => h) h.toMenuInv h.option hm

theorem bootable_of_lt {id : Int} (hmem : id ∈ menuIds g) (h0 : 0 ≤ id) (h64 : id < 64) :
    Bootable g id := by
  rcases menuIds_cases hmem with rfl | h | rfl | rfl | rfl | rfl
  · exact absurd h0 (by decide)
  · exact h
  all_goals exact absurd h64 (by decide)

theorem optionInv_step (hs : OptionInv g s) (h : LoopNext g s i s') : OptionInv g s' := by
  obtain ⟨hopt, hboot⟩ := cursor_step (K := fun id => 0 ≤ id) (fun _ h => h)
    (fun _ hmem h64 h0 => bootable_of_lt hmem h0 h64) hs.toMenuInv hs.option hs.boot h
  exact ⟨menuInv_step hs.toMenuInv h, hopt, hboot⟩

end

/-! ## Over all runs -/

section
variable (g : Globals)

/-- What the menu promises in a state of its loop. -/
structure OnOption (s : BootGui) : Prop where
  cursor : 0 ≤ guiMenuGetSelection s.menu
  /-- A round comes to an end, and acts on an option. -/
  round : ∀ i, ∃ res, loopStep g s i = some res
  acts : ∀ e m, guiMenuUpdate s.menu e = some m → 0 ≤ guiMenuGetSelection m
  boot : s.state = .boot → Bootable g s.bootSel
  /-- A default that a long press stores reads back. -/
  stores : ∀ e m, guiMenuUpdate s.menu e = some m → guiMenuGetSelection m ≠ privId →
    rtcBootselGet (BootGui.markDefault { s with menu := m }).rtc =
      (BootGui.markDefault { s with menu := m }).dflt

/-- The menu is filled, and keeps its promises after every sequence of rounds. -/
def BootMenuSafe (r : Rtc) (timer : Nat) : Prop :=
  ∃ s₀, bootGuiSetup g r timer = some s₀ ∧ ∀ is s, Run (LoopNext g) s₀ is s → OnOption g s

variable {g} {s : BootGui}

/-- What a long press stores. -/
theorem markDefault_reads {id : Int} (hid : guiMenuGetSelection s.menu = id) (h0 : 0 ≤ id)
    (h254 : id < 255) (hp : id ≠ privId) :
    rtcBootselGet s.markDefault.rtc = s.markDefault.dflt := by
  unfold BootGui.markDefault
  rw [hid]
  dsimp only
  split
  · exact rtcBootselGet_set _ (by decide) (by decide)
  · exact rtcBootselGet_set _ (by omega) h254

theorem menuIds_lt {id : Int} (h : id ∈ menuIds g) : id < 255 := by
  rcases menuIds_cases h with rfl | ⟨-, h64, -⟩ | rfl | rfl | rfl | rfl
  · decide
  · omega
  all_goals decide

theorem onOption_of_inv (h : OptionInv g s) : OnOption g s := by
  refine ⟨h.option, loopStep_isSome h.toMenuInv, fun e m hm => update_option h hm, h.boot, ?_⟩
  intro e m hm hp
  obtain ⟨hids, hon, -⟩ := update_menuInv h.toMenuInv hm
  exact markDefault_reads (s := { s with menu := m }) rfl (update_option h hm)
    (menuIds_lt (hids ▸ getSelection_mem hon)) hp

theorem menuFits_of_setup {r : Rtc} {timer : Nat} (h : bootGuiSetup g r timer = some s) :
    MenuFits g := by
  obtain ⟨m, hids, -, hle, hfit, -⟩ := setup_cases h
  refine ⟨?_, hfit⟩
  have := congrArg List.length hids
  rw [length_ids, menuIds, List.length_map] at this
  omega

theorem startsOnOption_of_safe (hfs : (g.emmc.or g.sd).isSome) {r : Rtc} {timer : Nat}
    (h : BootMenuSafe g r timer) : StartsOnOption g r := by
  obtain ⟨s₀, hs₀, hrun⟩ := h
  obtain ⟨-, -, -, -, -, -, hiff⟩ := setup_spec hfs hs₀
  exact hiff.1 (hrun [] s₀ .nil).cursor

/-- **The menu acts on options only**, over all runs, exactly when its lines fit and the option it
starts on is in the menu. -/
theorem bootMenu_iff (hfs : (g.emmc.or g.sd).isSome) (r : Rtc) (timer : Nat) :
    BootMenuSafe g r timer ↔ MenuFits g ∧ StartsOnOption g r := by
  constructor
  · intro h
    obtain ⟨s₀, hs₀, -⟩ := id h
    exact ⟨menuFits_of_setup hs₀, startsOnOption_of_safe hfs h⟩
  · rintro ⟨hf, hstart⟩
    obtain ⟨s₀, hs₀⟩ := setup_isSome hfs hf r timer
    obtain ⟨hids, -, -, hstate, -, hon, hiff⟩ := setup_spec hfs hs₀
    refine ⟨s₀, hs₀, fun is s hrun => onOption_of_inv ?_⟩
    refine hrun.inv ⟨⟨hids, hon⟩, hiff.2 hstart, fun h => ?_⟩ fun _ _ _ => optionInv_step
    rw [hstate] at h
    cases h

end

/-! ## A card without configurations -/

/-- p-boot runs from a card that has a boot file system and no configuration. -/
def blankCard : Globals := { Globals.init bootedFromMmc0 false with sd := some blankFs }

theorem confLines_blankFs (base : Nat) : confLines (some blankFs) base = [] := by
  unfold confLines
  have : (List.range 32).filter blankFs.isConf = [] :=
    List.filter_eq_nil_iff.2 fun i _ => by rw [isConf_blankFs]; exact Bool.false_ne_true
  dsimp only
  rw [this]
  rfl

theorem menuLines_blankCard : menuLines blankCard =
    [.lit (-2) "eMMC:" colorEmmcHeader colorEmmcHeader,
      .lit bootselEmmc "Boot via bootloader on eMMC" colorNormalItem colorDefaultItem,
      .lit (-2) "" 0 0, .lit (-2) "SD:" colorSdHeader colorSdHeader, .lit (-2) "" 0 0] ++
      privLine :: endLines := by
  have hsd : sdLines blankCard = [.lit (-2) "SD:" colorSdHeader colorSdHeader] ++
      confLines (some blankFs) 32 ++ [.lit (-2) "" 0 0] := rfl
  unfold menuLines
  rw [hsd, confLines_blankFs]
  rfl

theorem menuFits_blankCard : MenuFits blankCard := by
  refine ⟨?_, ?_⟩
  · rw [menuLines_blankCard]; decide
  · rw [menuLines_blankCard]; decide

/-- With FEL as the default the menu is safe. -/
theorem bootMenu_fel : (blankCard.emmc.or blankCard.sd).isSome ∧
    BootMenuSafe blankCard (rtcBootselSet ⟨0, 0⟩ bootselFel) 0 := by
  refine ⟨rfl, (bootMenu_iff rfl _ _).2 ⟨menuFits_blankCard, ?_⟩⟩
  unfold StartsOnOption menuIds
  rw [menuLines_blankCard]
  decide

/-- Without a default it starts on the heading. -/
theorem bootMenu_heading : ¬ BootMenuSafe blankCard ⟨0, 0⟩ 0 := by
  intro h
  have hstart := startsOnOption_of_safe rfl h
  unfold StartsOnOption menuIds at hstart
  rw [menuLines_blankCard] at hstart
  exact absurd hstart (by decide)

end PBoot
