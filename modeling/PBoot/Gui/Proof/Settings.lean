import Mathlib.Data.Fintype.Basic
import PBoot.Gui.Proof.Options

/-!
# The two settings in the persistent word

The word at 0x100 holds the default and the flags; `rtc_bootsel_set` writes all of it.

* `read_apply_iff`: an operation changes nothing but what it sets, exactly when it is `Keeps`.
* `settings_independent`: so a sequence of operations does exactly when they all are; and in the
  menu the "Privacy mode" item shows the flag, as long as no press stores a default while it is
  set.
-/

namespace PBoot

open Runs

/-! ## Settings and operations -/

/-- The default, and the flag of each bit. -/
structure Settings where
  dflt : Int
  flag : Fin 32 → Bool

/-- What `rtc_bootsel_get` and `rtc_get_flag` return. -/
def Settings.read (r : Rtc) : Settings := ⟨rtcBootselGet r, fun n => rtcGetFlag r (bit n)⟩

/-- What changes the settings. -/
inductive SettingsOp where
  /-- `rtc_bootsel_set`. -/
  | bootselSet (dflt : Int) (h : -1 ≤ dflt ∧ dflt ≤ 66)
  /-- `rtc_set_flag`. -/
  | setFlag (n : Fin 32) (on : Bool)
  /-- A long press with the cursor on an item of the menu. -/
  | longPress (item : Nat)

def SettingsOp.apply (s : BootGui) : SettingsOp → BootGui
  | .bootselSet dflt _ => { s with rtc := rtcBootselSet s.rtc dflt }
  | .setFlag n on => { s with rtc := rtcSetFlag s.rtc (bit n) (if on then bit n else 0) }
  | .longPress item => BootGui.markDefault { s with menu := { s.menu with selection := item } }

/-- What each operation sets. -/
def Settings.after (a : Settings) (s : BootGui) : SettingsOp → Settings
  | .bootselSet dflt _ => { a with dflt }
  | .setFlag n on => { a with flag := Function.update a.flag n on }
  | .longPress item =>
    if s.menu.idAt item = bootselPoweroff then { a with dflt := -1 }
    else if s.menu.idAt item = privId then { a with flag := Function.update a.flag 0 !s.privActive }
    else { a with dflt := s.menu.idAt item }

/-- No flag is set. -/
def NoFlag (r : Rtc) : Prop := ∀ n : Fin 32, rtcGetFlag r (bit n) = false

/-- No flag is set when the default changes, the default fits its byte, and a flag that is set has
its bit in the upper half of the word. -/
def SettingsOp.Keeps (s : BootGui) : SettingsOp → Prop
  | .bootselSet _ _ => NoFlag s.rtc
  | .setFlag n on => n.val < 16 ∨ on = false
  | .longPress item => s.menu.idAt item = privId ∨
      (NoFlag s.rtc ∧ -1 ≤ s.menu.idAt item ∧ s.menu.idAt item < 255)

/-! ## One operation -/

section
variable {r : Rtc} {d : Int}

theorem read_bootselSet_iff :
    Settings.read (rtcBootselSet r d) = { Settings.read r with dflt := d } ↔
      NoFlag r ∧ -1 ≤ d ∧ d < 255 := by
  have hflag : (Settings.read (rtcBootselSet r d)).flag = fun _ => false :=
    funext fun n => rtcGetFlag_bootselSet r d n
  constructor
  · intro h
    refine ⟨fun n => ?_, ?_⟩
    · have := congrArg Settings.flag h
      rw [hflag] at this
      exact (congrFun this n).symm
    · have hd : rtcBootselGet (rtcBootselSet r d) = d := congrArg Settings.dflt h
      have := rtcBootselGet_range (rtcBootselSet r d)
      omega
  · rintro ⟨hn, h1, h255⟩
    have hr : (Settings.read r).flag = fun _ => false := funext hn
    have hd : (Settings.read (rtcBootselSet r d)).dflt = d := rtcBootselGet_set r h1 h255
    show Settings.mk (Settings.read (rtcBootselSet r d)).dflt
      (Settings.read (rtcBootselSet r d)).flag = Settings.mk d (Settings.read r).flag
    rw [hflag, hr, hd]

theorem read_setFlag_iff (r : Rtc) (n : Fin 32) (on : Bool) :
    Settings.read (rtcSetFlag r (bit n) (if on then bit n else 0)) =
        { Settings.read r with flag := Function.update (Settings.read r).flag n on } ↔
      n.val < 16 ∨ on = false := by
  rcases Nat.lt_or_ge n.val 16 with hn | hn
  · refine ⟨fun _ => .inl hn, fun _ => ?_⟩
    unfold Settings.read
    dsimp only
    rw [rtcBootselGet_setFlag r hn]
    refine congrArg (Settings.mk _) (funext fun m => ?_)
    rcases Nat.lt_or_ge m.val 16 with hm | hm
    · rw [rtcGetFlag_setFlag r hn hm, Function.update_apply]
      simp only [Fin.ext_iff]
    · rw [rtcGetFlag_of_ge _ hm, Function.update_of_ne (by omega), rtcGetFlag_of_ge _ hm]
  · rw [rtcSetFlag_of_ge r hn]
    constructor
    · intro h
      have hon : (Settings.read r).flag n = Function.update (Settings.read r).flag n on n :=
        congrFun (congrArg Settings.flag h) n
      rw [Function.update_self] at hon
      exact .inr (hon.symm.trans (rtcGetFlag_of_ge r hn))
    · rintro (h | rfl)
      · omega
      · have : Function.update (Settings.read r).flag n false = (Settings.read r).flag := by
          conv_lhs => rw [← show (Settings.read r).flag n = false from rtcGetFlag_of_ge r hn]
          exact Function.update_eq_self n _
        rw [this]

end

theorem markDefault_at (s : BootGui) (item : Nat) :
    SettingsOp.apply s (.longPress item) =
      (if s.menu.idAt item = bootselPoweroff then
        BootGui.storeDefault { s with menu := { s.menu with selection := item } } (-1)
      else if s.menu.idAt item = privId then
        BootGui.togglePrivacy { s with menu := { s.menu with selection := item } }
      else
        BootGui.storeDefault { s with menu := { s.menu with selection := item } }
          (s.menu.idAt item)) := rfl

/-- **One operation** sets what it is to set and nothing else, exactly when it is `Keeps`. -/
theorem read_apply_iff (s : BootGui) (op : SettingsOp) :
    Settings.read (op.apply s).rtc = (Settings.read s.rtc).after s op ↔ op.Keeps s := by
  cases op with
  | bootselSet dflt h =>
    refine read_bootselSet_iff.trans ⟨fun h => h.1, fun hn => ⟨hn, h.1, ?_⟩⟩
    omega
  | setFlag n on => exact read_setFlag_iff s.rtc n on
  | longPress item =>
    rw [markDefault_at]
    unfold Settings.after SettingsOp.Keeps
    dsimp only
    by_cases h64 : s.menu.idAt item = bootselPoweroff
    · rw [if_pos h64, if_pos h64, h64]
      refine (read_bootselSet_iff (r := s.rtc) (d := -1)).trans ?_
      constructor
      · exact fun h => .inr ⟨h.1, by decide, by decide⟩
      · rintro (h | h)
        · exact absurd h (by decide)
        · exact ⟨h.1, by decide, by decide⟩
    · rw [if_neg h64, if_neg h64]
      by_cases hp : s.menu.idAt item = privId
      · rw [if_pos hp, if_pos hp]
        refine ⟨fun _ => .inl hp, fun _ => ?_⟩
        exact (read_setFlag_iff s.rtc 0 _).2 (.inl (by decide))
      · rw [if_neg hp, if_neg hp]
        refine read_bootselSet_iff.trans ⟨.inr, ?_⟩
        rintro (h | h)
        · exact absurd h hp
        · exact h

/-! ## Sequences of operations -/

/-- A state of the menu, and what was set last. -/
structure Tracked where
  gui : BootGui
  set : Settings

def Tracked.next (t : Tracked) (op : SettingsOp) : Tracked :=
  { gui := op.apply t.gui, set := t.set.after t.gui op }

/-- The state after some operations. -/
def Tracked.run (s : BootGui) (ops : List SettingsOp) : Tracked :=
  ops.foldl Tracked.next ⟨s, Settings.read s.rtc⟩

@[simp] theorem Tracked.run_snoc (s : BootGui) (ops : List SettingsOp) (op : SettingsOp) :
    Tracked.run s (ops ++ [op]) = (Tracked.run s ops).next op := by
  simp [Tracked.run]

/-- What is read is what was set last, after each of the operations. -/
def SettingsKept (s : BootGui) (ops : List SettingsOp) : Prop :=
  ∀ pre, pre <+: ops → Settings.read (Tracked.run s pre).gui.rtc = (Tracked.run s pre).set

/-- Each of the operations keeps the settings apart. -/
def AllKeep (s : BootGui) (ops : List SettingsOp) : Prop :=
  ∀ pre op, pre ++ [op] <+: ops → op.Keeps (Tracked.run s pre).gui

theorem settingsKept_iff (s : BootGui) (ops : List SettingsOp) :
    SettingsKept s ops ↔ AllKeep s ops := by
  refine ⟨fun h pre op hpre => ?_, fun h pre hpre => ?_⟩
  · have hbefore := h pre ((List.prefix_append pre [op]).trans hpre)
    have hafter := h (pre ++ [op]) hpre
    rw [Tracked.run_snoc] at hafter
    refine (read_apply_iff _ op).1 ?_
    rw [hbefore]
    exact hafter
  · induction pre using List.reverseRecOn with
    | nil => rfl
    | append_singleton pre op ih =>
      have hbefore := ih ((List.prefix_append pre [op]).trans hpre)
      rw [Tracked.run_snoc]
      have hafter := (read_apply_iff _ op).2 (h pre op hpre)
      rw [hbefore] at hafter
      exact hafter

/-! ## The privacy item -/

/-- A press that stores a default comes when the flag is clear. -/
def StoresClear (s : BootGui) (i : LoopInput) : Prop :=
  i.events.pokLong = true → ∀ m, guiMenuUpdate s.menu i.events = some m →
    guiMenuGetSelection m = privId ∨ rtcGetFlag s.rtc (bit 0) = false

/-- In every state of the loop the item is shown active exactly when the flag is set. -/
def PrivacyShown : Prop :=
  ∀ g r timer s₀ is s, bootGuiSetup g r timer = some s₀ →
    Run (Guarded (LoopNext g) StoresClear) s₀ is s → s.privActive = rtcGetFlag s.rtc (bit 0)

/-- `priv` points to the privacy item, and it shows the flag. -/
def PrivInv (s : BootGui) : Prop :=
  ∃ it, s.menu.items[s.priv]? = some it ∧ it.id = privId ∧ it.active = rtcGetFlag s.rtc (bit 0)

section
variable {g : Globals} {s s' : BootGui} {i : LoopInput}

theorem PrivInv.active (h : PrivInv s) : s.privActive = rtcGetFlag s.rtc (bit 0) := by
  obtain ⟨it, hit, -, ha⟩ := h
  unfold BootGui.privActive
  rw [hit]
  exact ha

theorem update_items {m m' : GuiMenu} {e : Events} (h : guiMenuUpdate m e = some m') :
    m'.items = m.items := by
  obtain ⟨m₁, hm₁, rfl⟩ := Option.map_eq_some_iff.1 h
  show m₁.items = m.items
  unfold GuiMenu.move at hm₁
  split at hm₁
  · split at hm₁
    · cases hm₁
    · split at hm₁ <;> cases hm₁ <;> rfl
  · cases hm₁; rfl

theorem privInv_storeDefault (h : PrivInv s) (hf : rtcGetFlag s.rtc (bit 0) = false) (dflt : Int) :
    PrivInv (s.storeDefault dflt) := by
  obtain ⟨it, hit, hid, ha⟩ := h
  refine ⟨it, setActive_getElem? hit (by rw [hid]; decide), hid, ?_⟩
  rw [ha, hf]
  exact (rtcGetFlag_bootselSet s.rtc dflt 0).symm

theorem privInv_togglePrivacy (h : PrivInv s) : PrivInv s.togglePrivacy := by
  obtain ⟨it, hit, hid, -⟩ := h
  refine ⟨{ it with active := !s.privActive }, setPrivActive_getElem? _ hit, hid, ?_⟩
  exact (rtcGetFlag_setFlag s.rtc (n := 0) (m := 0) (by decide) (by decide) _).symm

theorem privInv_markDefault (h : PrivInv s)
    (hf : guiMenuGetSelection s.menu = privId ∨ rtcGetFlag s.rtc (bit 0) = false) :
    PrivInv s.markDefault := by
  unfold BootGui.markDefault
  dsimp only
  split
  · rename_i h64
    refine privInv_storeDefault h (hf.resolve_left fun hp => ?_) _
    rw [h64] at hp
    exact absurd hp (by decide)
  · split
    · exact privInv_togglePrivacy h
    · rename_i hp
      exact privInv_storeDefault h (hf.resolve_left hp) _

theorem privInv_step (h : PrivInv s) (hst : Guarded (LoopNext g) StoresClear s i s') :
    PrivInv s' := by
  obtain ⟨hclear, hnext⟩ := hst
  obtain ⟨m, s₁, hm, hs₁, hmenu, hrtc, hpriv, -⟩ := loopStep_next hnext
  obtain ⟨hwm, hwr, hwp, -⟩ := watch_frame { s with menu := m } i
  have hw : PrivInv (BootGui.watch { s with menu := m } i) := by
    obtain ⟨it, hit, hid, ha⟩ := h
    refine ⟨it, ?_, hid, ?_⟩
    · rw [hwm, hwp]
      show m.items[s.priv]? = some it
      rw [update_items hm]
      exact hit
    · rw [hwr]
      exact ha
  have h₁ : PrivInv s₁ := by
    rw [hs₁]
    split
    · rename_i hlong
      refine privInv_markDefault hw ?_
      rw [hwm, hwr]
      exact hclear hlong m hm
    · exact hw
  obtain ⟨it, hit, hid, ha⟩ := h₁
  refine ⟨it, ?_, hid, ?_⟩
  · rw [hmenu, hpriv]; exact hit
  · rw [hrtc]; exact ha

end

theorem privInv_setup {g : Globals} {r : Rtc} {timer : Nat} {s : BootGui}
    (h : bootGuiSetup g r timer = some s) : PrivInv s := by
  obtain ⟨m, -, -, -, -, hpriv, hs⟩ := setup_cases h
  refine ⟨{ privLine.item with active := rtcGetFlag r (bit 0) }, ?_, rfl, ?_⟩
  · rw [congrArg BootGui.menu hs]
    dsimp only
    rw [(setSelection_spec _ _).1]
    split
    · exact setActive_getElem? hpriv (show (67 : Int) ≤ 100 by decide)
    · exact hpriv
  · rw [congrArg BootGui.rtc hs]

theorem privacyShown : PrivacyShown := by
  intro g r timer s₀ is s hs₀ h
  exact (h.inv (P := PrivInv) (privInv_setup hs₀) fun _ _ _ => privInv_step).active

/-- **The settings are independent** over a sequence of operations exactly when each of them keeps
them apart; and the menu then shows the flag. -/
theorem settings_independent (s : BootGui) (ops : List SettingsOp) :
    (SettingsKept s ops ↔ AllKeep s ops) ∧ PrivacyShown :=
  ⟨settingsKept_iff s ops, privacyShown⟩

/-- A state of the menu with a cleared word. -/
def clearedGui : BootGui :=
  { menu := .new, priv := 0, rtc := ⟨0, 0⟩, dflt := -1, state := .menu, bootSel := -1, deadline := 0 }

/-- Privacy mode is set, then option 3 made the default: the flag is lost. -/
theorem settings_flag_lost :
    ¬ SettingsKept clearedGui [.setFlag 0 true, .bootselSet 3 (by decide)] := by
  intro h
  have hread := congrArg (fun set => set.flag 0) (h _ (List.prefix_refl _))
  have hset : (Tracked.run clearedGui [.setFlag 0 true, .bootselSet 3 (by decide)]).set.flag 0 =
    true := rfl
  have hgot : rtcGetFlag (Tracked.run clearedGui
    [.setFlag 0 true, .bootselSet 3 (by decide)]).gui.rtc (bit 0) = false := by decide
  rw [hset] at hread
  exact absurd (hread.symm.trans hgot) (by decide)

end PBoot
