import PBoot.Gui.Events
import PBoot.Gui.Proof.Items
import PBoot.Gui.Proof.Options

/-!
# Power-off and boot for cause

* `acts_forCause`: in every run with the cursor on items with an id, the menu powers off after a
  press on Poweroff or 10 s without the user, and boots what the last press chose. The presses that
  count are those before the round that acts: the state is switched before the keys are looked at.
* `acts_latePress`: a press that comes with the frame is too late.
-/

namespace PBoot

open Runs

/-! ## Histories -/

/-- Any event but a frame. -/
def Events.user (e : Events) : Bool :=
  e.volumeUp || e.volumeDown || e.pokShort || e.pokLong || e.pokDown

/-- What one round finds, and the id of the item the cursor is on then. -/
structure Round where
  input : LoopInput
  cursor : Int

/-- The id of a short press on a bootable option or on Poweroff. -/
def Round.press (r : Round) : Option Int :=
  if r.input.events.pokShort ∧ 0 ≤ r.cursor ∧ r.cursor ≤ bootselPoweroff then some r.cursor else none

/-- The last such press. -/
def lastPress (rs : List Round) : Option Int := rs.foldl (fun p r => r.press.or p) none

/-- The time of the last event of the user, or of the start. -/
def lastUser (start : Nat) (rs : List Round) : Nat :=
  rs.foldl (fun t r => if r.input.events.user then r.input.now else t) start

/-- More than 10 s passed without the user, and no press came after that. -/
def Idle (start : Nat) (rs : List Round) : Prop :=
  ∃ pre r post, rs = pre ++ r :: post ∧ r.input.events.user = false ∧
    lastUser start pre + 10000000 < r.input.now ∧ ∀ r' ∈ post, r'.press = none

/-- Time does not go back. -/
def Timed : Nat → List Round → Prop
  | _, [] => True
  | t, r :: rs => t ≤ r.input.now ∧ r.input.now ≤ r.input.timer ∧ Timed r.input.timer rs

instance : ∀ t rs, Decidable (Timed t rs)
  | _, [] => isTrue trivial
  | _, r :: rs =>
    have := instDecidableTimed r.input.timer rs
    inferInstanceAs (Decidable (_ ∧ _ ∧ _))

/-- A round that goes on, with the cursor on an item with an id. -/
def RoundNext (g : Globals) (s : BootGui) (r : Round) (s' : BootGui) : Prop :=
  ((guiMenuUpdate s.menu r.input.events).map guiMenuGetSelection = some r.cursor ∧ 0 ≤ r.cursor) ∧
    LoopNext g s r.input s'

/-- What a round does, if it ends the loop, has its cause among the presses `rs`. -/
structure ForCause (g : Globals) (start : Nat) (rs : List Round) (res : Option LoopResult) : Prop where
  poweroff : res = some .poweroff → lastPress rs = some bootselPoweroff ∨ Idle start rs
  boot : ∀ cfs i r, res = some (.boot cfs i r) →
    ∃ id, lastPress rs = some id ∧ 0 ≤ id ∧ id < 64 ∧ cfs = optionFs g id ∧ i = Int.tmod id 32

section
variable {start : Nat} {rs : List Round} {r : Round}

theorem lastPress_snoc (rs : List Round) (r : Round) :
    lastPress (rs ++ [r]) = r.press.or (lastPress rs) := by
  simp [lastPress]

theorem lastUser_snoc (start : Nat) (rs : List Round) (r : Round) :
    lastUser start (rs ++ [r]) =
      if r.input.events.user then r.input.now else lastUser start rs := by
  simp [lastUser]

theorem Idle.snoc (h : Idle start rs) (hr : r.press = none) : Idle start (rs ++ [r]) := by
  obtain ⟨pre, q, post, rfl, hq, ht, hpost⟩ := h
  refine ⟨pre, q, post ++ [r], by simp, hq, ht, fun r' hr' => ?_⟩
  rcases List.mem_append.1 hr' with hr' | hr'
  · exact hpost r' hr'
  · rw [List.mem_singleton.1 hr', hr]

theorem Timed.now_le (h : Timed start rs) : ∀ r ∈ rs, r.input.now ≤ r.input.timer := by
  induction rs generalizing start with
  | nil => simp
  | cons q rs ih =>
    obtain ⟨-, hq, ht⟩ := h
    simpa using ⟨hq, fun r hr => ih ht r hr⟩

/-- A press is an event of the user. -/
theorem Round.press_eq_none (h : r.input.events.pokShort = false) : r.press = none := by
  simp [Round.press, h]

end

/-! ## One round -/

section
variable {g : Globals} {s s' : BootGui} {i : LoopInput}

/-- A round without the user ends the menu when the deadline has passed. -/
theorem quiet_round (h : LoopNext g s i s') (hu : i.events.user = false) :
    s'.deadline = s.deadline ∧ s'.bootSel = s.bootSel ∧
      (s'.state = s.state ∨ s'.state = .off ∧ s.deadline < i.now) := by
  obtain ⟨m, -, hp⟩ := loopStep_press h
  simp only [Events.user, Bool.or_eq_false_iff] at hu
  obtain ⟨⟨⟨⟨hup, hdown⟩, hshort⟩, hlong⟩, hpok⟩ := hu
  simp only [BootGui.press, hshort, hlong, Bool.false_eq_true, ↓reduceIte, LoopResult.next.injEq] at hp
  subst hp
  simp only [BootGui.watch, hup, hdown, hshort, hlong, hpok, Bool.or_self, Bool.false_eq_true,
    ↓reduceIte]
  split
  · rename_i hlt
    exact ⟨rfl, rfl, .inr ⟨rfl, hlt⟩⟩
  · exact ⟨rfl, rfl, .inl rfl⟩

/-- A round with the user moves the deadline, and a short press decides. -/
theorem user_round (h : LoopNext g s i s') (hu : i.events.user = true) (ht : i.now ≤ i.timer) :
    ∃ m, guiMenuUpdate s.menu i.events = some m ∧ s'.deadline = i.timer + 10000000 ∧
      ((i.events.pokShort = false ∧ s'.state = s.state ∧ s'.bootSel = s.bootSel) ∨
        (i.events.pokShort = true ∧
          ((guiMenuGetSelection m = bootselPoweroff ∧ s'.state = .off) ∨
            (guiMenuGetSelection m < 64 ∧ s'.state = .boot ∧ s'.bootSel = guiMenuGetSelection m) ∨
            (64 < guiMenuGetSelection m ∧ s'.state = s.state ∧ s'.bootSel = s.bootSel)))) := by
  obtain ⟨m, hm, hp⟩ := loopStep_press h
  have hwatch : BootGui.watch { s with menu := m } i =
      { s with menu := m, deadline := i.timer + 10000000 } := by
    unfold BootGui.watch
    rw [show (i.events.volumeUp || i.events.volumeDown || i.events.pokShort || i.events.pokLong ||
      i.events.pokDown) = true from hu]
    exact if_neg (show ¬ i.timer + 10000000 < i.now by omega)
  rw [hwatch] at hp
  -- a long press leaves the cursor and what was decided
  obtain ⟨s₁, hs₁, hsel, hstate, hboot, hend⟩ : ∃ s₁, (if i.events.pokShort then BootGui.choose s₁
      else .next s₁) = .next s' ∧ guiMenuGetSelection s₁.menu = guiMenuGetSelection m ∧
      s₁.state = s.state ∧ s₁.bootSel = s.bootSel ∧ s₁.deadline = i.timer + 10000000 := by
    refine ⟨_, hp, ?_⟩
    split
    · obtain ⟨hids, hsel, hkeep⟩ :=
        markDefault_frame { s with menu := m, deadline := i.timer + 10000000 }
      exact ⟨getSelection_congr hids hsel, hkeep⟩
    · exact ⟨rfl, rfl, rfl, rfl⟩
  refine ⟨m, hm, ?_⟩
  split at hs₁
  · rename_i hshort
    obtain ⟨-, -, -, hd, hcases⟩ := choose_next hs₁
    rw [hsel, hstate, hboot] at hcases
    exact ⟨hd.trans hend, .inr ⟨hshort, hcases⟩⟩
  · rename_i hshort
    cases hs₁
    exact ⟨hend, .inl ⟨by simpa using hshort, hstate, hboot⟩⟩

/-- The power key ends the loop by a reset only. -/
theorem press_cases (s : BootGui) (e : Events) :
    (∃ s', s.press e = .next s') ∨ ∃ r, s.press e = .reset r := by
  unfold BootGui.press BootGui.choose
  dsimp only
  split
  · split
    · exact .inr ⟨_, rfl⟩
    · exact .inl ⟨_, rfl⟩
  · exact .inl ⟨_, rfl⟩

end

/-! ## Over all runs -/

/-- What the variables of the loop know of the history. -/
structure CauseInv (start : Nat) (rs : List Round) (s : BootGui) : Prop where
  deadline : lastUser start rs + 10000000 ≤ s.deadline
  off : s.state = .off → lastPress rs = some bootselPoweroff ∨ Idle start rs
  boot : s.state = .boot → lastPress rs = some s.bootSel ∧ 0 ≤ s.bootSel ∧ s.bootSel < 64

section
variable {g : Globals} {start : Nat} {rs : List Round} {r : Round} {s s' : BootGui}

/-- Without a press the cause is the one before. -/
theorem CauseInv.keep (h : CauseInv start rs s) (hp : r.press = none)
    (hd : lastUser start (rs ++ [r]) + 10000000 ≤ s'.deadline) (hst : s'.state = s.state)
    (hbs : s'.bootSel = s.bootSel) : CauseInv start (rs ++ [r]) s' := by
  have hlast : lastPress (rs ++ [r]) = lastPress rs := by rw [lastPress_snoc, hp, Option.none_or]
  refine ⟨hd, fun hoff => ?_, fun hboot => ?_⟩
  · rw [hlast]
    exact (h.off (hst ▸ hoff)).imp_right (·.snoc hp)
  · rw [hlast, hbs]
    exact h.boot (hst ▸ hboot)

theorem causeInv_quiet (h : CauseInv start rs s) (hr : RoundNext g s r s')
    (hu : r.input.events.user = false) : CauseInv start (rs ++ [r]) s' := by
  obtain ⟨hd, hbs, hst⟩ := quiet_round hr.2 hu
  have hp : r.press = none := Round.press_eq_none (by simp_all [Events.user])
  have huser : lastUser start (rs ++ [r]) = lastUser start rs := by rw [lastUser_snoc, hu]; rfl
  have hend : lastUser start (rs ++ [r]) + 10000000 ≤ s'.deadline := by
    rw [huser, hd]
    exact h.deadline
  rcases hst with hst | ⟨hoff, hlt⟩
  · exact h.keep hp hend hst hbs
  · refine ⟨hend, fun _ => .inr ⟨rs, r, [], rfl, hu, h.deadline.trans_lt hlt, by simp⟩, ?_⟩
    rw [hoff]
    simp

theorem causeInv_user (h : CauseInv start rs s) (hr : RoundNext g s r s')
    (hu : r.input.events.user = true) (ht : r.input.now ≤ r.input.timer) :
    CauseInv start (rs ++ [r]) s' := by
  obtain ⟨m, hm, hd, hst⟩ := user_round hr.2 hu ht
  obtain ⟨⟨hcur, h0⟩, -⟩ := hr
  have hcur : guiMenuGetSelection m = r.cursor := by simpa [hm] using hcur
  have hend : lastUser start (rs ++ [r]) + 10000000 ≤ s'.deadline := by
    rw [lastUser_snoc, hu, hd]
    exact Nat.add_le_add_right ht _
  rw [hcur] at hst
  rcases hst with ⟨hshort, hstate, hbs⟩ | ⟨hshort, hst⟩
  · exact h.keep (Round.press_eq_none hshort) hend hstate hbs
  · rcases hst with ⟨hoff, hstate⟩ | ⟨h64, hstate, hbs⟩ | ⟨h64, hstate, hbs⟩
    · have hp : r.press = some bootselPoweroff := by simp [Round.press, hshort, hoff, bootselPoweroff]
      refine ⟨hend, fun _ => .inl (by rw [lastPress_snoc, hp, Option.some_or]), ?_⟩
      rw [hstate]
      simp
    · have hp : r.press = some r.cursor := by
        simp [Round.press, hshort, h0, bootselPoweroff, h64.le]
      refine ⟨hend, by simp [hstate], fun _ => ?_⟩
      rw [lastPress_snoc, hp, hbs]
      exact ⟨Option.some_or, h0, h64⟩
    · have hp : r.press = none := by simp [Round.press, bootselPoweroff, Int.not_le.2 h64]
      exact h.keep hp hend hstate hbs

/-- **One round** keeps the causes. -/
theorem causeInv_step (h : CauseInv start rs s) (hr : RoundNext g s r s')
    (ht : r.input.now ≤ r.input.timer) : CauseInv start (rs ++ [r]) s' := by
  rcases hu : r.input.events.user with _ | _
  · exact causeInv_quiet h hr hu
  · exact causeInv_user h hr hu ht

theorem causeInv_run {s₀ : BootGui} (h0 : CauseInv start [] s₀) (h : Run (RoundNext g) s₀ rs s)
    (ht : ∀ r ∈ rs, r.input.now ≤ r.input.timer) : CauseInv start rs s := by
  induction h with
  | nil => exact h0
  | snoc _ hst ih =>
    simp only [List.mem_append, List.mem_singleton, or_imp, forall_and, forall_eq] at ht
    exact causeInv_step (ih ht.1) hst ht.2

/-- What ends the loop is in its state. -/
theorem CauseInv.forCause (h : CauseInv start rs s) (i : LoopInput) :
    ForCause g start rs (loopStep g s i) := by
  unfold loopStep
  split
  · exact ⟨nofun, nofun⟩
  · dsimp only
    split
    · rename_i hoff
      exact ⟨fun _ => h.off hoff.2, nofun⟩
    split
    · rename_i hboot
      obtain ⟨hlast, h0, h64⟩ := h.boot hboot.2
      refine ⟨nofun, fun cfs n r he => ⟨s.bootSel, hlast, h0, h64, ?_⟩⟩
      cases he
      exact ⟨rfl, rfl⟩
    · rename_i m _ _ _
      rcases press_cases (BootGui.watch { s with menu := m } i) i.events with ⟨s', hp⟩ | ⟨r', hp⟩
      · rw [hp]
        exact ⟨nofun, nofun⟩
      · rw [hp]
        exact ⟨nofun, nofun⟩

/-- **Power-off and boot for cause**, in every run. -/
theorem acts_forCause {r : Rtc} {timer : Nat} {s₀ : BootGui} (h0 : bootGuiSetup g r timer = some s₀)
    (hrun : Run (RoundNext g) s₀ rs s) (ht : Timed timer rs) (i : LoopInput) :
    ForCause g timer rs (loopStep g s i) := by
  obtain ⟨_, _, _, _, _, _, hs₀⟩ := setup_cases h0
  have hstate : s₀.state = .menu := congrArg BootGui.state hs₀
  have hinit : CauseInv timer [] s₀ := by
    refine ⟨(setup_deadline h0).ge, fun hoff => ?_, fun hboot => ?_⟩
    · rw [hstate] at hoff
      cases hoff
    · rw [hstate] at hboot
      cases hboot
  exact (causeInv_run hinit hrun ht.now_le).forCause i

end

/-! ## A press that comes too late -/

/-- An SD card with one configuration. -/
def oneSlot : Globals :=
  { Globals.init bootedFromMmc0 false with sd := some (slotsFs fun i => i == 0) }

/-- More than 10 s after the start. -/
def idleRound : Round :=
  { input := { events := .none, now := 10000001, timer := 10000001 }, cursor := 32 }

/-- A short press on the configuration comes with the next frame. -/
def lateRound : Round :=
  { input := { events := { Events.none with vblank := true, pokShort := true }
               now := 10000002, timer := 10000002 }
    cursor := 32 }

theorem sdLines_oneSlot : sdLines oneSlot = [.lit (-2) "SD:" colorSdHeader colorSdHeader] ++
    confLines (some (slotsFs fun i => i == 0)) 32 ++ [.lit (-2) "" 0 0] := rfl

theorem menuIds_oneSlot : menuIds oneSlot = [-2, bootselEmmc, -2, -2, 32, -2, privId, bootselFel,
    bootselPoweroff] := by
  have hconf : (List.range 32).filter (slotsFs fun i => i == 0).isConf =
      (List.range 32).filter fun i => i == 0 :=
    List.filter_congr fun i hi => isConf_slotsFs _ (List.mem_range.1 hi)
  have hids : (confLines (some (slotsFs fun i => i == 0)) 32).map MenuLine.id = [32] := by
    unfold confLines
    dsimp only
    rw [hconf]
    rfl
  unfold menuIds menuLines
  rw [sdLines_oneSlot]
  simp only [List.map_append, List.map_cons, hids]
  rfl

/-- The names of the configurations are empty. -/
theorem fits_slotsFs {slots : Nat → Bool} {base : Nat} {l : MenuLine}
    (h : l ∈ confLines (some (slotsFs slots)) base) : l.Fits := by
  obtain ⟨i, hi, rfl⟩ := List.mem_map.1 h
  obtain ⟨rest, hr⟩ := blockFrom_slotsFs slots (List.mem_range.1 (List.mem_filter.1 hi).1)
  have hlen : (if slots i then confMagic else List.replicate 8 0).length = 8 := by split <;> rfl
  have hzero : List.replicate 2040 (0 : UInt8) = List.replicate 1944 0 ++ 0 :: List.replicate 95 0 := by
    rw [← List.replicate_succ, List.replicate_append_replicate]
  have hname : nameField ((slotsFs slots).blockFrom i) = 0 :: (List.replicate 95 0 ++ rest) := by
    rw [hr, nameField, bootArgsField, slotBlock, List.append_assoc, List.drop_left' hlen,
      List.drop_drop, show 8 * 12 + bootArgsSize = 1944 by rfl, hzero, List.append_assoc,
      List.drop_left' List.length_replicate, List.cons_append]
  unfold MenuLine.Fits
  dsimp only
  rw [hname]
  simp [menuText]

theorem menuFits_oneSlot : MenuFits oneSlot := by
  refine ⟨?_, fun l hl => ?_⟩
  · have hlen : (menuIds oneSlot).length = 9 := congrArg List.length menuIds_oneSlot
    rw [menuIds, List.length_map] at hlen
    rw [hlen]
    decide
  · have hlit : ∀ l ∈ emmcLines oneSlot ++ (.lit (-2) "SD:" colorSdHeader colorSdHeader ::
        .lit (-2) "" 0 0 :: privLine :: endLines), l.Fits := by decide
    simp only [menuLines, sdLines_oneSlot, List.mem_append, List.mem_cons, List.not_mem_nil, or_false] at hl
    simp only [List.mem_append, List.mem_cons] at hlit
    rcases hl with (hl | (hl | hl) | hl) | hl | hl
    · exact hlit l (.inl hl)
    · exact hlit l (.inr (.inl hl))
    · exact fits_slotsFs hl
    · exact hlit l (.inr (.inr (.inl hl)))
    · exact hlit l (.inr (.inr (.inr (.inl hl))))
    · exact hlit l (.inr (.inr (.inr (.inr hl))))

theorem start_oneSlot : ∃ s₀, bootGuiSetup oneSlot ⟨0, 0⟩ 0 = some s₀ ∧ MenuInv oneSlot s₀ ∧
    guiMenuGetSelection s₀.menu = 32 := by
  obtain ⟨s₀, hs₀⟩ := setup_isSome (g := oneSlot) rfl menuFits_oneSlot ⟨0, 0⟩ 0
  obtain ⟨hids, -, -, -, -, hon, -⟩ := setup_spec (g := oneSlot) rfl hs₀
  refine ⟨s₀, hs₀, ⟨hids, hon⟩, setup_cursor ?_ hs₀⟩
  unfold StartsOnOption
  rw [menuIds_oneSlot]
  decide

/-- Without a volume key the item under the cursor is the one before. -/
theorem cursor_still {s : BootGui} {r : Round} (h : s.menu.OnItem) (he : r.input.events.dir = 0)
    (hc : guiMenuGetSelection s.menu = r.cursor) :
    (guiMenuUpdate s.menu r.input.events).map guiMenuGetSelection = some r.cursor := by
  obtain ⟨m, hm, hitems, hsel⟩ := update_still h he
  rw [hm, Option.map_some, getSelection_congr (congrArg (List.map MenuItem.id) hitems) hsel, hc]

theorem idle_run : ∃ s₀ s, bootGuiSetup oneSlot ⟨0, 0⟩ 0 = some s₀ ∧
    Run (RoundNext oneSlot) s₀ [idleRound] s ∧ MenuInv oneSlot s ∧
    guiMenuGetSelection s.menu = 32 ∧ s.state = .off := by
  obtain ⟨s₀, hs₀, hinv, hcur⟩ := start_oneSlot
  obtain ⟨m, hm, hitems, hsel⟩ := update_still (e := idleRound.input.events) hinv.on rfl
  have hend : s₀.deadline < idleRound.input.now := by
    rw [setup_deadline hs₀]
    decide
  have hnext : LoopNext oneSlot s₀ idleRound.input { s₀ with menu := m, state := .off } := by
    have hwatch : BootGui.watch { s₀ with menu := m } idleRound.input =
        { s₀ with menu := m, state := .off } := if_pos hend
    unfold LoopNext loopStep
    rw [hm]
    dsimp only
    rw [hwatch]
    simp [idleRound, Events.none, BootGui.press]
  refine ⟨s₀, _, hs₀, Run.nil.snoc ⟨⟨cursor_still hinv.on rfl hcur, by decide⟩, hnext⟩,
    menuInv_step hinv hnext, ?_, rfl⟩
  rw [← hcur]
  exact getSelection_congr (congrArg (List.map MenuItem.id) hitems) hsel

/-- After 10 s without the user a frame powers off. -/
theorem acts_forCause_idle : ∃ s₀ s, bootGuiSetup oneSlot ⟨0, 0⟩ 0 = some s₀ ∧
    Run (RoundNext oneSlot) s₀ [idleRound] s ∧ Timed 0 [idleRound] ∧
    ∀ i, ForCause oneSlot 0 [idleRound] (loopStep oneSlot s i) := by
  obtain ⟨s₀, s, hs₀, hrun, -⟩ := idle_run
  have ht : Timed 0 [idleRound] := by decide
  exact ⟨s₀, s, hs₀, hrun, ht, acts_forCause hs₀ hrun ht⟩

/-- A press on the configuration with the frame that powers off: it is the last one. -/
theorem acts_latePress : ∃ s₀ s, bootGuiSetup oneSlot ⟨0, 0⟩ 0 = some s₀ ∧
    Run (RoundNext oneSlot) s₀ [idleRound] s ∧ Timed 0 [idleRound, lateRound] ∧
    (guiMenuUpdate s.menu lateRound.input.events).map guiMenuGetSelection = some lateRound.cursor ∧
    ¬ ForCause oneSlot 0 [idleRound, lateRound] (loopStep oneSlot s lateRound.input) := by
  obtain ⟨s₀, s, hs₀, hrun, hinv, hcur, hoff⟩ := idle_run
  obtain ⟨m, hm, -⟩ := update_still (e := lateRound.input.events) hinv.on rfl
  have hstep : loopStep oneSlot s lateRound.input = some .poweroff := by
    unfold loopStep
    rw [hm]
    simp [lateRound, hoff]
  refine ⟨s₀, s, hs₀, hrun, by decide, cursor_still hinv.on rfl hcur, fun h => ?_⟩
  rcases h.poweroff hstep with hlast | ⟨pre, r, post, hrs, hu, -, hpost⟩
  · exact absurd hlast (by decide)
  · -- the idle time is before the press
    rcases pre with _ | ⟨_, _ | ⟨_, pre⟩⟩
    · cases hrs
      exact absurd (hpost lateRound (by simp)) (by decide)
    · cases hrs
      exact absurd hu (by decide)
    · simp at hrs

end PBoot
