import PBoot.Gui.BootGui

/-!
# What `boot_gui` starts with

* `setup_isSome`: the menu is filled when its lines fit the tables.
* `setup_spec`: the items are the lines, `priv` points to the privacy item, which shows the flag,
  and the cursor is on the item of `startOption` or on the first line.
-/

namespace PBoot

/-- The lines of the menu, in order. -/
def menuLines (g : Globals) : List MenuLine := (emmcLines g ++ sdLines g) ++ privLine :: endLines

def menuIds (g : Globals) : List Int := (menuLines g).map MenuLine.id

/-- The lines fit the tables of the menu. -/
structure MenuFits (g : Globals) : Prop where
  count : (menuLines g).length ≤ menuItems
  text : ∀ l ∈ menuLines g, l.Fits

/-- The ids of a menu's items. -/
def GuiMenu.ids (m : GuiMenu) : List Int := m.items.map MenuItem.id

/-! ## What keeps the ids -/

section
variable (m : GuiMenu)

@[simp] theorem setActive_ids (id : Int) : (guiMenuSetActive m id).ids = m.ids := by
  unfold guiMenuSetActive GuiMenu.ids
  rw [List.map_map]
  refine List.map_congr_left fun it _ => ?_
  simp only [Function.comp_apply]
  split <;> rfl

@[simp] theorem setPrivActive_ids (priv : Nat) (b : Bool) : (setPrivActive m priv b).ids = m.ids := by
  unfold setPrivActive GuiMenu.ids
  apply List.ext_getElem?
  intro j
  simp only [List.getElem?_map, List.getElem?_modify]
  cases m.items[j]? with
  | none => rfl
  | some it =>
    simp only [Option.map_eq_map, Option.map_some]
    split <;> rfl

@[simp] theorem length_ids : m.ids.length = m.items.length := List.length_map _

/-- `gui_menu_set_active` does not touch the privacy item. -/
theorem setActive_getElem? {m : GuiMenu} {id : Int} {i : Nat} {it : MenuItem}
    (h : m.items[i]? = some it) (hid : 67 ≤ it.id) :
    (guiMenuSetActive m id).items[i]? = some it := by
  unfold guiMenuSetActive
  rw [List.getElem?_map, h, Option.map_some, if_neg (by omega)]

theorem setPrivActive_getElem? {m : GuiMenu} {i : Nat} {it : MenuItem} (b : Bool)
    (h : m.items[i]? = some it) :
    (setPrivActive m i b).items[i]? = some { it with active := b } := by
  unfold setPrivActive
  rw [List.getElem?_modify, h]
  simp

end

/-! ## The setup -/

section
variable {g : Globals} {r : Rtc} {timer : Nat} {s : BootGui}

theorem map_item_id (ls : List MenuLine) :
    (ls.map MenuLine.item).map MenuItem.id = ls.map MenuLine.id := by
  rw [List.map_map]; rfl

/-- The menu before the cursor is placed. -/
theorem setup_cases (h : bootGuiSetup g r timer = some s) :
    ∃ m : GuiMenu, m.ids = menuIds g ∧ m.selection = 0 ∧ m.items.length ≤ menuItems ∧
      (∀ l ∈ menuLines g, l.Fits) ∧
      m.items[s.priv]? = some { privLine.item with active := rtcGetFlag r (bit 0) } ∧
      s = { menu := guiMenuSetSelection
              (if 0 ≤ rtcBootselGet r then guiMenuSetActive m (rtcBootselGet r) else m)
              (startOption g (rtcBootselGet r))
            priv := s.priv, rtc := r, dflt := rtcBootselGet r, state := .menu, bootSel := -1
            deadline := timer + 10000000 } := by
  simp only [bootGuiSetup, Option.bind_eq_bind, Option.bind_eq_some_iff] at h
  obtain ⟨fs, -, m₁, h₁, m₂, h₂, m₃, h₃, m₄, h₄, h⟩ := h
  obtain ⟨i₁, s₁, l₁, f₁⟩ := addItems_some h₁
  obtain ⟨i₂, s₂, l₂, f₂⟩ := addItems_some h₂
  obtain ⟨⟨l₃, f₃⟩, rfl⟩ := addItem_eq_some.1 h₃
  obtain ⟨i₄, s₄, l₄, f₄⟩ := addItems_some h₄
  cases h
  have hitems : m₂.items = (emmcLines g ++ sdLines g).map MenuLine.item := by
    rw [i₂, i₁, List.map_append]; rfl
  -- `priv` points to the item that was added last
  have hpriv : (m₂.items ++ [privLine.item]).length - 1 = m₂.items.length := by
    rw [List.length_append, List.length_singleton]; omega
  have hlt : m₂.items.length < (m₂.items ++ [privLine.item]).length := by
    rw [List.length_append, List.length_singleton]; omega
  refine ⟨m₄, ?_, ?_, ?_, ?_, ?_, rfl⟩
  · have hset := setPrivActive_ids { m₂ with items := m₂.items ++ [privLine.item], changed := true }
      ((m₂.items ++ [privLine.item]).length - 1) (rtcGetFlag r (bit 0))
    unfold GuiMenu.ids at hset ⊢
    rw [i₄, List.map_append, hset, hitems, map_item_id]
    simp only [List.map_append, List.map_cons, List.map_nil, map_item_id, menuIds, menuLines,
      List.append_assoc, List.cons_append, List.nil_append]
    rfl
  · rw [s₄]
    show m₂.selection = 0
    rw [s₂, s₁]; rfl
  · refine l₄ ?_
    have : (setPrivActive { m₂ with items := m₂.items ++ [privLine.item], changed := true }
        ((m₂.items ++ [privLine.item]).length - 1) (rtcGetFlag r (bit 0))).items.length =
        m₂.items.length + 1 := by
      unfold setPrivActive
      rw [List.length_modify, List.length_append, List.length_singleton]
    rw [this]
    exact l₃
  · intro l hl
    simp only [menuLines, List.mem_append, List.mem_cons] at hl
    rcases hl with (hl | hl) | rfl | hl
    · exact f₁ l hl
    · exact f₂ l hl
    · exact f₃
    · exact f₄ l hl
  · have hlast : (m₂.items ++ [privLine.item])[m₂.items.length]? = some privLine.item := by simp
    have hget := setPrivActive_getElem? (rtcGetFlag r (bit 0))
      (m := { m₂ with items := m₂.items ++ [privLine.item], changed := true }) hlast
    dsimp only
    rw [hpriv, i₄, List.getElem?_append_left]
    · simpa [hpriv] using hget
    · unfold setPrivActive
      rw [List.length_modify]
      exact hlt

theorem setup_isSome (hfs : (g.emmc.or g.sd).isSome) (hf : MenuFits g) (r : Rtc) (timer : Nat) :
    ∃ s, bootGuiSetup g r timer = some s := by
  obtain ⟨fs, hfs⟩ := Option.isSome_iff_exists.1 hfs
  have hcount := hf.count
  simp only [menuLines, List.length_append, List.length_cons] at hcount
  have hmem : ∀ l, l ∈ emmcLines g ∨ l ∈ sdLines g ∨ l = privLine ∨ l ∈ endLines → l.Fits := by
    intro l hl
    refine hf.text l ?_
    simp only [menuLines, List.mem_append, List.mem_cons]
    tauto
  obtain ⟨m₁, h₁⟩ := addItems_isSome (m := .new) (by show 0 + _ ≤ _; omega)
    (show ∀ l ∈ emmcLines g, l.Fits from fun l hl => hmem l (.inl hl))
  have i₁ : m₁.items.length = (emmcLines g).length := by
    rw [(addItems_some h₁).1]
    simp [GuiMenu.new]
  obtain ⟨m₂, h₂⟩ := addItems_isSome (m := m₁) (by omega)
    (show ∀ l ∈ sdLines g, l.Fits from fun l hl => hmem l (.inr (.inl hl)))
  have i₂ : m₂.items.length = (emmcLines g).length + (sdLines g).length := by
    rw [(addItems_some h₂).1, List.length_append, List.length_map, i₁]
  have h₃ := (addItem_eq_some (m := m₂) (l := privLine)).2
    ⟨⟨by omega, hmem _ (.inr (.inr (.inl rfl)))⟩, rfl⟩
  obtain ⟨m₄, h₄⟩ := addItems_isSome
    (m := setPrivActive { m₂ with items := m₂.items ++ [privLine.item], changed := true }
      ((m₂.items ++ [privLine.item]).length - 1) (rtcGetFlag r (bit 0)))
    (by
      unfold setPrivActive
      rw [List.length_modify, List.length_append, List.length_singleton]
      omega)
    (show ∀ l ∈ endLines, l.Fits from fun l hl => hmem l (.inr (.inr (.inr hl))))
  simp only [bootGuiSetup, Option.bind_eq_bind, hfs, h₁, h₂, h₃, h₄, Option.bind_some]
  exact ⟨_, rfl⟩

/-- The menu starts with a heading. -/
theorem menuIds_head (hfs : (g.emmc.or g.sd).isSome) : ∃ ids, menuIds g = -2 :: ids := by
  unfold menuIds menuLines emmcLines sdLines
  by_cases he : g.emmc.isSome ∨ g.bootSource ≠ bootedFromMmc2
  · rw [if_pos he]
    exact ⟨_, rfl⟩
  · obtain ⟨hn, -⟩ := not_or.1 he
    have hsd : g.sd.isSome := by
      rcases hemmc : g.emmc with _ | fs
      · rw [hemmc] at hfs; exact hfs
      · rw [hemmc] at hn; exact absurd rfl hn
    rw [if_neg he, if_pos hsd]
    exact ⟨_, rfl⟩

theorem startOption_nonneg (g : Globals) (dflt : Int) : 0 ≤ startOption g dflt := by
  unfold startOption
  split
  · assumption
  · split <;> decide

theorem setup_deadline (h : bootGuiSetup g r timer = some s) : s.deadline = timer + 10000000 := by
  obtain ⟨m, -, -, -, -, -, hs⟩ := setup_cases h
  exact congrArg BootGui.deadline hs

/-- The cursor starts on an option of the menu. -/
def StartsOnOption (g : Globals) (r : Rtc) : Prop := startOption g (rtcBootselGet r) ∈ menuIds g

/-- The menu that the cursor is placed in. -/
theorem setup_menu (h : bootGuiSetup g r timer = some s) :
    ∃ m : GuiMenu, s.menu = guiMenuSetSelection m (startOption g (rtcBootselGet r)) ∧
      m.ids = menuIds g ∧ m.selection = 0 ∧
      m.items[s.priv]? = some { privLine.item with active := rtcGetFlag r (bit 0) } := by
  obtain ⟨m, hids, hsel, -, -, hpriv, hs⟩ := setup_cases h
  refine ⟨_, congrArg BootGui.menu hs, ?_⟩
  split
  · exact ⟨(setActive_ids _ _).trans hids, hsel,
      setActive_getElem? hpriv (show (67 : Int) ≤ 100 by decide)⟩
  · exact ⟨hids, hsel, hpriv⟩

/-- The selection is the first item's until it is moved. -/
theorem getSelection_head {m : GuiMenu} {id : Int} {ids : List Int} (h : m.ids = id :: ids)
    (hz : m.selection = 0) : guiMenuGetSelection m = id := by
  have h0 := congrArg (·[0]?) h
  simp only [GuiMenu.ids, List.getElem?_map, List.getElem?_cons_zero] at h0
  obtain ⟨it, hit, hid⟩ := Option.map_eq_some_iff.1 h0
  unfold guiMenuGetSelection GuiMenu.idAt
  rw [hz, show (0 : Int).toNat = 0 by rfl, hit]
  exact hid

/-- The cursor starts on the option, if it is in the menu. -/
theorem setup_cursor (hs : StartsOnOption g r) (h : bootGuiSetup g r timer = some s) :
    guiMenuGetSelection s.menu = startOption g (rtcBootselGet r) := by
  obtain ⟨m, hm, hids, -⟩ := setup_menu h
  rw [hm]
  refine ((setSelection_spec m _).2.1 ?_).2
  show _ ∈ m.ids
  rw [hids]
  exact hs

/-- If it is not, the cursor stays on the heading. -/
theorem setup_heading (hfs : (g.emmc.or g.sd).isSome) (hs : ¬ StartsOnOption g r)
    (h : bootGuiSetup g r timer = some s) :
    s.menu.selection = 0 ∧ guiMenuGetSelection s.menu = -2 := by
  obtain ⟨m, hm, hids, hsel, -⟩ := setup_menu h
  obtain ⟨ids, hhead⟩ := menuIds_head hfs
  obtain ⟨hitems, -, hout⟩ := setSelection_spec m (startOption g (rtcBootselGet r))
  have hz : s.menu.selection = 0 := by
    rw [hm]
    refine (hout ?_).trans hsel
    show ¬ _ ∈ m.ids
    rw [hids]
    exact hs
  have hids' : s.menu.ids = -2 :: ids := by
    rw [hm, GuiMenu.ids, hitems]
    exact hids.trans hhead
  exact ⟨hz, getSelection_head hids' hz⟩

theorem setup_spec (hfs : (g.emmc.or g.sd).isSome) (h : bootGuiSetup g r timer = some s) :
    s.menu.ids = menuIds g ∧ s.rtc = r ∧ s.dflt = rtcBootselGet r ∧ s.state = .menu ∧
      s.menu.items[s.priv]? = some { privLine.item with active := rtcGetFlag r (bit 0) } ∧
      s.menu.OnItem ∧ (0 ≤ guiMenuGetSelection s.menu ↔ StartsOnOption g r) := by
  obtain ⟨_, -, -, -, -, -, hs⟩ := setup_cases h
  obtain ⟨m, hm, hids, -, hpriv⟩ := setup_menu h
  obtain ⟨hitems, hin, -⟩ := setSelection_spec m (startOption g (rtcBootselGet r))
  have hids' : s.menu.ids = menuIds g := by
    rw [hm, GuiMenu.ids, hitems]
    exact hids
  refine ⟨hids', congrArg BootGui.rtc hs, congrArg BootGui.dflt hs, congrArg BootGui.state hs, ?_⟩
  refine ⟨by rw [hm, hitems]; exact hpriv, ?_⟩
  by_cases hopt : StartsOnOption g r
  · refine ⟨?_, fun _ => hopt, fun _ => ?_⟩
    · rw [hm]
      refine (hin ?_).1
      show _ ∈ m.ids
      rw [hids]
      exact hopt
    · rw [setup_cursor hopt h]
      exact startOption_nonneg _ _
  · obtain ⟨hz, hid⟩ := setup_heading hfs hopt h
    obtain ⟨ids, hhead⟩ := menuIds_head hfs
    refine ⟨⟨by omega, ?_⟩, ?_⟩
    · rw [hz, ← length_ids, hids', hhead, List.length_cons]
      omega
    · rw [hid]
      exact ⟨fun h0 => absurd h0 (by decide), fun h0 => absurd h0 hopt⟩

end

end PBoot
