import PBoot.Gui.Events
import PBoot.Gui.Proof.Navigate

/-!
# Menu scrolling

The window is right after every update of every run, unless the menu has sixteen items and the
cursor can get to the last one (`window_iff`): the window has room for one more, and the rule at its
lower end puts it above the first item.
-/

namespace PBoot

open Search

/-! ## Runs -/

/-- What is done to a menu that is filled. -/
inductive MenuOp where
  | update (e : Events)
  | select (id : Int)

/-- What an action makes of the menu. -/
def GuiMenu.apply (m : GuiMenu) : MenuOp → Option GuiMenu
  | .update e => guiMenuUpdate m e
  | .select id => some (guiMenuSetSelection m id)

/-- What a run of actions makes of it. -/
def GuiMenu.run : GuiMenu → List MenuOp → Option GuiMenu
  | m, [] => some m
  | m, op :: ops => (m.apply op).bind (·.run ops)

/-- `gui_menu` and its items. -/
def GuiMenu.filled (items : List MenuItem) : GuiMenu := { GuiMenu.new with items }

/-- The window shows the cursor, and rows show items that exist. -/
structure GuiMenu.Window (m : GuiMenu) : Prop where
  top : 0 ≤ m.scrollTop ∧ m.scrollTop ≤ max 0 (m.items.length - m.scrollHeight)
  cursor : m.scrollTop ≤ m.selection ∧ m.selection < m.scrollTop + m.scrollHeight
  rows : ∀ y i, m.rowItem y = some i → 0 ≤ i ∧ i < m.items.length

/-- The cursor can get to the last item. -/
def LastReached (items : List MenuItem) : Prop :=
  ∃ l it, items = l ++ [it] ∧ (0 ≤ it.id ∨ it.id ∉ l.map MenuItem.id)

/-- What every action keeps. -/
structure GuiMenu.Kept (items : List MenuItem) (m : GuiMenu) : Prop where
  same : m.items = items
  height : m.scrollHeight = 17
  onItem : m.OnItem
  top : 0 ≤ m.scrollTop ∧ m.scrollTop ≤ max 0 (m.items.length - m.scrollHeight)
  notLast : items.length = 16 → m.selection < 15

section
variable {items : List MenuItem} {m m' : GuiMenu} {e : Events} {ops : List MenuOp}

/-! ## One action -/

theorem exists_snoc (h : items.length = 16) : ∃ l it, items = l ++ [it] ∧ l.length = 15 := by
  have hne : items ≠ [] := by rintro rfl; cases h
  exact ⟨items.dropLast, items.getLast hne, (List.dropLast_concat_getLast hne).symm, by simp [h]⟩

/-- The two rules for the ends of the window. -/
theorem scroll_cases (m : GuiMenu) :
    m.scrollTop + m.scrollHeight - 3 < m.selection ∧ m.scroll.scrollTop =
        min (m.selection + 3 - m.scrollHeight) (m.items.length - m.scrollHeight) ∨
      m.selection ≤ m.scrollTop + m.scrollHeight - 3 ∧
        (m.selection < m.scrollTop + 2 ∧ m.scroll.scrollTop = max 0 (m.selection - 2) ∨
          m.scrollTop + 2 ≤ m.selection ∧ m.scroll.scrollTop = m.scrollTop) := by
  unfold GuiMenu.scroll menuSlack
  dsimp only
  split
  · exact .inl ⟨by omega, by congr 1; omega⟩
  · refine .inr ⟨by omega, ?_⟩
    split
    · exact .inl ⟨by omega, rfl⟩
    · exact .inr ⟨by omega, rfl⟩

theorem scroll_kept (h : m.Kept items) : m.scroll.Kept items ∧
    m.scroll.scrollTop ≤ m.selection ∧ m.selection < m.scroll.scrollTop + 17 := by
  obtain ⟨rfl, hh, ⟨h0, hn⟩, ⟨ht0, ht⟩, hlast⟩ := h
  have hcases := scroll_cases m
  rw [hh] at ht hcases
  have htop : (0 ≤ m.scroll.scrollTop ∧ m.scroll.scrollTop ≤ max 0 ((m.items.length : Int) - 17)) ∧
      m.scroll.scrollTop ≤ m.selection ∧ m.selection < m.scroll.scrollTop + 17 := by
    rcases hcases with ⟨hlow, he⟩ | ⟨hlow, ⟨hup, he⟩ | ⟨hup, he⟩⟩ <;> rw [he] <;> omega
  have hheight : m.scroll.scrollHeight = 17 := hh
  exact ⟨⟨rfl, hheight, ⟨h0, hn⟩, by rw [hheight]; exact htop.1, hlast⟩, htop.2⟩

/-- An update leaves the cursor, or puts it on an item with an id, and then scrolls. -/
theorem update_kept (hl : ¬ (items.length = 16 ∧ LastReached items)) (h : m.Kept items) :
    ∃ m', guiMenuUpdate m e = some m' ∧ m'.Kept items ∧
      m'.scrollTop ≤ m'.selection ∧ m'.selection < m'.scrollTop + 17 := by
  obtain ⟨s, c, b, hm, hs⟩ := move_spec (e := e) h.onItem
  have hk : GuiMenu.Kept items { m with selection := s, changed := c, selectionChanged := b } := by
    refine ⟨h.same, h.height, ?_, h.top, fun h16 => ?_⟩
    · rcases hs with rfl | ⟨h0, hn, -⟩
      · exact ⟨h.onItem.pos, h.onItem.lt⟩
      · exact ⟨h0, hn⟩
    · rcases hs with rfl | ⟨h0, hn, hid⟩
      · exact h.notLast h16
      · by_contra hlast
        -- then the item behind the first fifteen has an id
        obtain ⟨l, it, rfl, hlen⟩ := exists_snoc h16
        refine hl ⟨h16, l, it, rfl, .inl ?_⟩
        rw [h.same] at hn
        rw [show s = 15 by change ¬ s < 15 at hlast; omega] at hid
        simpa [GuiMenu.idAt, h.same, hlen] using hid
  obtain ⟨hk', hc⟩ := scroll_kept hk
  refine ⟨_, congrArg _ hm, ⟨hk'.same, hk'.height, ⟨hk'.onItem.pos, hk'.onItem.lt⟩, hk'.top,
    hk'.notLast⟩, hc⟩

theorem select_kept (hl : ¬ (items.length = 16 ∧ LastReached items)) (h : m.Kept items) (id : Int) :
    (guiMenuSetSelection m id).Kept items := by
  unfold guiMenuSetSelection
  rcases hf : m.items.findIdx? (·.id == id) with _ | i <;> simp only [hf]
  · exact h
  · obtain ⟨hlt, hid, hfirst⟩ := List.findIdx?_eq_some_iff_getElem.1 hf
    obtain rfl := h.same
    refine ⟨rfl, h.height, ⟨Int.natCast_nonneg i, Int.ofNat_lt.2 hlt⟩, h.top, fun h16 => ?_⟩
    by_contra hlast
    obtain rfl : i = 15 := by change ¬ (i : Int) < 15 at hlast; omega
    obtain ⟨l, it, hitems, hlen⟩ := exists_snoc h16
    refine hl ⟨h16, l, it, hitems, .inr fun hmem => ?_⟩
    obtain ⟨k, hk, hke⟩ := List.getElem_of_mem hmem
    have hkl : k < 15 := by simpa [hlen] using hk
    refine hfirst k hkl ?_
    simp [hitems, hlen] at hid hke ⊢
    rw [← hid, ← hke]
    simp [hlen, hkl]

/-! ## A whole run -/

theorem run_kept (hl : ¬ (items.length = 16 ∧ LastReached items)) (h : m.Kept items) :
    ∃ m', m.run ops = some m' ∧ m'.Kept items := by
  induction ops generalizing m with
  | nil => exact ⟨m, rfl, h⟩
  | cons op ops ih =>
    rw [GuiMenu.run]
    cases op with
    | update e =>
      obtain ⟨m₁, h₁, hk, -⟩ := update_kept (e := e) hl h
      rw [GuiMenu.apply, h₁, Option.bind_some]
      exact ih hk
    | select id => exact ih (select_kept hl h id)

theorem filled_kept (hne : items ≠ []) : (GuiMenu.filled items).Kept items :=
  ⟨rfl, rfl, ⟨le_rfl, Int.natCast_pos.2 (List.length_pos_iff.2 hne)⟩, ⟨le_rfl, le_max_left _ _⟩,
    fun _ => show (0 : Int) < 15 by decide⟩

theorem run_append (m : GuiMenu) (ops : List MenuOp) (op : MenuOp) :
    m.run (ops ++ [op]) = (m.run ops).bind (·.apply op) := by
  induction ops generalizing m with
  | nil => simp [GuiMenu.run]
  | cons o ops ih =>
    rw [List.cons_append, GuiMenu.run, GuiMenu.run, Option.bind_assoc]
    congr 1
    funext m₁
    exact ih m₁

/-- Rows of a window in range show items in range. -/
theorem GuiMenu.Kept.window (hle : items.length ≤ menuItems) (h : m.Kept items)
    (hc : m.scrollTop ≤ m.selection ∧ m.selection < m.scrollTop + 17) : m.Window := by
  refine ⟨h.top, by rw [h.height]; exact hc, fun y i hi => ?_⟩
  have htop := h.top
  rw [h.same, h.height] at htop
  unfold menuItems at hle
  unfold GuiMenu.rowItem menuRows at hi
  dsimp only at hi
  split at hi
  · rename_i hy
    rw [Int.bmod_eq_of_le (by omega) (by omega)] at hi
    split at hi
    · rename_i hlt
      cases hi
      exact ⟨by omega, hlt⟩
    · cases hi
  · cases hi

/-! ## The sixteenth item -/

/-- With the cursor there the window starts above the first item. -/
theorem not_window (hn : m.items.length = 16) (ht : m.scrollTop = 0) (hh : m.scrollHeight = 17)
    (hs : m.selection = 15) : ¬ m.scroll.Window := by
  rintro ⟨⟨h0, -⟩, -, -⟩
  have hcases := scroll_cases m
  rw [hn, ht, hh, hs] at hcases
  omega

theorem update_not_window {m₁ : GuiMenu} (hm : m.move e = some m₁) (hn : m₁.items.length = 16)
    (ht : m₁.scrollTop = 0) (hh : m₁.scrollHeight = 17) (hs : m₁.selection = 15) :
    ¬ ∃ m', guiMenuUpdate m e = some m' ∧ m'.Window := by
  rintro ⟨m', hu, hw⟩
  rw [guiMenuUpdate, hm] at hu
  cases hu
  exact not_window hn ht hh hs ⟨hw.top, hw.cursor, hw.rows⟩

/-- Volume up goes there from the start, if it has an id. -/
theorem up_not_window (hn : items.length = 16) (hid : 0 ≤ (GuiMenu.filled items).idAt 15) :
    ¬ ∃ m', guiMenuUpdate (.filled items) (Events.none.volume .volumeUp) = some m' ∧ m'.Window := by
  have hseek : (GuiMenu.filled items).seek (Events.none.volume .volumeUp) = some 15 := by
    have hlen : (GuiMenu.filled items).items.length = 16 := hn
    have hwrap : wrap 16 ((GuiMenu.filled items).selection + (Events.none.volume .volumeUp).dir) = 15 :=
      rfl
    unfold GuiMenu.seek
    rw [hlen]
    simp only [cycle, Nat.cast_ofNat, hwrap]
    exact if_pos (by simpa using .inr hid)
  have hmove : (GuiMenu.filled items).move (Events.none.volume .volumeUp) =
      some { GuiMenu.filled items with selection := 15, changed := true, selectionChanged := true } := by
    unfold GuiMenu.move
    have hpos : 0 < (GuiMenu.filled items).items.length := hn ▸ Nat.succ_pos 15
    rw [hseek, if_pos hpos]
    exact if_pos ⟨show (15 : Int) ≠ 0 by decide, hid⟩
  exact update_not_window hmove hn rfl rfl rfl

/-- And so does its id, if no other item has it. -/
theorem select_not_window {l : List MenuItem} {it : MenuItem} (hlen : l.length = 15)
    (hno : it.id ∉ l.map MenuItem.id) :
    ¬ ∃ m', (GuiMenu.filled (l ++ [it])).run [.select it.id, .update .none] = some m' ∧ m'.Window := by
  have hsel : guiMenuSetSelection (.filled (l ++ [it])) it.id =
      { GuiMenu.filled (l ++ [it]) with selection := 15, changed := true } := by
    have hfind : (l ++ [it]).findIdx? (·.id == it.id) = some 15 := by
      rw [List.findIdx?_append, List.findIdx?_eq_none_iff.2 fun x hx => ?_]
      · simp [hlen]
      · simpa using fun he : x.id = it.id => hno (he ▸ List.mem_map_of_mem hx)
    unfold guiMenuSetSelection
    rw [show (GuiMenu.filled (l ++ [it])).items = l ++ [it] from rfl, hfind]
    rfl
  have hn : (l ++ [it]).length = 16 := by simp [hlen]
  simp only [GuiMenu.run, GuiMenu.apply, hsel, Option.bind_some, Option.bind_fun_some]
  refine update_not_window (move_still ⟨?_, ?_⟩ rfl) hn rfl rfl rfl
  · exact show (0 : Int) ≤ 15 by decide
  · exact show (15 : Int) < (l ++ [it]).length by omega

/-- **The window is right** after every update of every run, if and only if it is not the sixteenth
of sixteen items that the cursor can get to. -/
theorem window_iff (hne : items ≠ []) (hle : items.length ≤ menuItems) :
    (∀ ops e, ∃ m', (GuiMenu.filled items).run (ops ++ [.update e]) = some m' ∧ m'.Window) ↔
      ¬ (items.length = 16 ∧ LastReached items) := by
  constructor
  · rintro h ⟨hn, l, it, rfl, hid | hno⟩
    · refine up_not_window hn ?_ (by simpa [GuiMenu.run, GuiMenu.apply] using h [] _)
      have hlen : l.length = 15 := by simpa using hn
      simpa [GuiMenu.idAt, GuiMenu.filled, hlen] using hid
    · exact select_not_window (by simpa using hn) hno (h [.select it.id] .none)
  · intro hl ops e
    obtain ⟨m₁, h₁, hk₁⟩ : ∃ m₁, (GuiMenu.filled items).run ops = some m₁ ∧ m₁.Kept items :=
      run_kept hl (filled_kept hne)
    obtain ⟨m', hu, hk, hc⟩ := update_kept (e := e) hl hk₁
    exact ⟨m', by rw [run_append, h₁]; exact hu, hk.window hle hc⟩

end

theorem window_seventeen : (List.replicate 17 (MenuItem.bare 1)).length ≤ menuItems ∧ ∀ ops e, ∃ m',
    (GuiMenu.filled (List.replicate 17 (.bare 1))).run (ops ++ [.update e]) = some m' ∧ m'.Window :=
  ⟨by decide, (window_iff (by decide) (by decide)).2 fun h => absurd h.1 (by decide)⟩

/-- Volume up in a menu of sixteen items: row 2 reads the item before the first one. -/
theorem sixteen_row :
    ((GuiMenu.filled (List.replicate 16 (.bare 1))).run [.update (Events.none.volume .volumeUp)]).map
        (fun m => (m.scrollTop, m.rowItem 2)) = some (-1, some (-1)) ∧
      ¬ ∃ m', (GuiMenu.filled (List.replicate 16 (.bare 1))).run
        [.update (Events.none.volume .volumeUp)] = some m' ∧ m'.Window := by
  refine ⟨rfl, ?_⟩
  rintro ⟨m', h, hw⟩
  cases h
  exact absurd hw.top.1 (by decide)

end PBoot
