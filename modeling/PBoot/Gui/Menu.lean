import PBoot.Lib.Bytes
import PBoot.Lib.Search

/-!
# The menu widget (`gui.c`)

A `GuiMenu` is the widget's state without its console and titles: the items filled so far, the
cursor and the scroll position. `items` has room for 64 items of 128 bytes of text, so `addItem`
yields none where the source writes past its table.

* `addItems_some`, `addItems_isSome`: what adding lines yields, and that lines that fit are added.
* `update_spec`: what one update does to the cursor; nothing else that is read changes.
-/

namespace PBoot

open Bytes Search

/-- The bits of `gui->events`. -/
structure Events where
  volumeUp : Bool
  volumeDown : Bool
  pokShort : Bool
  pokLong : Bool
  pokDown : Bool
  vblank : Bool
  deriving DecidableEq, Repr

/-- `struct gui_menu_item`. -/
structure MenuItem where
  text : List UInt8
  fg : BitVec 32
  id : Int
  activeFg : BitVec 32
  active : Bool
  deriving DecidableEq, Repr

structure GuiMenu where
  items : List MenuItem
  selection : Int
  scrollTop : Int
  scrollHeight : Int
  changed : Bool
  selectionChanged : Bool
  deriving DecidableEq, Repr

/-- `ARRAY_SIZE(items)` and `sizeof text`. -/
def menuItems : Nat := 64
def menuText : Nat := 128

/-- `gui_menu`. -/
def GuiMenu.new : GuiMenu :=
  { items := [], selection := 0, scrollTop := 0, scrollHeight := 21 - 4, changed := true
    selectionChanged := false }

/-- The arguments of `gui_menu_add_item`; `text` is what memory holds from the pointer on. -/
structure MenuLine where
  id : Int
  text : List UInt8
  fg : BitVec 32
  activeFg : BitVec 32

def MenuLine.item (l : MenuLine) : MenuItem :=
  { text := cstr l.text, fg := l.fg, id := l.id, activeFg := l.activeFg, active := false }

/-- The text and its NUL fit an item. -/
def MenuLine.Fits (l : MenuLine) : Prop := 0 ∈ l.text.take menuText

instance (l : MenuLine) : Decidable l.Fits := inferInstanceAs (Decidable (0 ∈ _))

def guiMenuAddItem (m : GuiMenu) (l : MenuLine) : Option GuiMenu :=
  if m.items.length < menuItems ∧ l.Fits then
    some { m with items := m.items ++ [l.item], changed := true }
  else none

/-- `m->items[i].id`; the table is zero behind the items. -/
def GuiMenu.idAt (m : GuiMenu) (i : Int) : Int :=
  match m.items[i.toNat]? with
  | some it => it.id
  | none => 0

def guiMenuGetSelection (m : GuiMenu) : Int := m.idAt m.selection

def guiMenuSetSelection (m : GuiMenu) (id : Int) : GuiMenu :=
  match m.items.findIdx? (·.id == id) with
  | some i => { m with selection := i, changed := true }
  | none => m

/-! ## `gui_menu_update` -/

/-- The direction of the volume keys. -/
def Events.dir (e : Events) : Int := if e.volumeDown then 1 else if e.volumeUp then -1 else 0

/-- The loop that goes round from the selection to an item with an id, or back to the selection. -/
def GuiMenu.seek (m : GuiMenu) (e : Events) : Option Int :=
  cycle m.items.length e.dir (fun i => i == m.selection || !decide (m.idAt i < 0)) m.items.length
    m.selection

/-- The cursor. -/
def GuiMenu.move (m : GuiMenu) (e : Events) : Option GuiMenu :=
  if 0 < m.items.length then
    match m.seek e with
    | none => none
    | some newSel =>
      if newSel ≠ m.selection ∧ 0 ≤ m.idAt newSel then
        some { m with selection := newSel, changed := true, selectionChanged := true }
      else some { m with selectionChanged := false }
  else some { m with selectionChanged := false }

def menuSlack : Int := 2

/-- The scroll position. -/
def GuiMenu.scroll (m : GuiMenu) : GuiMenu :=
  let top :=
    if m.selection > m.scrollTop + m.scrollHeight - menuSlack - 1 then
      min (m.selection + menuSlack + 1 - m.scrollHeight) (m.items.length - m.scrollHeight)
    else if m.selection < m.scrollTop + menuSlack then max 0 (m.selection - menuSlack)
    else m.scrollTop
  { m with scrollTop := top, changed := m.changed || m.scrollTop != top }

/-- `gui_menu_update`; a changed menu is drawn. -/
def guiMenuUpdate (m : GuiMenu) (e : Events) : Option GuiMenu :=
  (m.move e).map fun m => { m.scroll with changed := false }

/-! ## Drawing -/

/-- `c->h`. -/
def menuRows : Nat := 21

/-- The item that row `y` shows: `i` is computed in unsigned arithmetic and stored in an `int`. -/
def GuiMenu.rowItem (m : GuiMenu) (y : Nat) : Option Int :=
  let pad := 1
  if pad + 1 ≤ y ∧ y < menuRows - pad - 1 then
    let i := Int.bmod ((y - pad - 1 : Nat) + m.scrollTop) (2 ^ 32)
    if i < m.items.length then some i else none
  else none

/-! ## Filling the menu -/

section
variable {m m' : GuiMenu} {l : MenuLine} {ls : List MenuLine}

def guiMenuAddItems (m : GuiMenu) (ls : List MenuLine) : Option GuiMenu := ls.foldlM guiMenuAddItem m

theorem addItem_eq_some :
    guiMenuAddItem m l = some m' ↔ (m.items.length < menuItems ∧ l.Fits) ∧
      { m with items := m.items ++ [l.item], changed := true } = m' := by
  unfold guiMenuAddItem
  split
  · rename_i h
    simp only [h, Option.some.injEq, true_and, and_self]
  · rename_i h
    simp only [reduceCtorEq, h, false_and]

/-- What adding lines yields, when it stays within the tables. -/
theorem addItems_some (h : guiMenuAddItems m ls = some m') :
    m'.items = m.items ++ ls.map MenuLine.item ∧ m'.selection = m.selection ∧
      (m.items.length ≤ menuItems → m'.items.length ≤ menuItems) ∧ ∀ l ∈ ls, l.Fits := by
  induction ls generalizing m with
  | nil =>
    cases h
    simp
  | cons l ls ih =>
    obtain ⟨m₁, h₁, h₂⟩ := Option.bind_eq_some_iff.1 h
    obtain ⟨⟨hlt, hfit⟩, rfl⟩ := addItem_eq_some.1 h₁
    obtain ⟨hi, hs, hle, hall⟩ := ih h₂
    refine ⟨?_, hs, fun _ => hle ?_, ?_⟩
    · rw [hi, List.append_assoc]; rfl
    · rw [List.length_append]; exact hlt
    · rintro l' (_ | ⟨_, hl'⟩)
      · exact hfit
      · exact hall l' hl'

theorem addItems_isSome (hlen : m.items.length + ls.length ≤ menuItems) (h : ∀ l ∈ ls, l.Fits) :
    ∃ m', guiMenuAddItems m ls = some m' := by
  induction ls generalizing m with
  | nil => exact ⟨m, rfl⟩
  | cons l ls ih =>
    rw [List.length_cons] at hlen
    have hl : guiMenuAddItem m l = some { m with items := m.items ++ [l.item], changed := true } :=
      addItem_eq_some.2 ⟨⟨by omega, h l List.mem_cons_self⟩, rfl⟩
    obtain ⟨m', hm'⟩ := ih (m := { m with items := m.items ++ [l.item], changed := true })
      (by rw [List.length_append, List.length_singleton]; omega)
      fun l' hl' => h l' (List.mem_cons_of_mem _ hl')
    exact ⟨m', Option.bind_eq_some_iff.2 ⟨_, hl, hm'⟩⟩

end

/-! ## The cursor -/

section
variable {m m' : GuiMenu} {e : Events}

theorem dir_range (e : Events) : -1 ≤ e.dir ∧ e.dir ≤ 1 := by
  unfold Events.dir
  split
  · decide
  · split <;> decide

/-- The cursor is on an item. -/
structure GuiMenu.OnItem (m : GuiMenu) : Prop where
  pos : 0 ≤ m.selection
  lt : m.selection < m.items.length

theorem GuiMenu.idAt_of_lt {i : Nat} (h : i < m.items.length) : m.idAt i = m.items[i].id := by
  unfold GuiMenu.idAt
  rw [Int.toNat_natCast, List.getElem?_eq_getElem h]

theorem GuiMenu.idAt_congr (h : m'.items.map MenuItem.id = m.items.map MenuItem.id) (i : Int) :
    m'.idAt i = m.idAt i := by
  have hi := congrArg (·[i.toNat]?) h
  simp only [List.getElem?_map] at hi
  unfold GuiMenu.idAt
  rcases h1 : m'.items[i.toNat]? with _ | a <;> rcases h2 : m.items[i.toNat]? with _ | b <;>
    rw [h1, h2] at hi
  · cases hi
  · cases hi
  · exact Option.some.inj hi

theorem move_spec (h : m.OnItem) :
    ∃ s c b, m.move e = some { m with selection := s, changed := c, selectionChanged := b } ∧
      (s = m.selection ∨ 0 ≤ s ∧ s < m.items.length ∧ 0 ≤ m.idAt s) := by
  obtain ⟨hd, hd'⟩ := dir_range e
  obtain ⟨y, hy⟩ : ∃ y, m.seek e = some y := exists_cycle h.pos h.lt hd hd' le_rfl (by simp)
  obtain ⟨-, hy0, hyn⟩ := cycle_spec h.pos h.lt hd hd' hy
  have hpos : 0 < m.items.length := by have := h.pos; have := h.lt; omega
  unfold GuiMenu.move
  rw [if_pos hpos, hy]
  dsimp only
  split
  · rename_i hsel
    exact ⟨y, true, true, rfl, .inr ⟨hy0, hyn, hsel.2⟩⟩
  · exact ⟨m.selection, m.changed, false, rfl, .inl rfl⟩

/-- **One update**: it ends, keeps the items, and leaves the cursor where it is or puts it on an
item with an id. -/
theorem update_spec (h : m.OnItem) :
    ∃ m', guiMenuUpdate m e = some m' ∧ m'.items = m.items ∧ m'.OnItem ∧
      (m'.selection = m.selection ∨ 0 ≤ guiMenuGetSelection m') := by
  obtain ⟨s, c, b, hm, hs⟩ := move_spec (e := e) h
  unfold guiMenuUpdate
  rw [hm]
  refine ⟨_, rfl, rfl, ?_, ?_⟩
  · rcases hs with rfl | ⟨h0, hn, -⟩
    · exact ⟨h.pos, h.lt⟩
    · exact ⟨h0, hn⟩
  · rcases hs with rfl | ⟨-, -, hid⟩
    · exact .inl rfl
    · exact .inr hid

/-- Without a volume key the cursor stays. -/
theorem move_still (h : m.OnItem) (he : e.dir = 0) :
    m.move e = some { m with selectionChanged := false } := by
  obtain ⟨k, hk⟩ := Nat.exists_eq_add_of_lt (show 0 < m.items.length by
    have := h.pos; have := h.lt; omega)
  have hwrap : wrap m.items.length (m.selection + 0) = m.selection := by
    have := h.pos
    have := h.lt
    unfold wrap
    rw [if_neg (by omega), if_neg (by omega), Int.add_zero]
  have hseek : m.seek e = some m.selection := by
    unfold GuiMenu.seek
    rw [he, show m.items.length = 0 + k + 1 from hk]
    rw [show m.items.length = 0 + k + 1 from hk] at hwrap
    simp only [cycle, hwrap, beq_self_eq_true, Bool.true_or, ↓reduceIte]
  unfold GuiMenu.move
  rw [hseek]
  simp

theorem update_still (h : m.OnItem) (he : e.dir = 0) :
    ∃ m', guiMenuUpdate m e = some m' ∧ m'.items = m.items ∧ m'.selection = m.selection :=
  ⟨_, congrArg _ (move_still h he), rfl, rfl⟩

/-- The cursor goes to the first item with the id, if there is one. -/
theorem setSelection_spec (m : GuiMenu) (id : Int) :
    (guiMenuSetSelection m id).items = m.items ∧
      (id ∈ m.items.map MenuItem.id →
        (guiMenuSetSelection m id).OnItem ∧ guiMenuGetSelection (guiMenuSetSelection m id) = id) ∧
      (id ∉ m.items.map MenuItem.id → (guiMenuSetSelection m id).selection = m.selection) := by
  unfold guiMenuSetSelection
  rcases hf : m.items.findIdx? (·.id == id) with _ | i
  · have hno : id ∉ m.items.map MenuItem.id := by
      rw [List.findIdx?_eq_none_iff] at hf
      rintro hmem
      obtain ⟨it, hit, rfl⟩ := List.mem_map.1 hmem
      simpa using hf it hit
    simp only [hf]
    exact ⟨trivial, fun h => absurd h hno, fun _ => trivial⟩
  · obtain ⟨hlt, hid, -⟩ := List.findIdx?_eq_some_iff_getElem.1 hf
    simp only [hf]
    refine ⟨trivial, fun _ => ⟨⟨Int.natCast_nonneg i, Int.ofNat_lt.2 hlt⟩, ?_⟩, fun hno => ?_⟩
    · exact (GuiMenu.idAt_of_lt hlt).trans (by simpa using hid)
    · exact absurd (List.mem_map.2 ⟨m.items[i], List.getElem_mem hlt, by simpa using hid⟩) hno

end

end PBoot
