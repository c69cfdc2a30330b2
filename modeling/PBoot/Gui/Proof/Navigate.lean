import PBoot.Gui.Menu

/-!
# Menu navigation

* `update_goes`: an update with a volume key goes to the next item with an id, if there is another.
* `navigates`: so updates end, one key undoes the other, and going down as often as there are items
  with an id visits each of them once.
-/

namespace PBoot

open Search

/-- An item without text and colours. -/
def MenuItem.bare (id : Int) : MenuItem := { text := [], fg := 0, id, activeFg := 0, active := false }

/-- The item has an id, and is no heading or blank line. -/
def GuiMenu.IsOption (m : GuiMenu) (i : Int) : Prop := 0 ≤ m.idAt i

instance (m : GuiMenu) : DecidablePred m.IsOption := fun _ => inferInstanceAs (Decidable (_ ≤ _))

section
variable {m m' : GuiMenu} {e : Events}

/-! ## One update -/

theorem dir_cases (e : Events) : e.dir = 1 ∧ e.volumeDown = true ∨
    e.dir = -1 ∧ e.volumeDown = false ∧ e.volumeUp = true ∨
    e.dir = 0 ∧ e.volumeDown = false ∧ e.volumeUp = false := by
  unfold Events.dir
  cases e.volumeDown <;> cases e.volumeUp <;> simp

/-- The loop ends at the next item with an id, or where it started. -/
theorem seek_goes (h : m.OnItem) (hd : e.dir = 1 ∨ e.dir = -1) :
    ∃ y, m.seek e = some y ∧ Goes m.items.length e.dir m.IsOption m.selection y := by
  obtain ⟨hlo, hhi⟩ := dir_range e
  obtain ⟨y, hy⟩ : ∃ y, m.seek e = some y := exists_cycle h.pos h.lt hlo hhi le_rfl (by simp)
  refine ⟨y, hy, cycle_goes (k := m.items.length) h.pos h.lt hd ?_⟩
  rw [← hy, GuiMenu.seek]
  congr 1
  funext i
  rw [← decide_not, decide_eq_decide.2 (show m.IsOption i ↔ ¬ m.idAt i < 0 from not_lt.symm)]

/-- The cursor follows the loop, and the flag says whether it moved. -/
theorem move_goes (h : m.OnItem) (hd : e.dir = 1 ∨ e.dir = -1) :
    ∃ s c, Goes m.items.length e.dir m.IsOption m.selection s ∧ m.move e =
      some { m with selection := s, changed := c, selectionChanged := s != m.selection } := by
  obtain ⟨y, hy, hgo⟩ := seek_goes h hd
  have hpos : 0 < m.items.length := by have := h.pos; have := h.lt; omega
  refine ⟨y, if y = m.selection then m.changed else true, hgo, ?_⟩
  unfold GuiMenu.move
  rw [if_pos hpos, hy]
  dsimp only
  by_cases hne : y = m.selection
  · rw [if_neg (fun hm => hm.1 hne), if_pos hne, hne, bne_self_eq_false]
  · have hid : 0 ≤ m.idAt y := by
      rcases hgo with ⟨j, -, -, -, hp, -⟩ | ⟨-, he⟩
      · exact hp
      · exact absurd he hne
    rw [if_pos ⟨hne, hid⟩, if_neg hne, bne_iff_ne.2 hne]

theorem onItem_goes {d s : Int} (h : m.OnItem)
    (hg : Goes m.items.length d m.IsOption m.selection s) : 0 ≤ s ∧ s < m.items.length := by
  rcases hg with hn | ⟨-, rfl⟩
  · exact hn.range
  · exact ⟨h.pos, h.lt⟩

/-- What an update does to the cursor. -/
structure Updated (m : GuiMenu) (e : Events) (m' : GuiMenu) : Prop where
  items : m'.items = m.items
  /-- Volume down wins. -/
  down : e.volumeDown = true → Goes m.items.length 1 m.IsOption m.selection m'.selection
  up : e.volumeDown = false → e.volumeUp = true →
    Goes m.items.length (-1) m.IsOption m.selection m'.selection
  still : e.volumeDown = false → e.volumeUp = false → m'.selection = m.selection
  changed : m'.selectionChanged = true ↔ m'.selection ≠ m.selection

theorem update_goes (h : m.OnItem) : ∃ m', guiMenuUpdate m e = some m' ∧ Updated m e m' := by
  unfold guiMenuUpdate
  rcases dir_cases e with ⟨hd, hdown⟩ | ⟨hd, hdown, hup⟩ | ⟨hd, hdown, hup⟩
  · obtain ⟨s, c, hgo, hm⟩ := move_goes h (.inl hd)
    rw [hd] at hgo
    rw [hm]
    exact ⟨_, rfl, rfl, fun _ => hgo, fun h1 => by simp [hdown] at h1,
      fun h1 => by simp [hdown] at h1, bne_iff_ne⟩
  · obtain ⟨s, c, hgo, hm⟩ := move_goes h (.inr hd)
    rw [hd] at hgo
    rw [hm]
    exact ⟨_, rfl, rfl, fun h1 => by simp [hdown] at h1, fun _ _ => hgo,
      fun _ h1 => by simp [hup] at h1, bne_iff_ne⟩
  · rw [move_still h hd]
    exact ⟨_, rfl, rfl, fun h1 => by simp [hdown] at h1, fun _ h1 => by simp [hup] at h1,
      fun _ _ => rfl, by simp [GuiMenu.scroll]⟩

theorem Updated.onItem (h : m.OnItem) (hu : Updated m e m') : m'.OnItem := by
  have hr : 0 ≤ m'.selection ∧ m'.selection < m.items.length := by
    rcases dir_cases e with ⟨-, hdown⟩ | ⟨-, hdown, hup⟩ | ⟨-, hdown, hup⟩
    · exact onItem_goes h (hu.down hdown)
    · exact onItem_goes h (hu.up hdown hup)
    · rw [hu.still hdown hup]
      exact ⟨h.pos, h.lt⟩
  refine ⟨hr.1, ?_⟩
  rw [hu.items]
  exact hr.2

theorem isOption_congr (h : m'.items = m.items) : m'.IsOption = m.IsOption := by
  funext i
  unfold GuiMenu.IsOption
  rw [GuiMenu.idAt_congr (congrArg _ h)]

end

/-! ## Many updates -/

/-- The cursor after each of some updates, and the menu after all of them. -/
def GuiMenu.walk : GuiMenu → List Events → Option (List Int × GuiMenu)
  | m, [] => some ([], m)
  | m, e :: es =>
    match guiMenuUpdate m e with
    | none => none
    | some m' => (m'.walk es).map fun r => (m'.selection :: r.1, r.2)

/-- The positions of the items with an id. -/
def GuiMenu.options (m : GuiMenu) : List Int := marked m.items.length m.IsOption

/-- **Navigation**, from the cursor position of `m`. -/
structure Navigation (m : GuiMenu) : Prop where
  /-- Every update ends, at the item where it should. -/
  update : ∀ e, ∃ m', guiMenuUpdate m e = some m' ∧ Updated m e m'
  /-- From an item with an id, one volume key undoes the other. -/
  back : m.IsOption m.selection → ∀ e e', (e.volumeDown = true ∧ e'.volumeDown = false ∧
      e'.volumeUp = true ∨ e.volumeDown = false ∧ e.volumeUp = true ∧ e'.volumeDown = true) →
    ∃ s m', m.walk [e, e'] = some ([s, m.selection], m')
  /-- And as many downs as there are such items visit each of them once, and end where they
  started. -/
  round : m.IsOption m.selection → ∀ es, (∀ e ∈ es, e.volumeDown = true) →
    es.length = m.options.length →
    ∃ is m', m.walk es = some (is, m') ∧ is.Perm m.options ∧ is.getLast? = some m.selection

section
variable {m m' : GuiMenu} {es : List Events}

/-- Downs go from one item with an id to the next. -/
theorem walk_downs (h : m.OnItem) (hes : ∀ e ∈ es, e.volumeDown = true) :
    ∃ is m', m.walk es = some (is, m') ∧ is.length = es.length ∧
      List.IsChain (Goes m.items.length 1 m.IsOption) (m.selection :: is) := by
  induction es generalizing m with
  | nil => exact ⟨[], m, rfl, rfl, by simp⟩
  | cons e es ih =>
    obtain ⟨he, hes⟩ := List.forall_mem_cons.1 hes
    obtain ⟨m₁, h₁, hu⟩ := update_goes (e := e) h
    obtain ⟨is, m', hw, hlen, hchain⟩ := ih (hu.onItem h) hes
    rw [isOption_congr hu.items, hu.items] at hchain
    refine ⟨m₁.selection :: is, m', ?_, ?_, List.isChain_cons_cons.2 ⟨hu.down he, hchain⟩⟩
    · rw [GuiMenu.walk, h₁]
      dsimp only
      rw [hw]
      rfl
    · rw [List.length_cons, List.length_cons, hlen]

/-- **Every cursor position** of every menu that is not empty navigates. -/
theorem navigates (h : m.OnItem) : Navigation m := by
  refine ⟨fun e => update_goes h, fun hp e e' he => ?_, fun hp es hes hlen => ?_⟩
  · obtain ⟨m₁, h₁, hu₁⟩ := update_goes (e := e) h
    obtain ⟨m₂, h₂, hu₂⟩ := update_goes (e := e') (hu₁.onItem h)
    refine ⟨m₁.selection, m₂, ?_⟩
    have hsame : m₂.selection = m.selection := by
      rcases he with ⟨hdown, hdown', hup'⟩ | ⟨hdown, hup, hdown'⟩
      · have hback := hu₂.up hdown' hup'
        rw [isOption_congr hu₁.items, hu₁.items] at hback
        exact (hu₁.down hdown).back hback h.pos h.lt hp
      · have hback := hu₂.down hdown'
        rw [isOption_congr hu₁.items, hu₁.items] at hback
        exact (hu₁.up hdown hup).back hback h.pos h.lt hp
    simp only [GuiMenu.walk, h₁, h₂, Option.map_some, hsame]
  · obtain ⟨is, m', hw, hlen', hchain⟩ := walk_downs h hes
    obtain ⟨hperm, hlast⟩ := round_perm h.pos h.lt hp hchain (hlen'.trans hlen)
    exact ⟨is, m', hw, hperm, hlast⟩

end

/-- In a menu with a heading, from its third item. -/
theorem navigates_third :
    Navigation { GuiMenu.new with items := [5, -1, 7, 0].map .bare, selection := 2 } :=
  navigates ⟨by decide, by decide⟩

end PBoot
