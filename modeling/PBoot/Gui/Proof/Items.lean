import PBoot.Gui.Proof.Setup

/-!
# The size of the boot menu

* `length_menuLines`: the number of lines, by what the file systems hold and where p-boot was loaded
  from.
* `itemsFit_iff`: the items stay within their table exactly when these are at most 64. Two media have
  room for 64 configurations, to which up to 8 other lines are added.
-/

namespace PBoot

open Bytes

/-! ## Counting -/

/-- The number of configurations of a file system. -/
def confCount : Option Bootfs → Nat
  | none => 0
  | some fs => (List.range 32).countP fs.isConf

/-- The number of lines that are not configurations. -/
def otherLines (g : Globals) : Nat :=
  (if g.emmc.isSome ∨ g.bootSource ≠ bootedFromMmc2 then
    2 + if g.bootSource ≠ bootedFromMmc2 then 1 else 0 else 0) +
  (if g.sd.isSome then 2 else 0) + 3

theorem length_confLines (fs : Option Bootfs) (base : Nat) :
    (confLines fs base).length = confCount fs := by
  cases fs with
  | none => rfl
  | some fs =>
    unfold confLines confCount
    dsimp only
    rw [List.length_map, List.countP_eq_length_filter]

/-- **The number of lines.** -/
theorem length_menuLines (g : Globals) :
    (menuLines g).length = confCount g.emmc + confCount g.sd + otherLines g := by
  have hemmc : (emmcLines g).length = confCount g.emmc +
      if g.emmc.isSome ∨ g.bootSource ≠ bootedFromMmc2 then
        2 + if g.bootSource ≠ bootedFromMmc2 then 1 else 0 else 0 := by
    unfold emmcLines
    split
    · simp only [List.length_append, length_confLines, List.length_singleton]
      split
      · rw [List.length_singleton]
        omega
      · rw [List.length_nil]
        omega
    · rename_i h
      rw [Option.isSome_iff_ne_none, not_or, not_not] at h
      rw [h.1]
      rfl
  have hsd : (sdLines g).length = confCount g.sd + if g.sd.isSome then 2 else 0 := by
    unfold sdLines
    split
    · simp only [List.length_append, length_confLines, List.length_singleton]
      omega
    · rename_i h
      rw [Option.isSome_iff_ne_none, not_not] at h
      rw [h]
      rfl
  have hend : endLines.length = 2 := rfl
  rw [menuLines, List.length_append, List.length_append, List.length_cons, hemmc, hsd, hend]
  unfold otherLines
  omega

/-! ## The table -/

/-- `gui_menu_add_item` with a table that has no end. -/
def addUnchecked (m : GuiMenu) (l : MenuLine) : GuiMenu :=
  { m with items := m.items ++ [l.item], changed := true }

theorem length_addUnchecked (m : GuiMenu) (l : MenuLine) :
    (addUnchecked m l).items.length = m.items.length + 1 := by
  unfold addUnchecked
  rw [List.length_append, List.length_singleton]

/-- The menus after each of the calls for some lines. -/
def menusAfter (m : GuiMenu) : List MenuLine → List GuiMenu
  | [] => []
  | l :: ls => addUnchecked m l :: menusAfter (addUnchecked m l) ls

/-- Every call leaves the items within their table. -/
def ItemsFit (g : Globals) : Prop := ∀ m ∈ menusAfter .new (menuLines g), m.items.length ≤ menuItems

theorem menusAfter_fit {n : Nat} {m : GuiMenu} (ls : List MenuLine) :
    (∀ m' ∈ menusAfter m ls, m'.items.length ≤ n) ↔ ls = [] ∨ m.items.length + ls.length ≤ n := by
  induction ls generalizing m with
  | nil => exact ⟨fun _ => .inl rfl, fun _ _ h => (nomatch h)⟩
  | cons l ls ih =>
    rw [menusAfter, List.forall_mem_cons, ih, or_iff_right (List.cons_ne_nil l ls), List.length_cons,
      length_addUnchecked]
    constructor
    · rintro ⟨h1, rfl | h2⟩
      · exact h1
      · omega
    · intro h
      exact ⟨by omega, .inr (by omega)⟩

theorem itemsFit_lines (g : Globals) : ItemsFit g ↔ (menuLines g).length ≤ menuItems := by
  have hne : menuLines g ≠ [] := fun h => by
    have hlen := length_menuLines g
    rw [h, List.length_nil, otherLines] at hlen
    omega
  unfold ItemsFit
  rw [menusAfter_fit, or_iff_right hne, GuiMenu.new, List.length_nil, Nat.zero_add]

/-- **The items fit their table** exactly when there are at most 64 lines. -/
theorem itemsFit_iff (g : Globals) :
    ItemsFit g ↔ confCount g.emmc + confCount g.sd + otherLines g ≤ 64 := by
  rw [itemsFit_lines, length_menuLines, menuItems]

/-! ## File systems with some slots configured -/

/-- A block that has a configuration's magic, or nothing. -/
def slotBlock (slots : Nat → Bool) (i : Nat) : List UInt8 :=
  (if slots i then confMagic else List.replicate 8 0) ++ List.replicate 2040 0

theorem length_slotBlock (slots : Nat → Bool) (i : Nat) : (slotBlock slots i).length = 2048 := by
  unfold slotBlock
  rw [List.length_append, List.length_replicate]
  split <;> rfl

/-- The metadata of a file system with configurations in some slots. -/
def slotsMeta (slots : Nat → Bool) : List UInt8 :=
  superblock [] ++ (List.range 32).flatMap (slotBlock slots)

def slotsFs (slots : Nat → Bool) : Bootfs where
  mmc := { data := fun i => ((slotsMeta slots)[i]?).getD 0, readable := fun _ _ => true }
  mmcOffset := 0
  sb := slotsMeta slots
  length_sb := by
    rw [slotsMeta, List.length_append, length_superblock, length_flatMap_const (length_slotBlock slots),
      List.length_range]
    rfl

theorem blockFrom_slotsFs (slots : Nat → Bool) {i : Nat} (h : i < 32) :
    ∃ rest, (slotsFs slots).blockFrom i = slotBlock slots i ++ rest := by
  refine ⟨((List.range 32).drop (i + 1)).flatMap (slotBlock slots), ?_⟩
  unfold Bootfs.blockFrom slotsFs slotsMeta
  dsimp only
  rw [show blockSize * (i + 1) = (superblock []).length + 2048 * i by
      rw [length_superblock]; unfold blockSize; omega,
    List.drop_length_add_append, drop_flatMap_const (length_slotBlock slots),
    List.drop_eq_getElem_cons (by rwa [List.length_range]), List.flatMap_cons, List.getElem_range]

theorem isConf_slotsFs (slots : Nat → Bool) {i : Nat} (h : i < 32) :
    (slotsFs slots).isConf i = slots i := by
  obtain ⟨rest, hr⟩ := blockFrom_slotsFs slots h
  unfold Bootfs.isConf
  rw [hr, slotBlock, List.append_assoc]
  cases slots i with
  | true => rw [if_pos rfl, List.take_left' length_confMagic, beq_self_eq_true]
  | false => rw [if_neg Bool.false_ne_true, List.take_left' List.length_replicate]; decide

/-- It has as many configurations as there are slots given. -/
theorem confCount_slotsFs (slots : Nat → Bool) :
    confCount (some (slotsFs slots)) = (List.range 32).countP slots := by
  unfold confCount
  exact List.countP_congr fun i hi => by rw [isConf_slotsFs slots (List.mem_range.1 hi)]

/-- Two media with all slots configured. -/
def fullMedia : Globals :=
  { Globals.init bootedFromMmc0 false with
    emmc := some (slotsFs fun _ => true), sd := some (slotsFs fun _ => true) }

/-- Their menu has 72 items. -/
theorem itemsFit_full : ¬ ItemsFit fullMedia := by
  have hcount : (List.range 32).countP (fun _ => true) = 32 := by decide
  have hemmc : confCount fullMedia.emmc = 32 := (confCount_slotsFs _).trans hcount
  have hsd : confCount fullMedia.sd = 32 := (confCount_slotsFs _).trans hcount
  have hother : otherLines fullMedia = 8 := rfl
  rw [itemsFit_lines, length_menuLines, hemmc, hsd, hother, menuItems]
  decide

end PBoot
