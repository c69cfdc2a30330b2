import PBoot.Lib.Run
import PBoot.Video.Proof.Blit

/-!
# Scrolling

A `Scrollback` is a console that never scrolls. `window_runs`: the screen is a window onto it in every run that
feeds no newline while the cursor stands behind the last cell. There the screen scrolls once where
it should scroll twice, and the empty line is lost (`window_lost`).
-/

namespace PBoot

open Arrays Bytes Runs

/-! ## The endless console -/

/-- A console of which no row is ever lost. -/
structure Scrollback where
  cells : Nat → UInt8
  cursor : Nat

/-- Blank, with the cursor at the start. -/
def Scrollback.start : Scrollback := { cells := fun _ => 0x20, cursor := 0 }

/-- A character, in rows of `w`. -/
def Scrollback.putc (w : Nat) (e : Scrollback) (ch : UInt8) : Scrollback :=
  if ch = 0x0d then e
  else if ch = 0x0a then { e with cursor := e.cursor + (w - e.cursor % w) }
  else { cells := Function.update e.cells e.cursor ch, cursor := e.cursor + 1 }

/-- A zero cell is as blank as a space. -/
def look (ch : UInt8) : UInt8 := if ch = 0 then 0x20 else ch

/-- The screen shows the rows from `T` on, and there is nothing below. -/
structure ShowsFrom (c : Vidconsole) (e : Scrollback) (T : Nat) : Prop where
  rows : ∀ i < c.w * c.h, look (c.screen.getD i 0) = look (e.cells (T * c.w + i))
  below : ∀ j, (T + c.h) * c.w ≤ j → look (e.cells j) = 0x20

/-- A console, and an endless one that gets the same characters. -/
structure Feed where
  c : Vidconsole
  e : Scrollback

/-- Both consoles get a character. -/
def Feed.step (f : Feed) (ch : UInt8) (f' : Feed) : Prop :=
  vidconsolePutc f.c ch = some f'.c ∧ f'.e = f.e.putc f.c.w ch

/-- The size is right, and no newline comes when the cursor is behind the last cell, unless there is
but one row. -/
def LineFits (f : Feed) (ch : UInt8) : Prop :=
  f.c.w * f.c.h < 2 ^ 32 ∧
    (ch = 0x0a → f.c.cursor = f.c.size → f.c.h = 1 ∧ f.c.w + f.c.w < 2 ^ 32)

/-- The screen shows some rows of the endless console, with nothing below. -/
def Feed.Shown (f : Feed) : Prop := f.c.cursor ≤ f.c.size ∧ ∃ T, ShowsFrom f.c f.e T

/-! ## Scrolling -/

section
variable {c c' : Vidconsole} {e : Scrollback} {T T' : Nat} {ch : UInt8}

/-- What all consoles of a run have in common. -/
structure Vidconsole.Plain (c : Vidconsole) : Prop where
  width : 1 ≤ c.w
  height : 1 ≤ c.h
  size : c.size = u32 (c.w * c.h)
  screen : c.screen.length = c.size

/-- The rows move up, and the last one is cleared. -/
theorem scroll_eq (hp : c.Plain) (hs : c.w * c.h < 2 ^ 32) :
    ∃ screen, c.scroll = some { c with screen, cursor := c.w * (c.h - 1) } ∧
      screen.length = c.size ∧ ∀ i < c.w * c.h, screen.getD i 0 =
        if i < c.w * (c.h - 1) then c.screen.getD (c.w + i) 0 else 0 := by
  have hlast : c.w * (c.h - 1) + c.w = c.w * c.h := by
    rw [← Nat.mul_succ, Nat.succ_eq_add_one, Nat.sub_add_cancel hp.height]
  have hl : c.screen.length = c.w * c.h := by rw [hp.screen, hp.size, u32_of_lt hs]
  obtain ⟨s₁, h₁, hl₁, hs₁⟩ := memcpy_down (a := c.screen) (d := 0) (s := c.w)
    (n := c.w * (c.h - 1)) (by omega) (by omega)
  obtain ⟨s₂, h₂, hl₂, hs₂⟩ := memset_eq (a := s₁) (d := c.w * (c.h - 1)) (n := c.w) (x := 0) (by omega)
  refine ⟨s₂, ?_, by rw [hl₂, hl₁, hp.screen], fun i hi => ?_⟩
  · unfold Vidconsole.scroll
    rw [u32_of_lt (by omega)]
    dsimp only
    rw [h₁, Option.bind_some, h₂]
    rfl
  · simp only [List.getD_eq_getElem?_getD, hs₂, hs₁]
    by_cases hrow : i < c.w * (c.h - 1)
    · rw [if_neg (by omega), if_pos (by omega), if_pos hrow, Nat.sub_zero, Nat.add_comm i]
    · rw [if_pos (by omega), if_neg hrow]
      rfl

/-- One row later; with a single row, any number of rows later. -/
theorem ShowsFrom.scroll (hp : c.Plain) (hs : c.w * c.h < 2 ^ 32) (h : ShowsFrom c e T)
    (hT : T' = T + 1 ∨ c.h = 1 ∧ T + 1 ≤ T') :
    ∃ screen, c.scroll = some { c with screen, cursor := c.w * (c.h - 1) } ∧
      screen.length = c.size ∧ ∀ k, ShowsFrom { c with screen, cursor := k } e T' := by
  obtain ⟨screen, he, hl, hi⟩ := scroll_eq hp hs
  have hlast : c.w * (c.h - 1) + c.w = c.w * c.h := by
    rw [← Nat.mul_succ, Nat.succ_eq_add_one, Nat.sub_add_cancel hp.height]
  have hle : (T + 1) * c.w ≤ T' * c.w := Nat.mul_le_mul_right _ (by omega)
  refine ⟨screen, he, hl, fun k => ⟨fun i hlt => ?_, fun j hj => h.below j (le_trans ?_ hj)⟩⟩
  · change look (screen.getD i 0) = look (e.cells (T' * c.w + i))
    rw [hi i hlt]
    split
    · rename_i hrow
      rcases hT with rfl | ⟨h1, -⟩
      · rw [h.rows _ (by omega), Nat.add_one_mul, Nat.add_assoc]
      · simp [h1] at hrow
    · rename_i hrow
      refine (h.below _ ?_).symm
      rw [Nat.add_mul, Nat.mul_comm c.h]
      rw [Nat.add_one_mul] at hle
      omega
  · exact Nat.mul_le_mul_right _ (show T + c.h ≤ T' + c.h by omega)

/-- A character on the screen is one in the endless console. -/
theorem ShowsFrom.store (hp : c.Plain) (hs : c.w * c.h < 2 ^ 32) (h : ShowsFrom c e T)
    (hc : c.cursor < c.size) (he : e.cursor = T * c.w + c.cursor) (ch : UInt8) :
    c.store ch = some { c with screen := c.screen.set c.cursor ch, cursor := c.cursor + 1 } ∧
      ∀ k k', ShowsFrom { c with screen := c.screen.set c.cursor ch, cursor := k }
        { cells := Function.update e.cells e.cursor ch, cursor := k' } T := by
  have hsize : c.size = c.w * c.h := by rw [hp.size, u32_of_lt hs]
  refine ⟨?_, fun k k' => ⟨fun i hi => ?_, fun j hj => ?_⟩⟩
  · rw [Vidconsole.store, put_eq (by rwa [hp.screen]), u32_of_lt (by omega)]
    rfl
  · change look ((c.screen.set c.cursor ch).getD i 0) =
      look (Function.update e.cells e.cursor ch (T * c.w + i))
    rw [List.getD_eq_getElem?_getD, List.getElem?_set]
    by_cases hci : c.cursor = i
    · subst hci
      rw [if_pos rfl, if_pos (by rwa [hp.screen]), he, Function.update_self]
      rfl
    · rw [if_neg hci, Function.update_of_ne (by omega), ← List.getD_eq_getElem?_getD]
      exact h.rows i hi
  · change look (Function.update e.cells e.cursor ch j) = 0x20
    have hj' : T * c.w + c.w * c.h ≤ j := by
      rw [Nat.mul_comm c.w c.h, ← Nat.add_mul]
      exact hj
    rw [Function.update_of_ne (by omega)]
    exact h.below j hj

end

/-! ## A character -/

/-- The invariant: both cursors are on the same cell. -/
structure Feed.Follows (f : Feed) : Prop where
  plain : f.c.Plain
  cursor : f.c.cursor ≤ f.c.size
  shows_from : ∃ T, f.e.cursor = T * f.c.w + f.c.cursor ∧ ShowsFrom f.c f.e T

section
variable {c : Vidconsole} {e : Scrollback} {f : Feed} {T T' : Nat} {ch : UInt8}

theorem follows_scroll (hp : c.Plain) (hs : c.w * c.h < 2 ^ 32) (h : ShowsFrom c e T)
    (hT : T' = T + 1 ∨ c.h = 1 ∧ T + 1 ≤ T') (he : e.cursor = T' * c.w + c.w * (c.h - 1)) :
    ∃ c', c.scroll = some c' ∧ c'.w * c'.h < 2 ^ 32 ∧ c'.cursor < c'.size ∧
      Feed.Follows ⟨c', e⟩ := by
  obtain ⟨screen, hc, hl, hsh⟩ := h.scroll hp hs hT
  have hlast : c.w * (c.h - 1) + c.w = c.w * c.h := by
    rw [← Nat.mul_succ, Nat.succ_eq_add_one, Nat.sub_add_cancel hp.height]
  have hlt : c.w * (c.h - 1) < c.size := by
    have := hp.width
    rw [hp.size, u32_of_lt hs]
    omega
  exact ⟨_, hc, hs, hlt, ⟨hp.width, hp.height, hp.size, hl⟩, hlt.le, T', he, hsh _⟩

theorem follows_store (hf : Feed.Follows ⟨c, e⟩) (hs : c.w * c.h < 2 ^ 32) (hc : c.cursor < c.size)
    (ch : UInt8) : ∃ c', c.store ch = some c' ∧ Feed.Follows
      ⟨c', { cells := Function.update e.cells e.cursor ch, cursor := e.cursor + 1 }⟩ := by
  obtain ⟨hp, -, T, he, hsh⟩ := hf
  obtain ⟨hst, hsh'⟩ := hsh.store hp hs hc he ch
  refine ⟨_, hst, ⟨hp.width, hp.height, hp.size, ?_⟩, hc, T, ?_, hsh' _ _⟩
  · exact (List.length_set).trans hp.screen
  · exact (congrArg (· + 1) he).trans (Nat.add_assoc _ _ _)

/-- A newline goes to the start of the next row. -/
theorem next_row {w k : Nat} (hw : 1 ≤ w) : k + (w - k % w) = (k / w + 1) * w := by
  have hlt := Nat.mod_lt k hw
  have hk := Nat.div_add_mod' k w
  rw [Nat.add_one_mul]
  omega

theorem putc_newline (h : c.cursor + (c.w - c.cursor % c.w) < 2 ^ 32) : vidconsolePutc c 0x0a =
    if c.size ≤ c.cursor + (c.w - c.cursor % c.w) then
      Vidconsole.scroll { c with cursor := c.cursor + (c.w - c.cursor % c.w) }
    else some { c with cursor := c.cursor + (c.w - c.cursor % c.w) } := by
  rw [vidconsolePutc, if_neg (by decide), if_pos rfl, if_pos rfl, u32_of_lt h]

theorem putc_char (h1 : ch ≠ 0x0d) (h2 : ch ≠ 0x0a) : vidconsolePutc c ch =
    (if c.size ≤ c.cursor then c.scroll else some c).bind (·.store ch) := by
  rw [vidconsolePutc, if_neg h1, if_neg h2, if_neg h2]

theorem follows_newline (hf : f.Follows) (hl : LineFits f 0x0a) :
    ∃ c', vidconsolePutc f.c 0x0a = some c' ∧ Feed.Follows ⟨c', f.e.putc f.c.w 0x0a⟩ := by
  obtain ⟨hp, hc, T, he, hsh⟩ := hf
  obtain ⟨hs, hfull⟩ := hl
  have hw := hp.width
  have hsize : f.c.size = f.c.w * f.c.h := by rw [hp.size, u32_of_lt hs]
  have hlast : f.c.w * (f.c.h - 1) + f.c.w = f.c.w * f.c.h := by
    rw [← Nat.mul_succ, Nat.succ_eq_add_one, Nat.sub_add_cancel hp.height]
  have hput : f.e.putc f.c.w 0x0a =
      { f.e with cursor := T * f.c.w + (f.c.cursor + (f.c.w - f.c.cursor % f.c.w)) } := by
    rw [Scrollback.putc, if_neg (by decide), if_pos rfl, he, Nat.add_comm (T * f.c.w),
      Nat.add_mul_mod_self_right]
    congr 1
    omega
  rw [hput]
  rcases Nat.lt_or_eq_of_le hc with hlt | hfullrow
  · have hle : f.c.cursor + (f.c.w - f.c.cursor % f.c.w) ≤ f.c.w * f.c.h := by
      rw [next_row hw, Nat.mul_comm f.c.w]
      exact Nat.mul_le_mul_right _ (Nat.div_lt_of_lt_mul (hsize ▸ hlt))
    rw [putc_newline (by omega)]
    split
    · rename_i hge
      obtain ⟨c', hc', -, -, hf'⟩ := follows_scroll (c := { f.c with cursor := _ })
        ⟨hp.width, hp.height, hp.size, hp.screen⟩ hs ⟨hsh.rows, hsh.below⟩ (.inl rfl)
        (e := { f.e with cursor := T * f.c.w + (f.c.cursor + (f.c.w - f.c.cursor % f.c.w)) })
        (by dsimp only; rw [Nat.add_one_mul]; omega)
      exact ⟨c', hc', hf'⟩
    · rename_i hlt'
      exact ⟨_, rfl, ⟨hp.width, hp.height, hp.size, hp.screen⟩, (not_le.1 hlt').le, T, rfl,
        ⟨hsh.rows, hsh.below⟩⟩
  · -- a full console of one row
    obtain ⟨h1, hdouble⟩ := hfull rfl hfullrow
    rw [h1, Nat.mul_one] at hsize
    have hmod : f.c.cursor % f.c.w = 0 := by rw [hfullrow, hsize, Nat.mod_self]
    have hadv := putc_newline (c := f.c) (by rw [hmod]; omega)
    rw [hmod, Nat.sub_zero] at hadv ⊢
    rw [hadv, if_pos (by omega)]
    obtain ⟨c', hc', -, -, hf'⟩ := follows_scroll (c := { f.c with cursor := _ })
      ⟨hp.width, hp.height, hp.size, hp.screen⟩ hs ⟨hsh.rows, hsh.below⟩ (.inr ⟨h1, show T + 1 ≤ T + 2 by omega⟩)
      (e := { f.e with cursor := T * f.c.w + (f.c.cursor + f.c.w) })
      (by dsimp only; rw [h1, Nat.sub_self, Nat.mul_zero, Nat.add_mul]; omega)
    exact ⟨c', hc', hf'⟩

theorem follows_char (hf : f.Follows) (hs : f.c.w * f.c.h < 2 ^ 32) (h1 : ch ≠ 0x0d)
    (h2 : ch ≠ 0x0a) :
    ∃ c', vidconsolePutc f.c ch = some c' ∧ Feed.Follows ⟨c', f.e.putc f.c.w ch⟩ := by
  rw [putc_char h1 h2, Scrollback.putc, if_neg h1, if_neg h2]
  rcases Nat.lt_or_eq_of_le hf.cursor with hlt | hfullrow
  · rw [if_neg (not_le.2 hlt)]
    exact follows_store hf hs hlt ch
  · obtain ⟨hp, -, T, he, hsh⟩ := hf
    have hlast : f.c.w * (f.c.h - 1) + f.c.w = f.c.w * f.c.h := by
      rw [← Nat.mul_succ, Nat.succ_eq_add_one, Nat.sub_add_cancel hp.height]
    obtain ⟨c', hc', hs', hlt, hf'⟩ := follows_scroll hp hs hsh (.inl rfl) (by
      rw [he, hfullrow, hp.size, u32_of_lt hs, Nat.add_one_mul]
      omega)
    rw [if_pos hfullrow.ge, hc']
    exact follows_store hf' hs' hlt ch

/-- **A character** that fits is written within the screen, and both consoles go on together. -/
theorem follows_step (hf : f.Follows) (hl : LineFits f ch) :
    ∃ c', vidconsolePutc f.c ch = some c' ∧ Feed.Follows ⟨c', f.e.putc f.c.w ch⟩ := by
  by_cases h1 : ch = 0x0d
  · subst h1
    exact ⟨f.c, rfl, hf⟩
  · by_cases h2 : ch = 0x0a
    · subst h2
      exact follows_newline hf hl
    · exact follows_char hf hl.1 h1 h2

/-- The step relation keeps the invariant. -/
theorem follows_next {f' : Feed} (hf : f.Follows) (hst : Guarded Feed.step LineFits f ch f') :
    f'.Follows := by
  obtain ⟨c', hc', hf'⟩ := follows_step hf hst.1
  obtain ⟨hc, he⟩ := hst.2
  obtain ⟨c₂, e₂⟩ := f'
  obtain rfl : c' = c₂ := Option.some.inj (hc'.symm.trans hc)
  obtain rfl : e₂ = _ := he
  exact hf'

end

/-! ## A whole run -/

section
variable {font : Mem} {heap : Nat → BitVec 32} {w h scale : Nat} {fg bg : BitVec 32}

def Feed.start (c : Vidconsole) : Feed := { c, e := .start }

theorem start_follows (hw : 1 ≤ w) (hh : 1 ≤ h) :
    (Feed.start (vidconsoleInit font heap w h scale fg bg)).Follows := by
  refine ⟨⟨hw, hh, rfl, List.length_replicate⟩, Nat.zero_le _, 0, by simp [Feed.start, Scrollback.start,
    vidconsoleInit], fun i _ => ?_, fun j _ => rfl⟩
  change look ((List.replicate _ 0x20).getD i 0) = look 0x20
  rw [List.getD_eq_getElem?_getD, List.getElem?_replicate]
  split <;> rfl

/-- **The screen is a window** onto the endless console, in every run whose newlines all fit, and the
next character that fits is stored within the screen. -/
theorem window_runs (hw : 1 ≤ w) (hh : 1 ≤ h) : ∀ s f,
    Run (Guarded Feed.step LineFits) (.start (vidconsoleInit font heap w h scale fg bg)) s f →
    f.Shown ∧ ∀ ch, LineFits f ch → ∃ f', f.step ch f' := by
  intro s f hr
  have hf : f.Follows := hr.inv (start_follows hw hh) fun _ _ _ => follows_next
  obtain ⟨T, -, hsh⟩ := hf.shows_from
  refine ⟨⟨hf.cursor, T, hsh⟩, fun ch hl => ?_⟩
  obtain ⟨c', hc', -⟩ := follows_step hf hl
  exact ⟨⟨c', _⟩, hc', rfl⟩

end

/-- A console of two cells, and what it is after the characters `s`. -/
def column : Vidconsole := vidconsoleInit (fun _ => 0) (fun _ => 0) 1 2 1 7 0

def columnFed (s screen : List UInt8) (cursor : Nat) : Feed :=
  { c := { column with screen, cursor }, e := s.foldl (Scrollback.putc 1) .start }

/-- The step is the one of the console; the endless one follows. -/
theorem columnFed_step {s screen screen' : List UInt8} {cursor cursor' : Nat} {ch : UInt8}
    (h : vidconsolePutc { column with screen, cursor } ch =
      some { column with screen := screen', cursor := cursor' }) :
    (columnFed s screen cursor).step ch (columnFed (s ++ [ch]) screen' cursor') :=
  ⟨h, List.foldl_append⟩

theorem start_column : Feed.start column = columnFed [] [0x20, 0x20] 0 := by
  simp [Feed.start, columnFed, column, vidconsoleInit]

theorem column_char : (columnFed [] [0x20, 0x20] 0).step 0x61 (columnFed [0x61] [0x61, 0x20] 1) :=
  columnFed_step (by simp [vidconsolePutc, column, vidconsoleInit, Vidconsole.store, put])

theorem window_column : (∃ f, Run (Guarded Feed.step LineFits) (.start column) [0x61, 0x0a] f) ∧
    ∀ s f, Run (Guarded Feed.step LineFits) (.start column) s f →
      f.Shown ∧ ∀ ch, LineFits f ch → ∃ f', f.step ch f' := by
  refine ⟨?_, window_runs (by decide) (by decide)⟩
  have h₂ : (columnFed [0x61] [0x61, 0x20] 1).step 0x0a (columnFed [0x61, 0x0a] [0x20, 0] 1) :=
    columnFed_step (by
      simp [vidconsolePutc, column, vidconsoleInit, Vidconsole.scroll, put, memcpy, memset])
  rw [start_column]
  exact ⟨_, .snoc (.snoc .nil ⟨⟨by decide, by decide⟩, column_char⟩) ⟨⟨by decide, by decide⟩, h₂⟩⟩

/-- `"ab\nc"` there: the empty line is lost. -/
theorem window_lost : ∃ f, Run Feed.step (.start column) [0x61, 0x62, 0x0a, 0x63] f ∧
    f.c.screen = [0x62, 0x63] ∧ ¬ f.Shown := by
  have h₂ : (columnFed [0x61] [0x61, 0x20] 1).step 0x62 (columnFed [0x61, 0x62] [0x61, 0x62] 2) :=
    columnFed_step (by simp [vidconsolePutc, column, vidconsoleInit, Vidconsole.store, put])
  have h₃ : (columnFed [0x61, 0x62] [0x61, 0x62] 2).step 0x0a
      (columnFed [0x61, 0x62, 0x0a] [0x62, 0] 1) :=
    columnFed_step (by
      simp [vidconsolePutc, column, vidconsoleInit, Vidconsole.scroll, put, memcpy, memset])
  have h₄ : (columnFed [0x61, 0x62, 0x0a] [0x62, 0] 1).step 0x63
      (columnFed [0x61, 0x62, 0x0a, 0x63] [0x62, 0x63] 2) :=
    columnFed_step (by simp [vidconsolePutc, column, vidconsoleInit, Vidconsole.store, put])
  rw [start_column]
  refine ⟨_, .snoc (.snoc (.snoc (.snoc .nil column_char) h₂) h₃) h₄, rfl, ?_⟩
  rintro ⟨-, T, hsh⟩
  -- `c` is in row 3 of the endless console, and row 2 is empty
  have hc := hsh.rows 1 (by decide)
  have hb := hsh.rows 0 (by decide)
  simp [columnFed, column, vidconsoleInit, Scrollback.putc, Scrollback.start, look] at hc hb
  have hT : T = 2 := by
    by_contra hne
    have h3 : T + 1 ≠ 3 := by omega
    rw [Function.update_of_ne h3] at hc
    rcases T with _ | T <;> simp at hc
  subst hT
  simp at hb

end PBoot
