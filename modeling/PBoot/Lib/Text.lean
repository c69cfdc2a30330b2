import Mathlib.Data.List.DropRight
import Mathlib.Data.List.TakeWhile

/-!
# Lines and numbers of a text

What C programs read a text with, over bytes:

* `fgets cap`: the pieces that `fgets` delivers with a buffer for `cap` bytes and the NUL;
  `lines`: the whole lines. `fgets_flatMap_lines`: the pieces are those of the lines, one line after
  the other; `fgets_eq_lines`: with lines that fit the buffer, they are the lines.
* `atoi`: `(int) strtol(s, NULL, 10)` with a 64-bit `long` and a 32-bit `int`. `atoi_digits`: the
  value of a decimal number that an `int` has room for.

`rdropWhile_append_of_pos` and `rdropWhile_append_cons` say where trimming the end of a text stops.
-/

namespace Text

/-! ## Lines -/

def newline : UInt8 := 10

/-- The pieces of a text, each up to a newline or to `cap` bytes; the first one begins with the
bytes that were read already. -/
def fgetsFrom (cap : Nat) : List UInt8 → List UInt8 → List (List UInt8)
  | got, [] => if got = [] then [] else [got]
  | got, b :: bs =>
    let got := got ++ [b]
    if b = newline ∨ got.length = cap then got :: fgetsFrom cap [] bs else fgetsFrom cap got bs

def fgets (cap : Nat) (text : List UInt8) : List (List UInt8) := fgetsFrom cap [] text

/-- The lines of a text, with their newlines. -/
def linesFrom : List UInt8 → List UInt8 → List (List UInt8)
  | got, [] => if got = [] then [] else [got]
  | got, b :: bs =>
    let got := got ++ [b]
    if b = newline then got :: linesFrom [] bs else linesFrom got bs

def lines (text : List UInt8) : List (List UInt8) := linesFrom [] text

section
variable {cap : Nat}

/-- The line that has begun goes on. -/
theorem exists_long_line (got bs : List UInt8) (h : bs ≠ []) :
    ∃ l ∈ linesFrom got bs, got.length < l.length := by
  induction bs generalizing got with
  | nil => exact absurd rfl h
  | cons b bs ih =>
    unfold linesFrom
    dsimp only
    split
    · exact ⟨_, List.mem_cons_self, by simp⟩
    · cases bs with
      | nil => exact ⟨got ++ [b], by simp [linesFrom], by simp⟩
      | cons c bs =>
        obtain ⟨l, hl, hlt⟩ := ih (got ++ [b]) (List.cons_ne_nil _ _)
        rw [List.length_append, List.length_singleton] at hlt
        exact ⟨l, hl, by omega⟩

theorem fgetsFrom_eq_linesFrom (got bs : List UInt8)
    (h : ∀ l ∈ linesFrom got bs, l.length ≤ cap) : fgetsFrom cap got bs = linesFrom got bs := by
  induction bs generalizing got with
  | nil => rfl
  | cons b bs ih =>
    unfold linesFrom at h ⊢
    unfold fgetsFrom
    dsimp only at h ⊢
    by_cases hb : b = newline
    · rw [if_pos hb] at h ⊢
      rw [if_pos (Or.inl hb), ih [] fun l hl => h l (List.mem_cons_of_mem _ hl)]
    · rw [if_neg hb] at h ⊢
      by_cases hc : (got ++ [b]).length = cap
      · rw [if_pos (Or.inr hc)]
        -- a full buffer without a newline is the last line
        cases bs with
        | nil => simp [fgetsFrom, linesFrom]
        | cons c bs =>
          obtain ⟨l, hl, hlt⟩ := exists_long_line (got ++ [b]) (c :: bs) (List.cons_ne_nil _ _)
          have := h l hl
          omega
      · rw [if_neg (not_or.2 ⟨hb, hc⟩), ih _ h]

/-- **Lines that fit the buffer are read whole.** -/
theorem fgets_eq_lines {text : List UInt8} (h : ∀ l ∈ lines text, l.length ≤ cap) :
    fgets cap text = lines text :=
  fgetsFrom_eq_linesFrom [] text h

end

section
variable {l rest : List UInt8}

theorem linesFrom_line (got : List UInt8) (h : newline ∉ l) :
    linesFrom got (l ++ newline :: rest) = (got ++ l ++ [newline]) :: lines rest := by
  induction l generalizing got with
  | nil => simp [linesFrom, lines]
  | cons b l ih =>
    have hb : b ≠ newline := fun he => h (he ▸ List.mem_cons_self)
    rw [List.cons_append, linesFrom, if_neg hb, ih _ fun hm => h (List.mem_cons_of_mem _ hm)]
    simp

/-- The first line, and the lines after it. -/
theorem lines_line (h : newline ∉ l) :
    lines (l ++ newline :: rest) = (l ++ [newline]) :: lines rest :=
  linesFrom_line [] h

theorem linesFrom_last (got : List UInt8) (h : newline ∉ l) (hne : got ++ l ≠ []) :
    linesFrom got l = [got ++ l] := by
  induction l generalizing got with
  | nil =>
    rw [List.append_nil] at hne ⊢
    exact if_neg hne
  | cons b l ih =>
    have hb : b ≠ newline := fun he => h (he ▸ List.mem_cons_self)
    rw [linesFrom, if_neg hb, ih _ (fun hm => h (List.mem_cons_of_mem _ hm)) (by simp)]
    simp

/-- A last line without a newline. -/
theorem lines_last (h : newline ∉ l) (hne : l ≠ []) : lines l = [l] := linesFrom_last [] h hne

/-- A text is induced on line by line: without a newline it is one line, or empty. -/
theorem induction_lines {P : List UInt8 → Prop} (nil : P []) (last : ∀ l, newline ∉ l → l ≠ [] → P l)
    (line : ∀ l rest, newline ∉ l → P rest → P (l ++ newline :: rest)) (text : List UInt8) :
    P text := by
  induction hn : text.length using Nat.strong_induction_on generalizing text with
  | h n ih =>
    by_cases hnl : newline ∈ text
    · obtain ⟨l, rest, rfl, hl⟩ := List.eq_append_cons_of_mem hnl
      have hlt : rest.length < n := by
        rw [← hn, List.length_append, List.length_cons]
        omega
      exact line l rest hl (ih _ hlt rest rfl)
    · by_cases hne : text = []
      · exact hne ▸ nil
      · exact last text hnl hne

/-- A line is a text of one line. -/
theorem lines_of_mem {text : List UInt8} (h : l ∈ lines text) : lines l = [l] := by
  induction text using induction_lines with
  | nil => cases h
  | last l' hnl hne =>
    rw [lines_last hnl hne, List.mem_singleton] at h
    rw [h]
    exact lines_last hnl hne
  | line l' rest hnl ih =>
    rw [lines_line hnl, List.mem_cons] at h
    rcases h with rfl | h
    · exact lines_line hnl
    · exact ih h

/-- After a newline `fgets` begins a new piece. -/
theorem fgetsFrom_line {cap : Nat} (got l rest : List UInt8) :
    fgetsFrom cap got (l ++ newline :: rest) =
      fgetsFrom cap got (l ++ [newline]) ++ fgets cap rest := by
  induction l generalizing got with
  | nil => simp [fgetsFrom, fgets]
  | cons b l ih =>
    rw [List.cons_append, List.cons_append, fgetsFrom, fgetsFrom]
    split
    · rw [ih, List.cons_append]
    · exact ih _

/-- **The pieces of a text** are the pieces of its lines. -/
theorem fgets_flatMap_lines (cap : Nat) (text : List UInt8) :
    fgets cap text = (lines text).flatMap (fgets cap) := by
  induction text using induction_lines with
  | nil => rfl
  | last l hnl hne => rw [lines_last hnl hne, List.flatMap_singleton]
  | line l rest hnl ih =>
    rw [lines_line hnl, List.flatMap_cons, ← ih]
    exact fgetsFrom_line [] l rest

end

/-! ## Trimming -/

section
variable {α : Type*} {p : α → Bool} {xs ys : List α} {x : α}

theorem rdropWhile_append_of_pos (h : ∀ y ∈ ys, p y) :
    (xs ++ ys).rdropWhile p = xs.rdropWhile p := by
  unfold List.rdropWhile
  rw [List.reverse_append, List.dropWhile_append_of_pos]
  simpa using h

theorem rdropWhile_append_cons (h : ¬p x) :
    (xs ++ x :: ys).rdropWhile p = xs ++ x :: ys.rdropWhile p := by
  induction ys using List.reverseRecOn with
  | nil => exact List.rdropWhile_concat_neg p xs x h
  | append_singleton ys y ih =>
    rw [← List.cons_append, ← List.append_assoc, List.rdropWhile_concat, List.rdropWhile_concat]
    split
    · exact ih
    · simp

/-- The first element that stays. -/
theorem exists_first_not (h : ∃ x ∈ xs, ¬p x) :
    ∃ t x u, xs = t ++ x :: u ∧ (¬p x) ∧ ∀ y ∈ t, p y := by
  induction xs with
  | nil =>
    obtain ⟨x, hx, -⟩ := h
    exact absurd hx List.not_mem_nil
  | cons y xs ih =>
    by_cases hy : p y
    · obtain ⟨x, hx, hpx⟩ := h
      have hmem : x ∈ xs := by
        rcases List.mem_cons.1 hx with rfl | hx
        · exact absurd hy hpx
        · exact hx
      obtain ⟨t, z, u, rfl, hz, ht⟩ := ih ⟨x, hmem, hpx⟩
      exact ⟨y :: t, z, u, rfl, hz, List.forall_mem_cons.2 ⟨hy, ht⟩⟩
    · exact ⟨[], y, xs, rfl, hy, fun _ hc => absurd hc List.not_mem_nil⟩

theorem takeWhile_append_head (hxs : ∀ y ∈ xs, p y) (hys : ∀ y ∈ ys.head?, ¬p y) :
    (xs ++ ys).takeWhile p = xs := by
  rw [List.takeWhile_append_of_pos hxs]
  cases ys with
  | nil => exact List.append_nil xs
  | cons y ys => rw [List.takeWhile_cons_of_neg (hys y rfl), List.append_nil]

theorem dropWhile_append_head (hxs : ∀ y ∈ xs, p y) (hys : ∀ y ∈ ys.head?, ¬p y) :
    (xs ++ ys).dropWhile p = ys := by
  rw [List.dropWhile_append_of_pos hxs]
  cases ys with
  | nil => rfl
  | cons y ys => exact List.dropWhile_cons_of_neg (hys y rfl)

/-- The last element that stays. -/
theorem exists_last_not (h : ∃ x ∈ xs, ¬p x) :
    ∃ t x u, xs = t ++ x :: u ∧ (¬p x) ∧ ∀ y ∈ u, p y := by
  induction xs using List.reverseRecOn with
  | nil =>
    obtain ⟨x, hx, -⟩ := h
    exact absurd hx List.not_mem_nil
  | append_singleton xs y ih =>
    by_cases hy : p y
    · obtain ⟨x, hx, hpx⟩ := h
      have hmem : x ∈ xs := by
        rcases List.mem_append.1 hx with hx | hx
        · exact hx
        · exact absurd (List.mem_singleton.1 hx ▸ hy) hpx
      obtain ⟨t, z, u, rfl, hz, hu⟩ := ih ⟨x, hmem, hpx⟩
      refine ⟨t, z, u ++ [y], by simp, hz, fun c hc => ?_⟩
      rcases List.mem_append.1 hc with hc | hc
      · exact hu c hc
      · exact List.mem_singleton.1 hc ▸ hy
    · exact ⟨xs, y, [], rfl, hy, fun _ hc => absurd hc List.not_mem_nil⟩

end

/-! ## Numbers -/

def isSpace (b : UInt8) : Bool := b == 32 || (9 ≤ b && b ≤ 13)

def isDigit (b : UInt8) : Bool := 48 ≤ b && b ≤ 57

/-- The value of the decimal digits at the head of a text. -/
def digits (s : List UInt8) : Nat :=
  (s.takeWhile isDigit).foldl (fun n b => 10 * n + (b.toNat - 48)) 0

/-- A number in the range of a 64-bit `long`, or the end of the range that it is beyond. -/
def clampLong (v : Int) : Int :=
  if v < -0x8000000000000000 then -0x8000000000000000
  else if 0x7fffffffffffffff < v then 0x7fffffffffffffff
  else v

/-- `strtol` in base 10. -/
def strtol (s : List UInt8) : Int :=
  let s := s.dropWhile isSpace
  if s.head? = some 45 then clampLong (-(digits (s.drop 1)))
  else if s.head? = some 43 then clampLong (digits (s.drop 1))
  else clampLong (digits s)

def atoi (s : List UInt8) : Int := (strtol s).bmod 0x100000000

theorem atoi_digits {s : List UInt8} (h : ∀ b ∈ s, isDigit b = true) (hlt : digits s < 0x80000000) :
    atoi s = digits s := by
  -- a digit is no space and no sign
  have hdigit : ∀ b, isDigit b = true → isSpace b = false ∧ b ≠ 45 ∧ b ≠ 43 := by
    intro b hb
    simp only [isDigit, Bool.and_eq_true, decide_eq_true_eq, UInt8.le_iff_toNat_le] at hb
    simp only [isSpace, Bool.or_eq_false_iff, Bool.and_eq_false_iff, beq_eq_false_iff_ne, ne_eq,
      decide_eq_false_iff_not, UInt8.le_iff_toNat_le, ← UInt8.toNat_inj, UInt8.reduceToNat] at hb ⊢
    omega
  have hhead : ∀ b, s.head? = some b → isSpace b = false ∧ b ≠ 45 ∧ b ≠ 43 := fun b hb =>
    hdigit b (h b (List.mem_of_mem_head? hb))
  have hdrop : s.dropWhile isSpace = s := by
    cases s with
    | nil => rfl
    | cons b s => exact List.dropWhile_cons_of_neg (by simp [(hhead b List.head?_cons).1])
  have hstrtol : strtol s = digits s := by
    unfold strtol clampLong
    dsimp only
    rw [hdrop, if_neg fun h45 => (hhead 45 h45).2.1 rfl, if_neg fun h43 => (hhead 43 h43).2.2 rfl,
      if_neg (by omega), if_neg (by omega)]
  rw [atoi, hstrtol]
  exact Int.bmod_eq_of_le (by omega) (by omega)

end Text
