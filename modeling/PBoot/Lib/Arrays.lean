import Mathlib.Logic.Function.Basic
import Mathlib.Data.Nat.ModEq

/-!
# Arrays

* `store m ws`: the memory `m` after the stores `ws`, in order. `store_eq` is what it holds where all
  stores agree with one function, `store_of_not_mem` that the rest stays.
* `put`, `memcpy`, `memset`: stores within the bounds of an array, none when one is outside.
  `memcpy_down`: a copy from behind its target moves every element, also when they overlap.
* `div_row`, `mod_row`: the row and the column of an index.
-/

namespace Arrays

variable {α : Type*}

/-! ## Stores -/

def store (m : Nat → α) (ws : List (Nat × α)) : Nat → α :=
  ws.foldl (fun m w => Function.update m w.1 w.2) m

section
variable {m : Nat → α} {ws : List (Nat × α)} {f : Nat → α} {i : Nat}

@[simp] theorem store_cons (m : Nat → α) (w : Nat × α) (ws : List (Nat × α)) :
    store m (w :: ws) = store (Function.update m w.1 w.2) ws := rfl

theorem store_of_not_mem (h : ∀ w ∈ ws, w.1 ≠ i) : store m ws i = m i := by
  induction ws generalizing m with
  | nil => rfl
  | cons w ws ih =>
    obtain ⟨hw, h⟩ := List.forall_mem_cons.1 h
    rw [store_cons, ih h, Function.update_of_ne (Ne.symm hw)]

/-- The last store decides, but they agree. -/
theorem store_eq (h : ∀ w ∈ ws, w.2 = f w.1) (hi : ∃ w ∈ ws, w.1 = i) : store m ws i = f i := by
  induction ws generalizing m with
  | nil => simp at hi
  | cons w ws ih =>
    obtain ⟨hw, h⟩ := List.forall_mem_cons.1 h
    by_cases hlater : ∃ w ∈ ws, w.1 = i
    · exact ih h hlater
    · have hwi : w.1 = i := by simpa [hlater] using hi
      rw [store_cons, store_of_not_mem fun v hv he => hlater ⟨v, hv, he⟩, hwi, Function.update_self,
        hw, hwi]

end

/-! ## Rows -/

section
variable {q b r : Nat}

theorem div_row (h : r < b) : (q * b + r) / b = q := by
  rw [Nat.add_comm, Nat.add_mul_div_right _ _ (by omega), Nat.div_eq_of_lt h, Nat.zero_add]

theorem mod_row (h : r < b) : (q * b + r) % b = r := by
  rw [Nat.add_comm, Nat.add_mul_mod_self_right, Nat.mod_eq_of_lt h]

theorem row_lt {n : Nat} (hq : q < n) (h : r < b) : q * b + r < n * b :=
  calc q * b + r < (q + 1) * b := by rw [Nat.add_one_mul]; omega
    _ ≤ n * b := Nat.mul_le_mul_right b hq

end

/-! ## Within bounds -/

/-- `a[i] = x`. -/
def put (a : List α) (i : Nat) (x : α) : Option (List α) :=
  if i < a.length then some (a.set i x) else none

/-- `memcpy` within an array, in the order of its loop. -/
def memcpy (a : List α) (dest src : Nat) : Nat → Option (List α)
  | 0 => some a
  | n + 1 => (memcpy a dest src n).bind fun a => a[src + n]?.bind (put a (dest + n))

def memset (a : List α) (dest : Nat) (x : α) : Nat → Option (List α)
  | 0 => some a
  | n + 1 => (memset a dest x n).bind fun a => put a (dest + n) x

section
variable {a : List α} {d s n : Nat} {x : α}

theorem put_eq (h : n < a.length) : put a n x = some (a.set n x) := if_pos h

/-- Later elements are moved after what they overwrite. -/
theorem memcpy_down (hds : d ≤ s) (hn : s + n ≤ a.length) :
    ∃ a', memcpy a d s n = some a' ∧ a'.length = a.length ∧
      ∀ i : Nat, a'[i]? = if d ≤ i ∧ i < d + n then a[i - d + s]? else a[i]? := by
  induction n with
  | zero => exact ⟨a, rfl, rfl, fun i => by rw [if_neg (by omega)]⟩
  | succ n ih =>
    obtain ⟨a', hm, hlen, ha'⟩ := ih (by omega)
    have hsrc : a'[s + n]? = some a[s + n] := by
      rw [ha', if_neg (by omega), List.getElem?_eq_getElem]
    refine ⟨a'.set (d + n) a[s + n], ?_, by simp [hlen], fun i => ?_⟩
    · rw [memcpy, hm, Option.bind_some, hsrc, Option.bind_some, put_eq (by omega)]
    · rw [List.getElem?_set]
      by_cases hi : d + n = i
      · subst hi
        rw [if_pos rfl, if_pos (by omega), if_pos (by omega),
          show d + n - d + s = s + n by omega, List.getElem?_eq_getElem (by omega)]
      · rw [if_neg hi, ha']
        simp only [show (d ≤ i ∧ i < d + n) ↔ (d ≤ i ∧ i < d + (n + 1)) by omega]

theorem memset_eq (hn : d + n ≤ a.length) :
    ∃ a', memset a d x n = some a' ∧ a'.length = a.length ∧
      ∀ i : Nat, a'[i]? = if d ≤ i ∧ i < d + n then some x else a[i]? := by
  induction n with
  | zero => exact ⟨a, rfl, rfl, fun i => by rw [if_neg (by omega)]⟩
  | succ n ih =>
    obtain ⟨a', hm, hlen, ha'⟩ := ih (by omega)
    refine ⟨a'.set (d + n) x, ?_, by simp [hlen], fun i => ?_⟩
    · rw [memset, hm, Option.bind_some, put_eq (by omega)]
    · rw [List.getElem?_set]
      by_cases hi : d + n = i
      · subst hi
        rw [if_pos rfl, if_pos (by omega), if_pos (by omega)]
      · rw [if_neg hi, ha']
        simp only [show (d ≤ i ∧ i < d + n) ↔ (d ≤ i ∧ i < d + (n + 1)) by omega]

end

end Arrays
