import PBoot.Lib.Text
import Mathlib.Data.Nat.Digits.Lemmas

/-!
# Numerals

`numeral b v` is `v` in base `b`, with the highest digit first, no leading zeros and lower-case
letters for the digits from ten on.

* `numeral_of_lt`, `numeral_of_le`: from the last digit.
* `numeral_places`: from the places, when their number is known.
* `head_numeral`: the first digit is zero only for zero.
* `isDigit_numeral`, `digits_numeral`: a decimal numeral is read back.
-/

namespace Numeral

open Text

def digitChar (d : Nat) : UInt8 := UInt8.ofNat (if d < 10 then 48 + d else 87 + d)

def numeral (b v : Nat) : List UInt8 :=
  if v = 0 then [digitChar 0] else (Nat.digits b v).reverse.map digitChar

section
variable {b v k : Nat}

theorem digitChar_of_lt (h : v < 10) : digitChar v = UInt8.ofNat (48 + v) := by
  rw [digitChar, if_pos h]

theorem numeral_of_lt (h : v < b) : numeral b v = [digitChar v] := by
  rcases Nat.eq_zero_or_pos v with rfl | hpos
  · rfl
  · simp [numeral, Nat.digits_of_lt b v hpos.ne' h, hpos.ne']

theorem numeral_of_le (hb : 1 < b) (h : b ≤ v) :
    numeral b v = numeral b (v / b) ++ [digitChar (v % b)] := by
  have hdiv : v / b ≠ 0 := (Nat.div_pos h (by omega)).ne'
  rw [numeral, if_neg (by omega), numeral, if_neg hdiv, Nat.digits_def' hb (by omega),
    List.reverse_cons, List.map_append]
  rfl

/-- A numeral of `k + 1` places. -/
theorem numeral_places (hb : 1 < b) (hlo : k ≠ 0 → b ^ k ≤ v) (hhi : v < b ^ (k + 1)) :
    numeral b v = (List.range (k + 1)).map fun i => digitChar (v / b ^ (k - i) % b) := by
  induction k generalizing v with
  | zero =>
    rw [numeral_of_lt (by simpa using hhi)]
    simp [Nat.mod_eq_of_lt (show v < b by simpa using hhi)]
  | succ k ih =>
    have hle : b ^ (k + 1) ≤ v := hlo (Nat.succ_ne_zero k)
    have hbv : b ≤ v := Nat.le_trans (Nat.le_self_pow (Nat.succ_ne_zero k) b) hle
    have hlo' : b ^ k ≤ v / b :=
      (Nat.le_div_iff_mul_le (by omega)).2 (by rwa [← Nat.pow_succ])
    have hhi' : v / b < b ^ (k + 1) := Nat.div_lt_of_lt_mul (by rwa [← Nat.pow_succ'])
    rw [numeral_of_le hb hbv, ih (fun _ => hlo') hhi', List.range_succ (n := k + 1),
      List.map_append, List.map_singleton, Nat.sub_self, Nat.pow_zero, Nat.div_one]
    congr 1
    refine List.map_congr_left fun i hi => ?_
    have hik : k + 1 - i = k - i + 1 := by
      have := List.mem_range.1 hi
      omega
    rw [hik, Nat.pow_succ', Nat.div_div_eq_div_mul]

theorem length_numeral_pos (b v : Nat) : 0 < (numeral b v).length := by
  unfold numeral
  split
  · exact Nat.one_pos
  · rename_i h
    rw [List.length_map, List.length_reverse]
    exact List.length_pos_of_ne_nil (Nat.digits_ne_nil_iff_ne_zero.2 h)

theorem length_numeral_le (hb : 1 < b) (hk : k ≠ 0) (h : v < b ^ k) :
    (numeral b v).length ≤ k := by
  unfold numeral
  split
  · exact Nat.one_le_iff_ne_zero.2 hk
  · rw [List.length_map, List.length_reverse]
    exact (Nat.digits_length_le_iff hb v).2 h

theorem le_length_numeral (hb : 1 < b) (h : b ^ k ≤ v) : k < (numeral b v).length := by
  have hv : v ≠ 0 := by
    have := Nat.pow_pos (n := k) (show 0 < b by omega)
    omega
  rw [numeral, if_neg hv, List.length_map, List.length_reverse]
  exact (Nat.lt_digits_length_iff hb v).2 h

/-! ## Decimal numerals -/

theorem head_numeral (h : v ≠ 0) : (numeral 10 v).head? ≠ some 48 := by
  induction v using Nat.strong_induction_on with
  | _ v ih =>
    by_cases hlt : v < 10
    · have hall : ∀ d < 10, d ≠ 0 → digitChar d ≠ 48 := by decide
      simpa [numeral_of_lt hlt] using hall v hlt h
    · have hne := List.ne_nil_of_length_pos (length_numeral_pos 10 (v / 10))
      rw [numeral_of_le (by decide) (by omega), List.head?_append_of_ne_nil _ hne]
      exact ih (v / 10) (by omega) (by omega)

theorem isDigit_numeral (v : Nat) : ∀ c ∈ numeral 10 v, isDigit c = true := by
  have hall : ∀ d < 10, isDigit (digitChar d) = true := by decide
  induction v using Nat.strong_induction_on with
  | _ v ih =>
    by_cases hlt : v < 10
    · simpa [numeral_of_lt hlt] using hall v hlt
    · rw [numeral_of_le (by decide) (by omega)]
      intro c hc
      rcases List.mem_append.1 hc with hc | hc
      · exact ih (v / 10) (by omega) c hc
      · rw [List.mem_singleton.1 hc]
        exact hall _ (Nat.mod_lt _ (by decide))

theorem toNat_digitChar (h : v < 10) : (digitChar v).toNat - 48 = v := by
  have hall : ∀ d < 10, (digitChar d).toNat - 48 = d := by decide
  exact hall v h

/-- **Reading digit by digit**: what takes `g w` to `g (10 * w + d)` at the digit `d` takes `g 0` to
`g v` at the numeral of `v`. -/
theorem foldl_numeral {α : Type*} {f : α → UInt8 → α} {g : Nat → α} {n : Nat}
    (hs : ∀ w d, d < 10 → 10 * w + d ≤ n → f (g w) (digitChar d) = g (10 * w + d)) (hv : v ≤ n) :
    (numeral 10 v).foldl f (g 0) = g v := by
  induction v using Nat.strong_induction_on with
  | _ v ih =>
    by_cases hlt : v < 10
    · rw [numeral_of_lt hlt]
      have hstep := hs 0 v hlt (by omega)
      rwa [Nat.mul_zero, Nat.zero_add] at hstep
    · rw [numeral_of_le (by decide) (by omega), List.foldl_append, ih (v / 10) (by omega) (by omega)]
      have hstep := hs (v / 10) (v % 10) (Nat.mod_lt _ (by decide)) (by omega)
      rwa [show 10 * (v / 10) + v % 10 = v by omega] at hstep

theorem digits_numeral (v : Nat) : digits (numeral 10 v) = v := by
  rw [digits, List.takeWhile_eq_self_iff.2 (isDigit_numeral v)]
  exact foldl_numeral (g := id) (fun w d hd _ => congrArg (10 * w + ·) (toNat_digitChar hd))
    (Nat.le_refl v)

end

end Numeral
