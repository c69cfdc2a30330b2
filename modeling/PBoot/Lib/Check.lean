import Mathlib.Data.List.Basic
import Mathlib.Logic.Function.Iterate

/-!
# Check bits

* `bitsOf`: the bits of a word, low first.
* `parityCheck cols bits`: the check bits of a linear code, one column for each bit.
* `serial poly c bits`: a register of a reflected CRC after the message `bits`, one at a time.
  `foldl_tableStep`: a table of eight shifts takes a byte at a time.
-/

namespace Check

/-- The bits of a word, low first. -/
def bitsOf {n : Nat} (b : BitVec n) : List Bool := (List.range n).map b.getLsbD

theorem bitsOf_succ {n : Nat} (b : BitVec (n + 1)) :
    bitsOf b = b.getLsbD 0 :: bitsOf (b.extractLsb' 1 n) := by
  rw [bitsOf, List.range_succ_eq_map, List.map_cons, List.map_map, bitsOf]
  congr 1
  refine List.map_congr_left fun i hi => ?_
  simp [List.mem_range.1 hi, Nat.add_comm]

/-! ## Parity checks -/

/-- Whether an odd number of bits is set. -/
def parity (l : List Bool) : Bool := l.foldr xor false

theorem parity_nil : parity [] = false := rfl

theorem parity_cons (b : Bool) (l : List Bool) : parity (b :: l) = (b ^^ parity l) := rfl

/-- The sum of the columns of the bits that are set. -/
def parityCheck {m : Nat} (cols : List (BitVec m)) (bits : List Bool) : BitVec m :=
  (List.zipWith (fun c b => if b then c else 0) cols bits).foldr (· ^^^ ·) 0

/-- **A check bit is the parity of the bits in its row.** -/
theorem getLsbD_parityCheck {m : Nat} (cols : List (BitVec m)) (bits : List Bool) (k : Nat) :
    (parityCheck cols bits).getLsbD k =
      parity (List.zipWith (fun c b => c.getLsbD k && b) cols bits) := by
  induction cols generalizing bits with
  | nil => simp [parityCheck, parity_nil]
  | cons c cols ih =>
    cases bits with
    | nil => simp [parityCheck, parity_nil]
    | cons b bits =>
      have hrest : (parityCheck (c :: cols) (b :: bits)) =
          (if b then c else 0) ^^^ parityCheck cols bits := rfl
      rw [hrest, BitVec.getLsbD_xor, ih]
      cases b <;> simp [parity_cons]

/-! ## Reflected CRCs -/

section
variable {w : Nat} (poly : BitVec w)

/-- A shift of the register. -/
def shift (c : BitVec w) : BitVec w := if c.getLsbD 0 then c >>> 1 ^^^ poly else c >>> 1

/-- The next bit of the message. -/
def bitStep (c : BitVec w) (b : Bool) : BitVec w :=
  if c.getLsbD 0 ^^ b then c >>> 1 ^^^ poly else c >>> 1

def serial (c : BitVec w) (bits : List Bool) : BitVec w := bits.foldl (bitStep poly) c

/-- The next byte of the message, from a table. -/
def tableStep (table : BitVec 8 → BitVec w) (c : BitVec w) (b : BitVec 8) : BitVec w :=
  c >>> 8 ^^^ table (c.setWidth 8 ^^^ b)

theorem shift_xor (a b : BitVec w) : shift poly (a ^^^ b) = shift poly a ^^^ shift poly b := by
  have hcancel : a >>> 1 ^^^ poly ^^^ (b >>> 1 ^^^ poly) = a >>> 1 ^^^ b >>> 1 := by
    rw [BitVec.xor_comm (b >>> 1), BitVec.xor_assoc, ← BitVec.xor_assoc poly, BitVec.xor_self,
      BitVec.zero_xor]
  simp only [shift, BitVec.getLsbD_xor, BitVec.ushiftRight_xor_distrib]
  cases a.getLsbD 0 <;> cases b.getLsbD 0
  · simp
  · simp [BitVec.xor_assoc]
  · simp [BitVec.xor_assoc, BitVec.xor_comm (b >>> 1)]
  · simpa using hcancel.symm

theorem shifts_xor (n : Nat) (a b : BitVec w) :
    (shift poly)^[n] (a ^^^ b) = (shift poly)^[n] a ^^^ (shift poly)^[n] b := by
  induction n generalizing a b with
  | zero => rfl
  | succ n ih => rw [Function.iterate_succ_apply, shift_xor, ih]; rfl

/-- A register whose low bits are clear only moves down. -/
theorem shifts_clear {n : Nat} {c : BitVec w} (h : ∀ i < n, c.getLsbD i = false) :
    (shift poly)^[n] c = c >>> n := by
  induction n with
  | zero => simp
  | succ n ih =>
    have hbit : (c >>> n).getLsbD 0 = false := by simpa using h n (Nat.lt_succ_self n)
    rw [Function.iterate_succ_apply', ih fun i hi => h i (Nat.lt_succ_of_lt hi), shift, hbit]
    simp [BitVec.shiftRight_add]

/-- A bit is added to the register before the shift. -/
theorem bitStep_xor {n : Nat} (hn : n + 1 ≤ w) (c : BitVec w) (b : BitVec (n + 1)) :
    shift poly (c ^^^ b.setWidth w) =
      bitStep poly c (b.getLsbD 0) ^^^ (b.extractLsb' 1 n).setWidth w := by
  have hrest : b.setWidth w >>> 1 = (b.extractLsb' 1 n).setWidth w := by
    refine BitVec.eq_of_getLsbD_eq fun i hi => ?_
    rw [BitVec.getLsbD_ushiftRight, BitVec.getLsbD_setWidth, BitVec.getLsbD_setWidth,
      BitVec.getLsbD_extractLsb']
    by_cases hin : i < n
    · simp [hi, hin, show 1 + i < w by omega]
    · simp [hin, BitVec.getLsbD_of_ge b (1 + i) (by omega)]
  have hbit : (b.setWidth w).getLsbD 0 = b.getLsbD 0 := by simp [show 0 < w by omega]
  simp only [shift, bitStep, BitVec.getLsbD_xor, BitVec.ushiftRight_xor_distrib, hbit, hrest]
  split
  · rw [BitVec.xor_assoc, BitVec.xor_comm _ poly, ← BitVec.xor_assoc]
  · rfl

/-- **A word is added to the register before as many shifts.** -/
theorem serial_bitsOf {n : Nat} (hn : n ≤ w) (c : BitVec w) (b : BitVec n) :
    serial poly c (bitsOf b) = (shift poly)^[n] (c ^^^ b.setWidth w) := by
  induction n generalizing c with
  | zero =>
    rw [BitVec.eq_nil b]
    simp [serial, bitsOf]
  | succ n ih =>
    rw [bitsOf_succ, Function.iterate_succ_apply, bitStep_xor poly hn]
    exact ih (by omega) _ _

theorem shifts_eight (c : BitVec w) :
    (shift poly)^[8] c = c >>> 8 ^^^ (shift poly)^[8] ((c.setWidth 8).setWidth w) := by
  have hsplit : c = (c.setWidth 8).setWidth w ^^^ (c >>> 8) <<< 8 := by
    refine BitVec.eq_of_getLsbD_eq fun i hi => ?_
    rw [BitVec.getLsbD_xor, BitVec.getLsbD_setWidth, BitVec.getLsbD_setWidth, BitVec.getLsbD_shiftLeft]
    by_cases hi8 : i < 8
    · simp [hi, hi8]
    · simp [hi, hi8, show 8 + (i - 8) = i by omega]
  have hhigh : (shift poly)^[8] ((c >>> 8) <<< 8) = c >>> 8 := by
    rw [shifts_clear poly fun i hi => by simp [hi]]
    refine BitVec.eq_of_getLsbD_eq fun i hi => ?_
    by_cases hi8 : 8 + i < w
    · simp [hi8]
    · simp [hi8, BitVec.getLsbD_of_ge c (8 + i) (by omega)]
  conv_lhs => rw [hsplit]
  rw [shifts_xor, hhigh, BitVec.xor_comm]

/-- **A table of eight shifts agrees with the bits one at a time.** -/
theorem foldl_tableStep {table : BitVec 8 → BitVec w} (h8 : 8 ≤ w)
    (ht : ∀ i, table i = (shift poly)^[8] (i.setWidth w)) (bs : List (BitVec 8)) (c : BitVec w) :
    bs.foldl (tableStep table) c = serial poly c (bs.flatMap bitsOf) := by
  induction bs generalizing c with
  | nil => rfl
  | cons b bs ih =>
    have hlow : (c ^^^ b.setWidth w).setWidth 8 = c.setWidth 8 ^^^ b := by
      refine BitVec.eq_of_getLsbD_eq fun i hi => ?_
      simp [hi, show i < w by omega]
    have hhigh : (c ^^^ b.setWidth w) >>> 8 = c >>> 8 := by
      refine BitVec.eq_of_getLsbD_eq fun i hi => ?_
      simp
    have hstep : tableStep table c b = serial poly c (bitsOf b) := by
      rw [serial_bitsOf poly h8, shifts_eight, hlow, hhigh, tableStep, ht]
    rw [List.foldl_cons, ih, hstep, List.flatMap_cons, serial, serial, serial, List.foldl_append]

end

end Check
