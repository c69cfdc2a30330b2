import Mathlib.Data.Nat.ModEq
import Mathlib.Tactic.Ring

/-!
# The Armv8 stage 1 walk

The translation of an address with the 4 KiB granule, over a memory of doublewords: `translateVa` is
none where the architecture raises a fault, and where it would not walk a table at all. `leaf_eq` and
`walk_table` take one level of a walk.
-/

namespace Armv8

/-- Bits `n` to `n + k - 1`. -/
def field (n k : Nat) (d : BitVec 64) : Nat := d.toNat / 2 ^ n % 2 ^ k

/-- The registers of the translation regime. -/
structure Regs where
  mair : BitVec 64
  tcr : BitVec 64
  ttbr : BitVec 64
  sctlr : BitVec 64

/-- An access that does not fault. -/
structure Translation where
  pa : Nat
  attrIndx : Nat
  shareability : Nat
  readOnly : Bool
  deriving DecidableEq

/-- A block or page of `2 ^ shift` bytes. Without the access flag it faults. -/
def leaf (d : BitVec 64) (shift va : Nat) (readOnly : Bool) : Option Translation :=
  if field 10 1 d = 0 then none
  else some { pa := field shift (48 - shift) d * 2 ^ shift + va % 2 ^ shift, attrIndx := field 2 3 d
              shareability := field 8 2 d, readOnly := readOnly || decide (field 7 1 d = 1) }

/-- The walk over the last levels, from a table at `base`. Blocks are on levels 1 and 2, pages on
level 3; a table can take write access away from what is behind it. -/
def walk (mem : Nat → BitVec 64) (va : Nat) : Nat → Nat → Bool → Option Translation
  | 0, _, _ => none
  | n + 1, base, readOnly =>
    let shift := 12 + 9 * n
    let d := mem (base + 8 * (va / 2 ^ shift % 512))
    if field 0 1 d = 0 then none
    else if field 1 1 d = 1 then
      if n = 0 then leaf d shift va readOnly
      else walk mem va n (field 12 36 d * 2 ^ 12) (readOnly || decide (field 62 1 d = 1))
    else if n = 1 ∨ n = 2 then leaf d shift va readOnly
    else none

/-- The size of physical addresses. -/
def paBits (ps : Nat) : Nat := [32, 36, 40, 42, 44].getD ps 48

def translateVa (mem : Nat → BitVec 64) (r : Regs) (va : Nat) : Option Translation :=
  let bits := 64 - field 0 6 r.tcr
  let levels := (bits - 4) / 9
  let align := bits - 9 * levels
  if field 0 1 r.sctlr = 0 ∨ field 14 2 r.tcr ≠ 0 ∨ 2 ^ bits ≤ va then none
  else (walk mem va levels (field align (48 - align) r.ttbr * 2 ^ align) false).filter
    fun t => t.pa < 2 ^ paBits (field 16 3 r.tcr)

/-! ## Memory types -/

/-- An attribute of the indirection register. -/
def attr (mair : BitVec 64) (i : Nat) : Nat := field (8 * i) 8 mair

def isDevice (a : Nat) : Prop := a / 16 = 0 ∧ a % 4 = 0

/-- Half an attribute: write-back, transient or not. -/
def isWriteBackHalf (a : Nat) : Prop := a / 4 = 3 ∨ a / 4 = 1 ∧ a % 4 ≠ 0

def isNormalWriteBack (a : Nat) : Prop := isWriteBackHalf (a / 16) ∧ isWriteBackHalf (a % 16)

instance (a : Nat) : Decidable (isDevice a) := inferInstanceAs (Decidable (_ ∧ _))

instance (a : Nat) : Decidable (isWriteBackHalf a) := inferInstanceAs (Decidable (_ ∨ _))

instance (a : Nat) : Decidable (isNormalWriteBack a) := inferInstanceAs (Decidable (_ ∧ _))

/-! ## One level -/

section
variable {mem : Nat → BitVec 64} {d : BitVec 64} {va n base : Nat} {readOnly : Bool}

theorem walk_table (hd : mem (base + 8 * (va / 2 ^ (12 + 9 * (n + 1)) % 512)) = d)
    (hv : field 0 1 d = 1) (ht : field 1 1 d = 1) (hw : field 62 1 d = 0) :
    walk mem va (n + 2) base readOnly = walk mem va (n + 1) (field 12 36 d * 2 ^ 12) readOnly := by
  rw [walk]
  rw [hd, if_neg (by omega), if_pos ht, if_neg (by omega), hw]
  simp

theorem walk_block (hd : mem (base + 8 * (va / 2 ^ (12 + 9 * n) % 512)) = d) (hn : n = 1 ∨ n = 2)
    (hv : field 0 1 d = 1) (ht : field 1 1 d = 0) :
    walk mem va (n + 1) base readOnly = leaf d (12 + 9 * n) va readOnly := by
  rw [walk]
  rw [hd, if_neg (by omega), if_neg (by omega), if_pos hn]

/-- A field that the address of a block does not reach. -/
theorem field_of_add {n k m pa c : Nat} (h : d.toNat = pa * 2 ^ m + c) (hm : n + k ≤ m) :
    field n k d = c / 2 ^ n % 2 ^ k := by
  obtain ⟨j, rfl⟩ := Nat.exists_eq_add_of_le hm
  have hsplit : pa * 2 ^ (n + k + j) + c = 2 ^ n * (2 ^ k * (pa * 2 ^ j)) + c := by ring
  rw [field, h, hsplit, Nat.mul_add_div (Nat.two_pow_pos n), Nat.mul_add_mod]

theorem field_addr {m k pa c : Nat} (h : d.toNat = pa * 2 ^ m + c) (hc : c < 2 ^ m)
    (hpa : pa < 2 ^ k) : field m k d = pa := by
  rw [field, h, Nat.mul_comm, Nat.mul_add_div (Nat.two_pow_pos m), Nat.div_eq_of_lt hc, Nat.add_zero,
    Nat.mod_eq_of_lt hpa]

/-- A block or page that is made of an address and attributes. -/
theorem leaf_eq {shift pa c : Nat} (h : d.toNat = pa * 2 ^ shift + c) (hs : 12 ≤ shift)
    (hc : c < 2 ^ shift) (hpa : pa < 2 ^ (48 - shift)) (haf : c / 2 ^ 10 % 2 ^ 1 ≠ 0) :
    leaf d shift va readOnly = some
      { pa := pa * 2 ^ shift + va % 2 ^ shift, attrIndx := c / 2 ^ 2 % 2 ^ 3
        shareability := c / 2 ^ 8 % 2 ^ 2
        readOnly := readOnly || decide (c / 2 ^ 7 % 2 ^ 1 = 1) } := by
  rw [leaf, field_of_add h (by omega), if_neg haf, field_addr h hc hpa, field_of_add h (by omega),
    field_of_add h (by omega), field_of_add h (by omega)]

theorem field_one (n : Nat) (d : BitVec 64) : field n 1 d = (d.getLsbD n).toNat := by
  rw [field, BitVec.getLsbD, Nat.testBit_eq_decide_div_mod_eq]
  rcases Nat.mod_two_eq_zero_or_one (d.toNat / 2 ^ n) with h | h <;> simp [h]

end

end Armv8
