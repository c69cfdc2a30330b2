import PBoot.Lib.Bytes

/-!
# What C string functions access

Strings in memory that may lack their terminator.

* `StrReads m s b`: `strlen(s)` reads the byte at `b`. `strcmp` with a literal reads `StrcmpReads`.
* `StrCopy`: `memcpy(dest, s, strlen(s) + 1)` of a string that belongs to a field.
  `StrCopy.stays_iff`: it stays in the field and in the destination exactly when the field holds a
  NUL.
-/

namespace CString

open Bytes

/-! ## Reads -/

/-- `strlen(s)` goes on until it has read a NUL. -/
def StrReads (m : Mem) (s b : Nat) : Prop := s ≤ b ∧ ∀ k < b, s ≤ k → m k ≠ 0

/-- The bytes at `l` that `strcmp(l, r)` reads: it stops behind a difference and behind a NUL. -/
def StrcmpReads (m : Mem) (l : Nat) (r : List UInt8) (b : Nat) : Prop :=
  l ≤ b ∧ ∀ k < b, l ≤ k → m k = (r ++ [0]).getD (k - l) 0 ∧ m k ≠ 0

instance (m : Mem) (s b : Nat) : Decidable (StrReads m s b) := inferInstanceAs (Decidable (_ ∧ _))

instance (m : Mem) (l : Nat) (r : List UInt8) (b : Nat) : Decidable (StrcmpReads m l r b) :=
  inferInstanceAs (Decidable (_ ∧ _))

section
variable {m : Mem} {s n : Nat}

/-- `strlen` stays within `n` bytes exactly when one of them is NUL. -/
theorem strReads_lt_iff : (∀ b, StrReads m s b → b < s + n) ↔ ∃ k < n, m (s + k) = 0 := by
  constructor
  · intro h
    by_contra hno
    refine absurd (h (s + n) ⟨by omega, fun k hk hs h0 => hno ⟨k - s, by omega, ?_⟩⟩) (by omega)
    rwa [show s + (k - s) = k by omega]
  · rintro ⟨k, hk, h0⟩ b ⟨-, hb⟩
    by_contra hlt
    exact hb (s + k) (by omega) (by omega) h0

/-- `strcmp` with a literal does not get further than the literal's NUL. -/
theorem strcmpReads_le {r : List UInt8} {b : Nat} (h : StrcmpReads m s r b) : b ≤ s + r.length := by
  obtain ⟨-, hb⟩ := h
  by_contra hlt
  obtain ⟨heq, hne⟩ := hb (s + r.length) (by omega) (by omega)
  rw [heq] at hne
  simp at hne

end

/-! ## Copies -/

/-- A copy of the string at `src`, from a field of `field` bytes to a buffer of `dest` bytes. -/
structure StrCopy where
  src : Nat
  field : Nat
  dest : Nat

/-- Every byte that is read belongs to the field, and is written within the buffer. -/
def StrCopy.Stays (m : Mem) (c : StrCopy) : Prop :=
  ∀ b, StrReads m c.src b → b < c.src + c.field ∧ b - c.src < c.dest

/-- **A copy to a buffer that is large enough for the field stays in both** exactly when the field
holds a NUL. -/
theorem StrCopy.stays_iff {m : Mem} {c : StrCopy} (h : c.field ≤ c.dest) :
    c.Stays m ↔ ∃ k < c.field, m (c.src + k) = 0 := by
  rw [← strReads_lt_iff]
  refine forall_congr' fun b => imp_congr_right fun hb => ?_
  have := hb.1
  omega

end CString
