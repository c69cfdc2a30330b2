import PBoot.Lib.Bytes

/-!
# Copying bytes one by one

`copyUp` copies from the first byte on and `copyDown` from the last one on. Both are one `write` of
what was there before, `copyUp` unless the destination starts within the source (`copyUp_eq`) and
`copyDown` unless the source starts within the destination (`copyDown_eq`).
-/

namespace Bytes

/-- `for (; n; n--) *d++ = *s++;` -/
def copyUp (m : Mem) (d s : Nat) : Nat → Mem
  | 0 => m
  | n + 1 => copyUp (write m d [m s]) (d + 1) (s + 1) n

/-- `while (n) n--, d[n] = s[n];` -/
def copyDown (m : Mem) (d s : Nat) : Nat → Mem
  | 0 => m
  | n + 1 => copyDown (write m (d + n) [m (s + n)]) d s n

theorem copyUp_eq {d s n : Nat} (m : Mem) (h : d ≤ s ∨ s + n ≤ d) :
    copyUp m d s n = write m d (read m s n) := by
  induction n generalizing m d s with
  | zero => exact (write_nil m d).symm
  | succ n ih =>
    have hread : read (write m d [m s]) (s + 1) n = read m (s + 1) n :=
      read_write_of_disjoint (by rw [List.length_singleton]; omega)
    rw [copyUp, ih _ (by omega), hread]
    exact (write_append m d [m s] _).symm

theorem copyDown_eq {d s n : Nat} (m : Mem) (h : s ≤ d ∨ d + n ≤ s) :
    copyDown m d s n = write m d (read m s n) := by
  induction n generalizing m with
  | zero => exact (write_nil m d).symm
  | succ n ih =>
    have hread : read (write m (d + n) [m (s + n)]) s n = read m s n :=
      read_write_of_disjoint (by rw [List.length_singleton]; omega)
    rw [copyDown, ih _ (by omega), hread, read_add, write_append, length_read]
    exact (write_comm m (by rw [length_read])).symm

end Bytes
