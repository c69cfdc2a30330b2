import PBoot.Lib.Copy

/-!
# Moving memory and finding strings (`lib.c`)

`memmove_eq`: `memmove` stores at `dest` what was at `src`, also where the two overlap.
-/

namespace PBoot

open Bytes

/-- `memmove`; the pointers are 64 bits wide and so is the difference that is compared. -/
def memmove (m : Mem) (dest src n : Nat) : Mem :=
  if dest = src then m
  else if (BitVec.ofNat 64 src - BitVec.ofNat 64 dest - BitVec.ofNat 64 n).toNat ≤
      (-(2 * BitVec.ofNat 64 n)).toNat then copyUp m dest src n
  else if dest < src then copyUp m dest src n
  else copyDown m dest src n

/-- `strstr`, for strings without their NUL. -/
def strstr (hay needle : List UInt8) : Option Nat :=
  (List.range (hay.length + 1 - needle.length)).find? fun i =>
    (hay.drop i).take needle.length == needle

/-- Up to half of the address space is moved as it should be: what the test with the wrapped
difference lets through does not overlap. -/
theorem memmove_eq {dest src n : Nat} (m : Mem) (hd : dest + n ≤ 2 ^ 64) (hs : src + n ≤ 2 ^ 64)
    (hn : n ≤ 2 ^ 63) : memmove m dest src n = write m dest (read m src n) := by
  unfold memmove
  split
  · rename_i h
    rw [h, write_read]
  rename_i hne
  split
  · rename_i hle
    refine copyUp_eq m ?_
    by_cases h0 : n = 0
    · omega
    have htest : (2 ^ 64 - n % 2 ^ 64 + (2 ^ 64 - dest % 2 ^ 64 + src)) % 2 ^ 64 ≤
        (2 ^ 64 - 2 * n % 2 ^ 64) % 2 ^ 64 := by
      simpa [BitVec.toNat_sub, BitVec.toNat_neg, BitVec.toNat_mul] using hle
    omega
  split
  · exact copyUp_eq m (by omega)
  · exact copyDown_eq m (by omega)

/-- **`memmove` moves, also where the two places overlap**: at `dest` is then what was at `src`, and
nothing else has changed. -/
theorem memmove_moves {dest src n : Nat} (m : Mem) (hd : dest + n ≤ 2 ^ 64) (hs : src + n ≤ 2 ^ 64)
    (hn : n ≤ 2 ^ 63) : read (memmove m dest src n) dest n = read m src n ∧
      ∀ i, i < dest ∨ dest + n ≤ i → memmove m dest src n i = m i := by
  rw [memmove_eq m hd hs hn]
  constructor
  · have hread := read_write_same m dest (read m src n)
    rwa [length_read] at hread
  · intro i hi
    rcases hi with hi | hi
    · exact write_of_lt hi
    · exact write_of_ge (by rw [length_read]; exact hi)

theorem memmove_moves_up : read (memmove (fun i => UInt8.ofNat i) 2 0 4) 2 4 = [0, 1, 2, 3] ∧
    memmove (fun i => UInt8.ofNat i) 2 0 4 6 = 6 := by
  have h := memmove_moves (fun i => UInt8.ofNat i) (by decide : 2 + 4 ≤ 2 ^ 64)
    (by decide : 0 + 4 ≤ 2 ^ 64) (by decide)
  exact ⟨h.1, h.2 6 (by decide)⟩

end PBoot
