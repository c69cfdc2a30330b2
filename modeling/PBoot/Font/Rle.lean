import PBoot.Lib.Bytes

/-!
# Run-length coding of the font (`fonts/mkbin.c`, `vidconsole.c`)

`rle` and `encSize` are what `mkbin` writes a font with, `unrle` is what the console reads it with.
Both sides see memory: the encoder looks one byte ahead, past the end of what it encodes. The two
inner loops of the encoder count the same bytes (`skipSize_eq`), which is also why they get on
(`round_progress`, `encSize_progress`).
-/

namespace PBoot

open Bytes

/-- The inner loop of `rle`, from `pin` on with room for some bytes: the number of bytes that are
skipped, `-packet_size`. -/
def literalSize (inp : Mem) (sizein : Nat) : Nat → Nat → Nat
  | 0, _ => 0
  | room + 1, pin =>
    if inp pin ≠ inp (pin + 1) then
      if sizein ≤ pin then 0 else literalSize inp sizein room (pin + 1) + 1
    else 0

/-- Where a packet that is not a run starts: behind the run that was written before it, if any. -/
def afterRun (pin packetSize : Nat) : Nat := if 0 < packetSize then pin + 1 else pin

/-- Every round gets on. -/
theorem round_progress {inp : Mem} {sizein pin packetSize : Nat} (h : pin < sizein)
    (hr : ¬(inp pin = inp (pin + 1) ∧ packetSize < 0x7f - 1)) :
    pin < afterRun pin packetSize + literalSize inp sizein 127 (afterRun pin packetSize) := by
  unfold afterRun
  split
  · omega
  · rename_i h0
    have hne : inp pin ≠ inp (pin + 1) := fun he => hr ⟨he, by omega⟩
    rw [literalSize, if_pos hne, if_neg (by omega)]
    omega

/-- The inner loop of `enc_size`, from `pin` on with `size` bytes skipped: `-packet_size` at its
end. -/
def skipSize (inp : Mem) (sizein size pin : Nat) : Nat :=
  if inp pin ≠ inp (pin + 1) ∧ ¬(sizein ≤ pin ∨ 0x7f - 1 < size) then
    skipSize inp sizein (size + 1) (pin + 1)
  else size
termination_by 0x7f - size

theorem skipSize_eq {inp : Mem} {sizein size room : Nat} (h : size + room = 127) (pin : Nat) :
    skipSize inp sizein size pin = size + literalSize inp sizein room pin := by
  induction room generalizing size pin with
  | zero =>
    rw [skipSize, if_neg (fun hs => hs.2 (.inr (by omega)))]
    rfl
  | succ room ih =>
    rw [skipSize, literalSize]
    by_cases hne : inp pin = inp (pin + 1)
    · rw [if_neg (fun hs => hs.1 hne), if_neg (not_not.2 hne), Nat.add_zero]
    · rw [if_pos hne]
      by_cases hend : sizein ≤ pin
      · rw [if_neg (fun hs => hs.2 (.inl hend)), if_pos hend, Nat.add_zero]
      · rw [if_pos ⟨hne, by omega⟩, if_neg hend, ih (by omega)]
        omega

theorem encSize_progress {inp : Mem} {sizein pin packetSize : Nat} (h : pin < sizein)
    (hr : ¬(inp pin = inp (pin + 1) ∧ packetSize < 0x7f - 1)) :
    pin < afterRun pin packetSize + skipSize inp sizein 0 (afterRun pin packetSize) := by
  rw [skipSize_eq (Nat.zero_add 127), Nat.zero_add]
  exact round_progress h hr

/-- The loop of `enc_size`. -/
def encSizeFrom (inp : Mem) (sizein pin packetSize : Nat) : Nat :=
  if h : pin < sizein then
    if hr : inp pin = inp (pin + 1) ∧ packetSize < 0x7f - 1 then
      encSizeFrom inp sizein (pin + 1) (packetSize + 1)
    else
      have := encSize_progress h hr
      let n := skipSize inp sizein 0 (afterRun pin packetSize)
      (if 0 < packetSize then 2 else 0) + (n + 1) +
        encSizeFrom inp sizein (afterRun pin packetSize + n) 0
  else 0
termination_by sizein - pin

/-- The number of bytes `rle` writes. -/
def encSize (inp : Mem) (sizein : Nat) : Nat := encSizeFrom inp sizein 0 0

/-- The loop of `rle`. -/
def rleFrom (inp : Mem) (sizein pin packetSize : Nat) : List UInt8 :=
  if h : pin < sizein then
    if hr : inp pin = inp (pin + 1) ∧ packetSize < 0x7f - 1 then
      rleFrom inp sizein (pin + 1) (packetSize + 1)
    else
      have := round_progress h hr
      let run := if 0 < packetSize then
        [UInt8.ofNat (2 ^ 7 + ((packetSize + 1) &&& 0x7f)), inp pin] else []
      let n := literalSize inp sizein 127 (afterRun pin packetSize)
      run ++ UInt8.ofNat (n &&& 0x7f) :: read inp (afterRun pin packetSize) n ++
        rleFrom inp sizein (afterRun pin packetSize + n) 0
  else []
termination_by sizein - pin

/-- The bytes that `rle` writes to `out`, which has to hold `enc_size` bytes: the `out_rle` of `main`
has 16384, which a font of 16320 bytes without repeats overruns. -/
def rle (inp : Mem) (sizein : Nat) : List UInt8 := rleFrom inp sizein 0 0

/-- `unrle`, from `pos` up to `stop`: the bytes it puts to `out`, and where it has got to when it is
done. -/
def unrleTo (m : Mem) (pos stop : Nat) : List UInt8 × Nat :=
  if pos < stop then
    let header := m pos
    let size := (header &&& 0x7f).toNat
    if header &&& 0x80 ≠ 0 then
      let rest := unrleTo m (pos + 2) stop
      (List.replicate size (m (pos + 1)) ++ rest.1, rest.2)
    else
      let rest := unrleTo m (pos + 1 + size) stop
      (read m (pos + 1) size ++ rest.1, rest.2)
  else ([], pos)
termination_by stop - pos

/-- The bytes that `unrle` puts to `out`. -/
def unrle (m : Mem) (pos stop : Nat) : List UInt8 := (unrleTo m pos stop).1

end PBoot
