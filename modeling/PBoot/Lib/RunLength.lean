import PBoot.Lib.Bytes

/-!
# Run-length packets

A stream of packets that each start with a header byte: a run (header `0x80 + n`, then the byte that
is repeated `n` times) or a literal (header `n`, then `n` bytes), with counts of at most 127.

* `Packet.bytes` and `Packet.expand`: what a packet is written as, and what it stands for.
* `Packet.header_run`, `Packet.header_literal`: what a reader finds in a header.
-/

namespace RunLength

/-- A byte repeated, or bytes as they are. -/
inductive Packet where
  | run (n : Nat) (b : UInt8)
  | literal (bs : List UInt8)
  deriving DecidableEq, Repr

/-- The count fits the header. -/
def Packet.Fits : Packet → Prop
  | .run n _ => n ≤ 127
  | .literal bs => bs.length ≤ 127

/-- The bytes that it stands for. -/
def Packet.expand : Packet → List UInt8
  | .run n b => List.replicate n b
  | .literal bs => bs

/-- How it is stored. -/
def Packet.bytes : Packet → List UInt8
  | .run n b => [UInt8.ofNat (0x80 + n), b]
  | .literal bs => UInt8.ofNat bs.length :: bs

theorem Packet.header_run {n : Nat} (h : n ≤ 127) :
    UInt8.ofNat (0x80 + n) &&& 0x80 ≠ 0 ∧ (UInt8.ofNat (0x80 + n) &&& 0x7f).toNat = n := by
  have hall : ∀ n : Fin 128, UInt8.ofNat (0x80 + n.val) &&& 0x80 ≠ 0 ∧
      (UInt8.ofNat (0x80 + n.val) &&& 0x7f).toNat = n.val := by decide
  exact hall ⟨n, by omega⟩

theorem Packet.header_literal {n : Nat} (h : n ≤ 127) :
    UInt8.ofNat n &&& 0x80 = 0 ∧ (UInt8.ofNat n &&& 0x7f).toNat = n := by
  have hall : ∀ n : Fin 128, UInt8.ofNat n.val &&& 0x80 = 0 ∧
      (UInt8.ofNat n.val &&& 0x7f).toNat = n.val := by decide
  exact hall ⟨n, by omega⟩

end RunLength
