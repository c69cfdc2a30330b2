import PBoot.Lib.Run
import PBoot.Log.Printf

/-!
# Dumping registers (`dump_regs` in `debug.c`)

`dumpStep` is one round of the loop, on `uint32_t`. What a register yields may depend on the
registers that were read before.
-/

namespace PBoot

open Bytes

/-- The variables of the loop, the registers that were read, in order, and what was logged. -/
structure DumpState where
  start : BitVec 32
  reads : List (BitVec 32)
  log : List UInt8

/-- A `uint32_t` argument. -/
def u32Arg (v : BitVec 32) : PrintfArg := ⟨v.setWidth 64, []⟩

/-- What `printf` logs; it goes well with every format that has a terminator. -/
def logPrintf (fmt : List UInt8) (args : List PrintfArg) : List UInt8 :=
  (realPrintf (fmt ++ [0]) fun n => args.getD n ⟨0, []⟩).getD []

/-- The line over the dump. -/
def dumpTitle (start len : BitVec 32) (name : List UInt8) : List UInt8 :=
  logPrintf (ascii "\n# %s (0x%08x - 0x%08x):\n\n") [⟨0, name⟩, u32Arg start, u32Arg (start + len - 4)]

/-- The line of a register that is not zero. -/
def dumpLine (start val : BitVec 32) : List UInt8 :=
  logPrintf (ascii "0x%08x : %08x\n") [u32Arg start, u32Arg val]

/-- One round of the loop. -/
def dumpStep (readl : List (BitVec 32) → BitVec 32 → BitVec 32) (len : BitVec 32) (s : DumpState) :
    DumpState ⊕ (List (BitVec 32) × List UInt8) :=
  if s.start < s.start + len then
    let val := readl s.reads s.start
    .inl { start := s.start + 4, reads := s.reads ++ [s.start]
           log := s.log ++ if val ≠ 0 then dumpLine s.start val else [] }
  else .inr (s.reads, s.log)

/-- `dump_regs` before its loop. -/
def dumpInit (start len : BitVec 32) (name : List UInt8) : DumpState :=
  { start, reads := [], log := dumpTitle start len name }

/-! ## The dumps of the program -/

/-- A call of `dump_regs`. -/
structure DumpCall where
  start : BitVec 32
  len : BitVec 32
  name : List UInt8

/-- `dump_de2_registers`. -/
def dumpDe2Registers : List DumpCall :=
  [⟨0x01000000, 0x14, ascii "de2"⟩, ⟨0x01100000 + 0x0000, 0x10, ascii "mixer0 GLB"⟩,
    ⟨0x01100000 + 0x1000, 0x100, ascii "mixer0 BLD"⟩,
    ⟨0x01100000 + 0x2000, 0x100, ascii "mixer0 VI"⟩,
    ⟨0x01100000 + 0x3000, 0x8c, ascii "mixer0 UI1"⟩,
    ⟨0x01100000 + 0x4000, 0x8c, ascii "mixer0 UI2"⟩,
    ⟨0x01100000 + 0x5000, 0x8c, ascii "mixer0 UI3"⟩]

/-- `dump_dsi_registers`. -/
def dumpDsiRegisters : List DumpCall :=
  [⟨0x01c0c000, 0x200, ascii "tcon"⟩, ⟨0x01ca1000, 0x100, ascii "dphy"⟩,
    ⟨0x01ca0000, 0x1000, ascii "dsi"⟩]

/-- `dump_ccu_registers`. -/
def dumpCcuRegisters : List DumpCall := [⟨0x01c20000, 0x1000, ascii "ccu"⟩]

end PBoot
