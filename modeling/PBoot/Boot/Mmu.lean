import PBoot.Lib.Arrays
import PBoot.Lib.Walk

/-!
# The page tables (`mmu.c`)

`mmuSetup` is what the memory and the registers hold when the MMU is on.
-/

namespace PBoot

open Armv8 Arrays

/-! ## Macros -/

def mairDevNGnRE : BitVec 64 := 0x4
def mairNormNc : BitVec 64 := 0x4
def mairNormWbNtrRwa : BitVec 64 := 0xf

def mairMem (inner outer : BitVec 64) : BitVec 64 := inner ||| (outer <<< 4)
def mairAttr (index : Nat) (attr : BitVec 64) : BitVec 64 := attr <<< (index * 8)

def attrNormal : Nat := 0
def attrDev : Nat := 1
def attrNc : Nat := 2

def blockDesc : BitVec 64 := 0x1
def tableDesc : BitVec 64 := 0x3

def apRw : BitVec 64 := 0 <<< 5
def apOneVaRangeRes1 : BitVec 64 := 1 <<< 4
def accessFlag : BitVec 64 := 1 <<< 8
def osh : BitVec 64 := 2 <<< 6
def ish : BitVec 64 := 3 <<< 6

def lowerAttrs (x : BitVec 64) : BitVec 64 := (x &&& 0xfff) <<< 2

def pteDev (pa : BitVec 64) : BitVec 64 :=
  blockDesc ||| pa ||| lowerAttrs (accessFlag ||| osh ||| apRw ||| apOneVaRangeRes1 ||| .ofNat 64 attrDev)

def pteMem (pa : BitVec 64) : BitVec 64 :=
  blockDesc ||| pa ||| lowerAttrs (accessFlag ||| ish ||| apRw ||| apOneVaRangeRes1 ||| .ofNat 64 attrNormal)

def pteTab (pa : BitVec 64) : BitVec 64 := tableDesc ||| pa

/-! ## `mmu_setup` -/

/-- 8 KiB from the end of DRAM. -/
def ttBase (dramSize : Nat) : Nat := (0x40000000 + dramSize - 4096 * 2) % 2 ^ 64

/-- The stores that fill the tables; an entry has eight bytes. -/
def tableStores (ttBase : Nat) : List (Nat × BitVec 64) :=
  let l1 := ttBase
  let l2 := ttBase + 8 * 512
  (l1, pteTab (.ofNat 64 l2)) ::
    ((List.range' 1 3).map fun i => (l1 + 8 * i, pteMem ((1024 * BitVec.ofNat 64 i) <<< 20))) ++
    (l2, pteMem ((2 * 0) <<< 20)) ::
    ((List.range' 1 511).map fun i => (l2 + 8 * i, pteDev ((2 * BitVec.ofNat 64 i) <<< 20)))

/-- Inner shareable, write-back, 4 KiB pages and 4 GiB of addresses. -/
def tcrEl3 : BitVec 64 :=
  let t0sz := 32
  t0sz ||| (0 <<< 14) ||| (0x3 <<< 12) ||| (0x1 <<< 10) ||| (0x1 <<< 8) |||
    ((1 <<< 31) ||| (1 <<< 23)) ||| (0 <<< 16)

def mairEl3 : BitVec 64 :=
  mairAttr attrDev mairDevNGnRE ||| mairAttr attrNormal (mairMem mairNormWbNtrRwa mairNormWbNtrRwa) |||
    mairAttr attrNc (mairMem mairNormNc mairNormNc)

def mmuSetup (dramSize : Nat) (mem : Nat → BitVec 64) (sctlr : BitVec 64) :
    (Nat → BitVec 64) × Regs :=
  (store mem (tableStores (ttBase dramSize)),
    { mair := mairEl3, tcr := tcrEl3, ttbr := .ofNat 64 (ttBase dramSize)
      sctlr := sctlr ||| ((1 <<< 2) ||| (1 <<< 0)) })

end PBoot
