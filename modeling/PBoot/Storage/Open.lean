import PBoot.Storage.Format

/-!
# Finding the boot file system (`storage.c`)

* `mmcReadData`: whole sectors of a medium. A transfer either fails or delivers what the medium
  holds; which transfers fail is the medium's `readable`.
* `bootfsOpen`: the search for the boot file system. The four `part_info` entries are allocated
  and never cleared, and the search reads `parts[i].is_boot` with an `i` that runs up to twice the
  number of entries. `isBootByte` is that read: past the entries that were filled it yields what
  memory holds there, first the rest of the allocation, then the sector buffer behind it.
  Besides its result the search returns a `Probe` for every round of the loop.
-/

namespace PBoot

open Bytes

/-! ## Media -/

/-- `mmc->read_bl_len`. -/
def readBlLen : Nat := 512

structure Mmc where
  /-- The bytes of the medium. -/
  data : Mem
  /-- Whether the transfer of a number of sectors from a first sector on succeeds. -/
  readable : Nat → Nat → Bool

/-- `mmc_read_data`: the sectors that cover `len` bytes from `off` on. -/
def mmcReadData (mmc : Mmc) (off len : Nat) : Option (List UInt8) :=
  let sectors := (len + readBlLen - 1) / readBlLen
  let first := off / readBlLen
  if sectors = 0 ∨ mmc.readable first sectors then
    some (read mmc.data (first * readBlLen) (sectors * readBlLen))
  else none

theorem length_mmcReadData {mmc : Mmc} {off len : Nat} {bs : List UInt8}
    (h : mmcReadData mmc off len = some bs) :
    bs.length = (len + readBlLen - 1) / readBlLen * readBlLen := by
  simp only [mmcReadData] at h
  split at h
  · cases h; simp
  · cases h

/-- A read at a sector boundary delivers the medium's bytes from there on. -/
theorem mmcReadData_eq {mmc : Mmc} {off len : Nat} {bs : List UInt8}
    (h : mmcReadData mmc off len = some bs) (ho : off % 512 = 0) :
    bs = read mmc.data off ((len + 511) / 512 * 512) := by
  simp only [mmcReadData] at h
  split at h
  · cases h
    rw [show off / readBlLen * readBlLen = off by unfold readBlLen; omega]
    rfl
  · cases h

/-! ## The opened file system -/

/-- `struct bootfs`: the medium, where the file system starts on it, and the metadata that was
read into memory. -/
structure Bootfs where
  mmc : Mmc
  mmcOffset : Nat
  sb : List UInt8
  length_sb : sb.length = metaSize

/-- The memory from configuration block `i` on. -/
def Bootfs.blockFrom (fs : Bootfs) (i : Nat) : List UInt8 := fs.sb.drop (blockSize * (i + 1))

/-- `!memcmp(fs->confs_blocks[i].magic, ":BFCONF:", 8)`. -/
def Bootfs.isConf (fs : Bootfs) (i : Nat) : Bool := (fs.blockFrom i).take 8 == confMagic

/-- `!memcmp(fs->files_blocks[i].magic, ":BFILES:", 8)`. -/
def Bootfs.isFiles (fs : Bootfs) (i : Nat) : Bool := (fs.blockFrom i).take 8 == filesMagic

/-- The file system whose metadata is readable at `start` and carries the superblock's magic. -/
def openAt (mmc : Mmc) (start : Nat) : Option Bootfs :=
  match h : mmcReadData mmc start (33 * 2048) with
  | none => none
  | some sb =>
    if sb.take 8 = sbMagic then
      some { mmc, mmcOffset := start, sb, length_sb := (length_mmcReadData h).trans rfl }
    else none

theorem openAt_mmcOffset {mmc : Mmc} {start : Nat} {fs : Bootfs} (h : openAt mmc start = some fs) :
    fs.mmcOffset = start := by
  unfold openAt at h
  split at h
  · cases h
  · split at h
    · cases h
      rfl
    · cases h

/-- What is opened was read and has the magic. -/
theorem openAt_some {mmc : Mmc} {start : Nat} {sb : List UInt8} {fs : Bootfs}
    (hr : mmcReadData mmc start (33 * 2048) = some sb) (h : openAt mmc start = some fs) :
    fs.mmc = mmc ∧ fs.mmcOffset = start ∧ fs.sb = sb ∧ sb.take 8 = sbMagic := by
  unfold openAt at h
  split at h
  · cases h
  · rename_i sb' hsb
    rw [hr] at hsb
    cases hsb
    split at h
    · rename_i hm
      cases h
      exact ⟨rfl, rfl, rfl, hm⟩
    · cases h

/-- A file system that can be read and has the magic is opened. -/
theorem openAt_of_read {mmc : Mmc} {start : Nat} {sb : List UInt8}
    (h : mmcReadData mmc start (33 * 2048) = some sb) (hm : sb.take 8 = sbMagic) :
    ∃ fs, openAt mmc start = some fs ∧ fs.mmc = mmc ∧ fs.sb = sb := by
  unfold openAt
  split
  · rename_i hno
    rw [hno] at h
    cases h
  · rename_i sb' hsb
    rw [hsb] at h
    cases h
    rw [if_pos hm]
    exact ⟨_, rfl, rfl, rfl⟩

/-! ## The partition table -/

/-- `struct dos_partition`, without the cylinder, head and sector numbers. -/
structure DosPartition where
  bootInd : UInt8
  sysInd : UInt8
  start : Nat
  size : Nat
  deriving DecidableEq, Repr

/-- The partition entry of `slot` in the sector `buf`. -/
def dosPartition (buf : List UInt8) (slot : Nat) : DosPartition :=
  let p := buf.drop (0x1be + 16 * slot)
  { bootInd := p.getD 0 0, sysInd := p.getD 4 0, start := ofLe32 (p.drop 8),
    size := ofLe32 (p.drop 12) }

/-- `struct part_info`. -/
structure PartInfo where
  start : Nat
  size : Nat
  isBoot : Bool
  idx : Nat
  deriving DecidableEq, Repr, Inhabited

def partInfo (buf : List UInt8) (slot : Nat) : PartInfo :=
  let p := dosPartition buf slot
  { start := 512 * p.start, size := 512 * p.size, isBoot := p.bootInd == 0x80, idx := slot }

/-- The loop that fills `parts[]`; none when a boot indicator is invalid. -/
def collectParts (buf : List UInt8) : List Nat → List PartInfo → Option (List PartInfo)
  | [], parts => some parts
  | slot :: slots, parts =>
    let p := dosPartition buf slot
    if p.bootInd ≠ 0 ∧ p.bootInd ≠ 0x80 then none
    else if p.sysInd = 0x83 then collectParts buf slots (parts ++ [partInfo buf slot])
    else collectParts buf slots parts

/-! ## The search -/

/-- One round of the search loop. -/
structure Probe where
  /-- The index of the element of `parts[]` whose `is_boot` was read. -/
  flag : Nat
  /-- The index of the candidate, `i % part_count`. -/
  part : Nat
  /-- Whether the candidate was read and its magic checked. -/
  tried : Bool
  deriving DecidableEq, Repr

/-- The byte at `parts[i].is_boot`: the entries take 24 bytes each, and the sector buffer was
allocated next, at 128 (`ALIGN(4 * 24, 64)`) bytes from `parts`. -/
def isBootByte (heap : Mem) (buf : List UInt8) (parts : List PartInfo) (i : Nat) : UInt8 :=
  match parts[i]? with
  | some pi => if pi.isBoot then 1 else 0
  | none => write heap 128 buf (24 * i + 16)

/-- `parts[i].is_boot ^ (i / part_count)`. -/
def tryValue (heap : Mem) (buf : List UInt8) (parts : List PartInfo) (i : Nat) : Nat :=
  (isBootByte heap buf parts i).toNat ^^^ (i / parts.length)

/-- The rounds `i`, `i + 1`, ... of the search loop, as many as the first argument says. -/
def searchLoop (mmc : Mmc) (heap : Mem) (buf : List UInt8) (parts : List PartInfo) :
    Nat → Nat → Option Bootfs × List Probe
  | 0, _ => (none, [])
  | n + 1, i =>
    let tried := tryValue heap buf parts i != 0
    let k := i % parts.length
    let probe : Probe := { flag := i, part := k, tried }
    match if tried then openAt mmc (parts.getD k default).start else none with
    | some fs => (some fs, [probe])
    | none =>
      let rest := searchLoop mmc heap buf parts n (i + 1)
      (rest.1, probe :: rest.2)

structure OpenResult where
  fs : Option Bootfs
  parts : List PartInfo
  probes : List Probe

/-- The `return NULL`s before the search. -/
def OpenResult.null : OpenResult := { fs := none, parts := [], probes := [] }

/-- `bootfs_open`; `heap` is the memory that `malloc` hands out. -/
def bootfsOpen (mmc : Option Mmc) (heap : Mem) : OpenResult :=
  match mmc with
  | none => .null
  | some mmc =>
    match mmcReadData mmc 0 512 with
    | none => .null
    | some buf =>
      if buf.getD 0x1fe 0 ≠ 0x55 ∨ buf.getD 0x1ff 0 ≠ 0xaa then .null
      else
        match collectParts buf [0, 1, 2, 3] [] with
        | none => .null
        | some parts =>
          let r := searchLoop mmc heap buf parts (parts.length * 2) 0
          { fs := r.1, parts, probes := r.2 }

end PBoot
