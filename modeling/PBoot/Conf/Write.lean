import PBoot.Conf.Parse
import PBoot.Storage.Open

/-!
# Writing the boot file system (`conf.c`)

What `main` does with the table: the data of the sources goes to the device from `metaSize` on, one
after another at multiples of 512, then the 32 blocks are written, a configuration for every slot
that is taken and a list of at most 51 files for every other one as long as there are files left.

* `placeData`: the loop over `data_list`, with the extents it gives to the sources.
* `metaBlocks`: the loop over the blocks; a `MetaBlock` is a block before it is turned to bytes.
* `confWrites`: the writes to the device, in order. `pBootConf_ok`: a device after a run that goes
  well is the device before with these writes.
-/

namespace PBoot

open Bytes Runs

/-! ## Data -/

def uImageMagic : List UInt8 := [0x27, 0x05, 0x19, 0x56]

/-- What `write_fd_checked` stores of a file: its contents, without the uImage header. -/
def storedBytes (contents : List UInt8) : List UInt8 :=
  if 64 ≤ contents.length ∧ contents.take 4 = uImageMagic then contents.drop 64 else contents

/-- A source that was written: its resolved path, where it was written and what. -/
structure Extent where
  path : List UInt8
  pos : Nat
  bytes : List UInt8

/-- `d->offset`, a `uint32_t`. -/
def Extent.dataOff (e : Extent) : Nat := e.pos % 2 ^ 32

/-- `d->size`, a `uint32_t`. -/
def Extent.dataLen (e : Extent) : Nat := e.bytes.length % 2 ^ 32

/-- `off_i` after a source of `size` bytes at `pos`. -/
def nextPos (pos size : Nat) : Nat :=
  if (pos + size) % 512 ≠ 0 then pos + size + (512 - (pos + size) % 512) else pos + size

/-- The loop over `data_list`. -/
def placeData (host : Host) : Nat → List (List UInt8) → Except ConfError (List Extent)
  | _, [] => .ok []
  | pos, path :: paths =>
    match host.contents path with
    | none => .error .failedWriting
    | some contents => do
      let e : Extent := { path, pos, bytes := storedBytes contents }
      let es ← placeData host (nextPos pos e.dataLen) paths
      .ok (e :: es)

/-! ## Blocks -/

/-- `offset` and `size` of a source; they are 0 as long as it was not written. -/
def extentOf (exts : List Extent) (path : List UInt8) : Nat × Nat :=
  match exts.find? fun e => e.path == path with
  | some e => (e.dataOff, e.dataLen)
  | none => (0, 0)

def bootfsImage (exts : List Extent) (im : BConfImage) : BootfsImage :=
  { type := im.type, dataOff := (extentOf exts im.data).1, dataLen := (extentOf exts im.data).2 }

def bootfsFile (exts : List Extent) (f : ConfFile) : BootfsFile :=
  { name := f.name, dataOff := (extentOf exts f.data).1, dataLen := (extentOf exts f.data).2 }

/-- What a block is written from. -/
inductive MetaBlock where
  | conf (images : List BootfsImage) (bootArgs name : List UInt8)
  | files (entries : List BootfsFile)
  | zero

def MetaBlock.bytes : MetaBlock → List UInt8
  | .conf images bootArgs name => confBlock images bootArgs name
  | .files entries => filesBlock entries
  | .zero => List.replicate 2048 0

/-- The loop over the blocks of some slots; the first argument is `files_written`. -/
def metaBlocks (t : Table) (exts : List Extent) : Nat → List Nat → List MetaBlock
  | _, [] => []
  | written, i :: is =>
    match t.confs i with
    | some c =>
      .conf (c.images.map (bootfsImage exts)) c.bootargs c.name :: metaBlocks t exts written is
    | none =>
      if written < t.files.length then
        let rem := min (t.files.length - written) 51
        .files (((t.files.drop written).take rem).map (bootfsFile exts)) ::
          metaBlocks t exts (written + rem) is
      else .zero :: metaBlocks t exts written is

/-! ## The device -/

/-- The writes, in order. -/
def confWrites (t : Table) (exts : List Extent) : List (Nat × List UInt8) :=
  (0, superblock (t.deviceId.getD [])) :: exts.map (fun e => (e.pos, e.bytes)) ++
    (metaBlocks t exts 0 (List.range 32)).zipIdx.map fun b => (blockSize * (b.2 + 1), b.1.bytes)

/-- An open block device or file and how far it can be written. -/
structure BlkDev where
  data : Mem
  size : Nat

/-- `lseek_checked` and `write_checked`. -/
def writeChecked (dev : BlkDev) (w : Nat × List UInt8) : Except ConfError BlkDev :=
  if w.2 = [] ∨ w.1 + w.2.length ≤ dev.size then
    .ok { dev with data := write dev.data w.1 w.2 }
  else .error .failedWriting

/-- The part of `main` that writes. -/
def writeConf (host : Host) (t : Table) (dev : BlkDev) : Except ConfError BlkDev := do
  let exts ← placeData host metaSize t.data
  (confWrites t exts).foldlM writeChecked dev

/-- `p-boot-conf`; `dev` is none when the device cannot be opened. -/
def pBootConf (host : Host) (dev : Option BlkDev) : Except ConfError BlkDev := do
  let t ← readConf host
  match dev with
  | none => .error .cantOpenBlkDev
  | some dev => writeConf host t dev

/-! ## A run that goes well -/

theorem foldlM_writeChecked {ws : List (Nat × List UInt8)} {dev out : BlkDev}
    (h : ws.foldlM writeChecked dev = .ok out) : out.data = poke dev.data ws := by
  have hs : ∀ (pre : List (Nat × List UInt8)) (w : Nat × List UInt8) (d d' : BlkDev),
      d.data = poke dev.data pre → writeChecked d w = .ok d' →
      d'.data = poke dev.data (pre ++ [w]) := by
    intro pre w d d' hd hw
    unfold writeChecked at hw
    split at hw
    · cases hw
      rw [poke_append, ← hd]
      rfl
    · cases hw
  exact foldlM_ok hs rfl h

theorem foldlM_writeChecked_of_room {ws : List (Nat × List UInt8)} {dev : BlkDev}
    (h : ∀ w ∈ ws, w.1 + w.2.length ≤ dev.size) : ∃ out, ws.foldlM writeChecked dev = .ok out := by
  induction ws generalizing dev with
  | nil => exact ⟨dev, rfl⟩
  | cons w ws ih =>
    obtain ⟨hw, hws⟩ := List.forall_mem_cons.1 h
    have hstep : writeChecked dev w = .ok { dev with data := write dev.data w.1 w.2 } :=
      if_pos (Or.inr hw)
    obtain ⟨out, hout⟩ := @ih { dev with data := write dev.data w.1 w.2 } hws
    exact ⟨out, bind_ok.2 ⟨_, hstep, hout⟩⟩

/-- The device before, the table and the extents of a run that ends with `out`. -/
structure ConfRun (host : Host) (out : BlkDev) where
  dev : BlkDev
  table : Table
  exts : List Extent
  read : readConf host = .ok table
  place : placeData host metaSize table.data = .ok exts
  data : out.data = poke dev.data (confWrites table exts)

theorem pBootConf_ok {host : Host} {dev : Option BlkDev} {out : BlkDev}
    (h : pBootConf host dev = .ok out) : Nonempty (ConfRun host out) := by
  obtain ⟨t, ht, h⟩ := bind_ok.1 h
  cases dev with
  | none => cases h
  | some dev =>
    obtain ⟨exts, he, h⟩ := bind_ok.1 h
    exact ⟨⟨dev, t, exts, ht, he, foldlM_writeChecked h⟩⟩

theorem pBootConf_data {host : Host} {dev out : BlkDev} {t : Table} {exts : List Extent}
    (h : pBootConf host (some dev) = .ok out) (ht : readConf host = .ok t)
    (he : placeData host metaSize t.data = .ok exts) :
    out.data = poke dev.data (confWrites t exts) := by
  obtain ⟨t', ht', h⟩ := bind_ok.1 h
  obtain ⟨exts', he', h⟩ := bind_ok.1 h
  rw [ht] at ht'
  cases ht'
  rw [he] at he'
  cases he'
  exact foldlM_writeChecked h

/-- The table and the extents are the tool's, whatever the device. -/
theorem ConfRun.unique {host : Host} {out : BlkDev} (r : ConfRun host out) {t : Table}
    {exts : List Extent} (ht : readConf host = .ok t) (he : placeData host metaSize t.data = .ok exts) :
    r.table = t ∧ r.exts = exts := by
  have h1 := r.read
  have h2 := r.place
  rw [ht] at h1
  cases h1
  rw [he] at h2
  cases h2
  exact ⟨rfl, rfl⟩

end PBoot
