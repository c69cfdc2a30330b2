import PBoot.Conf.Write

/-!
# A run that stops with an error (`conf.c`)

Every error exits at once. What was written until then stays on the device: the superblock first,
then the data of the sources, then the blocks, and of the write that failed any part from its start
(a failed `lseek` or `read` writes nothing more). `O_TRUNC` does not change a block device.
-/

namespace PBoot

open Bytes

/-- The data writes of a run that stops in the loop over `data_list`: some sources are written, and
a part of the next. What was read of a source that cannot be read to its end is not known. -/
inductive DataStops (host : Host) : Nat → List (List UInt8) → List (Nat × List UInt8) → Prop
  | part {pos : Nat} {path : List UInt8} {paths : List (List UInt8)} {bs : List UInt8} :
      (∀ contents, host.contents path = some contents → bs <+: storedBytes contents) →
      DataStops host pos (path :: paths) [(pos, bs)]
  | whole {pos : Nat} {path contents : List UInt8} {paths : List (List UInt8)}
      {ws : List (Nat × List UInt8)} :
      host.contents path = some contents →
      DataStops host (nextPos pos (Extent.dataLen ⟨path, pos, storedBytes contents⟩)) paths ws →
      DataStops host pos (path :: paths) ((pos, storedBytes contents) :: ws)

/-- The writes of a run that stops with an error. -/
inductive StopWrites (host : Host) : List (Nat × List UInt8) → Prop
  /-- An error in `boot.conf` or `files/`. -/
  | conf {e : ConfError} : readConf host = .error e → StopWrites host []
  /-- The device cannot be opened. -/
  | device {t : Table} : readConf host = .ok t → StopWrites host []
  | superblock {t : Table} {bs : List UInt8} :
      readConf host = .ok t → bs <+: superblock (t.deviceId.getD []) → StopWrites host [(0, bs)]
  | data {t : Table} {ws : List (Nat × List UInt8)} :
      readConf host = .ok t → DataStops host metaSize t.data ws →
      StopWrites host ((0, PBoot.superblock (t.deviceId.getD [])) :: ws)
  /-- `n` blocks are written, and a part of the next. -/
  | blocks {t : Table} {exts : List Extent} {n : Nat} {b : MetaBlock} {bs : List UInt8} :
      readConf host = .ok t → placeData host metaSize t.data = .ok exts →
      (metaBlocks t exts 0 (List.range 32))[n]? = some b → bs <+: b.bytes →
      StopWrites host ((0, PBoot.superblock (t.deviceId.getD [])) ::
        exts.map (fun e => (e.pos, e.bytes)) ++
        (((metaBlocks t exts 0 (List.range 32)).take n).zipIdx.map fun b =>
          (blockSize * (b.2 + 1), b.1.bytes)) ++ [(blockSize * (n + 1), bs)])

end PBoot
