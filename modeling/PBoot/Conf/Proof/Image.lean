import PBoot.Conf.Proof.Table
import PBoot.Conf.Write
import PBoot.Storage.Load

/-!
# The written image, read back

* `mediumAt`: a medium with an image at a sector boundary.
* `openImage_of_magic`, `holds_of_open`: an image is opened when it has the magic, and what is opened
  has its contents (`Holds`).
* `openImage_written`: the boot file system in an image that `p-boot-conf` wrote is opened, and
  its blocks are the ones that were written (`Shows`). The data cannot reach the metadata, so this
  holds for sources of any size.
* `Shows.isConf_iff`, `Shows.isFiles`, `Shows.texts`: what a block shows.
-/

namespace PBoot

open Bytes

/-! ## Media with an image -/

/-- A medium that holds an image from byte `start` on, and can be read. -/
def mediumAt (before : Mem) (start : Nat) (image : Mem) : Mmc where
  data a := if a < start then before a else image (a - start)
  readable _ _ := true

/-- The boot file system of an image that starts at a sector of a medium. -/
def openImage (before : Mem) (sector : Nat) (image : Mem) : Option Bootfs :=
  openAt (mediumAt before (512 * sector) image) (512 * sector)

section
variable (before : Mem) (sector : Nat) (image : Mem)

theorem read_mediumAt (start a n : Nat) :
    read (mediumAt before start image).data (start + a) n = read image a n :=
  read_congr fun i _ => by
    show (if start + a + i < start then before _ else image (start + a + i - start)) = _
    rw [if_neg (by omega), Nat.add_assoc, Nat.add_sub_cancel_left]

theorem mmcReadData_mediumAt {off len : Nat} (ho : off % 512 = 0) :
    mmcReadData (mediumAt before (512 * sector) image) (512 * sector + off) len =
      some (read image off (roundUp512 len)) := by
  have hsome : ∃ bs, mmcReadData (mediumAt before (512 * sector) image) (512 * sector + off) len =
      some bs := by
    unfold mmcReadData
    dsimp only
    rw [if_pos (Or.inr (by rfl))]
    exact ⟨_, rfl⟩
  obtain ⟨bs, hbs⟩ := hsome
  rw [hbs, mmcReadData_eq hbs (by omega), read_mediumAt]
  rfl

theorem mmcReadData_metadata :
    mmcReadData (mediumAt before (512 * sector) image) (512 * sector) (33 * 2048) =
      some (read image 0 metaSize) := by
  have h : mmcReadData (mediumAt before (512 * sector) image) (512 * sector + 0) (33 * 2048) =
      some (read image 0 (roundUp512 (33 * 2048))) :=
    mmcReadData_mediumAt before sector image rfl
  rwa [Nat.add_zero] at h

end

/-- The boot file system `fs` was opened from `image`. -/
structure Holds (fs : Bootfs) (image : Mem) : Prop where
  aligned : fs.mmcOffset % 512 = 0
  reads : ∀ off len, off % 512 = 0 →
    mmcReadData fs.mmc (fs.mmcOffset + off) len = some (read image off (roundUp512 len))
  extent : ∀ off len, fs.extent off len = read image off len
  sb : fs.sb = read image 0 metaSize

/-- It also shows the blocks `bs`. -/
structure Shows (fs : Bootfs) (image : Mem) (bs : List MetaBlock) : Prop extends Holds fs image where
  block : ∀ i b, bs[i]? = some b → ∃ rest, fs.blockFrom i = b.bytes ++ rest

section
variable (before : Mem) (sector : Nat) {image : Mem} {fs : Bootfs}

theorem holds_of_open (h : openImage before sector image = some fs) :
    Holds fs image ∧ read image 0 8 = sbMagic := by
  obtain ⟨hmmc, hoff, hsb, hmagic⟩ := openAt_some (mmcReadData_metadata before sector image) h
  have hext : ∀ off len, fs.extent off len = read image off len := fun off len => by
    rw [Bootfs.extent, hmmc, hoff]
    exact read_mediumAt before image _ off len
  refine ⟨⟨by rw [hoff]; omega, fun off len ho => ?_, hext, hsb⟩, ?_⟩
  · rw [hmmc, hoff]
    exact mmcReadData_mediumAt before sector image ho
  · rw [← hmagic, take_read]
    rfl

/-- An image with the superblock's magic is opened. -/
theorem openImage_of_magic (h : read image 0 8 = sbMagic) :
    ∃ fs, openImage before sector image = some fs ∧ Holds fs image := by
  have hmagic : (read image 0 metaSize).take 8 = sbMagic := by
    rw [take_read]
    exact h
  obtain ⟨fs, hfs, -⟩ := openAt_of_read (mmcReadData_metadata before sector image) hmagic
  exact ⟨fs, hfs, (holds_of_open before sector hfs).1⟩

/-- The block of slot `i`, in the image and from the memory it is read to. -/
theorem Holds.blockFrom (h : Holds fs image) {i : Nat} (hi : i < 32) :
    ∃ rest, fs.blockFrom i = read image (blockSize * (i + 1)) blockSize ++ rest := by
  obtain ⟨k, hk⟩ : ∃ k, metaSize - blockSize * (i + 1) = blockSize + k :=
    ⟨metaSize - blockSize * (i + 1) - blockSize, by unfold metaSize blockSize; omega⟩
  refine ⟨read image (blockSize * (i + 1) + blockSize) k, ?_⟩
  rw [Bootfs.blockFrom, h.sb, drop_read, hk, Nat.zero_add, read_add]

end

/-! ## Blocks -/

/-- The block is of the size of a block. -/
def MetaBlock.Sized : MetaBlock → Prop
  | .conf images _ _ => images.length ≤ 8
  | .files entries => entries.length ≤ 51
  | .zero => True

theorem MetaBlock.length_bytes {b : MetaBlock} (h : b.Sized) : b.bytes.length = blockSize := by
  cases b with
  | conf images bootArgs name => exact length_confBlock h bootArgs name
  | files entries => exact length_filesBlock h
  | zero => exact List.length_replicate

section
variable {t : Table} {exts : List Extent}

theorem length_metaBlocks : ∀ (is : List Nat) (written : Nat),
    (metaBlocks t exts written is).length = is.length
  | [], _ => rfl
  | i :: is, written => by
    unfold metaBlocks
    cases t.confs i with
    | some c => exact congrArg (· + 1) (length_metaBlocks is written)
    | none =>
      dsimp only
      split
      · exact congrArg (· + 1) (length_metaBlocks is _)
      · exact congrArg (· + 1) (length_metaBlocks is written)

theorem sized_metaBlocks (ht : TableOk t) : ∀ (is : List Nat) (written : Nat),
    ∀ b ∈ metaBlocks t exts written is, b.Sized
  | [], _, _, hb => nomatch hb
  | i :: is, written, b, hb => by
    unfold metaBlocks at hb
    cases hc : t.confs i with
    | some c =>
      rw [hc] at hb
      rcases List.mem_cons.1 hb with rfl | hb
      · show (c.images.map (bootfsImage exts)).length ≤ 8
        rw [List.length_map]
        exact (ht.confs i c hc).length_images
      · exact sized_metaBlocks ht is written b hb
    | none =>
      rw [hc] at hb
      dsimp only at hb
      split at hb
      · rcases List.mem_cons.1 hb with rfl | hb
        · show (((t.files.drop written).take _).map (bootfsFile exts)).length ≤ 51
          rw [List.length_map, List.length_take]
          omega
        · exact sized_metaBlocks ht is _ b hb
      · rcases List.mem_cons.1 hb with rfl | hb
        · trivial
        · exact sized_metaBlocks ht is written b hb

/-- The block of slot `i` is `b`: its configuration, or else no configuration. -/
def BlockOf (t : Table) (exts : List Extent) (i : Nat) (b : MetaBlock) : Prop :=
  match t.confs i with
  | some c => b = .conf (c.images.map (bootfsImage exts)) c.bootargs c.name
  | none => b = .zero ∨ ∃ entries, b = .files entries

theorem metaBlocks_getElem? : ∀ (is : List Nat) (written k : Nat) {i : Nat}, is[k]? = some i →
    ∃ b, (metaBlocks t exts written is)[k]? = some b ∧ BlockOf t exts i b
  | [], _, _, _, h => nomatch h
  | j :: is, written, 0, i, h => by
    cases h
    unfold metaBlocks BlockOf
    cases t.confs j with
    | some c => exact ⟨_, rfl, rfl⟩
    | none =>
      dsimp only
      split
      · exact ⟨_, rfl, .inr ⟨_, rfl⟩⟩
      · exact ⟨_, rfl, .inl rfl⟩
  | j :: is, written, k + 1, i, h => by
    have hk : is[k]? = some i := h
    unfold metaBlocks
    cases t.confs j with
    | some c => exact metaBlocks_getElem? is written k hk
    | none =>
      dsimp only
      split
      · exact metaBlocks_getElem? is _ k hk
      · exact metaBlocks_getElem? is written k hk

end

/-! ## The writes -/

/-- Where the blocks go. -/
def blockWrites (bs : List MetaBlock) : List (Nat × List UInt8) :=
  bs.zipIdx.map fun b => (blockSize * (b.2 + 1), b.1.bytes)

theorem mem_blockWrites {bs : List MetaBlock} {i : Nat} {b : MetaBlock} (h : bs[i]? = some b) :
    (blockSize * (i + 1), b.bytes) ∈ blockWrites bs :=
  List.mem_map.2 ⟨(b, i), List.mem_zipIdx_iff_getElem?.2 h, rfl⟩

theorem exists_of_mem_blockWrites {bs : List MetaBlock} {w : Nat × List UInt8}
    (h : w ∈ blockWrites bs) : ∃ i b, bs[i]? = some b ∧ w = (blockSize * (i + 1), b.bytes) := by
  obtain ⟨⟨b, i⟩, hb, rfl⟩ := List.mem_map.1 h
  exact ⟨i, b, List.mem_zipIdx_iff_getElem?.1 hb, rfl⟩

theorem blockWrites_disjoint {bs : List MetaBlock} (hs : ∀ b ∈ bs, b.Sized) :
    (blockWrites bs).Pairwise fun w v => Misses w.1 w.2.length v := by
  unfold blockWrites
  rw [List.pairwise_map, List.pairwise_iff_getElem]
  intro i j hi hj hij
  rw [List.getElem_zipIdx, List.getElem_zipIdx]
  have hlt : i < bs.length := by simpa using hi
  have hb : bs[i].bytes.length = blockSize := MetaBlock.length_bytes (hs _ (List.getElem_mem hlt))
  refine .inl ?_
  dsimp only
  rw [hb, Nat.zero_add, Nat.zero_add, ← Nat.mul_succ]
  exact Nat.mul_le_mul_left _ (by omega)

theorem le_nextPos (pos size : Nat) : pos ≤ nextPos pos size := by
  unfold nextPos
  split <;> omega

/-- A source that can be read is placed before the others. -/
theorem placeData_cons {host : Host} {path : List UInt8} {paths : List (List UInt8)} {pos : Nat}
    {exts : List Extent} : placeData host pos (path :: paths) = .ok exts ↔
      ∃ contents es, host.contents path = some contents ∧
        placeData host (nextPos pos (Extent.dataLen ⟨path, pos, storedBytes contents⟩)) paths =
          .ok es ∧ exts = ⟨path, pos, storedBytes contents⟩ :: es := by
  rw [placeData]
  constructor
  · intro h
    split at h
    · cases h
    · rename_i contents hc
      obtain ⟨es, hes, h⟩ := Runs.bind_ok.1 h
      cases h
      exact ⟨contents, es, hc, hes, rfl⟩
  · rintro ⟨contents, es, hc, hes, rfl⟩
    rw [hc]
    exact Runs.bind_ok.2 ⟨es, hes, rfl⟩

theorem pos_placeData {host : Host} {paths : List (List UInt8)} {pos : Nat} {exts : List Extent}
    (h : placeData host pos paths = .ok exts) : ∀ e ∈ exts, pos ≤ e.pos := by
  induction paths generalizing pos exts with
  | nil =>
    cases h
    exact fun _ he => (nomatch he)
  | cons path paths ih =>
    obtain ⟨contents, es, -, hes, rfl⟩ := placeData_cons.1 h
    intro e he
    rcases List.mem_cons.1 he with rfl | he
    · exact Nat.le_refl _
    · exact Nat.le_trans (le_nextPos _ _) (ih hes e he)

section
variable {host : Host} {out : BlkDev} (r : ConfRun host out)

/-- The blocks of a run. -/
def ConfRun.blocks : List MetaBlock := metaBlocks r.table r.exts 0 (List.range 32)

/-- The superblock stays as it was written. -/
theorem read_superblock :
    read out.data 0 2048 = superblock (r.table.deviceId.getD []) := by
  have hw : confWrites r.table r.exts = [] ++ (0, superblock (r.table.deviceId.getD [])) ::
      (r.exts.map (fun e => (e.pos, e.bytes)) ++ blockWrites r.blocks) := rfl
  rw [r.data, hw, ← length_superblock (r.table.deviceId.getD [])]
  refine read_poke_last fun w hw => .inl ?_
  rw [length_superblock]
  rcases List.mem_append.1 hw with hw | hw
  · obtain ⟨e, he, rfl⟩ := List.mem_map.1 hw
    have hpos := pos_placeData r.place e he
    unfold metaSize at hpos
    show 0 + 2048 ≤ e.pos
    omega
  · obtain ⟨b, -, rfl⟩ := List.mem_map.1 hw
    show 0 + 2048 ≤ 2048 * (b.2 + 1)
    omega

/-- So do the blocks, whatever the size of the data. -/
theorem read_block {i : Nat} {b : MetaBlock} (h : r.blocks[i]? = some b) :
    read out.data (blockSize * (i + 1)) blockSize = b.bytes := by
  have hs : ∀ b ∈ r.blocks, b.Sized := sized_metaBlocks (tableOk_readConf r.read).1 _ _
  have hw : confWrites r.table r.exts = (0, superblock (r.table.deviceId.getD [])) ::
      r.exts.map (fun e => (e.pos, e.bytes)) ++ blockWrites r.blocks := rfl
  have hread : read out.data (blockSize * (i + 1)) b.bytes.length = b.bytes := by
    rw [r.data, hw]
    exact read_poke_of_mem (blockWrites_disjoint hs) (mem_blockWrites h)
  rwa [MetaBlock.length_bytes (hs b (List.mem_of_getElem? h))] at hread

/-- **A written image is opened and shows its blocks**, at any sector of any medium. -/
theorem openImage_written (before : Mem) (sector : Nat) :
    ∃ fs, openImage before sector out.data = some fs ∧ Shows fs out.data r.blocks := by
  have hmagic : read out.data 0 8 = sbMagic := by
    rw [show 8 = min 8 2048 by decide, ← take_read, read_superblock r, superblock, List.append_assoc,
      List.append_assoc, List.append_assoc, List.take_left' length_sbMagic]
  obtain ⟨fs, hfs, hs⟩ := openImage_of_magic before sector hmagic
  refine ⟨fs, hfs, { hs with block := fun i b hb => ?_ }⟩
  have hi : i < 32 := by
    obtain ⟨hlt, -⟩ := List.getElem?_eq_some_iff.1 hb
    rwa [ConfRun.blocks, length_metaBlocks, List.length_range] at hlt
  obtain ⟨rest, hr⟩ := hs.blockFrom hi
  exact ⟨rest, by rw [hr, read_block r hb]⟩

end

/-- **A run on a device with room for everything goes well.** -/
theorem pBootConf_of_room {host : Host} {t : Table} {exts : List Extent} {dev : BlkDev}
    (ht : readConf host = .ok t) (he : placeData host metaSize t.data = .ok exts)
    (hmeta : metaSize ≤ dev.size) (hroom : ∀ e ∈ exts, e.pos + e.bytes.length ≤ dev.size) :
    ∃ out, pBootConf host (some dev) = .ok out := by
  obtain ⟨out, hout⟩ : ∃ out, (confWrites t exts).foldlM writeChecked dev = .ok out := by
    refine foldlM_writeChecked_of_room fun w hw => ?_
    rcases List.mem_append.1 hw with hw | hw
    · rcases List.mem_cons.1 hw with rfl | hw
      · rw [length_superblock]
        exact Nat.le_trans (show 0 + 2048 ≤ metaSize by decide) hmeta
      · obtain ⟨e, hmem, rfl⟩ := List.mem_map.1 hw
        exact hroom e hmem
    · obtain ⟨i, b, hb, rfl⟩ := exists_of_mem_blockWrites hw
      have hi := (List.getElem?_eq_some_iff.1 hb).1
      rw [length_metaBlocks, List.length_range] at hi
      have hs := sized_metaBlocks (tableOk_readConf ht).1 _ _ _ (List.mem_of_getElem? hb)
      have hlen := MetaBlock.length_bytes hs
      dsimp only
      rw [hlen]
      unfold metaSize at hmeta
      unfold blockSize
      omega
  refine ⟨out, Runs.bind_ok.2 ⟨t, ht, Runs.bind_ok.2 ⟨exts, he, hout⟩⟩⟩

/-! ## What a block shows -/

section
variable {fs : Bootfs} {image : Mem} {bs : List MetaBlock} {i : Nat} {b : MetaBlock}

def MetaBlock.isConf : MetaBlock → Bool
  | .conf _ _ _ => true
  | _ => false

def MetaBlock.isFiles : MetaBlock → Bool
  | .files _ => true
  | _ => false

theorem MetaBlock.take8 (b : MetaBlock) (rest : List UInt8) :
    (b.bytes ++ rest).take 8 =
      match b with
      | .conf _ _ _ => confMagic
      | .files _ => filesMagic
      | .zero => List.replicate 8 0 := by
  cases b with
  | conf images bootArgs name =>
    simp only [MetaBlock.bytes, confBlock, List.append_assoc]
    exact List.take_left' length_confMagic
  | files entries =>
    simp only [MetaBlock.bytes, filesBlock, List.append_assoc]
    exact List.take_left' length_filesMagic
  | zero =>
    have hlen : 8 ≤ (List.replicate 2048 (0 : UInt8)).length := by
      rw [List.length_replicate]
      decide
    rw [MetaBlock.bytes, List.take_append_of_le_length hlen, List.take_replicate]
    rfl

/-- A slot has a configuration when its block is one. -/
theorem isConf_of_block {rest : List UInt8} (hr : fs.blockFrom i = b.bytes ++ rest) :
    fs.isConf i = b.isConf := by
  unfold Bootfs.isConf
  rw [hr, MetaBlock.take8]
  cases b with
  | conf images bootArgs name => exact beq_self_eq_true _
  | files entries => exact show (filesMagic == confMagic) = false by decide
  | zero => exact show (List.replicate 8 0 == confMagic) = false by decide

theorem Shows.isFiles (h : Shows fs image bs) (hb : bs[i]? = some b) :
    fs.isFiles i = b.isFiles := by
  obtain ⟨rest, hr⟩ := h.block i b hb
  unfold Bootfs.isFiles
  rw [hr, MetaBlock.take8]
  cases b with
  | conf images bootArgs name => exact show (confMagic == filesMagic) = false by decide
  | files entries => exact beq_self_eq_true _
  | zero => exact show (List.replicate 8 0 == filesMagic) = false by decide

/-- The name and the kernel arguments of a configuration, cut to their fields. -/
theorem Shows.texts (h : Shows fs image bs) {images : List BootfsImage} {bootArgs name : List UInt8}
    (hb : bs[i]? = some (.conf images bootArgs name)) (hn : images.length ≤ 8) (h1 : 0 ∉ bootArgs)
    (h2 : 0 ∉ name) :
    cstr (nameField (fs.blockFrom i)) = snprintf nameSize name ∧
      cstr (bootArgsField (fs.blockFrom i)) = snprintf bootArgsSize bootArgs := by
  obtain ⟨rest, hr⟩ := h.block i _ hb
  rw [hr, MetaBlock.bytes, nameField_confBlock hn, bootArgsField_confBlock hn]
  exact ⟨cstr_field (by decide) h2 _, cstr_field (by decide) h1 _⟩

end

/-! ## Slots and blocks -/

section
variable {host : Host} {out : BlkDev} {r : ConfRun host out} {fs : Bootfs}

/-- The block of a slot. -/
theorem block_of_slot (r : ConfRun host out) {i : Nat} (hi : i < 32) :
    ∃ b, r.blocks[i]? = some b ∧ BlockOf r.table r.exts i b :=
  metaBlocks_getElem? _ _ _ (List.getElem?_range hi)

theorem block_of_conf (r : ConfRun host out) {i : Nat} {c : BConf} (hc : r.table.confs i = some c) :
    r.blocks[i]? = some (.conf (c.images.map (bootfsImage r.exts)) c.bootargs c.name) := by
  have ht := (tableOk_readConf r.read).1
  obtain ⟨b, hb, hof⟩ := block_of_slot r ((ht.confs i c hc).slot ▸ (ht.confs i c hc).index)
  unfold BlockOf at hof
  rw [hc] at hof
  rw [hb, hof]

theorem BlockOf.isConf {t : Table} {exts : List Extent} {i : Nat} {b : MetaBlock}
    (h : BlockOf t exts i b) : b.isConf = (t.confs i).isSome := by
  unfold BlockOf at h
  cases hc : t.confs i with
  | some c =>
    rw [hc] at h
    rw [h]
    rfl
  | none =>
    rw [hc] at h
    rcases h with rfl | ⟨entries, rfl⟩
    · rfl
    · rfl

theorem Shows.isConf_iff (hs : Shows fs out.data r.blocks) {i : Nat} (hi : i < 32) :
    fs.isConf i = (r.table.confs i).isSome := by
  obtain ⟨b, hb, hof⟩ := block_of_slot r hi
  obtain ⟨rest, hr⟩ := hs.block i b hb
  rw [isConf_of_block hr, hof.isConf]

end

end PBoot
