import PBoot.Lib.Bytes

/-!
# The boot file system on disk (`bootfs.h`)

33 blocks of 2 KiB, all values big-endian: the superblock, then 32 blocks that each hold a boot
configuration (`bootfs_conf`) or a list of files (`bootfs_files`). Data follows from offset
`metaSize` on.

The writer's side is the bytes of a block (`superblock`, `confBlock`, `filesBlock`), the reader's
side the field accessors on a block's bytes (`imageAt`, `fileAt`, `bootArgsField`, `nameField`).
`imageAt_confBlock`, `bootArgsField_confBlock`, `nameField_confBlock` and `fileAt_filesBlock` say
that they agree.
-/

namespace PBoot

open Bytes

/-! ## Constants -/

def blockSize : Nat := 2048

/-- The size of the metadata: the superblock and 32 blocks. -/
def metaSize : Nat := 2048 * 33

def sbMagic : List UInt8 := ascii ":BOOTFS:"
def confMagic : List UInt8 := ascii ":BFCONF:"
def filesMagic : List UInt8 := ascii ":BFILES:"

/-- `sizeof boot_args`. -/
def bootArgsSize : Nat := 2048 - 8 - 8 * 12 - 96

/-- `sizeof name` in a configuration block. -/
def nameSize : Nat := 96

/-! ## Records -/

/-- `struct bootfs_image`; `type` is 0 in an unused entry. -/
structure BootfsImage where
  type : Nat
  dataOff : Nat
  dataLen : Nat
  deriving DecidableEq, Repr

def BootfsImage.bytes (im : BootfsImage) : List UInt8 :=
  be32 im.type ++ be32 im.dataOff ++ be32 im.dataLen

structure BootfsImage.Fits (im : BootfsImage) : Prop where
  type : im.type < 2 ^ 32
  off : im.dataOff < 2 ^ 32
  len : im.dataLen < 2 ^ 32

/-- `struct bootfs_file`, its name as a C string. -/
structure BootfsFile where
  name : List UInt8
  dataOff : Nat
  dataLen : Nat
  deriving DecidableEq, Repr

def BootfsFile.bytes (f : BootfsFile) : List UInt8 :=
  field 32 f.name ++ be32 f.dataOff ++ be32 f.dataLen

@[simp] theorem BootfsImage.length_bytes (im : BootfsImage) : im.bytes.length = 12 := rfl

@[simp] theorem BootfsFile.length_bytes (f : BootfsFile) : f.bytes.length = 40 := by
  simp [BootfsFile.bytes]

/-! ## The writer's blocks -/

def superblock (deviceId : List UInt8) : List UInt8 :=
  sbMagic ++ be32 1 ++ be32 0 ++ field 32 deviceId ++ List.replicate (2048 - 8 - 4 - 4 - 32) 0

def confBlock (images : List BootfsImage) (bootArgs name : List UInt8) : List UInt8 :=
  confMagic ++ table (8 * 12) BootfsImage.bytes images ++ field bootArgsSize bootArgs ++
    field nameSize name

def filesBlock (files : List BootfsFile) : List UInt8 :=
  filesMagic ++ table (51 * 40) BootfsFile.bytes files

theorem length_sbMagic : sbMagic.length = 8 := by decide
theorem length_confMagic : confMagic.length = 8 := by decide
theorem length_filesMagic : filesMagic.length = 8 := by decide

@[simp] theorem length_superblock (d : List UInt8) : (superblock d).length = 2048 := by
  simp only [superblock, List.length_append, length_sbMagic, length_be32, length_field,
    List.length_replicate]

theorem length_imageTable {images : List BootfsImage} (h : images.length ≤ 8) :
    (table (8 * 12) BootfsImage.bytes images).length = 8 * 12 :=
  length_table BootfsImage.length_bytes (by omega)

theorem length_fileTable {files : List BootfsFile} (h : files.length ≤ 51) :
    (table (51 * 40) BootfsFile.bytes files).length = 51 * 40 :=
  length_table BootfsFile.length_bytes (by omega)

theorem length_confBlock {images : List BootfsImage} (h : images.length ≤ 8)
    (bootArgs name : List UInt8) : (confBlock images bootArgs name).length = 2048 := by
  simp only [confBlock, List.length_append, length_imageTable h, length_confMagic, length_field,
    bootArgsSize, nameSize]

theorem length_filesBlock {files : List BootfsFile} (h : files.length ≤ 51) :
    (filesBlock files).length = 2048 := by
  simp only [filesBlock, List.length_append, length_fileTable h, length_filesMagic]

/-! ## The reader's fields -/

def imageAt (blk : List UInt8) (j : Nat) : BootfsImage :=
  let p := (blk.drop 8).drop (12 * j)
  { type := ofBe32 p, dataOff := ofBe32 (p.drop 4), dataLen := ofBe32 (p.drop 8) }

/-- The block from `bc->boot_args` on. -/
def bootArgsField (blk : List UInt8) : List UInt8 := (blk.drop 8).drop (8 * 12)

/-- The block from `bc->name` on. -/
def nameField (blk : List UInt8) : List UInt8 := (bootArgsField blk).drop bootArgsSize

/-- `bf->files[j]` of a block; the name is the entry from its first byte on. -/
def fileAt (blk : List UInt8) (j : Nat) : BootfsFile :=
  let p := (blk.drop 8).drop (40 * j)
  { name := p, dataOff := ofBe32 (p.drop 32), dataLen := ofBe32 (p.drop 36) }

/-! ## Round trips -/

theorem drop8_confBlock (images : List BootfsImage) (bootArgs name t : List UInt8) :
    (confBlock images bootArgs name ++ t).drop 8 =
      table (8 * 12) BootfsImage.bytes images ++
        (field bootArgsSize bootArgs ++ (field nameSize name ++ t)) := by
  simp only [confBlock, List.append_assoc]
  exact List.drop_left' rfl

theorem bootArgsField_confBlock {images : List BootfsImage} (h : images.length ≤ 8)
    (bootArgs name t : List UInt8) :
    bootArgsField (confBlock images bootArgs name ++ t) =
      field bootArgsSize bootArgs ++ (field nameSize name ++ t) := by
  rw [bootArgsField, drop8_confBlock]
  exact List.drop_left' (length_imageTable h)

theorem nameField_confBlock {images : List BootfsImage} (h : images.length ≤ 8)
    (bootArgs name t : List UInt8) :
    nameField (confBlock images bootArgs name ++ t) = field nameSize name ++ t := by
  rw [nameField, bootArgsField_confBlock h]
  exact List.drop_left' (length_field _ _)

/-- **A written image entry reads back.** -/
theorem imageAt_confBlock {images : List BootfsImage} (h : images.length ≤ 8)
    (bootArgs name t : List UInt8) {j : Nat} {im : BootfsImage} (hj : images[j]? = some im)
    (hf : im.Fits) : imageAt (confBlock images bootArgs name ++ t) j = im := by
  obtain ⟨hlt, rfl⟩ := List.getElem?_eq_some_iff.1 hj
  have hcut := drop_table_getElem BootfsImage.length_bytes (n := 8 * 12) hlt (by omega)
  have hle : 12 * j ≤ (table (8 * 12) BootfsImage.bytes images).length := by
    rw [length_imageTable h]; omega
  simp only [imageAt, drop8_confBlock, List.drop_append_of_le_length hle, hcut,
    BootfsImage.bytes, List.append_assoc]
  rw [ofBe32_be32 hf.type, List.drop_left' (length_be32 _), ofBe32_be32 hf.off,
    show 8 = 4 + 4 by rfl, ← List.drop_drop, List.drop_left' (length_be32 _),
    List.drop_left' (length_be32 _), ofBe32_be32 hf.len]

theorem imageAt_confBlock_unused {images : List BootfsImage} (h : images.length ≤ 8)
    (bootArgs name t : List UInt8) {j : Nat} (hj : images.length ≤ j) (hj8 : j < 8) :
    (imageAt (confBlock images bootArgs name ++ t) j).type = 0 := by
  have hle : 12 * j ≤ (table (8 * 12) BootfsImage.bytes images).length := by
    rw [length_imageTable h]; omega
  simp only [imageAt, drop8_confBlock, List.drop_append_of_le_length hle,
    drop_table_zero BootfsImage.length_bytes hj]
  obtain ⟨n, hn⟩ : ∃ n, 8 * 12 - 12 * j = n + 4 := ⟨8 * 12 - 12 * j - 4, by omega⟩
  rw [hn]
  simp [ofBe32, List.replicate_succ]

/-- The entries of a written block: its images, then unused ones. -/
theorem images_confBlock {images : List BootfsImage} (h : images.length ≤ 8)
    (hf : ∀ im ∈ images, im.Fits) (bootArgs name t : List UInt8) :
    ∃ unused : List BootfsImage, (∀ im ∈ unused, im.type = 0) ∧
      (List.range 8).map (imageAt (confBlock images bootArgs name ++ t)) = images ++ unused := by
  obtain ⟨n, hn⟩ : ∃ n, 8 = images.length + n := ⟨8 - images.length, by omega⟩
  refine ⟨(List.range n).map fun j => imageAt (confBlock images bootArgs name ++ t)
    (images.length + j), ?_, ?_⟩
  · intro im him
    obtain ⟨j, hj, rfl⟩ := List.mem_map.1 him
    have := List.mem_range.1 hj
    exact imageAt_confBlock_unused h bootArgs name t (by omega) (by omega)
  · rw [hn, List.range_add, List.map_append, List.map_map]
    refine congrArg (· ++ _) (List.ext_getElem (by simp) fun j h1 h2 => ?_)
    rw [List.getElem_map, List.getElem_range]
    exact imageAt_confBlock h bootArgs name t (List.getElem?_eq_getElem h2)
      (hf _ (List.getElem_mem h2))

/-- **A written file entry reads back.** -/
theorem fileAt_filesBlock {files : List BootfsFile} (h : files.length ≤ 51) (t : List UInt8)
    {j : Nat} {f : BootfsFile} (hj : files[j]? = some f) (ho : f.dataOff < 2 ^ 32)
    (hl : f.dataLen < 2 ^ 32) :
    (∃ u, (fileAt (filesBlock files ++ t) j).name = field 32 f.name ++ u) ∧
      (fileAt (filesBlock files ++ t) j).dataOff = f.dataOff ∧
      (fileAt (filesBlock files ++ t) j).dataLen = f.dataLen := by
  obtain ⟨hlt, rfl⟩ := List.getElem?_eq_some_iff.1 hj
  have hcut := drop_table_getElem BootfsFile.length_bytes (n := 51 * 40) hlt (by omega)
  have hle : 40 * j ≤ (table (51 * 40) BootfsFile.bytes files).length := by
    rw [length_fileTable h]; omega
  have h8 : (filesBlock files ++ t).drop 8 = table (51 * 40) BootfsFile.bytes files ++ t := by
    rw [filesBlock, List.append_assoc]; exact List.drop_left' rfl
  simp only [fileAt, h8, List.drop_append_of_le_length hle, hcut, BootfsFile.bytes,
    List.append_assoc]
  refine ⟨⟨_, rfl⟩, ?_, ?_⟩
  · rw [List.drop_left' (length_field _ _), ofBe32_be32 ho]
  · rw [show 36 = 32 + 4 by rfl, ← List.drop_drop, List.drop_left' (length_field _ _),
      List.drop_left' (length_be32 _), ofBe32_be32 hl]

theorem fileAt_filesBlock_unused {files : List BootfsFile} (h : files.length ≤ 51)
    (t : List UInt8) {j : Nat} (hj : files.length ≤ j) (hj51 : j < 51) :
    (fileAt (filesBlock files ++ t) j).name.head? = some 0 := by
  have hle : 40 * j ≤ (table (51 * 40) BootfsFile.bytes files).length := by
    rw [length_fileTable h]; omega
  have h8 : (filesBlock files ++ t).drop 8 = table (51 * 40) BootfsFile.bytes files ++ t := by
    rw [filesBlock, List.append_assoc]; exact List.drop_left' rfl
  simp only [fileAt, h8, List.drop_append_of_le_length hle,
    drop_table_zero BootfsFile.length_bytes hj]
  obtain ⟨n, hn⟩ : ∃ n, 51 * 40 - 40 * j = n + 1 := ⟨51 * 40 - 40 * j - 1, by omega⟩
  rw [hn]
  simp [List.replicate_succ]

end PBoot
