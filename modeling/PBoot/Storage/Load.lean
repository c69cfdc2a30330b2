import PBoot.Storage.Open

/-!
# Loading images and files (`storage.c`, `main.c`)

`bootfsLoadImage` copies an extent of the file system to memory, whole sectors at a time;
`bootfsLoadFile` finds the extent by name in the file blocks. `loadSplash` looks up the splash
image of a configuration.

* `bootfsLoadImage_some`: what a load that succeeds did.
* `read_bootfsLoadImage`: after it, the image's bytes are in memory.
-/

namespace PBoot

open Bytes

/-- `bootfs_load_image`: the size that is returned and the memory after the load; none for a
negative result. -/
def bootfsLoadImage (fs : Bootfs) (mem : Mem) (dest off len : Nat) : Option (Nat × Mem) :=
  if len = 0 then some (0, mem)
  else if off % 512 ≠ 0 then none
  else if len > 512 * 1024 * 1024 then none
  else if dest = 0 then some (len, mem)
  else (mmcReadData fs.mmc (fs.mmcOffset + off) len).map fun bs => (len, write mem dest bs)

/-- The bytes of an extent of the file system. -/
def Bootfs.extent (fs : Bootfs) (off len : Nat) : List UInt8 :=
  read fs.mmc.data (fs.mmcOffset + off) len

/-- The number of bytes that are written to load `len` bytes. -/
def roundUp512 (len : Nat) : Nat := (len + 511) / 512 * 512

theorem le_roundUp512 (len : Nat) : len ≤ roundUp512 len := by
  unfold roundUp512; omega

/-- The two ways a load succeeds. -/
theorem bootfsLoadImage_some {fs : Bootfs} {mem mem' : Mem} {dest off len n : Nat}
    (hdest : dest ≠ 0) (h : bootfsLoadImage fs mem dest off len = some (n, mem')) :
    (len = 0 ∧ n = 0 ∧ mem' = mem) ∨
      (0 < len ∧ n = len ∧ off % 512 = 0 ∧ len ≤ 512 * 1024 * 1024 ∧
        ∃ bs, mmcReadData fs.mmc (fs.mmcOffset + off) len = some bs ∧ mem' = write mem dest bs) := by
  unfold bootfsLoadImage at h
  split at h
  · rename_i h0; cases h; exact .inl ⟨h0, rfl, rfl⟩
  split at h
  · cases h
  split at h
  · cases h
  rename_i h0 ho hl
  simp only [Option.map_eq_some_iff, Prod.mk.injEq] at h
  obtain ⟨bs, hbs, rfl, rfl⟩ := h
  exact .inr ⟨by omega, rfl, by omega, by omega, bs, hbs, rfl⟩

/-- What is read at an aligned place of the file system: the extent, then the rest of its last
sector. -/
theorem mmcReadData_extent {fs : Bootfs} {off len : Nat} {bs : List UInt8}
    (h : mmcReadData fs.mmc (fs.mmcOffset + off) len = some bs) (hm : fs.mmcOffset % 512 = 0)
    (ho : off % 512 = 0) :
    bs = read fs.mmc.data (fs.mmcOffset + off) (roundUp512 len) ∧ bs.take len = fs.extent off len := by
  have he : bs = read fs.mmc.data (fs.mmcOffset + off) (roundUp512 len) :=
    mmcReadData_eq h (by omega)
  refine ⟨he, ?_⟩
  rw [he, take_read, Nat.min_eq_left (le_roundUp512 len), Bootfs.extent]

/-- **A loaded image's bytes are in memory.** -/
theorem read_bootfsLoadImage {fs : Bootfs} {mem mem' : Mem} {dest off len n : Nat}
    (hdest : dest ≠ 0) (hm : fs.mmcOffset % 512 = 0)
    (h : bootfsLoadImage fs mem dest off len = some (n, mem')) :
    read mem' dest len = fs.extent off len := by
  rcases bootfsLoadImage_some hdest h with ⟨rfl, -, -⟩ | ⟨-, -, ho, -, bs, hbs, rfl⟩
  · rfl
  · obtain ⟨he, ht⟩ := mmcReadData_extent hbs hm ho
    rw [← ht]
    refine read_write_head ?_
    rw [he, length_read]
    exact le_roundUp512 len

/-! ## Files by name -/

/-- The entries of a file block, up to the first without a name. -/
def fileEntries (blk : List UInt8) : List BootfsFile :=
  ((List.range 51).map (fileAt blk)).takeWhile fun f => f.name.head? != some 0

/-- A file entry that can be found: its name is a file name, its extent fits 32 bits. -/
structure BootfsFile.Fits (f : BootfsFile) : Prop where
  name_ne : f.name ≠ []
  no_nul : 0 ∉ f.name
  name_le : f.name.length ≤ 31
  off : f.dataOff < 2 ^ 32
  len : f.dataLen < 2 ^ 32

/-- The entry with its name as a string. -/
def BootfsFile.named (f : BootfsFile) : BootfsFile := { f with name := cstr f.name }

theorem fileAt_named {files : List BootfsFile} (h : files.length ≤ 51) (t : List UInt8) {j : Nat}
    {f : BootfsFile} (hj : files[j]? = some f) (hf : f.Fits) :
    (fileAt (filesBlock files ++ t) j).named = f ∧
      (fileAt (filesBlock files ++ t) j).name.head? ≠ some 0 := by
  obtain ⟨⟨u, hname⟩, hoff, hlen⟩ := fileAt_filesBlock h t hj hf.off hf.len
  have hcut : snprintf 32 f.name = f.name := snprintf_eq_self_iff.2 hf.name_le
  refine ⟨?_, ?_⟩
  · rw [BootfsFile.named, hoff, hlen, hname, cstr_field (by decide) hf.no_nul, hcut]
  · rw [hname, field, hcut]
    rcases hn : f.name with _ | ⟨b, s⟩
    · exact absurd hn hf.name_ne
    · intro h0
      cases h0
      exact hf.no_nul (hn ▸ List.mem_cons_self)

/-- **A written list of files reads back.** -/
theorem fileEntries_filesBlock {files : List BootfsFile} (h : files.length ≤ 51)
    (hf : ∀ f ∈ files, f.Fits) (t : List UInt8) :
    (fileEntries (filesBlock files ++ t)).map BootfsFile.named = files := by
  obtain ⟨n, hn⟩ : ∃ n, 51 = files.length + n := ⟨51 - files.length, by omega⟩
  have hread : ∀ j (hj : j < files.length), _ := fun j hj =>
    fileAt_named h t (List.getElem?_eq_getElem hj) (hf _ (List.getElem_mem hj))
  unfold fileEntries
  rw [hn, List.range_add, List.map_append, List.takeWhile_append_of_pos]
  · have hrest : ((List.map (files.length + ·) (List.range n)).map
        (fileAt (filesBlock files ++ t))).takeWhile (fun f => f.name.head? != some 0) = [] := by
      cases n with
      | zero => rfl
      | succ n =>
        have h0 := fileAt_filesBlock_unused h t (Nat.le_refl files.length) (by omega)
        rw [List.range_succ_eq_map, List.map_cons, List.map_cons, Nat.add_zero,
          List.takeWhile_cons_of_neg (by rw [h0]; decide)]
    rw [hrest, List.append_nil, List.map_map]
    refine List.ext_getElem (by simp) fun j h1 h2 => ?_
    rw [List.getElem_map, List.getElem_range]
    exact (hread j h2).1
  · intro f hmem
    obtain ⟨j, hj, rfl⟩ := List.mem_map.1 hmem
    exact bne_iff_ne.2 (hread j (List.mem_range.1 hj)).2

/-- The entry that `bootfs_load_file` stops at. -/
def bootfsFindFile (fs : Bootfs) (name : List UInt8) : Option BootfsFile :=
  (List.range 32).findSome? fun i =>
    if fs.isFiles i then (fileEntries (fs.blockFrom i)).find? fun f => cstr f.name == name else none

/-- The entries of all file blocks, in the order in which they are looked at. -/
def Bootfs.fileNodes (fs : Bootfs) : List BootfsFile :=
  (List.range 32).flatMap fun i => if fs.isFiles i then fileEntries (fs.blockFrom i) else []

theorem bootfsFindFile_eq (fs : Bootfs) (name : List UInt8) :
    bootfsFindFile fs name = fs.fileNodes.find? fun f => cstr f.name == name := by
  rw [Bootfs.fileNodes, List.find?_flatMap]
  unfold bootfsFindFile
  congr 1
  funext i
  split <;> rfl

def bootfsLoadFile (fs : Bootfs) (mem : Mem) (dest : Nat) (name : List UInt8) :
    Option (Nat × Mem) :=
  match bootfsFindFile fs name with
  | some f => bootfsLoadImage fs mem dest f.dataOff f.dataLen
  | none => none

/-! ## The splash screen -/

/-- The splash image of a configuration block: its first image of type `S`. -/
def splashImage (blk : List UInt8) : Option BootfsImage :=
  ((List.range 8).map (imageAt blk)).find? fun im => im.type == 'S'.toNat

/-- `load_splash`: the result and the memory after it. -/
def loadSplash (fs : Bootfs) (i : Nat) (mem : Mem) (dest : Nat) : Bool × Mem :=
  if fs.isConf i then
    match splashImage (fs.blockFrom i) with
    | some im =>
      match bootfsLoadImage fs mem dest im.dataOff im.dataLen with
      | some (size, mem) => (decide (0 < size), mem)
      | none => (false, mem)
    | none => (false, mem)
  else (false, mem)

end PBoot
