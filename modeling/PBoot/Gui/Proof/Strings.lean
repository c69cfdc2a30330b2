import PBoot.Gui.BootGui
import PBoot.Lib.CString

/-!
# Strings of the metadata

The metadata of a boot file system in memory, and what the program does with the strings in it.

* `nul_mem_iff`: a string's terminator in memory is one in its field.
* `stringsStay_iff`: the copies stay in their fields and buffers exactly when the kernel arguments
  that are copied and the names of the configurations are terminated. The title always does, for
  `boot_gui` closes it, and so do the comparisons with file names.
-/

namespace PBoot

open Bytes CString

/-! ## The strings -/

/-- The memory from `fs->sb` on; `heap` is what lies behind the metadata. -/
def Bootfs.memory (fs : Bootfs) (heap : Mem) : Mem := write heap 0 fs.sb

/-- `memcpy(boot->bootargs, bc->boot_args, strlen((char*)bc->boot_args) + 1)`. -/
def bootArgsCopy (i : Nat) : StrCopy :=
  { src := blockSize * (i + 1) + 8 + 8 * 12, field := bootArgsSize, dest := 4096 }

/-- The copy of a configuration's name by `gui_menu_add_item`. -/
def nameCopy (i : Nat) : StrCopy :=
  { src := blockSize * (i + 1) + 8 + 8 * 12 + bootArgsSize, field := nameSize, dest := menuText }

/-- The address of `device_id`. -/
def deviceIdAddr : Nat := 16

/-- The copy of `device_id` by `gui_menu_set_title`. -/
def titleCopy : StrCopy := { src := deviceIdAddr, field := 32, dest := 128 }

/-- `fs->sb->device_id[sizeof(fs->sb->device_id) - 1] = 0`, when it is used as the title. -/
def closeDeviceId (m : Mem) : Mem :=
  if m deviceIdAddr ≠ 0 then write m (deviceIdAddr + 31) [0] else m

/-- The address of entry `j` in the file list of block `i`. -/
def fileAddr (i j : Nat) : Nat := blockSize * (i + 1) + 8 + 40 * j

/-- The names that `bootfs_load_file` is called with. -/
def fileLiterals : List (List UInt8) := [ascii "pboot2.argb", ascii "off.argb"]

/-- **No string runs away**: `booted` are the blocks whose kernel arguments `boot_prepare` copies,
before or after the menu was shown. -/
structure StringsStay (fs : Bootfs) (heap : Mem) (booted : Nat → Prop) : Prop where
  bootArgs : ∀ i < 32, booted i → (bootArgsCopy i).Stays (fs.memory heap) ∧
    (bootArgsCopy i).Stays (closeDeviceId (fs.memory heap))
  names : ∀ i < 32, fs.isConf i = true → (nameCopy i).Stays (fs.memory heap)
  title : fs.memory heap deviceIdAddr ≠ 0 → titleCopy.Stays (closeDeviceId (fs.memory heap))
  files : ∀ i < 32, ∀ j < 51, ∀ name ∈ fileLiterals, ∀ b,
    StrcmpReads (fs.memory heap) (fileAddr i j) name b → b < fileAddr i j + 40

/-! ## When they stay -/

section
variable {fs : Bootfs} {heap : Mem}

/-- A NUL among `n` bytes of the metadata. -/
theorem nul_mem_iff {src n : Nat} (h : src + n ≤ metaSize) :
    (∃ k < n, fs.memory heap (src + k) = 0) ↔ 0 ∈ (fs.sb.drop src).take n := by
  have hmem : ∀ k < n, ∃ hk : src + k < fs.sb.length, fs.memory heap (src + k) = fs.sb[src + k] := by
    intro k hk
    have hlt : src + k < fs.sb.length := by
      rw [fs.length_sb]
      omega
    refine ⟨hlt, ?_⟩
    have hw := write_at (m := heap) (a := 0) hlt
    rwa [Nat.zero_add] at hw
  rw [List.mem_take_iff_getElem]
  constructor
  · rintro ⟨k, hk, h0⟩
    obtain ⟨hlt, he⟩ := hmem k hk
    refine ⟨k, by simp only [List.length_drop]; omega, ?_⟩
    rw [List.getElem_drop, ← he, h0]
  · rintro ⟨k, hk, h0⟩
    have hkn : k < n := by omega
    obtain ⟨hlt, he⟩ := hmem k hkn
    refine ⟨k, hkn, ?_⟩
    rw [he, ← h0, List.getElem_drop]

/-- Closing the title does not reach the blocks. -/
theorem closeDeviceId_block (m : Mem) {a : Nat} (ha : blockSize ≤ a) : closeDeviceId m a = m a := by
  unfold closeDeviceId
  split
  · exact write_of_ge (by simp only [List.length_singleton, deviceIdAddr]; unfold blockSize at ha; omega)
  · rfl

theorem bootArgsCopy_stays_iff {i : Nat} (hi : i < 32) :
    (bootArgsCopy i).Stays (fs.memory heap) ↔
      0 ∈ (bootArgsField (fs.blockFrom i)).take bootArgsSize := by
  have hend : (bootArgsCopy i).src + bootArgsSize ≤ metaSize := by
    simp only [bootArgsCopy, blockSize, bootArgsSize, metaSize]
    omega
  rw [StrCopy.stays_iff (by simp [bootArgsCopy, bootArgsSize]), show (bootArgsCopy i).field =
    bootArgsSize by rfl, nul_mem_iff hend, bootArgsField, Bootfs.blockFrom]
  simp only [List.drop_drop, bootArgsCopy, Nat.add_assoc]

theorem nameCopy_stays_iff {i : Nat} (hi : i < 32) :
    (nameCopy i).Stays (fs.memory heap) ↔ 0 ∈ (nameField (fs.blockFrom i)).take nameSize := by
  have hend : (nameCopy i).src + nameSize ≤ metaSize := by
    simp only [nameCopy, blockSize, bootArgsSize, nameSize, metaSize]
    omega
  rw [StrCopy.stays_iff (by simp [nameCopy, nameSize, menuText]), show (nameCopy i).field =
    nameSize by rfl, nul_mem_iff hend, nameField, bootArgsField, Bootfs.blockFrom]
  simp only [List.drop_drop, nameCopy, Nat.add_assoc]

/-- After the menu was shown the kernel arguments are what they were. -/
theorem bootArgsCopy_closed (m : Mem) (i : Nat) :
    (bootArgsCopy i).Stays (closeDeviceId m) ↔ (bootArgsCopy i).Stays m := by
  have hdest : (bootArgsCopy i).field ≤ (bootArgsCopy i).dest := by simp [bootArgsCopy, bootArgsSize]
  rw [StrCopy.stays_iff hdest, StrCopy.stays_iff hdest]
  refine exists_congr fun k => and_congr_right fun _ => ?_
  rw [closeDeviceId_block]
  simp only [bootArgsCopy, blockSize]
  omega

/-- The title is closed before it is copied. -/
theorem titleCopy_stays {m : Mem} (h : m deviceIdAddr ≠ 0) : titleCopy.Stays (closeDeviceId m) := by
  refine (StrCopy.stays_iff (by decide)).2 ⟨31, by decide, ?_⟩
  unfold closeDeviceId
  rw [if_pos h]
  exact write_at (show 0 < [(0 : UInt8)].length by decide)

/-- A file's name is compared within its entry. -/
theorem fileName_lt {m : Mem} {l b : Nat} {name : List UInt8} (hn : name ∈ fileLiterals)
    (h : StrcmpReads m l name b) : b < l + 40 := by
  have hlen : ∀ name ∈ fileLiterals, name.length ≤ 31 := by decide
  have := strcmpReads_le h
  have := hlen name hn
  omega

/-- **No string runs away** exactly when the kernel arguments that are copied and the names of the
configurations are terminated in their fields. -/
theorem stringsStay_iff (fs : Bootfs) (heap : Mem) (booted : Nat → Prop) :
    StringsStay fs heap booted ↔ ∀ i < 32,
      (booted i → 0 ∈ (bootArgsField (fs.blockFrom i)).take bootArgsSize) ∧
      (fs.isConf i = true → 0 ∈ (nameField (fs.blockFrom i)).take nameSize) := by
  constructor
  · intro h i hi
    exact ⟨fun hb => (bootArgsCopy_stays_iff hi).1 (h.bootArgs i hi hb).1,
      fun hc => (nameCopy_stays_iff hi).1 (h.names i hi hc)⟩
  · intro h
    refine ⟨fun i hi hb => ?_, fun i hi hc => ?_, titleCopy_stays, fun i _ j _ name hn b hb => ?_⟩
    · have hstays : (bootArgsCopy i).Stays (fs.memory heap) :=
        (bootArgsCopy_stays_iff hi).2 ((h i hi).1 hb)
      exact ⟨hstays, (bootArgsCopy_closed _ i).2 hstays⟩
    · exact (nameCopy_stays_iff hi).2 ((h i hi).2 hc)
    · exact fileName_lt hn hb

end

/-! ## A block without terminators -/

/-- Block 0 has the magic of a configuration, and no NUL is behind it. -/
def openFs : Bootfs where
  mmc := { data := fun _ => 1, readable := fun _ _ => true }
  mmcOffset := 0
  sb := superblock [] ++ confMagic ++ List.replicate (metaSize - 2056) 1
  length_sb := by
    rw [List.length_append, List.length_append, length_superblock, List.length_replicate]
    rfl

theorem blockFrom_openFs : openFs.blockFrom 0 = confMagic ++ List.replicate (metaSize - 2056) 1 := by
  show (superblock [] ++ confMagic ++ List.replicate (metaSize - 2056) 1).drop 2048 = _
  rw [List.append_assoc, List.drop_left' (length_superblock _)]

theorem isConf_openFs : openFs.isConf 0 = true := by
  unfold Bootfs.isConf
  rw [blockFrom_openFs, List.take_left' length_confMagic]
  exact beq_self_eq_true _

theorem nul_not_mem_openFs (n k : Nat) : 0 ∉ (((openFs.blockFrom 0).drop 8).drop n).take k := by
  rw [blockFrom_openFs, List.drop_left' length_confMagic]
  intro h
  exact absurd (List.eq_of_mem_replicate (List.mem_of_mem_drop (List.mem_of_mem_take h))) (by decide)

/-- Its name and its kernel arguments run away. -/
theorem stringsStay_open : ¬ (bootArgsCopy 0).Stays (openFs.memory fun _ => 0) ∧
    ¬ (nameCopy 0).Stays (openFs.memory fun _ => 0) ∧
    ¬ StringsStay openFs (fun _ => 0) fun i => i = 0 := by
  have hargs : ¬ (bootArgsCopy 0).Stays (openFs.memory fun _ => 0) := fun h =>
    nul_not_mem_openFs _ _ ((bootArgsCopy_stays_iff (by decide)).1 h)
  have hname : ¬ (nameCopy 0).Stays (openFs.memory fun _ => 0) := by
    rw [nameCopy_stays_iff (by decide), nameField, bootArgsField, List.drop_drop]
    exact nul_not_mem_openFs _ _
  exact ⟨hargs, hname, fun h => hname (h.names 0 (by decide) isConf_openFs)⟩

end PBoot
