import PBoot.Boot.Mem
import PBoot.Boot.Mmu
import PBoot.Lib.Placement
import PBoot.Storage.Load

/-!
# Loading what is to be executed (`boot_prepare` in `main.c`)

`bootPrepare` is `boot_prepare` up to the point where it starts to edit the device tree: the images
of the configuration are looked up and loaded to fixed addresses, the second device tree is copied
over the first on board revision 2, and a kernel with a text offset is moved. Memory is flat; an
access from 4 GiB on, which the page tables do not map, never returns.

* `Board.taken`: the memory that p-boot itself uses, with `globals->linux_image_pa` in it.
* `bootPrepare_some`: what a run that gets past the checks did.
-/

namespace PBoot

open Bytes Placement

/-! ## Images -/

/-- `IMAGE_ATF` to `IMAGE_FDT2`. -/
inductive ImageKind where
  | atf | fdt | linux | initrd | fdt2
  deriving DecidableEq, Repr

def atfPa : Nat := 0x44000
def linuxImagePa : Nat := 0x40000000
def fdtBlobPa : Nat := 0x4a000000
def fdtBlob2Pa : Nat := 0x4b000000
def initramfsPa : Nat := 0x4fe00000

/-- The `switch` on the image's type. -/
def imageKind (type : Nat) : Option ImageKind :=
  if type = 'A'.toNat then some .atf
  else if type = 'D'.toNat then some .fdt
  else if type = '2'.toNat then some .fdt2
  else if type = 'L'.toNat then some .linux
  else if type = 'I'.toNat then some .initrd
  else none

/-- The type of a kind's images. -/
def ImageKind.code : ImageKind → Nat
  | .atf => 'A'.toNat
  | .fdt => 'D'.toNat
  | .fdt2 => '2'.toNat
  | .linux => 'L'.toNat
  | .initrd => 'I'.toNat

theorem code_of_imageKind {type : Nat} {k : ImageKind} (h : imageKind type = some k) :
    type = k.code := by
  unfold imageKind at h
  repeat' split at h
  all_goals first
    | cases h; assumption
    | cases h

/-- `image_dests`. -/
def ImageKind.dest : ImageKind → Nat
  | .atf => atfPa
  | .fdt => fdtBlobPa
  | .fdt2 => fdtBlob2Pa
  | .linux => linuxImagePa
  | .initrd => initramfsPa

/-- `image_offsets`, `image_sizes` and `loaded_images` of `struct boot`: the images found so far. -/
abbrev ImageTable := ImageKind → Option BootfsImage

/-- `image_sizes` is 0 for an image that is not there. -/
def ImageTable.size (t : ImageTable) (k : ImageKind) : Nat :=
  match t k with
  | some im => im.dataLen
  | none => 0

/-- One round of the loop over `bc->images`. -/
def ImageTable.add (t : ImageTable) (im : BootfsImage) : ImageTable :=
  match imageKind im.type with
  | some k => Function.update t k (some im)
  | none => t

/-- The loop over `bc->images`. -/
def imageTable (blk : List UInt8) : ImageTable :=
  ((List.range 8).map (imageAt blk)).foldl ImageTable.add fun _ => none

/-- The kinds up to `IMAGE_INITRD`. -/
def requiredKinds : List ImageKind := [.atf, .fdt, .linux]

/-- The order of the images' numbers. -/
def imageKinds : List ImageKind := [.atf, .fdt, .linux, .initrd, .fdt2]

/-- The loop that loads the images; none when a load fails. -/
def loadImages (fs : Bootfs) (t : ImageTable) : List ImageKind → Mem → Option Mem
  | [], mem => some mem
  | k :: ks, mem =>
    match t k with
    | none => loadImages fs t ks mem
    | some im =>
      match bootfsLoadImage fs mem k.dest im.dataOff im.dataLen with
      | none => none
      | some (_, mem) => loadImages fs t ks mem

/-- The check for missing images, and the loads. -/
def loadRequired (fs : Bootfs) (t : ImageTable) (mem : Mem) : Option Mem :=
  if requiredKinds.all fun k => (t k).isSome then loadImages fs t imageKinds mem else none

/-! ## p-boot's own memory -/

/-- Addresses that the page tables map. -/
def mappedEnd : Nat := 2 ^ 32

/-- The DRAM that was found, and how much of it is in use from `globals` on. -/
structure Board where
  dramSize : Nat
  /-- From `globals` to `globals->heap_end`: `struct globals`, then what `malloc` has handed out, the
  stack, the log and the metadata of the file systems among it. -/
  heapLen : Nat
  /-- `ALIGN(sizeof *globals, 64)`. -/
  globals_le : 128 ≤ heapLen

/-- `globals`, 256 MiB from the end of DRAM. -/
def Board.globalsPa (b : Board) : Nat := linuxImagePa + b.dramSize - 256 * 1024 * 1024

/-- `&globals->linux_image_pa`; two words and two pointers come before it. -/
def Board.linuxPaAddr (b : Board) : Nat := b.globalsPa + 24

/-- `globals->linux_image_pa`. -/
def Board.linuxPa (b : Board) (mem : Mem) : Nat := ofLe64 (read mem b.linuxPaAddr 8)

/-- `globals->linux_image_pa = pa`. -/
def Board.setLinuxPa (b : Board) (pa : Nat) (mem : Mem) : Mem := write mem b.linuxPaAddr (le64 pa)

/-- Where nothing may be put: the boot ROM and p-boot's image in SRAM (to 0x18000), what lies between
SRAM A2 and DRAM, the globals with the heap, and the page tables with what lies behind DRAM. -/
def Board.taken (b : Board) : List (Nat × Nat) :=
  [(0, 0x18000), (0x54000, linuxImagePa - 0x54000), (b.globalsPa, b.heapLen),
    (ttBase b.dramSize, mappedEnd - ttBase b.dramSize)]

/-- The `n` bytes at `a` are not p-boot's own. -/
def Board.Free (b : Board) (a n : Nat) : Prop := ∀ r ∈ b.taken, Apart r.1 r.2 a n

instance (b : Board) (a n : Nat) : Decidable (b.Free a n) :=
  inferInstanceAs (Decidable (∀ r ∈ b.taken, Apart r.1 r.2 a n))

@[simp] theorem Board.linuxPa_setLinuxPa (b : Board) (pa : Nat) (mem : Mem) :
    b.linuxPa (b.setLinuxPa pa mem) = pa % 2 ^ 64 := by
  have hread := read_write_same mem b.linuxPaAddr (le64 pa)
  rw [length_le64] at hread
  rw [Board.linuxPa, Board.setLinuxPa, hread, ofLe64_le64]

/-- What is not p-boot's own is apart from `globals->linux_image_pa`. -/
theorem Board.Free.apart_linuxPa {b : Board} {a n : Nat} (h : b.Free a n) :
    Apart a n b.linuxPaAddr 8 := by
  have hglobals : Apart b.globalsPa b.heapLen a n := h (b.globalsPa, b.heapLen) (by simp [taken])
  refine (apart_comm.1 hglobals).mono (Nat.le_refl _) (Nat.le_refl _) (Nat.le_add_right _ _) ?_
  have := b.globals_le
  unfold linuxPaAddr
  omega

/-! ## `boot_prepare` -/

/-- The second device tree is copied over the first on board revision 2. -/
def copyFdt2 (t : ImageTable) (boardRev : Nat) (mem : Mem) : Mem :=
  match t .fdt2 with
  | some im =>
    if boardRev = 2 then write mem fdtBlobPa (read mem fdtBlob2Pa im.dataLen) else mem
  | none => mem

/-- `h->magic == 0x644d5241`. -/
def isKernelImage (mem : Mem) : Bool := ofLe32 (read mem (linuxImagePa + 56) 4) == 0x644d5241

/-- `h->text_offset` of a header's bytes. -/
def textOffset (hdr : List UInt8) : Nat := ofLe64 (hdr.drop 8)

/-- The kernel of `len` bytes is moved by its text offset. -/
def relocateKernel (b : Board) (len : Nat) (mem : Mem) : Option Mem :=
  let mem := b.setLinuxPa linuxImagePa mem
  let off := textOffset (read mem linuxImagePa 64)
  if off ≠ 0 then
    let mem := b.setLinuxPa (b.linuxPa mem + off) mem
    let pa := b.linuxPa mem
    if 0 < len ∧ mappedEnd < pa + len then none else some (memmove mem pa linuxImagePa len)
  else some mem

/-- The kernel's check and its relocation. -/
def placeKernel (b : Board) (len : Nat) (mem : Mem) : Option Mem :=
  if isKernelImage mem then relocateKernel b len mem else none

/-- `fdt_check_header`; with `FDT_ASSUME_MASK` 0xff only the magic is checked. -/
def fdtCheckHeader (mem : Mem) (fdt : Nat) : Bool := ofBe32 (read mem fdt 4) == 0xd00dfeed

/-- What `boot_prepare` leaves. -/
structure Prepared where
  mem : Mem
  /-- `globals->linux_image_pa`. -/
  linuxPa : Nat

/-- `boot_prepare` up to the edits of the device tree. Of `globals` only `linux_image_pa` is in
memory: what a run does that overwrites other data of p-boot's own (`Board.taken`) is not said. -/
def bootPrepare (b : Board) (fs : Bootfs) (i boardRev : Nat) (mem : Mem) : Option Prepared := do
  let t := imageTable (fs.blockFrom i)
  let mem ← loadRequired fs t mem
  let mem := copyFdt2 t boardRev mem
  let mem ← placeKernel b (t.size .linux) mem
  if fdtCheckHeader mem fdtBlobPa then some { mem, linuxPa := b.linuxPa mem } else none

/-! ## What a run that gets past the checks did -/

/-- The last of the images of a kind. -/
theorem foldl_add (ims : List BootfsImage) (t : ImageTable) (k : ImageKind) :
    ims.foldl ImageTable.add t k =
      ((ims.filter fun im => imageKind im.type == some k).getLast?).or (t k) := by
  induction ims generalizing t with
  | nil => rfl
  | cons im ims ih =>
    rw [List.foldl_cons, ih, List.filter_cons]
    by_cases hk : imageKind im.type = some k
    · have hadd : t.add im k = some im := by
        unfold ImageTable.add
        rw [hk]
        exact Function.update_self _ _ _
      rw [if_pos (by rw [hk]; exact beq_self_eq_true _), hadd, List.getLast?_cons]
      cases (ims.filter fun im => imageKind im.type == some k).getLast? <;> rfl
    · have hadd : t.add im k = t k := by
        unfold ImageTable.add
        rcases hk' : imageKind im.type with _ | k'
        · rfl
        · exact Function.update_of_ne (fun h => hk (hk'.trans (congrArg some h.symm))) _ _
      rw [if_neg (by simpa using hk), hadd]

/-- The images of a written block. -/
theorem imageTable_confBlock {images : List BootfsImage} (h : images.length ≤ 8)
    (hf : ∀ im ∈ images, im.Fits) (bootArgs name t : List UInt8) :
    imageTable (confBlock images bootArgs name ++ t) = images.foldl ImageTable.add fun _ => none := by
  obtain ⟨unused, h0, himages⟩ := images_confBlock h hf bootArgs name t
  funext k
  have hnil : unused.filter (fun im => imageKind im.type == some k) = [] :=
    List.filter_eq_nil_iff.2 fun im him => by
      rw [h0 im him]
      exact Bool.false_ne_true
  rw [imageTable, himages, List.foldl_append, foldl_add unused, hnil]
  rfl

theorem bootPrepare_some {b : Board} {fs : Bootfs} {i boardRev : Nat} {mem : Mem} {p : Prepared}
    (h : bootPrepare b fs i boardRev mem = some p) :
    (∀ k ∈ requiredKinds, ∃ im, imageTable (fs.blockFrom i) k = some im) ∧
      p.linuxPa = b.linuxPa p.mem ∧
      ∃ m₁, loadImages fs (imageTable (fs.blockFrom i)) imageKinds mem = some m₁ ∧
        relocateKernel b ((imageTable (fs.blockFrom i)).size .linux)
          (copyFdt2 (imageTable (fs.blockFrom i)) boardRev m₁) = some p.mem := by
  simp only [bootPrepare, Option.bind_eq_bind, Option.bind_eq_some_iff] at h
  obtain ⟨m₁, h₁, m₂, h₂, h₃⟩ := h
  unfold loadRequired at h₁
  unfold placeKernel at h₂
  split at h₁
  · rename_i hreq
    split at h₂
    · split at h₃
      · cases h₃
        refine ⟨fun k hk => Option.isSome_iff_exists.1 ?_, rfl, m₁, h₁, h₂⟩
        exact List.all_eq_true.1 hreq k hk
      · cases h₃
    · cases h₂
  · cases h₁

theorem bootPrepare_of {b : Board} {fs : Bootfs} {i : Nat} {t : ImageTable} {mem m₁ m₂ : Mem}
    (boardRev : Nat) (ht : imageTable (fs.blockFrom i) = t)
    (hload : loadRequired fs t mem = some m₁)
    (hplace : placeKernel b (t.size .linux) (copyFdt2 t boardRev m₁) = some m₂)
    (hfdt : fdtCheckHeader m₂ fdtBlobPa = true) :
    bootPrepare b fs i boardRev mem = some { mem := m₂, linuxPa := b.linuxPa m₂ } := by
  subst ht
  simp only [bootPrepare, Option.bind_eq_bind, Option.bind_eq_some_iff]
  exact ⟨m₁, hload, m₂, hplace, if_pos hfdt⟩

end PBoot
