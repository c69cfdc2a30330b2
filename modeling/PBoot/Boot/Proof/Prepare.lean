import PBoot.Boot.Prepare
import PBoot.Storage.Proof.Open

/-!
# What is executed is what is on disk

* `loadImages_exec`, `copyFdt2_exec`, `relocateKernel_exec`: the writes of `boot_prepare` as
  operations on placed images.
* `kept_iff`: when no image reaches p-boot's own memory, no write touches an image in place exactly
  when the sizes fit between the fixed addresses and the moved kernel stays apart from the other
  images.
* `free_load`: with 1 to 3 GiB of DRAM only an ATF over 64 KiB is loaded into p-boot's own memory.
* `runsDisk_iff`: exactly when the sizes fit and p-boot's own memory is free of images, the images in
  memory are the ones on disk and nothing else is taken for one.
-/

namespace PBoot

open Bytes Placement

/-! ## The images of a configuration -/

/-- The bytes of an image, and what follows them in the last sector that is read. -/
def imageBytes (fs : Bootfs) (t : ImageTable) (k : ImageKind) : List UInt8 :=
  match t k with
  | some im => fs.extent im.dataOff im.dataLen
  | none => []

def imageRest (fs : Bootfs) (t : ImageTable) (k : ImageKind) : List UInt8 :=
  match t k with
  | some im =>
    (read fs.mmc.data (fs.mmcOffset + im.dataOff) (roundUp512 im.dataLen)).drop im.dataLen
  | none => []

/-- The second device tree is in use. -/
def usesFdt2 (t : ImageTable) (boardRev : Nat) : Bool := (t .fdt2).isSome && boardRev == 2

/-- The device tree that is used. -/
def dtbKind (use2 : Bool) : ImageKind := if use2 then .fdt2 else .fdt

/-- Whether an image is used from where it is loaded. -/
def inUse (use2 : Bool) : ImageKind → Bool
  | .fdt => !use2
  | .fdt2 => use2
  | _ => true

/-- Where the kernel is meant to be, by the header on disk. -/
def kernelPa (fs : Bootfs) (t : ImageTable) : Nat :=
  match t .linux with
  | some im => (linuxImagePa + textOffset (read fs.mmc.data (fs.mmcOffset + im.dataOff) 64)) % 2 ^ 64
  | none => linuxImagePa

/-! ## The writes -/

/-- An image is loaded, whole sectors at a time. -/
def loadOp (fs : Bootfs) (t : ImageTable) (use2 : Bool) (k : ImageKind) : Op ImageKind :=
  .put (if inUse use2 k then some k else none) k.dest (imageBytes fs t k) (imageRest fs t k)

/-- The second device tree is copied over the first, if it is in use. -/
def copyOps (t : ImageTable) (use2 : Bool) : List (Op ImageKind) :=
  if use2 then [.move .fdt2 .fdt fdtBlob2Pa fdtBlobPa (t.size .fdt2)] else []

/-- The kernel is moved, unless it stays. -/
def moveOps (t : ImageTable) (pa : Nat) : List (Op ImageKind) :=
  if pa = linuxImagePa then [] else [.move .linux .linux linuxImagePa pa (t.size .linux)]

/-- The images that are written, in order. -/
def imageOps (fs : Bootfs) (t : ImageTable) (use2 : Bool) (pa : Nat) : List (Op ImageKind) :=
  imageKinds.map (loadOp fs t use2) ++ copyOps t use2 ++ moveOps t pa

/-- `globals->linux_image_pa` is set. -/
def fieldOp (b : Board) (pa : Nat) : Op ImageKind := .put none b.linuxPaAddr (le64 pa) []

/-- The kernel is moved, and its place is written down. -/
def placeOps (b : Board) (t : ImageTable) (pa : Nat) : List (Op ImageKind) :=
  fieldOp b linuxImagePa :: if pa = linuxImagePa then [] else fieldOp b pa :: moveOps t pa

/-- The writes of `boot_prepare`, in order. -/
def bootOps (b : Board) (fs : Bootfs) (t : ImageTable) (use2 : Bool) (pa : Nat) :
    List (Op ImageKind) :=
  imageKinds.map (loadOp fs t use2) ++ copyOps t use2 ++ placeOps b t pa

/-- What is executed is what is on disk. -/
structure RunsDisk (b : Board) (fs : Bootfs) (t : ImageTable) (boardRev : Nat) (mem : Mem)
    (p : Prepared) : Prop where
  writes : p.mem = (bootOps b fs t (usesFdt2 t boardRev) (kernelPa fs t)).foldl Op.exec mem
  /-- The kernel is where its header on disk says. -/
  linuxPa : p.linuxPa = kernelPa fs t
  /-- No write touches an image that is in place. -/
  kept : Kept (fun _ => none) (bootOps b fs t (usesFdt2 t boardRev) (kernelPa fs t))
  /-- No image is written to p-boot's own memory. -/
  free : ∀ op ∈ imageOps fs t (usesFdt2 t boardRev) (kernelPa fs t), b.Free op.dest op.len
  atf : read p.mem atfPa (t.size .atf) = imageBytes fs t .atf
  initrd : read p.mem initramfsPa (t.size .initrd) = imageBytes fs t .initrd
  kernel : read p.mem p.linuxPa (t.size .linux) = imageBytes fs t .linux
  dtb : read p.mem fdtBlobPa (t.size (dtbKind (usesFdt2 t boardRev))) =
    imageBytes fs t (dtbKind (usesFdt2 t boardRev))
  /-- What was in memory before is not taken for an image. -/
  fresh : 0 < t.size .atf ∧ 0 < t.size .linux ∧ 0 < t.size (dtbKind (usesFdt2 t boardRev))

/-- The sizes fit between the addresses, the moved kernel stays apart from the other images, and
nothing is put where p-boot keeps its own data. -/
structure LayoutOk (b : Board) (fs : Bootfs) (t : ImageTable) (boardRev : Nat) : Prop where
  atf : 0 < t.size .atf
  linux : 0 < t.size .linux
  dtb : 0 < t.size (dtbKind (usesFdt2 t boardRev))
  linux_dtb : t.size .linux ≤ 160 * 1024 * 1024
  dtb_initrd : usesFdt2 t boardRev = false → 0 < t.size .initrd → t.size .fdt ≤ 94 * 1024 * 1024
  dtb_dtb2 : usesFdt2 t boardRev = false → 0 < t.size .fdt2 → t.size .fdt ≤ 16 * 1024 * 1024
  dtb2_initrd : 0 < t.size .initrd → t.size .fdt2 ≤ 78 * 1024 * 1024
  moved : kernelPa fs t ≠ linuxImagePa →
    Apart atfPa (t.size .atf) (kernelPa fs t) (t.size .linux) ∧
      Apart fdtBlobPa (t.size (dtbKind (usesFdt2 t boardRev))) (kernelPa fs t) (t.size .linux) ∧
      Apart initramfsPa (t.size .initrd) (kernelPa fs t) (t.size .linux)
  loads_free : ∀ k, b.Free k.dest (roundUp512 (t.size k))
  copy_free : usesFdt2 t boardRev = true → b.Free fdtBlobPa (t.size .fdt2)
  move_free : kernelPa fs t ≠ linuxImagePa → b.Free (kernelPa fs t) (t.size .linux)

/-! ## `boot_prepare` as these writes -/

section
variable {fs : Bootfs} {t : ImageTable} {use2 : Bool} {k : ImageKind} {mem m : Mem}

@[simp] theorem length_imageBytes : (imageBytes fs t k).length = t.size k := by
  unfold imageBytes ImageTable.size
  cases t k with
  | none => rfl
  | some im => exact length_read _ _ _

theorem bytes_append_rest {im : BootfsImage} (h : t k = some im) :
    imageBytes fs t k ++ imageRest fs t k =
      read fs.mmc.data (fs.mmcOffset + im.dataOff) (roundUp512 im.dataLen) := by
  unfold imageBytes imageRest
  rw [h]
  dsimp only
  have htake : fs.extent im.dataOff im.dataLen =
      (read fs.mmc.data (fs.mmcOffset + im.dataOff) (roundUp512 im.dataLen)).take im.dataLen := by
    rw [take_read, Nat.min_eq_left (le_roundUp512 _), Bootfs.extent]
  rw [htake, List.take_append_drop]

theorem length_bytes_append_rest :
    (imageBytes fs t k ++ imageRest fs t k).length = roundUp512 (t.size k) := by
  rcases h : t k with _ | im
  · unfold imageBytes imageRest ImageTable.size
    rw [h]
    rfl
  · rw [bytes_append_rest h, length_read, ImageTable.size, h]

theorem loadOp_exec (hal : fs.mmcOffset % 512 = 0) {im : BootfsImage} (h : t k = some im) {n : Nat}
    (hl : bootfsLoadImage fs mem k.dest im.dataOff im.dataLen = some (n, m)) :
    m = (loadOp fs t use2 k).exec mem := by
  have hdest : k.dest ≠ 0 := by cases k <;> decide
  show m = write mem k.dest (imageBytes fs t k ++ imageRest fs t k)
  rw [bytes_append_rest h]
  rcases bootfsLoadImage_some hdest hl with ⟨h0, -, rfl⟩ | ⟨-, -, ho, -, bs, hbs, rfl⟩
  · rw [h0]
    exact (write_nil _ _).symm
  · rw [(mmcReadData_extent hbs hal ho).1]

theorem loadImages_exec (hal : fs.mmcOffset % 512 = 0) {ks : List ImageKind}
    (h : loadImages fs t ks mem = some m) (use2 : Bool) :
    m = (ks.map (loadOp fs t use2)).foldl Op.exec mem := by
  induction ks generalizing mem with
  | nil =>
    cases h
    rfl
  | cons k ks ih =>
    unfold loadImages at h
    rw [List.map_cons, List.foldl_cons]
    rcases hk : t k with _ | im
    · rw [hk] at h
      have hexec : (loadOp fs t use2 k).exec mem = mem := by
        show write mem k.dest (imageBytes fs t k ++ imageRest fs t k) = mem
        unfold imageBytes imageRest
        rw [hk]
        exact write_nil _ _
      rw [hexec]
      exact ih h
    · rw [hk] at h
      dsimp only at h
      split at h
      · cases h
      · rename_i n m₁ hl
        rw [← loadOp_exec hal hk hl]
        exact ih h

/-- What `bootfs_load_image` admits. -/
theorem loadImages_size {ks : List ImageKind} (h : loadImages fs t ks mem = some m) :
    ∀ k ∈ ks, t.size k ≤ 512 * 1024 * 1024 := by
  induction ks generalizing mem with
  | nil => exact fun _ hk => nomatch hk
  | cons k ks ih =>
    unfold loadImages at h
    rw [List.forall_mem_cons]
    rcases hk : t k with _ | im
    · rw [hk] at h
      refine ⟨?_, ih h⟩
      rw [ImageTable.size, hk]
      exact Nat.zero_le _
    · rw [hk] at h
      dsimp only at h
      split at h
      · cases h
      · rename_i n m₁ hl
        refine ⟨?_, ih h⟩
        rw [ImageTable.size, hk]
        have hdest : k.dest ≠ 0 := by cases k <;> decide
        rcases bootfsLoadImage_some hdest hl with ⟨h0, -⟩ | ⟨-, -, -, hle, -⟩
        · exact (Nat.le_of_eq h0).trans (Nat.zero_le _)
        · exact hle

theorem copyFdt2_exec (t : ImageTable) (boardRev : Nat) (m : Mem) :
    copyFdt2 t boardRev m = (copyOps t (usesFdt2 t boardRev)).foldl Op.exec m := by
  unfold copyFdt2 copyOps usesFdt2 ImageTable.size
  rcases t .fdt2 with _ | im
  · rfl
  · by_cases hr : boardRev = 2
    · subst hr
      rfl
    · simp [hr]

theorem textOffset_lt (hdr : List UInt8) : textOffset hdr < 2 ^ 64 := ofLe64_lt _

theorem fieldOp_exec (b : Board) (pa : Nat) (m : Mem) : (fieldOp b pa).exec m = b.setLinuxPa pa m := by
  rw [Board.setLinuxPa, fieldOp, Op.exec, List.append_nil]

theorem read_setLinuxPa {b : Board} {a n : Nat} (h : Apart a n b.linuxPaAddr 8) (pa : Nat) (m : Mem) :
    read (b.setLinuxPa pa m) a n = read m a n := by
  rw [← fieldOp_exec]
  exact read_exec_of_apart h

theorem placeOps_exec (b : Board) (t : ImageTable) (pa : Nat) (m : Mem) :
    (placeOps b t pa).foldl Op.exec m =
      if pa = linuxImagePa then b.setLinuxPa linuxImagePa m
      else (Op.move ImageKind.linux .linux linuxImagePa pa (t.size .linux)).exec
        (b.setLinuxPa pa (b.setLinuxPa linuxImagePa m)) := by
  unfold placeOps moveOps
  by_cases hpa : pa = linuxImagePa
  · rw [if_pos hpa, if_pos hpa, List.foldl_cons, List.foldl_nil, fieldOp_exec]
  · rw [if_neg hpa, if_neg hpa, if_neg hpa, List.foldl_cons, List.foldl_cons, List.foldl_cons,
      List.foldl_nil, fieldOp_exec, fieldOp_exec]

/-- `linux_image_pa` is apart from the header when it is set, so it is computed from the header. -/
theorem relocateKernel_exec {b : Board} (hfield : Apart linuxImagePa 64 b.linuxPaAddr 8)
    (h : relocateKernel b (t.size .linux) mem = some m) :
    m = (placeOps b t ((linuxImagePa + textOffset (read mem linuxImagePa 64)) % 2 ^ 64)).foldl
      Op.exec mem := by
  have hheader : read (b.setLinuxPa linuxImagePa mem) linuxImagePa 64 = read mem linuxImagePa 64 :=
    read_setLinuxPa hfield _ _
  have hL : linuxImagePa < 2 ^ 63 := by decide
  have hlt := textOffset_lt (read mem linuxImagePa 64)
  unfold relocateKernel at h
  simp only [hheader, Board.linuxPa_setLinuxPa, Nat.mod_eq_of_lt (show linuxImagePa < 2 ^ 64 by omega)]
    at h
  generalize textOffset (read mem linuxImagePa 64) = off at h hlt ⊢
  obtain ⟨pa, hpa⟩ : ∃ pa, pa = (linuxImagePa + off) % 2 ^ 64 := ⟨_, rfl⟩
  have hset : b.setLinuxPa (linuxImagePa + off) (b.setLinuxPa linuxImagePa mem) =
      b.setLinuxPa pa (b.setLinuxPa linuxImagePa mem) := by
    rw [Board.setLinuxPa, Board.setLinuxPa, Board.setLinuxPa, hpa, le64_mod]
  rw [hset, ← hpa] at h
  rw [← hpa, placeOps_exec]
  split at h
  · rename_i hne
    split at h
    · cases h
    · rename_i hmapped
      have hmapped : ¬(0 < t.size .linux ∧ 2 ^ 32 < pa + t.size .linux) := hmapped
      have hmove := memmove_eq (b.setLinuxPa pa (b.setLinuxPa linuxImagePa mem))
        (show pa + t.size .linux ≤ 2 ^ 64 by omega)
        (show linuxImagePa + t.size .linux ≤ 2 ^ 64 by omega) (by omega)
      rw [if_neg (by omega), ← Option.some.inj h]
      exact hmove
  · rename_i h0
    rw [if_pos (by omega)]
    exact (Option.some.inj h).symm

/-- The kernel's header is still there when it is looked at. -/
theorem header_loaded {im : BootfsImage} (h : t .linux = some im) (h0 : 0 < t.size .linux) :
    read ((copyOps t use2).foldl Op.exec ((imageKinds.map (loadOp fs t use2)).foldl Op.exec mem))
      linuxImagePa 64 = read fs.mmc.data (fs.mmcOffset + im.dataOff) 64 := by
  rw [← List.foldl_append, show imageKinds.map (loadOp fs t use2) ++ copyOps t use2 =
    [loadOp fs t use2 .atf, loadOp fs t use2 .fdt, loadOp fs t use2 .linux] ++
      ([loadOp fs t use2 .initrd, loadOp fs t use2 .fdt2] ++ copyOps t use2) by rfl,
    List.foldl_append, read_foldl_of_apart]
  · have hlen : 64 ≤ roundUp512 im.dataLen := by
      unfold ImageTable.size at h0
      rw [h] at h0
      unfold roundUp512
      dsimp only at h0
      omega
    show read (write _ linuxImagePa (imageBytes fs t .linux ++ imageRest fs t .linux)) linuxImagePa
      64 = _
    rw [bytes_append_rest h]
    rw [read_write_head (by rwa [length_read]), take_read, Nat.min_eq_left hlen]
  · -- everything later goes to higher addresses
    intro op hop
    refine .inr (.inr (.inl ?_))
    simp only [List.mem_append, List.mem_cons, List.not_mem_nil, or_false] at hop
    rcases hop with (rfl | rfl) | hop
    · exact show linuxImagePa + 64 ≤ initramfsPa by decide
    · exact show linuxImagePa + 64 ≤ fdtBlob2Pa by decide
    · unfold copyOps at hop
      split at hop
      · rw [List.mem_singleton.1 hop]
        exact show linuxImagePa + 64 ≤ fdtBlobPa by decide
      · cases hop

end

/-! ## When nothing in place is touched -/

theorem ImageKind.forall_iff {P : ImageKind → Prop} :
    (∀ k, P k) ↔ P .atf ∧ P .fdt ∧ P .linux ∧ P .initrd ∧ P .fdt2 := by
  refine ⟨fun h => ⟨h _, h _, h _, h _, h _⟩, fun ⟨ha, hd, hl, hi, h2⟩ k => ?_⟩
  cases k with
  | atf => exact ha
  | fdt => exact hd
  | linux => exact hl
  | initrd => exact hi
  | fdt2 => exact h2

section
variable (b : Board) (fs : Bootfs) (t : ImageTable) (use2 : Bool) (pa : Nat)

/-- Where the images are meant to be once the kernel is at `pa`. -/
def bootPlaces : Places ImageKind
  | .atf => some (atfPa, imageBytes fs t .atf)
  | .fdt => some (fdtBlobPa, imageBytes fs t (dtbKind use2))
  | .linux => some (pa, imageBytes fs t .linux)
  | .initrd => some (initramfsPa, imageBytes fs t .initrd)
  | .fdt2 => none

theorem loaded_places : (imageKinds.map (loadOp fs t use2)).foldl Op.places (fun _ => none) =
    fun k => if inUse use2 k then some (k.dest, imageBytes fs t k) else none := by
  funext k
  cases use2 <;> cases k <;> simp [imageKinds, loadOp, inUse, Op.places]

theorem copied_places : (imageKinds.map (loadOp fs t use2) ++ copyOps t use2).foldl Op.places
    (fun _ => none) = bootPlaces fs t use2 linuxImagePa := by
  rw [List.foldl_append, loaded_places]
  funext k
  cases use2 <;> cases k <;>
    simp [copyOps, inUse, Op.places, bootPlaces, dtbKind, ImageKind.dest]

theorem moved_places : (bootOps b fs t use2 pa).foldl Op.places (fun _ => none) =
    bootPlaces fs t use2 pa := by
  rw [bootOps, List.foldl_append, copied_places]
  funext k
  unfold placeOps moveOps
  by_cases hpa : pa = linuxImagePa
  · rw [if_pos hpa, hpa]
    rfl
  · rw [if_neg hpa, if_neg hpa]
    cases k <;> simp [fieldOp, Op.places, bootPlaces]

/-- Only images in their places are moved. -/
theorem legal_bootOps : Legal (fun _ => none) (bootOps b fs t use2 pa) := by
  rw [bootOps, legal_append, legal_append, copied_places, loaded_places]
  refine ⟨⟨?_, ?_⟩, ?_⟩
  · simp [imageKinds, loadOp, Legal, Op.Legal]
  · unfold copyOps
    cases use2 with
    | false => trivial
    | true => exact ⟨⟨imageBytes fs t .fdt2, rfl, length_imageBytes⟩, trivial⟩
  · unfold placeOps moveOps
    split
    · exact ⟨trivial, trivial⟩
    · exact ⟨trivial, trivial, ⟨imageBytes fs t .linux, rfl, length_imageBytes⟩, trivial⟩

/-! ## When nothing in place is touched -/

/-- The loads; the first device tree is in place unless the second one is in use. -/
theorem kept_loads :
    Kept (fun _ => none) (imageKinds.map (loadOp fs t use2)) ↔
      Apart atfPa (t.size .atf) fdtBlobPa (roundUp512 (t.size .fdt)) ∧
      (Apart atfPa (t.size .atf) linuxImagePa (roundUp512 (t.size .linux)) ∧
        (use2 = false → Apart fdtBlobPa (t.size .fdt) linuxImagePa (roundUp512 (t.size .linux)))) ∧
      (Apart atfPa (t.size .atf) initramfsPa (roundUp512 (t.size .initrd)) ∧
        (use2 = false → Apart fdtBlobPa (t.size .fdt) initramfsPa (roundUp512 (t.size .initrd))) ∧
        Apart linuxImagePa (t.size .linux) initramfsPa (roundUp512 (t.size .initrd))) ∧
      Apart atfPa (t.size .atf) fdtBlob2Pa (roundUp512 (t.size .fdt2)) ∧
      (use2 = false → Apart fdtBlobPa (t.size .fdt) fdtBlob2Pa (roundUp512 (t.size .fdt2))) ∧
      Apart linuxImagePa (t.size .linux) fdtBlob2Pa (roundUp512 (t.size .fdt2)) ∧
      Apart initramfsPa (t.size .initrd) fdtBlob2Pa (roundUp512 (t.size .fdt2)) := by
  cases use2 <;>
    simp [Kept, Op.Spares, Op.places, Op.Replaces, Op.dest, Op.len, ImageKind.forall_iff,
      Function.update_apply, imageKinds, loadOp, inUse, ImageKind.dest, length_bytes_append_rest,
      -List.length_append]

theorem kept_copy :
    Kept (fun k => if inUse use2 k then some (k.dest, imageBytes fs t k) else none)
        (copyOps t use2) ↔
      (use2 = true → Apart atfPa (t.size .atf) fdtBlobPa (t.size .fdt2) ∧
        Apart linuxImagePa (t.size .linux) fdtBlobPa (t.size .fdt2) ∧
        Apart initramfsPa (t.size .initrd) fdtBlobPa (t.size .fdt2)) := by
  cases use2 <;>
    simp [copyOps, Kept, Op.Spares, Op.Replaces, Op.dest, Op.len, ImageKind.forall_iff, inUse,
      ImageKind.dest]

/-- The images in place are apart from `linux_image_pa`, so only the kernel's move may touch one. -/
theorem kept_place
    (hfield : ∀ k x, bootPlaces fs t use2 linuxImagePa k = some x → Apart x.1 x.2.length b.linuxPaAddr 8) :
    Kept (bootPlaces fs t use2 linuxImagePa) (placeOps b t pa) ↔
      (pa ≠ linuxImagePa → Apart atfPa (t.size .atf) pa (t.size .linux) ∧
        Apart fdtBlobPa (t.size (dtbKind use2)) pa (t.size .linux) ∧
        Apart initramfsPa (t.size .initrd) pa (t.size .linux)) := by
  have hspares : ∀ pa, (fieldOp b pa).Spares (bootPlaces fs t use2 linuxImagePa) :=
    fun pa k x hx _ => hfield k x hx
  unfold placeOps moveOps
  by_cases hpa : pa = linuxImagePa
  · simp only [hpa, ↓reduceIte, Kept, hspares, and_self, ne_eq, not_true_eq_false, false_implies]
  · have hplaces : ∀ pa, (fieldOp b pa).places (bootPlaces fs t use2 linuxImagePa) =
        bootPlaces fs t use2 linuxImagePa := fun _ => rfl
    simp only [hpa, ↓reduceIte, Kept, hspares, hplaces, true_and, ne_eq, not_false_eq_true,
      forall_const, and_true]
    simp [Op.Spares, Op.Replaces, Op.dest, Op.len, ImageKind.forall_iff, bootPlaces]

theorem apart_round_lt {a n b k : Nat} (h : a < b) :
    Apart a n b (roundUp512 k) ↔ (0 < k → n ≤ b - a) := by
  rw [apart_iff_of_lt h]
  unfold roundUp512
  omega

theorem apart_round_gt {a n b k : Nat} (h : b < a) (h512 : (a - b) % 512 = 0) :
    Apart a n b (roundUp512 k) ↔ (0 < n → k ≤ a - b) := by
  rw [apart_iff_of_gt h]
  unfold roundUp512
  omega

/-- The distances between the places above the ATF. -/
theorem place_gaps : fdtBlobPa = linuxImagePa + 160 * 1024 * 1024 ∧
    fdtBlob2Pa = fdtBlobPa + 16 * 1024 * 1024 ∧ initramfsPa = fdtBlob2Pa + 78 * 1024 * 1024 :=
  ⟨rfl, rfl, rfl⟩

/-- The ATF is far below everything that is loaded or copied. -/
theorem apart_atf {b n : Nat} (hs : t.size .atf ≤ 512 * 1024 * 1024) (hb : linuxImagePa ≤ b) :
    Apart atfPa (t.size .atf) b n := by
  refine .inr (.inr (.inl ?_))
  unfold linuxImagePa at hb
  unfold atfPa
  omega

/-- The images in place are where nothing is p-boot's own. -/
theorem apart_field (hload : ∀ k, b.Free k.dest (roundUp512 (t.size k)))
    (hcopy : use2 = true → b.Free fdtBlobPa (t.size .fdt2)) :
    ∀ k x, bootPlaces fs t use2 linuxImagePa k = some x → Apart x.1 x.2.length b.linuxPaAddr 8 := by
  have hplace : ∀ k, Apart k.dest (t.size k) b.linuxPaAddr 8 := fun k =>
    (hload k).apart_linuxPa.mono (Nat.le_refl _) (Nat.add_le_add_left (le_roundUp512 _) _)
      (Nat.le_refl _) (Nat.le_refl _)
  intro k x hx
  cases k with
  | atf => cases hx; rw [length_imageBytes]; exact hplace .atf
  | linux => cases hx; rw [length_imageBytes]; exact hplace .linux
  | initrd => cases hx; rw [length_imageBytes]; exact hplace .initrd
  | fdt2 => cases hx
  | fdt =>
    cases hx
    rw [length_imageBytes]
    cases use2 with
    | false => exact hplace .fdt
    | true => exact (hcopy rfl).apart_linuxPa

/-- **Nothing in place is touched** exactly when the sizes fit and the moved kernel stays apart. -/
theorem kept_iff (hs : ∀ k, t.size k ≤ 512 * 1024 * 1024) (hl : 0 < t.size .linux)
    (hd : 0 < t.size (dtbKind use2)) (hload : ∀ k, b.Free k.dest (roundUp512 (t.size k)))
    (hcopy : use2 = true → b.Free fdtBlobPa (t.size .fdt2)) :
    Kept (fun _ => none) (bootOps b fs t use2 pa) ↔
      (t.size .linux ≤ 160 * 1024 * 1024 ∧
        (use2 = false → 0 < t.size .initrd → t.size .fdt ≤ 94 * 1024 * 1024) ∧
        (use2 = false → 0 < t.size .fdt2 → t.size .fdt ≤ 16 * 1024 * 1024) ∧
        (0 < t.size .initrd → t.size .fdt2 ≤ 78 * 1024 * 1024)) ∧
      (pa ≠ linuxImagePa → Apart atfPa (t.size .atf) pa (t.size .linux) ∧
        Apart fdtBlobPa (t.size (dtbKind use2)) pa (t.size .linux) ∧
        Apart initramfsPa (t.size .initrd) pa (t.size .linux)) := by
  rw [bootOps, kept_append, kept_append, copied_places, loaded_places, kept_copy,
    kept_place b fs t use2 pa (apart_field b fs t use2 hload hcopy)]
  refine and_congr ?_ Iff.rfl
  obtain ⟨hdtb, hdtb2, hinitrd⟩ := place_gaps
  have hatf : ∀ b n, linuxImagePa ≤ b → Apart atfPa (t.size .atf) b n :=
    fun _ _ hb => apart_atf t (hs .atf) hb
  cases use2 with
  | false =>
    have hd : 0 < t.size .fdt := hd
    simp (disch := omega) only [kept_loads, hatf, apart_round_lt, apart_round_gt, true_and,
      Bool.false_eq_true, IsEmpty.forall_iff, and_true, forall_const]
    omega
  | true =>
    have hd : 0 < t.size .fdt2 := hd
    have hkernel := apart_iff_of_lt (n := t.size .linux) (k := t.size .fdt2)
      (show linuxImagePa < fdtBlobPa by omega)
    have hcopy := apart_iff_of_gt (n := t.size .initrd) (k := t.size .fdt2)
      (show fdtBlobPa < initramfsPa by omega)
    simp (disch := omega) only [kept_loads, hatf, apart_round_lt, apart_round_gt, hkernel,
      hcopy, true_and, Bool.true_eq_false, IsEmpty.forall_iff, forall_const]
    omega

/-! ## When p-boot's own memory is free -/

theorem imageOps_free_iff : (∀ op ∈ imageOps fs t use2 pa, b.Free op.dest op.len) ↔
    (∀ k, b.Free k.dest (roundUp512 (t.size k))) ∧
      (use2 = true → b.Free fdtBlobPa (t.size .fdt2)) ∧
      (pa ≠ linuxImagePa → b.Free pa (t.size .linux)) := by
  have hload : (∀ k ∈ imageKinds, b.Free (loadOp fs t use2 k).dest (loadOp fs t use2 k).len) ↔
      ∀ k, b.Free k.dest (roundUp512 (t.size k)) := by
    have hlen : ∀ k, (loadOp fs t use2 k).len = roundUp512 (t.size k) :=
      fun _ => length_bytes_append_rest
    simp only [hlen]
    exact ⟨fun h k => h k (by cases k <;> decide), fun h k _ => h k⟩
  simp only [imageOps, List.forall_mem_append, List.forall_mem_map, hload, and_assoc]
  refine and_congr Iff.rfl (and_congr ?_ ?_)
  · cases use2 <;> simp [copyOps, Op.dest, Op.len]
  · unfold moveOps
    by_cases hpa : pa = linuxImagePa
    · simp [hpa]
    · simp [hpa, Op.dest, Op.len]

end

/-- With 1 to 3 GiB of DRAM, what lies in SRAM A2 or in the first 768 MiB of DRAM is not p-boot's
own. -/
theorem free_of_place {b : Board} {a n : Nat} (hmin : 2 ^ 30 ≤ b.dramSize)
    (hmax : b.dramSize ≤ 3 * 2 ^ 30)
    (h : (0x44000 ≤ a ∧ a + n ≤ 0x54000) ∨ (0x40000000 ≤ a ∧ a + n ≤ 0x70000000)) : b.Free a n := by
  have htt : ttBase b.dramSize = 0x40000000 + b.dramSize - 4096 * 2 := by
    rw [ttBase, Nat.mod_eq_of_lt (by omega)]
  have hglobals : b.globalsPa = 0x40000000 + b.dramSize - 256 * 1024 * 1024 := rfl
  intro r hr
  simp only [Board.taken, List.mem_cons, List.not_mem_nil, or_false] at hr
  rcases hr with rfl | rfl | rfl | rfl
  · exact .inr (.inr (by omega))
  · rcases h with h | h
    · exact .inr (.inr (.inr h.2))
    · exact .inr (.inr (.inl h.1))
  · exact .inr (.inr (by omega))
  · exact .inr (.inr (by omega))

/-- Whatever `bootfs_load_image` admits is loaded there; only an ATF may be too large for SRAM A2. -/
theorem free_load {b : Board} {k : ImageKind} {n : Nat} (hmin : 2 ^ 30 ≤ b.dramSize)
    (hmax : b.dramSize ≤ 3 * 2 ^ 30) (hn : n ≤ 512 * 1024 * 1024) (hatf : k = .atf → n ≤ 0x10000) :
    b.Free k.dest (roundUp512 n) := by
  have hround : roundUp512 n ≤ 512 * 1024 * 1024 ∧ (n ≤ 0x10000 → roundUp512 n ≤ 0x10000) := by
    unfold roundUp512
    omega
  have hdram : ∀ a, 0x40000000 ≤ a → a ≤ 0x50000000 → b.Free a (roundUp512 n) := fun a ha ha' =>
    free_of_place hmin hmax (.inr ⟨ha, by omega⟩)
  cases k with
  | atf => exact free_of_place hmin hmax (.inl ⟨by decide, Nat.add_le_add_left (hround.2 (hatf rfl)) _⟩)
  | fdt => exact hdram _ (by decide) (by decide)
  | linux => exact hdram _ (by decide) (by decide)
  | initrd => exact hdram _ (by decide) (by decide)
  | fdt2 => exact hdram _ (by decide) (by decide)

/-! ## Disk and memory -/

section
variable {b : Board} {fs : Bootfs} {i boardRev : Nat} {mem : Mem} {p : Prepared}

/-- What `linux_image_pa` holds is what was stored last, if nothing is moved onto it. -/
theorem linuxPa_placeOps {t : ImageTable} {pa : Nat} (hpa : pa < 2 ^ 64)
    (hmove : pa ≠ linuxImagePa → b.Free pa (t.size .linux)) (mem : Mem) :
    b.linuxPa ((placeOps b t pa).foldl Op.exec mem) = pa := by
  rw [placeOps_exec]
  by_cases hL : pa = linuxImagePa
  · rw [if_pos hL, Board.linuxPa_setLinuxPa, ← hL, Nat.mod_eq_of_lt hpa]
  · have hfield : Apart b.linuxPaAddr 8 pa (t.size .linux) := apart_comm.1 (hmove hL).apart_linuxPa
    have hkeep : ∀ m, b.linuxPa ((Op.move ImageKind.linux .linux linuxImagePa pa (t.size .linux)).exec m) =
        b.linuxPa m := fun m => congrArg ofLe64 (read_exec_of_apart hfield)
    rw [if_neg hL, hkeep, Board.linuxPa_setLinuxPa, Nat.mod_eq_of_lt hpa]

/-- What a run that gets past the checks wrote, when no image reaches p-boot's own memory. -/
theorem bootPrepare_writes (hal : fs.mmcOffset % 512 = 0)
    (h : bootPrepare b fs i boardRev mem = some p)
    (h0 : 0 < (imageTable (fs.blockFrom i)).size .linux)
    (hlinux : b.Free linuxImagePa (roundUp512 ((imageTable (fs.blockFrom i)).size .linux)))
    (hmove : kernelPa fs (imageTable (fs.blockFrom i)) ≠ linuxImagePa →
      b.Free (kernelPa fs (imageTable (fs.blockFrom i))) ((imageTable (fs.blockFrom i)).size .linux)) :
    p.mem = (bootOps b fs (imageTable (fs.blockFrom i))
        (usesFdt2 (imageTable (fs.blockFrom i)) boardRev)
        (kernelPa fs (imageTable (fs.blockFrom i)))).foldl Op.exec mem ∧
      p.linuxPa = kernelPa fs (imageTable (fs.blockFrom i)) := by
  obtain ⟨hreq, hpa, m₁, hm₁, hrel⟩ := bootPrepare_some h
  obtain ⟨linux, hlinux'⟩ := hreq .linux (by decide)
  have hload := loadImages_exec hal hm₁ (usesFdt2 (imageTable (fs.blockFrom i)) boardRev)
  have hfield : Apart linuxImagePa 64 b.linuxPaAddr 8 := by
    refine hlinux.apart_linuxPa.mono (Nat.le_refl _) ?_ (Nat.le_refl _) (Nat.le_refl _)
    unfold roundUp512
    omega
  rw [copyFdt2_exec] at hrel
  have hplace := relocateKernel_exec hfield hrel
  rw [hload, header_loaded hlinux' h0] at hplace
  have hkernel : kernelPa fs (imageTable (fs.blockFrom i)) = (linuxImagePa +
      textOffset (read fs.mmc.data (fs.mmcOffset + linux.dataOff) 64)) % 2 ^ 64 := by
    rw [kernelPa, hlinux']
  rw [← hkernel] at hplace
  refine ⟨?_, ?_⟩
  · rw [bootOps, List.foldl_append, List.foldl_append]
    exact hplace
  · rw [hpa, hplace]
    exact linuxPa_placeOps (hkernel ▸ Nat.mod_lt _ (by decide)) hmove _

theorem runsDisk_of_layoutOk (hal : fs.mmcOffset % 512 = 0)
    (h : bootPrepare b fs i boardRev mem = some p)
    (hl : LayoutOk b fs (imageTable (fs.blockFrom i)) boardRev) :
    RunsDisk b fs (imageTable (fs.blockFrom i)) boardRev mem p := by
  obtain ⟨-, -, m₁, hm₁, -⟩ := bootPrepare_some h
  have hs := loadImages_size hm₁
  obtain ⟨hw, hpa⟩ := bootPrepare_writes hal h hl.linux (hl.loads_free .linux) hl.move_free
  have hkept := (kept_iff b fs _ _ (kernelPa fs _) (fun k => hs k (by cases k <;> decide)) hl.linux
    hl.dtb hl.loads_free hl.copy_free).2
    ⟨⟨hl.linux_dtb, hl.dtb_initrd, hl.dtb_dtb2, hl.dtb2_initrd⟩, hl.moved⟩
  have hholds := (show Placement.Holds mem fun _ => none from fun _ _ _ h => nomatch h).run
    (legal_bootOps b fs _ _ (kernelPa fs _)) hkept
  rw [moved_places, ← hw] at hholds
  have hlen : ∀ k, (imageTable (fs.blockFrom i)).size k =
      (imageBytes fs (imageTable (fs.blockFrom i)) k).length := fun _ => length_imageBytes.symm
  refine ⟨hw, hpa, hkept,
    (imageOps_free_iff b fs _ _ _).2 ⟨hl.loads_free, hl.copy_free, hl.move_free⟩, ?_, ?_, ?_, ?_,
    hl.atf, hl.linux, hl.dtb⟩
  · rw [hlen]
    exact hholds .atf _ _ rfl
  · rw [hlen]
    exact hholds .initrd _ _ rfl
  · rw [hlen, hpa]
    exact hholds .linux _ _ rfl
  · rw [hlen]
    exact hholds .fdt _ _ rfl

theorem layoutOk_of_runsDisk
    (h : bootPrepare b fs i boardRev mem = some p)
    (hr : RunsDisk b fs (imageTable (fs.blockFrom i)) boardRev mem p) :
    LayoutOk b fs (imageTable (fs.blockFrom i)) boardRev := by
  obtain ⟨-, -, m₁, hm₁, -⟩ := bootPrepare_some h
  have hs := loadImages_size hm₁
  obtain ⟨ha, hk, hd⟩ := hr.fresh
  obtain ⟨hload, hcopy, hmove⟩ := (imageOps_free_iff b fs _ _ _).1 hr.free
  obtain ⟨⟨h1, h2, h3, h4⟩, h5⟩ := (kept_iff b fs _ _ (kernelPa fs _)
    (fun k => hs k (by cases k <;> decide)) hk hd hload hcopy).1 hr.kept
  exact ⟨ha, hk, hd, h1, h2, h3, h4, h5, hload, hcopy, hmove⟩

/-- **What is executed is what is on disk**, after a run that gets past the checks with a file system
that `bootfs_open` found, exactly when the sizes fit the layout and nothing reaches p-boot's own
memory. -/
theorem runsDisk_iff {mmc : Option Mmc} {heap : Mem} (ho : (bootfsOpen mmc heap).fs = some fs)
    (h : bootPrepare b fs i boardRev mem = some p) :
    RunsDisk b fs (imageTable (fs.blockFrom i)) boardRev mem p ↔
      LayoutOk b fs (imageTable (fs.blockFrom i)) boardRev :=
  ⟨layoutOk_of_runsDisk h, runsDisk_of_layoutOk (bootfsOpen_aligned ho) h⟩

end

/-! ## A configuration with three images -/

section
variable (images : Mem) (size : Nat)

/-- The configuration in slot 0: an ATF, a device tree and a kernel of the given size, 8 KiB apart. -/
def threeImages : List BootfsImage :=
  [⟨'A'.toNat, metaSize, size⟩, ⟨'D'.toNat, metaSize + 8192, size⟩,
    ⟨'L'.toNat, metaSize + 16384, size⟩]

/-- The metadata with this configuration. -/
def threeMeta : List UInt8 :=
  superblock [] ++ (confBlock (threeImages size) [] [] ++ List.replicate (2048 * 31) 0)

theorem length_threeMeta : (threeMeta size).length = metaSize := by
  rw [threeMeta, List.length_append, List.length_append, length_superblock,
    length_confBlock (show (threeImages size).length ≤ 8 from Nat.le_of_ble_eq_true rfl),
    List.length_replicate]
  rfl

/-- A boot record with one partition, of type 0x83, flagged and from sector 1 on. -/
def oneEntry : Mem := fun i =>
  if i = 0x1be then 0x80
  else if i = 0x1be + 4 then 0x83
  else if i = 0x1be + 8 then 1
  else if i = 0x1fe then 0x55
  else if i = 0x1ff then 0xaa
  else 0

/-- A medium with the boot record, the metadata, and whatever images behind it. -/
def threeMmc : Mmc where
  data i :=
    if i < 512 then oneEntry i
    else if i < 512 + metaSize then ((threeMeta size)[i - 512]?).getD 0
    else images i
  readable _ _ := true

/-- The file system on it. -/
def threeFs : Bootfs where
  mmc := threeMmc images size
  mmcOffset := 512
  sb := threeMeta size
  length_sb := length_threeMeta size

theorem openAt_three : openAt (threeMmc images size) 512 = some (threeFs images size) := by
  have hdata : read (threeMmc images size).data 512 (threeMeta size).length = threeMeta size := by
    refine read_eq_iff.2 fun k hk => ?_
    have hlt := hk
    rw [length_threeMeta] at hlt
    show (if 512 + k < 512 then _ else if 512 + k < 512 + metaSize then
      ((threeMeta size)[512 + k - 512]?).getD 0 else _) = _
    rw [if_neg (by omega), if_pos (by omega), Nat.add_sub_cancel_left, List.getElem?_eq_getElem hk]
    rfl
  have hread : mmcReadData (threeMmc images size) 512 (33 * 2048) = some (threeMeta size) := by
    rw [length_threeMeta] at hdata
    rw [← hdata]
    rfl
  obtain ⟨fs, hopen, -⟩ := openAt_of_read hread rfl
  obtain ⟨hmmc, hoff, hsb, -⟩ := openAt_some hread hopen
  rw [hopen]
  cases fs
  cases hmmc
  cases hoff
  cases hsb
  rfl

/-- `bootfs_open` finds it, in the flagged partition. -/
theorem bootfsOpen_three (heap : Mem) :
    (bootfsOpen (some (threeMmc images size)) heap).fs = some (threeFs images size) := by
  have hbuf : mmcReadData (threeMmc images size) 0 512 = some (read oneEntry 0 512) :=
    congrArg some (read_congr fun i hi => if_pos (by
      have hi : i < 512 := hi
      show 0 + i < 512
      omega))
  have hvalid : validMbr (read oneEntry 0 512) = true := by decide +kernel
  have hslots : linuxSlots (read oneEntry 0 512) true = [0] := by decide +kernel
  have hstart : (dosPartition (read oneEntry 0 512) 0).start = 1 := by decide +kernel
  have hmbr : mbr (some (threeMmc images size)) =
      some (threeMmc images size, read oneEntry 0 512) := by
    rw [mbr, hbuf, Option.filter_some, hvalid]
    rfl
  refine bootfsOpen_of_flagged hmbr hslots ?_ heap
  rw [openSlot, hstart]
  exact openAt_three images size

/-- Its images. -/
def threeTable : ImageTable
  | .atf => some ⟨'A'.toNat, metaSize, size⟩
  | .fdt => some ⟨'D'.toNat, metaSize + 8192, size⟩
  | .linux => some ⟨'L'.toNat, metaSize + 16384, size⟩
  | _ => none

variable {size}

theorem imageTable_threeFs (h : size < 2 ^ 32) :
    imageTable ((threeFs images size).blockFrom 0) = threeTable size := by
  have hblk : (threeFs images size).blockFrom 0 =
      confBlock (threeImages size) [] [] ++ List.replicate (2048 * 31) 0 :=
    List.drop_left' (length_superblock _)
  have hfits : ∀ im ∈ threeImages size, im.Fits := by
    have hA : 'A'.toNat < 2 ^ 32 := by decide
    have hD : 'D'.toNat < 2 ^ 32 := by decide
    have hL : 'L'.toNat < 2 ^ 32 := by decide
    have ha : metaSize < 2 ^ 32 := by decide
    have hd : metaSize + 8192 < 2 ^ 32 := by decide
    have hl : metaSize + 16384 < 2 ^ 32 := by decide
    intro im him
    simp only [threeImages, List.mem_cons, List.not_mem_nil, or_false] at him
    rcases him with rfl | rfl | rfl
    · exact ⟨hA, ha, h⟩
    · exact ⟨hD, hd, h⟩
    · exact ⟨hL, hl, h⟩
  rw [hblk, imageTable_confBlock (Nat.le_of_ble_eq_true rfl) hfits]
  funext k
  cases k <;> rfl

/-- 2 GiB of DRAM, and 1 MiB of it in use. -/
def threeBoard : Board := { dramSize := 2 ^ 31, heapLen := 2 ^ 20, globals_le := by decide }

/-- A kernel without a text offset stays where it is. -/
theorem relocateKernel_zero {b : Board} {m : Mem} (len : Nat)
    (hfield : Apart linuxImagePa 64 b.linuxPaAddr 8)
    (h : textOffset (read m linuxImagePa 64) = 0) :
    relocateKernel b len m = some (b.setLinuxPa linuxImagePa m) := by
  unfold relocateKernel
  dsimp only
  rw [read_setLinuxPa hfield, h, if_neg (by simp)]

/-- The magics of a device tree at `dtb` and of a kernel at `kernel`. -/
def magics (dtb kernel : Nat) : Mem :=
  write (write (fun _ => 0) dtb [0xd0, 0x0d, 0xfe, 0xed]) (kernel + 56) [0x41, 0x52, 0x4d, 0x64]

/-- The memory in which stale magics stand. -/
def staleMem : Mem := magics fdtBlobPa linuxImagePa

/-- With three empty images nothing is loaded, and what memory held is taken for a kernel and a
device tree. -/
theorem bootPrepare_stale :
    (bootfsOpen (some (threeMmc (fun _ => 0) 0)) fun _ => 0).fs = some (threeFs (fun _ => 0) 0) ∧
      bootPrepare threeBoard (threeFs (fun _ => 0) 0) 0 1 staleMem =
        some { mem := threeBoard.setLinuxPa linuxImagePa staleMem, linuxPa := linuxImagePa } ∧
      ¬ RunsDisk threeBoard (threeFs (fun _ => 0) 0)
        (imageTable ((threeFs (fun _ => 0) 0).blockFrom 0)) 1 staleMem
        { mem := threeBoard.setLinuxPa linuxImagePa staleMem, linuxPa := linuxImagePa } := by
  rw [imageTable_threeFs _ (by decide)]
  refine ⟨bootfsOpen_three _ 0 _, ?_, fun h => absurd h.fresh.1 (Nat.lt_irrefl 0)⟩
  have hload : loadRequired (threeFs (fun _ => 0) 0) (threeTable 0) staleMem = some staleMem := rfl
  have hplace : placeKernel threeBoard 0 staleMem =
      some (threeBoard.setLinuxPa linuxImagePa staleMem) := by
    have hk : isKernelImage staleMem = true := by decide
    rw [placeKernel, if_pos hk]
    exact relocateKernel_zero 0 (by decide) (by decide)
  have hfdt : fdtCheckHeader (threeBoard.setLinuxPa linuxImagePa staleMem) fdtBlobPa = true := by
    rw [fdtCheckHeader, read_setLinuxPa (by decide)]
    decide
  have hrun := bootPrepare_of 1 (imageTable_threeFs _ (by decide)) hload hplace hfdt
  rwa [Board.linuxPa_setLinuxPa, Nat.mod_eq_of_lt (by decide)] at hrun

variable (size)

/-- What the images leave in memory. -/
def threeMem : Mem :=
  write (write (write (fun _ => 0) atfPa (read images (512 + metaSize) (roundUp512 size))) fdtBlobPa
    (read images (512 + metaSize + 8192) (roundUp512 size))) linuxImagePa
    (read images (512 + metaSize + 16384) (roundUp512 size))

variable {images size}

theorem bootfsLoadImage_three {m : Mem} {dest off : Nat} (h0 : 0 < size) (hs : size ≤ 8192)
    (hdest : dest ≠ 0) (ho : off % 512 = 0) (hoff : metaSize ≤ off) :
    bootfsLoadImage (threeFs images size) m dest off size =
      some (size, write m dest (read images (512 + off) (roundUp512 size))) := by
  have hread : mmcReadData (threeMmc images size) (512 + off) size =
      some (read (threeMmc images size).data (512 + off) (roundUp512 size)) := by
    unfold mmcReadData
    rw [if_pos (.inr rfl), show (512 + off) / readBlLen * readBlLen = 512 + off by
      unfold readBlLen; omega]
    rfl
  have himages : read (threeMmc images size).data (512 + off) (roundUp512 size) =
      read images (512 + off) (roundUp512 size) := read_congr fun i _ => by
    show (if 512 + off + i < 512 then _ else if 512 + off + i < 512 + metaSize then _ else _) = _
    rw [if_neg (by omega), if_neg (by omega)]
  rw [bootfsLoadImage, if_neg (by omega), if_neg (by omega), if_neg (by omega), if_neg hdest]
  change (mmcReadData (threeMmc images size) (512 + off) size).map _ = _
  rw [hread, himages]
  rfl

theorem loadRequired_three (h0 : 0 < size) (hs : size ≤ 8192) :
    loadRequired (threeFs images size) (threeTable size) (fun _ => 0) =
      some (threeMem images size) := by
  have hreq : (requiredKinds.all fun k => (threeTable size k).isSome) = true := rfl
  rw [loadRequired, if_pos hreq]
  simp only [loadImages, imageKinds, threeTable, ImageKind.dest]
  rw [bootfsLoadImage_three h0 hs (by decide) (by decide) (Nat.le_refl _)]
  dsimp only
  rw [bootfsLoadImage_three h0 hs (by decide) (by decide) (Nat.le_add_right _ _)]
  dsimp only
  rw [bootfsLoadImage_three h0 hs (by decide) (by decide) (Nat.le_add_right _ _)]
  rfl

/-- The memory reads as the images. -/
theorem read_threeMem (images : Mem) {k n : Nat} (h : k + n ≤ size) (hs : size ≤ 8192) :
    read (threeMem images size) (linuxImagePa + k) n = read images (512 + metaSize + 16384 + k) n ∧
      read (threeMem images size) (fdtBlobPa + k) n = read images (512 + metaSize + 8192 + k) n := by
  have hle := le_roundUp512 size
  have hsub : ∀ a b (m : Mem),
      read (write m b (read images a (roundUp512 size))) (b + k) n = read images (a + k) n :=
    fun a b m => by
      rw [read_write_sub (by rw [length_read]; omega), drop_read, take_read,
        Nat.min_eq_left (by omega)]
  refine ⟨hsub _ _ _, ?_⟩
  unfold threeMem
  rw [read_write_of_disjoint, hsub]
  rw [length_read]
  unfold roundUp512 linuxImagePa fdtBlobPa
  omega

/-- It gets past the checks when the device tree and the kernel have their magics. -/
theorem bootPrepare_three (h64 : 64 ≤ size) (hs : size ≤ 8192)
    (hk : ofLe32 (read images (512 + metaSize + 16384 + 56) 4) = 0x644d5241)
    (ho : textOffset (read images (512 + metaSize + 16384) 64) = 0)
    (hd : ofBe32 (read images (512 + metaSize + 8192) 4) = 0xd00dfeed) :
    bootPrepare threeBoard (threeFs images size) 0 1 (fun _ => 0) =
      some { mem := threeBoard.setLinuxPa linuxImagePa (threeMem images size)
             linuxPa := linuxImagePa } := by
  have hplace : placeKernel threeBoard size (threeMem images size) =
      some (threeBoard.setLinuxPa linuxImagePa (threeMem images size)) := by
    have hmagic : isKernelImage (threeMem images size) = true := by
      rw [isKernelImage, (read_threeMem images (k := 56) (n := 4) (by omega) hs).1, hk]
      rfl
    have hoff : textOffset (read (threeMem images size) linuxImagePa 64) = 0 := by
      have hr := (read_threeMem images (k := 0) (n := 64) (by omega) hs).1
      rw [Nat.add_zero, Nat.add_zero] at hr
      rw [hr, ho]
    rw [placeKernel, if_pos hmagic]
    exact relocateKernel_zero size (by decide) hoff
  have hfdt : fdtCheckHeader (threeBoard.setLinuxPa linuxImagePa (threeMem images size)) fdtBlobPa =
      true := by
    have hr := (read_threeMem images (k := 0) (n := 4) (by omega) hs).2
    rw [Nat.add_zero, Nat.add_zero] at hr
    rw [fdtCheckHeader, read_setLinuxPa (by decide), hr, hd]
    rfl
  have hrun := bootPrepare_of 1 (imageTable_threeFs images (by omega))
    (loadRequired_three (by omega) hs) hplace hfdt
  rwa [Board.linuxPa_setLinuxPa, Nat.mod_eq_of_lt (by decide)] at hrun

theorem kernelPa_three (ho : textOffset (read images (512 + metaSize + 16384) 64) = 0) :
    kernelPa (threeFs images size) (threeTable size) = linuxImagePa := by
  have hpa : kernelPa (threeFs images size) (threeTable size) = (linuxImagePa +
      textOffset (read (threeMmc images size).data (512 + (metaSize + 16384)) 64)) % 2 ^ 64 := rfl
  have himages : read (threeMmc images size).data (512 + (metaSize + 16384)) 64 =
      read images (512 + metaSize + 16384) 64 := read_congr fun i _ => by
    show (if 512 + (metaSize + 16384) + i < 512 then _ else
      if 512 + (metaSize + 16384) + i < 512 + metaSize then _ else _) = _
    rw [if_neg (by omega), if_neg (by omega), ← Nat.add_assoc 512]
  rw [hpa, himages, ho]
  rfl

end

/-- Images of which only the magics are not zero. -/
def magicImages : Mem := magics (512 + metaSize + 8192) (512 + metaSize + 16384)

theorem textOffset_magicImages : textOffset (read magicImages (512 + metaSize + 16384) 64) = 0 := by
  decide

theorem layoutOk_three : LayoutOk threeBoard (threeFs magicImages 64) (threeTable 64) 1 :=
  { atf := by decide, linux := by decide, dtb := by decide, linux_dtb := by decide
    dtb_initrd := fun _ h => absurd h (by decide), dtb_dtb2 := fun _ h => absurd h (by decide)
    dtb2_initrd := fun h => absurd h (by decide)
    moved := fun h => absurd (kernelPa_three textOffset_magicImages) h
    loads_free := fun k => free_load (by decide) (by decide) (by cases k <;> decide)
      (by cases k <;> decide)
    copy_free := fun h => absurd h (by decide)
    move_free := fun h => absurd (kernelPa_three textOffset_magicImages) h }

/-- Three images of 64 bytes are executed as they are on the medium. -/
theorem runsDisk_three :
    RunsDisk threeBoard (threeFs magicImages 64) (imageTable ((threeFs magicImages 64).blockFrom 0)) 1
      (fun _ => 0)
      { mem := threeBoard.setLinuxPa linuxImagePa (threeMem magicImages 64)
        linuxPa := linuxImagePa } := by
  refine (runsDisk_iff (bootfsOpen_three magicImages 64 fun _ => 0) (bootPrepare_three (by decide)
    (by decide) (by decide) textOffset_magicImages (by decide))).2 ?_
  rw [imageTable_threeFs _ (by decide)]
  exact layoutOk_three

end PBoot
