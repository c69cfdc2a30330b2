import PBoot.Boot.Prepare
import PBoot.Conf.Proof.Files

/-!
# The boot loader reads back what was written

* `laid_placeData`: sources of sizes that fit (`SizesFit`) lie apart, at multiples of 512.
* `read_extent`: then their bytes are still in the image when everything is written.
* `lookupImage_confBlock`: of a written configuration, `boot_prepare` and `load_splash` look up the
  entry that was written for a type.
* `readsBack`: configurations, images and files come back, at any place of any medium.
-/

namespace PBoot

open Bytes Runs

/-! ## Extents -/

/-- The sizes that fit: of each source at most 512 MiB, the start of each in 32 bits. -/
def SizesFit (start : Nat) (sizes : List Nat) : Prop :=
  ∀ pre n post, sizes = pre ++ n :: post →
    n ≤ 512 * 1024 * 1024 ∧ start + (pre.map roundUp512).sum < 2 ^ 32

theorem sizesFit_nil (start : Nat) : SizesFit start [] :=
  fun pre _ _ h => by cases pre <;> cases h

theorem sizesFit_cons {start n : Nat} {sizes : List Nat} :
    SizesFit start (n :: sizes) ↔
      n ≤ 512 * 1024 * 1024 ∧ start < 2 ^ 32 ∧ SizesFit (start + roundUp512 n) sizes := by
  constructor
  · intro h
    obtain ⟨hn, hstart⟩ := h [] n sizes rfl
    refine ⟨hn, hstart, fun pre m post hsizes => ?_⟩
    have htail := h (n :: pre) m post (congrArg _ hsizes)
    rwa [List.map_cons, List.sum_cons, ← Nat.add_assoc] at htail
  · rintro ⟨hn, hstart, h⟩ pre m post hsizes
    cases pre with
    | nil =>
      cases hsizes
      exact ⟨hn, hstart⟩
    | cons n' pre =>
      cases hsizes
      have htail := h pre m post rfl
      rwa [List.map_cons, List.sum_cons, ← Nat.add_assoc]

/-- Sources from `pos` on, apart from one another, with extents that fit 32 bits. -/
structure Laid (pos : Nat) (exts : List Extent) : Prop where
  aligned : ∀ e ∈ exts, e.pos % 512 = 0
  start : ∀ e ∈ exts, pos ≤ e.pos
  room : ∀ e ∈ exts, e.pos < 2 ^ 32 ∧ e.bytes.length ≤ 512 * 1024 * 1024
  apart : exts.Pairwise fun e e' => e.pos + roundUp512 e.bytes.length ≤ e'.pos

/-- The bytes that the sources take. -/
def dataSize (exts : List Extent) : Nat := (exts.map fun e => roundUp512 e.bytes.length).sum

theorem nextPos_eq {pos size : Nat} (h : pos % 512 = 0) : nextPos pos size = pos + roundUp512 size := by
  unfold nextPos roundUp512
  split <;> omega

theorem Extent.dataOff_eq {e : Extent} {pos : Nat} {exts : List Extent} (h : Laid pos exts)
    (he : e ∈ exts) : e.dataOff = e.pos :=
  Nat.mod_eq_of_lt (h.room e he).1

theorem Extent.dataLen_eq {e : Extent} {pos : Nat} {exts : List Extent} (h : Laid pos exts)
    (he : e ∈ exts) : e.dataLen = e.bytes.length := by
  have := (h.room e he).2
  exact Nat.mod_eq_of_lt (by omega)

/-- Different sources do not overlap. -/
theorem Laid.apart_of_ne {pos : Nat} {exts : List Extent} (h : Laid pos exts) {e e' : Extent}
    (he : e ∈ exts) (he' : e' ∈ exts) (hne : e.path ≠ e'.path) :
    e.pos + e.bytes.length ≤ e'.pos ∨ e'.pos + e'.bytes.length ≤ e.pos := by
  have hpair := List.Pairwise.forall_of_forall_of_flip (R := fun e e' : Extent => e.path ≠ e'.path →
    e.pos + roundUp512 e.bytes.length ≤ e'.pos ∨ e'.pos + roundUp512 e'.bytes.length ≤ e.pos)
    (fun e _ hne => absurd rfl hne) (h.apart.imp fun hlt _ => .inl hlt)
    (h.apart.imp fun hlt _ => .inr hlt) he he' hne
  have := le_roundUp512 e.bytes.length
  have := le_roundUp512 e'.bytes.length
  omega

/-- Sources that fit are placed one after another. -/
theorem laid_placeData {host : Host} {paths : List (List UInt8)} {pos : Nat} {exts : List Extent}
    (h : placeData host pos paths = .ok exts) (hpos : pos % 512 = 0)
    (hfit : SizesFit pos (exts.map (·.bytes.length))) : Laid pos exts := by
  induction paths generalizing pos exts with
  | nil =>
    cases h
    exact ⟨fun _ he => (nomatch he), fun _ he => (nomatch he), fun _ he => (nomatch he), .nil⟩
  | cons path paths ih =>
    obtain ⟨contents, es, -, hes, rfl⟩ := placeData_cons.1 h
    obtain ⟨hmax, h32, hrest⟩ := sizesFit_cons.1 hfit
    dsimp only at hes hmax hrest
    have hlen : (storedBytes contents).length % 2 ^ 32 = (storedBytes contents).length :=
      Nat.mod_eq_of_lt (by omega)
    rw [Extent.dataLen, hlen, nextPos_eq hpos] at hes
    have hround : roundUp512 (storedBytes contents).length % 512 = 0 := Nat.mul_mod_left _ _
    have hl := ih hes (by omega) hrest
    refine ⟨?_, ?_, ?_, ?_⟩
    · exact List.forall_mem_cons.2 ⟨hpos, hl.aligned⟩
    · refine List.forall_mem_cons.2 ⟨Nat.le_refl _, fun e he => ?_⟩
      have := hl.start e he
      omega
    · exact List.forall_mem_cons.2 ⟨⟨h32, hmax⟩, hl.room⟩
    · exact List.pairwise_cons.2 ⟨fun e he => hl.start e he, hl.apart⟩

/-- Sources that fit one by one and take less than 4 GiB together fit. -/
theorem sizesFit_of_total {pos : Nat} {exts : List Extent}
    (him : ∀ e ∈ exts, e.bytes.length ≤ 512 * 1024 * 1024) (htotal : pos + dataSize exts < 2 ^ 32) :
    SizesFit pos (exts.map (·.bytes.length)) := by
  induction exts generalizing pos with
  | nil => exact sizesFit_nil pos
  | cons e es ih =>
    unfold dataSize at htotal
    rw [List.map_cons, List.sum_cons] at htotal
    obtain ⟨he, hes⟩ := List.forall_mem_cons.1 him
    refine sizesFit_cons.2 ⟨he, by omega, ih hes ?_⟩
    dsimp only
    unfold dataSize
    omega

/-- Every source is placed, with the bytes that are stored of it. -/
theorem sources_placeData {host : Host} {paths : List (List UInt8)} {pos : Nat}
    {exts : List Extent} (h : placeData host pos paths = .ok exts) :
    exts.map (·.path) = paths ∧
      ∀ e ∈ exts, ∃ contents, host.contents e.path = some contents ∧ e.bytes = storedBytes contents := by
  induction paths generalizing pos exts with
  | nil =>
    cases h
    exact ⟨rfl, fun _ he => (nomatch he)⟩
  | cons path paths ih =>
    obtain ⟨contents, es, hc, hes, rfl⟩ := placeData_cons.1 h
    obtain ⟨hpaths, hbytes⟩ := ih hes
    exact ⟨congrArg _ hpaths, List.forall_mem_cons.2 ⟨⟨contents, hc, rfl⟩, hbytes⟩⟩

/-- What is recorded for a source is its extent. -/
theorem extentOf_mem {exts : List Extent} {path : List UInt8} (h : path ∈ exts.map (·.path)) :
    ∃ e ∈ exts, e.path = path ∧ extentOf exts path = (e.dataOff, e.dataLen) := by
  obtain ⟨e₀, he₀, hp₀⟩ := List.mem_map.1 h
  unfold extentOf
  cases hfind : exts.find? fun e => e.path == path with
  | none => exact absurd (beq_iff_eq.2 hp₀) (List.find?_eq_none.1 hfind e₀ he₀)
  | some e =>
    have hpath := List.find?_some hfind
    exact ⟨e, List.mem_of_find?_eq_some hfind, beq_iff_eq.1 hpath, rfl⟩

/-! ## Loading -/

/-- Loading the extent to anywhere puts `bytes` there. -/
def Loads (fs : Bootfs) (off len : Nat) (bytes : List UInt8) : Prop :=
  ∀ mem dest, dest ≠ 0 → ∃ mem', bootfsLoadImage fs mem dest off len = some (bytes.length, mem') ∧
    read mem' dest bytes.length = bytes

/-- **What an extent of an image loads**: its bytes, when it is aligned and not too long. -/
theorem Holds.loads_iff {fs : Bootfs} {image : Mem} (h : Holds fs image) {off len : Nat}
    {bytes : List UInt8} :
    Loads fs off len bytes ↔ bytes.length = len ∧
      (len ≠ 0 → off % 512 = 0 ∧ len ≤ 512 * 1024 * 1024) ∧ read image off len = bytes := by
  constructor
  · intro hl
    obtain ⟨mem', hload, hread⟩ := hl (fun _ => 0) 1 (by decide)
    have hext := read_bootfsLoadImage (by decide) h.aligned hload
    rw [h.extent] at hext
    rcases bootfsLoadImage_some (by decide) hload with ⟨rfl, hlen, -⟩ | ⟨-, hlen, ho, hle, -⟩
    · exact ⟨hlen, fun h0 => absurd rfl h0, (List.length_eq_zero_iff.1 hlen).symm⟩
    · rw [hlen] at hread
      exact ⟨hlen, fun _ => ⟨ho, hle⟩, hext.symm.trans hread⟩
  · rintro ⟨hlen, hlim, hbytes⟩ mem dest hdest
    obtain ⟨mem', hload⟩ : ∃ mem', bootfsLoadImage fs mem dest off len = some (len, mem') := by
      unfold bootfsLoadImage
      by_cases h0 : len = 0
      · rw [if_pos h0, h0]
        exact ⟨mem, rfl⟩
      · obtain ⟨ho, hle⟩ := hlim h0
        rw [if_neg h0, if_neg (not_not.2 ho), if_neg (Nat.not_lt.2 hle), if_neg hdest, h.reads _ _ ho]
        exact ⟨_, rfl⟩
    refine ⟨mem', by rw [hload, hlen], ?_⟩
    rw [hlen, read_bootfsLoadImage hdest h.aligned hload, h.extent, hbytes]

section
variable {host : Host} {out : BlkDev} (r : ConfRun host out)

/-- **The bytes of a source stay in the image**: the sources are apart, and the blocks are written
before `metaSize`. -/
theorem read_extent (hl : Laid metaSize r.exts) {e : Extent} (he : e ∈ r.exts) :
    read out.data e.pos e.bytes.length = e.bytes := by
  have hs : ∀ b ∈ r.blocks, b.Sized := sized_metaBlocks (tableOk_readConf r.read).1 _ _
  have hw : confWrites r.table r.exts = [(0, superblock (r.table.deviceId.getD []))] ++
      (r.exts.map (fun e => (e.pos, e.bytes)) ++ blockWrites r.blocks) := rfl
  rw [r.data, hw]
  refine read_poke_of_mem ?_ (List.mem_append_left _ (List.mem_map.2 ⟨e, he, rfl⟩))
  refine List.pairwise_append.2 ⟨?_, blockWrites_disjoint hs, ?_⟩
  · rw [List.pairwise_map]
    refine hl.apart.imp fun {e e'} hlt => .inl ?_
    have := le_roundUp512 e.bytes.length
    show e.pos + e.bytes.length ≤ e'.pos
    omega
  · intro w hw v hv
    obtain ⟨e', he', rfl⟩ := List.mem_map.1 hw
    obtain ⟨i, b, hb, rfl⟩ := exists_of_mem_blockWrites hv
    have hi := (List.getElem?_eq_some_iff.1 hb).1
    rw [ConfRun.blocks, length_metaBlocks, List.length_range] at hi
    have hlen := MetaBlock.length_bytes (hs _ (List.mem_of_getElem? hb))
    have hpos := hl.start e' he'
    refine .inr ?_
    dsimp only
    rw [hlen]
    unfold metaSize at hpos
    unfold blockSize
    omega

/-- The recorded extent of a source is loaded. -/
theorem loads_extent {fs : Bootfs} {image : Mem} (hs : Holds fs image) {exts : List Extent}
    (hl : Laid metaSize exts) {e : Extent} (he : e ∈ exts)
    (hread : read image e.pos e.bytes.length = e.bytes) : Loads fs e.dataOff e.dataLen e.bytes := by
  rw [e.dataOff_eq hl he, e.dataLen_eq hl he]
  exact hs.loads_iff.2 ⟨rfl, fun _ => ⟨hl.aligned e he, (hl.room e he).2⟩, hread⟩

end

/-- A source that is placed is loaded from the extent that is recorded for it. -/
theorem loads_source {host : Host} {paths : List (List UInt8)} {pos : Nat} {exts : List Extent}
    (hp : placeData host pos paths = .ok exts) {fs : Bootfs}
    (hload : ∀ e ∈ exts, Loads fs e.dataOff e.dataLen e.bytes) {path : List UInt8}
    (hpath : path ∈ paths) :
    ∃ contents, host.contents path = some contents ∧
      Loads fs (extentOf exts path).1 (extentOf exts path).2 (storedBytes contents) := by
  obtain ⟨hpaths, hbytes⟩ := sources_placeData hp
  obtain ⟨e, he, hep, hrec⟩ := extentOf_mem (hpaths ▸ hpath)
  obtain ⟨contents, hc, hb⟩ := hbytes e he
  refine ⟨contents, hep ▸ hc, ?_⟩
  rw [hrec, ← hb]
  exact hload e he

/-! ## Looking up an image -/

/-- The image of a type that `boot_prepare` or, for the splash screen, `load_splash` looks up in a
block. -/
def lookupImage (blk : List UInt8) (type : Nat) : Option BootfsImage :=
  match imageKind type with
  | some k => imageTable blk k
  | none => if type = 'S'.toNat then splashImage blk else none

theorem getLast?_filter_eq_find? {α β : Type*} [BEq β] [LawfulBEq β] {f : α → β} {l : List α}
    (h : (l.map f).Nodup) (b : β) :
    (l.filter fun a => f a == b).getLast? = l.find? fun a => f a == b := by
  induction l with
  | nil => rfl
  | cons a l ih =>
    rw [List.map_cons, List.nodup_cons] at h
    rw [List.filter_cons, List.find?_cons]
    cases hab : f a == b with
    | false => exact ih h.2
    | true =>
      have hnil : l.filter (fun a => f a == b) = [] := List.filter_eq_nil_iff.2 fun a' ha' hb => by
        refine h.1 (List.mem_map.2 ⟨a', ha', ?_⟩)
        rw [beq_iff_eq.1 hab, beq_iff_eq.1 hb]
      simp [hnil]

/-- **In a written configuration the entry of a type is looked up.** -/
theorem lookupImage_confBlock {images : List BootfsImage} (hn : images.length ≤ 8)
    (hf : ∀ im ∈ images, im.Fits) (hd : (images.map (·.type)).Nodup) (bootArgs name t : List UInt8)
    {type : Nat} (ht : (imageKind type).isSome ∨ type = 'S'.toNat) :
    lookupImage (confBlock images bootArgs name ++ t) type =
      images.find? fun im => im.type == type := by
  unfold lookupImage
  cases hk : imageKind type with
  | some k =>
    dsimp only
    rw [imageTable_confBlock hn hf, foldl_add, Option.or_none,
      ← getLast?_filter_eq_find? hd type]
    refine congrArg List.getLast? (List.filter_congr fun im _ => ?_)
    rw [Bool.eq_iff_iff, beq_iff_eq, beq_iff_eq]
    exact ⟨fun h => (code_of_imageKind h).trans (code_of_imageKind hk).symm, fun h => h ▸ hk⟩
  | none =>
    rw [hk] at ht
    have hS : type = 'S'.toNat := ht.resolve_left (by decide)
    obtain ⟨unused, h0, himages⟩ := images_confBlock hn hf bootArgs name t
    have hnone : unused.find? (fun im => im.type == 'S'.toNat) = none :=
      List.find?_eq_none.2 fun im him => by rw [h0 im him]; decide
    dsimp only
    rw [if_pos hS, hS, splashImage, himages, List.find?_append, hnone, Option.or_none]

/-! ## The whole way -/

/-- The limits of the format. -/
structure ConfFits (t : Table) (exts : List Extent) : Prop where
  total : metaSize + dataSize exts < 2 ^ 32
  image : ∀ e ∈ exts, e.bytes.length ≤ 512 * 1024 * 1024
  name : ∀ i c, t.confs i = some c → c.name.length ≤ 95
  bootargs : ∀ i c, t.confs i = some c → c.bootargs.length ≤ 1847
  files : t.files.length ≤ 51 * t.unused (List.range 32)

/-- The boot file system holds what the table says. -/
structure ReadsBack (host : Host) (t : Table) (exts : List Extent) (fs : Bootfs) : Prop where
  /-- Every distinct source has an extent. -/
  sources : exts.map (·.path) = t.data
  aligned : ∀ e ∈ exts, e.dataOff % 512 = 0 ∧ metaSize ≤ e.dataOff
  apart : ∀ e ∈ exts, ∀ e' ∈ exts, e.path ≠ e'.path →
    e.dataOff + e.dataLen ≤ e'.dataOff ∨ e'.dataOff + e'.dataLen ≤ e.dataOff
  conf : ∀ i < 32, fs.isConf i = (t.confs i).isSome
  texts : ∀ i c, t.confs i = some c →
    cstr (nameField (fs.blockFrom i)) = c.name ∧ cstr (bootArgsField (fs.blockFrom i)) = c.bootargs
  /-- The image of a type is looked up and loaded, if there is one. -/
  images : ∀ i c, t.confs i = some c → ∀ ty ∈ imageTypes,
    match c.images.find? fun im => im.type == ty.type with
    | none => lookupImage (fs.blockFrom i) ty.type = none
    | some im => ∃ e contents, lookupImage (fs.blockFrom i) ty.type = some e ∧
        host.contents im.data = some contents ∧ Loads fs e.dataOff e.dataLen (storedBytes contents)
  /-- A file is found by its name and loaded. -/
  files : ∀ f ∈ t.files, ∃ contents, host.contents f.data = some contents ∧
    ∀ mem dest, dest ≠ 0 → ∃ mem',
      bootfsLoadFile fs mem dest f.name = some ((storedBytes contents).length, mem') ∧
        read mem' dest (storedBytes contents).length = storedBytes contents

section
variable {host : Host} {out : BlkDev} {r : ConfRun host out} {fs : Bootfs}

theorem fits_bootfsImage {exts : List Extent} {data : List (List UInt8)} {c : BConf}
    (hc : c.Ok data) : ∀ im ∈ c.images.map (bootfsImage exts), im.Fits := by
  intro im him
  obtain ⟨im₀, him₀, rfl⟩ := List.mem_map.1 him
  obtain ⟨ty, hty, ht⟩ := hc.known im₀ him₀
  obtain ⟨hoff, hlen⟩ := extentOf_lt exts im₀.data
  have hall : ∀ ty ∈ imageTypes, ty.type < 2 ^ 32 := by decide
  have hlt := hall ty hty
  rw [ht] at hlt
  exact ⟨hlt, hoff, hlen⟩

/-- The entry of a type in the block that is written for a configuration. -/
theorem lookup_conf {exts : List Extent} {data : List (List UInt8)} {c : BConf} (hc : c.Ok data)
    (rest : List UInt8) {ty : ImageType} (hty : ty ∈ imageTypes) :
    lookupImage ((MetaBlock.conf (c.images.map (bootfsImage exts)) c.bootargs c.name).bytes ++ rest)
        ty.type =
      (c.images.find? fun im => im.type == ty.type).map (bootfsImage exts) := by
  have hall : ∀ ty ∈ imageTypes, (imageKind ty.type).isSome ∨ ty.type = 'S'.toNat := by decide
  rw [MetaBlock.bytes, lookupImage_confBlock (by rw [List.length_map]; exact hc.length_images)
    (fits_bootfsImage hc) (by rw [List.map_map]; exact hc.types) _ _ _ (hall ty hty),
    List.find?_map]
  rfl

/-- An image is the one that is found under its type. -/
theorem BConf.Ok.find_image {data : List (List UInt8)} {c : BConf} (hc : c.Ok data)
    {im : BConfImage} (him : im ∈ c.images) {ty : Nat} (ht : ty = im.type) :
    (c.images.find? fun im => im.type == ty) = some im := by
  cases hf : c.images.find? fun im => im.type == ty with
  | none => exact absurd (beq_iff_eq.2 ht.symm) (List.find?_eq_none.1 hf im him)
  | some im' =>
    have htype : im'.type = ty := beq_iff_eq.1
      (List.find?_some (p := fun im : BConfImage => im.type == ty) hf)
    rw [List.inj_on_of_nodup_map hc.types (List.mem_of_find?_eq_some hf) him (htype.trans ht)]

theorem lookup_written (hs : Shows fs out.data r.blocks) {i : Nat} {c : BConf}
    (hc : r.table.confs i = some c) {ty : ImageType} (hty : ty ∈ imageTypes) :
    lookupImage (fs.blockFrom i) ty.type =
      (c.images.find? fun im => im.type == ty.type).map (bootfsImage r.exts) := by
  obtain ⟨rest, hr⟩ := hs.block i _ (block_of_conf r hc)
  rw [hr]
  exact lookup_conf ((tableOk_readConf r.read).1.confs i c hc).toOk rest hty

/-- The image of a type is looked up in slot `i` and loaded, if the configuration has one. -/
def ImagesBack (host : Host) (fs : Bootfs) (i : Nat) (c : BConf) : Prop :=
  ∀ ty ∈ imageTypes,
    match c.images.find? fun im => im.type == ty.type with
    | none => lookupImage (fs.blockFrom i) ty.type = none
    | some im => ∃ e contents, lookupImage (fs.blockFrom i) ty.type = some e ∧
        host.contents im.data = some contents ∧ Loads fs e.dataOff e.dataLen (storedBytes contents)

theorem imagesBack {exts : List Extent} {i : Nat} {c : BConf}
    (hlook : ∀ ty ∈ imageTypes, lookupImage (fs.blockFrom i) ty.type =
      (c.images.find? fun im => im.type == ty.type).map (bootfsImage exts))
    (hload : ∀ im ∈ c.images, ∃ contents, host.contents im.data = some contents ∧
      Loads fs (extentOf exts im.data).1 (extentOf exts im.data).2 (storedBytes contents)) :
    ImagesBack host fs i c := by
  intro ty hty
  have hl := hlook ty hty
  cases hfind : c.images.find? fun im => im.type == ty.type with
  | none => rw [hl, hfind]; rfl
  | some im =>
    obtain ⟨contents, hcont, hload⟩ := hload im (List.mem_of_find?_eq_some hfind)
    exact ⟨_, contents, by rw [hl, hfind]; rfl, hcont, hload⟩

/-- **What was written is read back**, from any sector of any medium. -/
theorem readsBack {dev : Option BlkDev} {t : Table} {exts : List Extent}
    (h : pBootConf host dev = .ok out) (ht : readConf host = .ok t)
    (he : placeData host metaSize t.data = .ok exts) (hfits : ConfFits t exts) (before : Mem)
    (sector : Nat) :
    ∃ fs, openImage before sector out.data = some fs ∧ ReadsBack host t exts fs := by
  obtain ⟨r⟩ := pBootConf_ok h
  obtain ⟨rfl, rfl⟩ := r.unique ht he
  obtain ⟨fs, hfs, hs⟩ := openImage_written r before sector
  have hl : Laid metaSize r.exts :=
    laid_placeData he (by decide) (sizesFit_of_total hfits.image hfits.total)
  have htab := (tableOk_readConf ht).1
  have hload : ∀ e ∈ r.exts, Loads fs e.dataOff e.dataLen e.bytes := fun e hmem =>
    loads_extent hs.toHolds hl hmem (read_extent r hl hmem)
  refine ⟨fs, hfs, (sources_placeData he).1, ?_, ?_, fun i hi => hs.isConf_iff hi, ?_, ?_, ?_⟩
  · intro e hmem
    rw [e.dataOff_eq hl hmem]
    exact ⟨hl.aligned e hmem, hl.start e hmem⟩
  · intro e hmem e' hmem' hne
    have hpair := hl.apart_of_ne hmem hmem' hne
    rw [e.dataOff_eq hl hmem, e'.dataOff_eq hl hmem', e.dataLen_eq hl hmem, e'.dataLen_eq hl hmem']
    exact hpair
  · intro i c hc
    have hslot := htab.confs i c hc
    obtain ⟨hname, hargs⟩ := hs.texts (block_of_conf r hc)
      (by rw [List.length_map]; exact hslot.toOk.length_images) hslot.bootargs hslot.name
    rw [hname, hargs]
    exact ⟨snprintf_eq_self_iff.2 (hfits.name i c hc), snprintf_eq_self_iff.2 (hfits.bootargs i c hc)⟩
  · intro i c hc
    exact imagesBack (fun ty hty => lookup_written hs hc hty) fun im him =>
      loads_source he hload ((htab.confs i c hc).sources im him)
  · intro f hf
    obtain ⟨contents, hcont, hload⟩ := loads_source he hload (htab.files f hf).2.2.2
    have hkept : f ∈ r.kept := by
      rw [ConfRun.kept, List.take_of_length_le hfits.files]
      exact hf
    obtain ⟨e, hfind, hnamed⟩ := find_written r hs hkept
    have hoff : e.dataOff = (extentOf r.exts f.data).1 := congrArg (·.dataOff) hnamed
    have hlen : e.dataLen = (extentOf r.exts f.data).2 := congrArg (·.dataLen) hnamed
    refine ⟨contents, hcont, fun mem dest hdest => ?_⟩
    rw [bootfsLoadFile, hfind]
    dsimp only
    rw [hoff, hlen]
    exact hload mem dest hdest

end

/-- The limits of a table, as a test. -/
def fitsNames (t : Table) : Bool :=
  (List.range 32).all fun i =>
    (t.confs i).all fun c => decide (c.name.length ≤ 95) && decide (c.bootargs.length ≤ 1847)

/-- A configuration and a file are read back from sector 8 of a medium. -/
theorem readsBack_one : ∃ out t fs, pBootConf (slotsHost 1) (some blankDev) = .ok out ∧
    openImage (fun _ => 0xff) 8 out.data = some fs ∧ ReadsBack (slotsHost 1) t smallExts fs := by
  obtain ⟨out, t, hout, ht, he, hp⟩ := @pBootConf_smallHost (slotsText 1)
    (fun t => fitsNames t && decide (t.files.length ≤ 51 * t.unused (List.range 32)))
    (by decide +kernel)
  obtain ⟨hnames, hfiles⟩ := Bool.and_eq_true_iff.1 hp
  have hconf : ∀ i c, t.confs i = some c → c.name.length ≤ 95 ∧ c.bootargs.length ≤ 1847 := by
    intro i c hc
    have hslot := (tableOk_readConf ht).1.confs i c hc
    have hall := List.all_eq_true.1 hnames i (List.mem_range.2 (hslot.slot ▸ hslot.index))
    rw [hc] at hall
    simpa using hall
  have hfits : ConfFits t smallExts :=
    { total := by decide
      image := by decide
      name := fun i c hc => (hconf i c hc).1
      bootargs := fun i c hc => (hconf i c hc).2
      files := of_decide_eq_true hfiles }
  obtain ⟨fs, hfs, hread⟩ := readsBack hout ht he hfits (fun _ => 0xff) 8
  exact ⟨out, t, fs, hout, hfs, hread⟩

end PBoot
