import PBoot.Conf.Proof.ReadBack
import Mathlib.Algebra.Order.BigOperators.Group.List
import Mathlib.Algebra.Order.Group.Nat

/-!
# The recorded extents

* `sizesFit_of_recorded`: extents whose offsets and lengths were recorded whole, and that the loader
  accepts, have sizes that fit.
* `extentsUsable_iff`: every source is loaded from the extent that is recorded for it exactly when
  the sizes of the sources fit. Nothing checks them.
-/

namespace PBoot

open Bytes Runs

/-! ## What is recorded -/

/-- The number of bytes that are stored of a source. -/
def storedSize (host : Host) (path : List UInt8) : Nat :=
  match host.contents path with
  | some contents => (storedBytes contents).length
  | none => 0

/-- In the boot file system the sources have the extents that were written. -/
structure Usable (t : Table) (exts : List Extent) (fs : Bootfs) : Prop where
  recorded : ∀ e ∈ exts, e.dataOff = e.pos ∧ e.dataLen = e.bytes.length
  images : ∀ i c, t.confs i = some c → ∀ im ∈ c.images, ∀ e ∈ exts, e.path = im.data →
    lookupImage (fs.blockFrom i) im.type = some ⟨im.type, e.pos, e.bytes.length⟩
  files : ∀ f ∈ t.files, ∀ e ∈ exts, e.path = f.data → ∀ n, bootfsFindFile fs f.name = some n →
    n.dataOff = e.pos ∧ n.dataLen = e.bytes.length
  loads : ∀ e ∈ exts, Loads fs e.dataOff e.dataLen e.bytes

/-- **Every recorded extent is usable**: no two sources overlap, and wherever the image is placed
the extents in its blocks are the ones that were written, and load. -/
def ExtentsUsable (host : Host) (image : Mem) : Prop :=
  ∀ t exts, readConf host = .ok t → placeData host metaSize t.data = .ok exts →
    (exts.Pairwise fun e e' =>
      e.pos + e.bytes.length ≤ e'.pos ∨ e'.pos + e'.bytes.length ≤ e.pos) ∧
    ∀ before sector, ∃ fs, openImage before sector image = some fs ∧ Usable t exts fs

/-- The sources of a directory fit. -/
def SourcesFit (host : Host) : Prop :=
  ∀ t, readConf host = .ok t → SizesFit metaSize (t.data.map (storedSize host))

/-! ## Sizes -/

section
variable {host : Host} {paths : List (List UInt8)} {pos : Nat} {exts : List Extent}

theorem sizes_placeData (h : placeData host pos paths = .ok exts) :
    exts.map (·.bytes.length) = paths.map (storedSize host) := by
  obtain ⟨hpaths, hbytes⟩ := sources_placeData h
  rw [← hpaths, List.map_map]
  refine List.map_congr_left fun e he => ?_
  obtain ⟨contents, hc, hb⟩ := hbytes e he
  rw [Function.comp_apply, storedSize, hc, hb]

/-- What is recorded whole and not too long fits. -/
theorem sizesFit_of_recorded (h : placeData host pos paths = .ok exts) (hpos : pos % 512 = 0)
    (hrec : ∀ e ∈ exts, e.dataOff = e.pos ∧ e.dataLen = e.bytes.length)
    (hmax : ∀ e ∈ exts, e.bytes.length ≤ 512 * 1024 * 1024) :
    SizesFit pos (exts.map (·.bytes.length)) := by
  induction paths generalizing pos exts with
  | nil =>
    cases h
    exact sizesFit_nil pos
  | cons path paths ih =>
    obtain ⟨contents, es, -, hes, rfl⟩ := placeData_cons.1 h
    obtain ⟨⟨hoff, hlen⟩, hrec⟩ := List.forall_mem_cons.1 hrec
    obtain ⟨hm, hmax⟩ := List.forall_mem_cons.1 hmax
    rw [hlen, nextPos_eq hpos] at hes
    have hwhole : pos % 2 ^ 32 = pos := hoff
    have hround : roundUp512 (storedBytes contents).length % 512 = 0 := Nat.mul_mod_left _ _
    exact sizesFit_cons.2 ⟨hm, by omega, ih hes (by dsimp only; omega) hrec hmax⟩

/-- With distinct paths the extent of a path is the one that is recorded. -/
theorem extentOf_eq {e : Extent} (hn : (exts.map (·.path)).Nodup) (he : e ∈ exts) :
    extentOf exts e.path = (e.dataOff, e.dataLen) := by
  obtain ⟨e', he', hp, hrec⟩ := extentOf_mem (List.mem_map_of_mem he)
  rw [hrec, List.inj_on_of_nodup_map hn he' he hp]

end

/-- What is loaded is at most 512 MiB. -/
theorem Loads.length_le {fs : Bootfs} {off len : Nat} {bytes : List UInt8} (h : Loads fs off len bytes) :
    bytes.length ≤ 512 * 1024 * 1024 := by
  obtain ⟨mem', hload, -⟩ := h (fun _ => 0) 1 (by decide)
  rcases bootfsLoadImage_some (by decide) hload with ⟨-, h0, -⟩ | ⟨-, hlen, -, hle, -⟩
  · rw [h0]
    exact Nat.zero_le _
  · omega

/-! ## When they are usable -/

section
variable {host : Host} {out : BlkDev} {r : ConfRun host out} {fs : Bootfs}

theorem usable_of_laid (hs : Shows fs out.data r.blocks) (hl : Laid metaSize r.exts) :
    Usable r.table r.exts fs := by
  obtain ⟨htab, -⟩ := tableOk_readConf r.read
  have hn : (r.exts.map (·.path)).Nodup := (sources_placeData r.place).1 ▸ htab.data
  have hrec : ∀ e ∈ r.exts, e.dataOff = e.pos ∧ e.dataLen = e.bytes.length := fun e he =>
    ⟨e.dataOff_eq hl he, e.dataLen_eq hl he⟩
  have hext : ∀ e ∈ r.exts, extentOf r.exts e.path = (e.pos, e.bytes.length) := fun e he => by
    rw [extentOf_eq hn he, (hrec e he).1, (hrec e he).2]
  refine ⟨hrec, ?_, ?_, fun e he =>
    loads_extent hs.toHolds hl he (read_extent r hl he)⟩
  · intro i c hc im him e he hp
    have hok := (htab.confs i c hc).toOk
    obtain ⟨ty, hty, ht⟩ := hok.known im him
    rw [← ht, lookup_written hs hc hty, hok.find_image him ht, Option.map_some, bootfsImage, ← hp,
      hext e he, ht]
  · intro f hf e he hp n hfound
    obtain ⟨n', hn', hnamed⟩ := find_written r hs (kept_of_find r hs hf hfound)
    rw [hfound] at hn'
    cases hn'
    have hoff : n.dataOff = (extentOf r.exts f.data).1 := congrArg (·.dataOff) hnamed
    have hlen : n.dataLen = (extentOf r.exts f.data).2 := congrArg (·.dataLen) hnamed
    rw [hoff, hlen, ← hp, hext e he]
    exact ⟨rfl, rfl⟩

theorem sourcesFit_of_usable (r : ConfRun host out) (h : ExtentsUsable host out.data) :
    SourcesFit host := by
  intro t ht
  obtain ⟨rfl, -⟩ := r.unique ht (by
    have := r.read
    rw [ht] at this
    cases this
    exact r.place)
  obtain ⟨-, hopen⟩ := h _ _ r.read r.place
  obtain ⟨fs, -, hu⟩ := hopen (fun _ => 0) 0
  rw [← sizes_placeData r.place]
  exact sizesFit_of_recorded r.place (by decide) hu.recorded fun e he => (hu.loads e he).length_le

/-- **Every recorded extent is usable**, after a run that goes well, exactly when the sizes of the
sources fit. -/
theorem extentsUsable_iff {dev : Option BlkDev} (h : pBootConf host dev = .ok out) :
    ExtentsUsable host out.data ↔ SourcesFit host := by
  obtain ⟨r⟩ := pBootConf_ok h
  refine ⟨sourcesFit_of_usable r, fun hfit t exts ht he => ?_⟩
  obtain ⟨rfl, rfl⟩ := r.unique ht he
  have hsizes : SizesFit metaSize (r.exts.map (·.bytes.length)) := by
    rw [sizes_placeData he]
    exact hfit _ ht
  have hl : Laid metaSize r.exts := laid_placeData he (by decide) hsizes
  refine ⟨hl.apart.imp fun hlt =>
    .inl (Nat.le_trans (Nat.add_le_add_left (le_roundUp512 _) _) hlt), fun before sector => ?_⟩
  obtain ⟨fs, hfs, hs⟩ := openImage_written r before sector
  exact ⟨fs, hfs, usable_of_laid hs hl⟩

end

/-- Two small sources are usable. -/
theorem extentsUsable_small : ∃ out, pBootConf (slotsHost 1) (some blankDev) = .ok out ∧
    ExtentsUsable (slotsHost 1) out.data := by
  obtain ⟨out, t, hout, ht, he, -⟩ := @pBootConf_smallHost (slotsText 1) (fun _ => true)
    (by decide +kernel)
  refine ⟨out, hout, (extentsUsable_iff hout).2 fun t' ht' => ?_⟩
  rw [ht] at ht'
  cases ht'
  rw [← sizes_placeData he]
  exact sizesFit_of_total (by decide) (by decide)

/-! ## A source over 512 MiB -/

/-- All sources have 512 MiB and 65 bytes. -/
def bigHost : Host :=
  { slotsHost 1 with contents := fun _ => some (List.replicate (512 * 1024 * 1024 + 65) 0) }

theorem lt_storedSize_bigHost (path : List UInt8) : 512 * 1024 * 1024 < storedSize bigHost path := by
  show 512 * 1024 * 1024 < (storedBytes (List.replicate (512 * 1024 * 1024 + 65) 0)).length
  unfold storedBytes
  split
  · rw [List.length_drop, List.length_replicate]
    omega
  · rw [List.length_replicate]
    omega

/-- Sources that can be read are placed. -/
theorem placeData_of_contents {host : Host} (h : ∀ path, (host.contents path).isSome) :
    ∀ (pos : Nat) (paths : List (List UInt8)), ∃ exts, placeData host pos paths = .ok exts
  | _, [] => ⟨[], rfl⟩
  | pos, path :: paths => by
    obtain ⟨contents, hc⟩ := Option.isSome_iff_exists.1 (h path)
    obtain ⟨es, hes⟩ := placeData_of_contents h
      (nextPos pos (Extent.dataLen ⟨path, pos, storedBytes contents⟩)) paths
    exact ⟨_, placeData_cons.2 ⟨contents, es, hc, hes, rfl⟩⟩

/-- The tool accepts them, and the loader does not. -/
theorem extentsUsable_big : ∃ size out, pBootConf bigHost (some ⟨fun _ => 0, size⟩) = .ok out ∧
    ¬ ExtentsUsable bigHost out.data := by
  obtain ⟨t, ht, hdata⟩ : ∃ t, readConf bigHost = .ok t ∧ (t.data == smallExts.map (·.path)) = true :=
    ok_of_any (by decide +kernel)
  obtain ⟨exts, he⟩ := @placeData_of_contents bigHost (fun _ => rfl) metaSize t.data
  -- a device with room for all of them
  obtain ⟨size, hmeta, hroom⟩ : ∃ size, metaSize ≤ size ∧
      ∀ e ∈ exts, e.pos + e.bytes.length ≤ size := by
    refine ⟨metaSize + (exts.map fun e => e.pos + e.bytes.length).sum, Nat.le_add_right _ _, ?_⟩
    intro e hmem
    have hle : e.pos + e.bytes.length ≤ (exts.map fun e => e.pos + e.bytes.length).sum :=
      List.le_sum_of_mem (List.mem_map.2 ⟨e, hmem, rfl⟩)
    omega
  obtain ⟨out, hout⟩ := @pBootConf_of_room bigHost t exts ⟨fun _ => 0, size⟩ ht he hmeta hroom
  obtain ⟨r⟩ := pBootConf_ok hout
  refine ⟨size, out, hout, fun hu => ?_⟩
  have hfit := sourcesFit_of_usable r hu t ht
  rw [beq_iff_eq.1 hdata] at hfit
  have hle := (sizesFit_cons.1 hfit).1
  exact absurd (lt_storedSize_bigHost _) (Nat.not_lt.2 hle)

end PBoot
