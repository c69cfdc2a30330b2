import PBoot.Conf.Proof.Extents
import PBoot.Conf.Stop

/-!
# What a run that stops leaves on the device

* `slot_cases`: the block of every slot is the one before, or a whole new one, or the one at which
  the run stopped.
* `stopped_blocks`: so every configuration that is visible after a run that stopped elsewhere is the
  old one, whose images load as before unless the run has written to their extents, or a new one,
  whose images load.
* `stopped_mix`: an old one whose image is partly overwritten, and one that is half written.
-/

namespace PBoot

open Bytes Runs

/-! ## What a configuration is -/

/-- Slot `i` has the configuration of the new file system, and its images load when the sources
fit. -/
def NewBlock (host : Host) (fs : Bootfs) (i : Nat) : Prop :=
  ∃ t exts c, readConf host = .ok t ∧ placeData host metaSize t.data = .ok exts ∧
    t.confs i = some c ∧
    (fs.blockFrom i).take blockSize =
      (MetaBlock.conf (c.images.map (bootfsImage exts)) c.bootargs c.name).bytes ∧
    (SourcesFit host → ImagesBack host fs i c)

/-- Slot `i` is unchanged, and what the writes `ws` have not touched loads as before. -/
def OldBlock (old new : Bootfs) (ws : List (Nat × List UInt8)) (i : Nat) : Prop :=
  (new.blockFrom i).take blockSize = (old.blockFrom i).take blockSize ∧
    ∀ off len, (∀ w ∈ ws, Misses off len w) → ∀ bytes, Loads old off len bytes → Loads new off len bytes

/-- The write of block `i` stopped short. -/
def TornBlock (ws : List (Nat × List UInt8)) (i : Nat) : Prop :=
  ∃ bs, ws.getLast? = some (blockSize * (i + 1), bs) ∧ bs ≠ [] ∧ bs.length < blockSize

/-! ## Where a run writes -/

section
variable {host : Host} {ws : List (Nat × List UInt8)}

theorem le_dataStops {pos : Nat} {paths : List (List UInt8)} (h : DataStops host pos paths ws) :
    ∀ w ∈ ws, pos ≤ w.1 := by
  induction h with
  | part _ => exact fun w hw => List.mem_singleton.1 hw ▸ Nat.le_refl _
  | whole _ _ ih =>
    exact List.forall_mem_cons.2 ⟨Nat.le_refl _, fun w hw => Nat.le_trans (le_nextPos _ _) (ih w hw)⟩

/-- The superblock's magic stays. -/
theorem magic_stopped {dev : Mem} {bs d : List UInt8} (hm : read dev 0 8 = sbMagic)
    (hbs : bs <+: superblock d) (hws : ∀ w ∈ ws, 2048 ≤ w.1) :
    read (poke dev ((0, bs) :: ws)) 0 8 = sbMagic := by
  obtain ⟨t, ht⟩ := hbs
  have hsb : (bs ++ t).take 8 = sbMagic := by
    rw [ht, superblock, List.append_assoc, List.append_assoc, List.append_assoc,
      List.take_left' length_sbMagic]
  rw [poke_cons, read_poke_of_misses fun w hw => .inl (by have := hws w hw; omega), ← hm]
  refine read_congr fun k hk => ?_
  rw [Nat.zero_add]
  by_cases hlt : k < bs.length
  · have hw := write_at (m := dev) (a := 0) hlt
    rw [Nat.zero_add] at hw
    have hdev := read_eq_iff.1 (show read dev 0 sbMagic.length = sbMagic from hm) k hk
    rw [Nat.zero_add] at hdev
    rw [hw, hdev]
    simp only [← hsb, List.getElem_take, List.getElem_append_left hlt]
  · refine write_of_ge ?_
    dsimp only
    omega

end

/-! ## Old blocks -/

theorem oldBlock_of_misses {dev : Mem} {ws : List (Nat × List UInt8)} {old new : Bootfs} {i : Nat}
    (ho : Holds old dev) (hn : Holds new (poke dev ws)) (hi : i < 32)
    (h : ∀ w ∈ ws, Misses (blockSize * (i + 1)) blockSize w) : OldBlock old new ws i := by
  refine ⟨?_, fun off len hmiss bytes hload => ?_⟩
  · obtain ⟨r₁, h₁⟩ := ho.blockFrom hi
    obtain ⟨r₂, h₂⟩ := hn.blockFrom hi
    rw [h₁, h₂, read_poke_of_misses h, List.take_left' (length_read _ _ _),
      List.take_left' (length_read _ _ _)]
  · obtain ⟨hlen, hlim, hread⟩ := ho.loads_iff.1 hload
    exact hn.loads_iff.2 ⟨hlen, hlim, by rw [read_poke_of_misses hmiss, hread]⟩

/-! ## Blocks -/

/-- The writes of the first `n` blocks and of a part of the next. -/
def blockStops (blocks : List MetaBlock) (n : Nat) (bs : List UInt8) : List (Nat × List UInt8) :=
  blockWrites (blocks.take n) ++ [(blockSize * (n + 1), bs)]

section
variable {blocks : List MetaBlock} {n i : Nat} {b : MetaBlock} {bs : List UInt8}

/-- The writes before block `i` end before it, and the ones after it start behind it. -/
theorem misses_blockStops (hs : ∀ b ∈ blocks, b.Sized) (hb : blocks[n]? = some b)
    (hbs : bs <+: b.bytes) {w : Nat × List UInt8} (hw : w ∈ blockStops blocks n bs) :
    ∃ j, j ≤ n ∧ w.1 = blockSize * (j + 1) ∧ w.2.length ≤ blockSize ∧ (j = n → w.2 = bs) := by
  have hle : bs.length ≤ blockSize :=
    MetaBlock.length_bytes (hs b (List.mem_of_getElem? hb)) ▸ hbs.length_le
  rcases List.mem_append.1 hw with hw | hw
  · obtain ⟨j, b', hb', rfl⟩ := exists_of_mem_blockWrites hw
    rw [List.getElem?_take] at hb'
    split at hb'
    · rename_i hj
      have hlen := MetaBlock.length_bytes (hs b' (List.mem_of_getElem? hb'))
      exact ⟨j, by omega, rfl, Nat.le_of_eq hlen, fun h => by omega⟩
    · cases hb'
  · rw [List.mem_singleton.1 hw]
    exact ⟨n, Nat.le_refl _, rfl, hle, fun _ => rfl⟩

/-- The blocks after the last write are not touched. -/
theorem blockStops_before (hs : ∀ b ∈ blocks, b.Sized) (hb : blocks[n]? = some b)
    (hbs : bs <+: b.bytes) (hni : n ≤ i) (hnil : i = n → bs = []) :
    ∀ w ∈ blockStops blocks n bs, Misses (blockSize * (i + 1)) blockSize w := by
  intro w hw
  obtain ⟨j, hj, hpos, hlen, hlast⟩ := misses_blockStops hs hb hbs hw
  refine .inr ?_
  rw [hpos]
  unfold blockSize at hlen ⊢
  by_cases hin : i = n
  · by_cases hjn : j = n
    · rw [hlast hjn, hnil hin, List.length_nil]
      omega
    · omega
  · omega

/-- A block that was written whole is there. -/
theorem read_blockStops (m : Mem) (hs : ∀ b ∈ blocks, b.Sized) (hb : blocks[n]? = some b)
    (hbs : bs <+: b.bytes) {b' : MetaBlock} (hi : blocks[i]? = some b')
    (hw : i < n ∨ i = n ∧ bs.length = blockSize) :
    read (poke m (blockStops blocks n bs)) (blockSize * (i + 1)) blockSize = b'.bytes := by
  have hlen : b'.bytes.length = blockSize := MetaBlock.length_bytes (hs b' (List.mem_of_getElem? hi))
  have hmem : (blockSize * (i + 1), b'.bytes) ∈ blockStops blocks n bs := by
    rcases hw with hlt | ⟨rfl, hfull⟩
    · refine List.mem_append_left _ (mem_blockWrites ?_)
      rw [List.getElem?_take, if_pos hlt]
      exact hi
    · rw [hi] at hb
      cases hb
      rw [← hbs.eq_of_length (hfull.trans hlen.symm)]
      exact List.mem_append_right _ (List.mem_singleton_self _)
  have hpair : (blockStops blocks n bs).Pairwise fun w v => Misses w.1 w.2.length v := by
    refine List.pairwise_append.2 ⟨blockWrites_disjoint fun b hb => hs b (List.mem_of_mem_take hb),
      List.pairwise_singleton _ _, fun w hw v hv => ?_⟩
    obtain ⟨j, b₁, hb₁, rfl⟩ := exists_of_mem_blockWrites hw
    rw [List.mem_singleton.1 hv]
    rw [List.getElem?_take] at hb₁
    split at hb₁
    · rename_i hj
      have hlen₁ := MetaBlock.length_bytes (hs b₁ (List.mem_of_getElem? hb₁))
      refine .inl ?_
      dsimp only
      rw [hlen₁, ← Nat.mul_succ]
      exact Nat.mul_le_mul_left _ (by omega)
    · cases hb₁
  have hread : read (poke m ([] ++ blockStops blocks n bs)) (blockSize * (i + 1)) b'.bytes.length =
      b'.bytes := read_poke_of_mem hpair hmem
  rwa [hlen, List.nil_append] at hread

end

/-! ## The two phases -/

section
variable {host : Host} {t : Table} {exts : List Extent}

/-- The writes before the blocks. -/
def dataWrites (t : Table) (exts : List Extent) : List (Nat × List UInt8) :=
  (0, superblock (t.deviceId.getD [])) :: exts.map fun e => (e.pos, e.bytes)

/-- What is written first leaves the blocks alone. -/
theorem misses_first {ws : List (Nat × List UInt8)} {bs : List UInt8}
    (hbs : bs.length ≤ 2048) (hws : ∀ w ∈ ws, metaSize ≤ w.1) {i : Nat} (hi : i < 32) :
    ∀ w ∈ (0, bs) :: ws, Misses (blockSize * (i + 1)) blockSize w := by
  refine List.forall_mem_cons.2 ⟨.inr ?_, fun w hw => .inl ?_⟩
  · dsimp only
    unfold blockSize
    omega
  · have := hws w hw
    unfold metaSize at this
    unfold blockSize
    omega

theorem le_dataWrites (he : placeData host metaSize t.data = .ok exts) :
    ∀ w ∈ exts.map (fun e => (e.pos, e.bytes)), metaSize ≤ w.1 := by
  intro w hw
  obtain ⟨e, hmem, rfl⟩ := List.mem_map.1 hw
  exact pos_placeData he e hmem

/-- The data stay as they are while the blocks are written. -/
theorem read_extent_stopped (ht : readConf host = .ok t)
    (he : placeData host metaSize t.data = .ok exts) (hl : Laid metaSize exts) {n : Nat}
    {b : MetaBlock} {bs : List UInt8} (hb : (metaBlocks t exts 0 (List.range 32))[n]? = some b)
    (hbs : bs <+: b.bytes) (dev : Mem) {e : Extent} (hmem : e ∈ exts) :
    read (poke dev (dataWrites t exts ++ blockStops (metaBlocks t exts 0 (List.range 32)) n bs))
      e.pos e.bytes.length = e.bytes := by
  have hsized : ∀ b ∈ metaBlocks t exts 0 (List.range 32), b.Sized :=
    sized_metaBlocks (tableOk_readConf ht).1 _ _
  have hlen : (metaBlocks t exts 0 (List.range 32)).length = 32 := by
    rw [length_metaBlocks, List.length_range]
  have hpos := hl.start e hmem
  unfold metaSize at hpos
  -- the run that goes on to the end
  have hfull : read (poke dev (confWrites t exts)) e.pos e.bytes.length = e.bytes :=
    read_extent (⟨⟨dev, 0⟩, t, exts, ht, he, rfl⟩ : ConfRun host ⟨poke dev (confWrites t exts), 0⟩)
      hl hmem
  have hw : confWrites t exts =
      dataWrites t exts ++ blockWrites (metaBlocks t exts 0 (List.range 32)) := rfl
  rw [hw, poke_append, read_poke_of_misses] at hfull
  · rw [poke_append, read_poke_of_misses, hfull]
    intro w hw
    obtain ⟨j, hj, hpos', hle, -⟩ := misses_blockStops hsized hb hbs hw
    have hn := (List.getElem?_eq_some_iff.1 hb).1
    refine .inr ?_
    rw [hpos']
    unfold blockSize at hle ⊢
    omega
  · intro w hw
    obtain ⟨j, b', hb', rfl⟩ := exists_of_mem_blockWrites hw
    have hj := (List.getElem?_eq_some_iff.1 hb').1
    have hb'len := MetaBlock.length_bytes (hsized _ (List.mem_of_getElem? hb'))
    refine .inr ?_
    dsimp only
    rw [hb'len]
    unfold blockSize
    omega

/-- A block that was written whole is a new one. -/
theorem newBlock_of_whole (ht : readConf host = .ok t)
    (he : placeData host metaSize t.data = .ok exts) {n : Nat} {b : MetaBlock} {bs : List UInt8}
    (hb : (metaBlocks t exts 0 (List.range 32))[n]? = some b) (hbs : bs <+: b.bytes) {dev : Mem}
    {new : Bootfs}
    (hn : Holds new
      (poke dev (dataWrites t exts ++ blockStops (metaBlocks t exts 0 (List.range 32)) n bs)))
    {i : Nat} (hi : i < 32) (hconf : new.isConf i = true)
    (hw : i < n ∨ i = n ∧ bs.length = blockSize) : NewBlock host new i := by
  have htab := (tableOk_readConf ht).1
  have hsized : ∀ b ∈ metaBlocks t exts 0 (List.range 32), b.Sized := sized_metaBlocks htab _ _
  obtain ⟨b', hb', hof⟩ := @metaBlocks_getElem? t exts (List.range 32) 0 i i
    (List.getElem?_range hi)
  obtain ⟨rest, hr⟩ := hn.blockFrom hi
  rw [poke_append, read_blockStops _ hsized hb hbs hb' hw] at hr
  rw [isConf_of_block hr, hof.isConf] at hconf
  obtain ⟨c, hc⟩ := Option.isSome_iff_exists.1 hconf
  unfold BlockOf at hof
  rw [hc] at hof
  subst hof
  refine ⟨t, exts, c, ht, he, hc, ?_, fun hfit => ?_⟩
  · rw [hr, List.take_left' (MetaBlock.length_bytes (hsized _ (List.mem_of_getElem? hb')))]
  · have hl : Laid metaSize exts :=
      laid_placeData he (by decide) (by rw [sizes_placeData he]; exact hfit t ht)
    have hslot := htab.confs i c hc
    refine imagesBack (fun ty hty => by rw [hr]; exact lookup_conf hslot.toOk rest hty) fun im him =>
      loads_source he (fun e hmem => ?_) (hslot.sources im him)
    exact loads_extent hn hl hmem (read_extent_stopped ht he hl hb hbs dev hmem)

end

/-! ## Every stop -/

section
variable {host : Host} {ws : List (Nat × List UInt8)}

/-- What the writes of a stopped run have in common: a part of the superblock comes first, and only
blocks follow at offsets below the data. -/
theorem magic_stopWrites (h : StopWrites host ws) {dev : Mem} (hm : read dev 0 8 = sbMagic) :
    read (poke dev ws) 0 8 = sbMagic := by
  have hmeta : 2048 ≤ metaSize := by decide
  cases h with
  | conf _ => exact hm
  | device _ => exact hm
  | superblock _ hbs => exact magic_stopped hm hbs fun _ hw => (nomatch hw)
  | data _ hd =>
    exact magic_stopped hm List.prefix_rfl fun w hw => Nat.le_trans hmeta (le_dataStops hd w hw)
  | @blocks t exts n b bs ht he hb hbs =>
    rw [List.append_assoc, List.cons_append]
    refine magic_stopped hm List.prefix_rfl fun w hw => ?_
    rcases List.mem_append.1 hw with hw | hw
    · exact Nat.le_trans hmeta (le_dataWrites he w hw)
    · obtain ⟨j, -, hpos, -⟩ := misses_blockStops
        (sized_metaBlocks (tableOk_readConf ht).1 (List.range 32) 0) hb hbs hw
      rw [hpos]
      unfold blockSize
      omega

/-- **The blocks after a run that stops**: a visible configuration is the old one or a whole new
one, unless the run stopped at its block. -/
theorem slot_cases (h : StopWrites host ws) {dev : Mem} {old new : Bootfs} (ho : Holds old dev)
    (hn : Holds new (poke dev ws)) {i : Nat} (hi : i < 32) (hconf : new.isConf i = true) :
    TornBlock ws i ∨ NewBlock host new i ∨ OldBlock old new ws i := by
  cases h with
  | conf _ => exact .inr (.inr (oldBlock_of_misses ho hn hi fun _ hw => (nomatch hw)))
  | device _ => exact .inr (.inr (oldBlock_of_misses ho hn hi fun _ hw => (nomatch hw)))
  | superblock _ hbs =>
    have hle := hbs.length_le
    rw [length_superblock] at hle
    exact .inr (.inr (oldBlock_of_misses ho hn hi (misses_first hle (List.forall_mem_nil _) hi)))
  | data _ hd =>
    exact .inr (.inr (oldBlock_of_misses ho hn hi
      (misses_first (Nat.le_of_eq (length_superblock _)) (le_dataStops hd) hi)))
  | @blocks t exts n b bs ht he hb hbs =>
    have hsized : ∀ b ∈ metaBlocks t exts 0 (List.range 32), b.Sized :=
      sized_metaBlocks (tableOk_readConf ht).1 _ _
    have hle : bs.length ≤ blockSize :=
      MetaBlock.length_bytes (hsized b (List.mem_of_getElem? hb)) ▸ hbs.length_le
    rw [List.append_assoc] at hn ⊢
    by_cases hw : i < n ∨ i = n ∧ bs.length = blockSize
    · exact .inr (.inl (newBlock_of_whole ht he hb hbs hn hi hconf hw))
    by_cases htorn : i = n ∧ bs ≠ []
    · obtain ⟨rfl, hne⟩ := htorn
      refine .inl ⟨bs, ?_, hne, by omega⟩
      rw [← List.append_assoc, List.getLast?_concat]
    -- the writes end before the block
    · have hni : n ≤ i := by
        by_contra hlt
        exact hw (.inl (by omega))
      have hnil : i = n → bs = [] := fun hin => by
        by_contra hne
        exact htorn ⟨hin, hne⟩
      refine .inr (.inr (oldBlock_of_misses ho hn hi fun w hw' => ?_))
      rcases List.mem_append.1 hw' with hw' | hw'
      · exact misses_first (Nat.le_of_eq (length_superblock _)) (le_dataWrites he) hi w hw'
      · exact blockStops_before hsized hb hbs hni hnil w hw'

/-- **A run that stops with an error**: in `boot.conf` or `files/` it leaves the device as it was;
after any other the boot file system opens, and its configurations are old or new ones. -/
theorem stopped_blocks (h : StopWrites host ws) {before dev : Mem} {sector : Nat} {old : Bootfs}
    (ho : openImage before sector dev = some old) :
    ((readConf host).toOption = none → poke dev ws = dev) ∧
      ∃ new, openImage before sector (poke dev ws) = some new ∧
        ∀ i < 32, new.isConf i = true →
          TornBlock ws i ∨ NewBlock host new i ∨ OldBlock old new ws i := by
  obtain ⟨hold, hmagic⟩ := holds_of_open before sector ho
  refine ⟨fun herr => ?_, ?_⟩
  · cases h with
    | conf _ => rfl
    | device _ => rfl
    | superblock ht _ => rw [ht] at herr; cases herr
    | data ht _ => rw [ht] at herr; cases herr
    | blocks ht _ _ _ => rw [ht] at herr; cases herr
  · obtain ⟨new, hnew, hn⟩ := openImage_of_magic before sector (magic_stopWrites h hmagic)
    exact ⟨new, hnew, fun i hi hconf => slot_cases h hold hn hi hconf⟩

end

/-! ## Mixed images -/

/-- Every image of a visible configuration loads one of `images`. -/
def Unmixed (images : List (List UInt8)) (fs : Bootfs) : Prop :=
  ∀ i < 32, fs.isConf i = true → ∀ ty ∈ imageTypes, ∀ e,
    lookupImage (fs.blockFrom i) ty.type = some e →
      ∃ bytes ∈ images, Loads fs e.dataOff e.dataLen bytes

/-- Slot 0 of an image has the kernel `e`, and it is none of `images`. -/
def mixedKernel (images : List (List UInt8)) (e : BootfsImage) (image : Mem) : Bool :=
  let blk := read image blockSize (metaSize - blockSize)
  blk.take 8 == confMagic && lookupImage blk 'L'.toNat == some e &&
    images.all fun bytes => read image e.dataOff e.dataLen != bytes

theorem not_unmixed {images : List (List UInt8)} {e : BootfsImage} {image : Mem} {fs : Bootfs}
    (h : Holds fs image) (hm : mixedKernel images e image = true) : ¬ Unmixed images fs := by
  unfold mixedKernel at hm
  simp only [Bool.and_eq_true] at hm
  obtain ⟨⟨hconf, he⟩, hall⟩ := hm
  have hblk : fs.blockFrom 0 = read image blockSize (metaSize - blockSize) := by
    rw [Bootfs.blockFrom, h.sb, drop_read, Nat.zero_add, Nat.mul_one]
  rw [← hblk] at hconf he
  intro hu
  obtain ⟨bytes, hmem, hload⟩ := hu 0 (by decide) hconf ⟨ascii "linux", 'L'.toNat, false⟩
    List.mem_cons_self e (beq_iff_eq.1 he)
  exact bne_iff_ne.1 (List.all_eq_true.1 hall bytes hmem) (h.loads_iff.1 hload).2.2

/-- The superblock is not looked at. -/
theorem mixedKernel_superblock (images : List (List UInt8)) {e : BootfsImage} (he : blockSize ≤ e.dataOff)
    (m : Mem) (d : List UInt8) (ws : List (Nat × List UInt8)) :
    mixedKernel images e (poke m ((0, superblock d) :: ws)) = mixedKernel images e (poke m ws) := by
  have hread : ∀ a n, blockSize ≤ a →
      read (poke m ((0, superblock d) :: ws)) a n = read (poke m ws) a n := fun a n ha =>
    read_congr fun i _ => poke_congr (write_of_ge (by
      dsimp only
      rw [length_superblock]
      unfold blockSize at ha
      omega)) ws
  unfold mixedKernel
  rw [hread _ _ (Nat.le_refl _), hread _ _ he]

/-- The contents of a longer source. -/
def longBytes : List UInt8 := List.replicate 300 9

theorem storedBytes_longBytes : storedBytes longBytes = longBytes :=
  if_neg fun h => absurd h.2 (by decide)

/-- The directory again, with longer sources. -/
def newHost : Host := { slotsHost 1 with contents := fun _ => some longBytes }

theorem readConf_contents (host : Host) (contents : List UInt8 → Option (List UInt8)) :
    readConf { host with contents } = readConf host := rfl

/-- The sources, placed. -/
def newExts : List Extent :=
  [⟨ascii "/i", metaSize, longBytes⟩, ⟨ascii "c/files/a", metaSize + 512, longBytes⟩]

theorem placeData_newHost :
    placeData newHost metaSize [ascii "/i", ascii "c/files/a"] = .ok newExts := by
  have hcont : ∀ path, newHost.contents path = some longBytes := fun _ => rfl
  have hnext : nextPos metaSize (Extent.dataLen ⟨ascii "/i", metaSize, longBytes⟩) = metaSize + 512 := by
    rw [Extent.dataLen, longBytes, List.length_replicate]
    decide
  simp only [placeData, hcont, storedBytes_longBytes, hnext]
  rfl

/-- A run that stops after the first source, and one that stops in the length of the first image of
block 0. -/
def afterSource : List (Nat × List UInt8) := [(metaSize, longBytes)]

def inBlock (t : Table) : List (Nat × List UInt8) :=
  newExts.map (fun e => (e.pos, e.bytes)) ++
    blockStops (metaBlocks t newExts 0 (List.range 32)) 0
      (((metaBlocks t newExts 0 (List.range 32)).headD .zero).bytes.take 19)

/-- The writes of a run that stops. -/
def withSuperblock (t : Table) (ws : List (Nat × List UInt8)) : List (Nat × List UInt8) :=
  (0, superblock (t.deviceId.getD [])) :: ws

section
variable {t : Table} (ht : readConf newHost = .ok t) (hdata : t.data = [ascii "/i", ascii "c/files/a"])
include ht hdata

theorem stopWrites_afterSource : StopWrites newHost (withSuperblock t afterSource) := by
  refine .data ht ?_
  rw [hdata]
  refine .part fun contents hc => ?_
  cases hc
  exact ⟨[], (List.append_nil _).trans storedBytes_longBytes.symm⟩

theorem stopWrites_inBlock : StopWrites newHost (withSuperblock t (inBlock t)) := by
  have hlen : (metaBlocks t newExts 0 (List.range 32)).length = 32 := by
    rw [length_metaBlocks, List.length_range]
  obtain ⟨b, bs, hb⟩ := List.exists_cons_of_length_eq_add_one hlen
  have hfirst : (metaBlocks t newExts 0 (List.range 32))[0]? = some b := by
    rw [hb, List.getElem?_cons_zero]
  have hstop := StopWrites.blocks ht (hdata ▸ placeData_newHost) hfirst (List.take_prefix 19 _)
  rw [List.append_assoc] at hstop
  unfold withSuperblock inBlock
  rwa [hb, List.headD_cons, ← hb]

omit hdata in
theorem tornBlock_inBlock : TornBlock (withSuperblock t (inBlock t)) 0 := by
  have hlen : (metaBlocks t newExts 0 (List.range 32)).length = 32 := by
    rw [length_metaBlocks, List.length_range]
  obtain ⟨b, bs, hb⟩ := List.exists_cons_of_length_eq_add_one hlen
  have hsize : b.bytes.length = blockSize := MetaBlock.length_bytes
    (sized_metaBlocks (tableOk_readConf ht).1 (List.range 32) 0 b (hb ▸ List.mem_cons_self))
  have htake : (b.bytes.take 19).length = 19 := by
    rw [List.length_take, hsize]
    rfl
  refine ⟨b.bytes.take 19, ?_, fun hnil => ?_, by rw [htake]; decide⟩
  · rw [withSuperblock, inBlock, blockStops, ← List.append_assoc, ← List.cons_append,
      List.getLast?_concat, hb, List.headD_cons]
  · rw [hnil] at htake
    cases htake

end

/-- The device before, written by a run that went well, and the two runs that stop. -/
theorem stopped_runs : ∃ out t old, pBootConf (slotsHost 1) (some blankDev) = .ok out ∧
    openImage (fun _ => 0) 0 out.data = some old ∧
    StopWrites newHost (withSuperblock t afterSource) ∧
    StopWrites newHost (withSuperblock t (inBlock t)) ∧
    TornBlock (withSuperblock t (inBlock t)) 0 ∧
    mixedKernel [[1, 2, 3], longBytes] ⟨'L'.toNat, metaSize, 3⟩
      (poke out.data (withSuperblock t afterSource)) = true ∧
    mixedKernel [[1, 2, 3], longBytes] ⟨'L'.toNat, metaSize, 259⟩
      (poke out.data (withSuperblock t (inBlock t))) = true := by
  obtain ⟨out, t, hout, ht, he, hp⟩ := @pBootConf_smallHost (slotsText 1)
    (fun t =>
      mixedKernel [[1, 2, 3], longBytes] ⟨'L'.toNat, metaSize, 3⟩
        (poke (poke blankDev.data (confWrites t smallExts)) afterSource) &&
      mixedKernel [[1, 2, 3], longBytes] ⟨'L'.toNat, metaSize, 259⟩
        (poke (poke blankDev.data (confWrites t smallExts)) (inBlock t)))
    (by decide +kernel)
  have hdata : t.data = [ascii "/i", ascii "c/files/a"] := ((sources_placeData he).1).symm
  have ht' : readConf newHost = .ok t := (readConf_contents _ _).trans ht
  obtain ⟨r⟩ := pBootConf_ok hout
  obtain ⟨old, hold, -⟩ := openImage_written r (fun _ => 0) 0
  obtain ⟨hp₁, hp₂⟩ := Bool.and_eq_true_iff.1 hp
  refine ⟨out, t, old, hout, hold, stopWrites_afterSource ht' hdata, stopWrites_inBlock ht' hdata,
    tornBlock_inBlock ht', ?_, ?_⟩
  · rw [withSuperblock, mixedKernel_superblock _ (by decide), pBootConf_data hout ht he]
    exact hp₁
  · rw [withSuperblock, mixedKernel_superblock _ (by decide), pBootConf_data hout ht he]
    exact hp₂

/-- A stop in the data leaves an old configuration with a kernel that is partly overwritten, a stop
in a block one with an extent that nobody wrote. -/
theorem stopped_mix : ∃ out, pBootConf (slotsHost 1) (some blankDev) = .ok out ∧
    (∃ ws new, StopWrites newHost ws ∧ openImage (fun _ => 0) 0 (poke out.data ws) = some new ∧
      (∀ i < 32, ¬ TornBlock ws i) ∧ ¬ Unmixed [[1, 2, 3], longBytes] new) ∧
    ∃ ws new, StopWrites newHost ws ∧ openImage (fun _ => 0) 0 (poke out.data ws) = some new ∧
      TornBlock ws 0 ∧ ¬ Unmixed [[1, 2, 3], longBytes] new := by
  obtain ⟨out, t, old, hout, hold, hstop₁, hstop₂, htorn, hmix₁, hmix₂⟩ := stopped_runs
  have hmagic := (holds_of_open _ _ hold).2
  obtain ⟨new₁, hnew₁, hn₁⟩ := openImage_of_magic (fun _ => 0) 0 (magic_stopWrites hstop₁ hmagic)
  obtain ⟨new₂, hnew₂, hn₂⟩ := openImage_of_magic (fun _ => 0) 0 (magic_stopWrites hstop₂ hmagic)
  refine ⟨out, hout, ⟨_, new₁, hstop₁, hnew₁, ?_, not_unmixed hn₁ hmix₁⟩,
    ⟨_, new₂, hstop₂, hnew₂, htorn, not_unmixed hn₂ hmix₂⟩⟩
  rintro i hi ⟨bs, hlast, -⟩
  have hpos : metaSize = blockSize * (i + 1) :=
    congrArg Prod.fst (Option.some.inj (show some (metaSize, longBytes) = _ from hlast))
  unfold metaSize blockSize at hpos
  omega

/-- The theorem at the first of these runs. -/
theorem stopped_blocks_afterSource : ∃ ws dev new, StopWrites newHost ws ∧
    ((readConf newHost).toOption = none → poke dev ws = dev) ∧
    openImage (fun _ => 0) 0 (poke dev ws) = some new ∧
      ∀ i < 32, new.isConf i = true →
        TornBlock ws i ∨ NewBlock newHost new i ∨
          ∃ old, openImage (fun _ => 0) 0 dev = some old ∧ OldBlock old new ws i := by
  obtain ⟨out, t, old, -, hold, hstop, -⟩ := stopped_runs
  obtain ⟨hconf, new, hnew, hall⟩ := stopped_blocks hstop hold
  exact ⟨_, _, new, hstop, hconf, hnew, fun i hi hc =>
    (hall i hi hc).imp_right (Or.imp_right fun ho => ⟨old, hold, ho⟩)⟩

end PBoot
