import PBoot.Lib.Search
import PBoot.Storage.Open

/-!
# What the search for the boot file system finds

`openSpec` says what `bootfs_open` is for: the file system at the first partition, flagged
partitions of type 0x83 first, that can be read and carries the superblock's magic, along with the
slots looked at on the way.

* `collectParts_eq`: `parts[]` holds the type-0x83 partitions by slot.
* `searchLoop_add` cuts the loop in two; `searchLoop_firstPass`: its first `part_count` rounds are
  the search of the flagged partitions, and read only entries that were filled.
* `bootfsOpen_right_iff`: the second pass tests `parts[i]` where the candidate is
  `parts[i % part_count]`, so the search is right exactly when it does not get there.
-/

namespace PBoot

open Bytes Search

/-! ## The purpose of the search -/

/-- The slots of the type-0x83 partitions with the boot flag (`flag`) or without it. -/
def linuxSlots (buf : List UInt8) (flag : Bool) : List Nat :=
  [0, 1, 2, 3].filter fun s =>
    (dosPartition buf s).sysInd == 0x83 && ((dosPartition buf s).bootInd == 0x80) == flag

def candidates (buf : List UInt8) : List Nat := linuxSlots buf true ++ linuxSlots buf false

/-- The file system at the partition of `slot`. -/
def openSlot (mmc : Mmc) (buf : List UInt8) (slot : Nat) : Option Bootfs :=
  openAt mmc (512 * (dosPartition buf slot).start)

def indOk (buf : List UInt8) (slot : Nat) : Bool :=
  (dosPartition buf slot).bootInd == 0 || (dosPartition buf slot).bootInd == 0x80

def validMbr (buf : List UInt8) : Bool :=
  buf.getD 0x1fe 0 == 0x55 && buf.getD 0x1ff 0 == 0xaa && [0, 1, 2, 3].all (indOk buf)

/-- The medium and its boot record, when the medium is there and the record can be read and is
valid. -/
def mbr : Option Mmc → Option (Mmc × List UInt8)
  | none => none
  | some mmc => ((mmcReadData mmc 0 512).filter validMbr).map fun buf => (mmc, buf)

/-- The file system to open, and the slots looked at to find it. -/
def openSpec (mmc : Option Mmc) : Option Bootfs × List Nat :=
  match mbr mmc with
  | none => (none, [])
  | some (m, buf) => tryAll (openSlot m buf) (candidates buf)

/-! ## What the loop does -/

/-- The slots whose partition the search looked at, in order. -/
def slotsOf (parts : List PartInfo) (probes : List Probe) : List Nat :=
  (probes.filter (·.tried)).map fun p => (parts.getD p.part default).idx

/-- The search on `mmc` with `heap` in the memory handed out by `malloc` is right. -/
structure OpensRight (mmc : Option Mmc) (heap : Mem) : Prop where
  fs : (bootfsOpen mmc heap).fs = (openSpec mmc).1
  once : slotsOf (bootfsOpen mmc heap).parts (bootfsOpen mmc heap).probes = (openSpec mmc).2
  bounds : ∀ p ∈ (bootfsOpen mmc heap).probes, p.flag < (bootfsOpen mmc heap).parts.length
  noGarbage : ∀ heap', (bootfsOpen mmc heap').fs = (bootfsOpen mmc heap).fs

theorem collectParts_eq (buf : List UInt8) : ∀ (slots : List Nat) (parts : List PartInfo),
    collectParts buf slots parts =
      if slots.all (indOk buf) then
        some (parts ++ (slots.filter fun s => (dosPartition buf s).sysInd == 0x83).map
          (partInfo buf))
      else none
  | [], parts => by simp [collectParts]
  | slot :: slots, parts => by
    have hind : indOk buf slot = false ↔
        (dosPartition buf slot).bootInd ≠ 0 ∧ (dosPartition buf slot).bootInd ≠ 0x80 := by
      simp [indOk]
    unfold collectParts
    by_cases hb : (dosPartition buf slot).bootInd ≠ 0 ∧ (dosPartition buf slot).bootInd ≠ 0x80
    · simp [hb, hind.2 hb]
    · have hok : indOk buf slot = true := by simpa using mt hind.1 hb
      simp only [hb, ↓reduceIte, List.all_cons, hok, Bool.true_and]
      by_cases h83 : (dosPartition buf slot).sysInd = 0x83
      · simp [h83, collectParts_eq buf slots]
      · simp [h83, collectParts_eq buf slots]

section
variable {mmc : Mmc} {heap : Mem} {buf : List UInt8} {parts : List PartInfo}

/-- The loop goes on after its first `n` rounds if these found nothing. -/
theorem searchLoop_add : ∀ (n m i : Nat),
    searchLoop mmc heap buf parts (n + m) i =
      match (searchLoop mmc heap buf parts n i).1 with
      | some fs => (some fs, (searchLoop mmc heap buf parts n i).2)
      | none => ((searchLoop mmc heap buf parts m (i + n)).1,
          (searchLoop mmc heap buf parts n i).2 ++ (searchLoop mmc heap buf parts m (i + n)).2)
  | 0, m, i => by simp [searchLoop]
  | n + 1, m, i => by
    rw [show n + 1 + m = (n + m) + 1 by omega, searchLoop, searchLoop]
    dsimp only
    split
    · rfl
    · dsimp only
      rw [searchLoop_add n m (i + 1), show i + 1 + n = i + (n + 1) by omega]
      rcases (searchLoop mmc heap buf parts n (i + 1)).1 with _ | fs
      · rfl
      · rfl

theorem tryValue_of_lt {i : Nat} (h : i < parts.length) :
    (tryValue heap buf parts i != 0) = parts[i].isBoot := by
  have hd : i / parts.length = 0 := Nat.div_eq_of_lt h
  simp only [tryValue, hd, isBootByte, List.getElem?_eq_getElem h, Nat.xor_zero]
  cases parts[i].isBoot <;> rfl

/-- Every round reads the flag of its own index. -/
theorem exists_probe (n i : Nat) :
    ∃ p ∈ (searchLoop mmc heap buf parts (n + 1) i).2, p.flag = i := by
  unfold searchLoop
  dsimp only
  split
  · exact ⟨_, List.mem_singleton.2 rfl, rfl⟩
  · exact ⟨_, List.mem_cons_self, rfl⟩

theorem slotsOf_cons (p : Probe) (ps : List Probe) :
    slotsOf parts (p :: ps) =
      if p.tried then (parts.getD p.part default).idx :: slotsOf parts ps
      else slotsOf parts ps := by
  simp only [slotsOf, List.filter_cons]
  split <;> rfl

/-- **The first pass** is the search of the flagged partitions, and stays within `parts[]`. -/
theorem searchLoop_firstPass : ∀ (n i : Nat), i + n = parts.length →
    (searchLoop mmc heap buf parts n i).1 =
        (tryAll (fun p => openAt mmc p.start) ((parts.drop i).filter (·.isBoot))).1 ∧
      slotsOf parts (searchLoop mmc heap buf parts n i).2 =
        (tryAll (fun p => openAt mmc p.start) ((parts.drop i).filter (·.isBoot))).2.map (·.idx) ∧
      ∀ p ∈ (searchLoop mmc heap buf parts n i).2, p.flag < parts.length
  | 0, i, h => by
    rw [List.drop_eq_nil_of_le (by omega)]
    simp [searchLoop, slotsOf]
  | n + 1, i, h => by
    have hi : i < parts.length := by omega
    obtain ⟨ih1, ih2, ih3⟩ := searchLoop_firstPass n (i + 1) (by omega)
    have hmod : i % parts.length = i := Nat.mod_eq_of_lt hi
    have hget : parts.getD i default = parts[i] := by simp [hi]
    rw [List.drop_eq_getElem_cons hi]
    unfold searchLoop
    simp only [tryValue_of_lt hi, hmod, hget]
    rcases hb : parts[i].isBoot with _ | _
    · -- not flagged: the round only reads the flag
      simp only [Bool.false_eq_true, ↓reduceIte, hb, not_false_eq_true, List.filter_cons_of_neg]
      refine ⟨ih1, by rw [slotsOf_cons]; exact ih2, ?_⟩
      intro p hp
      rcases List.mem_cons.1 hp with rfl | hp
      · exact hi
      · exact ih3 p hp
    · rw [List.filter_cons_of_pos hb]
      rcases ho : openAt mmc parts[i].start with _ | fs
      · simp only [↓reduceIte, tryAll_cons_none (f := fun p : PartInfo => openAt mmc p.start) ho]
        refine ⟨ih1, ?_, ?_⟩
        · rw [slotsOf_cons, if_pos rfl, hget, ih2]
          rfl
        · intro p hp
          rcases List.mem_cons.1 hp with rfl | hp
          · exact hi
          · exact ih3 p hp
      · simp only [↓reduceIte, tryAll_cons_some (f := fun p : PartInfo => openAt mmc p.start) ho]
        refine ⟨trivial, ?_, ?_⟩
        · rw [slotsOf_cons, if_pos rfl, hget]
          rfl
        · intro p hp
          rw [List.mem_singleton.1 hp]
          exact hi

end

/-! ## Flagged partitions and slots -/

theorem filter_partInfo (buf : List UInt8) :
    (([0, 1, 2, 3].filter fun s => (dosPartition buf s).sysInd == 0x83).map (partInfo buf)).filter
      (·.isBoot) = (linuxSlots buf true).map (partInfo buf) := by
  rw [List.filter_map, List.filter_filter, linuxSlots]
  congr 1
  apply List.filter_congr
  intro s _
  simp [partInfo, Bool.and_comm]

theorem tryAll_partInfo (mmc : Mmc) (buf : List UInt8) (slots : List Nat) :
    (tryAll (fun p : PartInfo => openAt mmc p.start) (slots.map (partInfo buf))).1 =
        (tryAll (openSlot mmc buf) slots).1 ∧
      (tryAll (fun p : PartInfo => openAt mmc p.start) (slots.map (partInfo buf))).2.map (·.idx) =
        (tryAll (openSlot mmc buf) slots).2 := by
  rw [tryAll_map]
  refine ⟨rfl, ?_⟩
  rw [List.map_map]
  exact List.map_id _

theorem candidates_eq_nil {buf : List UInt8}
    (h : [0, 1, 2, 3].filter (fun s => (dosPartition buf s).sysInd == 0x83) = []) :
    candidates buf = [] := by
  have hn : ∀ flag, linuxSlots buf flag = [] := by
    intro flag
    rw [List.filter_eq_nil_iff] at h
    rw [linuxSlots, List.filter_eq_nil_iff]
    intro s hs hc
    exact h s hs (Bool.and_eq_true_iff.1 hc).1
  rw [candidates, hn, hn, List.append_nil]

theorem filter83_eq_nil {buf : List UInt8} (h : candidates buf = []) :
    [0, 1, 2, 3].filter (fun s => (dosPartition buf s).sysInd == 0x83) = [] := by
  rw [candidates, List.append_eq_nil_iff, linuxSlots, linuxSlots, List.filter_eq_nil_iff,
    List.filter_eq_nil_iff] at h
  rw [List.filter_eq_nil_iff]
  intro s hs hc
  rcases hb : (dosPartition buf s).bootInd == 0x80 with _ | _
  · exact h.2 s hs (by simp [hc, hb])
  · exact h.1 s hs (by simp [hc, hb])

/-! ## The search -/

/-- The partitions in `parts[]`. -/
def linuxParts (buf : List UInt8) : List PartInfo :=
  ([0, 1, 2, 3].filter fun s => (dosPartition buf s).sysInd == 0x83).map (partInfo buf)

theorem mbr_mmc {mmc : Option Mmc} {m : Mmc} {buf : List UInt8} (h : mbr mmc = some (m, buf)) :
    mmc = some m := by
  cases mmc with
  | none => cases h
  | some m' =>
    obtain ⟨_, -, hb⟩ := Option.map_eq_some_iff.1 h
    cases hb
    rfl

theorem bootfsOpen_of_mbr_none {mmc : Option Mmc} (h : mbr mmc = none) (heap : Mem) :
    bootfsOpen mmc heap = .null := by
  rcases mmc with _ | m
  · rfl
  · rcases hr : mmcReadData m 0 512 with _ | buf
    · simp only [bootfsOpen, hr]
    · simp only [mbr, hr, Option.map_eq_none_iff, Option.filter_eq_none_iff, Option.some.injEq,
        forall_eq', validMbr, Bool.and_eq_true, not_and, Bool.not_eq_true, beq_iff_eq] at h
      simp only [bootfsOpen, hr]
      split
      · rfl
      · rename_i hs
        simp only [not_or, ne_eq, not_not] at hs
        rw [collectParts_eq, h hs]
        rfl

theorem bootfsOpen_of_mbr {mmc : Option Mmc} {m : Mmc} {buf : List UInt8}
    (h : mbr mmc = some (m, buf)) (heap : Mem) :
    bootfsOpen mmc heap =
      { fs := (searchLoop m heap buf (linuxParts buf) ((linuxParts buf).length * 2) 0).1
        parts := linuxParts buf
        probes := (searchLoop m heap buf (linuxParts buf) ((linuxParts buf).length * 2) 0).2 } := by
  rcases mmc with _ | m'
  · cases h
  · simp only [mbr, Option.map_eq_some_iff, Option.filter_eq_some_iff, Prod.mk.injEq] at h
    obtain ⟨buf', ⟨hr, hv⟩, rfl, rfl⟩ := h
    simp only [validMbr, Bool.and_eq_true, beq_iff_eq] at hv
    have hsig : ¬(buf'.getD 0x1fe 0 ≠ 0x55 ∨ buf'.getD 0x1ff 0 ≠ 0xaa) := by
      simp only [hv.1.1, hv.1.2, ne_eq, not_true_eq_false, or_self, not_false_eq_true]
    simp only [bootfsOpen, hr, hsig, ↓reduceIte, collectParts_eq, hv.2, List.nil_append]
    rfl

/-- The search does not need its second pass: there is no partition to look at, or a flagged one
holds a boot file system. -/
def FirstPassSuffices (mmc : Option Mmc) : Prop :=
  ∀ m buf, mbr mmc = some (m, buf) →
    candidates buf = [] ∨ ∃ s ∈ linuxSlots buf true, (openSlot m buf s).isSome

theorem linuxParts_eq_nil {buf : List UInt8} : linuxParts buf = [] ↔ candidates buf = [] := by
  rw [linuxParts, List.map_eq_nil_iff]
  exact ⟨candidates_eq_nil, filter83_eq_nil⟩

/-! ## Where a file system is opened -/

theorem searchLoop_opened {mmc : Mmc} {heap : Mem} {buf : List UInt8} {parts : List PartInfo}
    {fs : Bootfs} : ∀ {n i : Nat}, (searchLoop mmc heap buf parts n i).1 = some fs →
      ∃ k, openAt mmc (parts.getD k default).start = some fs
  | 0, _, h => nomatch h
  | n + 1, i, h => by
    unfold searchLoop at h
    dsimp only at h
    split at h
    · rename_i fs' ho
      cases h
      split at ho
      · exact ⟨_, ho⟩
      · cases ho
    · exact searchLoop_opened h

/-- A file system is opened at the start of a sector. -/
theorem bootfsOpen_opened {mmc : Option Mmc} {heap : Mem} {fs : Bootfs}
    (h : (bootfsOpen mmc heap).fs = some fs) :
    ∃ m sector, mmc = some m ∧ openAt m (512 * sector) = some fs := by
  rcases hm : mbr mmc with _ | ⟨m, buf⟩
  · rw [bootfsOpen_of_mbr_none hm] at h
    cases h
  · rw [bootfsOpen_of_mbr hm] at h
    obtain ⟨k, hk⟩ := searchLoop_opened h
    refine ⟨m, ?_⟩
    rcases hp : (linuxParts buf)[k]? with _ | p
    · rw [List.getD_eq_getElem?_getD, hp] at hk
      exact ⟨0, mbr_mmc hm, hk⟩
    · rw [List.getD_eq_getElem?_getD, hp] at hk
      obtain ⟨slot, -, rfl⟩ := List.mem_map.1 (List.mem_of_getElem? hp)
      exact ⟨(dosPartition buf slot).start, mbr_mmc hm, hk⟩

theorem bootfsOpen_aligned {mmc : Option Mmc} {heap : Mem} {fs : Bootfs}
    (h : (bootfsOpen mmc heap).fs = some fs) : fs.mmcOffset % 512 = 0 := by
  obtain ⟨m, sector, -, ho⟩ := bootfsOpen_opened h
  rw [openAt_mmcOffset ho]
  omega

/-! ## Which searches are right -/

/-- Where the boot record is refused nothing is searched. -/
theorem opensRight_of_mbr_none {mmc : Option Mmc} (hm : mbr mmc = none) (heap : Mem) :
    OpensRight mmc heap := by
  have hnull := bootfsOpen_of_mbr_none hm
  refine ⟨?_, ?_, ?_, ?_⟩
  · rw [hnull, openSpec, hm]; rfl
  · rw [hnull, openSpec, hm]; rfl
  · rw [hnull]; intro p hp; cases hp
  · intro heap'; rw [hnull, hnull]

section
variable {mmc : Option Mmc} {m : Mmc} {buf : List UInt8} (hm : mbr mmc = some (m, buf))

/-- The first pass over the filled entries is the search of the flagged slots. -/
theorem searchLoop_flagged (m : Mmc) (heap : Mem) (buf : List UInt8) :
    (searchLoop m heap buf (linuxParts buf) (linuxParts buf).length 0).1 =
        (tryAll (openSlot m buf) (linuxSlots buf true)).1 ∧
      slotsOf (linuxParts buf)
          (searchLoop m heap buf (linuxParts buf) (linuxParts buf).length 0).2 =
        (tryAll (openSlot m buf) (linuxSlots buf true)).2 ∧
      ∀ p ∈ (searchLoop m heap buf (linuxParts buf) (linuxParts buf).length 0).2,
        p.flag < (linuxParts buf).length := by
  have hflag : ((linuxParts buf).drop 0).filter (·.isBoot) =
      (linuxSlots buf true).map (partInfo buf) := filter_partInfo buf
  obtain ⟨hp1, hp2⟩ := tryAll_partInfo m buf (linuxSlots buf true)
  have hfirst := @searchLoop_firstPass m heap buf (linuxParts buf)
    (linuxParts buf).length 0 (Nat.zero_add _)
  rwa [hflag, hp1, hp2] at hfirst

include hm

theorem openSpec_of_mbr : openSpec mmc = tryAll (openSlot m buf) (candidates buf) := by
  rw [openSpec, hm]

theorem opensRight_of_nil (hc : candidates buf = []) (heap : Mem) : OpensRight mmc heap := by
  have hopen := bootfsOpen_of_mbr hm
  have hspec := openSpec_of_mbr hm
  have hp : linuxParts buf = [] := linuxParts_eq_nil.2 hc
  refine ⟨?_, ?_, ?_, ?_⟩
  · rw [hopen, hspec, hc, hp]; rfl
  · rw [hopen, hspec, hc, hp]; rfl
  · rw [hopen, hp]; intro p hp; cases hp
  · intro heap'; rw [hopen, hopen, hp]; rfl

/-- A flagged partition that opens ends the search in its first pass. -/
theorem opensRight_of_flagged {s : Nat} (hs : s ∈ linuxSlots buf true)
    (hso : (openSlot m buf s).isSome) (heap : Mem) : OpensRight mmc heap := by
  have hopen := bootfsOpen_of_mbr hm
  have hspec := openSpec_of_mbr hm
  obtain ⟨fs, hfs⟩ : ∃ fs, (tryAll (openSlot m buf) (linuxSlots buf true)).1 = some fs := by
    rw [← Option.isSome_iff_exists, tryAll_fst, List.findSome?_isSome_iff]
    exact ⟨s, hs, hso⟩
  have hloop : ∀ heap : Mem,
      searchLoop m heap buf (linuxParts buf) ((linuxParts buf).length * 2) 0 =
        (some fs, (searchLoop m heap buf (linuxParts buf) (linuxParts buf).length 0).2) := by
    intro heap
    rw [Nat.mul_two, searchLoop_add, (searchLoop_flagged m heap buf).1, hfs]
  have hcand : tryAll (openSlot m buf) (candidates buf) =
      tryAll (openSlot m buf) (linuxSlots buf true) := tryAll_append_some hfs
  refine ⟨?_, ?_, ?_, ?_⟩
  · rw [hopen, hspec, hcand, hfs, hloop]
  · rw [hopen, hspec, hcand, hloop]
    exact (searchLoop_flagged m heap buf).2.1
  · rw [hopen, hloop]
    exact (searchLoop_flagged m heap buf).2.2
  · intro heap'
    rw [hopen, hopen, hloop, hloop]

/-- The file system of the first flagged partition, when it has one. -/
theorem bootfsOpen_of_flagged {s : Nat} {ss : List Nat} {fs : Bootfs}
    (hs : linuxSlots buf true = s :: ss) (ho : openSlot m buf s = some fs) (heap : Mem) :
    (bootfsOpen mmc heap).fs = some fs := by
  have hright := opensRight_of_flagged hm (hs ▸ List.mem_cons_self) (Option.isSome_of_eq_some ho) heap
  rw [hright.fs, openSpec_of_mbr hm, candidates, hs, List.cons_append, tryAll_cons_some ho]

/-- The first round of a second pass reads past the filled entries. -/
theorem not_opensRight_of_second (hc : candidates buf ≠ [])
    (hnone : ∀ s ∈ linuxSlots buf true, openSlot m buf s = none) (heap : Mem) :
    ¬ OpensRight mmc heap := by
  intro h
  obtain ⟨n, hn⟩ : ∃ n, (linuxParts buf).length = n + 1 :=
    Nat.exists_eq_succ_of_ne_zero fun h0 => hc (linuxParts_eq_nil.1 (List.length_eq_zero_iff.1 h0))
  have hb := h.bounds
  rw [bootfsOpen_of_mbr hm] at hb
  have h1 : (searchLoop m heap buf (linuxParts buf) (linuxParts buf).length 0).1 = none := by
    rw [(searchLoop_flagged m heap buf).1]
    exact tryAll_fst_eq_none.2 hnone
  obtain ⟨p, hp, hpf⟩ := @exists_probe m heap buf (linuxParts buf) n (linuxParts buf).length
  have hlt := hb p (by
    dsimp only
    rw [Nat.mul_two, searchLoop_add, h1, Nat.zero_add]
    refine List.mem_append_right _ ?_
    rw [← hn] at hp
    exact hp)
  rw [hpf] at hlt
  exact Nat.lt_irrefl _ hlt

end

/-- **The search is right exactly when it ends in its first pass**: the second pass reads
`parts[i].is_boot` past the entries that were filled. -/
theorem bootfsOpen_right_iff (mmc : Option Mmc) (heap : Mem) :
    OpensRight mmc heap ↔ FirstPassSuffices mmc := by
  rcases hm : mbr mmc with _ | ⟨m, buf⟩
  · refine ⟨fun _ m buf h => ?_, fun _ => opensRight_of_mbr_none hm heap⟩
    rw [hm] at h
    cases h
  constructor
  · rintro h m' buf' hm'
    rw [hm] at hm'
    cases hm'
    by_contra! hno
    refine not_opensRight_of_second hm hno.1 (fun s hs => ?_) heap h
    rw [← Option.not_isSome_iff_eq_none]
    exact hno.2 s hs
  · intro h
    rcases h m buf hm with hc | ⟨s, hs, hso⟩
    · exact opensRight_of_nil hm hc heap
    · exact opensRight_of_flagged hm hs hso heap

/-- A card with one partition, of type 0x83 and not flagged, that holds a boot file system. -/
def flaglessCard : Mmc where
  data i :=
    if i = 0x1be + 4 then 0x83
    else if i = 0x1be + 8 then 1
    else if i = 0x1fe then 0x55
    else if i = 0x1ff then 0xaa
    else if 512 ≤ i then (sbMagic[i - 512]?).getD 0
    else 0
  readable _ _ := true

/-- With ones in the memory behind `parts[0]`, the file system on the card is not found. -/
theorem bootfsOpen_flagless :
    ¬ OpensRight (some flaglessCard) (fun _ => 1) ∧
      (bootfsOpen (some flaglessCard) fun _ => 1).fs.isNone = true ∧
      (openSpec (some flaglessCard)).1.isSome = true ∧
      (openSpec (some flaglessCard)).2 = [0] := by
  have hnone : (bootfsOpen (some flaglessCard) fun _ => 1).fs.isNone = true := by decide +kernel
  have hsome : (openSpec (some flaglessCard)).1.isSome = true := by decide +kernel
  refine ⟨fun h => ?_, hnone, hsome, by decide +kernel⟩
  rw [h.fs, Option.isNone_iff_eq_none] at hnone
  rw [hnone] at hsome
  cases hsome

end PBoot
