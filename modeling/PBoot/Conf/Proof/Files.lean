import PBoot.Conf.Proof.Image

/-!
# The file table

* `entries_metaBlocks`: the loop over the blocks writes as many of the files, in their order, as 51
  for every slot without a configuration.
* `fileNodes_written`: what the boot loader sees in the file blocks is these entries.
* `filesKept_iff`: so every regular file of `files/` is in the file table, once, exactly when they
  are no more than that. Nothing checks it.
-/

namespace PBoot

open Bytes Runs

/-! ## Which files are written -/

/-- The entries of a block's file list. -/
def MetaBlock.entries : MetaBlock → List BootfsFile
  | .files entries => entries
  | _ => []

/-- The number of slots, of some, without a configuration. -/
def Table.unused (t : Table) (is : List Nat) : Nat := is.countP fun i => (t.confs i).isNone

theorem drop_split {α : Type*} (l : List α) (n k : Nat) :
    (l.drop n).take (min (l.length - n) 51) ++
        (l.drop (n + min (l.length - n) 51)).take (51 * k) = (l.drop n).take (51 * (k + 1)) := by
  by_cases h : 51 ≤ l.length - n
  · rw [Nat.min_eq_right h, ← List.drop_drop, ← List.take_add, Nat.mul_succ, Nat.add_comm 51]
  · have hrest : l.drop (n + (l.length - n)) = [] := List.drop_eq_nil_of_le (by omega)
    have hall : ∀ m, l.length - n ≤ m → (l.drop n).take m = l.drop n := fun m hm =>
      List.take_of_length_le (by rwa [List.length_drop])
    rw [Nat.min_eq_left (by omega), hrest, List.take_nil, List.append_nil,
      hall _ (Nat.le_refl _), hall _ (by omega)]

/-- The loop over the blocks of some slots: its invariant is that the files from `written` on are
still to be written. -/
theorem entries_metaBlocks (t : Table) (exts : List Extent) : ∀ (is : List Nat) (written : Nat),
    (metaBlocks t exts written is).flatMap MetaBlock.entries =
      ((t.files.drop written).take (51 * t.unused is)).map (bootfsFile exts)
  | [], written => by simp [metaBlocks, Table.unused]
  | i :: is, written => by
    unfold metaBlocks Table.unused
    rw [List.countP_cons]
    cases hc : t.confs i with
    | some c => exact entries_metaBlocks t exts is written
    | none =>
      dsimp only [Option.isNone_none]
      rw [if_pos rfl]
      split
      · rw [List.flatMap_cons, entries_metaBlocks t exts is, MetaBlock.entries, ← List.map_append]
        exact congrArg _ (drop_split t.files written _)
      · rename_i hall
        have hnil : t.files.drop written = [] := List.drop_eq_nil_of_le (by omega)
        rw [List.flatMap_cons, entries_metaBlocks t exts is, hnil]
        simp [MetaBlock.entries]

/-! ## What is read -/

theorem extentOf_lt (exts : List Extent) (path : List UInt8) :
    (extentOf exts path).1 < 2 ^ 32 ∧ (extentOf exts path).2 < 2 ^ 32 := by
  unfold extentOf
  split
  · exact ⟨Nat.mod_lt _ (by decide), Nat.mod_lt _ (by decide)⟩
  · exact ⟨by decide, by decide⟩

theorem fits_bootfsFile {t : Table} {exts : List Extent} (ht : TableOk t) {f : ConfFile}
    (hf : f ∈ t.files) : (bootfsFile exts f).Fits := by
  obtain ⟨hne, h0, hlen, -⟩ := ht.files f hf
  obtain ⟨hoff, hsize⟩ := extentOf_lt exts f.data
  exact ⟨hne, h0, hlen, hoff, hsize⟩

/-- A function of the slots that agrees with one of the blocks. -/
theorem flatMap_range_eq {α β : Type*} {f : Nat → List β} {g : α → List β} {l : List α}
    (h : ∀ i b, l[i]? = some b → f i = g b) : (List.range l.length).flatMap f = l.flatMap g := by
  rw [List.flatMap_def, List.flatMap_def]
  refine congrArg List.flatten (List.ext_getElem (by simp) fun i h1 h2 => ?_)
  rw [List.getElem_map, List.getElem_map, List.getElem_range]
  exact h i _ (List.getElem?_eq_getElem _)

section
variable {host : Host} {out : BlkDev} (r : ConfRun host out) {fs : Bootfs}

/-- The files that have an entry. -/
def ConfRun.kept : List ConfFile := r.table.files.take (51 * r.table.unused (List.range 32))

/-- **The entries in the file blocks** are those of the files that fit. -/
theorem fileNodes_written (h : Shows fs out.data r.blocks) :
    fs.fileNodes.map BootfsFile.named = r.kept.map (bootfsFile r.exts) := by
  have ht := (tableOk_readConf r.read).1
  have hlen : r.blocks.length = 32 := by
    rw [ConfRun.blocks, length_metaBlocks, List.length_range]
  have hentries : r.blocks.flatMap MetaBlock.entries = r.kept.map (bootfsFile r.exts) := by
    rw [ConfRun.blocks, entries_metaBlocks, List.drop_zero, ConfRun.kept]
  rw [Bootfs.fileNodes, List.map_flatMap, ← hentries, ← hlen]
  refine flatMap_range_eq fun i b hb => ?_
  have hmem := List.mem_of_getElem? hb
  rw [h.isFiles hb]
  cases b with
  | conf images bootArgs name => rfl
  | zero => rfl
  | files entries =>
    obtain ⟨rest, hr⟩ := h.block i _ hb
    rw [MetaBlock.isFiles, if_pos rfl, hr]
    refine fileEntries_filesBlock (sized_metaBlocks ht _ _ _ hmem) (fun e he => ?_) rest
    have hin : e ∈ r.kept.map (bootfsFile r.exts) :=
      hentries ▸ List.mem_flatMap.2 ⟨_, hmem, he⟩
    obtain ⟨f, hf, rfl⟩ := List.mem_map.1 hin
    exact fits_bootfsFile ht (List.mem_of_mem_take hf)

/-- The names in the file blocks. -/
theorem names_written (h : Shows fs out.data r.blocks) :
    fs.fileNodes.map (fun e => cstr e.name) =
      (r.table.files.map (·.name)).take (51 * r.table.unused (List.range 32)) := by
  have hnames := congrArg (List.map (·.name)) (fileNodes_written r h)
  rw [List.map_map, List.map_map] at hnames
  rw [← List.map_take]
  exact hnames

/-- A file that has an entry is found, with its source's extent. -/
theorem find_written (h : Shows fs out.data r.blocks) {f : ConfFile} (hf : f ∈ r.kept) :
    ∃ e, bootfsFindFile fs f.name = some e ∧ e.named = bootfsFile r.exts f := by
  have hnodup := nodup_fileNames r.read
  have hmem : bootfsFile r.exts f ∈ fs.fileNodes.map BootfsFile.named := by
    rw [fileNodes_written r h]
    exact List.mem_map.2 ⟨f, hf, rfl⟩
  obtain ⟨e₀, he₀, hn₀⟩ := List.mem_map.1 hmem
  have hname₀ : cstr e₀.name = f.name := congrArg (·.name) hn₀
  rw [bootfsFindFile_eq]
  cases hfind : fs.fileNodes.find? fun e => cstr e.name == f.name with
  | none => exact absurd (beq_iff_eq.2 hname₀) (List.find?_eq_none.1 hfind e₀ he₀)
  | some e =>
    refine ⟨e, rfl, ?_⟩
    have hname : cstr e.name = f.name :=
      beq_iff_eq.1 (List.find?_some (p := fun e : BootfsFile => cstr e.name == f.name) hfind)
    have hin : e.named ∈ r.kept.map (bootfsFile r.exts) := by
      rw [← fileNodes_written r h]
      exact List.mem_map.2 ⟨e, List.mem_of_find?_eq_some hfind, rfl⟩
    obtain ⟨f', hf', he⟩ := List.mem_map.1 hin
    have hsame : f'.name = f.name := (congrArg (·.name) he).trans hname
    rw [← he, List.inj_on_of_nodup_map hnodup (List.mem_of_mem_take hf') (List.mem_of_mem_take hf)
      hsame]

/-- A name that is found is one of those that were written. -/
theorem kept_of_find (h : Shows fs out.data r.blocks) {f : ConfFile} (hf : f ∈ r.table.files)
    {n : BootfsFile} (hn : bootfsFindFile fs f.name = some n) : f ∈ r.kept := by
  rw [bootfsFindFile_eq] at hn
  have hname : cstr n.name = f.name :=
    beq_iff_eq.1 (List.find?_some (p := fun e : BootfsFile => cstr e.name == f.name) hn)
  have hmem : cstr n.name ∈ fs.fileNodes.map fun e => cstr e.name :=
    List.mem_map_of_mem (f := fun e : BootfsFile => cstr e.name) (List.mem_of_find?_eq_some hn)
  rw [names_written r h, ← List.map_take, hname] at hmem
  obtain ⟨f', hf', hsame⟩ := List.mem_map.1 hmem
  rwa [List.inj_on_of_nodup_map (nodup_fileNames r.read) (List.mem_of_mem_take hf') hf hsame] at hf'

end

/-! ## When no file is left out -/

/-- Every regular file of `files/` has exactly one entry in the file blocks of the image, wherever
it is placed, and is found there. -/
def FilesKept (host : Host) (image : Mem) : Prop :=
  ∀ before sector, ∃ fs, openImage before sector image = some fs ∧
    ∀ dir, host.files = some dir → ∀ name ∈ regularNames dir.entries,
      fs.fileNodes.countP (fun e => cstr e.name == name) = 1 ∧
        ∃ e, bootfsFindFile fs name = some e ∧ cstr e.name = name

/-- The regular files are at most 51 for every slot that `boot.conf` leaves free. -/
def FilesFit (host : Host) : Prop :=
  ∀ t dir, parseConf host = .ok t → host.files = some dir →
    (regularNames dir.entries).length ≤ 51 * t.unused (List.range 32)

theorem count_take_iff {α : Type*} [BEq α] [LawfulBEq α] {l : List α} (h : l.Nodup) {n : Nat} :
    (∀ a ∈ l, (l.take n).count a = 1) ↔ l.length ≤ n := by
  refine ⟨fun hall => ?_, fun hle a ha => ?_⟩
  · by_contra hlt
    have hlt' : n < l.length := Nat.lt_of_not_le hlt
    have hcount := hall l[n] (List.getElem_mem hlt')
    have hmem : l[n] ∈ l.take n := List.count_pos_iff.1 (by omega)
    obtain ⟨j, hj, heq⟩ := List.mem_iff_getElem.1 hmem
    rw [List.length_take] at hj
    rw [List.getElem_take] at heq
    have := (List.Nodup.getElem_inj_iff h).1 heq
    omega
  · rw [List.take_of_length_le hle]
    exact List.count_eq_one_of_mem h ha

section
variable {host : Host} {out : BlkDev} {dir : Dir}

/-- In the boot file system of a run, the entries of a name are counted. -/
theorem count_written (r : ConfRun host out) {fs : Bootfs} (h : Shows fs out.data r.blocks)
    (hd : host.files = some dir) (name : List UInt8) :
    fs.fileNodes.countP (fun e => cstr e.name == name) =
      ((regularNames dir.entries).take (51 * r.table.unused (List.range 32))).count name := by
  obtain ⟨-, dir', hdir, hfiles⟩ := tableOk_readConf r.read
  rw [hd] at hdir
  cases hdir
  rw [← hfiles.names, ← names_written r h, List.count, List.countP_map]
  rfl

theorem filesKept_run_iff (r : ConfRun host out) (hd : host.files = some dir) :
    FilesKept host out.data ↔
      (regularNames dir.entries).length ≤ 51 * r.table.unused (List.range 32) := by
  obtain ⟨-, dir', hdir, hfiles⟩ := tableOk_readConf r.read
  rw [hd] at hdir
  cases hdir
  have hnodup : (regularNames dir.entries).Nodup := hfiles.names ▸ nodup_fileNames r.read
  refine ⟨fun hk => ?_, fun hle before sector => ?_⟩
  · refine (count_take_iff hnodup).1 fun name hname => ?_
    obtain ⟨fs, hfs, hall⟩ := hk (fun _ => 0) 0
    obtain ⟨fs', hfs', hs⟩ := openImage_written r (fun _ => 0) 0
    rw [hfs] at hfs'
    cases hfs'
    rw [← count_written r hs hd]
    exact (hall dir hd name hname).1
  · obtain ⟨fs, hfs, hs⟩ := openImage_written r before sector
    refine ⟨fs, hfs, fun dir' hd' name hname => ?_⟩
    rw [hd] at hd'
    cases hd'
    refine ⟨by rw [count_written r hs hd]; exact (count_take_iff hnodup).2 hle name hname, ?_⟩
    have hmem : name ∈ r.table.files.map (·.name) := hfiles.names ▸ hname
    obtain ⟨f, hf, rfl⟩ := List.mem_map.1 hmem
    have hall : r.kept = r.table.files := by
      refine List.take_of_length_le ?_
      rw [← hfiles.names, List.length_map] at hle
      exact hle
    obtain ⟨e, he, hn⟩ := find_written r hs (hall ▸ hf)
    exact ⟨e, he, congrArg (·.name) hn⟩

/-- **No file is left out** of the image of a run that goes well exactly when the files fit. -/
theorem filesKept_iff {dev : Option BlkDev} (h : pBootConf host dev = .ok out) :
    FilesKept host out.data ↔ FilesFit host := by
  obtain ⟨r⟩ := pBootConf_ok h
  obtain ⟨-, dir, hd, -⟩ := tableOk_readConf r.read
  obtain ⟨t₀, ht₀, hconfs⟩ := confs_readConf r.read
  rw [filesKept_run_iff r hd]
  have hunused : r.table.unused (List.range 32) = t₀.unused (List.range 32) := by
    unfold Table.unused
    rw [hconfs]
  rw [hunused]
  refine ⟨fun hle t dir' ht hd' => ?_, fun hf => hf t₀ dir ht₀ hd⟩
  rw [ht₀] at ht
  rw [hd] at hd'
  cases ht
  cases hd'
  exact hle

end

/-! ## One file and no slot for it -/

/-- A configuration for slot `i` in `boot.conf`. -/
def slotText (i : Nat) : List UInt8 :=
  ascii "no=" ++ [48 + UInt8.ofNat (i / 10), 48 + UInt8.ofNat (i % 10), Text.newline] ++
    ascii "name=x\nlinux=/i\natf=/i\ndtb=/i\n"

/-- A directory with a `boot.conf` and a file `a`, in which all sources have the same contents. -/
def smallHost (text : List UInt8) : Host where
  pathMax := 4096
  confDir := ascii "c"
  bootConf := some text
  files := some ⟨[⟨ascii "a", some true, by decide, by decide⟩], true, by decide⟩
  realpath := some
  canOpen _ := true
  contents _ := some [1, 2, 3]

/-- Configurations for the first slots. -/
def slotsText (slots : Nat) : List UInt8 := (List.range slots).flatMap slotText

def slotsHost (slots : Nat) : Host := smallHost (slotsText slots)

/-- The sources, placed. -/
def smallExts : List Extent :=
  [⟨ascii "/i", metaSize, [1, 2, 3]⟩, ⟨ascii "c/files/a", metaSize + 512, [1, 2, 3]⟩]

def blankDev : BlkDev := { data := fun _ => 0, size := 2 ^ 20 }

/-- The tool goes well on a text whose configurations have the image `/i`. -/
theorem pBootConf_smallHost {text : List UInt8} {p : Table → Bool}
    (h : (readConf (smallHost text)).toOption.any (fun t =>
      t.data == smallExts.map (·.path) && p t) = true) :
    ∃ out t, pBootConf (smallHost text) (some blankDev) = .ok out ∧
      readConf (smallHost text) = .ok t ∧
      placeData (smallHost text) metaSize t.data = .ok smallExts ∧ p t = true := by
  obtain ⟨t, ht, hp⟩ := ok_of_any h
  obtain ⟨hdata, hp⟩ := Bool.and_eq_true_iff.1 hp
  have he : placeData (smallHost text) metaSize t.data = .ok smallExts := by
    rw [beq_iff_eq.1 hdata]
    rfl
  obtain ⟨out, hout⟩ := pBootConf_of_room ht he (show metaSize ≤ blankDev.size by decide)
    (show ∀ e ∈ smallExts, e.pos + e.bytes.length ≤ blankDev.size by decide)
  exact ⟨out, t, hout, ht, he, hp⟩

/-- With one configuration the file is kept. -/
theorem filesKept_one : ∃ out, pBootConf (slotsHost 1) (some blankDev) = .ok out ∧
    FilesKept (slotsHost 1) out.data := by
  obtain ⟨out, t, hout, ht, -, hn⟩ := @pBootConf_smallHost (slotsText 1)
    (fun t => t.unused (List.range 32) == 31) (by decide +kernel)
  refine ⟨out, hout, (filesKept_iff hout).2 fun t' dir ht' hd => ?_⟩
  obtain ⟨t₀, ht₀, hconfs⟩ := confs_readConf ht
  rw [ht'] at ht₀
  cases ht₀
  cases hd
  have hn' : t.unused (List.range 32) = 31 := beq_iff_eq.1 hn
  unfold Table.unused at hn' ⊢
  rw [← hconfs, hn']
  decide

/-- With all slots taken it is left out, and the tool goes well. -/
theorem filesKept_full : ∃ out, pBootConf (slotsHost 32) (some blankDev) = .ok out ∧
    ¬ FilesKept (slotsHost 32) out.data := by
  obtain ⟨out, t, hout, ht, he, hn⟩ := @pBootConf_smallHost (slotsText 32)
    (fun t => t.unused (List.range 32) == 0) (by decide +kernel)
  obtain ⟨r⟩ := pBootConf_ok hout
  refine ⟨out, hout, fun hk => ?_⟩
  have hle := (filesKept_run_iff r rfl).1 hk
  rw [(r.unique ht he).1, beq_iff_eq.1 hn] at hle
  exact absurd hle (by decide)

end PBoot
