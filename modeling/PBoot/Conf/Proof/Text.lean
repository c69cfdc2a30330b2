import PBoot.Conf.Proof.Files

/-!
# Names and kernel arguments on their way to the boot loader

* `configIn`: what some lines say about a slot, the purpose of `boot.conf`. Whole lines and values
  of any length count.
* `follows_parseLine`: `parse_conf` follows it on the pieces that `fgets` delivers, with the values
  cut to the fields of `struct bconf`.
* `loaderTexts_written`: the boot loader gets these, cut to the fields on disk.
* `readWhole_of_fits`: a line that fits the line buffer is read whole.
* `textsKept_iff`: with lines that are read whole, nothing is cut exactly when the values fit the
  fields on disk.
-/

namespace PBoot

open Bytes Text Runs

/-! ## What a text says -/

/-- A configuration in a text. -/
structure Section where
  no : Int
  name : List UInt8
  bootargs : List UInt8

/-- A value is set; the newest section comes first. -/
def addSetting (ss : List Section) (s : List UInt8 × List UInt8) : List Section :=
  if s.1 = ascii "no" then ⟨atoi s.2, [], []⟩ :: ss
  else
    match ss with
    | [] => []
    | c :: older =>
      if s.1 = ascii "name" then { c with name := s.2 } :: older
      else if s.1 = ascii "bootargs" then { c with bootargs := s.2 } :: older
      else c :: older

/-- The sections that lines make. -/
def sectionsOf (ls : List (List UInt8)) : List Section :=
  (ls.filterMap setting).foldl addSetting []

/-- The name and the kernel arguments of the section for a slot. -/
def slotTexts (ss : List Section) (i : Nat) : Option (List UInt8 × List UInt8) :=
  (ss.find? fun s => s.no == (i : Int)).map fun s => (s.name, s.bootargs)

/-- What some lines say about slot `i`. -/
def configIn (ls : List (List UInt8)) (i : Nat) : Option (List UInt8 × List UInt8) :=
  slotTexts (sectionsOf ls) i

/-- The pieces of a text that `parse_conf` looks at, as C strings. -/
def pieces (text : List UInt8) : List (List UInt8) := (fgets (lineSize - 1) text).map cstr

/-- Both values cut to fields. -/
def cutTexts (n k : Nat) (c : List UInt8 × List UInt8) : List UInt8 × List UInt8 :=
  (snprintf n c.1, snprintf k c.2)

/-- The settings that say something about names and kernel arguments. -/
def isTextSetting (s : List UInt8 × List UInt8) : Bool :=
  s.1 == ascii "no" || s.1 == ascii "name" || s.1 == ascii "bootargs"

/-- The settings of `no`, `name` and `bootargs` in lines. -/
def textSettings (ls : List (List UInt8)) : List (List UInt8 × List UInt8) :=
  (ls.filterMap setting).filter isTextSetting

/-- The pieces of the line set `no`, `name` and `bootargs` as the line itself does. -/
def ReadWhole (line : List UInt8) : Prop := textSettings (pieces line) = textSettings [line]

instance (line : List UInt8) : Decidable (ReadWhole line) :=
  inferInstanceAs (Decidable (textSettings (pieces line) = textSettings [line]))

/-- A line that fits the buffer, without a NUL, is one piece. -/
theorem readWhole_of_fits {text line : List UInt8} (hline : line ∈ lines text)
    (hl : line.length < lineSize) (h0 : 0 ∉ line) : ReadWhole line := by
  have hone : lines line = [line] := lines_of_mem hline
  have hfgets : fgets (lineSize - 1) line = [line] := by
    rw [← hone]
    refine fgets_eq_lines fun l h => ?_
    rw [hone, List.mem_singleton] at h
    rw [h]
    exact Nat.le_sub_one_of_lt hl
  rw [ReadWhole, pieces, hfgets, List.map_singleton, cstr_of_not_mem h0]

theorem addSetting_of_not {s : List UInt8 × List UInt8} (h : isTextSetting s = false)
    (ss : List Section) : addSetting ss s = ss := by
  simp only [isTextSetting, Bool.or_eq_false_iff, beq_eq_false_iff_ne] at h
  unfold addSetting
  rw [if_neg h.1.1]
  cases ss with
  | nil => rfl
  | cons c older => exact (if_neg h.1.2).trans (if_neg h.2)

theorem sectionsOf_eq (ls : List (List UInt8)) :
    sectionsOf ls = (textSettings ls).foldl addSetting [] := by
  have hfilter : ∀ (sets : List (List UInt8 × List UInt8)) (ss : List Section),
      (sets.filter isTextSetting).foldl addSetting ss = sets.foldl addSetting ss := by
    intro sets
    induction sets with
    | nil => exact fun _ => rfl
    | cons s sets ih =>
      intro ss
      rw [List.filter_cons]
      split
      · exact ih _
      · rename_i hs
        rw [ih, List.foldl_cons, addSetting_of_not (Bool.not_eq_true _ ▸ hs)]
  exact (hfilter _ _).symm

theorem textSettings_flatMap (f : List UInt8 → List (List UInt8)) (ls : List (List UInt8)) :
    textSettings (ls.flatMap f) = ls.flatMap fun l => textSettings (f l) := by
  unfold textSettings
  rw [List.filterMap_flatMap, List.filter_flatMap]

/-- **With lines that are read whole** the pieces say what the lines say. -/
theorem configIn_pieces {text : List UInt8} (h : ∀ l ∈ lines text, ReadWhole l) (i : Nat) :
    configIn (pieces text) i = configIn (lines text) i := by
  have hpieces : pieces text = (lines text).flatMap pieces := by
    unfold pieces
    rw [fgets_flatMap_lines, List.map_flatMap]
  have hsettings : textSettings (pieces text) = textSettings (lines text) := by
    rw [hpieces, textSettings_flatMap]
    calc (lines text).flatMap (fun l => textSettings (pieces l))
        = (lines text).flatMap fun l => textSettings [l] := List.flatMap_congr h
      _ = textSettings ((lines text).flatMap fun l => [l]) := (textSettings_flatMap _ _).symm
      _ = textSettings (lines text) := by rw [List.flatMap_singleton']
  rw [configIn, configIn, sectionsOf_eq, sectionsOf_eq, hsettings]

/-! ## `parse_conf` follows -/

/-- The configuration is what the section says, cut. -/
structure Section.Cut (s : Section) (c : BConf) : Prop where
  no : s.no = c.index
  name : c.name = snprintf 1024 s.name
  bootargs : c.bootargs = snprintf 4096 s.bootargs

/-- The slots hold what the sections say, cut. -/
def SlotsFollow (ss : List Section) (confs : Nat → Option BConf) : Prop :=
  ∀ i, (confs i).map (fun c => (c.name, c.bootargs)) = (slotTexts ss i).map (cutTexts 1024 4096)

/-- The newest section is the configuration that was started, the older ones are in their slots. -/
def Follows (ss : List Section) (st : ParseState) : Prop :=
  match st.conf with
  | none => ss = [] ∧ SlotsFollow [] st.confs
  | some c => ∃ s older, ss = s :: older ∧ s.Cut c ∧ SlotsFollow older st.confs

section
variable {host : Host} {ss : List Section} {st st' : ParseState} {c : BConf}
  {name val : List UInt8}

theorem slotsFollow_complete {confs : Nat → Option BConf} (hf : Follows ss st)
    (h : st.complete = .ok confs) : SlotsFollow ss confs := by
  unfold ParseState.complete at h
  unfold Follows at hf
  cases hc : st.conf with
  | none =>
    rw [hc] at h hf
    cases h
    rw [hf.1]
    exact hf.2
  | some c =>
    rw [hc] at h hf
    obtain ⟨s, older, rfl, hcut, hslots⟩ := hf
    obtain ⟨-, -, -, rfl⟩ := completeConf_ok h
    intro i
    unfold slotTexts
    rw [Function.update_apply, List.find?_cons]
    by_cases hi : i = c.index
    · have hno : (s.no == (i : Int)) = true := by rw [hcut.no, hi]; exact beq_self_eq_true _
      rw [if_pos hi, hno, Option.map_some, hcut.name, hcut.bootargs]
      rfl
    · have hno : (s.no == (i : Int)) = false := by
        rw [hcut.no]
        exact beq_false_of_ne fun h => hi (by omega)
      rw [if_neg hi, hno]
      exact hslots i

theorem cut_setText {s : Section} {older : List Section} (hcut : s.Cut c)
    (hno : name ≠ ascii "no") :
    ∃ s', addSetting (s :: older) (name, val) = s' :: older ∧ s'.Cut (setText c name val) := by
  unfold addSetting setText
  dsimp only
  rw [if_neg hno]
  by_cases hname : name = ascii "name"
  · rw [if_pos hname, if_pos hname]
    exact ⟨_, rfl, hcut.no, rfl, hcut.bootargs⟩
  · rw [if_neg hname, if_neg hname]
    by_cases hargs : name = ascii "bootargs"
    · rw [if_pos hargs, if_pos hargs]
      exact ⟨_, rfl, hcut.no, hcut.name, rfl⟩
    · rw [if_neg hargs, if_neg hargs]
      exact ⟨s, rfl, hcut⟩

theorem follows_setting (hf : Follows ss st) (h : applySetting host st name val = .ok st') :
    Follows (addSetting ss (name, val)) st' := by
  rcases applySetting_cases h with ⟨hd, h⟩ | ⟨hno, h⟩ | ⟨⟨-, hno⟩, c, hc, h⟩
  · obtain ⟨-, rfl, -⟩ := setDeviceId_ok h
    have hsame : addSetting ss (name, val) = ss := by
      subst hd
      cases ss with
      | nil => rfl
      | cons s older => rfl
    rw [hsame]
    exact hf
  · obtain ⟨confs, hc, h0, -, rfl⟩ := setNo_ok h
    have hadd : addSetting ss (name, val) = ⟨atoi val, [], []⟩ :: ss := if_pos hno
    exact ⟨_, _, hadd, ⟨(Int.toNat_of_nonneg h0).symm, rfl, rfl⟩, slotsFollow_complete hf hc⟩
  · unfold Follows at hf
    rw [hc] at hf
    obtain ⟨s, older, rfl, hcut, hslots⟩ := hf
    obtain ⟨s', hadd, hcut'⟩ := @cut_setText c name val s older hcut hno
    rw [hadd]
    rcases h with rfl | ⟨ty, -, h⟩
    · exact ⟨s', older, rfl, hcut', hslots⟩
    · -- an image leaves the texts alone
      obtain ⟨r, data, -, -, rfl⟩ := setImage_ok h
      exact ⟨s', older, rfl, ⟨hcut'.no, hcut'.name, hcut'.bootargs⟩, hslots⟩

theorem follows_parseLine {pre : List (List UInt8)} {line : List UInt8}
    (hf : Follows (sectionsOf (pre.map cstr)) st) (h : parseLine host st line = .ok st') :
    Follows (sectionsOf ((pre ++ [line]).map cstr)) st' := by
  have hsec : sectionsOf ((pre ++ [line]).map cstr) =
      ([cstr line].filterMap setting).foldl addSetting (sectionsOf (pre.map cstr)) := by
    rw [sectionsOf, List.map_append, List.filterMap_append, List.foldl_append]
    rfl
  rw [hsec]
  unfold parseLine at h
  dsimp only at h
  cases hset : setting (cstr line) with
  | none =>
    rw [hset] at h
    cases h
    rw [List.filterMap_cons_none hset]
    exact hf
  | some s =>
    rw [hset] at h
    rw [List.filterMap_cons_some hset]
    have hf' : Follows (sectionsOf (pre.map cstr)) { st with lineNo := st.lineNo + 1 } := hf
    exact follows_setting hf' h

/-- **The slots after `parse_conf`** hold what the pieces say, cut. -/
theorem slotsFollow_parseConf {t : Table} {text : List UInt8} (ht : host.bootConf = some text)
    (h : parseConf host = .ok t) : SlotsFollow (sectionsOf (pieces text)) t.confs := by
  unfold parseConf at h
  rw [ht] at h
  obtain ⟨st, hst, h⟩ := bind_ok.1 h
  obtain ⟨confs, hc, h⟩ := bind_ok.1 h
  cases h
  have hinit : Follows (sectionsOf (List.map cstr [])) .init := ⟨rfl, fun _ => rfl⟩
  have hf : Follows (sectionsOf (pieces text)) st :=
    foldlM_ok (I := fun pre st => Follows (sectionsOf (pre.map cstr)) st)
      (fun _ _ _ _ hf hl => follows_parseLine hf hl) hinit hst
  exact slotsFollow_complete hf hc

end

/-! ## What the boot loader gets -/

/-- The name and the kernel arguments that the boot loader gets from slot `i`; `boot_prepare`
copies the latter with `strlen` and `memcpy`. -/
def loaderTexts (fs : Bootfs) (i : Nat) : Option (List UInt8 × List UInt8) :=
  if fs.isConf i then
    some (cstr (nameField (fs.blockFrom i)), cstr (bootArgsField (fs.blockFrom i)))
  else none

theorem cutTexts_cutTexts (n k n' k' : Nat) (c : List UInt8 × List UInt8) :
    cutTexts n k (cutTexts n' k' c) = cutTexts (min n n') (min k k') c := by
  unfold cutTexts
  rw [snprintf_snprintf, snprintf_snprintf]

section
variable {host : Host} {out : BlkDev} {text : List UInt8}

/-- **The boot loader gets what the pieces say**, cut to the fields on disk. -/
theorem loaderTexts_written (r : ConfRun host out) {fs : Bootfs} (hs : Shows fs out.data r.blocks)
    (ht : host.bootConf = some text) {i : Nat} (hi : i < 32) :
    loaderTexts fs i = (configIn (pieces text) i).map (cutTexts nameSize bootArgsSize) := by
  obtain ⟨t₀, ht₀, hconfs⟩ := confs_readConf r.read
  have hslot := slotsFollow_parseConf ht ht₀ i
  rw [← hconfs] at hslot
  unfold loaderTexts
  rw [hs.isConf_iff hi]
  cases hc : r.table.confs i with
  | none =>
    rw [hc] at hslot
    have hnone : configIn (pieces text) i = none := Option.map_eq_none_iff.1 hslot.symm
    rw [hnone]
    rfl
  | some c =>
    rw [hc] at hslot
    obtain ⟨v, hv, hcut⟩ : ∃ v, configIn (pieces text) i = some v ∧
        cutTexts 1024 4096 v = (c.name, c.bootargs) := Option.map_eq_some_iff.1 hslot.symm
    have hok := ((tableOk_readConf r.read).1.confs i c hc).toOk
    obtain ⟨hname, hargs⟩ := hs.texts (block_of_conf r hc)
      (by rw [List.length_map]; exact hok.length_images) hok.bootargs hok.name
    have hpair : cutTexts nameSize bootArgsSize (c.name, c.bootargs) =
        cutTexts nameSize bootArgsSize v := by
      rw [← hcut, cutTexts_cutTexts]
      rfl
    rw [Option.isSome_some, if_pos rfl, hname, hargs, hv, Option.map_some, ← hpair]
    rfl

/-! ## When nothing is cut -/

/-- For every slot, the boot loader gets the name and the kernel arguments that `boot.conf` says,
wherever the image is placed. -/
def TextsKept (host : Host) (image : Mem) : Prop :=
  ∀ before sector, ∃ fs, openImage before sector image = some fs ∧
    ∀ text, host.bootConf = some text → ∀ i < 32, loaderTexts fs i = configIn (lines text) i

/-- The values fit the fields on disk. -/
def ValuesFit (text : List UInt8) : Prop :=
  ∀ i < 32, ∀ c, configIn (lines text) i = some c →
    c.1.length < nameSize ∧ c.2.length < bootArgsSize

theorem cutTexts_eq_self_iff (c : List UInt8 × List UInt8) :
    cutTexts nameSize bootArgsSize c = c ↔ c.1.length < nameSize ∧ c.2.length < bootArgsSize := by
  unfold cutTexts
  rw [Prod.ext_iff]
  dsimp only
  rw [snprintf_eq_self_iff, snprintf_eq_self_iff, Nat.le_sub_one_iff_lt (by decide),
    Nat.le_sub_one_iff_lt (by decide)]

theorem map_cut_eq_self_iff (x : Option (List UInt8 × List UInt8)) :
    x.map (cutTexts nameSize bootArgsSize) = x ↔
      ∀ c, x = some c → c.1.length < nameSize ∧ c.2.length < bootArgsSize := by
  cases x with
  | none => exact iff_of_true rfl fun _ h => nomatch h
  | some c =>
    rw [Option.map_some, Option.some.injEq, cutTexts_eq_self_iff]
    exact ⟨fun h c' hc => Option.some.inj hc ▸ h, fun h => h c rfl⟩

/-- What the boot loader gets is cut already, so what is kept fits. -/
theorem valuesFit_of_kept (r : ConfRun host out) (ht : host.bootConf = some text)
    (hk : TextsKept host out.data) : ValuesFit text := by
  obtain ⟨fs, hfs, hall⟩ := hk (fun _ => 0) 0
  obtain ⟨fs', hfs', hs⟩ := openImage_written r (fun _ => 0) 0
  rw [hfs] at hfs'
  cases hfs'
  intro i hi
  rw [← map_cut_eq_self_iff, ← hall text ht i hi, loaderTexts_written r hs ht hi, Option.map_map]
  refine congrArg ((configIn (pieces text) i).map ·) (funext fun v => ?_)
  rw [Function.comp_apply, cutTexts_cutTexts, Nat.min_self, Nat.min_self]

theorem kept_of_valuesFit (r : ConfRun host out) (ht : host.bootConf = some text)
    (hw : ∀ l ∈ lines text, ReadWhole l) (hf : ValuesFit text) : TextsKept host out.data := by
  intro before sector
  obtain ⟨fs, hfs, hs⟩ := openImage_written r before sector
  refine ⟨fs, hfs, fun text' ht' i hi => ?_⟩
  rw [ht] at ht'
  cases ht'
  rw [loaderTexts_written r hs ht hi, configIn_pieces hw, map_cut_eq_self_iff]
  exact hf i hi

/-- **Nothing is cut** on the way from `boot.conf` to the boot loader, in a run that goes well, only
when the values fit the fields on disk; with lines that are read whole, exactly then. -/
theorem textsKept_iff {dev : Option BlkDev} (h : pBootConf host dev = .ok out)
    (ht : host.bootConf = some text) :
    (TextsKept host out.data → ValuesFit text) ∧
      ((∀ l ∈ lines text, ReadWhole l) → (TextsKept host out.data ↔ ValuesFit text)) := by
  obtain ⟨r⟩ := pBootConf_ok h
  exact ⟨valuesFit_of_kept r ht, fun hw => ⟨valuesFit_of_kept r ht, kept_of_valuesFit r ht hw⟩⟩

end

/-- In the configuration of `slotText` nothing is cut. -/
theorem textsKept_one : ∃ out, pBootConf (slotsHost 1) (some blankDev) = .ok out ∧
    TextsKept (slotsHost 1) out.data := by
  obtain ⟨out, t, hout, -⟩ := @pBootConf_smallHost (slotsText 1) (fun _ => true) (by decide +kernel)
  have hfits : ∀ l ∈ lines (slotsText 1), l.length < lineSize ∧ 0 ∉ l := by decide +kernel
  have hwhole : ∀ l ∈ lines (slotsText 1), ReadWhole l :=
    fun l hl => readWhole_of_fits hl (hfits l hl).1 (hfits l hl).2
  refine ⟨out, hout, ((textsKept_iff hout rfl).2 hwhole).2 ?_⟩
  unfold ValuesFit
  decide +kernel

/-- A configuration with a name of 96 bytes. -/
def longNameText : List UInt8 :=
  ascii "no=0\nname=" ++ List.replicate 96 120 ++ ascii "\nlinux=/i\natf=/i\ndtb=/i\n"

/-- Its name is cut, and the tool goes well. -/
theorem textsKept_longName : ∃ out, pBootConf (smallHost longNameText) (some blankDev) = .ok out ∧
    ¬ TextsKept (smallHost longNameText) out.data := by
  obtain ⟨out, t, hout, -⟩ := @pBootConf_smallHost longNameText (fun _ => true) (by decide +kernel)
  obtain ⟨r⟩ := pBootConf_ok hout
  refine ⟨out, hout, fun hk => ?_⟩
  have hname : (configIn (lines longNameText) 0).map (fun c => c.1.length) = some 96 := by
    decide +kernel
  obtain ⟨c, hc, hlen⟩ := Option.map_eq_some_iff.1 hname
  have hlt := (valuesFit_of_kept r rfl hk 0 (by decide) c hc).1
  rw [hlen] at hlt
  exact absurd hlt (by decide)

end PBoot
