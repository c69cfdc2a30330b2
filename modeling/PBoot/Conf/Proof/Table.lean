import PBoot.Conf.Parse
import Mathlib.Data.List.Nodup
import Mathlib.Data.List.Perm.Subperm

/-!
# The table that is read is well formed

* `dataAddFile_ok`: the sources stay distinct.
* `parseInv_line`: the invariant of `parse_conf` (`ParseInv`), kept by every line.
* `tableOk_readConf`: whatever `boot.conf` and `files/` hold, a table that is built is well formed
  (`TableOk`): every slot holds a configuration of its number with a name and the required images,
  at most one of each type, every source that is referred to is in the list of distinct sources,
  and the files have the names of the directory.
-/

namespace PBoot

open Bytes Text Runs

/-! ## Invariants -/

/-- What holds of a configuration from its `no` line on. -/
structure BConf.Ok (data : List (List UInt8)) (c : BConf) : Prop where
  index : c.index < 32
  name : 0 ∉ c.name
  bootargs : 0 ∉ c.bootargs
  types : (c.images.map (·.type)).Nodup
  known : ∀ im ∈ c.images, ∃ ty ∈ imageTypes, ty.type = im.type
  sources : ∀ im ∈ c.images, im.data ∈ data

/-- A configuration in its slot. -/
structure SlotOk (data : List (List UInt8)) (i : Nat) (c : BConf) : Prop extends BConf.Ok data c where
  slot : c.index = i
  name_ne : c.name ≠ []
  required : ∀ ty ∈ imageTypes, ty.optional = false → c.hasImage ty.type = true

/-- Every configuration that was read so far, and the open one, is in order. -/
structure ParseInv (st : ParseState) : Prop where
  data : st.data.Nodup
  confs : ∀ i c, st.confs i = some c → SlotOk st.data i c
  conf : ∀ c, st.conf = some c → c.Ok st.data

/-- The table as the tool writes it. -/
structure TableOk (t : Table) : Prop where
  data : t.data.Nodup
  confs : ∀ i c, t.confs i = some c → SlotOk t.data i c
  files_le : t.files.length ≤ maxFiles
  files : ∀ f ∈ t.files, f.name ≠ [] ∧ 0 ∉ f.name ∧ f.name.length ≤ 31 ∧ f.data ∈ t.data

section
variable {data data' : List (List UInt8)} {c : BConf} {i : Nat}

theorem BConf.Ok.mono (h : c.Ok data) (hd : data ⊆ data') : c.Ok data' :=
  { h with sources := fun im him => hd (h.sources im him) }

theorem SlotOk.mono (h : SlotOk data i c) (hd : data ⊆ data') : SlotOk data' i c :=
  { h.toOk.mono hd, h with }

/-- A configuration has at most one image of each of the six types. -/
theorem BConf.Ok.length_images (h : c.Ok data) : c.images.length ≤ 8 := by
  have hsub : c.images.map (·.type) ⊆ imageTypes.map (·.type) := by
    intro ty hty
    obtain ⟨im, him, rfl⟩ := List.mem_map.1 hty
    obtain ⟨ty, hty, ht⟩ := h.known im him
    exact List.mem_map.2 ⟨ty, hty, ht⟩
  have hle := (List.subperm_of_subset h.types hsub).length_le
  rw [List.length_map, List.length_map] at hle
  exact Nat.le_trans hle (by decide)

end

/-! ## Sources and lines -/

theorem dataAddFile_ok {host : Host} {path r : List UInt8} {data data' : List (List UInt8)}
    (h : dataAddFile host path data = .ok (r, data')) :
    r ∈ data' ∧ data ⊆ data' ∧ (data.Nodup → data'.Nodup) := by
  unfold dataAddFile at h
  split at h
  · cases h
  · rename_i rpath _
    split at h
    · rename_i hmem
      cases h
      exact ⟨hmem, List.Subset.refl _, id⟩
    · rename_i hmem
      split at h
      · cases h
        refine ⟨by simp, List.subset_append_left _ _, fun hn => ?_⟩
        exact List.nodup_append.2 ⟨hn, List.nodup_singleton _, fun a ha b hb => by
          rw [List.mem_singleton.1 hb]
          exact fun hab => hmem (hab ▸ ha)⟩
      · cases h

theorem realpath_of_dataAddFile {host : Host} {path r : List UInt8} {data data' : List (List UInt8)}
    (h : dataAddFile host path data = .ok (r, data')) : host.realpath path = some r := by
  unfold dataAddFile at h
  split at h
  · cases h
  · rename_i rpath hpath
    split at h
    · cases h
      exact hpath
    · split at h
      · cases h
        exact hpath
      · cases h

theorem setting_subset {line name val : List UInt8} (h : setting line = some (name, val)) :
    val ⊆ line := by
  unfold setting at h
  dsimp only at h
  split at h
  · cases h
  · split at h
    · cases h
      intro b hb
      have h1 := (List.drop_suffix 1 _).subset ((List.dropWhile_suffix _).subset hb)
      have h2 := (List.dropWhile_suffix _).subset ((List.dropWhile_suffix _).subset h1)
      exact (List.rdropWhile_prefix _ _).subset h2
    · cases h

theorem setting_no_nul {line name val : List UInt8} (h : setting (cstr line) = some (name, val)) :
    0 ∉ val := fun h0 => not_mem_cstr line (setting_subset h h0)

/-! ## The steps -/

theorem completeConf_ok {confs confs' : Nat → Option BConf} {c : BConf}
    (h : completeConf confs c = .ok confs') :
    confs c.index = none ∧ c.name ≠ [] ∧
      (∀ ty ∈ imageTypes, ty.optional = false → c.hasImage ty.type = true) ∧
      confs' = Function.update confs c.index (some c) := by
  unfold completeConf at h
  split at h
  · cases h
  · rename_i hfree
    split at h
    · cases h
    · rename_i hname
      split at h
      · cases h
      · rename_i hfind
        cases h
        refine ⟨Option.not_isSome_iff_eq_none.1 hfree, hname, fun ty hty hopt => ?_, rfl⟩
        have := List.find?_eq_none.1 hfind ty hty
        simpa [hopt] using this

section
variable {host : Host} {st st' : ParseState} {c : BConf} {name val : List UInt8}

theorem parseInv_complete {confs : Nat → Option BConf} (hi : ParseInv st)
    (h : st.complete = .ok confs) : ∀ i c, confs i = some c → SlotOk st.data i c := by
  unfold ParseState.complete at h
  split at h
  · cases h
    exact hi.confs
  · rename_i c hc
    obtain ⟨-, hname, hreq, rfl⟩ := completeConf_ok h
    intro i c' hc'
    rw [Function.update_apply] at hc'
    split at hc'
    · rename_i hi'
      cases hc'
      exact { hi.conf c hc with slot := hi'.symm, name_ne := hname, required := hreq }
    · exact hi.confs i c' hc'

theorem setDeviceId_ok (h : setDeviceId st val = .ok st') :
    st.deviceId = none ∧ st' = { st with deviceId := some val } ∧ val.length ≤ 31 := by
  unfold setDeviceId at h
  split at h
  · cases h
  · rename_i hnone
    split at h
    · cases h
    · rename_i hl
      cases h
      exact ⟨Option.not_isSome_iff_eq_none.1 hnone, rfl, Nat.le_of_not_lt hl⟩

theorem setNo_ok (h : setNo st val = .ok st') :
    ∃ confs, st.complete = .ok confs ∧ 0 ≤ atoi val ∧ atoi val < 32 ∧
      st' = { st with confs, conf := some ⟨(atoi val).toNat, [], [], []⟩ } := by
  obtain ⟨confs, hc, h⟩ := bind_ok.1 h
  dsimp only at h
  split at h
  · cases h
  · cases h
    exact ⟨confs, hc, by omega, by omega, rfl⟩

theorem setImage_ok {ty : ImageType} (h : setImage host st c ty val = .ok st') :
    ∃ r data, dataAddFile host (imagePath host val) st.data = .ok (r, data) ∧
      c.hasImage ty.type = false ∧
      st' = { st with data, conf := some { c with images := c.images ++ [⟨ty.type, r⟩] } } := by
  obtain ⟨⟨r, data⟩, hd, h⟩ := bind_ok.1 h
  dsimp only at h
  split at h
  · cases h
  · rename_i hno
    cases h
    exact ⟨r, data, hd, by simpa using hno, rfl⟩

/-- What a line that is accepted does: it sets `device_id`, or starts a configuration, or sets a
text of the one that was started, or adds an image to it. -/
theorem applySetting_cases (h : applySetting host st name val = .ok st') :
    (name = ascii "device_id" ∧ setDeviceId st val = .ok st') ∨
    (name = ascii "no" ∧ setNo st val = .ok st') ∨
    ((name ≠ ascii "device_id" ∧ name ≠ ascii "no") ∧ ∃ c, st.conf = some c ∧
      (st' = { st with conf := some (setText c name val) } ∨
        ∃ ty ∈ imageTypes, setImage host st (setText c name val) ty val = .ok st')) := by
  unfold applySetting at h
  split at h
  · rename_i hd
    exact .inl ⟨hd, h⟩
  · rename_i hid
    split at h
    · rename_i hno
      exact .inr (.inl ⟨hno, h⟩)
    · rename_i hno
      refine .inr (.inr ⟨⟨hid, hno⟩, ?_⟩)
      split at h
      · cases h
      · rename_i c hc
        refine ⟨c, hc, ?_⟩
        dsimp only at h
        split at h
        · cases h
          exact .inl rfl
        · rename_i ty hty
          exact .inr ⟨ty, List.mem_of_find?_eq_some hty, h⟩

theorem setText_ok {data : List (List UInt8)} (hc : c.Ok data) (hv : 0 ∉ val) :
    (setText c name val).Ok data := by
  unfold setText
  split
  · exact { hc with name := not_mem_snprintf hv }
  · split
    · exact { hc with bootargs := not_mem_snprintf hv }
    · exact hc

/-- An image of a new type is added. -/
theorem BConf.Ok.add {data data' : List (List UInt8)} {ty : ImageType} {r : List UInt8}
    (hc : c.Ok data) (hd : data ⊆ data') (hty : ty ∈ imageTypes) (hr : r ∈ data')
    (hno : c.hasImage ty.type = false) :
    ({ c with images := c.images ++ [⟨ty.type, r⟩] } : BConf).Ok data' := by
  refine ⟨hc.index, hc.name, hc.bootargs, ?_, ?_, ?_⟩
  · rw [List.map_append]
    refine List.nodup_append.2 ⟨hc.types, List.nodup_singleton _, fun a ha b hb hab => ?_⟩
    rw [List.map_cons, List.map_nil, List.mem_singleton] at hb
    obtain ⟨im, him, rfl⟩ := List.mem_map.1 ha
    have := List.any_eq_false.1 hno im him
    exact this (beq_iff_eq.2 (hab.trans hb))
  · intro im him
    rcases List.mem_append.1 him with him | him
    · exact hc.known im him
    · rw [List.mem_singleton.1 him]
      exact ⟨ty, hty, rfl⟩
  · intro im him
    rcases List.mem_append.1 him with him | him
    · exact hd (hc.sources im him)
    · rw [List.mem_singleton.1 him]
      exact hr

theorem parseInv_setting (hi : ParseInv st) (hv : 0 ∉ val)
    (h : applySetting host st name val = .ok st') : ParseInv st' := by
  rcases applySetting_cases h with ⟨-, h⟩ | ⟨-, h⟩ | ⟨-, c, hc, rfl | ⟨ty, hty, h⟩⟩
  · obtain ⟨-, rfl, -⟩ := setDeviceId_ok h
    exact ⟨hi.data, hi.confs, hi.conf⟩
  · obtain ⟨confs, hc, h0, h32, rfl⟩ := setNo_ok h
    have hslots := parseInv_complete hi hc
    refine ⟨hi.data, hslots, fun c hc => ?_⟩
    cases hc
    have hlt : (atoi val).toNat < 32 := by omega
    exact ⟨hlt, List.not_mem_nil, List.not_mem_nil, List.nodup_nil, fun _ him => (nomatch him),
      fun _ him => (nomatch him)⟩
  · refine ⟨hi.data, hi.confs, fun c' hc' => ?_⟩
    cases hc'
    exact setText_ok (hi.conf c hc) hv
  · obtain ⟨r, data, hadd, himg, rfl⟩ := setImage_ok h
    obtain ⟨hr, hsub, hnodup⟩ := dataAddFile_ok hadd
    refine ⟨hnodup hi.data, fun i c' hc' => (hi.confs i c' hc').mono hsub, fun c' hc' => ?_⟩
    cases hc'
    exact (setText_ok (hi.conf c hc) hv).add hsub hty hr himg

theorem parseInv_line {line : List UInt8} (hi : ParseInv st) (h : parseLine host st line = .ok st') :
    ParseInv st' := by
  unfold parseLine at h
  dsimp only at h
  split at h
  · cases h
    exact ⟨hi.data, hi.confs, hi.conf⟩
  · rename_i name val hset
    have hi' : ParseInv { st with lineNo := st.lineNo + 1 } := ⟨hi.data, hi.confs, hi.conf⟩
    exact parseInv_setting hi' (setting_no_nul hset) h

end

theorem parseInv_init : ParseInv .init :=
  ⟨List.nodup_nil, fun _ _ h => (nomatch h), fun _ h => (nomatch h)⟩

/-! ## The table -/

section
variable {host : Host} {t t' : Table}

theorem tableOk_parseConf (h : parseConf host = .ok t) : TableOk t ∧ t.files = [] := by
  unfold parseConf at h
  split at h
  · cases h
  · obtain ⟨st, hst, h⟩ := bind_ok.1 h
    obtain ⟨confs, hc, h⟩ := bind_ok.1 h
    cases h
    have hi : ParseInv st := foldlM_ok (I := fun _ => ParseInv)
      (fun _ _ _ _ hi hl => parseInv_line hi hl) parseInv_init hst
    exact ⟨⟨hi.data, parseInv_complete hi hc, Nat.zero_le _, fun _ hf => nomatch hf⟩, rfl⟩

/-- The names of the regular files among the entries of a directory. -/
def regularNames (es : List DirEntry) : List (List UInt8) :=
  (es.filter fun e => e.isReg == some true).map (·.name)

theorem includeFile_ok {name : List UInt8} (h : includeFile host t name = .ok t') :
    name.length ≤ 31 ∧ t.files.length < maxFiles ∧
      ∃ r data, dataAddFile host (filePath host name) t.data = .ok (r, data) ∧
        t' = { t with data, files := t.files ++ [⟨name, r⟩] } := by
  unfold includeFile at h
  split at h
  · cases h
  · rename_i hlen
    split at h
    · cases h
    · rename_i hn
      obtain ⟨⟨r, data⟩, hd, h⟩ := bind_ok.1 h
      cases h
      have hname : snprintf 32 name = name := snprintf_eq_self_iff.2 (by omega)
      rw [hname]
      exact ⟨by omega, by omega, r, data, hd, rfl⟩

/-- The files of `t` are the regular ones among some entries of the directory. -/
structure FilesFrom (host : Host) (es : List DirEntry) (t : Table) : Prop where
  names : t.files.map (·.name) = regularNames es
  sources : ∀ f ∈ t.files, host.realpath (filePath host f.name) = some f.data

theorem includeEntry_ok {e : DirEntry} {es : List DirEntry} (hi : TableOk t)
    (hf : FilesFrom host es t) (h : includeEntry host t e = .ok t') :
    TableOk t' ∧ t'.confs = t.confs ∧ FilesFrom host (es ++ [e]) t' := by
  unfold includeEntry at h
  split at h
  · cases h
  · rename_i hreg
    obtain ⟨hlen, hn, r, data, hadd, rfl⟩ := includeFile_ok h
    obtain ⟨hr, hsub, hnodup⟩ := dataAddFile_ok hadd
    refine ⟨⟨hnodup hi.data, fun i c hc => (hi.confs i c hc).mono hsub, ?_, ?_⟩, rfl, ⟨?_, ?_⟩⟩
    · rw [List.length_append]
      exact hn
    · intro f hf
      rcases List.mem_append.1 hf with hf | hf
      · obtain ⟨h1, h2, h3, h4⟩ := hi.files f hf
        exact ⟨h1, h2, h3, hsub h4⟩
      · rw [List.mem_singleton.1 hf]
        exact ⟨e.name_ne, e.no_nul, hlen, hr⟩
    · rw [List.map_append, hf.names]
      simp [regularNames, hreg]
    · intro f hmem
      rcases List.mem_append.1 hmem with hmem | hmem
      · exact hf.sources f hmem
      · rw [List.mem_singleton.1 hmem]
        exact realpath_of_dataAddFile hadd
  · rename_i hreg
    cases h
    refine ⟨hi, rfl, ⟨?_, hf.sources⟩⟩
    rw [hf.names]
    simp [regularNames, hreg]

theorem includeFiles_ok (hi : TableOk t) (hno : t.files = []) (h : includeFiles host t = .ok t') :
    TableOk t' ∧ t'.confs = t.confs ∧ ∃ dir, host.files = some dir ∧ FilesFrom host dir.entries t' := by
  unfold includeFiles at h
  cases hd : host.files with
  | none =>
    rw [hd] at h
    cases h
  | some dir =>
    rw [hd] at h
    obtain ⟨t₁, ht₁, h⟩ := bind_ok.1 h
    have h0 : FilesFrom host [] t :=
      ⟨by rw [hno]; rfl, fun f hf => absurd hf (by rw [hno]; exact List.not_mem_nil)⟩
    have hall : TableOk t₁ ∧ t₁.confs = t.confs ∧ FilesFrom host dir.entries t₁ := by
      refine foldlM_ok (I := fun es t₁ => TableOk t₁ ∧ t₁.confs = t.confs ∧ FilesFrom host es t₁)
        ?_ ⟨hi, rfl, h0⟩ ht₁
      intro es e t₁ t₂ ⟨h1, h2, h3⟩ he
      obtain ⟨h1', h2', h3'⟩ := includeEntry_ok h1 h3 he
      exact ⟨h1', h2'.trans h2, h3'⟩
    split at h
    · cases h
      exact ⟨hall.1, hall.2.1, dir, rfl, hall.2.2⟩
    · cases h

/-- **Every table that is read is well formed**, and its files are the regular files of the
directory. -/
theorem tableOk_readConf (h : readConf host = .ok t) :
    TableOk t ∧ ∃ dir, host.files = some dir ∧ FilesFrom host dir.entries t := by
  obtain ⟨t₀, h₀, h⟩ := bind_ok.1 h
  obtain ⟨hi, hno⟩ := tableOk_parseConf h₀
  obtain ⟨hi', -, hfiles⟩ := includeFiles_ok hi hno h
  exact ⟨hi', hfiles⟩

/-- The configurations of the table are those of `boot.conf`. -/
theorem confs_readConf (h : readConf host = .ok t) :
    ∃ t₀, parseConf host = .ok t₀ ∧ t.confs = t₀.confs := by
  obtain ⟨t₀, h₀, h⟩ := bind_ok.1 h
  obtain ⟨hi, hno⟩ := tableOk_parseConf h₀
  exact ⟨t₀, h₀, (includeFiles_ok hi hno h).2.1⟩

/-- No two files have one name. -/
theorem nodup_fileNames (h : readConf host = .ok t) : (t.files.map (·.name)).Nodup := by
  obtain ⟨-, dir, -, hfiles⟩ := tableOk_readConf h
  rw [hfiles.names]
  exact (List.filter_sublist.map _).nodup dir.nodup

end

end PBoot
