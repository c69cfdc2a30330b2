import PBoot.Fdt.Proof.Walk

/-!
# Looking up nodes and properties

What the reading functions return for a device tree in memory, in terms of names and values.

* `DtAt.getProperty`: `fdt_get_property`.
* `DtAt.subnode`: `fdt_subnode_offset`.
* `DtAt.walkPath`, `DtAt.path_some`, `DtAt.path_none`: `fdt_path_offset`; `segments` are the names on
  a path.
* `DtAt.getAlias_some`, `DtAt.getAlias_none`: `fdt_get_alias`.
* `DtAt.addressCells`, `DtAt.sizeCells`: `fdt_address_cells` and `fdt_size_cells`.
-/

namespace PBoot

open Bytes Trees

/-- The node of a blob is in its structure block. -/
theorem Raw.At.inStruct {b : Blob} {m : Mem} {fdt : Nat} {z : Loc NodeName PropEntry}
    (h : b.raw.At m fdt) (hz : z.top = b.root) :
    InStruct m fdt (offsetOf z) (fdtCode.node z.node) := by
  have hstruct : b.raw.struct = fdtCode.before z.ctx ++ (fdtCode.node z.node ++
      (fdtCode.after z.ctx ++ b.tail)) := by
    change fdtCode.node b.root ++ b.tail = _
    rw [← hz, Code.node_top]
    simp only [List.append_assoc]
  have hle := h.used_le
  have hlt := h.total_lt
  have hin : InStruct m fdt 0 b.raw.struct :=
    ⟨by rw [Nat.zero_add, h.sizeDtStruct],
      by
        rw [h.sizeDtStruct]
        unfold Raw.used Raw.offStrings at hle
        omega,
      by rw [h.offDtStruct]; exact h.structAt⟩
  rw [hstruct] at hin
  have hnode := hin.right.left
  rwa [Nat.zero_add] at hnode

/-! ## Properties -/

theorem isStr_iff {m : Mem} {a : Nat} {s : List UInt8} :
    isStr m a s = true ↔ HoldsAt m a (s ++ [0]) := by
  rw [isStr, beq_iff_eq, HoldsAt, List.length_append, List.length_singleton]

theorem isStr_eq {m : Mem} {a : Nat} {name bs : List UInt8} (h0 : 0 ∉ name) (hb : 0 ∈ bs)
    (h : HoldsAt m a bs) : isStr m a name = (cstr bs == name) := by
  obtain ⟨s, t, rfl, hs⟩ := List.eq_append_cons_of_mem hb
  rw [cstr_of_nul hs, Bool.eq_iff_iff, isStr_iff, beq_iff_eq]
  constructor
  · intro hname
    have h1 : name <+: s := prefix_of_holds h0 hname.left h
    have h2 : s <+: name := prefix_of_holds hs h.left hname
    exact h2.eq_of_length_le h1.length_le
  · rintro rfl
    exact HoldsAt.left (by rw [List.append_assoc]; exact h)

variable {m : Mem} {fdt total room o : Nat} {rsv : Rsv} {z z' : DtLoc} {name s : DtName}

/-- The name of a property is compared with the name in the strings block. -/
theorem Raw.At.stringEq {b : Blob} (h : b.raw.At m fdt) (hok : b.Ok) {zc : Loc NodeName PropEntry}
    (hz : zc.top = b.root) (h0 : 0 ∉ name) {p : PropEntry} (hp : some p ∈ zc.node.props)
    (hin : InStruct m fdt o (fdtCode.prop p)) :
    fdtStringEq m fdt o name = isNamed name (propView b.strings p) := by
  have hmem : p ∈ b.root.allProps := by
    rw [← hz, Loc.allProps_top]
    exact List.mem_append_left _ (List.mem_append_right _ (mem_allProps.2 (.inl hp)))
  have hnul := hok.names p hmem
  have hle : p.nameoff ≤ b.strings.length := by
    rcases Nat.le_total p.nameoff b.strings.length with hle | hge
    · exact hle
    · rw [List.drop_eq_nil_of_le hge] at hnul
      cases hnul
  have hoff : fdt32 m (propAddr m fdt o + 8) = p.nameoff := by
    have := hin.right.right.word p.nameoff_lt
    rw [Nat.add_assoc o] at this
    exact this
  rw [fdtStringEq, hoff, h.offDtStrings, isNamed, propView]
  exact isStr_eq h0 hnul (h.stringsAt.drop hle)

/-- Where the property that `fdt_get_property` finds is. -/
theorem DtAt.getProperty (h : DtAt m fdt total room rsv z o) (h0 : 0 ∉ name) :
    match getProp (isNamed name) z.node.props with
    | some p => ∃ o', fdtGetProperty m fdt o name = some (.ok o') ∧
        propLen m fdt o' = p.2.length ∧ HoldsAt m (propData m fdt o') p.2 ∧
        propData m fdt o' + p.2.length ≤ 2 ^ 32
    | none => fdtGetProperty m fdt o name = some (.error .notFound) := by
  obtain ⟨b, zc, hat, hok, -, hz, rfl, rfl, -⟩ := h
  have hin := hat.inStruct hz
  have hget := getProperty_eq (q := fun p => isNamed name (propView b.strings p))
    (offsetOf_mod zc) (fun o p hp hinp => hat.stringEq hok hz h0 hp hinp) hin
  have hview : getProp (isNamed name) (locView b.strings zc).node.props =
      (getProp (fun p => isNamed name (propView b.strings p)) zc.node.props).map
        (propView b.strings) := map_getProp (fun _ => rfl) zc.node.props
  rw [hview, getProp]
  cases hs : splitProp (fun p => isNamed name (propView b.strings p)) zc.node.props with
  | none =>
    rw [hs] at hget
    exact hget
  | some t =>
    obtain ⟨l, p, r⟩ := t
    rw [hs] at hget
    obtain ⟨x, hx, hprops, -⟩ := split_some hs
    obtain ⟨rfl, -⟩ := Option.filter_eq_some_iff.1 hx
    have hp := hin.node.2.1
    rw [hprops, Code.props_append] at hp
    have hprop := hp.right.left
    have hvalue : InStruct m fdt _ p.value := hprop.right.right.right.left
    refine ⟨_, hget, hprop.right.word p.value_lt, ?_, ?_⟩
    · have hholds := hvalue.holds
      rw [propData, propAddr]
      simp only [length_be32, Nat.add_assoc] at hholds ⊢
      exact hholds
    · have hle := hvalue.le_size
      have hused := hat.used_le
      have hend := hat.end_le
      simp only [length_be32] at hle
      rw [hat.sizeDtStruct] at hle
      unfold Raw.used Raw.offStrings at hused
      rw [propData, propAddr, hat.offDtStruct]
      change _ + p.value.length ≤ _
      omega

/-! ## Nodes -/

/-- **`fdt_subnode_offset` goes down in the tree.** -/
theorem DtAt.subnode (h : DtAt m fdt total room rsv z o) (h0 : 0 ∉ s) :
    match z.down (nameMatches s) with
    | some z' => ∃ o', fdtSubnodeOffset m fdt o s = some (.ok o') ∧
        DtAt m fdt total room rsv z' o'
    | none => fdtSubnodeOffset m fdt o s = some (.error .notFound) := by
  obtain ⟨b, zc, hat, hok, hrsv, hz, rfl, rfl, hroom⟩ := h
  have hsub := subnodeOffset_eq h0 (hat.inStruct hz)
  have hview : (locView b.strings zc).down (nameMatches s) =
      (zc.down fun n => nameMatches s n.name).map (locView b.strings) :=
    Loc.map_down (fun _ => rfl) zc
  rw [hview]
  cases hd : zc.down fun n => nameMatches s n.name with
  | none =>
    rw [hd] at hsub
    exact hsub
  | some z' =>
    rw [hd] at hsub
    exact ⟨_, hsub, b, z', hat, hok, hrsv, (Loc.top_down hd).trans hz, rfl, rfl, hroom⟩

theorem DtAt.subnode_some (h : DtAt m fdt total room rsv z o) (h0 : 0 ∉ s)
    (hd : z.down (nameMatches s) = some z') :
    ∃ o', fdtSubnodeOffset m fdt o s = some (.ok o') ∧ DtAt m fdt total room rsv z' o' := by
  have := h.subnode h0
  rwa [hd] at this

theorem DtAt.subnode_none (h : DtAt m fdt total room rsv z o) (h0 : 0 ∉ s)
    (hd : z.down (nameMatches s) = none) :
    fdtSubnodeOffset m fdt o s = some (.error .notFound) := by
  have := h.subnode h0
  rwa [hd] at this

/-- The node at the top of the tree is at offset 0. -/
theorem DtAt.root (h : DtAt m fdt total room rsv z o) :
    DtAt m fdt total room rsv z.top.loc 0 := by
  obtain ⟨b, zc, hat, hok, hrsv, hz, -, rfl, hroom⟩ := h
  refine ⟨b, b.root.loc, hat, hok, hrsv, rfl, rfl, ?_, hroom⟩
  rw [locView, locView, Loc.map_top, hz]
  rfl

/-! ## Paths -/

theorem segments_slash (path : List UInt8) : segments (47 :: path) = segments path := by
  rw [segments, segments, List.splitOn_eq_splitOnP, List.splitOnP_cons_eq_if_modifyHead,
    if_pos (by rfl), List.filter_cons_of_neg (by simp), ← List.splitOn_eq_splitOnP]

theorem segments_dropWhile (path : List UInt8) :
    segments (path.dropWhile (· == 47)) = segments path := by
  induction path with
  | nil => rfl
  | cons b path ih =>
    by_cases hb : b = 47
    · subst hb
      rw [List.dropWhile_cons_of_pos (by rfl), ih, segments_slash]
    · rw [List.dropWhile_cons_of_neg (by simpa using hb)]

theorem segments_name {p : List UInt8} (hne : p ≠ []) (hhead : p.head? ≠ some 47) :
    segments p = p.takeWhile (· != 47) :: segments (p.dropWhile (· != 47)) := by
  have hs : ∀ x ∈ p.takeWhile (· != 47), (x == 47) = false := fun x hx => by
    simpa using List.mem_takeWhile_imp hx
  have hs0 : p.takeWhile (· != 47) ≠ [] := by
    obtain ⟨b, t, rfl⟩ := List.exists_cons_of_ne_nil hne
    rw [List.takeWhile_cons_of_pos (by simpa using hhead)]
    exact List.cons_ne_nil _ _
  have hp := List.takeWhile_append_dropWhile (p := (· != 47)) (l := p)
  cases hr : p.dropWhile (· != 47) with
  | nil =>
    rw [hr, List.append_nil] at hp
    rw [segments, List.splitOn_eq_splitOnP, ← hp, hp, List.splitOnP_eq_singleton (hp ▸ hs)]
    simp [segments, hne, hp]
  | cons b t =>
    have hb : b = 47 := by
      have := List.head_dropWhile_not (· != 47) (l := p) (by rw [hr]; exact List.cons_ne_nil _ _)
      simpa [hr] using this
    subst hb
    rw [segments_slash]
    conv_lhs => rw [← hp, hr, segments, List.splitOn_eq_splitOnP,
      List.splitOnP_append_cons_of_forall_mem hs 47 rfl t, ← List.splitOn_eq_splitOnP,
      List.filter_cons_of_pos (by simpa using hs0)]
    rfl

theorem walkPath_eq (m : Mem) (fdt o : Nat) (path : List UInt8) :
    walkPath m fdt o path = if path.dropWhile (· == 47) = [] then some (.ok o)
      else (fdtSubnodeOffset m fdt o ((path.dropWhile (· == 47)).takeWhile (· != 47))).bind fun
        | .error e => some (.error e)
        | .ok o => walkPath m fdt o ((path.dropWhile (· == 47)).dropWhile (· != 47)) := by
  rw [walkPath]
  split <;> rfl

/-- **`fdt_path_offset` on a path from the root follows the names on the path.** -/
theorem DtAt.walkPath {path : List UInt8} (h : DtAt m fdt total room rsv z o) (h0 : 0 ∉ path) :
    match z.find ((segments path).map nameMatches) with
    | some z' => ∃ o', PBoot.walkPath m fdt o path = some (.ok o') ∧
        DtAt m fdt total room rsv z' o'
    | none => PBoot.walkPath m fdt o path = some (.error .notFound) := by
  induction hn : path.length using Nat.strong_induction_on generalizing path z o with
  | _ n ih =>
    rw [walkPath_eq, ← segments_dropWhile]
    by_cases hne : path.dropWhile (· == 47) = []
    · rw [hne]
      exact ⟨o, rfl, h⟩
    rw [if_neg hne]
    have hlt := length_dropWhile_segment hne
    have hhead : (path.dropWhile (· == 47)).head? ≠ some 47 := fun hh => by
      have := List.head_dropWhile_not (· == 47) hne
      rw [List.head?_eq_some_head hne, Option.some.injEq] at hh
      simp [hh] at this
    have hp0 : 0 ∉ path.dropWhile (· == 47) := fun hm => h0 ((List.dropWhile_sublist _).subset hm)
    have hs0 : 0 ∉ (path.dropWhile (· == 47)).takeWhile (· != 47) :=
      fun hm => hp0 ((List.takeWhile_sublist _).subset hm)
    have hr0 : 0 ∉ (path.dropWhile (· == 47)).dropWhile (· != 47) :=
      fun hm => hp0 ((List.dropWhile_sublist _).subset hm)
    rw [segments_name hne hhead, List.map_cons, Loc.find_cons]
    cases hd : z.down (nameMatches ((path.dropWhile (· == 47)).takeWhile (· != 47))) with
    | none =>
      rw [h.subnode_none hs0 hd]
      rfl
    | some z' =>
      obtain ⟨o', ho', h'⟩ := h.subnode_some hs0 hd
      rw [ho']
      exact ih _ (hn ▸ hlt) h' hr0 rfl

theorem fdtPathOffset_eq {path : List UInt8} (h : path.head? = some 47) (m : Mem) (fdt : Nat) :
    fdtPathOffset m fdt path = PBoot.walkPath m fdt 0 path := by
  rw [fdtPathOffset, pathOffset, if_pos h]

theorem DtAt.path_some {path : List UInt8} (h : DtAt m fdt total room rsv z o) (h0 : 0 ∉ path)
    (hp : path.head? = some 47) (hz : DtNode.at z.top path = some z') :
    ∃ o', fdtPathOffset m fdt path = some (.ok o') ∧ DtAt m fdt total room rsv z' o' := by
  have := h.root.walkPath h0
  rw [fdtPathOffset_eq hp]
  rw [DtNode.at] at hz
  rwa [hz] at this

theorem DtAt.path_none {path : List UInt8} (h : DtAt m fdt total room rsv z o) (h0 : 0 ∉ path)
    (hp : path.head? = some 47) (hz : DtNode.at z.top path = none) :
    fdtPathOffset m fdt path = some (.error .notFound) := by
  have := h.root.walkPath h0
  rw [fdtPathOffset_eq hp]
  rw [DtNode.at] at hz
  rwa [hz] at this

/-! ## Aliases -/

theorem strAt_eq {a : Nat} {bs : List UInt8} (h0 : 0 ∈ bs) (h : HoldsAt m a bs)
    (hle : a + bs.length ≤ 2 ^ 32) : strAt m a = some (cstr bs) := by
  induction bs generalizing a with
  | nil => cases h0
  | cons b bs ih =>
    obtain ⟨hb, hrest⟩ := holds_cons.1 h
    rw [List.length_cons] at hle
    rw [strAt, if_pos (by omega), hb]
    by_cases hb0 : b = 0
    · subst hb0
      rfl
    · have h0' : 0 ∈ bs := (List.mem_cons.1 h0).resolve_left (Ne.symm hb0)
      rw [if_neg hb0, ih h0' hrest (by omega), cstr, cstr,
        List.takeWhile_cons_of_pos (by simpa using hb0)]
      rfl

/-- **`fdt_get_alias` points to the value of a property of `/aliases`.** -/
theorem DtAt.getAlias_some {val : List UInt8} (h : DtAt m fdt total room rsv z o) (h0 : 0 ∉ name)
    (hv : ((DtNode.at z.top (ascii "/aliases")).bind fun z' => z'.get name) = some val) :
    ∃ a, fdtGetAlias m fdt name = some (some a) ∧ HoldsAt m a val ∧ a + val.length ≤ 2 ^ 32 := by
  obtain ⟨z', hz, hval⟩ := Option.bind_eq_some_iff.1 hv
  obtain ⟨o', ho', h'⟩ := h.path_some (by decide) rfl hz
  rw [fdtPathOffset_eq rfl] at ho'
  have hget := h'.getProperty h0
  obtain ⟨p, hp, rfl⟩ := Option.map_eq_some_iff.1 hval
  rw [hp] at hget
  obtain ⟨o₂, hget, -, hholds, hle⟩ := hget
  refine ⟨propData m fdt o₂, ?_, hholds, hle⟩
  rw [fdtGetAlias, ho', Option.bind_some]
  dsimp only
  rw [fdtGetprop, hget]
  rfl

theorem DtAt.getAlias_none (h : DtAt m fdt total room rsv z o) (h0 : 0 ∉ name)
    (hv : ((DtNode.at z.top (ascii "/aliases")).bind fun z' => z'.get name) = none) :
    fdtGetAlias m fdt name = some none := by
  cases hz : DtNode.at z.top (ascii "/aliases") with
  | none =>
    have hpath := h.path_none (by decide) rfl hz
    rw [fdtPathOffset_eq rfl] at hpath
    rw [fdtGetAlias, hpath]
    rfl
  | some z' =>
    obtain ⟨o', ho', h'⟩ := h.path_some (by decide) rfl hz
    rw [fdtPathOffset_eq rfl] at ho'
    have hget := h'.getProperty h0
    rw [hz, Option.bind_some, DtLoc.get, Option.map_eq_none_iff] at hv
    rw [hv] at hget
    rw [fdtGetAlias, ho', Option.bind_some]
    dsimp only
    rw [fdtGetprop, hget]
    rfl

/-! ## Cells -/

theorem fdt32_of_word {a : Nat} {bs : List UInt8} (h : HoldsAt m a bs) (hl : bs.length = 4) :
    fdt32 m a = ofBe32 bs := by
  rw [HoldsAt, hl] at h
  rw [fdt32_eq, h]

theorem DtAt.cells (h : DtAt m fdt total room rsv z o) (h0 : 0 ∉ name) :
    fdtCells m fdt o name = some (cellsOf z.node name) := by
  have hget := h.getProperty h0
  rw [fdtCells, fdtGetprop, cellsOf]
  cases hp : getProp (isNamed name) z.node.props with
  | none =>
    rw [hp] at hget
    rw [hget]
    rfl
  | some p =>
    rw [hp] at hget
    obtain ⟨o', hget, hlen, hval, -⟩ := hget
    rw [hget]
    simp only [Option.map_some, Except.map, hlen]
    split
    · rfl
    · rename_i h4
      rw [fdt32_of_word hval (not_not.1 h4)]

theorem DtAt.addressCells (h : DtAt m fdt total room rsv z o) :
    fdtAddressCells m fdt o = some (PBoot.addressCells z.node) := by
  rw [fdtAddressCells, h.cells (by decide), PBoot.addressCells]
  rfl

theorem DtAt.sizeCells (h : DtAt m fdt total room rsv z o) :
    fdtSizeCells m fdt o = some (PBoot.sizeCells z.node) := by
  rw [fdtSizeCells, h.cells (by decide), PBoot.sizeCells]
  rfl

/-! ## Reservations -/

theorem fdt64_of_holds {a v : Nat} {t : List UInt8} (h : HoldsAt m a (be64 v ++ t))
    (hv : v < 2 ^ 64) : fdt64 m a = v := by
  rw [be64, List.append_assoc] at h
  have hhi : fdt32 m a = v / 2 ^ 32 := fdt32_of_holds h (by omega)
  have hlo : fdt32 m (a + 4) = v % 2 ^ 32 := by
    have hr : read m (a + 4) 4 = be32 v := h.right.left
    rw [fdt32_eq, hr, ← List.append_nil (be32 v), ofBe32_be32_append]
  rw [fdt64, hhi, hlo]
  omega

theorem length_rsvBytes (rsv : Rsv) : (rsvBytes rsv).length = 16 * rsv.length :=
  length_flatMap_const length_rsvEntry rsv

/-- The reservation block from an entry on. -/
theorem Raw.At.rsvFrom {b : Blob} (h : b.raw.At m fdt) {i : Nat} (hi : i ≤ b.rsv.length) :
    HoldsAt m (memRsvAddr m fdt i) (rsvBytes (b.rsv.drop i) ++ (b.rsvEnd ++ be64 0)) := by
  have hin : HoldsAt m (fdt + b.offRsv) (rsvBytes b.rsv ++ (b.rsvEnd ++ be64 0)) := h.rsvAt
  have hlen := length_rsvBytes b.rsv
  have hdrop := hin.drop (k := 16 * i) (by rw [List.length_append, hlen]; omega)
  rw [List.drop_append_of_le_length (by omega), rsvBytes,
    drop_flatMap_const length_rsvEntry] at hdrop
  have hoff : fdtOffMemRsvmap m fdt = b.offRsv := h.offMemRsvmap
  rw [memRsvAddr, hoff]
  exact hdrop

theorem Raw.At.rsv_get {b : Blob} (h : b.raw.At m fdt) (hok : b.Ok) {i : Nat}
    (hi : i < b.rsv.length) : fdtGetMemRsv m fdt i = b.rsv[i] := by
  have hin := h.rsvFrom (Nat.le_of_lt hi)
  rw [List.drop_eq_getElem_cons hi, rsvBytes, List.flatMap_cons, rsvEntry, List.append_assoc,
    List.append_assoc] at hin
  obtain ⟨h1, -, h2⟩ := hok.rsv _ (List.getElem_mem hi)
  have hsize : fdt64 m (memRsvAddr m fdt i + 8) = b.rsv[i].2 := fdt64_of_holds hin.right h2
  rw [fdtGetMemRsv, fdt64_of_holds hin h1, hsize]

theorem Raw.At.rsv_end {b : Blob} (h : b.raw.At m fdt) (hok : b.Ok) :
    (fdtGetMemRsv m fdt b.rsv.length).2 = 0 := by
  have hin := h.rsvFrom (Nat.le_refl b.rsv.length)
  rw [List.drop_length] at hin
  have hend := hin.right.right
  rw [rsvBytes, List.flatMap_nil, List.length_nil, Nat.add_zero, hok.rsvEnd,
    ← List.append_nil (be64 0)] at hend
  exact fdt64_of_holds hend (by decide)

theorem numMemRsvFrom_eq {b : Blob} (h : b.raw.At m fdt) (hok : b.Ok) {i : Nat}
    (hi : i ≤ b.rsv.length) : numMemRsvFrom m fdt i = some b.rsv.length := by
  have hlen : b.raw.rsv.length = 16 * b.rsv.length + 16 := by
    change (rsvBytes b.rsv ++ (b.rsvEnd ++ be64 0)).length = _
    rw [List.length_append, List.length_append, length_rsvBytes, hok.rsvEnd]
    rfl
  have hend := h.end_le
  have hle := h.used_le
  have hoff : fdtOffMemRsvmap m fdt = b.raw.offRsv := h.offMemRsvmap
  have hlt : memRsvAddr m fdt i < 2 ^ 32 := by
    unfold Raw.used Raw.offStrings Raw.offStruct at hle
    rw [memRsvAddr, hoff]
    omega
  induction hn : b.rsv.length - i generalizing i with
  | zero =>
    have hieq : i = b.rsv.length := by omega
    rw [numMemRsvFrom, if_pos hlt, hieq, if_pos (h.rsv_end hok)]
  | succ n ih =>
    have hi' : i < b.rsv.length := by omega
    have hpos : ¬(fdtGetMemRsv m fdt i).2 = 0 := by
      rw [h.rsv_get hok hi']
      exact Nat.pos_iff_ne_zero.1 (hok.rsv _ (List.getElem_mem hi')).2.1
    rw [numMemRsvFrom, if_pos hlt, if_neg hpos]
    refine ih hi' ?_ (by omega)
    unfold Raw.used Raw.offStrings Raw.offStruct at hle
    rw [memRsvAddr, hoff]
    omega

/-- **`fdt_num_mem_rsv` counts the reservations.** -/
theorem DtAt.numMemRsv (h : DtAt m fdt total room rsv z o) :
    fdtNumMemRsv m fdt = some rsv.length := by
  obtain ⟨b, zc, hat, hok, rfl, -⟩ := h
  exact numMemRsvFrom_eq hat hok (Nat.zero_le _)

theorem DtAt.getMemRsv (h : DtAt m fdt total room rsv z o) {i : Nat} (hi : i < rsv.length) :
    fdtGetMemRsv m fdt i = rsv[i] := by
  obtain ⟨b, zc, hat, hok, rfl, -⟩ := h
  exact hat.rsv_get hok hi

end PBoot
