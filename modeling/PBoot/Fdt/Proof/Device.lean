import PBoot.Fdt.Proof.Support

/-!
# Reading back what was edited

What a caller of libfdt sees of an edit: the property that was set is read back, the others are what
they were, and an edit without room leaves the tree as it was.
-/

namespace PBoot

open Bytes Progs Trees

variable {m : Mem} {fdt total room o : Nat} {rsv : Rsv} {z : DtLoc} {name val : List UInt8}

/-! ## Properties of a node -/

theorem getProp_setProp_self {π : Type*} {q : π → Bool} {f : π → π} {p : π} {ps : List (Option π)}
    (hf : ∀ x, q x = true → q (f x) = true) (hp : q p = true) :
    getProp q (setProp q f p ps) = some (((getProp q ps).map f).getD p) := by
  unfold setProp getProp
  cases hs : splitProp q ps with
  | none =>
    have hcons : splitProp q (some p :: ps) = some ([], p, ps) :=
      split_cons_some (by simp [Option.filter, hp]) ps
    rw [hcons]
    rfl
  | some t =>
    obtain ⟨l, x, r⟩ := t
    obtain ⟨y, hy, -, hl⟩ := split_some hs
    have hx : q x = true := (Option.filter_eq_some_iff.1 hy).2
    have hfind : getProp q (l ++ some (f x) :: r) = some (f x) := by
      have hl' : (l.filterMap id).find? q = none := by
        refine List.find?_eq_none.2 fun w hw => ?_
        obtain ⟨o, ho, rfl⟩ := List.mem_filterMap.1 hw
        simpa [Option.filter] using hl (some w) ho
      have hcons : (some (f x) :: r).filterMap id = f x :: r.filterMap id := rfl
      rw [getProp_eq_find?, List.filterMap_append, List.find?_append, hl', hcons,
        List.find?_cons_of_pos (hf x hx), Option.none_or]
    exact hfind

theorem DtLoc.get_set (z : DtLoc) (name val : List UInt8) : (z.set name val).get name = some val := by
  have hget : getProp (isNamed name) (z.set name val).node.props =
      some (((getProp (isNamed name) z.node.props).map fun p => (p.1, val)).getD (name, val)) :=
    getProp_setProp_self (fun _ h => h) (by simp [isNamed])
  rw [DtLoc.get, hget]
  cases getProp (isNamed name) z.node.props <;> rfl

theorem isNamed_disjoint {other : List UInt8} (hne : other ≠ name) (p : DtProp)
    (h : isNamed name p = true) : isNamed other p = false := by
  have hp : p.1 = name := by simpa [isNamed] using h
  simpa [isNamed, hp] using Ne.symm hne

theorem DtLoc.get_set_of_ne {other : List UInt8} (hne : other ≠ name) :
    (z.set name val).get other = z.get other := by
  have hget : getProp (isNamed other) (z.set name val).node.props =
      getProp (isNamed other) z.node.props :=
    getProp_setProp (fun _ _ => rfl) (isNamed_disjoint hne) (by simpa [isNamed] using Ne.symm hne)
  rw [DtLoc.get, hget, DtLoc.get]

theorem DtLoc.get_del_of_ne {other : List UInt8} (hne : other ≠ name) :
    (z.del name).get other = z.get other := by
  have hget : getProp (isNamed other) (z.del name).node.props =
      getProp (isNamed other) z.node.props := getProp_delProp (isNamed_disjoint hne)
  rw [DtLoc.get, hget, DtLoc.get]

/-- What `fdt_getprop` says of a property at `o`, or that there is none. -/
def Reads (m : Mem) (fdt o : Nat) (name : List UInt8) : Option (List UInt8) → Prop
  | some val => ∃ a, fdtGetprop m fdt o name = some (.ok (a, val.length)) ∧ HoldsAt m a val
  | none => fdtGetprop m fdt o name = some (.error .notFound)

/-- `fdt_getprop` of a node of the tree. -/
theorem DtAt.getprop (h : DtAt m fdt total room rsv z o) (h0 : 0 ∉ name) :
    Reads m fdt o name (z.get name) := by
  have hget := h.getProperty h0
  unfold DtLoc.get
  cases hp : getProp (isNamed name) z.node.props with
  | none =>
    rw [hp] at hget
    change fdtGetprop m fdt o name = _
    rw [fdtGetprop, hget]
    rfl
  | some p =>
    rw [hp] at hget
    obtain ⟨o', hget, hlen, hval, -⟩ := hget
    refine ⟨propData m fdt o', ?_, hval⟩
    rw [fdtGetprop, hget, ← hlen]
    rfl

/-! ## A small blob -/

/-- A root node with the properties `a` and `d`, and four subnodes. -/
def smallBlob : Blob where
  offRsv := 40
  rsv := []
  rsvEnd := be64 0
  gap1 := 0
  root :=
    { name := ⟨[], [0, 0, 0], by decide, by decide, by decide⟩
      props := [some ⟨0, [7], [0, 0, 0], by decide, by decide, by decide, by decide⟩,
        some ⟨2, [1, 2, 3, 4], [], by decide, by decide, by decide, by decide⟩]
      kids := [.node ⟨[98], [0, 0], by decide, by decide, by decide⟩ [] [],
        .node ⟨ascii "sound", [0, 0], by decide, by decide, by decide⟩
          [some ⟨4, ascii "okay" ++ [0], [0, 0, 0], by decide, by decide, by decide, by decide⟩] [],
        .node ⟨ascii "aliases", [], by decide, by decide, by decide⟩
          [some ⟨11, ascii "/wifi" ++ [0], [0, 0], by decide, by decide, by decide, by decide⟩] [],
        .node ⟨ascii "wifi", [0, 0, 0], by decide, by decide, by decide⟩ [] []] }
  tail := be32 fdtEnd
  gap2 := 0
  strings := [97, 0, 100, 0] ++ ascii "status" ++ [0] ++ ascii "ethernet0" ++ [0]
  total := 4625

/-- Memory with the blob at 64. -/
def smallMem : Mem := fun i =>
  ([0xd00dfeed, 4625, 56, 204, 40, 17, 16, 0, 21, 148].flatMap be32 ++ smallBlob.raw.rsv ++
    smallBlob.raw.struct ++ smallBlob.raw.strings).getD (i - 64) 0

theorem smallBlob_at : smallBlob.raw.At smallMem 64 where
  magic := by decide +kernel
  totalsize := by decide +kernel
  offDtStruct := by decide +kernel
  offDtStrings := by decide +kernel
  offMemRsvmap := by decide +kernel
  sizeDtStrings := by decide +kernel
  sizeDtStruct := by decide +kernel
  header_le := by decide
  used_le := by decide +kernel
  total_lt := by decide
  end_le := by decide
  rsvAt := by unfold HoldsAt; decide +kernel
  structAt := by unfold HoldsAt; decide +kernel
  stringsAt := by unfold HoldsAt; decide +kernel

theorem smallBlob_ok : smallBlob.Ok where
  rsvEnd := rfl
  rsv := fun _ h => nomatch h
  names := by
    have hoffs : smallBlob.root.allProps.map (·.nameoff) = [0, 2, 4, 11] := by decide +kernel
    have hnul : ∀ n ∈ [0, 2, 4, 11], 0 ∈ smallBlob.strings.drop n := by decide +kernel
    intro p hp
    have hoff : p.nameoff ∈ smallBlob.root.allProps.map (·.nameoff) := List.mem_map_of_mem hp
    rw [hoffs] at hoff
    exact hnul _ hoff

/-- The subnodes without the first. -/
def smallKids : List (Item DtName DtProp) :=
  [.node (ascii "sound") [some (ascii "status", ascii "okay" ++ [0])] [],
    .node (ascii "aliases") [some (ascii "ethernet0", ascii "/wifi" ++ [0])] [],
    .node (ascii "wifi") [] []]

/-- The tree of the small blob. -/
def smallTree : Dt :=
  ⟨[], ⟨[], [some ([97], [7]), some ([100], [1, 2, 3, 4])], .node [98] [] [] :: smallKids⟩⟩

theorem smallTree_at : DtAt smallMem 64 4625 4400 smallTree.rsv smallTree.root.loc 0 :=
  ⟨smallBlob, smallBlob.root.loc, smallBlob_at, smallBlob_ok, rfl, rfl, rfl, rfl, by decide +kernel, rfl⟩

theorem smallTree_room : 4400 ≤ freeRoom smallMem 64 := smallTree_at.room_le

/-! ## The functions -/

/-- **Along a path to a property**: an absolute path leads to the node that the tree has there, and
`fdt_getprop` points to the value of its property, or both say that there is none. -/
theorem fdtPathOffset_getprop {path : List UInt8} (h : DtAt m fdt total room rsv z o)
    (hp : path.head? = some 47) (hp0 : 0 ∉ path) (h0 : 0 ∉ name) :
    match DtNode.at z.top path with
    | none => fdtPathOffset m fdt path = some (.error .notFound)
    | some z' => ∃ o', fdtPathOffset m fdt path = some (.ok o') ∧
        Reads m fdt o' name (z'.get name) := by
  cases hz : DtNode.at z.top path with
  | none => exact h.path_none hp0 hp hz
  | some z' =>
    obtain ⟨o', ho', h'⟩ := h.path_some hp0 hp hz
    exact ⟨o', ho', h'.getprop h0⟩

theorem fdtPathOffset_getprop_small : ∃ o, fdtPathOffset smallMem 64 (ascii "/sound") = some (.ok o) ∧
    Reads smallMem 64 o (ascii "status") (some (ascii "okay" ++ [0])) := by
  have h := fdtPathOffset_getprop smallTree_at (rfl : (ascii "/sound").head? = some 47)
    (by decide) (by decide : 0 ∉ ascii "status")
  have hz : DtNode.at smallTree.root.loc.top (ascii "/sound") =
      some ⟨[⟨[], smallTree.root.props, [.node [98] [] []], smallKids.tail⟩],
        ⟨ascii "sound", [some (ascii "status", ascii "okay" ++ [0])], []⟩⟩ := by rfl
  rw [hz] at h
  exact h

/-- **What `fdt_setprop` has set is read back**, and every other property of the node is what it was;
only for want of room it fails, and then every property is. -/
theorem fdtSetprop_reads (h : DtAt m fdt total room rsv z o) (h0 : 0 ∉ name) :
    wp (fdtSetprop fdt o name val) (fun res m' => SameOutside m m' fdt total ∧
      (res = .ok () ∧ setpropRoom m fdt z name val ≤ freeRoom m fdt ∧
          Reads m' fdt o name (some val) ∧
          DtAt m' fdt total (freeRoom m fdt - setpropRoom m fdt z name val) rsv (z.set name val) o ∨
        res = .error .noSpace ∧ freeRoom m fdt < setpropRoom m fdt z name val ∧
          Reads m' fdt o name (z.get name) ∧ DtAt m' fdt total 0 rsv z o) ∧
      ∀ other, other ≠ name → 0 ∉ other → Reads m' fdt o other (z.get other)) m := by
  refine (h.setprop h0 val).mono ?_
  rintro res m' ⟨hsame, ⟨rfl, hneed, htree⟩ | ⟨rfl, hneed, htree⟩⟩
  · have hset := htree.getprop h0
    rw [DtLoc.get_set] at hset
    refine ⟨hsame, .inl ⟨rfl, hneed, hset, htree⟩, fun other hne hother => ?_⟩
    rw [← DtLoc.get_set_of_ne hne]
    exact htree.getprop hother
  · exact ⟨hsame, .inr ⟨rfl, hneed, htree.getprop h0, htree⟩, fun _ _ hother => htree.getprop hother⟩

theorem fdtSetprop_reads_small : wp (fdtSetprop 64 0 [99] [1, 2]) (fun res m' => res = .ok () ∧
    Reads m' 64 0 [99] (some [1, 2]) ∧ Reads m' 64 0 [97] (some [7])) smallMem := by
  have hneed := setpropRoom_le smallMem 64 smallTree.root.loc [99] [1, 2]
  have hmax : propRoom [99] [1, 2] ≤ 4400 := by decide
  refine (fdtSetprop_reads smallTree_at (by decide)).mono ?_
  rintro res m' ⟨-, ⟨rfl, -, hset, -⟩ | ⟨-, hroom, -⟩, hother⟩
  · exact ⟨rfl, hset, hother [97] (by decide) (by decide)⟩
  · exact absurd hroom (Nat.not_lt.2 ((hneed.trans hmax).trans smallTree_room))

/-- **`fdt_delprop` takes one property away**: the tree is the tree without the first property of the
name, and every other property of the node is read as before. -/
theorem fdtDelprop_reads (h : DtAt m fdt total room rsv z o) (h0 : 0 ∉ name) :
    wp (fdtDelprop fdt o name) (fun _ m' => SameOutside m m' fdt total ∧
      DtAt m' fdt total room rsv (z.del name) o ∧
        ∀ other, other ≠ name → 0 ∉ other → Reads m' fdt o other (z.get other)) m := by
  refine (h.delprop h0).mono ?_
  rintro res m' ⟨hsame, htree⟩
  refine ⟨hsame, htree, fun other hne hother => ?_⟩
  rw [← DtLoc.get_del_of_ne hne]
  exact htree.getprop hother

theorem fdtDelprop_reads_small : wp (fdtDelprop 64 0 [97]) (fun _ m' =>
    Reads m' 64 0 [97] none ∧ Reads m' 64 0 [100] (some [1, 2, 3, 4])) smallMem := by
  refine (fdtDelprop_reads smallTree_at (by decide)).mono ?_
  rintro res m' ⟨-, htree, hother⟩
  exact ⟨htree.getprop (by decide), hother [100] (by decide) (by decide)⟩

/-- **After `fdt_find_or_add_subnode` the node is there**: nothing changes when the parent has a node
whose name matches, and else a new one is in front of the others, if there is room for it. -/
theorem fdtFindOrAddSubnode_tree (h : DtAt m fdt total room rsv z o) (h0 : 0 ∉ name) :
    match z.down (nameMatches name) with
    | some z' => wp (fdtFindOrAddSubnode fdt o name) (fun res m' => m' = m ∧
        ∃ o', res = .ok o' ∧ DtAt m' fdt total room rsv z' o') m
    | none => wp (fdtFindOrAddSubnode fdt o name) (fun res m' => SameOutside m m' fdt total ∧
        ((∃ o', res = .ok o' ∧ nodeRoom name ≤ freeRoom m fdt ∧
            DtAt m' fdt total (freeRoom m fdt - nodeRoom name) rsv (z.addKid name) o') ∨
          res = .error .noSpace ∧ freeRoom m fdt < nodeRoom name ∧ m' = m)) m := by
  cases hd : z.down (nameMatches name) with
  | some z' =>
    obtain ⟨o', ho', h'⟩ := h.subnode_some h0 hd
    exact wp_bind (wp_attempt (wp_reads ho' (wp_pure ⟨rfl, o', rfl, h'⟩)))
  | none =>
    refine wp_bind (wp_attempt (wp_reads (h.subnode_none h0 hd) ?_))
    exact h.addSubnode h0 hd

theorem fdtFindOrAddSubnode_tree_small :
    wp (fdtFindOrAddSubnode 64 0 [99]) (fun res m' => ∃ o, res = .ok o ∧
      DtAt m' 64 4625 4388 [] (smallTree.root.loc.addKid [99]) o) smallMem ∧
    wp (fdtFindOrAddSubnode 64 0 (ascii "wifi")) (fun res m' => m' = smallMem ∧ ∃ o, res = .ok o)
      smallMem := by
  constructor
  · refine wp.mono (fdtFindOrAddSubnode_tree smallTree_at (by decide : 0 ∉ ([99] : List UInt8))) ?_
    rintro res m' ⟨-, ⟨o, rfl, -, htree⟩ | ⟨-, hroom, -⟩⟩
    · exact ⟨o, rfl, htree.mono (Nat.sub_le_sub_right smallTree_room 12)⟩
    · exact absurd hroom (Nat.not_lt.2 (Nat.le_trans (by decide) smallTree_room))
  · refine wp.mono (fdtFindOrAddSubnode_tree smallTree_at (by decide : 0 ∉ ascii "wifi")) ?_
    rintro res m' ⟨hm, o, hres, -⟩
    exact ⟨hm, o, hres⟩

/-- **`fdt_del_node` cuts one node out**: what memory holds is the tree without it, with the same
reservations, and nothing outside the blob changes. -/
theorem fdtDelNode_tree (h : DtAt m fdt total room rsv z o) (hctx : z.ctx ≠ []) :
    wp (fdtDelNode fdt o) (fun res m' => res = .ok () ∧ SameOutside m m' fdt total ∧
      DtAt m' fdt total room rsv z.remove.loc 0) m :=
  (DtSince.delNode ⟨SameOutside.rfl, h⟩ hctx).mono fun _ _ ⟨hres, hsame, htree⟩ =>
    ⟨hres, hsame, htree⟩

theorem fdtDelNode_tree_small : ∃ o, wp (fdtDelNode 64 o) (fun res m' => res = .ok () ∧
    DtAt m' 64 4625 4400 [] (Node.loc ⟨[], smallTree.root.props, smallKids⟩) 0) smallMem := by
  have hd : smallTree.root.loc.down (nameMatches [98]) =
      some ⟨[⟨[], smallTree.root.props, [], smallKids⟩], ⟨[98], [], []⟩⟩ := rfl
  obtain ⟨o, -, hb⟩ := smallTree_at.subnode_some (by decide) hd
  exact ⟨o, (fdtDelNode_tree hb (List.cons_ne_nil _ _)).mono fun _ _ ⟨hres, _, htree⟩ =>
    ⟨hres, htree⟩⟩

/-- **A reservation that `fdt_add_mem_rsv` has added is read back behind the others**, which are what
they were; only for want of 16 bytes it fails, and then the list stays. -/
theorem fdtAddMemRsv_reads {address size : Nat} (h : DtAt m fdt total room rsv z o)
    (hfits : rsvFits (address, size)) :
    wp (fdtAddMemRsv fdt address size) (fun res m' => SameOutside m m' fdt total ∧
      (res = .ok () ∧ fdtNumMemRsv m' fdt = some (rsv.length + 1) ∧
          fdtGetMemRsv m' fdt rsv.length = (address, size) ∧
          DtAt m' fdt total (room - 16) (rsv ++ [(address, size)]) z o ∨
        res = .error .noSpace ∧ room < 16 ∧ fdtNumMemRsv m' fdt = some rsv.length) ∧
      ∀ i, (hi : i < rsv.length) → fdtGetMemRsv m' fdt i = rsv[i]) m := by
  refine (h.addMemRsv hfits).mono ?_
  rintro res m' ⟨hsame, ⟨rfl, htree⟩ | ⟨rfl, hroom, htree⟩⟩
  · have hnum := htree.numMemRsv
    rw [List.length_append] at hnum
    have hlast := htree.getMemRsv (i := rsv.length) (by simp)
    rw [List.getElem_concat_length rfl] at hlast
    refine ⟨hsame, .inl ⟨rfl, hnum, hlast, htree⟩, fun i hi => ?_⟩
    rw [htree.getMemRsv (by rw [List.length_append]; omega), List.getElem_append_left hi]
  · exact ⟨hsame, .inr ⟨rfl, hroom, htree.numMemRsv⟩, fun i hi => htree.getMemRsv hi⟩

theorem fdtAddMemRsv_reads_small : wp (fdtAddMemRsv 64 4096 512) (fun res m' => res = .ok () ∧
    fdtNumMemRsv m' 64 = some 1 ∧ fdtGetMemRsv m' 64 0 = (4096, 512)) smallMem := by
  refine (fdtAddMemRsv_reads smallTree_at ⟨by decide, by decide, by decide⟩).mono ?_
  rintro res m' ⟨-, ⟨rfl, hnum, hlast, -⟩ | ⟨-, hroom, -⟩, -⟩
  · exact ⟨rfl, hnum, hlast⟩
  · exact absurd hroom (by decide)

/-- **`fdt_increase_size` adds room at the end**: reservations, tree and the offsets of its nodes
stay, and so does memory outside the blob as it was. -/
theorem fdtIncreaseSize_tree {add : Nat} (h : DtAt m fdt total room rsv z o)
    (hlt : total + add < 2 ^ 31) (he : fdt + (total + add) ≤ 2 ^ 32) :
    wp (fdtIncreaseSize fdt add) (fun res m' => res = .ok () ∧ SameOutside m m' fdt total ∧
      DtAt m' fdt (total + add) (room + add) rsv z o) m :=
  DtSince.increaseSize ⟨SameOutside.rfl, h⟩ hlt he

theorem fdtIncreaseSize_tree_small : wp (fdtIncreaseSize 64 4096) (fun res m' => res = .ok () ∧
    DtAt m' 64 8721 8496 [] smallTree.root.loc 0) smallMem :=
  (fdtIncreaseSize_tree smallTree_at (by decide) (by decide)).mono fun _ _ ⟨hres, _, htree⟩ =>
    ⟨hres, htree⟩

/-- **`fdt_shrink_to_minimum` keeps the tree and ends the blob on a page boundary**; a reservation of
the blob itself is renewed with the new size, and room for four more is left. -/
theorem fdtShrinkToMinimum_tree {t : Dt} (h : DtAt m fdt total room t.rsv t.root.loc 0)
    (hfdt : 0 < fdt) (hr : 80 + 0xfff ≤ room) :
    wp (fdtShrinkToMinimum fdt 0) (fun res m' => ∃ size, res = .ok size ∧ size ≤ total ∧
      (fdt + size) % 0x1000 = 0 ∧ SameOutside m m' fdt total ∧
      DtAt m' fdt size 64 (t.shrink fdt size).rsv (t.shrink fdt size).root.loc 0) m := by
  refine (DtSince.shrink ⟨SameOutside.rfl, h⟩ hfdt hr).mono ?_
  rintro res m' ⟨size, hres, hle, hpage, hsame, htree⟩
  refine ⟨size, hres, hle, hpage, hsame, ?_⟩
  rw [Dt.shrink_rsv, Dt.shrink_root]
  exact htree

theorem fdtShrinkToMinimum_tree_small : wp (fdtShrinkToMinimum 64 0) (fun res m' => ∃ size,
    res = .ok size ∧ (64 + size) % 0x1000 = 0 ∧ DtAt m' 64 size 64 [] smallTree.root.loc 0)
    smallMem := by
  refine (fdtShrinkToMinimum_tree smallTree_at (by decide) (by decide)).mono ?_
  rintro res m' ⟨size, hres, -, hpage, -, htree⟩
  exact ⟨size, hres, hpage, htree⟩

end PBoot
