import PBoot.Fdt.Proof.Edit

/-!
# Editing the tree

The writing functions in terms of names and values: each does to the device tree in memory what the
edit of the same kind does to a tree, and changes nothing outside the blob. Where the blob has no
room, the tree stays as it is.

* `freeRoom` is the room that is left, `setpropRoom` and `nodeRoom` are what an edit needs: where there
  is as much it succeeds.
* `DtAt.setprop`, `DtAt.delprop`, `DtAt.addSubnode`: properties and nodes.
* `DtAt.addMemRsv`, `DtAt.delMemRsv`: reservations.
-/

namespace PBoot

open Bytes Progs Trees

variable {m : Mem} {fdt total room o : Nat} {rsv : Rsv} {z : DtLoc} {name : DtName}

/-! ## Strings that are put behind the others -/

section
variable {strings extra : List UInt8} {p : PropEntry}

theorem mem_drop_append {n : Nat} (h : 0 ∈ strings.drop n) : 0 ∈ (strings ++ extra).drop n := by
  rw [List.drop_append]
  exact List.mem_append_left _ h

theorem propView_append (h : 0 ∈ strings.drop p.nameoff) :
    propView (strings ++ extra) p = propView strings p := by
  obtain ⟨s, t, hs, h0⟩ := List.eq_append_cons_of_mem h
  rw [propView, propView, List.drop_append, hs, List.append_assoc, List.cons_append,
    cstr_of_nul h0, cstr_of_nul h0]

theorem locView_append {z : Loc NodeName PropEntry}
    (h : ∀ p ∈ z.top.allProps, 0 ∈ strings.drop p.nameoff) :
    locView (strings ++ extra) z = locView strings z :=
  Loc.map_congr fun p hp => propView_append (h p hp)

theorem StringAt.mem {i : Nat} {s : List UInt8} (h : StringAt strings i s) :
    0 ∈ strings.drop i := by
  obtain ⟨t, ht⟩ := h
  rw [ht]
  exact List.mem_append_right _ List.mem_cons_self

theorem StringAt.cstr {i : Nat} {s : List UInt8} (h : StringAt strings i s) (h0 : 0 ∉ s) :
    Bytes.cstr (strings.drop i) = s := by
  obtain ⟨t, ht⟩ := h
  rw [ht, cstr_of_nul h0]

end

/-! ## A blob after an edit -/

theorem DtAt.mono {room' : Nat} (h : DtAt m fdt total room rsv z o) (hr : room' ≤ room) :
    DtAt m fdt total room' rsv z o := by
  obtain ⟨b, zc, hat, hok, hrsv, hz, ho, hv, hroom, ht⟩ := h
  exact ⟨b, zc, hat, hok, hrsv, hz, ho, hv, by omega, ht⟩

/-- The struct of a blob around a node. -/
theorem Blob.struct_eq {b : Blob} {zc : Loc NodeName PropEntry} (hz : zc.top = b.root) :
    b.raw.struct = fdtCode.before zc.ctx ++ (fdtCode.node zc.node ++
      (fdtCode.after zc.ctx ++ b.tail)) := by
  change fdtCode.node b.root ++ b.tail = _
  rw [← hz, Code.node_top]
  simp only [List.append_assoc]

/-- **A blob whose tree and strings have been changed** describes the changed tree. -/
theorem dtAt_of_edit {b : Blob} {m' : Mem} {zc' : Loc NodeName PropEntry} {extra S : List UInt8}
    (hok : b.Ok) (hprops : ∀ p ∈ zc'.top.allProps,
      p ∈ b.root.allProps ∨ 0 ∈ (b.strings ++ extra).drop p.nameoff)
    (hS : fdtCode.node zc'.top ++ b.tail = S)
    (hat : ((b.raw.withStrings (b.strings ++ extra)).withStruct S).At m' fdt)
    (hroom : 0 < room →
      b.raw.used + extra.length + S.length + room ≤ b.total + b.raw.struct.length) :
    DtAt m' fdt b.total room b.rsv (locView (b.strings ++ extra) zc') (offsetOf zc') := by
  subst hS
  refine ⟨{ b with root := zc'.top, strings := b.strings ++ extra }, zc', hat,
    ⟨hok.rsvEnd, hok.rsv, ?_⟩, rfl, rfl, rfl, rfl, ?_, rfl⟩
  · intro p hp
    exact (hprops p hp).elim (fun h => mem_drop_append (hok.names p h)) id
  · have h1 := Raw.used_withStrings b.raw (b.strings ++ extra)
    have h2 := Raw.used_withStruct (b.raw.withStrings (b.strings ++ extra))
      (fdtCode.node zc'.top ++ b.tail)
    have h3 : (b.raw.withStrings (b.strings ++ extra)).struct.length = b.raw.struct.length := rfl
    have h4 : b.raw.strings.length = b.strings.length := rfl
    have h5 := hat.used_le
    change _ ≤ b.total at h5
    change ((b.raw.withStrings (b.strings ++ extra)).withStruct
      (fdtCode.node zc'.top ++ b.tail)).used + room ≤ b.total
    rw [List.length_append] at h1
    omega

/-- The room behind the blocks. -/
def freeRoom (m : Mem) (fdt : Nat) : Nat := fdtTotalsize m fdt - fdtDataSize m fdt

theorem Raw.At.freeRoom_add {r : Raw} (h : r.At m fdt) : freeRoom m fdt + r.used = r.total := by
  rw [freeRoom, h.totalsize, h.dataSize, Nat.sub_add_cancel h.used_le]

theorem DtAt.room_le (h : DtAt m fdt total room rsv z o) : room ≤ freeRoom m fdt := by
  obtain ⟨b, zc, hat, -, -, -, -, -, hroom, rfl⟩ := h
  have hfree : freeRoom m fdt + b.raw.used = b.total := hat.freeRoom_add
  omega

/-- How an edit that needs `k` bytes ends. -/
def Edited (m : Mem) (fdt total : Nat) (rsv : Rsv) (z : DtLoc) (o k : Nat)
    (z' : DtLoc) (res : Except FdtError Unit) (m' : Mem) : Prop :=
  SameOutside m m' fdt total ∧
    (res = .ok () ∧ k ≤ freeRoom m fdt ∧ DtAt m' fdt total (freeRoom m fdt - k) rsv z' o ∨
      res = .error .noSpace ∧ freeRoom m fdt < k ∧ DtAt m' fdt total 0 rsv z o)

theorem offsetOf_withProps (zc : Loc NodeName PropEntry) (ps : List (Option PropEntry)) :
    offsetOf (zc.withProps ps) = offsetOf zc := rfl

section
variable {zc : Loc NodeName PropEntry} {l r : List (Option PropEntry)}

/-- The structure block in front of a property of a node. -/
def beforeProp (zc : Loc NodeName PropEntry) (l : List (Option PropEntry)) : List UInt8 :=
  fdtCode.before zc.ctx ++ (fdtCode.head zc.node.name ++ fdtCode.props l)

/-- The structure block behind a property of a node. -/
def afterProp (zc : Loc NodeName PropEntry) (r : List (Option PropEntry)) (tail : List UInt8) :
    List UInt8 :=
  fdtCode.props r ++ (fdtCode.items zc.node.kids ++ (fdtCode.foot ++
    (fdtCode.after zc.ctx ++ tail)))

theorem struct_withProps (tail : List UInt8) :
    fdtCode.node (zc.withProps (l ++ r)).top ++ tail = beforeProp zc l ++ afterProp zc r tail := by
  rw [Code.node_top, Loc.withProps, Code.node, Code.props_append, beforeProp, afterProp]
  simp only [List.append_assoc]

theorem struct_withProp (p : PropEntry) (tail : List UInt8) :
    fdtCode.node (zc.withProps (l ++ some p :: r)).top ++ tail =
      beforeProp zc l ++ (fdtCode.prop p ++ afterProp zc r tail) := by
  rw [struct_withProps, afterProp, afterProp, Code.props_cons, Option.elim_some]
  simp only [List.append_assoc]

theorem Blob.struct_props {b : Blob} (hz : zc.top = b.root) (hl : zc.node.props = l ++ r) :
    b.raw.struct = beforeProp zc l ++ afterProp zc r b.tail := by
  rw [← struct_withProps, ← hl]
  change fdtCode.node b.root ++ b.tail = _
  rw [← hz]
  rfl

theorem Blob.struct_prop {b : Blob} {p : PropEntry} (hz : zc.top = b.root)
    (hl : zc.node.props = l ++ some p :: r) :
    b.raw.struct = beforeProp zc l ++ (fdtCode.prop p ++ afterProp zc r b.tail) := by
  rw [← struct_withProp, ← hl]
  change fdtCode.node b.root ++ b.tail = _
  rw [← hz]
  rfl

end

/-! ## Properties -/

/-- `fdt_get_property` at a node of a blob. -/
theorem Raw.At.getProperty {b : Blob} (h : b.raw.At m fdt) (hok : b.Ok)
    {zc : Loc NodeName PropEntry} (hz : zc.top = b.root) (h0 : 0 ∉ name) :
    fdtGetProperty m fdt (offsetOf zc) name =
      some (match splitProp (fun p => isNamed name (propView b.strings p)) zc.node.props with
        | some (l, _, _) => .ok (beforeProp zc l).length
        | none => .error .notFound) := by
  rw [getProperty_eq (offsetOf_mod zc) (fun o p hp hinp => h.stringEq hok hz h0 hp hinp)
    (h.inStruct hz)]
  simp only [beforeProp, List.length_append, Nat.add_assoc]
  rfl

/-- A property of a node is one of the tree. -/
theorem Blob.mem_of_props {b : Blob} {zc : Loc NodeName PropEntry} (hz : zc.top = b.root)
    {p : PropEntry} (hp : some p ∈ zc.node.props) :
    p ∈ b.root.allProps := by
  rw [← hz, Loc.allProps_top]
  exact List.mem_append_left _ (List.mem_append_right _ (mem_allProps.2 (.inl hp)))

/-- The view of a node with other properties, when strings have been added. -/
theorem locView_withProps {b : Blob} (hok : b.Ok) {zc : Loc NodeName PropEntry}
    (hz : zc.top = b.root) (extra : List UInt8) (ps : List (Option PropEntry)) :
    locView (b.strings ++ extra) (zc.withProps ps) =
      (locView b.strings zc).withProps (ps.map (·.map (propView (b.strings ++ extra)))) := by
  have hsame : locView (b.strings ++ extra) zc = locView b.strings zc :=
    locView_append fun p hp => hok.names p (hz ▸ hp)
  rw [← hsame]
  rfl

theorem view_props_append {b : Blob} (hok : b.Ok) {zc : Loc NodeName PropEntry}
    (hz : zc.top = b.root) (extra : List UInt8) {ps : List (Option PropEntry)}
    (hps : ∀ p, some p ∈ ps → some p ∈ zc.node.props) :
    ps.map (·.map (propView (b.strings ++ extra))) = ps.map (·.map (propView b.strings)) :=
  map_props_congr fun p hp => propView_append (hok.names p (Blob.mem_of_props hz (hps p hp)))

/-- The names of the properties when those of one node are other ones. -/
theorem names_withProps {b : Blob} {zc : Loc NodeName PropEntry} (hz : zc.top = b.root)
    {ps : List (Option PropEntry)} {P : PropEntry → Prop}
    (hps : ∀ p, some p ∈ ps → some p ∈ zc.node.props ∨ P p) :
    ∀ p ∈ (zc.withProps ps).top.allProps, p ∈ b.root.allProps ∨ P p := by
  intro p hp
  rcases mem_allProps_withProps hp with hp | hp
  · exact .inl (hz ▸ hp)
  · exact (hps p hp).imp_left (Blob.mem_of_props hz)

theorem get_locView (strings : List UInt8) (zc : Loc NodeName PropEntry) :
    (locView strings zc).get name =
      (splitProp (fun p => isNamed name (propView strings p)) zc.node.props).map (·.2.1.value) := by
  have hview : getProp (isNamed name) (locView strings zc).node.props =
      (getProp (fun p => isNamed name (propView strings p)) zc.node.props).map (propView strings) :=
    map_getProp (fun _ => rfl) zc.node.props
  rw [DtLoc.get, hview, getProp, Option.map_map, Option.map_map]
  rfl

/-- What `fdt_setprop` needs at most. -/
def propRoom (name : DtName) (val : List UInt8) : Nat :=
  name.length + 1 + (12 + tagAlign val.length)

/-- What `fdt_setprop` needs: as much as the value grows, or a new property. -/
def setpropRoom (m : Mem) (fdt : Nat) (z : DtLoc) (name : DtName) (val : List UInt8) : Nat :=
  match z.get name with
  | some old => tagAlign val.length - tagAlign old.length
  | none => stringRoom m fdt name + (12 + tagAlign val.length)

theorem setpropRoom_le (m : Mem) (fdt : Nat) (z : DtLoc) (name : DtName) (val : List UInt8) :
    setpropRoom m fdt z name val ≤ propRoom name val := by
  have := stringRoom_le m fdt name
  unfold setpropRoom propRoom
  split <;> omega

/-- A property that is there gets another value. -/
theorem DtAt.resizeProp {val old : List UInt8} (h : DtAt m fdt total room rsv z o) (h0 : 0 ∉ name)
    (hold : z.get name = some old) :
    wp (fdtSetprop fdt o name val) (Edited m fdt total rsv z o
      (tagAlign val.length - tagAlign old.length) (z.set name val)) m := by
  obtain ⟨b, zc, hat, hok, rfl, hz, rfl, rfl, hroom, rfl⟩ := h
  rw [get_locView] at hold
  obtain ⟨⟨l, p, r⟩, hs, rfl⟩ := Option.map_eq_some_iff.1 hold
  have hget := hat.getProperty hok hz h0
  have hview : splitProp (isNamed name) (locView b.strings zc).node.props =
      (splitProp (fun p => isNamed name (propView b.strings p)) zc.node.props).map fun s =>
        (s.1.map (·.map (propView b.strings)), propView b.strings s.2.1,
          s.2.2.map (·.map (propView b.strings))) := map_splitProp (fun _ => rfl) _
  rw [hs] at hget hview
  obtain ⟨x, hx, hprops, -⟩ := split_some hs
  obtain ⟨rfl, -⟩ := Option.filter_eq_some_iff.1 hx
  have hstruct := Blob.struct_prop hz hprops
  have hfree : freeRoom m fdt + b.raw.used = b.total := hat.freeRoom_add
  refine wp_bind (wp_bind (wp_attempt ((wp_resizeProperty hat hstruct hget).mono ?_)))
  rintro res m₁ ⟨hsame, ⟨rfl, hfits, Y, hY, hat₁⟩ | ⟨rfl, rfl, hnoroom⟩⟩
  swap
  · change b.total + _ < _ at hnoroom
    exact wp_throw ⟨hsame, .inr ⟨rfl, by dsimp only; omega, b, zc, hat, hok, rfl, hz, rfl, rfl,
      by omega, rfl⟩⟩
  change _ ≤ b.total + _ at hfits
  refine wp_pure (wp_change ?_)
  obtain ⟨e, he, hv, hat₂, hsame₂⟩ := hat₁.fillProp rfl hY p.nameoff_lt rfl
  refine ⟨hsame.trans hsame₂, .inl ⟨rfl, by dsimp only; omega, ?_⟩⟩
  have hset : setProp (isNamed name) (fun p => (p.1, val)) (name, val)
      (locView b.strings zc).node.props = (l ++ some e :: r).map (·.map (propView b.strings)) := by
    rw [setProp, hview]
    simp [propView, he, hv]
  have hloc : (locView b.strings zc).withProps (setProp (isNamed name) (fun p => (p.1, val))
      (name, val) (locView b.strings zc).node.props) =
        locView (b.strings ++ []) (zc.withProps (l ++ some e :: r)) := by
    rw [hset, locView_withProps hok hz, List.append_nil]
  rw [DtLoc.set, hloc]
  refine dtAt_of_edit hok (names_withProps hz fun p' hp' => ?_) (struct_withProp e b.tail)
    (by rw [List.append_nil]; exact hat₂) fun _ => ?_
  · rw [hprops]
    rcases List.mem_append.1 hp' with hp' | hp'
    · exact .inl (List.mem_append_left _ hp')
    rcases List.mem_cons.1 hp' with hp' | hp'
    · obtain rfl := Option.some.inj hp'
      right
      rw [he, List.append_nil]
      exact hok.names p (Blob.mem_of_props hz (by rw [hprops]; simp))
    · exact .inl (List.mem_append_right _ (List.mem_cons_of_mem _ hp'))
  · rw [hstruct]
    simp only [List.length_append, List.length_nil, length_prop, hv]
    omega

/-- A property that is not there is added in front of the others. -/
theorem DtAt.addProp {val : List UInt8} (h : DtAt m fdt total room rsv z o) (h0 : 0 ∉ name)
    (hnone : z.get name = none) :
    wp (fdtSetprop fdt o name val) (Edited m fdt total rsv z o
      (stringRoom m fdt name + (12 + tagAlign val.length)) (z.set name val)) m := by
  obtain ⟨b, zc, hat, hok, rfl, hz, rfl, rfl, hroom, rfl⟩ := h
  rw [get_locView, Option.map_eq_none_iff] at hnone
  have hget := hat.getProperty hok hz h0
  have hview : splitProp (isNamed name) (locView b.strings zc).node.props = none :=
    (map_splitProp (fun _ => rfl) _).trans (congrArg (Option.map _) hnone)
  rw [hnone] at hget
  have hstruct := Blob.struct_props (l := []) (r := zc.node.props) hz rfl
  have hnode : fdtCheckNodeOffset m fdt (offsetOf zc) = some (.ok (beforeProp zc []).length) := by
    rw [checkNodeOffset_eq (offsetOf_mod zc) (hat.inStruct hz).node.1, beforeProp]
    simp only [Code.props_nil, List.append_nil, List.length_append, offsetOf]
  have hfree : freeRoom m fdt + b.raw.used = b.total := hat.freeRoom_add
  refine wp_bind (wp_bind (wp_attempt (wp_bind (wp_reads hget ?_))))
  refine wp_bind ((wp_addProperty hat hstruct hnode).mono ?_)
  rintro res m₁ ⟨hsame, extra,
    ⟨rfl, hfits, hextra, nameoff, hlt, hstr, Y, hY, hat₁⟩ | ⟨rfl, hat₁, hno⟩⟩
  swap
  · change b.total < _ at hno
    have hview₁ : locView (b.strings ++ extra) zc = locView b.strings zc :=
      locView_append fun p hp => hok.names p (hz ▸ hp)
    refine ⟨hsame, .inr ⟨rfl, by omega, ?_⟩⟩
    rw [← hview₁]
    refine dtAt_of_edit hok (fun p hp => .inl (hz ▸ hp)) rfl ?_ (fun hpos => absurd hpos (by omega))
    rw [hz]
    exact hat₁
  change _ ≤ b.total at hfits
  refine wp_pure (wp_change ?_)
  obtain ⟨e, he, hv, hat₂, hsame₂⟩ := hat₁.fillProp rfl hY hlt rfl
  refine ⟨hsame.trans hsame₂, .inl ⟨rfl, by omega, ?_⟩⟩
  have hnew : propView (b.strings ++ extra) e = (name, val) := by
    rw [propView, he, hv]
    exact congrArg (·, val) (hstr.cstr h0)
  have hset : setProp (isNamed name) (fun p => (p.1, val)) (name, val)
      (locView b.strings zc).node.props =
        (some e :: zc.node.props).map (·.map (propView (b.strings ++ extra))) := by
    rw [setProp, hview, List.map_cons, view_props_append hok hz extra fun _ hp => hp,
      Option.map_some, hnew]
    rfl
  rw [DtLoc.set, hset, ← locView_withProps hok hz]
  have hS : fdtCode.node (zc.withProps (some e :: zc.node.props)).top ++ b.tail =
      beforeProp zc [] ++ (fdtCode.prop e ++ afterProp zc zc.node.props b.tail) :=
    struct_withProp (l := []) e b.tail
  rw [Raw.withStruct_withStruct] at hat₂
  rw [← offsetOf_withProps zc (some e :: zc.node.props)]
  refine dtAt_of_edit hok (names_withProps hz fun p' hp' => ?_) hS hat₂ fun _ => ?_
  · rcases List.mem_cons.1 hp' with hp' | hp'
    · obtain rfl := Option.some.inj hp'
      right
      rw [he]
      exact hstr.mem
    · exact .inl hp'
  · rw [hstruct]
    simp only [List.length_append, length_prop, hv]
    omega

/-- **`fdt_setprop` sets a property** if there is room for it, and else leaves the tree as it is. -/
theorem DtAt.setprop (h : DtAt m fdt total room rsv z o) (h0 : 0 ∉ name) (val : List UInt8) :
    wp (fdtSetprop fdt o name val) (Edited m fdt total rsv z o (setpropRoom m fdt z name val)
      (z.set name val)) m := by
  unfold setpropRoom
  cases hold : z.get name with
  | some old => exact h.resizeProp h0 hold
  | none => exact h.addProp h0 hold

/-- An edit of the tree alone. -/
theorem dtAt_of_struct {b : Blob} {m' : Mem} {zc' : Loc NodeName PropEntry} {S : List UInt8}
    (hok : b.Ok) (hprops : ∀ p ∈ zc'.top.allProps,  p ∈ b.root.allProps)
    (hS : fdtCode.node zc'.top ++ b.tail = S) (hat : (b.raw.withStruct S).At m' fdt)
    (hroom : 0 < room → b.raw.used + S.length + room ≤ b.total + b.raw.struct.length) :
    DtAt m' fdt b.total room b.rsv (locView b.strings zc') (offsetOf zc') := by
  have hat' : ((b.raw.withStrings (b.strings ++ [])).withStruct S).At m' fdt := by
    rwa [List.append_nil]
  have h := dtAt_of_edit hok (fun p hp => .inl (hprops p hp)) hS hat' fun hpos =>
    (by rw [List.length_nil]; exact hroom hpos : _ + _ + room ≤ _)
  rwa [List.append_nil] at h

/-- **`fdt_delprop` deletes a property.** -/
theorem DtAt.delprop (h : DtAt m fdt total room rsv z o) (h0 : 0 ∉ name) :
    wp (fdtDelprop fdt o name) (fun _ m' => SameOutside m m' fdt total ∧
      DtAt m' fdt total room rsv (z.del name) o) m := by
  obtain ⟨b, zc, hat, hok, rfl, hz, rfl, rfl, hroom, rfl⟩ := h
  have hget := hat.getProperty hok hz h0
  have hdel : delProp (isNamed name) (locView b.strings zc).node.props =
      (delProp (fun p => isNamed name (propView b.strings p)) zc.node.props).map
        (·.map (propView b.strings)) := (map_delProp (fun _ => rfl) _).symm
  rw [DtLoc.del, hdel]
  cases hs : splitProp (fun p => isNamed name (propView b.strings p)) zc.node.props with
  | none =>
    rw [hs] at hget
    refine wp_bind (wp_reads hget ⟨SameOutside.rfl, b, zc, hat, hok, rfl, hz, rfl, ?_, hroom, rfl⟩)
    rw [delProp, hs]
    rfl
  | some t =>
    obtain ⟨l, p, r⟩ := t
    rw [hs] at hget
    obtain ⟨x, hx, hprops, -⟩ := split_some hs
    obtain ⟨rfl, -⟩ := Option.filter_eq_some_iff.1 hx
    have hstruct := Blob.struct_prop hz hprops
    refine (wp_delprop hat hstruct hget).mono ?_
    rintro _ m' ⟨rfl, hsame, hat'⟩
    refine ⟨hsame, ?_⟩
    rw [delProp, hs]
    dsimp only
    have hS : fdtCode.node (zc.withProps (l ++ r)).top ++ b.tail =
        beforeProp zc l ++ afterProp zc r b.tail := struct_withProps b.tail
    rw [← offsetOf_withProps zc (l ++ r)]
    refine dtAt_of_struct hok (fun p' hp' => (or_false _).mp (names_withProps hz (P := fun _ => False)
      (fun p' hp' => .inl ?_) p' hp')) hS hat' ?_
    · rw [hprops]
      exact (List.mem_append.1 hp').elim (List.mem_append_left _) fun h =>
        List.mem_append_right _ (List.mem_cons_of_mem _ h)
    · intro _
      rw [hstruct]
      simp only [List.length_append]
      omega

/-! ## Nodes -/

/-- What `fdt_add_subnode` needs. -/
def nodeRoom (name : DtName) : Nat := 8 + tagAlign (name.length + 1)

/-- **`fdt_add_subnode` adds a node in front of the others** if there is room for it, and else changes
nothing. -/
theorem DtAt.addSubnode (h : DtAt m fdt total room rsv z o) (h0 : 0 ∉ name)
    (hd : z.down (nameMatches name) = none) :
    wp (fdtAddSubnode fdt o name) (fun res m' => SameOutside m m' fdt total ∧
      ((∃ o', res = .ok o' ∧ nodeRoom name ≤ freeRoom m fdt ∧
          DtAt m' fdt total (freeRoom m fdt - nodeRoom name) rsv (z.addKid name) o') ∨
        res = .error .noSpace ∧ freeRoom m fdt < nodeRoom name ∧ m' = m)) m := by
  have hnone := h.subnode_none h0 hd
  obtain ⟨b, zc, hat, hok, rfl, hz, rfl, rfl, hroom, rfl⟩ := h
  have hnew := newNodeOffset_eq (newName name h0) (hat.inStruct hz)
  have hstruct : b.raw.struct = fdtCode.before (zc.addKid (newName name h0)).ctx ++
      (fdtCode.after (zc.addKid (newName name h0)).ctx ++ b.tail) := by
    change fdtCode.node b.root ++ b.tail = _
    rw [← hz, fdtCode.node_top_addKid zc (newName name h0), List.append_assoc]
  refine (wp_addSubnodeAt hat h0 hstruct hnone hnew).mono ?_
  have hfree : freeRoom m fdt + b.raw.used = b.total := hat.freeRoom_add
  rintro res m' ⟨hsame, ⟨rfl, hfits, hat'⟩ | ⟨rfl, rfl, hno⟩⟩
  swap
  · change b.total < _ at hno
    exact ⟨hsame, .inr ⟨rfl, by unfold nodeRoom; omega, rfl⟩⟩
  change _ ≤ b.total at hfits
  have hneed : nodeRoom name ≤ freeRoom m fdt := by
    unfold nodeRoom
    omega
  refine ⟨hsame, .inl ⟨_, rfl, hneed, ?_⟩⟩
  have hview : (locView b.strings zc).addKid name =
      locView b.strings (zc.addKid (newName name h0)) := (Loc.map_addKid (newName name h0) zc).symm
  have hS : fdtCode.node (zc.addKid (newName name h0)).top ++ b.tail =
      fdtCode.before (zc.addKid (newName name h0)).ctx ++
        (fdtCode.node ⟨newName name h0, [], []⟩ ++
          (fdtCode.after (zc.addKid (newName name h0)).ctx ++ b.tail)) := by
    rw [Code.node_top]
    simp only [Loc.addKid, List.append_assoc]
  have hlen : (fdtCode.node ⟨newName name h0, [], []⟩).length = nodeRoom name := by
    rw [Code.node, Code.props_nil, Code.items_nil, List.append_nil, List.append_nil,
      List.length_append, length_head, length_foot]
    change 4 + tagAlign (name.length + 1) + 4 = 8 + tagAlign (name.length + 1)
    omega
  rw [hview]
  refine dtAt_of_struct hok (fun p hp => hz ▸ mem_allProps_addKid hp) hS hat' fun hpos => ?_
  rw [hstruct]
  simp only [List.length_append, hlen]
  omega

/-! ## Reservations -/

/-- The same tree with other reservations. -/
theorem dtAt_of_rsv {b : Blob} {m' : Mem} {zc : Loc NodeName PropEntry} {rsv' : Rsv} (hok : b.Ok)
    (hz : zc.top = b.root) (hrsv : ∀ e ∈ rsv', rsvFits e)
    (hat : (b.raw.withRsv (rsvBytes rsv' ++ (b.rsvEnd ++ be64 0))).At m' fdt)
    (hroom : b.raw.used + 16 * rsv'.length + room ≤ b.total + 16 * b.rsv.length) :
    DtAt m' fdt b.total room rsv' (locView b.strings zc) (offsetOf zc) := by
  refine ⟨{ b with rsv := rsv' }, zc, hat, ⟨hok.rsvEnd, hrsv, hok.names⟩, rfl, hz, rfl, rfl, ?_, rfl⟩
  have h1 := Raw.used_withRsv b.raw (rsvBytes rsv' ++ (b.rsvEnd ++ be64 0))
  have h2 : b.raw.rsv.length = 16 * b.rsv.length + (b.rsvEnd ++ be64 0).length := by
    rw [← length_rsvBytes]
    exact List.length_append
  rw [List.length_append, length_rsvBytes] at h1
  change (b.raw.withRsv (rsvBytes rsv' ++ (b.rsvEnd ++ be64 0))).used + room ≤ b.total
  omega

theorem rsvBytes_append (rsv rsv' : Rsv) : rsvBytes (rsv ++ rsv') = rsvBytes rsv ++ rsvBytes rsv' :=
  List.flatMap_append

theorem Raw.At.memRsvAddr {b : Blob} (h : b.raw.At m fdt) (i : Nat) :
    PBoot.memRsvAddr m fdt i = fdt + b.raw.offRsv + 16 * i := by
  have hoff : fdtOffMemRsvmap m fdt = b.raw.offRsv := h.offMemRsvmap
  rw [PBoot.memRsvAddr, hoff]

/-- **`fdt_add_mem_rsv` adds a reservation behind the others**, or fails for want of room and
changes nothing. -/
theorem DtAt.addMemRsv {address size : Nat} (h : DtAt m fdt total room rsv z o)
    (hfits : rsvFits (address, size)) :
    wp (fdtAddMemRsv fdt address size) (fun res m' => SameOutside m m' fdt total ∧
      ((res = .ok () ∧ DtAt m' fdt total (room - 16) (rsv ++ [(address, size)]) z o) ∨
        res = .error .noSpace ∧ room < 16 ∧ DtAt m' fdt total room rsv z o)) m := by
  have hnum := h.numMemRsv
  obtain ⟨b, zc, hat, hok, rfl, hz, rfl, rfl, hroom, rfl⟩ := h
  have hrsv : b.raw.rsv = rsvBytes b.rsv ++ ([] ++ (b.rsvEnd ++ be64 0)) := rfl
  refine wp_bind (wp_reads (by rw [hnum]; rfl) ?_)
  refine wp_bind (wp_look ?_)
  dsimp only
  rw [hat.memRsvAddr]
  refine wp_bind ((wp_spliceMemRsv hat hrsv (by rw [length_rsvBytes]) rfl).mono fun res m₁ hres => ?_)
  split at hres
  swap
  · rename_i hno
    obtain ⟨rfl, rfl⟩ := hres
    refine ⟨SameOutside.rfl, .inr ⟨rfl, ?_, b, zc, hat, hok, rfl, hz, rfl, rfl, hroom, rfl⟩⟩
    change ¬_ ≤ b.total + _ at hno
    omega
  rename_i hyes
  change _ ≤ b.total + _ at hyes
  obtain ⟨rfl, hsame, Y, hY, hat₁⟩ := hres
  obtain ⟨Y₀, Y₁, rfl, h₀, h₁⟩ := exists_append 8 8 hY
  refine wp_bind (wp_change (wp_change ?_))
  obtain ⟨hat₂, hsame₂⟩ := hat₁.store_rsv (Y := be64 address) (A := rsvBytes b.rsv) (X := Y₀)
    (B := Y₁ ++ (b.rsvEnd ++ be64 0)) (p := fdt + b.raw.offRsv + 16 * b.rsv.length)
    (by
      change rsvBytes b.rsv ++ (Y₀ ++ Y₁ ++ (b.rsvEnd ++ be64 0)) = _
      simp only [List.append_assoc])
    h₀.symm (by rw [length_rsvBytes]; rfl)
  obtain ⟨hat₃, hsame₃⟩ := hat₂.store_rsv (Y := be64 size) (A := rsvBytes b.rsv ++ be64 address)
    (X := Y₁) (B := b.rsvEnd ++ be64 0) (p := fdt + b.raw.offRsv + 16 * b.rsv.length + 8)
    (by
      change rsvBytes b.rsv ++ (be64 address ++ (Y₁ ++ (b.rsvEnd ++ be64 0))) = _
      simp only [List.append_assoc])
    h₁.symm (by rw [List.length_append, length_rsvBytes, length_be64]; exact Nat.add_assoc _ _ _)
  refine ⟨(hsame.trans hsame₂).trans hsame₃, .inl ⟨rfl, dtAt_of_rsv hok hz ?_ ?_ ?_⟩⟩
  · intro e he
    rcases List.mem_append.1 he with he | he
    · exact hok.rsv e he
    · rw [List.mem_singleton.1 he]
      exact hfits
  · have hbytes : rsvBytes (b.rsv ++ [(address, size)]) ++ (b.rsvEnd ++ be64 0) =
        rsvBytes b.rsv ++ be64 address ++ (be64 size ++ (b.rsvEnd ++ be64 0)) := by
      rw [rsvBytes_append, rsvBytes, rsvBytes, List.flatMap_cons, List.flatMap_nil, rsvEntry]
      simp only [List.append_assoc, List.nil_append]
    rw [hbytes]
    exact hat₃
  · rw [List.length_append, List.length_singleton]
    omega

/-- **`fdt_del_mem_rsv` deletes a reservation.** -/
theorem DtAt.delMemRsv {i : Nat} (h : DtAt m fdt total room rsv z o) (hi : i < rsv.length) :
    wp (fdtDelMemRsv fdt i) (fun res m' => res = .ok () ∧ SameOutside m m' fdt total ∧
      DtAt m' fdt total room (rsv.eraseIdx i) z o) m := by
  have hnum := h.numMemRsv
  obtain ⟨b, zc, hat, hok, rfl, hz, rfl, rfl, hroom, rfl⟩ := h
  have hsplit : b.rsv = b.rsv.take i ++ ([b.rsv[i]] ++ b.rsv.drop (i + 1)) := by
    rw [List.singleton_append, ← List.drop_eq_getElem_cons hi, List.take_append_drop]
  have hrsv : b.raw.rsv = rsvBytes (b.rsv.take i) ++ (rsvBytes [b.rsv[i]] ++
      (rsvBytes (b.rsv.drop (i + 1)) ++ (b.rsvEnd ++ be64 0))) := by
    change rsvBytes b.rsv ++ _ = _
    conv_lhs => rw [hsplit, rsvBytes_append, rsvBytes_append]
    simp only [List.append_assoc]
  have htake : (b.rsv.take i).length = i := by
    rw [List.length_take]
    omega
  refine wp_bind (wp_look ?_)
  refine wp_bind (wp_reads (by rw [hnum]; rfl) ?_)
  dsimp only
  rw [if_neg (by omega), hat.memRsvAddr]
  have hcut := wp_spliceMemRsv (n := 0) (k := 1) hat hrsv (by rw [length_rsvBytes, htake])
    (length_rsvBytes _)
  refine hcut.mono fun res m' hres => ?_
  rw [if_pos (by have := hat.used_le; omega)] at hres
  obtain ⟨rfl, hsame, Y, hY, hat'⟩ := hres
  obtain rfl := List.eq_nil_of_length_eq_zero hY
  refine ⟨rfl, hsame, dtAt_of_rsv hok hz (fun e he => hok.rsv e (List.mem_of_mem_eraseIdx he)) ?_ ?_⟩
  · rw [List.eraseIdx_eq_take_drop_succ, rsvBytes_append, List.append_assoc]
    exact hat'
  · have := List.length_eraseIdx_of_lt hi
    omega

end PBoot
