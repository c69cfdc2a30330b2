import PBoot.Fdt.Proof.Tags
import PBoot.Fdt.Spec

/-!
# Walks over nodes and properties

* `walk_items`: a walk goes through whole subtrees that hold nothing it looks for.
* `subnodeOffset_eq`: `fdt_subnode_offset` finds the first subnode whose name matches.
* `nodeEndOffset_eq`: `fdt_node_end_offset_` is behind the node.
* `getProperty_eq`: `fdt_get_property` finds the first property of a name.
* `newNodeOffset_eq`: a new subnode is put behind the properties and gaps.
-/

namespace PBoot

open Bytes Trees

theorem fdtCode_dvd : fdtCode.Dvd 4 where
  head n := by
    rw [length_head]
    exact Nat.dvd_of_mod_eq_zero (by have := tagAlign_mod (n.name.length + 1); omega)
  prop p := by
    rw [length_prop]
    exact Nat.dvd_of_mod_eq_zero (by have := tagAlign_mod p.value.length; omega)
  gap := Nat.dvd_refl 4
  foot := Nat.dvd_refl 4

/-! ## Nodes -/

section
variable {m : Mem} {fdt o : Nat} {hit : Nat → Int → Bool} {d : Int}

/-- What a walk does at the next node. -/
def visitFrom (m : Mem) (fdt : Nat) (hit : Nat → Int → Bool) : Except FdtError Nat × Int → Option Visit
  | (.error e, d) => some (.exit_ (.error e) d)
  | (.ok o, d) => if d < 0 then some (.exit_ (.ok o) d) else visitNodes m fdt hit o d

/-- A walk from an offset within a node on. -/
def walk (m : Mem) (fdt : Nat) (hit : Nat → Int → Bool) (o : Nat) (d : Int) : Option Visit :=
  (nextNodeFrom m fdt o d).bind (visitFrom m fdt hit)

theorem visitNodes_eq (m : Mem) (fdt : Nat) (hit : Nat → Int → Bool) (o : Nat) (d : Int) :
    visitNodes m fdt hit o d = if hit o d then some (.hit o)
      else (fdtNextNode m fdt o d).bind (visitFrom m fdt hit) := by
  rw [visitNodes]
  split
  · rfl
  · split <;> simp [*, visitFrom]

theorem checkNodeOffset_eq (ho : o % 4 = 0) {n : NodeName} (h : InStruct m fdt o (fdtCode.head n)) :
    fdtCheckNodeOffset m fdt o = some (.ok (o + (fdtCode.head n).length)) := by
  rw [fdtCheckNodeOffset, if_neg (by rw [fdtTagsize]; omega), nextTag_head ho h]
  rfl

/-- Into a node that is not looked for. -/
theorem visitNodes_head (ho : o % 4 = 0) {n : NodeName} (h : InStruct m fdt o (fdtCode.head n))
    (hh : hit o d = false) :
    visitNodes m fdt hit o d = walk m fdt hit (o + (fdtCode.head n).length) d := by
  rw [visitNodes_eq, hh, if_neg (by decide), fdtNextNode, checkNodeOffset_eq ho h]
  rfl

theorem walk_skip {tag next : Nat} (h : fdtNextTag m fdt o = some (.tag tag next))
    (ht : tag = fdtProp ∨ tag = fdtNop) : walk m fdt hit o d = walk m fdt hit next d := by
  rw [walk, nextNodeFrom_eq, h, Option.bind_some]
  dsimp only
  rw [if_pos ht, walk]

theorem walk_head (ho : o % 4 = 0) {n : NodeName} (h : InStruct m fdt o (fdtCode.head n))
    (hd : 0 ≤ d) : walk m fdt hit o d = visitNodes m fdt hit o (d + 1) := by
  rw [walk, nextNodeFrom_eq, nextTag_head ho h, Option.bind_some]
  dsimp only
  rw [if_neg (by decide), if_pos rfl, Option.bind_some, visitFrom, if_neg (by omega)]

theorem walk_foot (ho : o % 4 = 0) (h : InStruct m fdt o fdtCode.foot) :
    walk m fdt hit o d = if d - 1 < 0 then some (.exit_ (.ok (o + 4)) (d - 1))
      else walk m fdt hit (o + 4) (d - 1) := by
  rw [walk, nextNodeFrom_eq, nextTag_foot ho h, Option.bind_some]
  dsimp only
  rw [if_neg (by decide), if_neg (by decide), if_pos rfl]
  split
  · rename_i hd
    rw [Option.bind_some, visitFrom, if_pos hd]
  · rfl

theorem walk_props (ho : o % 4 = 0) {ps : List (Option PropEntry)}
    (h : InStruct m fdt o (fdtCode.props ps)) :
    walk m fdt hit o d = walk m fdt hit (o + (fdtCode.props ps).length) d := by
  induction ps generalizing o with
  | nil => rfl
  | cons p ps ih =>
    rw [Code.props_cons] at h ⊢
    rw [List.length_append, ← Nat.add_assoc]
    cases p with
    | none =>
      rw [walk_skip (nextTag_gap ho h.left) (.inr rfl)]
      exact ih (by rw [Nat.add_mod, ho]) h.right
    | some p =>
      rw [walk_skip (nextTag_prop ho h.left) (.inl rfl)]
      exact ih (by have := fdtCode_dvd.prop p; omega) h.right

/-- **A walk goes through subtrees that hold nothing it looks for.** -/
theorem walk_items (ho : o % 4 = 0) (hd : 0 ≤ d) (hh : ∀ o' d', d < d' → hit o' d' = false)
    {xs : List (Item NodeName PropEntry)} (h : InStruct m fdt o (fdtCode.items xs)) :
    walk m fdt hit o d = walk m fdt hit (o + (fdtCode.items xs).length) d := by
  induction xs using items_induct generalizing o d with
  | nil => simp
  | gap xs ih =>
    rw [Code.items_cons, Code.item_gap] at h ⊢
    rw [List.length_append, ← Nat.add_assoc, walk_skip (nextTag_gap ho h.left) (.inr rfl)]
    exact ih (by rw [Nat.add_mod, ho]) hd hh h.right
  | node name props kids xs ihk ih =>
    rw [Code.items_cons, Code.item] at h ⊢
    have hfoot := h.left.right
    have hkids := h.left.left.right
    have hprops := h.left.left.left.right
    have hhead := h.left.left.left.left
    have h4 := fdtCode_dvd.head name
    have h4p := fdtCode_dvd.props props
    have h4k := fdtCode_dvd.items kids
    simp only [List.length_append, length_foot, ← Nat.add_assoc] at hfoot hkids ⊢
    rw [walk_head ho hhead hd, visitNodes_head ho hhead (hh o (d + 1) (by omega)),
      walk_props (by omega) hprops, ihk (by omega) (by omega) (fun o' d' hd' => hh o' d' (by omega))
        hkids, walk_foot (by omega) hfoot, if_neg (by omega), Int.add_sub_cancel]
    have hxs := h.right
    simp only [List.length_append, length_foot, ← Nat.add_assoc] at hxs
    exact ih (by omega) hd hh hxs

/-- A subnode and what is behind it. -/
theorem InStruct.kid {n : Node NodeName PropEntry} {xs : List (Item NodeName PropEntry)}
    (h : InStruct m fdt o (fdtCode.items (n.toItem :: xs))) :
    InStruct m fdt o (fdtCode.node n) ∧
      InStruct m fdt (o + (fdtCode.node n).length) (fdtCode.items xs) := by
  rw [Code.items_cons, Code.item_toItem] at h
  exact ⟨h.left, h.right⟩

/-- The parts of a node. -/
theorem InStruct.node {n : Node NodeName PropEntry} (h : InStruct m fdt o (fdtCode.node n)) :
    InStruct m fdt o (fdtCode.head n.name) ∧
      InStruct m fdt (o + (fdtCode.head n.name).length) (fdtCode.props n.props) ∧
      InStruct m fdt (o + (fdtCode.head n.name).length + (fdtCode.props n.props).length)
        (fdtCode.items n.kids) ∧
      InStruct m fdt (o + (fdtCode.head n.name).length + (fdtCode.props n.props).length +
        (fdtCode.items n.kids).length) fdtCode.foot := by
  rw [Code.node] at h
  have hkids := h.left.right
  have hfoot := h.right
  simp only [List.length_append, ← Nat.add_assoc] at hkids hfoot
  exact ⟨h.left.left.left, h.left.left.right, hkids, hfoot⟩

/-- Through a subnode that is not looked for. -/
theorem walk_kid (ho : o % 4 = 0) {n : Node NodeName PropEntry}
    (hh : ∀ o' d', 1 < d' → hit o' d' = false) (h : InStruct m fdt o (fdtCode.node n))
    (hn : hit o 1 = false) : walk m fdt hit o 0 = walk m fdt hit (o + (fdtCode.node n).length) 0 := by
  obtain ⟨hhead, hprops, hkids, hfoot⟩ := h.node
  have h4 := fdtCode_dvd.head n.name
  have h4p := fdtCode_dvd.props n.props
  have h4k := fdtCode_dvd.items n.kids
  rw [walk_head ho hhead (by omega), Int.zero_add, visitNodes_head ho hhead hn,
    walk_props (by omega) hprops, walk_items (by omega) (by decide) hh hkids,
    walk_foot (by omega) hfoot, if_neg (by decide), Int.sub_self]
  simp only [Code.node, List.length_append, length_foot, Nat.add_assoc]

/-- To the first subnode that is looked for. -/
theorem walk_find (ho : o % 4 = 0) {test : Nat → Bool} {q : NodeName → Bool}
    (hh : ∀ o d, hit o d = (d == 1 && test o))
    (ht : ∀ o n, InStruct m fdt o (fdtCode.head n) → test o = q n)
    {xs : List (Item NodeName PropEntry)} (h : InStruct m fdt o (fdtCode.items xs)) :
    walk m fdt hit o 0 =
      match split (fun x => x.node?.filter fun n => q n.name) xs with
      | some (l, _, _) => some (.hit (o + (fdtCode.items l).length))
      | none => walk m fdt hit (o + (fdtCode.items xs).length) 0 := by
  have hdeep : ∀ o' (d' : Int), 1 < d' → hit o' d' = false := fun o' d' hd => by
    rw [hh, beq_false_of_ne (by omega), Bool.false_and]
  induction xs generalizing o with
  | nil => simp [split]
  | cons x xs ih =>
    rcases hx : x.node? with _ | n
    · cases x with
      | node _ _ _ => cases hx
      | gap =>
        rw [Code.items_cons, Code.item_gap] at h ⊢
        have hxs : InStruct m fdt (o + 4) (fdtCode.items xs) := h.right
        rw [split_cons_none rfl, walk_skip (nextTag_gap ho h.left) (.inr rfl),
          ih (by rw [Nat.add_mod, ho]) hxs, List.length_append, ← Nat.add_assoc, length_gap]
        cases split (fun x => x.node?.filter fun n => q n.name) xs with
        | none => rfl
        | some s => simp [Nat.add_assoc]
    · obtain rfl := Item.node?_some hx
      obtain ⟨hn, hxs⟩ := h.kid
      have htest := ht o n.name hn.node.1
      have h4 := fdtCode_dvd.node n
      cases hq : q n.name with
      | true =>
        rw [split_cons_some (b := n) (by simp [Node.toItem, Item.node?, hq]),
          walk_head ho hn.node.1 (by omega), visitNodes_eq, Int.zero_add, hh, htest, hq]
        simp
      | false =>
        rw [split_cons_none (by simp [Node.toItem, Item.node?, hq]),
          walk_kid ho hdeep hn (by rw [hh, htest, hq]; rfl), ih (by omega) hxs]
        cases split (fun x => x.node?.filter fun n => q n.name) xs with
        | none => simp [Nat.add_assoc]
        | some s => simp [Nat.add_assoc]

theorem nodeEndOffset_eq (ho : o % 4 = 0) {n : Node NodeName PropEntry}
    (h : InStruct m fdt o (fdtCode.node n)) :
    fdtNodeEndOffset m fdt o = some (.ok (o + (fdtCode.node n).length)) := by
  obtain ⟨hhead, hprops, hkids, hfoot⟩ := h.node
  have h4 := fdtCode_dvd.head n.name
  have h4p := fdtCode_dvd.props n.props
  have h4k := fdtCode_dvd.items n.kids
  rw [fdtNodeEndOffset, visitNodes_head ho hhead rfl, walk_props (by omega) hprops,
    walk_items (by omega) (by decide) (fun _ _ _ => rfl) hkids, walk_foot (by omega) hfoot,
    if_pos (by decide)]
  simp only [Option.map_some, Code.node, List.length_append, length_foot, Nat.add_assoc]

/-! ## Names -/

theorem prefix_of_holds {a : Nat} {s name pad : List UInt8} (h0 : 0 ∉ s) (hs : HoldsAt m a s)
    (h : HoldsAt m a (name ++ 0 :: pad)) : s <+: name := by
  rcases Nat.lt_or_ge name.length s.length with hlt | hge
  · have h1 : m (a + name.length) = s[name.length] := hs.at hlt
    have h2 : m (a + name.length) = 0 := (holds_cons.1 h.right).1
    exact absurd (h2 ▸ h1 ▸ List.getElem_mem hlt) h0
  · refine ⟨name.drop s.length, ?_⟩
    have htake : s = name.take s.length := by
      refine List.ext_getElem (by simp [hge]) fun k hk _ => ?_
      rw [List.getElem_take, ← hs.at hk, h.left.at (by omega)]
    rw [htake, List.length_take, Nat.min_eq_left hge, List.take_append_drop]

theorem nodenameEq_eq {n : NodeName} {s : List UInt8} (h0 : 0 ∉ s)
    (h : InStruct m fdt o (fdtCode.head n)) : fdtNodenameEq m fdt o s = nameMatches s n.name := by
  have hname : HoldsAt m (fdt + fdtOffDtStruct m fdt + o + 4) (n.name ++ 0 :: n.pad) := h.holds.right
  unfold fdtNodenameEq nameMatches
  dsimp only [fdtTagsize]
  by_cases hp : s <+: n.name
  · obtain ⟨t, ht⟩ := hp
    rw [← ht, List.append_assoc] at hname
    have hread : read m (fdt + fdtOffDtStruct m fdt + o + 4) s.length = s := hname.left
    have hnext := hname.right
    rw [hread, ← ht, List.isPrefixOf_iff_prefix.2 (List.prefix_append s t), beq_self_eq_true]
    cases t with
    | nil =>
      have hb := (holds_cons.1 hnext).1
      simp [hb]
    | cons b t =>
      have hb := (holds_cons.1 hnext).1
      have hne : (b == 0) = false := beq_false_of_ne fun hb0 => n.noNul (by rw [← ht, hb0]; simp)
      simp [hb, hne]
  · have hread : ¬read m (fdt + fdtOffDtStruct m fdt + o + 4) s.length = s :=
      fun hr => hp (prefix_of_holds h0 hr hname)
    rw [beq_false_of_ne hread, Bool.eq_false_iff.2 fun hi => hp (List.isPrefixOf_iff_prefix.1 hi)]
    rfl

theorem offsetOf_mod (z : Loc NodeName PropEntry) : offsetOf z % 4 = 0 :=
  Nat.mod_eq_zero_of_dvd (fdtCode_dvd.before z.ctx)

/-- **`fdt_subnode_offset` finds the first subnode whose name matches.** -/
theorem subnodeOffset_eq {z : Loc NodeName PropEntry} {s : List UInt8} (h0 : 0 ∉ s)
    (h : InStruct m fdt (offsetOf z) (fdtCode.node z.node)) :
    fdtSubnodeOffset m fdt (offsetOf z) s =
      some (match z.down (fun n => nameMatches s n.name) with
        | some z' => .ok (offsetOf z')
        | none => .error .notFound) := by
  obtain ⟨hhead, hprops, hkids, hfoot⟩ := h.node
  have h4 := offsetOf_mod z
  have h4h := fdtCode_dvd.head z.node.name
  have h4p := fdtCode_dvd.props z.node.props
  have h4k := fdtCode_dvd.items z.node.kids
  rw [fdtSubnodeOffset, visitNodes_head h4 hhead (by rfl), walk_props (by omega) hprops,
    walk_find (by omega) (fun _ _ => rfl) (fun o n hn => nodenameEq_eq h0 hn) hkids]
  cases hs : split (fun x : Item NodeName PropEntry =>
      x.node?.filter fun n => nameMatches s n.name.name) z.node.kids with
  | none =>
    have hdown : z.down (fun n => nameMatches s n.name) = none := by rw [Loc.down, hs]; rfl
    rw [hdown, walk_foot (by omega) hfoot, if_pos (by decide)]
    rfl
  | some r =>
    obtain ⟨l, n, r⟩ := r
    have hdown : z.down (fun n => nameMatches s n.name) =
        some ⟨⟨z.node.name, z.node.props, l, r⟩ :: z.ctx, n⟩ := by rw [Loc.down, hs]; rfl
    rw [hdown, Option.map_some]
    simp only [offsetOf, Code.before, List.length_append, Nat.add_assoc]

end

/-! ## Properties -/

section
variable {m : Mem} {fdt o : Nat} {name : List UInt8}

/-- The loop of `fdt_get_property_namelen_` from an offset within a node on. -/
def scanProps (m : Mem) (fdt : Nat) (name : List UInt8) (o : Nat) : Option (Except FdtError Nat) :=
  (nextprop m fdt o).bind fun
    | .error e => some (.error e)
    | .ok o => getPropertyFrom m fdt name o

theorem getPropertyFrom_eq (m : Mem) (fdt : Nat) (name : List UInt8) (o : Nat) :
    getPropertyFrom m fdt name o = if fdtStringEq m fdt o name then some (.ok o)
      else (fdtNextPropertyOffset m fdt o).bind fun
        | .error e => some (.error e)
        | .ok o => getPropertyFrom m fdt name o := by
  rw [getPropertyFrom]
  split
  · rfl
  · split <;> simp [*]

theorem scanProps_gap (ho : o % 4 = 0) (h : InStruct m fdt o fdtCode.gap) :
    scanProps m fdt name o = scanProps m fdt name (o + 4) := by
  rw [scanProps, nextprop_eq, nextTag_gap ho h, Option.bind_some]
  dsimp only
  rw [if_neg (by decide), if_neg (by decide), if_pos rfl, scanProps]

theorem checkPropOffset_eq (ho : o % 4 = 0) {p : PropEntry} (h : InStruct m fdt o (fdtCode.prop p)) :
    fdtCheckPropOffset m fdt o = some (.ok (o + (fdtCode.prop p).length)) := by
  rw [fdtCheckPropOffset, if_neg (by rw [fdtTagsize]; omega), nextTag_prop ho h]
  rfl

theorem scanProps_prop (ho : o % 4 = 0) {p : PropEntry} (h : InStruct m fdt o (fdtCode.prop p)) :
    scanProps m fdt name o = if fdtStringEq m fdt o name then some (.ok o)
      else scanProps m fdt name (o + (fdtCode.prop p).length) := by
  rw [scanProps, nextprop_eq, nextTag_prop ho h, Option.bind_some]
  dsimp only
  rw [if_neg (by decide), if_pos rfl, Option.bind_some]
  dsimp only
  rw [getPropertyFrom_eq, fdtNextPropertyOffset, checkPropOffset_eq ho h]
  rfl

/-- Behind the properties there are no more. -/
theorem scanProps_kids (ho : o % 4 = 0) {xs : List (Item NodeName PropEntry)} {t : List UInt8}
    (h : InStruct m fdt o (fdtCode.items xs ++ (fdtCode.foot ++ t))) :
    scanProps m fdt name o = some (.error .notFound) := by
  induction xs generalizing o with
  | nil =>
    have hfoot : InStruct m fdt o fdtCode.foot := by
      rw [Code.items_nil, List.nil_append] at h
      exact h.left
    rw [scanProps, nextprop_eq, nextTag_foot ho hfoot, Option.bind_some]
    rfl
  | cons x xs ih =>
    rw [Code.items_cons, List.append_assoc] at h
    cases x with
    | gap =>
      rw [Code.item_gap] at h
      rw [scanProps_gap ho h.left]
      exact ih (by rw [Nat.add_mod, ho]) h.right
    | node n ps kids =>
      have hhead : InStruct m fdt o (fdtCode.head n) := by
        rw [Code.item] at h
        exact h.left.left.left.left
      rw [scanProps, nextprop_eq, nextTag_head ho hhead, Option.bind_some]
      rfl

theorem scanProps_eq (ho : o % 4 = 0) {q : PropEntry → Bool} {ps : List (Option PropEntry)}
    (hq : ∀ o p, some p ∈ ps → InStruct m fdt o (fdtCode.prop p) → fdtStringEq m fdt o name = q p)
    (h : InStruct m fdt o (fdtCode.props ps)) :
    scanProps m fdt name o =
      match splitProp q ps with
      | some (l, _, _) => some (.ok (o + (fdtCode.props l).length))
      | none => scanProps m fdt name (o + (fdtCode.props ps).length) := by
  induction ps generalizing o with
  | nil => rfl
  | cons p ps ih =>
    have hq' : ∀ o p, some p ∈ ps → InStruct m fdt o (fdtCode.prop p) →
        fdtStringEq m fdt o name = q p := fun o p hp => hq o p (List.mem_cons_of_mem _ hp)
    rw [Code.props_cons] at h
    unfold splitProp at ih ⊢
    cases p with
    | none =>
      have hrest : InStruct m fdt (o + 4) (fdtCode.props ps) := h.right
      rw [split_cons_none rfl, scanProps_gap ho h.left, ih (by rw [Nat.add_mod, ho]) hq' hrest]
      cases split (fun o => Option.filter q o) ps with
      | none => simp [Nat.add_assoc]
      | some s => simp [Nat.add_assoc]
    | some p =>
      have h4 := fdtCode_dvd.prop p
      have hrest : InStruct m fdt (o + (fdtCode.prop p).length) (fdtCode.props ps) := h.right
      rw [scanProps_prop ho h.left, hq o p List.mem_cons_self h.left]
      cases hp : q p with
      | true =>
        rw [split_cons_some (b := p) (by simp [hp])]
        rfl
      | false =>
        rw [split_cons_none (by simp [hp]), if_neg (by decide), ih (by omega) hq' hrest]
        cases split (fun o => Option.filter q o) ps with
        | none => simp [Nat.add_assoc]
        | some s => simp [Nat.add_assoc]

/-- **`fdt_get_property` finds the first property of the name.** -/
theorem getProperty_eq (ho : o % 4 = 0) {n : Node NodeName PropEntry} {q : PropEntry → Bool}
    (hq : ∀ o p, some p ∈ n.props → InStruct m fdt o (fdtCode.prop p) →
      fdtStringEq m fdt o name = q p) (h : InStruct m fdt o (fdtCode.node n)) :
    fdtGetProperty m fdt o name =
      some (match splitProp q n.props with
        | some (l, _, _) => .ok (o + (fdtCode.head n.name).length + (fdtCode.props l).length)
        | none => .error .notFound) := by
  obtain ⟨hhead, hprops, hkids, hfoot⟩ := h.node
  have h4 := fdtCode_dvd.head n.name
  have h4p := fdtCode_dvd.props n.props
  have hrest : InStruct m fdt (o + (fdtCode.head n.name).length + (fdtCode.props n.props).length)
      (fdtCode.items n.kids ++ (fdtCode.foot ++ [])) := by
    rw [List.append_nil]
    exact hkids.append hfoot
  have hscan := scanProps_eq (by omega) hq hprops
  rw [fdtGetProperty, fdtFirstPropertyOffset, checkNodeOffset_eq ho hhead]
  rw [scanProps] at hscan
  simp only [Option.bind_some]
  cases hs : splitProp q n.props with
  | none =>
    rw [hs] at hscan
    exact hscan.trans (scanProps_kids (by omega) hrest)
  | some s =>
    rw [hs] at hscan
    exact hscan

end

/-! ## The place of a new subnode -/

section
variable {m : Mem} {fdt o : Nat}

theorem skipProps_skip {tag next : Nat} (h : fdtNextTag m fdt o = some (.tag tag next))
    (ht : tag = fdtProp ∨ tag = fdtNop) : skipProps m fdt o = skipProps m fdt next := by
  rw [skipProps_eq, h, Option.bind_some]
  exact if_pos ht

theorem skipProps_stop {tag next : Nat} (h : fdtNextTag m fdt o = some (.tag tag next))
    (ht : ¬(tag = fdtProp ∨ tag = fdtNop)) : skipProps m fdt o = some o := by
  rw [skipProps_eq, h, Option.bind_some]
  exact if_neg ht

theorem skipProps_props (ho : o % 4 = 0) {ps : List (Option PropEntry)}
    (h : InStruct m fdt o (fdtCode.props ps)) :
    skipProps m fdt o = skipProps m fdt (o + (fdtCode.props ps).length) := by
  induction ps generalizing o with
  | nil => rfl
  | cons p ps ih =>
    rw [Code.props_cons] at h ⊢
    rw [List.length_append, ← Nat.add_assoc]
    cases p with
    | none =>
      rw [skipProps_skip (nextTag_gap ho h.left) (.inr rfl)]
      exact ih (by rw [Nat.add_mod, ho]) h.right
    | some p =>
      rw [skipProps_skip (nextTag_prop ho h.left) (.inl rfl)]
      exact ih (by have := fdtCode_dvd.prop p; omega) h.right

theorem skipProps_kids (ho : o % 4 = 0) {xs : List (Item NodeName PropEntry)} {t : List UInt8}
    (h : InStruct m fdt o (fdtCode.items xs ++ (fdtCode.foot ++ t))) :
    skipProps m fdt o = some (o + (fdtCode.items (xs.takeWhile Item.isGap)).length) := by
  induction xs generalizing o with
  | nil =>
    have hfoot : InStruct m fdt o fdtCode.foot := by
      rw [Code.items_nil, List.nil_append] at h
      exact h.left
    rw [skipProps_stop (nextTag_foot ho hfoot) (by decide)]
    simp
  | cons x xs ih =>
    rw [Code.items_cons, List.append_assoc] at h
    cases x with
    | gap =>
      rw [Code.item_gap] at h
      have hrest : InStruct m fdt (o + 4) (fdtCode.items xs ++ (fdtCode.foot ++ t)) := h.right
      rw [skipProps_skip (nextTag_gap ho h.left) (.inr rfl), ih (by rw [Nat.add_mod, ho]) hrest,
        List.takeWhile_cons_of_pos rfl]
      simp [Nat.add_assoc]
    | node n ps kids =>
      have hhead : InStruct m fdt o (fdtCode.head n) := by
        rw [Code.item] at h
        exact h.left.left.left.left
      rw [skipProps_stop (nextTag_head ho hhead) (by decide), List.takeWhile_cons_of_neg (by
        simp [Item.isGap, Item.node?])]
      simp

theorem newNodeOffset_eq {z : Loc NodeName PropEntry} (name : NodeName)
    (h : InStruct m fdt (offsetOf z) (fdtCode.node z.node)) :
    newNodeOffset m fdt (offsetOf z) = some (offsetOf (z.addKid name)) := by
  obtain ⟨hhead, hprops, hkids, hfoot⟩ := h.node
  have h4 := offsetOf_mod z
  have h4h := fdtCode_dvd.head z.node.name
  have h4p := fdtCode_dvd.props z.node.props
  rw [← List.append_nil fdtCode.foot] at hfoot
  have hrest := hkids.append hfoot
  rw [newNodeOffset, nextTag_head h4 hhead, Option.bind_some]
  dsimp only
  rw [skipProps_props (by omega) hprops, skipProps_kids (by omega) hrest]
  simp only [offsetOf, Loc.addKid, Code.before, List.length_append, Nat.add_assoc]

end

end PBoot
