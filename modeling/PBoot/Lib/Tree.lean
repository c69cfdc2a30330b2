import Mathlib.Data.List.Basic

/-!
# Trees of named nodes with properties

A node has a name, properties and subnodes; gaps may stand between the properties and between the
subnodes. `Loc` is a node in the tree around it.

* `Code`: how the pieces of a tree are written. `Code.node_top`: a node in a context is a segment of
  the tree, so that what changes the node changes that segment.
* `Loc.down`, `Loc.find`: the first subnode a test holds for, and the node that a path leads to.
* `setProp`, `delProp`, `Loc.addKid`, `Loc.remove`: edits.
* `Node.map`: other names and properties in the same shape. `map_down`, `map_getProp`, `map_delProp`,
  `map_addKid`, `map_remove`: lookups and edits commute with it.
-/

namespace Trees

/-- A gap, or a node with everything below it. -/
inductive Item (ν π : Type*) where
  | gap
  | node (name : ν) (props : List (Option π)) (kids : List (Item ν π))

/-- A node with its properties and subnodes, between which gaps may stand. -/
@[ext]
structure Node (ν π : Type*) where
  name : ν
  props : List (Option π)
  kids : List (Item ν π)

/-- A node without one of its subnodes. -/
@[ext]
structure Frame (ν π : Type*) where
  name : ν
  props : List (Option π)
  left : List (Item ν π)
  right : List (Item ν π)

/-- A node, and the frames around it from the inside out. -/
@[ext]
structure Loc (ν π : Type*) where
  ctx : List (Frame ν π)
  node : Node ν π

/-! ## The first of a list -/

section
variable {α α' β β' : Type*} {g : α → Option β} {xs l r : List α} {b : β}

/-- What is left and right of the first element that `g` yields something for. -/
def split (g : α → Option β) : List α → Option (List α × β × List α)
  | [] => none
  | x :: xs =>
    match g x with
    | some b => some ([], b, xs)
    | none => (split g xs).map fun s => (x :: s.1, s.2)

theorem split_cons_some {x : α} (h : g x = some b) (xs : List α) :
    split g (x :: xs) = some ([], b, xs) := by
  rw [split, h]

theorem split_cons_none {x : α} (h : g x = none) (xs : List α) :
    split g (x :: xs) = (split g xs).map fun s => (x :: s.1, s.2) := by
  rw [split, h]

theorem split_some (h : split g xs = some (l, b, r)) :
    ∃ x, g x = some b ∧ xs = l ++ x :: r ∧ ∀ y ∈ l, g y = none := by
  induction xs generalizing l with
  | nil => cases h
  | cons x xs ih =>
    cases hx : g x with
    | some b' =>
      rw [split_cons_some hx] at h
      cases h
      exact ⟨x, hx, rfl, fun _ hy => nomatch hy⟩
    | none =>
      rw [split_cons_none hx] at h
      obtain ⟨⟨l', b', r'⟩, hs, heq⟩ := Option.map_eq_some_iff.1 h
      cases heq
      obtain ⟨x', hx', rfl, hl⟩ := ih hs
      exact ⟨x', hx', rfl, List.forall_mem_cons.2 ⟨hx, hl⟩⟩

theorem split_map {k : α' → Option β'} {e : α → α'} {e' : β → β'}
    (h : ∀ x, k (e x) = (g x).map e') (xs : List α) :
    split k (xs.map e) = (split g xs).map fun s => (s.1.map e, e' s.2.1, s.2.2.map e) := by
  induction xs with
  | nil => rfl
  | cons x xs ih =>
    rw [List.map_cons]
    cases hx : g x with
    | some b => rw [split_cons_some hx, split_cons_some (by rw [h, hx]; rfl)]; rfl
    | none =>
      rw [split_cons_none hx, split_cons_none (by rw [h, hx]; rfl), ih, Option.map_map,
        Option.map_map]
      rfl

end

section
variable {ν π ν' π' β : Type*}

/-- The node among the subnodes of another. -/
def Node.toItem (n : Node ν π) : Item ν π := .node n.name n.props n.kids

/-- The node, if it is not a gap. -/
def Item.node? : Item ν π → Option (Node ν π)
  | .gap => none
  | .node name props kids => some ⟨name, props, kids⟩

theorem Item.node?_some {x : Item ν π} {n : Node ν π} (h : x.node? = some n) : x = n.toItem := by
  cases x with
  | gap => cases h
  | node name props kids => cases h; rfl

/-- The node with its missing subnode. -/
def Frame.fill (f : Frame ν π) (n : Node ν π) : Node ν π :=
  ⟨f.name, f.props, f.left ++ n.toItem :: f.right⟩

/-- The root of the tree. -/
def Loc.top (z : Loc ν π) : Node ν π := z.ctx.foldl (fun n f => f.fill n) z.node

/-- The node as the root of a tree. -/
def Node.loc (n : Node ν π) : Loc ν π := ⟨[], n⟩

@[simp] theorem Node.top_loc (n : Node ν π) : n.loc.top = n := rfl

theorem Loc.top_cons (f : Frame ν π) (fs : List (Frame ν π)) (n : Node ν π) :
    Loc.top ⟨f :: fs, n⟩ = Loc.top ⟨fs, f.fill n⟩ := rfl

/-- **Induction over a forest**: a node first, its subnodes and the items behind it. -/
theorem items_induct {motive : List (Item ν π) → Prop} (nil : motive [])
    (gap : ∀ xs, motive xs → motive (.gap :: xs))
    (node : ∀ name props kids xs, motive kids → motive xs →
      motive (.node name props kids :: xs)) : ∀ xs, motive xs
  | [] => nil
  | .gap :: xs => gap xs (items_induct nil gap node xs)
  | .node name props kids :: xs =>
    node name props kids xs (items_induct nil gap node kids) (items_induct nil gap node xs)

/-! ## In a line -/

/-- How the pieces of a tree are written. -/
structure Code (ν π β : Type*) where
  head : ν → List β
  prop : π → List β
  gap : List β
  foot : List β

/-- How properties, and the gaps between them, are written. -/
def Code.props (c : Code ν π β) (ps : List (Option π)) : List β :=
  ps.flatMap fun p => p.elim c.gap c.prop

mutual
def Code.item (c : Code ν π β) : Item ν π → List β
  | .gap => c.gap
  | .node name props kids => c.head name ++ c.props props ++ c.items kids ++ c.foot
def Code.items (c : Code ν π β) : List (Item ν π) → List β
  | [] => []
  | x :: xs => c.item x ++ c.items xs
end

/-- How a node is written. -/
def Code.node (c : Code ν π β) (n : Node ν π) : List β :=
  c.head n.name ++ c.props n.props ++ c.items n.kids ++ c.foot

/-- What stands in front of the innermost node. -/
def Code.before (c : Code ν π β) : List (Frame ν π) → List β
  | [] => []
  | f :: fs => c.before fs ++ (c.head f.name ++ c.props f.props ++ c.items f.left)

/-- What stands behind it. -/
def Code.after (c : Code ν π β) : List (Frame ν π) → List β
  | [] => []
  | f :: fs => c.items f.right ++ c.foot ++ c.after fs

section
variable (c : Code ν π β)

@[simp] theorem Code.items_nil : c.items [] = [] := by rw [Code.items]

@[simp] theorem Code.items_cons (x : Item ν π) (xs : List (Item ν π)) :
    c.items (x :: xs) = c.item x ++ c.items xs := by rw [Code.items]

@[simp] theorem Code.item_gap : c.item .gap = c.gap := by rw [Code.item]

@[simp] theorem Code.item_toItem (n : Node ν π) : c.item n.toItem = c.node n := by
  rw [Node.toItem, Code.item, Code.node]

@[simp] theorem Code.items_append (xs ys : List (Item ν π)) :
    c.items (xs ++ ys) = c.items xs ++ c.items ys := by
  induction xs with
  | nil => simp
  | cons x xs ih => simp [ih]

@[simp] theorem Code.props_nil : c.props [] = [] := rfl

@[simp] theorem Code.props_cons (p : Option π) (ps : List (Option π)) :
    c.props (p :: ps) = p.elim c.gap c.prop ++ c.props ps := rfl

@[simp] theorem Code.props_append (ps ps' : List (Option π)) :
    c.props (ps ++ ps') = c.props ps ++ c.props ps' := List.flatMap_append

/-- **A node in its context is a segment of the tree.** -/
theorem Code.node_top (z : Loc ν π) :
    c.node z.top = c.before z.ctx ++ c.node z.node ++ c.after z.ctx := by
  obtain ⟨ctx, n⟩ := z
  induction ctx generalizing n with
  | nil => simp [Loc.top, Code.before, Code.after]
  | cons f fs ih =>
    rw [Loc.top_cons, ih, Code.before, Code.after]
    simp [Frame.fill, Code.node, List.append_assoc]

end

/-- All pieces have a length that is a multiple of `d`. -/
structure Code.Dvd (c : Code ν π β) (d : Nat) : Prop where
  head : ∀ n, d ∣ (c.head n).length
  prop : ∀ p, d ∣ (c.prop p).length
  gap : d ∣ c.gap.length
  foot : d ∣ c.foot.length

section
variable {c : Code ν π β} {d : Nat} (h : c.Dvd d)
include h

theorem Code.Dvd.props (ps : List (Option π)) : d ∣ (c.props ps).length := by
  induction ps with
  | nil => exact Nat.dvd_zero d
  | cons o ps ih =>
    rw [Code.props_cons, List.length_append]
    refine Nat.dvd_add ?_ ih
    cases o with
    | none => exact h.gap
    | some p => exact h.prop p

theorem Code.Dvd.items (xs : List (Item ν π)) : d ∣ (c.items xs).length := by
  induction xs using items_induct with
  | nil => simp
  | gap xs ih => simpa using Nat.dvd_add h.gap ih
  | node name props kids xs ihk ih =>
    rw [Code.items_cons, Code.item]
    simp only [List.length_append]
    exact Nat.dvd_add (Nat.dvd_add (Nat.dvd_add (Nat.dvd_add (h.head name) (h.props props)) ihk) h.foot) ih

theorem Code.Dvd.node (n : Node ν π) : d ∣ (c.node n).length := by
  simpa using h.items [n.toItem]

theorem Code.Dvd.before (fs : List (Frame ν π)) : d ∣ (c.before fs).length := by
  induction fs with
  | nil => exact Nat.dvd_zero d
  | cons f fs ih =>
    simp only [Code.before, List.length_append]
    exact Nat.dvd_add ih (Nat.dvd_add (Nat.dvd_add (h.head f.name) (h.props f.props)) (h.items f.left))

end

/-! ## All properties -/

/-- The list of a tree's properties is one way to write it. -/
def propsCode : Code ν π π := ⟨fun _ => [], fun p => [p], [], []⟩

/-- The properties of the node and of all nodes below. -/
def Node.allProps (n : Node ν π) : List π := propsCode.node n

theorem mem_propsCode_props {p : π} {ps : List (Option π)} :
    p ∈ (propsCode : Code ν π π).props ps ↔ some p ∈ ps := by
  induction ps with
  | nil => simp
  | cons o ps ih =>
    rw [Code.props_cons, List.mem_append, ih, List.mem_cons]
    refine or_congr ?_ Iff.rfl
    cases o with
    | none => simp [propsCode]
    | some p' => simp [propsCode]

theorem mem_allProps {p : π} {n : Node ν π} :
    p ∈ n.allProps ↔ some p ∈ n.props ∨ p ∈ propsCode.items n.kids := by
  have hprops : p ∈ (propsCode : Code ν π π).props n.props ↔ some p ∈ n.props := mem_propsCode_props
  simp [Node.allProps, Code.node, propsCode, ← hprops]

theorem Loc.allProps_top (z : Loc ν π) : z.top.allProps =
    propsCode.before z.ctx ++ z.node.allProps ++ propsCode.after z.ctx := Code.node_top _ z

/-! ## Finding nodes and properties -/

/-- To the first subnode `q` holds for. -/
def Loc.down (q : ν → Bool) (z : Loc ν π) : Option (Loc ν π) :=
  (split (fun x => x.node?.filter fun n => q n.name) z.node.kids).map fun s =>
    ⟨⟨z.node.name, z.node.props, s.1, s.2.2⟩ :: z.ctx, s.2.1⟩

/-- Down along a path, one test for each node. -/
def Loc.find (path : List (ν → Bool)) (z : Loc ν π) : Option (Loc ν π) :=
  path.foldlM (fun z q => z.down q) z

/-- The first property `q` holds for, with what is left and right of it. -/
def splitProp (q : π → Bool) (ps : List (Option π)) :
    Option (List (Option π) × π × List (Option π)) :=
  split (fun o => o.filter q) ps

/-- The first property `q` holds for. -/
def getProp (q : π → Bool) (ps : List (Option π)) : Option π := (splitProp q ps).map (·.2.1)

section
variable {z z' : Loc ν π} {q : ν → Bool}

theorem Loc.down_some (h : z.down q = some z') : ∃ l r,
    z.node.kids = l ++ z'.node.toItem :: r ∧ z'.ctx = ⟨z.node.name, z.node.props, l, r⟩ :: z.ctx ∧
      q z'.node.name = true ∧ ∀ n : Node ν π, n.toItem ∈ l → q n.name = false := by
  obtain ⟨⟨l, n, r⟩, hs, rfl⟩ := Option.map_eq_some_iff.1 h
  obtain ⟨x, hx, hkids, hl⟩ := split_some hs
  obtain ⟨hn, hq⟩ := Option.filter_eq_some_iff.1 hx
  refine ⟨l, r, Item.node?_some hn ▸ hkids, rfl, hq, fun n' hn' => ?_⟩
  simpa [Node.toItem, Item.node?, Option.filter] using hl _ hn'

/-- Going down does not change the tree. -/
theorem Loc.top_down (h : z.down q = some z') : z'.top = z.top := by
  obtain ⟨l, r, hkids, hctx, -⟩ := Loc.down_some h
  obtain ⟨ctx', n'⟩ := z'
  obtain rfl : ctx' = _ := hctx
  rw [Loc.top_cons, Frame.fill, ← hkids]

theorem Loc.find_cons (q : ν → Bool) (path : List (ν → Bool)) (z : Loc ν π) :
    z.find (q :: path) = (z.down q).bind fun z' => z'.find path := List.foldlM_cons ..

theorem Loc.top_find {path : List (ν → Bool)} (h : z.find path = some z') : z'.top = z.top := by
  induction path generalizing z with
  | nil => cases h; rfl
  | cons q path ih =>
    rw [Loc.find_cons] at h
    obtain ⟨z₁, h₁, h⟩ := Option.bind_eq_some_iff.1 h
    rw [ih h, Loc.top_down h₁]

end

/-! ## Edits -/

/-- The first property `q` holds for changed by `f`, or else `p` in front of all. -/
def setProp (q : π → Bool) (f : π → π) (p : π) (ps : List (Option π)) : List (Option π) :=
  match splitProp q ps with
  | some (l, p', r) => l ++ some (f p') :: r
  | none => some p :: ps

/-- Without the first property `q` holds for. -/
def delProp (q : π → Bool) (ps : List (Option π)) : List (Option π) :=
  match splitProp q ps with
  | some (l, _, r) => l ++ r
  | none => ps

/-- The node with other properties. -/
def Loc.withProps (z : Loc ν π) (ps : List (Option π)) : Loc ν π :=
  ⟨z.ctx, { z.node with props := ps }⟩

/-- Whether it is a gap. -/
def Item.isGap (x : Item ν π) : Bool := x.node?.isNone

/-- To a new node in front of the subnodes. -/
def Loc.addKid (name : ν) (z : Loc ν π) : Loc ν π :=
  ⟨⟨z.node.name, z.node.props, z.node.kids.takeWhile Item.isGap,
    z.node.kids.dropWhile Item.isGap⟩ :: z.ctx, ⟨name, [], []⟩⟩

/-- The tree without the node; the root stays. -/
def Loc.remove (z : Loc ν π) : Node ν π :=
  match z.ctx with
  | [] => z.node
  | f :: fs => Loc.top ⟨fs, ⟨f.name, f.props, f.left ++ f.right⟩⟩

section
variable (c : Code ν π β)

/-- The pieces around a place between two items. -/
theorem Code.node_gap (f : Frame ν π) (fs : List (Frame ν π)) :
    c.node (Loc.top ⟨fs, ⟨f.name, f.props, f.left ++ f.right⟩⟩) =
      c.before (f :: fs) ++ c.after (f :: fs) := by
  rw [Code.node_top]
  simp [Code.node, Code.before, Code.after]

/-- The tree around the place of a new subnode. -/
theorem Code.node_top_addKid (z : Loc ν π) (name : ν) :
    c.node z.top = c.before (z.addKid name).ctx ++ c.after (z.addKid name).ctx := by
  rw [Loc.addKid, ← Code.node_gap, List.takeWhile_append_dropWhile]

/-- **Without a node, what is around it stays.** -/
theorem Code.node_remove {z : Loc ν π} (hz : z.ctx ≠ []) :
    c.node z.remove = c.before z.ctx ++ c.after z.ctx := by
  obtain ⟨ctx, n⟩ := z
  cases ctx with
  | nil => exact absurd rfl hz
  | cons f fs => exact c.node_gap f fs

end

/-! ## Other names and properties -/

mutual
def Item.map (f : ν → ν') (g : π → π') : Item ν π → Item ν' π'
  | .gap => .gap
  | .node name props kids => .node (f name) (props.map (·.map g)) (Item.mapAll f g kids)
def Item.mapAll (f : ν → ν') (g : π → π') : List (Item ν π) → List (Item ν' π')
  | [] => []
  | x :: xs => Item.map f g x :: Item.mapAll f g xs
end

/-- The node with other names and properties. -/
def Node.map (f : ν → ν') (g : π → π') (n : Node ν π) : Node ν' π' :=
  ⟨f n.name, n.props.map (·.map g), n.kids.map (Item.map f g)⟩

/-- The frame with other names and properties. -/
def Frame.map (f : ν → ν') (g : π → π') (fr : Frame ν π) : Frame ν' π' :=
  ⟨f fr.name, fr.props.map (·.map g), fr.left.map (Item.map f g), fr.right.map (Item.map f g)⟩

/-- The same place in the tree with other names and properties. -/
def Loc.map (f : ν → ν') (g : π → π') (z : Loc ν π) : Loc ν' π' :=
  ⟨z.ctx.map (Frame.map f g), z.node.map f g⟩

section
variable {f : ν → ν'} {g : π → π'}

@[simp] theorem Item.mapAll_eq (xs : List (Item ν π)) :
    Item.mapAll f g xs = xs.map (Item.map f g) := by
  induction xs with
  | nil => rw [Item.mapAll]; rfl
  | cons x xs ih => rw [Item.mapAll, ih]; rfl

@[simp] theorem Item.map_gap : Item.map f g (.gap : Item ν π) = .gap := by rw [Item.map]

theorem Item.map_toItem (n : Node ν π) : Item.map f g n.toItem = (n.map f g).toItem := by
  rw [Node.toItem, Item.map, Item.mapAll_eq]
  rfl

theorem Item.node?_map (x : Item ν π) :
    (Item.map f g x).node? = x.node?.map (Node.map f g) := by
  cases x with
  | gap => rw [Item.map]; rfl
  | node name props kids => rw [Item.map, Item.mapAll_eq]; rfl

theorem Loc.map_top (z : Loc ν π) : (z.map f g).top = z.top.map f g := by
  obtain ⟨ctx, n⟩ := z
  induction ctx generalizing n with
  | nil => rfl
  | cons fr fs ih =>
    have hfill : (fr.fill n).map f g = (fr.map f g).fill (n.map f g) := by
      simp [Frame.fill, Frame.map, Node.map, Item.map_toItem]
    rw [Loc.top_cons, ← ih]
    exact congrArg (fun n => Loc.top ⟨fs.map (Frame.map f g), n⟩) hfill.symm

theorem Loc.map_down {q : ν → Bool} {q' : ν' → Bool} (hq : ∀ x, q' (f x) = q x) (z : Loc ν π) :
    (z.map f g).down q' = (z.down q).map (Loc.map f g) := by
  have hnode (x : Item ν π) : ((Item.map f g x).node?.filter fun n => q' n.name) =
      (x.node?.filter fun n => q n.name).map (Node.map f g) := by
    rw [Item.node?_map]
    cases x.node? with
    | none => rfl
    | some n => simp [Option.filter, Node.map, hq]
  have hsplit := split_map (k := fun x => x.node?.filter fun n => q' n.name) (e := Item.map f g)
    hnode z.node.kids
  unfold Loc.down
  rw [Option.map_map]
  change (split _ (z.node.kids.map _)).map _ = _
  rw [hsplit, Option.map_map]
  rfl

theorem map_splitProp {q : π → Bool} {q' : π' → Bool} (hq : ∀ x, q' (g x) = q x)
    (ps : List (Option π)) : splitProp q' (ps.map (·.map g)) =
      (splitProp q ps).map fun s => (s.1.map (·.map g), g s.2.1, s.2.2.map (·.map g)) :=
  split_map (fun o => by
    cases o with
    | none => rfl
    | some p => simp [Option.filter, hq]) ps

theorem map_getProp {q : π → Bool} {q' : π' → Bool} (hq : ∀ x, q' (g x) = q x)
    (ps : List (Option π)) : getProp q' (ps.map (·.map g)) = (getProp q ps).map g := by
  rw [getProp, map_splitProp hq, Option.map_map, getProp, Option.map_map]
  rfl

theorem map_delProp {q : π → Bool} {q' : π' → Bool} (hq : ∀ x, q' (g x) = q x)
    (ps : List (Option π)) :
    (delProp q ps).map (·.map g) = delProp q' (ps.map (·.map g)) := by
  unfold delProp
  rw [map_splitProp hq]
  cases splitProp q ps with
  | none => rfl
  | some s => simp

theorem Loc.map_addKid (name : ν) (z : Loc ν π) :
    (z.addKid name).map f g = (z.map f g).addKid (f name) := by
  have hgap : ∀ x : Item ν π, (Item.map f g x).isGap = x.isGap := fun x => by
    rw [Item.isGap, Item.node?_map, Option.isNone_map]
    rfl
  simp only [Loc.addKid, Loc.map, List.map_cons, Frame.map, Node.map, List.takeWhile_map,
    List.dropWhile_map, List.map_nil, Function.comp_def, hgap]

theorem Loc.map_remove (z : Loc ν π) : (z.map f g).remove = z.remove.map f g := by
  obtain ⟨ctx, n⟩ := z
  cases ctx with
  | nil => rfl
  | cons fr fs =>
    change Loc.top ⟨_, _⟩ = (Loc.top ⟨fs, _⟩).map f g
    rw [← Loc.map_top]
    simp [Loc.map, Frame.map, Node.map]

/-! ### Properties after an edit -/

theorem mem_allProps_withProps {p : π} {z : Loc ν π} {ps : List (Option π)}
    (h : p ∈ (z.withProps ps).top.allProps) : p ∈ z.top.allProps ∨ some p ∈ ps := by
  rw [Loc.allProps_top, Loc.withProps, List.mem_append, List.mem_append, mem_allProps] at h
  rw [Loc.allProps_top, List.mem_append, List.mem_append, mem_allProps]
  rcases h with (h | h | h) | h
  · exact .inl (.inl (.inl h))
  · exact .inr h
  · exact .inl (.inl (.inr (.inr h)))
  · exact .inl (.inr h)

theorem mem_allProps_addKid {p : π} {name : ν} {z : Loc ν π}
    (h : p ∈ (z.addKid name).top.allProps) : p ∈ z.top.allProps := by
  rw [Loc.allProps_top, Loc.addKid, List.mem_append, List.mem_append, mem_allProps] at h
  rw [Node.allProps, Code.node_top_addKid _ z name, List.mem_append]
  rcases h with (h | h | h) | h
  · exact .inl h
  · cases h
  · simp at h
  · exact .inr h

theorem mem_allProps_remove {p : π} {z : Loc ν π} (hz : z.ctx ≠ []) (h : p ∈ z.remove.allProps) :
    p ∈ z.top.allProps := by
  rw [Node.allProps, Code.node_remove _ hz, List.mem_append] at h
  rw [Loc.allProps_top, List.mem_append, List.mem_append]
  exact h.imp .inl id

/-! ### Maps that agree on all properties -/

variable {g' : π → π'}

theorem map_props_congr {ps : List (Option π)} (h : ∀ p, some p ∈ ps → g p = g' p) :
    ps.map (·.map g) = ps.map (·.map g') :=
  List.map_congr_left fun o ho => by
    cases o with
    | none => rfl
    | some p => exact congrArg some (h p ho)

theorem map_items_congr {xs : List (Item ν π)} (h : ∀ p ∈ propsCode.items xs, g p = g' p) :
    xs.map (Item.map f g) = xs.map (Item.map f g') := by
  induction xs using items_induct with
  | nil => rfl
  | gap xs ih =>
    rw [Code.items_cons] at h
    rw [List.map_cons, List.map_cons, ih fun p hp => h p (List.mem_append_right _ hp),
      Item.map_gap, Item.map_gap]
  | node name props kids xs ihk ih =>
    rw [Code.items_cons] at h
    have hnode : ∀ p, some p ∈ props ∨ p ∈ propsCode.items kids → g p = g' p := fun p hp =>
      h p (List.mem_append_left _ (Code.item_toItem propsCode ⟨name, props, kids⟩ ▸
        mem_allProps.2 hp))
    rw [List.map_cons, List.map_cons, ih fun p hp => h p (List.mem_append_right _ hp), Item.map,
      Item.map, Item.mapAll_eq, Item.mapAll_eq, ihk fun p hp => hnode p (.inr hp),
      map_props_congr fun p hp => hnode p (.inl hp)]

theorem Node.map_congr {n : Node ν π} (h : ∀ p ∈ n.allProps, g p = g' p) :
    n.map f g = n.map f g' := by
  rw [Node.map, Node.map, map_props_congr fun p hp => h p (mem_allProps.2 (.inl hp)),
    map_items_congr fun p hp => h p (mem_allProps.2 (.inr hp))]

theorem Frame.map_congr {fs : List (Frame ν π)}
    (h : ∀ p, p ∈ propsCode.before fs ∨ p ∈ propsCode.after fs → g p = g' p) :
    fs.map (Frame.map f g) = fs.map (Frame.map f g') := by
  induction fs with
  | nil => rfl
  | cons fr fs ih =>
    simp only [Code.before, Code.after, List.mem_append] at h
    have hprops : ∀ p, some p ∈ fr.props → g p = g' p := fun p hp =>
      h p (.inl (.inr (.inl (.inr (mem_propsCode_props.2 hp)))))
    rw [List.map_cons, List.map_cons, ih fun p hp => h p (hp.imp .inl .inr), Frame.map, Frame.map,
      map_props_congr hprops, map_items_congr fun p hp => h p (.inl (.inr (.inr hp))),
      map_items_congr fun p hp => h p (.inr (.inl (.inl hp)))]

theorem Loc.map_congr {z : Loc ν π} (h : ∀ p ∈ z.top.allProps, g p = g' p) :
    z.map f g = z.map f g' := by
  rw [Loc.allProps_top] at h
  rw [Loc.map, Loc.map, Node.map_congr fun p hp => h p (by simp [hp]),
    Frame.map_congr fun p hp => h p (by rcases hp with hp | hp <;> simp [hp])]

end

end

/-! ## What an edit leaves -/

section
variable {q q' : π → Bool} {f : π → π} {p : π} {ps : List (Option π)}

theorem splitProp_some {l r : List (Option π)} (h : splitProp q ps = some (l, p, r)) :
    ps = l ++ some p :: r ∧ q p = true := by
  obtain ⟨x, hx, hps, -⟩ := split_some h
  obtain ⟨rfl, hq⟩ := Option.filter_eq_some_iff.1 hx
  exact ⟨hps, hq⟩

theorem getProp_eq_find? (q : π → Bool) (ps : List (Option π)) :
    getProp q ps = (ps.filterMap id).find? q := by
  induction ps with
  | nil => rfl
  | cons o ps ih =>
    unfold getProp splitProp at ih ⊢
    cases o with
    | none => rw [split_cons_none rfl, Option.map_map, List.filterMap_cons_none rfl, ← ih]; rfl
    | some p =>
      have hcons : (some p :: ps).filterMap id = p :: ps.filterMap id := rfl
      rw [hcons]
      by_cases hp : q p = true
      · rw [split_cons_some (b := p) (by simp [Option.filter, hp]), List.find?_cons_of_pos hp]
        rfl
      · rw [split_cons_none (by simp [Option.filter, hp]), Option.map_map,
          List.find?_cons_of_neg hp, ← ih]
        rfl

/-- **Another property stays when one is set.** -/
theorem getProp_setProp (hf : ∀ x, q x = true → q' (f x) = q' x) (hd : ∀ x, q x = true → q' x = false)
    (hp : q' p = false) : getProp q' (setProp q f p ps) = getProp q' ps := by
  unfold setProp
  cases hs : splitProp q ps with
  | none =>
    have hcons : (some p :: ps).filterMap id = p :: ps.filterMap id := rfl
    change getProp q' (some p :: ps) = _
    rw [getProp_eq_find?, getProp_eq_find?, hcons, List.find?_cons_of_neg (by simp [hp])]
  | some t =>
    obtain ⟨l, x, r⟩ := t
    obtain ⟨rfl, hx⟩ := splitProp_some hs
    have hx' : q' x = false := hd x hx
    simp [getProp_eq_find?, hf x hx, hx']

/-- **Another property stays when one is deleted.** -/
theorem getProp_delProp (hd : ∀ x, q x = true → q' x = false) :
    getProp q' (delProp q ps) = getProp q' ps := by
  unfold delProp
  cases hs : splitProp q ps with
  | none => rfl
  | some t =>
    obtain ⟨l, x, r⟩ := t
    obtain ⟨rfl, hx⟩ := splitProp_some hs
    simp [getProp_eq_find?, hd x hx]

end

/-- The properties of the root of the tree. -/
def Loc.topProps (z : Loc ν π) : List (Option π) :=
  (z.ctx.getLast?.map (·.props)).getD z.node.props

theorem Loc.top_props (z : Loc ν π) : z.top.props = z.topProps := by
  obtain ⟨ctx, n⟩ := z
  induction ctx generalizing n with
  | nil => rfl
  | cons fr fs ih =>
    rw [Loc.top_cons, ih, Loc.topProps, Loc.topProps, List.getLast?_cons]
    cases fs.getLast? <;> rfl

theorem Loc.topProps_withProps (z : Loc ν π) (ps : List (Option π)) :
    (z.withProps ps).topProps = if z.ctx = [] then ps else z.topProps := by
  obtain ⟨ctx, n⟩ := z
  cases ctx with
  | nil => rfl
  | cons fr fs =>
    simp [Loc.topProps, Loc.withProps, List.getLast?_cons]

/-- **The root keeps its properties when a node is added.** -/
theorem Loc.top_addKid_props (z : Loc ν π) (name : ν) : (z.addKid name).top.props = z.top.props := by
  rw [Loc.top_props, Loc.top_props, Loc.topProps, Loc.addKid, List.getLast?_cons]
  unfold Loc.topProps
  cases z.ctx.getLast? <;> rfl

/-- **The root keeps its properties when another node is removed.** -/
theorem Loc.remove_props {z : Loc ν π} : z.remove.props = z.top.props := by
  obtain ⟨ctx, n⟩ := z
  cases ctx with
  | nil => rfl
  | cons fr fs =>
    change (Loc.top ⟨fs, _⟩).props = (Loc.top ⟨fr :: fs, n⟩).props
    rw [Loc.top_cons, Loc.top_props, Loc.top_props]
    rfl

/-- A node that a path leads to is below. -/
theorem Loc.ctx_find {q : ν → Bool} {path : List (ν → Bool)} {z z' : Loc ν π}
    (h : z.find (q :: path) = some z') : z'.ctx ≠ [] := by
  induction path generalizing q z with
  | nil =>
    rw [Loc.find_cons] at h
    obtain ⟨z₁, h₁, h⟩ := Option.bind_eq_some_iff.1 h
    obtain ⟨l, r, -, hctx, -⟩ := Loc.down_some h₁
    cases h
    rw [hctx]
    exact List.cons_ne_nil _ _
  | cons q' path ih =>
    rw [Loc.find_cons] at h
    obtain ⟨z₁, h₁, h⟩ := Option.bind_eq_some_iff.1 h
    exact ih h

end Trees
