import PBoot.Lib.Bytes

/-!
# Reading device trees (`fdt.c`, `fdt_ro.c`, `fdt_addresses.c`, `fdt_wip.c`)

The reading half of libfdt as `FDT_ASSUME_MASK` 0xff leaves it: of the checks, what
`fdt_offset_ptr` compares with the size of the structure block stays. A tree is at an address `fdt`
of memory, its nodes and properties are offsets into its structure block. Strings are without their
NUL.

A result is none where the source has no meaning: at the pointer `NULL`, and where an offset does
not fit an `int`.
-/

namespace PBoot

open Bytes

/-- The error codes that are left. -/
inductive FdtError where
  | notFound
  | exists_
  | noSpace
  | badOffset
  | badPath
  | badStructure
  | badNCells
  | badMagic
  deriving DecidableEq, Repr

/-! ## The header -/

/-- `fdt32_to_cpu` of the word at an address. -/
def fdt32 (m : Mem) (a : Nat) : Nat :=
  2 ^ 8 * (2 ^ 8 * (2 ^ 8 * (m a).toNat + (m (a + 1)).toNat) + (m (a + 2)).toNat) + (m (a + 3)).toNat

theorem fdt32_eq (m : Mem) (a : Nat) : fdt32 m a = ofBe32 (read m a 4) := by
  simp only [fdt32, ofBe32, Bytes.read, List.getD_cons_zero, List.getD_cons_succ, Nat.add_assoc,
    Nat.reduceAdd]
  omega

/-- `fdt64_to_cpu` of the two words at an address. -/
def fdt64 (m : Mem) (a : Nat) : Nat := fdt32 m a * 2 ^ 32 + fdt32 m (a + 4)

/-- `cpu_to_fdt64`. -/
def be64 (v : Nat) : List UInt8 := be32 (v / 2 ^ 32) ++ be32 v

@[simp] theorem length_be64 (v : Nat) : (be64 v).length = 8 := rfl

def fdtTotalsize (m : Mem) (fdt : Nat) : Nat := fdt32 m (fdt + 4)
def fdtOffDtStruct (m : Mem) (fdt : Nat) : Nat := fdt32 m (fdt + 8)
def fdtOffDtStrings (m : Mem) (fdt : Nat) : Nat := fdt32 m (fdt + 12)
def fdtOffMemRsvmap (m : Mem) (fdt : Nat) : Nat := fdt32 m (fdt + 16)
def fdtSizeDtStrings (m : Mem) (fdt : Nat) : Nat := fdt32 m (fdt + 32)
def fdtSizeDtStruct (m : Mem) (fdt : Nat) : Nat := fdt32 m (fdt + 36)

/-! ## Tags -/

def fdtTagsize : Nat := 4
def fdtBeginNode : Nat := 1
def fdtEndNode : Nat := 2
def fdtProp : Nat := 3
def fdtNop : Nat := 4
def fdtEnd : Nat := 9

/-- `FDT_TAGALIGN`. -/
def tagAlign (n : Nat) : Nat := (n + 3) / 4 * 4

/-- `fdt_offset_ptr`; none is `NULL`, also where `offset + len` wraps. -/
def fdtOffsetPtr (m : Mem) (fdt offset len : Nat) : Option Nat :=
  if offset + len ≤ fdtSizeDtStruct m fdt then some (fdt + fdtOffDtStruct m fdt + offset) else none

/-- Behind the name of a node: `do p = fdt_offset_ptr(fdt, offset++, 1); while (p && *p);` -/
def skipName (m : Mem) (fdt offset : Nat) : Nat :=
  if h : offset + 1 ≤ fdtSizeDtStruct m fdt then
    if m (fdt + fdtOffDtStruct m fdt + offset) = 0 then offset + 1
    else skipName m fdt (offset + 1)
  else offset + 1
termination_by fdtSizeDtStruct m fdt - offset
decreasing_by exact Nat.sub_lt_sub_left h (Nat.lt_succ_self offset)

theorem lt_skipName (m : Mem) (fdt offset : Nat) : offset < skipName m fdt offset := by
  induction offset using skipName.induct m fdt with
  | case1 offset h h0 =>
    rw [skipName, dif_pos h, if_pos h0]
    exact Nat.lt_succ_self _
  | case2 offset h h0 ih =>
    rw [skipName, dif_pos h, if_neg h0]
    omega
  | case3 offset h =>
    rw [skipName, dif_neg h]
    exact Nat.lt_succ_self _

/-- A tag and the offset behind it, or `FDT_END` with `-FDT_ERR_BADSTRUCTURE`. -/
inductive Tag where
  | tag (tag next : Nat)
  | bad
  deriving DecidableEq, Repr

/-- The offset behind a tag, which is an `int`. -/
def nextOffset (tag offset : Nat) : Option Tag :=
  if tagAlign offset < 2 ^ 31 then some (.tag tag (tagAlign offset)) else none

/-- `fdt_next_tag`. -/
def fdtNextTag (m : Mem) (fdt startoffset : Nat) : Option Tag := do
  let tagp ← fdtOffsetPtr m fdt startoffset fdtTagsize
  let tag := fdt32 m tagp
  let offset := startoffset + fdtTagsize
  if tag = fdtBeginNode then nextOffset tag (skipName m fdt offset)
  else if tag = fdtProp then
    (fdtOffsetPtr m fdt offset 4).bind fun lenp => nextOffset tag (offset + 8 + fdt32 m lenp)
  else if tag = fdtEnd ∨ tag = fdtEndNode ∨ tag = fdtNop then nextOffset tag offset
  else some .bad

theorem le_tagAlign (n : Nat) : n ≤ tagAlign n := by
  unfold tagAlign
  omega

theorem nextOffset_lt {tag tag' offset next : Nat} (h : nextOffset tag offset = some (.tag tag' next)) :
    offset ≤ next := by
  unfold nextOffset at h
  split at h
  · cases h
    exact le_tagAlign offset
  · cases h

/-- **A tag has a size**, and starts within the structure block. -/
theorem fdtNextTag_lt {m : Mem} {fdt startoffset tag next : Nat}
    (h : fdtNextTag m fdt startoffset = some (.tag tag next)) :
    startoffset < next ∧ startoffset < fdtSizeDtStruct m fdt := by
  unfold fdtNextTag at h
  obtain ⟨tagp, hp, h⟩ := Option.bind_eq_some_iff.1 h
  have hlt : startoffset < fdtSizeDtStruct m fdt := by
    unfold fdtOffsetPtr fdtTagsize at hp
    split at hp
    · omega
    · cases hp
  refine ⟨?_, hlt⟩
  dsimp only [fdtTagsize] at h
  split at h
  · have := nextOffset_lt h
    have := lt_skipName m fdt (startoffset + 4)
    omega
  split at h
  · obtain ⟨lenp, -, h⟩ := Option.bind_eq_some_iff.1 h
    have := nextOffset_lt h
    omega
  split at h
  · have := nextOffset_lt h
    omega
  · cases h

/-! ## Nodes -/

/-- `fdt_check_node_offset_`, for an offset that is not negative. -/
def fdtCheckNodeOffset (m : Mem) (fdt offset : Nat) : Option (Except FdtError Nat) :=
  if offset % fdtTagsize ≠ 0 then some (.error .badOffset)
  else (fdtNextTag m fdt offset).map fun
    | .tag tag next => if tag = fdtBeginNode then .ok next else .error .badOffset
    | .bad => .error .badOffset

/-- The loop of `fdt_next_node`, with the depth it leaves. -/
def nextNodeFrom (m : Mem) (fdt offset : Nat) (depth : Int) : Option (Except FdtError Nat × Int) :=
  match h : fdtNextTag m fdt offset with
  | none => none
  | some .bad => some (.error .badStructure, depth)
  | some (.tag tag next) =>
    have := fdtNextTag_lt h
    if tag = fdtProp ∨ tag = fdtNop then nextNodeFrom m fdt next depth
    else if tag = fdtBeginNode then some (.ok offset, depth + 1)
    else if tag = fdtEndNode then
      if depth - 1 < 0 then some (.ok next, depth - 1) else nextNodeFrom m fdt next (depth - 1)
    else some (.error .notFound, depth)
termination_by fdtSizeDtStruct m fdt - offset
decreasing_by all_goals exact Nat.sub_lt_sub_left this.2 this.1

/-- `fdt_next_node`, for an offset that is not negative. -/
def fdtNextNode (m : Mem) (fdt offset : Nat) (depth : Int) : Option (Except FdtError Nat × Int) :=
  (fdtCheckNodeOffset m fdt offset).bind fun
    | .error e => some (.error e, depth)
    | .ok next => nextNodeFrom m fdt next depth

theorem nextNodeFrom_eq (m : Mem) (fdt offset : Nat) (depth : Int) :
    nextNodeFrom m fdt offset depth = (fdtNextTag m fdt offset).bind fun
      | .bad => some (.error .badStructure, depth)
      | .tag tag next =>
        if tag = fdtProp ∨ tag = fdtNop then nextNodeFrom m fdt next depth
        else if tag = fdtBeginNode then some (.ok offset, depth + 1)
        else if tag = fdtEndNode then
          if depth - 1 < 0 then some (.ok next, depth - 1) else nextNodeFrom m fdt next (depth - 1)
        else some (.error .notFound, depth) := by
  rw [nextNodeFrom]
  split <;> simp [*]

theorem nextNodeFrom_le {m : Mem} {fdt offset o : Nat} {depth d : Int}
    (h : nextNodeFrom m fdt offset depth = some (.ok o, d)) : offset ≤ o := by
  fun_induction nextNodeFrom m fdt offset depth with
  | case1 => cases h
  | case2 => cases h
  | case3 _ _ tag next _ hlt _ ih => exact Nat.le_trans (Nat.le_of_lt hlt.1) (ih h)
  | case4 => cases h; exact Nat.le_refl _
  | case5 _ _ _ _ _ hlt => cases h; exact Nat.le_of_lt hlt.1
  | case6 _ _ _ _ _ hlt _ _ ih => exact Nat.le_trans (Nat.le_of_lt hlt.1) (ih h)
  | case7 => cases h

theorem fdtNextNode_lt {m : Mem} {fdt offset o : Nat} {depth d : Int}
    (h : fdtNextNode m fdt offset depth = some (.ok o, d)) :
    offset < o ∧ offset < fdtSizeDtStruct m fdt := by
  unfold fdtNextNode fdtCheckNodeOffset at h
  split at h
  · cases h
  · obtain ⟨r, hr, h⟩ := Option.bind_eq_some_iff.1 h
    obtain ⟨t, ht, rfl⟩ := Option.map_eq_some_iff.1 hr
    cases t with
    | bad => cases h
    | tag tag next =>
      dsimp only at h
      split at h
      · cases h
      · rename_i next' hok
        split at hok
        · cases hok
          obtain ⟨hlt, hsize⟩ := fdtNextTag_lt ht
          exact ⟨Nat.lt_of_lt_of_le hlt (nextNodeFrom_le h), hsize⟩
        · cases hok

/-- How a walk over the nodes from one on ends. -/
inductive Visit where
  /-- At a node that is looked for. -/
  | hit (offset : Nat)
  /-- With an error or behind the node the walk started from, at this depth. -/
  | exit_ (offset : Except FdtError Nat) (depth : Int)

/-- `for (; offset >= 0 && depth >= 0; offset = fdt_next_node(fdt, offset, &depth))`, which ends at
a node `hit` holds for. -/
def visitNodes (m : Mem) (fdt : Nat) (hit : Nat → Int → Bool) (offset : Nat) (depth : Int) :
    Option Visit :=
  if hit offset depth then some (.hit offset)
  else match h : fdtNextNode m fdt offset depth with
    | none => none
    | some (.error e, d) => some (.exit_ (.error e) d)
    | some (.ok o, d) =>
      have := fdtNextNode_lt h
      if d < 0 then some (.exit_ (.ok o) d) else visitNodes m fdt hit o d
termination_by fdtSizeDtStruct m fdt - offset
decreasing_by exact Nat.sub_lt_sub_left this.2 this.1

/-- `fdt_nodename_eq_`; `s` has no NUL. -/
def fdtNodenameEq (m : Mem) (fdt offset : Nat) (s : List UInt8) : Bool :=
  let p := fdt + fdtOffDtStruct m fdt + offset + fdtTagsize
  read m p s.length == s &&
    (m (p + s.length) == 0 || (!s.contains 64 && m (p + s.length) == 64))

/-- `fdt_subnode_offset_namelen`, for an offset that is not negative. -/
def fdtSubnodeOffset (m : Mem) (fdt offset : Nat) (name : List UInt8) :
    Option (Except FdtError Nat) :=
  (visitNodes m fdt (fun o depth => depth == 1 && fdtNodenameEq m fdt o name) offset 0).map fun
    | .hit o => .ok o
    | .exit_ res depth => if depth < 0 then .error .notFound else res

/-- `fdt_node_end_offset_`. -/
def fdtNodeEndOffset (m : Mem) (fdt offset : Nat) : Option (Except FdtError Nat) :=
  (visitNodes m fdt (fun _ _ => false) offset 0).map fun
    | .hit o => .ok o
    | .exit_ res _ => res

/-! ## Properties -/

/-- `nextprop_`. -/
def nextprop (m : Mem) (fdt offset : Nat) : Option (Except FdtError Nat) :=
  match h : fdtNextTag m fdt offset with
  | none => none
  | some .bad => some (.error .badStructure)
  | some (.tag tag next) =>
    have := fdtNextTag_lt h
    if tag = fdtEnd then some (.error .badStructure)
    else if tag = fdtProp then some (.ok offset)
    else if tag = fdtNop then nextprop m fdt next
    else some (.error .notFound)
termination_by fdtSizeDtStruct m fdt - offset
decreasing_by exact Nat.sub_lt_sub_left this.2 this.1

theorem nextprop_eq (m : Mem) (fdt offset : Nat) :
    nextprop m fdt offset = (fdtNextTag m fdt offset).bind fun
      | .bad => some (.error .badStructure)
      | .tag tag next =>
        if tag = fdtEnd then some (.error .badStructure)
        else if tag = fdtProp then some (.ok offset)
        else if tag = fdtNop then nextprop m fdt next
        else some (.error .notFound) := by
  rw [nextprop]
  split <;> simp [*]

theorem nextprop_le {m : Mem} {fdt offset o : Nat} (h : nextprop m fdt offset = some (.ok o)) :
    offset ≤ o := by
  fun_induction nextprop m fdt offset with
  | case1 => cases h
  | case2 => cases h
  | case3 => cases h
  | case4 => cases h; exact Nat.le_refl _
  | case5 _ _ _ hlt _ _ ih => exact Nat.le_trans (Nat.le_of_lt hlt.1) (ih h)
  | case6 => cases h

/-- `fdt_first_property_offset`. -/
def fdtFirstPropertyOffset (m : Mem) (fdt nodeoffset : Nat) : Option (Except FdtError Nat) :=
  (fdtCheckNodeOffset m fdt nodeoffset).bind fun
    | .error e => some (.error e)
    | .ok next => nextprop m fdt next

/-- `fdt_check_prop_offset_`. -/
def fdtCheckPropOffset (m : Mem) (fdt offset : Nat) : Option (Except FdtError Nat) :=
  if offset % fdtTagsize ≠ 0 then some (.error .badOffset)
  else (fdtNextTag m fdt offset).map fun
    | .tag tag next => if tag = fdtProp then .ok next else .error .badOffset
    | .bad => .error .badOffset

/-- `fdt_next_property_offset`. -/
def fdtNextPropertyOffset (m : Mem) (fdt offset : Nat) : Option (Except FdtError Nat) :=
  (fdtCheckPropOffset m fdt offset).bind fun
    | .error e => some (.error e)
    | .ok next => nextprop m fdt next

theorem fdtNextPropertyOffset_lt {m : Mem} {fdt offset o : Nat}
    (h : fdtNextPropertyOffset m fdt offset = some (.ok o)) :
    offset < o ∧ offset < fdtSizeDtStruct m fdt := by
  unfold fdtNextPropertyOffset fdtCheckPropOffset at h
  split at h
  · cases h
  · obtain ⟨r, hr, h⟩ := Option.bind_eq_some_iff.1 h
    obtain ⟨t, ht, rfl⟩ := Option.map_eq_some_iff.1 hr
    cases t with
    | bad => cases h
    | tag tag next =>
      dsimp only at h
      split at h
      · cases h
      · rename_i next' hok
        split at hok
        · cases hok
          obtain ⟨hlt, hsize⟩ := fdtNextTag_lt ht
          exact ⟨Nat.lt_of_lt_of_le hlt (nextprop_le h), hsize⟩
        · cases hok

/-- `!strcmp`: the string at an address is `s`, which has no NUL. -/
def isStr (m : Mem) (a : Nat) (s : List UInt8) : Bool := read m a (s.length + 1) == s ++ [0]

/-- Where `struct fdt_property` is for a property at an offset. -/
def propAddr (m : Mem) (fdt offset : Nat) : Nat := fdt + fdtOffDtStruct m fdt + offset

/-- `fdt_string_eq_`, for the name of the property at an offset. -/
def fdtStringEq (m : Mem) (fdt offset : Nat) (name : List UInt8) : Bool :=
  isStr m (fdt + fdtOffDtStrings m fdt + fdt32 m (propAddr m fdt offset + 8)) name

/-- The loop of `fdt_get_property_namelen_`, from a property on. -/
def getPropertyFrom (m : Mem) (fdt : Nat) (name : List UInt8) (offset : Nat) :
    Option (Except FdtError Nat) :=
  if fdtStringEq m fdt offset name then some (.ok offset)
  else match h : fdtNextPropertyOffset m fdt offset with
    | none => none
    | some (.error e) => some (.error e)
    | some (.ok o) =>
      have := fdtNextPropertyOffset_lt h
      getPropertyFrom m fdt name o
termination_by fdtSizeDtStruct m fdt - offset
decreasing_by exact Nat.sub_lt_sub_left this.2 this.1

/-- `fdt_get_property`: the offset of the property, or what `*lenp` is set to. -/
def fdtGetProperty (m : Mem) (fdt nodeoffset : Nat) (name : List UInt8) :
    Option (Except FdtError Nat) :=
  (fdtFirstPropertyOffset m fdt nodeoffset).bind fun
    | .error e => some (.error e)
    | .ok o => getPropertyFrom m fdt name o

/-- The length of the property at an offset. -/
def propLen (m : Mem) (fdt offset : Nat) : Nat := fdt32 m (propAddr m fdt offset + 4)

/-- Where its value is. -/
def propData (m : Mem) (fdt offset : Nat) : Nat := propAddr m fdt offset + 12

/-- `fdt_getprop`: where the value is and how long it is. -/
def fdtGetprop (m : Mem) (fdt nodeoffset : Nat) (name : List UInt8) :
    Option (Except FdtError (Nat × Nat)) :=
  (fdtGetProperty m fdt nodeoffset name).map fun r =>
    r.map fun o => (propData m fdt o, propLen m fdt o)

/-! ## Paths -/

/-- The string at an address; none is behind the end of memory. -/
def strAt (m : Mem) (a : Nat) : Option (List UInt8) :=
  if a < 2 ^ 32 then
    if m a = 0 then some [] else (strAt m (a + 1)).map (m a :: ·)
  else none
termination_by 2 ^ 32 - a

theorem length_dropWhile_segment {path : List UInt8} (h : path.dropWhile (· == 47) ≠ []) :
    ((path.dropWhile (· == 47)).dropWhile (· != 47)).length < path.length := by
  obtain ⟨b, p, hp⟩ := List.exists_cons_of_ne_nil h
  have hb : ¬(b == 47) = true := by
    have := List.head_dropWhile_not (· == 47) h
    simpa [hp] using this
  have hle : (path.dropWhile (· == 47)).length ≤ path.length :=
    (List.dropWhile_sublist _).length_le
  rw [hp, List.dropWhile_cons_of_pos (by simpa using hb)]
  have := (List.dropWhile_sublist (l := p) (· != 47)).length_le
  rw [hp, List.length_cons] at hle
  omega

/-- The loop of `fdt_path_offset_namelen`, from a node on. -/
def walkPath (m : Mem) (fdt offset : Nat) (path : List UInt8) : Option (Except FdtError Nat) :=
  if _ : path.dropWhile (· == 47) = [] then some (.ok offset)
  else
    let p := path.dropWhile (· == 47)
    (fdtSubnodeOffset m fdt offset (p.takeWhile (· != 47))).bind fun
      | .error e => some (.error e)
      | .ok o => walkPath m fdt o (p.dropWhile (· != 47))
termination_by path.length
decreasing_by exact length_dropWhile_segment ‹_›

/-- `fdt_get_alias_namelen`; `some none` is `NULL`. -/
def fdtGetAlias (m : Mem) (fdt : Nat) (name : List UInt8) : Option (Option Nat) :=
  (walkPath m fdt 0 (ascii "/aliases")).bind fun
    | .error _ => some none
    | .ok o => (fdtGetprop m fdt o name).map fun
      | .error _ => none
      | .ok (data, _) => some data

/-- `fdt_path_offset` with a bound on the chain of aliases. -/
def pathOffset (m : Mem) (fdt : Nat) : Nat → List UInt8 → Option (Except FdtError Nat)
  | 0, _ => none
  | n + 1, path =>
    if path.head? = some 47 then walkPath m fdt 0 path
    else
      (fdtGetAlias m fdt (path.takeWhile (· != 47))).bind fun
        | none => some (.error .badPath)
        | some p => (strAt m p).bind fun target => (pathOffset m fdt n target).bind fun
          -- no node is found below a negative offset, which is returned as it is
          | .error e => some (.error e)
          | .ok o => walkPath m fdt o (path.dropWhile (· != 47))

/-- `fdt_path_offset`. A chain of more aliases than the structure block has bytes is a cycle, on
which the source does not return. -/
def fdtPathOffset (m : Mem) (fdt : Nat) (path : List UInt8) : Option (Except FdtError Nat) :=
  pathOffset m fdt (fdtSizeDtStruct m fdt + 1) path

/-! ## Cells (`fdt_addresses.c`) -/

/-- `fdt_cells`. -/
def fdtCells (m : Mem) (fdt nodeoffset : Nat) (name : List UInt8) : Option (Except FdtError Nat) :=
  (fdtGetprop m fdt nodeoffset name).map fun
    | .error e => .error e
    | .ok (c, len) =>
      if len ≠ 4 then .error .badNCells
      else if 4 < fdt32 m c then .error .badNCells
      else .ok (fdt32 m c)

/-- `fdt_address_cells`. -/
def fdtAddressCells (m : Mem) (fdt nodeoffset : Nat) : Option (Except FdtError Nat) :=
  (fdtCells m fdt nodeoffset (ascii "#address-cells")).map fun
    | .ok 0 => .error .badNCells
    | .error .notFound => .ok 2
    | r => r

/-- `fdt_size_cells`. -/
def fdtSizeCells (m : Mem) (fdt nodeoffset : Nat) : Option (Except FdtError Nat) :=
  (fdtCells m fdt nodeoffset (ascii "#size-cells")).map fun
    | .error .notFound => .ok 1
    | r => r

/-! ## Reservations -/

/-- `fdt_mem_rsv_`: where a reservation is. -/
def memRsvAddr (m : Mem) (fdt n : Nat) : Nat := fdt + fdtOffMemRsvmap m fdt + 16 * n

/-- `fdt_get_mem_rsv`. -/
def fdtGetMemRsv (m : Mem) (fdt n : Nat) : Nat × Nat :=
  (fdt64 m (memRsvAddr m fdt n), fdt64 m (memRsvAddr m fdt n + 8))

/-- The loop of `fdt_num_mem_rsv`; none is behind the end of memory. -/
def numMemRsvFrom (m : Mem) (fdt i : Nat) : Option Nat :=
  if memRsvAddr m fdt i < 2 ^ 32 then
    if (fdtGetMemRsv m fdt i).2 = 0 then some i else numMemRsvFrom m fdt (i + 1)
  else none
termination_by 2 ^ 32 - memRsvAddr m fdt i
decreasing_by
  have : memRsvAddr m fdt i < memRsvAddr m fdt (i + 1) := Nat.add_lt_add_left (by omega) _
  omega

/-- `fdt_num_mem_rsv`. -/
def fdtNumMemRsv (m : Mem) (fdt : Nat) : Option Nat := numMemRsvFrom m fdt 0

end PBoot
