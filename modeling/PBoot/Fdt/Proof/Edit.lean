import PBoot.Fdt.Proof.Lookup
import PBoot.Fdt.Proof.Splice

/-!
# Editing the blocks

What the writing functions of `fdt_rw.c` do to the blocks.

* `wp_findAddString`: the string is found, or put behind the others if there is room for it.
* `Raw.At.fillProp`: a property that has been made room for is stored.
* `wp_resizeProperty`, `wp_addProperty`: room for a value.
* `wp_addSubnodeAt`, `wp_delNodeAt`: a node is inserted, and cut out.
-/

namespace PBoot

open Bytes Progs Trees

variable {r : Raw} {m : Mem} {fdt : Nat} {A B X : List UInt8}

theorem exists_append {xs : List UInt8} (n k : Nat) (h : xs.length = n + k) :
    ∃ ys zs : List UInt8, xs = ys ++ zs ∧ ys.length = n ∧ zs.length = k :=
  ⟨xs.take n, xs.drop n, (List.take_append_drop n xs).symm, by simp; omega, by simp; omega⟩

theorem Raw.used_withStruct (r : Raw) (s : List UInt8) :
    (r.withStruct s).used + r.struct.length = r.used + s.length := by
  simp only [Raw.used, Raw.offStrings, Raw.withStruct_offStruct, Raw.withStruct_struct,
    Raw.withStruct_strings]
  change r.offStruct + s.length + r.gap2 + r.strings.length + r.struct.length = _
  omega

theorem Raw.used_withStrings (r : Raw) (s : List UInt8) :
    (r.withStrings s).used + r.strings.length = r.used + s.length := by
  simp only [Raw.used, Raw.withStrings_offStrings, Raw.withStrings_strings]
  omega

theorem Raw.used_withRsv (r : Raw) (s : List UInt8) :
    (r.withRsv s).used + r.rsv.length = r.used + s.length := by
  simp only [Raw.used, Raw.offStrings, Raw.withRsv_offStruct, Raw.withRsv_strings]
  change r.offRsv + s.length + r.gap1 + r.struct.length + r.gap2 + r.strings.length + _ =
    r.offRsv + r.rsv.length + r.gap1 + r.struct.length + r.gap2 + r.strings.length + _
  omega

/-! ## Strings -/

/-- A string with its NUL is in a strings block at an offset. -/
def StringAt (strings : List UInt8) (i : Nat) (s : List UInt8) : Prop :=
  ∃ t, strings.drop i = s ++ 0 :: t

/-- `fdt_find_string_` finds a string that is there. -/
theorem findString_some {s : List UInt8} {i : Nat} (h : r.At m fdt)
    (hi : fdtFindString m (fdt + r.offStrings) r.strings.length s = some i) :
    i + s.length < r.strings.length ∧ StringAt r.strings i s := by
  have hlt := List.mem_range.1 (List.mem_of_find?_eq_some hi)
  have hfound : isStr m (fdt + r.offStrings + i) s = true :=
    List.find?_some (p := fun i => isStr m (fdt + r.offStrings + i) s) hi
  have hstr := isStr_iff.1 hfound
  have hdrop := h.stringsAt.drop (k := i) (by omega)
  refine ⟨by omega, (r.strings.drop i).drop (s.length + 1), ?_⟩
  have hpre : s ++ [0] = (r.strings.drop i).take (s.length + 1) := by
    refine List.ext_getElem (by simp; omega) fun k hk hk' => ?_
    rw [← hstr.at hk, hdrop.at (by simp at hk' ⊢; omega), List.getElem_take]
  rw [← List.singleton_append, ← List.append_assoc, hpre, List.take_append_drop]

/-- What the name of a new property needs: nothing when it is in the strings block already. -/
def stringRoom (m : Mem) (fdt : Nat) (s : List UInt8) : Nat :=
  if (fdtFindString m (fdt + fdtOffDtStrings m fdt) (fdtSizeDtStrings m fdt) s).isSome then 0
  else s.length + 1

theorem stringRoom_le (m : Mem) (fdt : Nat) (s : List UInt8) : stringRoom m fdt s ≤ s.length + 1 := by
  unfold stringRoom
  split
  · exact Nat.zero_le _
  · exact Nat.le_refl _

/-- **A string is found in the strings block or put at its end.** -/
theorem wp_findAddString {s : List UInt8} (h : r.At m fdt) :
    wp (fdtFindAddString fdt s) (fun res m' => SameOutside m m' fdt r.total ∧
      ((∃ i extra, res = .ok i ∧ i < 2 ^ 32 ∧ extra.length = stringRoom m fdt s ∧
          StringAt (r.strings ++ extra) i s ∧ (r.withStrings (r.strings ++ extra)).At m' fdt) ∨
        res = .error .noSpace ∧ m' = m ∧ r.total < r.used + stringRoom m fdt s)) m := by
  have hsize : r.strings.length ≤ r.used := Nat.le_add_left _ _
  have hle := h.used_le
  have hlt := h.total_lt
  refine wp_bind (wp_look ?_)
  refine wp_bind (wp_look ?_)
  refine wp_bind (wp_look ?_)
  dsimp only
  unfold stringRoom
  rw [h.offDtStrings, h.sizeDtStrings]
  cases hf : fdtFindString m (fdt + r.offStrings) r.strings.length s with
  | some i =>
    obtain ⟨hi, hs⟩ := findString_some h hf
    refine wp_pure ⟨SameOutside.rfl, .inl ⟨i, [], rfl, by omega, rfl, ?_, ?_⟩⟩
    · rwa [List.append_nil]
    · rwa [List.append_nil]
  | none =>
    refine wp_bind ((wp_spliceString h).mono fun res m₁ hres => ?_)
    split at hres
    swap
    · rename_i hroom
      obtain ⟨rfl, rfl⟩ := hres
      refine ⟨SameOutside.rfl, .inr ⟨rfl, rfl, ?_⟩⟩
      rw [Option.isSome_none, if_neg Bool.false_ne_true]
      omega
    obtain ⟨rfl, hsame, Y, hY, hat⟩ := hres
    refine wp_bind (wp_change ?_)
    obtain ⟨hat', hsame'⟩ := hat.store_strings (Y := s ++ [0]) rfl (by simp [hY]) rfl
    refine wp_pure ⟨hsame.trans hsame', .inl ⟨_, s ++ [0], rfl, by omega, by simp, ⟨[], ?_⟩, hat'⟩⟩
    rw [List.drop_left' rfl]

/-! ## Properties -/

/-- A property in front of its value. -/
def propHead (len nameoff : Nat) : List UInt8 := be32 fdtProp ++ (be32 len ++ be32 nameoff)

@[simp] theorem length_propHead (len nameoff : Nat) : (propHead len nameoff).length = 12 := rfl

theorem prop_eq (p : PropEntry) :
    fdtCode.prop p = propHead p.value.length p.nameoff ++ (p.value ++ p.pad) := by
  simp only [fdtCode, propHead, List.append_assoc]

theorem Raw.withStruct_withStruct (r : Raw) (s s' : List UInt8) :
    (r.withStruct s).withStruct s' = r.withStruct s' := rfl

/-- **A property is stored where there is room for it.** -/
theorem Raw.At.fillProp {nameoff p : Nat} {Y val : List UInt8} (h : r.At m fdt)
    (hs : r.struct = A ++ (propHead val.length nameoff ++ Y ++ B))
    (hY : Y.length = tagAlign val.length) (hoff : nameoff < 2 ^ 32)
    (hp : p = fdt + r.offStruct + A.length) :
    ∃ e : PropEntry, e.nameoff = nameoff ∧ e.value = val ∧
      (r.withStruct (A ++ (fdtCode.prop e ++ B))).At (Bytes.write m (p + 12) val) fdt ∧
      SameOutside m (Bytes.write m (p + 12) val) fdt r.total := by
  have hle := h.used_le
  have hlt := h.total_lt
  have halign : val.length ≤ tagAlign val.length ∧ tagAlign val.length < val.length + 4 ∧
      tagAlign val.length % 4 = 0 := ⟨le_tagAlign _, by unfold tagAlign; omega, tagAlign_mod _⟩
  have hlen : r.struct.length = A.length + (12 + Y.length + B.length) := by
    rw [hs]
    simp only [List.length_append, length_propHead]
  have hused : r.struct.length ≤ r.used := by
    unfold Raw.used Raw.offStrings
    omega
  have hsplit := List.take_append_drop val.length Y
  have hval : (Y.take val.length).length = val.length := by
    rw [List.length_take]
    omega
  have hpad : (Y.drop val.length).length = tagAlign val.length - val.length := by
    rw [List.length_drop, hY]
  have hs' : r.struct = (A ++ propHead val.length nameoff) ++
      (Y.take val.length ++ (Y.drop val.length ++ B)) := by
    rw [hs, ← List.append_assoc (Y.take val.length), hsplit]
    simp only [List.append_assoc]
  obtain ⟨hat, hsame⟩ := h.storeBytes (Y := val) (p := p + 12) hs' hval.symm (by
    rw [hp, List.length_append, length_propHead]
    omega)
  refine ⟨⟨nameoff, val, Y.drop val.length, hoff, by omega, by omega, by omega⟩, rfl, rfl, ?_, hsame⟩
  rw [prop_eq]
  simp only [List.append_assoc] at hat ⊢
  exact hat

/-- **Room for another value of a property.** -/
theorem wp_resizeProperty {o len : Nat} {name : List UInt8} {p : PropEntry} (h : r.At m fdt)
    (hs : r.struct = A ++ (fdtCode.prop p ++ B))
    (hget : fdtGetProperty m fdt o name = some (.ok A.length)) :
    wp (fdtResizeProperty fdt o name len) (fun res m' => SameOutside m m' fdt r.total ∧
      ((res = .ok (fdt + r.offStruct + A.length) ∧
          r.used + tagAlign len ≤ r.total + tagAlign p.value.length ∧
          ∃ Y : List UInt8, Y.length = tagAlign len ∧
            (r.withStruct (A ++ (propHead len p.nameoff ++ Y ++ B))).At m' fdt) ∨
        res = .error .noSpace ∧ m' = m ∧
          r.total + tagAlign p.value.length < r.used + tagAlign len)) m := by
  have hin := h.structAt
  rw [hs, prop_eq, propHead] at hin
  have hlen : fdt32 m (fdt + r.offStruct + A.length + 4) = p.value.length :=
    fdt32_of_holds hin.right.left.left.right.left p.value_lt
  have hX : (p.value ++ p.pad).length = tagAlign p.value.length := by
    rw [tagAlign_value, List.length_append]
  have hs' : r.struct = (A ++ propHead p.value.length p.nameoff) ++ ((p.value ++ p.pad) ++ B) := by
    rw [hs, prop_eq]
    simp only [List.append_assoc]
  refine wp_bind (wp_reads hget ?_)
  refine wp_bind (wp_look ?_)
  refine wp_bind (wp_look ?_)
  dsimp only
  rw [propLen, propAddr, h.offDtStruct, hlen, ← hX]
  refine wp_bind ((wp_spliceStruct h hs' (by
    rw [List.length_append, length_propHead]
    omega)).mono fun res m₁ hres => ?_)
  split at hres
  swap
  · rename_i hroom
    obtain ⟨rfl, rfl⟩ := hres
    exact ⟨SameOutside.rfl, .inr ⟨rfl, rfl, by omega⟩⟩
  rename_i hroom
  obtain ⟨rfl, hsame, Y, hY, hat⟩ := hres
  refine wp_bind (wp_change ?_)
  have hs₁ : (r.withStruct (A ++ propHead p.value.length p.nameoff ++ (Y ++ B))).struct =
      (A ++ be32 fdtProp) ++ (be32 p.value.length ++ (be32 p.nameoff ++ (Y ++ B))) := by
    simp only [Raw.withStruct_struct, propHead, List.append_assoc]
  obtain ⟨hat', hsame'⟩ := hat.storeBytes (Y := be32 len) (p := fdt + r.offStruct + A.length + 4) hs₁
    rfl (by
      rw [List.length_append, Raw.withStruct_offStruct]
      exact Nat.add_assoc _ _ _)
  refine wp_pure ⟨hsame.trans hsame', .inl ⟨rfl, by omega, Y, hY, ?_⟩⟩
  rw [Raw.withStruct_withStruct] at hat'
  simp only [propHead, List.append_assoc] at hat' ⊢
  exact hat'

/-- The memory after the stores of a property's head. -/
def storeHead (m : Mem) (p len nameoff : Nat) : Mem :=
  Bytes.write (Bytes.write (Bytes.write m p (be32 fdtProp)) (p + 8) (be32 nameoff)) (p + 4) (be32 len)

/-- **A property's head is stored in the place made for the property.** -/
theorem Raw.At.storeHead {p len : Nat} (h : r.At m fdt) (hs : r.struct = A ++ (X ++ B))
    (hX : X.length = 12 + tagAlign len) (hp : p = fdt + r.offStruct + A.length) (nameoff : Nat) :
    ∃ Y : List UInt8, Y.length = tagAlign len ∧
      (r.withStruct (A ++ (propHead len nameoff ++ Y ++ B))).At (PBoot.storeHead m p len nameoff) fdt ∧
      SameOutside m (PBoot.storeHead m p len nameoff) fdt r.total := by
  obtain ⟨X₀, X', rfl, h₀, hX'⟩ := exists_append 4 (8 + tagAlign len) (hX.trans (by omega))
  obtain ⟨X₁, X'', rfl, h₁, hX''⟩ := exists_append 4 (4 + tagAlign len) (hX'.trans (by omega))
  obtain ⟨X₂, X₃, rfl, h₂, h₃⟩ := exists_append 4 (tagAlign len) hX''
  obtain ⟨hat₁, hsame₁⟩ := h.storeBytes (Y := be32 fdtProp) (A := A) (X := X₀)
    (B := X₁ ++ (X₂ ++ (X₃ ++ B))) (by simp only [hs, List.append_assoc]) h₀.symm hp
  obtain ⟨hat₂, hsame₂⟩ := hat₁.storeBytes (Y := be32 nameoff) (A := A ++ (be32 fdtProp ++ X₁))
    (X := X₂) (B := X₃ ++ B) (p := p + 8)
    (by simp only [Raw.withStruct_struct, List.append_assoc]) h₂.symm (by
      simp only [hp, Raw.offStruct, List.length_append, length_be32, h₁]
      rfl)
  obtain ⟨hat₃, hsame₃⟩ := hat₂.storeBytes (Y := be32 len) (A := A ++ be32 fdtProp)
    (X := X₁) (B := be32 nameoff ++ (X₃ ++ B)) (p := p + 4)
    (by simp only [Raw.withStruct_struct, List.append_assoc]) h₁.symm (by
      simp only [hp, Raw.offStruct, List.length_append, length_be32]
      rfl)
  refine ⟨X₃, h₃, ?_, (hsame₁.trans hsame₂).trans hsame₃⟩
  simp only [Raw.withStruct_withStruct, propHead, List.append_assoc] at hat₃ ⊢
  exact hat₃

/-- **Room for a new property.** -/
theorem wp_addProperty {o len : Nat} {name : List UInt8} (h : r.At m fdt)
    (hs : r.struct = A ++ B) (hnode : fdtCheckNodeOffset m fdt o = some (.ok A.length)) :
    wp (fdtAddProperty fdt o name len) (fun res m' => SameOutside m m' fdt r.total ∧
      ∃ extra : List UInt8,
        ((res = .ok (fdt + r.offStruct + A.length) ∧
            r.used + stringRoom m fdt name + (12 + tagAlign len) ≤ r.total ∧
            extra.length = stringRoom m fdt name ∧ ∃ nameoff, nameoff < 2 ^ 32 ∧
            StringAt (r.strings ++ extra) nameoff name ∧
            ∃ Y : List UInt8, Y.length = tagAlign len ∧ ((r.withStrings
              (r.strings ++ extra)).withStruct (A ++ (propHead len nameoff ++ Y ++ B))).At m' fdt) ∨
          res = .error .noSpace ∧ (r.withStrings (r.strings ++ extra)).At m' fdt ∧
            r.total < r.used + stringRoom m fdt name + (12 + tagAlign len))) m := by
  refine wp_bind (wp_reads hnode ?_)
  dsimp only
  refine wp_bind ((wp_findAddString h).mono fun res m₁ ⟨hsame, hres⟩ => ?_)
  rcases hres with ⟨nameoff, extra, rfl, hlt, hextra, hstr, hat⟩ | ⟨rfl, rfl, hroom⟩
  swap
  · exact ⟨hsame, [], .inr ⟨rfl, by rwa [List.append_nil], by omega⟩⟩
  refine wp_bind (wp_look ?_)
  dsimp only
  rw [propAddr, hat.offDtStruct]
  refine wp_bind ((wp_spliceStruct (X := []) hat (by rwa [List.nil_append]) rfl).mono
    fun res m₂ hres => ?_)
  have hused := Raw.used_withStrings r (r.strings ++ extra)
  rw [List.length_append] at hused
  split at hres
  · rename_i hroom
    rw [Raw.withStrings_total, List.length_nil] at hroom
    obtain ⟨rfl, hsame₂, X, hX, hat₂⟩ := hres
    obtain ⟨Y, hY, hat₃, hsame₃⟩ := hat₂.storeHead (Raw.withStruct_struct _ _) hX rfl nameoff
    refine wp_bind (wp_change (wp_bind (wp_change (wp_bind (wp_change (wp_pure ?_))))))
    exact ⟨(hsame.trans hsame₂).trans hsame₃, extra,
      .inl ⟨rfl, by omega, hextra, nameoff, hlt, hstr, Y, hY, hat₃⟩⟩
  · rename_i hroom
    obtain ⟨rfl, rfl⟩ := hres
    rw [Raw.withStrings_total, List.length_nil] at hroom
    exact ⟨hsame, extra, .inr ⟨rfl, hat, by omega⟩⟩

/-- Cutting out a part of the structure block always succeeds. -/
theorem wp_cutStruct {p : Nat} (h : r.At m fdt) (hs : r.struct = A ++ (X ++ B))
    (hp : p = fdt + r.offStruct + A.length) :
    wp (fdtSpliceStruct fdt p X.length 0) (fun res m' => res = .ok () ∧
      SameOutside m m' fdt r.total ∧ (r.withStruct (A ++ B)).At m' fdt) m := by
  refine (wp_spliceStruct h hs hp).mono fun res m' hres => ?_
  rw [if_pos (by have := h.used_le; omega)] at hres
  obtain ⟨rfl, hsame, Y, hY, hat⟩ := hres
  obtain rfl := List.eq_nil_of_length_eq_zero hY
  exact ⟨rfl, hsame, hat⟩

theorem wp_delprop {o : Nat} {name : List UInt8} {p : PropEntry} (h : r.At m fdt)
    (hs : r.struct = A ++ (fdtCode.prop p ++ B))
    (hget : fdtGetProperty m fdt o name = some (.ok A.length)) :
    wp (fdtDelprop fdt o name) (fun res m' => res = .ok () ∧ SameOutside m m' fdt r.total ∧
      (r.withStruct (A ++ B)).At m' fdt) m := by
  have hin := h.structAt
  rw [hs, prop_eq, propHead] at hin
  have hlen : fdt32 m (fdt + r.offStruct + A.length + 4) = p.value.length :=
    fdt32_of_holds hin.right.left.left.right.left p.value_lt
  refine wp_bind (wp_reads hget ?_)
  refine wp_bind (wp_look ?_)
  refine wp_bind (wp_look ?_)
  dsimp only
  rw [propLen, propAddr, h.offDtStruct, hlen, ← length_prop]
  exact wp_cutStruct h hs rfl

/-! ## Nodes -/

/-- The name of a new node. -/
def newName (name : List UInt8) (h0 : 0 ∉ name) : NodeName where
  name := name
  pad := List.replicate (tagAlign (name.length + 1) - (name.length + 1)) 0
  noNul := h0
  aligned := by
    rw [List.length_replicate]
    unfold tagAlign
    omega
  short := by
    rw [List.length_replicate]
    unfold tagAlign
    omega

/-- The bytes of a new node. -/
theorem newNode_eq {name : List UInt8} (h0 : 0 ∉ name) :
    fdtCode.node ⟨newName name h0, [], []⟩ =
      be32 fdtBeginNode ++ (name ++ 0 :: (newName name h0).pad) ++ be32 fdtEndNode := by
  rw [Code.node, Code.props_nil, Code.items_nil, List.append_nil, List.append_nil]
  rfl

/-- The memory after the stores of a new node. -/
def storeNode (m : Mem) (p : Nat) (name : List UInt8) : Mem :=
  let size := tagAlign (name.length + 1)
  let m := Bytes.write m p (be32 fdtBeginNode)
  let m := Bytes.write (Bytes.write m (p + 4) (List.replicate size 0)) (p + 4) name
  Bytes.write m (p + (4 + size + 4) - 4) (be32 fdtEndNode)

/-- **A new node is stored in the place made for it.** -/
theorem Raw.At.storeNode {name : List UInt8} (h : r.At m fdt) (h0 : 0 ∉ name)
    (hs : r.struct = A ++ (X ++ B)) (hX : X.length = 8 + tagAlign (name.length + 1))
    (hp : p = fdt + r.offStruct + A.length) :
    (r.withStruct (A ++ (fdtCode.node ⟨newName name h0, [], []⟩ ++ B))).At
        (PBoot.storeNode m p name) fdt ∧
      SameOutside m (PBoot.storeNode m p name) fdt r.total := by
  have hT : name.length + 1 ≤ tagAlign (name.length + 1) := le_tagAlign _
  obtain ⟨X₀, X', rfl, h₀, hX'⟩ := exists_append 4 (tagAlign (name.length + 1) + 4)
    (hX.trans (by omega))
  obtain ⟨X₁, X₂, rfl, h₁, h₂⟩ := exists_append _ _ hX'
  obtain ⟨hat₁, hsame₁⟩ := h.storeBytes (Y := be32 fdtBeginNode) (A := A) (X := X₀)
    (B := X₁ ++ (X₂ ++ B)) (by simp only [hs, List.append_assoc]) h₀.symm hp
  obtain ⟨hat₂, hsame₂⟩ := hat₁.storeBytes (Y := List.replicate (tagAlign (name.length + 1)) 0)
    (A := A ++ be32 fdtBeginNode) (X := X₁) (B := X₂ ++ B) (p := p + 4)
    (by simp only [Raw.withStruct_struct, List.append_assoc]) (by rw [List.length_replicate, h₁])
    (by
      rw [hp, List.length_append, length_be32, ← Nat.add_assoc]
      rfl)
  have hzero : List.replicate (tagAlign (name.length + 1)) (0 : UInt8) =
      List.replicate name.length 0 ++ (0 :: (newName name h0).pad) := by
    rw [newName, ← List.replicate_succ, ← List.replicate_add]
    congr 1
    omega
  -- the zeros behind the name stay
  obtain ⟨hat₃, hsame₃⟩ := hat₂.storeBytes (Y := name) (A := A ++ be32 fdtBeginNode)
    (X := List.replicate name.length 0) (B := 0 :: (newName name h0).pad ++ (X₂ ++ B)) (p := p + 4)
    (by
      rw [Raw.withStruct_struct, hzero]
      simp only [List.append_assoc])
    List.length_replicate.symm (by
      rw [hp, List.length_append, length_be32, ← Nat.add_assoc]
      rfl)
  obtain ⟨hat₄, hsame₄⟩ := hat₃.storeBytes (Y := be32 fdtEndNode)
    (A := A ++ (be32 fdtBeginNode ++ (name ++ 0 :: (newName name h0).pad)))
    (X := X₂) (B := B) (p := p + (4 + tagAlign (name.length + 1) + 4) - 4)
    (by simp only [Raw.withStruct_struct, List.append_assoc]) h₂.symm (by
      have hlen : (be32 fdtBeginNode ++ (name ++ 0 :: (newName name h0).pad)).length =
          4 + tagAlign (name.length + 1) := length_head (newName name h0)
      rw [List.length_append, hlen]
      simp only [Raw.withStruct_offStruct]
      omega)
  refine ⟨?_, ((hsame₁.trans hsame₂).trans hsame₃).trans hsame₄⟩
  rw [newNode_eq h0]
  simp only [Raw.withStruct_withStruct, List.append_assoc] at hat₄ ⊢
  exact hat₄

theorem wp_addSubnodeAt {o : Nat} {name : List UInt8} (h : r.At m fdt) (h0 : 0 ∉ name)
    (hs : r.struct = A ++ B) (hnone : fdtSubnodeOffset m fdt o name = some (.error .notFound))
    (hnew : newNodeOffset m fdt o = some A.length) :
    wp (fdtAddSubnode fdt o name) (fun res m' => SameOutside m m' fdt r.total ∧
      ((res = .ok A.length ∧ r.used + (8 + tagAlign (name.length + 1)) ≤ r.total ∧
          (r.withStruct (A ++ (fdtCode.node ⟨newName name h0, [], []⟩ ++ B))).At m' fdt) ∨
        res = .error .noSpace ∧ m' = m ∧
          r.total < r.used + (8 + tagAlign (name.length + 1)))) m := by
  refine wp_bind (wp_attempt (wp_reads hnone ?_))
  refine wp_bind (wp_reads (by rw [hnew]; rfl) ?_)
  refine wp_bind (wp_look ?_)
  dsimp only
  rw [h.offDtStruct]
  refine wp_bind ((wp_spliceStruct (X := []) h (by rwa [List.nil_append]) rfl).mono
    fun res m₁ hres => ?_)
  split at hres
  · rename_i hroom
    rw [List.length_nil] at hroom
    obtain ⟨rfl, hsame, Y, hY, hat⟩ := hres
    obtain ⟨hnode, hsame'⟩ := hat.storeNode h0 (Raw.withStruct_struct _ _) (hY.trans (by omega)) rfl
    refine wp_bind (wp_change (wp_bind (wp_change (wp_bind (wp_change (wp_bind (wp_change
      (wp_pure ?_))))))))
    exact ⟨hsame.trans hsame', .inl ⟨rfl, by omega, hnode⟩⟩
  · rename_i hroom
    rw [List.length_nil] at hroom
    obtain ⟨rfl, rfl⟩ := hres
    exact ⟨SameOutside.rfl, .inr ⟨rfl, rfl, by omega⟩⟩

theorem wp_delNodeAt (h : r.At m fdt) (hs : r.struct = A ++ (X ++ B))
    (hend : fdtNodeEndOffset m fdt A.length = some (.ok (A.length + X.length))) :
    wp (fdtDelNode fdt A.length) (fun res m' => res = .ok () ∧ SameOutside m m' fdt r.total ∧
      (r.withStruct (A ++ B)).At m' fdt) m := by
  refine wp_bind (wp_reads hend ?_)
  refine wp_bind (wp_look ?_)
  dsimp only
  rw [h.offDtStruct, Nat.add_sub_cancel_left]
  exact wp_cutStruct h hs rfl

end PBoot
