import PBoot.Fdt.Proof.Tree

/-!
# Edits where there is room for them

`DtSince m₀ m fdt total room rsv z o`: memory holds a device tree, and is what it was at `m₀` outside
the blob. Each function of `fdt_support.c` takes such a memory to one with the edited tree, as long
as the room is enough: so they are put one behind the other.

* `DtSince.setprop`, `DtSince.kid`, `DtSince.delNode`, `DtSince.addMemRsv`, `DtSince.delMemRsvAt`:
  single edits.
* `DtSince.increaseSize`, `DtSince.shrink`: the size of the blob.
-/

namespace PBoot

open Bytes Progs Trees

/-- Memory holds a device tree, and is what it was at `m₀` outside the blob. -/
structure DtSince (m₀ m : Mem) (fdt total room : Nat) (rsv : Rsv) (z : DtLoc) (o : Nat) : Prop where
  same : SameOutside m₀ m fdt total
  tree : DtAt m fdt total room rsv z o

variable {m₀ m : Mem} {fdt total room k o : Nat} {rsv : Rsv} {z : DtLoc} {name val : List UInt8}

theorem DtSince.mono {room' : Nat} (h : DtSince m₀ m fdt total room rsv z o) (hr : room' ≤ room) :
    DtSince m₀ m fdt total room' rsv z o := ⟨h.same, h.tree.mono hr⟩

theorem DtSince.root (h : DtSince m₀ m fdt total room rsv z o) :
    DtSince m₀ m fdt total room rsv z.top.loc 0 := ⟨h.same, h.tree.root⟩

/-! ## Single edits -/

theorem DtSince.setprop (h : DtSince m₀ m fdt total room rsv z o) (h0 : 0 ∉ name)
    (hk : propRoom name val ≤ k) (hr : k ≤ room) :
    wp (fdtSetprop fdt o name val) (fun res m' => res = .ok () ∧
      DtSince m₀ m' fdt total (room - k) rsv (z.set name val) o) m := by
  have hneed := setpropRoom_le m fdt z name val
  have hfree := h.tree.room_le
  refine (h.tree.setprop h0 val).mono ?_
  rintro res m' ⟨hsame, ⟨rfl, -, htree⟩ | ⟨-, hno, -⟩⟩
  · exact ⟨rfl, h.same.trans hsame, htree.mono (by omega)⟩
  · omega

theorem DtSince.delprop (h : DtSince m₀ m fdt total room rsv z o) (h0 : 0 ∉ name) :
    wp (fdtDelprop fdt o name) (fun _ m' => DtSince m₀ m' fdt total room rsv (z.del name) o) m :=
  (h.tree.delprop h0).mono fun _ _ ⟨hsame, htree⟩ => ⟨h.same.trans hsame, htree⟩

/-- **`fdt_del_node` deletes a node** below the root. -/
theorem DtSince.delNode (h : DtSince m₀ m fdt total room rsv z o) (hctx : z.ctx ≠ []) :
    wp (fdtDelNode fdt o) (fun res m' => res = .ok () ∧
      DtSince m₀ m' fdt total room rsv z.remove.loc 0) m := by
  obtain ⟨hsame₀, b, zc, hat, hok, rfl, hz, rfl, rfl, hroom, rfl⟩ := h
  have hctx' : zc.ctx ≠ [] := fun h => hctx (by rw [locView, Loc.map, h]; rfl)
  have hstruct := Blob.struct_eq hz
  refine (wp_delNodeAt hat hstruct (nodeEndOffset_eq (offsetOf_mod zc) (hat.inStruct hz))).mono ?_
  rintro _ m' ⟨rfl, hsame, hat'⟩
  refine ⟨rfl, hsame₀.trans hsame, ?_⟩
  have hview : (locView b.strings zc).remove.loc = locView b.strings zc.remove.loc := by
    rw [locView, Loc.map_remove]
    rfl
  have hS : fdtCode.node zc.remove.loc.top ++ b.tail =
      fdtCode.before zc.ctx ++ (fdtCode.after zc.ctx ++ b.tail) := by
    rw [Node.top_loc, Code.node_remove _ hctx', List.append_assoc]
  rw [hview]
  refine dtAt_of_struct hok (fun p hp => hz ▸ mem_allProps_remove hctx' hp) hS hat' fun _ => ?_
  rw [hstruct]
  simp only [List.length_append]
  omega

/-- **`fdt_find_or_add_subnode`** finds the node or adds it. -/
theorem DtSince.kid (h : DtSince m₀ m fdt total room rsv z o) (h0 : 0 ∉ name)
    (hk : nodeRoom name ≤ k) (hr : k ≤ room) :
    wp (fdtFindOrAddSubnode fdt o name) (fun res m' => ∃ o', res = .ok o' ∧
      DtSince m₀ m' fdt total (room - k) rsv (kidOrNew name z) o') m := by
  unfold kidOrNew
  cases hd : z.down (nameMatches name) with
  | none =>
    have hfree := h.tree.room_le
    refine wp_bind (wp_attempt (wp_reads (h.tree.subnode_none h0 hd) ?_))
    refine (h.tree.addSubnode h0 hd).mono ?_
    rintro res m' ⟨hsame, ⟨o', rfl, -, htree⟩ | ⟨-, hno, -⟩⟩
    · exact ⟨o', rfl, h.same.trans hsame, htree.mono (by omega)⟩
    · omega
  | some z' =>
    obtain ⟨o', ho', h'⟩ := h.tree.subnode_some h0 hd
    refine wp_bind (wp_attempt (wp_reads ho' (wp_pure ⟨o', rfl, h.same, ?_⟩)))
    exact h'.mono (Nat.sub_le _ _)

theorem DtSince.addMemRsv {address size : Nat} (h : DtSince m₀ m fdt total room rsv z o)
    (hfits : rsvFits (address, size)) (hr : 16 ≤ room) :
    wp (fdtAddMemRsv fdt address size) (fun res m' => res = .ok () ∧
      DtSince m₀ m' fdt total (room - 16) (rsv ++ [(address, size)]) z o) m := by
  refine (h.tree.addMemRsv hfits).mono ?_
  rintro res m' ⟨hsame, ⟨rfl, htree⟩ | ⟨-, hno, -⟩⟩
  · exact ⟨rfl, h.same.trans hsame, htree⟩
  · omega

theorem DtAt.findMemRsv (h : DtAt m fdt total room rsv z o) (addr : Nat) :
    findMemRsv m fdt rsv.length addr = rsv.findIdx? (·.1 == addr) := by
  have hget : ∀ i, (hi : i < rsv.length) →
      ((fdtGetMemRsv m fdt i).1 == addr) = (rsv[i].1 == addr) := fun i hi => by rw [h.getMemRsv hi]
  rw [PBoot.findMemRsv]
  cases hf : rsv.findIdx? (·.1 == addr) with
  | none =>
    rw [List.find?_eq_none]
    intro i hi
    have hi' := List.mem_range.1 hi
    rw [hget i hi', List.findIdx?_eq_none_iff.1 hf _ (List.getElem_mem hi')]
    exact Bool.false_ne_true
  | some i =>
    obtain ⟨hi, hp, hbefore⟩ := List.findIdx?_eq_some_iff_getElem.1 hf
    rw [List.find?_range_eq_some]
    refine ⟨by rw [hget i hi]; exact hp, List.mem_range.2 hi, fun j hj => ?_⟩
    rw [hget j (by omega)]
    simpa using hbefore j hj

/-- **The loops of `fdt_shrink_to_minimum` and `fdt_initrd`** delete the first reservation that starts
at an address. -/
theorem DtSince.delMemRsvAt (h : DtSince m₀ m fdt total room rsv z o) (addr : Nat) :
    wp (delMemRsvAt fdt addr) (fun res m' => res = .ok (rsv.any (·.1 == addr)) ∧
      DtSince m₀ m' fdt total room (rsv.eraseP (·.1 == addr)) z o) m := by
  refine wp_bind (wp_reads (by rw [h.tree.numMemRsv]; rfl) ?_)
  refine wp_bind (wp_look ?_)
  dsimp only
  rw [h.tree.findMemRsv addr, List.eraseP_eq_eraseIdx]
  cases hf : rsv.findIdx? (·.1 == addr) with
  | none =>
    refine wp_pure ⟨?_, h⟩
    rw [List.any_eq_false.2]
    intro e he
    rw [List.findIdx?_eq_none_iff.1 hf e he]
    exact Bool.false_ne_true
  | some i =>
    obtain ⟨hi, hp, -⟩ := List.findIdx?_eq_some_iff_getElem.1 hf
    refine wp_bind (wp_attempt ((h.tree.delMemRsv hi).mono ?_))
    rintro res m' ⟨-, hsame, htree⟩
    refine wp_pure ⟨?_, h.same.trans hsame, htree⟩
    rw [List.any_eq_true.2 ⟨_, List.getElem_mem hi, hp⟩]

/-! ## The size of the blob -/

/-- A header with another size of the blob. -/
theorem Raw.At.retotal {r : Raw} {m' : Mem} {total' : Nat} (h : r.At m fdt)
    (hw : ∀ k ∈ [0, 8, 12, 16, 32, 36], fdt32 m' (fdt + k) = fdt32 m (fdt + k))
    (hb : ∀ i, fdt + 40 ≤ i → m' i = m i) (ht : fdtTotalsize m' fdt = total')
    (hu : r.used ≤ total') (hlt : total' < 2 ^ 31) (he : fdt + total' ≤ 2 ^ 32) :
    Raw.At { r with total := total' } m' fdt := by
  obtain ⟨hstruct, hstrings, -, h40, -⟩ := h.bounds
  exact {
    magic := (hw 0 (by decide)).trans h.magic
    totalsize := ht
    offDtStruct := (hw 8 (by decide)).trans h.offDtStruct
    offDtStrings := (hw 12 (by decide)).trans h.offDtStrings
    offMemRsvmap := (hw 16 (by decide)).trans h.offMemRsvmap
    sizeDtStrings := (hw 32 (by decide)).trans h.sizeDtStrings
    sizeDtStruct := (hw 36 (by decide)).trans h.sizeDtStruct
    header_le := h40
    used_le := hu
    total_lt := hlt
    end_le := he
    rsvAt := h.rsvAt.congr fun i hi _ => hb i (by omega)
    structAt := h.structAt.congr fun i hi _ => hb i (by omega)
    stringsAt := h.stringsAt.congr fun i hi _ => hb i (by omega) }

/-- The same tree in a blob of another size. -/
theorem DtAt.retotal {m' : Mem} {total' room' : Nat} (h : DtAt m fdt total room rsv z o)
    (hw : ∀ k ∈ [0, 8, 12, 16, 32, 36], fdt32 m' (fdt + k) = fdt32 m (fdt + k))
    (hb : ∀ i, fdt + 40 ≤ i → m' i = m i) (ht : fdtTotalsize m' fdt = total')
    (hu : fdtDataSize m fdt + room' ≤ total') (hlt : total' < 2 ^ 31)
    (he : fdt + total' ≤ 2 ^ 32) : DtAt m' fdt total' room' rsv z o := by
  obtain ⟨b, zc, hat, hok, hrsv, hz, ho, hv, hroom, -⟩ := h
  rw [hat.dataSize] at hu
  have hat' := hat.retotal hw hb ht (show b.raw.used ≤ total' by omega) hlt he
  exact ⟨{ b with total := total' }, zc, hat', ⟨hok.rsvEnd, hok.rsv, hok.names⟩, hrsv, hz, ho, hv, hu,
    rfl⟩

theorem fdt32_write_be32_of_disjoint {m : Mem} {j k v : Nat} (h : k + 4 ≤ j ∨ j + 4 ≤ k) :
    fdt32 (write m (fdt + j) (be32 v)) (fdt + k) = fdt32 m (fdt + k) :=
  fdt32_write_of_disjoint (by rw [length_be32]; omega)

theorem sameOutside_header {m : Mem} {k v : Nat} (hk : k + 4 ≤ 40) (ht : 40 ≤ total) :
    SameOutside m (write m (fdt + k) (be32 v)) fdt total :=
  sameOutside_write (Nat.le_add_right _ _) (by rw [length_be32]; omega)

theorem write_header_behind {m : Mem} {k v i : Nat} (hk : k + 4 ≤ 40) (hi : fdt + 40 ≤ i) :
    write m (fdt + k) (be32 v) i = m i := write_of_ge (by rw [length_be32]; omega)

/-- **`fdt_increase_size` makes room** at the end of the blob. -/
theorem DtSince.increaseSize {add : Nat} (h : DtSince m₀ m fdt total room rsv z o)
    (hlt : total + add < 2 ^ 31) (he : fdt + (total + add) ≤ 2 ^ 32) :
    wp (fdtIncreaseSize fdt add) (fun res m' => res = .ok () ∧ SameOutside m₀ m' fdt total ∧
      DtAt m' fdt (total + add) (room + add) rsv z o) m := by
  obtain ⟨hsame₀, h⟩ := h
  have h' := h
  obtain ⟨b, zc, hat, -, -, -, -, -, hroom, rfl⟩ := h'
  have ht : fdtTotalsize m fdt = b.total := hat.totalsize
  have h40 : 40 ≤ b.total := hat.total_ge
  have hsize : fdtDataSize m fdt = b.raw.used := hat.dataSize
  have hmod : u32 (b.total + add) = b.total + add := Nat.mod_eq_of_lt (by omega)
  refine wp_bind (wp_look ?_)
  refine wp_bind (wp_reads (by rw [h.numMemRsv]; rfl) ?_)
  refine wp_bind (wp_look (wp_bind (wp_look ?_)))
  dsimp only
  rw [ht, hmod, if_neg (by omega)]
  refine wp_bind (wp_change (wp_bind (wp_change (wp_bind (wp_change (wp_change ⟨rfl, ?_, ?_⟩))))))
  · rw [memmove, if_pos rfl]
    exact ((hsame₀.trans (sameOutside_header (by decide) h40)).trans
      (sameOutside_header (by decide) h40)).trans (sameOutside_header (by decide) h40)
  rw [memmove, if_pos rfl]
  refine h.retotal (fun k hk => ?_) (fun i hi => ?_) ?_ (by omega) hlt he
  · by_cases h36 : k = 36
    · subst h36
      rw [fdt32_write_be32_of_disjoint (by decide), fdt32_write_be32]
      exact Nat.mod_eq_of_lt (fdt32_lt m _)
    · have hk4 : (k + 4 ≤ 4 ∨ 4 + 4 ≤ k) ∧ (k + 4 ≤ 36 ∨ 36 + 4 ≤ k) ∧
          (k + 4 ≤ 20 ∨ 20 + 4 ≤ k) := by
        simp only [List.mem_cons, List.not_mem_nil, or_false] at hk
        omega
      rw [fdt32_write_be32_of_disjoint hk4.1, fdt32_write_be32_of_disjoint hk4.2.1,
        fdt32_write_be32_of_disjoint hk4.2.2]
  · rw [write_header_behind (by decide) hi, write_header_behind (by decide) hi,
      write_header_behind (by decide) hi]
  · rw [fdtTotalsize, fdt32_write_be32]
    exact Nat.mod_eq_of_lt (by omega)

/-- The size that `fdt_shrink_to_minimum` gives a blob with so many bytes of data: its end is on a
page boundary. -/
def minimalSize (fdt dataSize : Nat) : Nat :=
  (dataSize + 80 + fdt % 0x1000 + 0xfff) / 0x1000 * 0x1000 - fdt % 0x1000

theorem minimalSize_bounds (fdt n : Nat) : n + 80 ≤ minimalSize fdt n ∧
    minimalSize fdt n ≤ n + 80 + 0xfff ∧ (fdt + minimalSize fdt n) % 0x1000 = 0 := by
  unfold minimalSize
  omega

theorem DtAt.bounds (h : DtAt m fdt total room rsv z o) : 40 ≤ total ∧
    fdtDataSize m fdt + room ≤ total ∧ total < 2 ^ 31 ∧ fdt + total ≤ 2 ^ 32 := by
  obtain ⟨b, zc, hat, -, -, -, -, -, hroom, rfl⟩ := h
  rw [hat.dataSize]
  exact ⟨hat.total_ge, hroom, hat.total_lt, hat.end_le⟩

/-- A smaller size in the header. -/
theorem DtAt.setTotal {total' room' : Nat} (h : DtAt m fdt total room rsv z o)
    (hu : fdtDataSize m fdt + room' ≤ total') (ht : total' ≤ total) :
    DtAt (write m (fdt + 4) (be32 total')) fdt total' room' rsv z o := by
  obtain ⟨-, -, hlt, hend⟩ := h.bounds
  refine h.retotal (fun k hk => fdt32_write_be32_of_disjoint ?_)
    (fun i hi => write_header_behind (by decide) hi) ?_ hu (by omega) (by omega)
  · simp only [List.mem_cons, List.not_mem_nil, or_false] at hk
    omega
  · rw [fdtTotalsize, fdt32_write_be32]
    exact Nat.mod_eq_of_lt (by omega)

/-- **`fdt_shrink_to_minimum` ends the blob on a page boundary**, and renews a reservation of it. -/
theorem DtSince.shrink (h : DtSince m₀ m fdt total room rsv z o) (hfdt : 0 < fdt)
    (hr : 80 + 0xfff ≤ room) :
    wp (fdtShrinkToMinimum fdt 0) (fun res m' => ∃ size, res = .ok size ∧ size ≤ total ∧
      (fdt + size) % 0x1000 = 0 ∧ SameOutside m₀ m' fdt total ∧ DtAt m' fdt size 64
        (if rsv.any (·.1 == fdt) then rsv.eraseP (·.1 == fdt) ++ [(fdt, size)] else rsv) z o) m := by
  rw [fdtShrinkToMinimum, if_neg (by omega)]
  refine wp_bind ((h.delMemRsvAt fdt).mono ?_)
  rintro _ m₁ ⟨rfl, h₁⟩
  refine wp_bind (wp_look ?_)
  obtain ⟨h40, hdata, hlt, hend⟩ := h₁.tree.bounds
  obtain ⟨hge, hle, hpage⟩ := minimalSize_bounds fdt (fdtDataSize m₁ fdt)
  have hsize : minimalSize fdt (fdtDataSize m₁ fdt) ≤ total := by omega
  have h₂ := h₁.tree.setTotal (by omega : fdtDataSize m₁ fdt + 80 ≤ _) hsize
  have hsame₂ : SameOutside m₀ (write m₁ (fdt + 4) (be32 (minimalSize fdt (fdtDataSize m₁ fdt)))) fdt
      total := h₁.same.trans (sameOutside_header (by decide) h40)
  refine wp_bind (wp_change ?_)
  dsimp only
  by_cases hany : rsv.any (·.1 == fdt) = true
  · simp only [if_pos hany]
    have hfits : rsvFits (fdt, minimalSize fdt (fdtDataSize m₁ fdt)) :=
      ⟨Nat.lt_of_le_of_lt (Nat.le_add_right _ _) (Nat.lt_of_le_of_lt hend (by decide)),
        by dsimp only; omega, by dsimp only; omega⟩
    refine wp_bind ((h₂.addMemRsv hfits).mono ?_)
    rintro res m' ⟨hsame, ⟨rfl, htree⟩ | ⟨-, hno, -⟩⟩
    · exact wp_pure ⟨_, rfl, hsize, hpage, hsame₂.trans (hsame.mono (Nat.le_refl _) (by omega)),
        htree⟩
    · omega
  · simp only [if_neg hany]
    have hnone : ∀ e ∈ rsv, ¬(e.1 == fdt) = true :=
      List.any_eq_false.1 (Bool.eq_false_iff.2 hany)
    rw [List.eraseP_of_forall_not hnone] at h₂
    exact wp_pure ⟨_, rfl, hsize, hpage, hsame₂, h₂.mono (by decide)⟩

end PBoot
