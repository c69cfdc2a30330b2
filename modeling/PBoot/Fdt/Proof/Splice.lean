import PBoot.Fdt.Blob
import PBoot.Fdt.Write

/-!
# Making room in a blob

`fdt_splice_` moves what is behind the place, and the functions on it correct the header: what the
blocks hold stays, except for the bytes that are cut out or made room for.

* `wp_spliceStruct`, `wp_spliceString`, `wp_spliceMemRsv`: a part of one block is replaced by as many
  bytes as are asked for, and nothing outside the blob changes.
* `wp_splice_noSpace`: where the blob has no room for them, nothing changes.
* `Raw.At.storeBytes`: bytes of the structure block are overwritten.
-/

namespace PBoot

open Bytes Progs

section
variable {m : Mem} {a b v : Nat} {bs : List UInt8}

theorem fdt32_congr {m' : Mem} (h : ∀ i < 4, m' (a + i) = m (a + i)) : fdt32 m' a = fdt32 m a := by
  have h0 : m' a = m a := h 0 (by decide)
  simp only [fdt32, h0, h 1 (by decide), h 2 (by decide), h 3 (by decide)]

theorem fdt32_write_of_disjoint (h : a + 4 ≤ b ∨ b + bs.length ≤ a) :
    fdt32 (write m b bs) a = fdt32 m a :=
  fdt32_congr fun i hi => by
    rcases h with h | h
    · exact write_of_lt (by omega)
    · exact write_of_ge (by omega)

theorem fdt32_write_be32 (m : Mem) (a v : Nat) : fdt32 (write m a (be32 v)) a = v % 2 ^ 32 := by
  have hr : read (write m a (be32 v)) a 4 = be32 v := read_write_same m a (be32 v)
  rw [fdt32_eq, hr, ← List.append_nil (be32 v), ofBe32_be32_append]

theorem fdt32_lt (m : Mem) (a : Nat) : fdt32 m a < 2 ^ 32 := by
  have := (m a).toNat_lt
  have := (m (a + 1)).toNat_lt
  have := (m (a + 2)).toNat_lt
  have := (m (a + 3)).toNat_lt
  unfold fdt32
  omega

end

/-! ## Moving -/

/-- The `e - p - oldlen` bytes behind the `oldlen` bytes at `p` are moved. -/
def spliced (m : Mem) (p oldlen newlen e : Nat) : Mem :=
  write m (p + newlen) (read m (p + oldlen) (e - p - oldlen))

section
variable {m : Mem} {p oldlen newlen e a k : Nat} {bs : List UInt8}

theorem spliced_of_lt {i : Nat} (h : i < p) : spliced m p oldlen newlen e i = m i :=
  write_of_lt (by omega)

theorem holds_spliced_before (h : HoldsAt m a bs) (hp : a + bs.length ≤ p) :
    HoldsAt (spliced m p oldlen newlen e) a bs := h.congr fun _ _ _ => spliced_of_lt (by omega)

theorem holds_spliced_behind (h : HoldsAt m (p + oldlen + k) bs)
    (he : p + oldlen + k + bs.length ≤ e) :
    HoldsAt (spliced m p oldlen newlen e) (p + newlen + k) bs := HoldsAt.copy h (by omega)

theorem sameOutside_spliced {fdt total : Nat} (hp : fdt ≤ p) (ho : p + oldlen ≤ e)
    (he : e + newlen ≤ fdt + total + oldlen) :
    SameOutside m (spliced m p oldlen newlen e) fdt total := by
  refine sameOutside_write (by omega) ?_
  rw [length_read]
  omega

end

/-! ## `fdt_splice_` -/

section
variable {r : Raw} {m : Mem} {fdt p oldlen newlen : Nat}

theorem Raw.At.dataSize (h : r.At m fdt) : fdtDataSize m fdt = r.used := by
  rw [fdtDataSize, h.offDtStrings, h.sizeDtStrings]
  rfl

theorem wp_splice (h : r.At m fdt) (hp : fdt ≤ p) (ho : p + oldlen ≤ fdt + r.used)
    (hroom : r.used + newlen ≤ r.total + oldlen) :
    wp (fdtSplice fdt p oldlen newlen) (fun res m' =>
      res = .ok () ∧ m' = spliced m p oldlen newlen (fdt + r.used)) m := by
  have hend := h.end_le
  have hused := h.used_le
  refine wp_bind (wp_look ?_)
  refine wp_bind (wp_look ?_)
  dsimp only
  rw [h.dataSize, h.totalsize, if_neg (by omega), if_neg (by omega), if_neg (by omega)]
  refine wp_change ⟨rfl, ?_⟩
  rw [memmove_eq m (by omega) (by omega) (by omega)]
  rfl

theorem wp_splice_noSpace (h : r.At m fdt) (hp : fdt ≤ p) (ho : p + oldlen ≤ fdt + r.used)
    (hroom : r.total + oldlen < r.used + newlen) :
    wp (fdtSplice fdt p oldlen newlen) (fun res m' => res = .error .noSpace ∧ m' = m) m := by
  refine wp_bind (wp_look ?_)
  refine wp_bind (wp_look ?_)
  dsimp only
  rw [h.dataSize, h.totalsize, if_neg (by omega), if_neg (by omega), if_pos (by omega)]
  exact wp_throw ⟨rfl, rfl⟩

end

/-! ## The header -/

/-- `m'` is `m` after `oldlen` bytes at `p` have become `newlen` bytes and the header words at the
offsets `ks` have been corrected. -/
structure Fixed (m m' : Mem) (fdt total p oldlen newlen e : Nat) (ks : List Nat) : Prop where
  word : ∀ k ≤ 36, k % 4 = 0 →
    fdt32 m' (fdt + k) = if k ∈ ks then fdt32 m (fdt + k) + newlen - oldlen else fdt32 m (fdt + k)
  before : ∀ {a : Nat} {bs : List UInt8}, fdt + 40 ≤ a → a + bs.length ≤ p → HoldsAt m a bs →
    HoldsAt m' a bs
  behind : ∀ {k : Nat} {bs : List UInt8}, p + oldlen + k + bs.length ≤ e →
    HoldsAt m (p + oldlen + k) bs → HoldsAt m' (p + newlen + k) bs
  same : SameOutside m m' fdt total

section
variable {m m' : Mem} {fdt total p oldlen newlen e k : Nat} {ks : List Nat}

theorem fixed_spliced (hp : fdt + 40 ≤ p) (ho : p + oldlen ≤ e)
    (he : e + newlen ≤ fdt + total + oldlen) :
    Fixed m (spliced m p oldlen newlen e) fdt total p oldlen newlen e [] where
  word k hk _ := by
    rw [if_neg List.not_mem_nil]
    exact fdt32_congr fun i hi => spliced_of_lt (by omega)
  before _ h hb := holds_spliced_before hb h
  behind h hb := holds_spliced_behind hb h
  same := sameOutside_spliced (by omega) ho he

/-- `addDelta` on a word that fits. -/
theorem Fixed.addDelta (h : Fixed m m' fdt total p oldlen newlen e ks) (hp : fdt + 40 ≤ p)
    (ht : 40 ≤ total) (hk : k ≤ 36) (hk4 : k % 4 = 0) (hks : k ∉ ks)
    (hle : oldlen ≤ fdt32 m (fdt + k) + newlen)
    (hlt : fdt32 m (fdt + k) + newlen < 2 ^ 31 + oldlen) :
    Fixed m (write m' (fdt + k) (be32 (fdt32 m' (fdt + k) + newlen + 2 ^ 32 - oldlen))) fdt total p
      oldlen newlen e (k :: ks) where
  word k' hk' hk4' := by
    by_cases heq : k' = k
    · subst heq
      rw [fdt32_write_be32, if_pos List.mem_cons_self, h.word k' hk hk4, if_neg hks]
      omega
    · rw [fdt32_write_of_disjoint (by rw [length_be32]; omega), h.word k' hk' hk4']
      simp only [List.mem_cons, heq, false_or]
  before ha hb hm := (h.before ha hb hm).write (.inr (by rw [length_be32]; omega))
  behind hb hm := (h.behind hb hm).write (.inr (by rw [length_be32]; omega))
  same := h.same.trans (sameOutside_write (by omega) (by rw [length_be32]; omega))

end

/-! ## The blocks -/

section
variable {r : Raw} {m : Mem} {fdt p n : Nat} {A X B : List UInt8}

theorem Raw.At.total_ge (h : r.At m fdt) : 40 ≤ r.total := by
  have h40 := h.header_le
  have hle := h.used_le
  unfold Raw.used Raw.offStrings Raw.offStruct at hle
  omega

section
variable {m' : Mem} (h : r.At m fdt)
include h

/-- Where the blocks are. -/
theorem Raw.At.bounds : r.offStruct = r.offRsv + r.rsv.length + r.gap1 ∧
    r.offStrings = r.offStruct + r.struct.length + r.gap2 ∧
    r.used = r.offStrings + r.strings.length ∧ 40 ≤ r.offRsv ∧ r.used ≤ r.total ∧
    r.total < 2 ^ 31 := ⟨rfl, rfl, rfl, h.header_le, h.used_le, h.total_lt⟩

theorem Raw.At.struct_fixed {Y : List UInt8} (hs : r.struct = A ++ (X ++ B)) (hY : Y.length = n)
    (hp : p = fdt + r.offStruct + A.length) (hroom : r.used + n ≤ r.total + X.length)
    (hF : Fixed m m' fdt r.total p X.length n (fdt + r.used) [12, 36])
    (hnew : HoldsAt m' p Y) : (r.withStruct (A ++ (Y ++ B))).At m' fdt := by
  have hlen : r.struct.length = A.length + (X.length + B.length) := by
    rw [hs, List.length_append, List.length_append]
  have hlen' : (A ++ (Y ++ B)).length = A.length + (n + B.length) := by
    rw [List.length_append, List.length_append, hY]
  obtain ⟨hstruct, hstrings, hused, h40, hle, hlt⟩ := h.bounds
  have hstrings' : (r.withStruct (A ++ (Y ++ B))).offStrings + X.length =
      r.offStrings + n := by
    rw [Raw.withStruct_offStrings]
    omega
  have hin := h.structAt
  rw [hs] at hin
  have hR : HoldsAt m' (fdt + r.offRsv) r.rsv := hF.before (by omega) (by omega) h.rsvAt
  have hA : HoldsAt m' (fdt + r.offStruct) A := hF.before (by omega) (by omega) hin.left
  have hB : HoldsAt m' (p + n) B :=
    hF.behind (k := 0) (by omega) (by rw [hp]; exact hin.right.right)
  have hT : HoldsAt m' (fdt + r.offStruct) (A ++ (Y ++ B)) :=
    holds_append.2 ⟨hA, holds_append.2 ⟨by rw [← hp]; exact hnew, by rw [← hp, hY]; exact hB⟩⟩
  have hfrom : p + X.length + (B.length + r.gap2) = fdt + r.offStrings := by omega
  have hto : p + n + (B.length + r.gap2) =
      fdt + (r.withStruct (A ++ (Y ++ B))).offStrings := by omega
  have hS := hF.behind (k := B.length + r.gap2) (by omega) (hfrom ▸ h.stringsAt)
  exact {
    magic := (hF.word 0 (by decide) rfl).trans h.magic
    totalsize := (hF.word 4 (by decide) rfl).trans h.totalsize
    offDtStruct := (hF.word 8 (by decide) rfl).trans h.offDtStruct
    offDtStrings := (hF.word 12 (by decide) rfl).trans (by
      have hw : fdt32 m (fdt + 12) = r.offStrings := h.offDtStrings
      rw [if_pos (by decide), hw]
      omega)
    offMemRsvmap := (hF.word 16 (by decide) rfl).trans h.offMemRsvmap
    sizeDtStrings := (hF.word 32 (by decide) rfl).trans h.sizeDtStrings
    sizeDtStruct := (hF.word 36 (by decide) rfl).trans (by
      have hw : fdt32 m (fdt + 36) = r.struct.length := h.sizeDtStruct
      rw [if_pos (by decide), hw, Raw.withStruct_struct]
      omega)
    header_le := h40
    used_le := by
      rw [Raw.used, Raw.withStruct_strings, Raw.withStruct_total]
      omega
    total_lt := hlt
    end_le := h.end_le
    rsvAt := hR
    structAt := hT
    stringsAt := hto ▸ hS }

theorem Raw.At.strings_fixed {Y : List UInt8} (hY : Y.length = n)
    (hroom : r.used + n ≤ r.total)
    (hF : Fixed m m' fdt r.total (fdt + r.used) 0 n (fdt + r.used) [32])
    (hnew : HoldsAt m' (fdt + r.used) Y) : (r.withStrings (r.strings ++ Y)).At m' fdt := by
  obtain ⟨hstruct, hstrings, hused, h40, hle, hlt⟩ := h.bounds
  have hlen : (r.strings ++ Y).length = r.strings.length + n := by rw [List.length_append, hY]
  have hR : HoldsAt m' (fdt + r.offRsv) r.rsv := hF.before (by omega) (by omega) h.rsvAt
  have hT : HoldsAt m' (fdt + r.offStruct) r.struct := hF.before (by omega) (by omega) h.structAt
  have hS : HoldsAt m' (fdt + r.offStrings) r.strings := hF.before (by omega) (by omega) h.stringsAt
  have hS' : HoldsAt m' (fdt + r.offStrings) (r.strings ++ Y) :=
    holds_append.2 ⟨hS, by rw [Nat.add_assoc, ← hused]; exact hnew⟩
  exact {
    magic := (hF.word 0 (by decide) rfl).trans h.magic
    totalsize := (hF.word 4 (by decide) rfl).trans h.totalsize
    offDtStruct := (hF.word 8 (by decide) rfl).trans h.offDtStruct
    offDtStrings := (hF.word 12 (by decide) rfl).trans h.offDtStrings
    offMemRsvmap := (hF.word 16 (by decide) rfl).trans h.offMemRsvmap
    sizeDtStrings := (hF.word 32 (by decide) rfl).trans (by
      have hw : fdt32 m (fdt + 32) = r.strings.length := h.sizeDtStrings
      rw [if_pos (by decide), hw, Raw.withStrings_strings, hlen]
      rfl)
    sizeDtStruct := (hF.word 36 (by decide) rfl).trans h.sizeDtStruct
    header_le := h40
    used_le := by
      rw [Raw.used, Raw.withStrings_strings, Raw.withStrings_total, Raw.withStrings_offStrings]
      omega
    total_lt := hlt
    end_le := h.end_le
    rsvAt := hR
    structAt := hT
    stringsAt := hS' }

theorem Raw.At.rsv_fixed {Y : List UInt8} (hs : r.rsv = A ++ (X ++ B)) (hY : Y.length = n)
    (hp : p = fdt + r.offRsv + A.length) (hroom : r.used + n ≤ r.total + X.length)
    (hF : Fixed m m' fdt r.total p X.length n (fdt + r.used) [12, 8]) (hnew : HoldsAt m' p Y) :
    (r.withRsv (A ++ (Y ++ B))).At m' fdt := by
  have hlen : r.rsv.length = A.length + (X.length + B.length) := by
    rw [hs, List.length_append, List.length_append]
  have hlen' : (A ++ (Y ++ B)).length = A.length + (n + B.length) := by
    rw [List.length_append, List.length_append, hY]
  obtain ⟨hstruct, hstrings, hused, h40, hle, hlt⟩ := h.bounds
  have hstruct' := Raw.withRsv_offStruct r (A ++ (Y ++ B))
  have hstrings' := Raw.withRsv_offStrings r (A ++ (Y ++ B))
  have hin := h.rsvAt
  rw [hs] at hin
  have hA : HoldsAt m' (fdt + r.offRsv) A := hF.before (by omega) (by omega) hin.left
  have hB : HoldsAt m' (p + n) B :=
    hF.behind (k := 0) (by omega) (by rw [hp]; exact hin.right.right)
  have hR : HoldsAt m' (fdt + r.offRsv) (A ++ (Y ++ B)) :=
    holds_append.2 ⟨hA, holds_append.2 ⟨by rw [← hp]; exact hnew, by rw [← hp, hY]; exact hB⟩⟩
  have hT : HoldsAt m' (p + n + (B.length + r.gap1)) r.struct := hF.behind (by omega)
    ((show p + X.length + (B.length + r.gap1) = fdt + r.offStruct by omega) ▸ h.structAt)
  have hS : HoldsAt m' (p + n + (B.length + r.gap1 + r.struct.length + r.gap2)) r.strings :=
    hF.behind (by omega) ((show p + X.length + (B.length + r.gap1 + r.struct.length + r.gap2) =
      fdt + r.offStrings by omega) ▸ h.stringsAt)
  have hTto : p + n + (B.length + r.gap1) =
      fdt + (r.withRsv (A ++ (Y ++ B))).offStruct := by omega
  have hSto : p + n + (B.length + r.gap1 + r.struct.length + r.gap2) =
      fdt + (r.withRsv (A ++ (Y ++ B))).offStrings := by omega
  exact {
    magic := (hF.word 0 (by decide) rfl).trans h.magic
    totalsize := (hF.word 4 (by decide) rfl).trans h.totalsize
    offDtStruct := (hF.word 8 (by decide) rfl).trans (by
      have hw : fdt32 m (fdt + 8) = r.offStruct := h.offDtStruct
      rw [if_pos (by decide), hw]
      omega)
    offDtStrings := (hF.word 12 (by decide) rfl).trans (by
      have hw : fdt32 m (fdt + 12) = r.offStrings := h.offDtStrings
      rw [if_pos (by decide), hw]
      omega)
    offMemRsvmap := (hF.word 16 (by decide) rfl).trans h.offMemRsvmap
    sizeDtStrings := (hF.word 32 (by decide) rfl).trans h.sizeDtStrings
    sizeDtStruct := (hF.word 36 (by decide) rfl).trans h.sizeDtStruct
    header_le := h40
    used_le := by
      rw [Raw.used, Raw.withRsv_strings, Raw.withRsv_total]
      omega
    total_lt := hlt
    end_le := h.end_le
    rsvAt := hR
    structAt := hTto ▸ hT
    stringsAt := hSto ▸ hS }

end

/-- **A part of the structure block is replaced.** -/
theorem wp_spliceStruct (h : r.At m fdt) (hs : r.struct = A ++ (X ++ B))
    (hp : p = fdt + r.offStruct + A.length) :
    wp (fdtSpliceStruct fdt p X.length n) (fun res m' =>
      if r.used + n ≤ r.total + X.length then
        res = .ok () ∧ SameOutside m m' fdt r.total ∧
          ∃ Y, Y.length = n ∧ (r.withStruct (A ++ (Y ++ B))).At m' fdt
      else res = .error .noSpace ∧ m' = m) m := by
  have hlen : r.struct.length = A.length + (X.length + B.length) := by
    rw [hs, List.length_append, List.length_append]
  obtain ⟨hstruct, hstrings, hused, h40, hle, hlt⟩ := h.bounds
  split
  swap
  · rename_i hroom
    refine wp_bind ((wp_splice_noSpace h (by omega) (by omega) (by omega)).mono ?_)
    rintro _ m' ⟨rfl, rfl⟩
    exact ⟨rfl, rfl⟩
  rename_i hroom
  refine wp_bind ((wp_splice h (by omega) (by omega) hroom).mono ?_)
  rintro _ m₁ ⟨rfl, rfl⟩
  refine wp_bind (wp_change (wp_change ⟨rfl, ?_⟩))
  have hw12 : fdt32 m (fdt + 12) = r.offStrings := h.offDtStrings
  have hw36 : fdt32 m (fdt + 36) = r.struct.length := h.sizeDtStruct
  have hF₀ : Fixed m _ fdt r.total p X.length n (fdt + r.used) [] :=
    fixed_spliced (by omega) (by omega) (by omega)
  have hF := (hF₀.addDelta (k := 36) (by omega) h.total_ge (by decide) (by decide) (by decide)
    (by omega) (by omega)).addDelta (k := 12) (by omega) h.total_ge (by decide) (by decide)
    (by decide) (by omega) (by omega)
  exact ⟨hF.same, _, length_read _ p n,
    h.struct_fixed hs (length_read _ p n) hp hroom hF (holds_read _ p n)⟩

/-- **The strings block grows at its end.** -/
theorem wp_spliceString (h : r.At m fdt) :
    wp (fdtSpliceString fdt n) (fun res m' =>
      if r.used + n ≤ r.total then
        res = .ok () ∧ SameOutside m m' fdt r.total ∧
          ∃ Y, Y.length = n ∧ (r.withStrings (r.strings ++ Y)).At m' fdt
      else res = .error .noSpace ∧ m' = m) m := by
  obtain ⟨hstruct, hstrings, hused, h40, hle, hlt⟩ := h.bounds
  refine wp_bind (wp_look ?_)
  dsimp only
  rw [h.dataSize]
  split
  swap
  · rename_i hroom
    refine wp_bind ((wp_splice_noSpace h (by omega) (by omega) (by omega)).mono ?_)
    rintro _ m' ⟨rfl, rfl⟩
    exact ⟨rfl, rfl⟩
  rename_i hroom
  refine wp_bind ((wp_splice h (by omega) (by omega) (by omega)).mono ?_)
  rintro _ m₁ ⟨rfl, rfl⟩
  refine wp_change ⟨rfl, ?_⟩
  have hw32 : fdt32 m (fdt + 32) = r.strings.length := h.sizeDtStrings
  have hF₀ : Fixed m _ fdt r.total (fdt + r.used) 0 n (fdt + r.used) [] :=
    fixed_spliced (by omega) (by omega) (by omega)
  have hF := hF₀.addDelta (k := 32) (by omega) h.total_ge (by decide) (by decide) (by decide)
    (by omega) (by omega)
  exact ⟨hF.same, _, length_read _ (fdt + r.used) n,
    h.strings_fixed (length_read _ _ n) hroom hF (holds_read _ _ n)⟩

/-- **Entries of the reservation block are replaced.** -/
theorem wp_spliceMemRsv {n k : Nat} (h : r.At m fdt) (hs : r.rsv = A ++ (X ++ B))
    (hp : p = fdt + r.offRsv + A.length) (hX : X.length = 16 * k) :
    wp (fdtSpliceMemRsv fdt p k n) (fun res m' =>
      if r.used + 16 * n ≤ r.total + 16 * k then
        res = .ok () ∧ SameOutside m m' fdt r.total ∧
          ∃ Y, Y.length = 16 * n ∧ (r.withRsv (A ++ (Y ++ B))).At m' fdt
      else res = .error .noSpace ∧ m' = m) m := by
  have hlen : r.rsv.length = A.length + (X.length + B.length) := by
    rw [hs, List.length_append, List.length_append]
  obtain ⟨hstruct, hstrings, hused, h40, hle, hlt⟩ := h.bounds
  rw [← hX]
  unfold fdtSpliceMemRsv
  rw [← hX]
  split
  swap
  · rename_i hroom
    refine wp_bind ((wp_splice_noSpace h (by omega) (by omega) (by omega)).mono ?_)
    rintro _ m' ⟨rfl, rfl⟩
    exact ⟨rfl, rfl⟩
  rename_i hroom
  refine wp_bind ((wp_splice h (by omega) (by omega) hroom).mono ?_)
  rintro _ m₁ ⟨rfl, rfl⟩
  refine wp_bind (wp_change (wp_change ⟨rfl, ?_⟩))
  have hw8 : fdt32 m (fdt + 8) = r.offStruct := h.offDtStruct
  have hw12 : fdt32 m (fdt + 12) = r.offStrings := h.offDtStrings
  have hF₀ : Fixed m _ fdt r.total p X.length (16 * n) (fdt + r.used) [] :=
    fixed_spliced (by omega) (by omega) (by omega)
  have hF := (hF₀.addDelta (k := 8) (by omega) h.total_ge (by decide) (by decide) (by decide)
    (by omega) (by omega)).addDelta (k := 12) (by omega) h.total_ge (by decide) (by decide)
    (by decide) (by omega) (by omega)
  exact ⟨hF.same, _, length_read _ p _,
    h.rsv_fixed hs (length_read _ p _) hp hroom hF (holds_read _ p _)⟩

/-! ## Overwriting -/

/-- What writes to other places than the header leave. -/
theorem Raw.At.write {m' : Mem} (h : r.At m fdt) (hw : ∀ i < 40, m' (fdt + i) = m (fdt + i))
    {rsv struct strings : List UInt8} (hr : HoldsAt m' (fdt + r.offRsv) rsv)
    (hrl : rsv.length = r.rsv.length) (hs : HoldsAt m' (fdt + r.offStruct) struct)
    (hsl : struct.length = r.struct.length) (ht : HoldsAt m' (fdt + r.offStrings) strings)
    (htl : strings.length = r.strings.length) :
    Raw.At { r with rsv, struct, strings } m' fdt := by
  have hword : ∀ k, k + 4 ≤ 40 → fdt32 m' (fdt + k) = fdt32 m (fdt + k) := fun k hk =>
    fdt32_congr fun i hi => by rw [Nat.add_assoc]; exact hw (k + i) (by omega)
  have hstruct : Raw.offStruct { r with rsv, struct, strings } = r.offStruct := by
    simp only [Raw.offStruct, hrl]
  have hstrings : Raw.offStrings { r with rsv, struct, strings } = r.offStrings := by
    simp only [Raw.offStrings, hstruct, hsl]
  have hused : Raw.used { r with rsv, struct, strings } = r.used := by
    simp only [Raw.used, hstrings, htl]
  exact {
    magic := (hword 0 (by decide)).trans h.magic
    totalsize := (hword 4 (by decide)).trans h.totalsize
    offDtStruct := (hword 8 (by decide)).trans (h.offDtStruct.trans hstruct.symm)
    offDtStrings := (hword 12 (by decide)).trans (h.offDtStrings.trans hstrings.symm)
    offMemRsvmap := (hword 16 (by decide)).trans h.offMemRsvmap
    sizeDtStrings := (hword 32 (by decide)).trans (h.sizeDtStrings.trans htl.symm)
    sizeDtStruct := (hword 36 (by decide)).trans (h.sizeDtStruct.trans hsl.symm)
    header_le := h.header_le
    used_le := by rw [hused]; exact h.used_le
    total_lt := h.total_lt
    end_le := h.end_le
    rsvAt := hr
    structAt := hstruct ▸ hs
    stringsAt := hstrings ▸ ht }

/-- A part of what is held is overwritten. -/
theorem holds_overwrite {a : Nat} {Y : List UInt8} (h : HoldsAt m a (A ++ (X ++ B)))
    (hY : Y.length = X.length) :
    HoldsAt (Bytes.write m (a + A.length) Y) a (A ++ (Y ++ B)) :=
  holds_append.2 ⟨h.left.write (.inl (Nat.le_refl _)), holds_append.2
    ⟨holds_write_same _ _ _, by
      rw [hY]
      exact h.right.right.write (.inr (by omega))⟩⟩

/-- **Bytes of the structure block are overwritten.** -/
theorem Raw.At.storeBytes {Y : List UInt8} (h : r.At m fdt) (hs : r.struct = A ++ (X ++ B))
    (hY : Y.length = X.length) (hp : p = fdt + r.offStruct + A.length) :
    (r.withStruct (A ++ (Y ++ B))).At (Bytes.write m p Y) fdt ∧
      SameOutside m (Bytes.write m p Y) fdt r.total := by
  have hlen : r.struct.length = A.length + (X.length + B.length) := by
    rw [hs, List.length_append, List.length_append]
  obtain ⟨hstruct, hstrings, hused, h40, hle, hlt⟩ := h.bounds
  have hin := h.structAt
  rw [hs] at hin
  refine ⟨?_, sameOutside_write (by omega) (by omega)⟩
  refine h.write (fun i hi => write_of_lt (by omega)) (h.rsvAt.write (.inl (by omega))) rfl
    (hp ▸ holds_overwrite hin hY) ?_ (h.stringsAt.write (.inr (by omega))) rfl
  rw [hlen, List.length_append, List.length_append, hY]

/-- **Bytes of the strings block are overwritten.** -/
theorem Raw.At.store_strings {Y : List UInt8} (h : r.At m fdt) (hs : r.strings = A ++ X)
    (hY : Y.length = X.length) (hp : p = fdt + r.offStrings + A.length) :
    (r.withStrings (A ++ Y)).At (Bytes.write m p Y) fdt ∧
      SameOutside m (Bytes.write m p Y) fdt r.total := by
  have hlen : r.strings.length = A.length + X.length := by rw [hs, List.length_append]
  obtain ⟨hstruct, hstrings, hused, h40, hle, hlt⟩ := h.bounds
  have hin := h.stringsAt
  rw [hs, ← List.append_nil X] at hin
  refine ⟨?_, sameOutside_write (by omega) (by omega)⟩
  have hnew := holds_overwrite hin hY
  rw [List.append_nil] at hnew
  refine h.write (fun i hi => write_of_lt (by omega)) (h.rsvAt.write (.inl (by omega))) rfl
    (h.structAt.write (.inl (by omega))) rfl (hp ▸ hnew) ?_
  rw [hlen, List.length_append, hY]

/-- **Bytes of the reservation block are overwritten.** -/
theorem Raw.At.store_rsv {Y : List UInt8} (h : r.At m fdt) (hs : r.rsv = A ++ (X ++ B))
    (hY : Y.length = X.length) (hp : p = fdt + r.offRsv + A.length) :
    (r.withRsv (A ++ (Y ++ B))).At (Bytes.write m p Y) fdt ∧
      SameOutside m (Bytes.write m p Y) fdt r.total := by
  have hlen : r.rsv.length = A.length + (X.length + B.length) := by
    rw [hs, List.length_append, List.length_append]
  obtain ⟨hstruct, hstrings, hused, h40, hle, hlt⟩ := h.bounds
  have hin := h.rsvAt
  rw [hs] at hin
  refine ⟨?_, sameOutside_write (by omega) (by omega)⟩
  refine h.write (fun i hi => write_of_lt (by omega)) (hp ▸ holds_overwrite hin hY) ?_
    (h.structAt.write (.inr (by omega))) rfl (h.stringsAt.write (.inr (by omega))) rfl
  rw [hlen, List.length_append, List.length_append, hY]

end

end PBoot
