import PBoot.Boot.Mmu

/-!
# The identity map

`identityMap`: for every size of DRAM the tables are in its last 8 KiB, and every address below 4 GiB
translates to itself, with write access; SRAM and DRAM are cached and the devices between them are
not.
-/

namespace PBoot

open Armv8 Arrays

/-- SRAM or DRAM. -/
def Cached (va : Nat) : Prop := va < 2 * 2 ^ 20 ∨ 2 ^ 30 ≤ va

instance (va : Nat) : Decidable (Cached va) := inferInstanceAs (Decidable (_ ∨ _))

/-- The translation of `va` is right. -/
structure MapsToSelf (mem : Nat → BitVec 64) (r : Regs) (va : Nat) (t : Translation) : Prop where
  walk : translateVa mem r va = some t
  pa : t.pa = va
  readWrite : t.readOnly = false
  writeBack : isNormalWriteBack (attr r.mair t.attrIndx) ↔ Cached va
  device : isDevice (attr r.mair t.attrIndx) ↔ ¬ Cached va

/-- The tables are in the last 8 KiB of DRAM, and every address below 4 GiB is mapped to itself, cached or
as a device as it should be. -/
structure IdentityMap (dramSize : Nat) (mem : Nat → BitVec 64) (sctlr : BitVec 64) : Prop where
  aligned : ttBase dramSize % 4096 = 0
  top : ttBase dramSize + 2 * 4096 = 0x40000000 + dramSize ∧ 0x40000000 + dramSize ≤ 2 ^ 32
  /-- The second table follows the first one, and both are within the 8 KiB. -/
  inside : ∀ p ∈ tableStores (ttBase dramSize),
    ttBase dramSize ≤ p.1 ∧ p.1 + 8 ≤ ttBase dramSize + 2 * 4096
  maps : ∀ va < 2 ^ 32, ∃ t, MapsToSelf (mmuSetup dramSize mem sctlr).1
    (mmuSetup dramSize mem sctlr).2 va t

/-! ## Descriptors -/

section
variable {pa i tt : Nat} {w : BitVec 64}

/-- Attributes below an aligned address. -/
theorem or_toNat {a b c : BitVec 64} {m : Nat} (hb : b.toNat = pa * 2 ^ m)
    (hc : (a ||| c).toNat < 2 ^ m) : (a ||| b ||| c).toNat = pa * 2 ^ m + (a ||| c).toNat := by
  rw [BitVec.or_assoc, BitVec.or_comm b, ← BitVec.or_assoc, BitVec.toNat_or, hb, Nat.or_comm,
    Nat.mul_comm, Nat.two_pow_add_eq_or_of_lt hc]

theorem pteMem_toNat (h : w.toNat = pa * 2 ^ 21) : (pteMem w).toNat = pa * 2 ^ 21 + 0x741 :=
  or_toNat h (by decide)

theorem pteDev_toNat (h : w.toNat = pa * 2 ^ 21) : (pteDev w).toNat = pa * 2 ^ 21 + 0x645 :=
  or_toNat h (by decide)

theorem pteTab_toNat (h : w.toNat = pa * 2 ^ 12) : (pteTab w).toNat = pa * 2 ^ 12 + 3 := by
  rw [pteTab, BitVec.toNat_or, h, Nat.or_comm, Nat.mul_comm, ← Nat.two_pow_add_eq_or_of_lt]
  · rfl
  · decide

theorem megabytes {k : BitVec 64} (h : i < 4096) (hk : k.toNat < 2048) :
    ((k * BitVec.ofNat 64 i) <<< 20).toNat = k.toNat * i * 2 ^ 20 := by
  have hle : k.toNat * i ≤ 2048 * 4096 := Nat.mul_le_mul hk.le h.le
  rw [BitVec.toNat_shiftLeft, BitVec.toNat_mul, BitVec.toNat_ofNat, Nat.shiftLeft_eq,
    Nat.mod_eq_of_lt (a := i) (by omega), Nat.mod_eq_of_lt (a := k.toNat * i) (by omega),
    Nat.mod_eq_of_lt (by omega)]

theorem gigabytes_toNat (h : i < 4) :
    (pteMem ((1024 * BitVec.ofNat 64 i) <<< 20)).toNat = i * 2 ^ 30 + 0x741 := by
  have hw : ((1024 * BitVec.ofNat 64 i) <<< 20).toNat = i * 512 * 2 ^ 21 := by
    rw [megabytes (by omega) (by decide), show (1024 : BitVec 64).toNat = 1024 from rfl]
    omega
  rw [pteMem_toNat hw]
  omega

end

/-! ## Tables -/

section
variable {i tt a : Nat} {p : Nat × BitVec 64} {mem : Nat → BitVec 64}

/-- An entry of the first table. -/
def l1Entry (tt i : Nat) : BitVec 64 :=
  if i = 0 then pteTab (.ofNat 64 (tt + 8 * 512)) else pteMem ((1024 * BitVec.ofNat 64 i) <<< 20)

/-- An entry of the second table. -/
def l2Entry (i : Nat) : BitVec 64 :=
  if i = 0 then pteMem ((2 * 0) <<< 20) else pteDev ((2 * BitVec.ofNat 64 i) <<< 20)

/-- What the 8 KiB hold, where they are written. -/
def entryAt (tt a : Nat) : BitVec 64 :=
  if a < tt + 8 * 512 then l1Entry tt ((a - tt) / 8) else l2Entry ((a - (tt + 8 * 512)) / 8)

theorem mem_tableStores : p ∈ tableStores tt ↔
    (∃ i < 4, p = (tt + 8 * i, l1Entry tt i)) ∨ ∃ i < 512, p = (tt + 8 * 512 + 8 * i, l2Entry i) := by
  simp only [tableStores, List.cons_append, List.mem_cons, List.mem_append, List.mem_map,
    List.mem_range'_1]
  constructor
  · rintro (rfl | ⟨i, hi, rfl⟩ | rfl | ⟨i, hi, rfl⟩)
    · exact .inl ⟨0, by decide, rfl⟩
    · exact .inl ⟨i, by omega, by rw [l1Entry, if_neg (by omega)]⟩
    · exact .inr ⟨0, by decide, rfl⟩
    · exact .inr ⟨i, by omega, by rw [l2Entry, if_neg (by omega)]⟩
  · rintro (⟨i, hi, rfl⟩ | ⟨i, hi, rfl⟩) <;> rcases Nat.eq_zero_or_pos i with rfl | hpos
    · exact .inl rfl
    · exact .inr (.inl ⟨i, by omega, by rw [l1Entry, if_neg (by omega)]⟩)
    · exact .inr (.inr (.inl rfl))
    · exact .inr (.inr (.inr ⟨i, by omega, by rw [l2Entry, if_neg (by omega)]⟩))

theorem entryAt_l1 (h : i < 512) : entryAt tt (tt + 8 * i) = l1Entry tt i := by
  rw [entryAt, if_pos (by omega), show (tt + 8 * i - tt) / 8 = i by omega]

theorem entryAt_l2 (i : Nat) : entryAt tt (tt + 8 * 512 + 8 * i) = l2Entry i := by
  rw [entryAt, if_neg (by omega), show (tt + 8 * 512 + 8 * i - (tt + 8 * 512)) / 8 = i by omega]

theorem tables_agree (h : p ∈ tableStores tt) : p.2 = entryAt tt p.1 := by
  rcases mem_tableStores.1 h with ⟨i, hi, rfl⟩ | ⟨i, hi, rfl⟩
  · exact (entryAt_l1 (by omega)).symm
  · exact (entryAt_l2 i).symm

theorem read_l1 (h : i < 4) : store mem (tableStores tt) (tt + 8 * i) = l1Entry tt i := by
  rw [← entryAt_l1 (by omega)]
  exact store_eq (fun p => tables_agree) ⟨_, mem_tableStores.2 (.inl ⟨i, h, rfl⟩), rfl⟩

theorem read_l2 (h : i < 512) :
    store mem (tableStores tt) (tt + 8 * 512 + 8 * i) = l2Entry i := by
  rw [← entryAt_l2]
  exact store_eq (fun p => tables_agree) ⟨_, mem_tableStores.2 (.inr ⟨i, h, rfl⟩), rfl⟩

end

/-! ## The walk -/

section
variable {dramSize va tt : Nat} {mem : Nat → BitVec 64} {sctlr : BitVec 64}

/-- The programmed registers walk three levels from the tables. -/
theorem translateVa_eq (mem₀ : Nat → BitVec 64) (ht : ttBase dramSize % 4096 = 0)
    (hlt : ttBase dramSize < 2 ^ 32) (hva : va < 2 ^ 32) :
    translateVa mem (mmuSetup dramSize mem₀ sctlr).2 va =
      (walk mem va 3 (ttBase dramSize) false).filter fun t => t.pa < 2 ^ 32 := by
  have hon : field 0 1 (sctlr ||| ((1 <<< 2) ||| (1 <<< 0))) = 1 := by
    rw [field_one, BitVec.getLsbD_or]
    simp
  have hbase : field 5 43 (BitVec.ofNat 64 (ttBase dramSize)) * 2 ^ 5 = ttBase dramSize := by
    rw [field, BitVec.toNat_ofNat]
    omega
  unfold translateVa mmuSetup
  dsimp only
  rw [show field 0 6 tcrEl3 = 32 from rfl, show field 14 2 tcrEl3 = 0 from rfl,
    show field 16 3 tcrEl3 = 0 from rfl, hon, if_neg (by omega)]
  exact congrArg (fun b => (walk mem va 3 b false).filter fun t => t.pa < 2 ^ 32) hbase

/-- A gigabyte of DRAM is a block of the first table. -/
theorem walk_dram (hlo : 2 ^ 30 ≤ va) (hva : va < 2 ^ 32) :
    walk (store mem (tableStores tt)) va 3 tt false =
      some { pa := va, attrIndx := 0, shareability := 3, readOnly := false } := by
  have hi : va / 2 ^ 30 < 4 := by omega
  have hd : store mem (tableStores tt) (tt + 8 * (va / 2 ^ (12 + 9 * 2) % 512)) =
      pteMem ((1024 * BitVec.ofNat 64 (va / 2 ^ 30)) <<< 20) := by
    rw [Nat.mod_eq_of_lt (by omega), read_l1 hi, l1Entry, if_neg (by omega)]
  have hn := gigabytes_toNat hi
  rw [walk_block hd (.inr rfl) (field_of_add hn (by decide)) (field_of_add hn (by decide)),
    leaf_eq hn (by decide) (by decide) (by omega) (by decide)]
  simp only [show va / 2 ^ 30 * 2 ^ 30 + va % 2 ^ (12 + 9 * 2) = va by omega]
  rfl

/-- The first gigabyte is behind the second table. -/
theorem walk_link (ht : tt % 4096 = 0) (hlt : tt < 2 ^ 32) (hva : va < 2 ^ 30) :
    walk (store mem (tableStores tt)) va 3 tt false =
      walk (store mem (tableStores tt)) va 2 (tt + 8 * 512) false := by
  have hd : store mem (tableStores tt) (tt + 8 * (va / 2 ^ (12 + 9 * 2) % 512)) =
      pteTab (.ofNat 64 (tt + 8 * 512)) := by
    rw [show va / 2 ^ (12 + 9 * 2) % 512 = 0 by omega, read_l1 (by decide)]
    rfl
  have hn : (pteTab (.ofNat 64 (tt + 8 * 512))).toNat = (tt + 8 * 512) / 2 ^ 12 * 2 ^ 12 + 3 :=
    pteTab_toNat (by rw [BitVec.toNat_ofNat]; omega)
  have hro : field 62 1 (pteTab (.ofNat 64 (tt + 8 * 512))) = 0 := by
    rw [field, hn]
    omega
  rw [walk_table hd (field_of_add hn (by decide)) (field_of_add hn (by decide)) hro,
    field_addr hn (by decide) (by omega),
    show (tt + 8 * 512) / 2 ^ 12 * 2 ^ 12 = tt + 8 * 512 by omega]

theorem l2Entry_toNat {i : Nat} (h : i < 512) :
    (l2Entry i).toNat = i * 2 ^ 21 + if i = 0 then 0x741 else 0x645 := by
  unfold l2Entry
  split
  · rename_i hi
    subst hi
    rfl
  · have hw : ((2 * BitVec.ofNat 64 i) <<< 20).toNat = i * 2 ^ 21 := by
      rw [megabytes (by omega) (by decide), show (2 : BitVec 64).toNat = 2 from rfl]
      omega
    exact pteDev_toNat hw

/-- Two megabytes there are a block of the second table. -/
theorem walk_block_low (hva : va < 2 ^ 30) :
    walk (store mem (tableStores tt)) va 2 (tt + 8 * 512) false =
      some { pa := va, attrIndx := if va < 2 ^ 21 then 0 else 1
             shareability := if va < 2 ^ 21 then 3 else 2, readOnly := false } := by
  have hi : va / 2 ^ 21 < 512 := by omega
  have hd : store mem (tableStores tt) (tt + 8 * 512 + 8 * (va / 2 ^ (12 + 9 * 1) % 512)) =
      l2Entry (va / 2 ^ 21) := by
    rw [Nat.mod_eq_of_lt hi, read_l2 hi]
  have hn := l2Entry_toNat hi
  by_cases hlow : va < 2 ^ 21
  · rw [if_pos (by omega)] at hn
    rw [walk_block hd (.inl rfl) (field_of_add hn (by decide)) (field_of_add hn (by decide)),
      leaf_eq hn (by decide) (by decide) (by omega) (by decide), if_pos hlow, if_pos hlow]
    simp only [show va / 2 ^ 21 * 2 ^ (12 + 9 * 1) + va % 2 ^ (12 + 9 * 1) = va by omega]
    rfl
  · rw [if_neg (by omega)] at hn
    rw [walk_block hd (.inl rfl) (field_of_add hn (by decide)) (field_of_add hn (by decide)),
      leaf_eq hn (by decide) (by decide) (by omega) (by decide), if_neg hlow, if_neg hlow]
    simp only [show va / 2 ^ 21 * 2 ^ (12 + 9 * 1) + va % 2 ^ (12 + 9 * 1) = va by omega]
    rfl

/-- Every address is its own translation. -/
theorem walk_self (mem : Nat → BitVec 64) (ht : tt % 4096 = 0) (hlt : tt < 2 ^ 32) (hva : va < 2 ^ 32) :
    ∃ sh, walk (store mem (tableStores tt)) va 3 tt false =
      some { pa := va, attrIndx := if Cached va then 0 else 1, shareability := sh, readOnly := false } := by
  by_cases hdram : 2 ^ 30 ≤ va
  · exact ⟨3, by rw [walk_dram hdram hva, if_pos (.inr hdram)]⟩
  · refine ⟨if va < 2 ^ 21 then 3 else 2, ?_⟩
    have hc : Cached va ↔ va < 2 ^ 21 := by
      unfold Cached
      omega
    rw [walk_link ht hlt (not_le.1 hdram), walk_block_low (not_le.1 hdram)]
    simp only [hc]

theorem attr_normal : isNormalWriteBack (attr mairEl3 0) ∧ ¬ isDevice (attr mairEl3 0) := by decide

theorem attr_dev : ¬ isNormalWriteBack (attr mairEl3 1) ∧ isDevice (attr mairEl3 1) := by decide

/-- **The identity map.** -/
theorem identityMap (hlo : 2 * 4096 ≤ dramSize) (hhi : dramSize ≤ 3 * 2 ^ 30)
    (ha : dramSize % 4096 = 0) : IdentityMap dramSize mem sctlr := by
  have htt : ttBase dramSize = 0x40000000 + dramSize - 2 * 4096 := Nat.mod_eq_of_lt (by omega)
  have ht : ttBase dramSize % 4096 = 0 := by omega
  have hlt : ttBase dramSize < 2 ^ 32 := by omega
  refine ⟨ht, by omega, fun p hp => ?_, fun va hva => ?_⟩
  · rcases mem_tableStores.1 hp with ⟨i, hi, rfl⟩ | ⟨i, hi, rfl⟩ <;> dsimp only <;> omega
  · obtain ⟨sh, hw⟩ := walk_self mem ht hlt hva
    refine ⟨{ pa := va, attrIndx := if Cached va then 0 else 1, shareability := sh, readOnly := false },
      ?_, rfl, rfl, ?_, ?_⟩
    · rw [translateVa_eq mem ht hlt hva]
      simp only [mmuSetup, hw, Option.filter_some, hva, decide_true, ↓reduceIte]
    · by_cases hc : Cached va
      · exact iff_of_true (by rw [if_pos hc]; exact attr_normal.1) hc
      · exact iff_of_false (by rw [if_neg hc]; exact attr_dev.1) hc
    · by_cases hc : Cached va
      · exact iff_of_false (by rw [if_pos hc]; exact attr_normal.2) (not_not.2 hc)
      · exact iff_of_true (by rw [if_neg hc]; exact attr_dev.2) hc

theorem identityMap_2gib : IdentityMap (2 * 2 ^ 30) (fun _ => 0) 0 :=
  identityMap (by decide) (by decide) (by decide)

end

end PBoot
