import PBoot.Boot.Mac
import Mathlib.Algebra.Group.Nat.Defs

/-!
# Stable MAC addresses

`macLaw_iff`: the addresses depend on the SoC ID and the interface only, if and only if the second
call finds the last word as the first one left it. Each call mixes it again.
-/

namespace PBoot

/-- The calls for some interfaces, one after another, and what they yield. -/
def macCalls : Sid → List (Fin 16) → List (Fin 16 × Option (List (BitVec 8)))
  | _, [] => []
  | sid, no :: nos =>
    let (mac, sid) := getMacAddress sid (.ofNat 32 no)
    (no, mac) :: macCalls sid nos

/-- What an address should be: for one device, its own, and not just the vendor part. -/
structure GoodMac (mac : List (BitVec 8)) : Prop where
  length : mac.length = 6
  unicast : (mac.getD 0 0).getLsbD 0 = false
  local_admin : (mac.getD 0 0).getLsbD 1 = true
  device : mac.drop 3 ≠ [0, 0, 0]

/-- All calls for a number give the same good address, and calls for two numbers differ. -/
structure MacLaw (sid : Sid) : Prop where
  stable : ∃ addr : Fin 16 → List (BitVec 8), ∀ nos, ∀ c ∈ macCalls sid nos, c.2 = some (addr c.1)
  good : ∀ nos, ∀ c ∈ macCalls sid nos, ∃ mac, c.2 = some mac ∧ GoodMac mac
  distinct : ∀ nos, ∀ c ∈ macCalls sid nos, ∀ d ∈ macCalls sid nos, c.1 ≠ d.1 → c.2 ≠ d.2

/-- Mixing twice is mixing once. -/
def Sid.Settled (sid : Sid) : Prop :=
  sid.sid1 = sid.sid2 ∨ sid.sid1 ^^^ sid.sid2 = 0x800000 ∧
    (sid.sid3 &&& 0xffffff = 0 ∨ sid.sid3 &&& 0xffffff = 0x800000)

/-! ## Words -/

section
variable {x y m s : BitVec 32}

theorem toNat_byteAt (n : Nat) (x : BitVec 32) : (byteAt n x).toNat = x.toNat / 2 ^ n % 256 := by
  unfold byteAt
  rw [BitVec.toNat_setWidth, BitVec.toNat_and, BitVec.toNat_ushiftRight, Nat.shiftRight_eq_div_pow]
  rw [show (0xff : BitVec 32).toNat = 2 ^ 8 - 1 from rfl, Nat.and_two_pow_sub_one_eq_mod]
  omega

theorem byteAt_inj (h24 : byteAt 24 x = byteAt 24 y) (h16 : byteAt 16 x = byteAt 16 y)
    (h8 : byteAt 8 x = byteAt 8 y) (h0 : byteAt 0 x = byteAt 0 y) : x = y := by
  have hx := x.isLt
  have hy := y.isLt
  have h24 := congrArg BitVec.toNat h24
  have h16 := congrArg BitVec.toNat h16
  have h8 := congrArg BitVec.toNat h8
  have h0 := congrArg BitVec.toNat h0
  rw [toNat_byteAt, toNat_byteAt] at h24 h16 h8 h0
  apply BitVec.eq_of_toNat_eq
  omega

theorem low_eq_zero (h16 : byteAt 16 x = 0) (h8 : byteAt 8 x = 0) (h0 : byteAt 0 x = 0) :
    x &&& 0xffffff = 0 := by
  have h16 := congrArg BitVec.toNat h16
  have h8 := congrArg BitVec.toNat h8
  have h0 := congrArg BitVec.toNat h0
  rw [toNat_byteAt] at h16 h8 h0
  apply BitVec.eq_of_toNat_eq
  rw [BitVec.toNat_and, show (0xffffff : BitVec 32).toNat = 2 ^ 24 - 1 from rfl,
    Nat.and_two_pow_sub_one_eq_mod]
  simp at h16 h8 h0 ⊢
  omega

theorem xor_and_low (x y : BitVec 32) :
    (x ^^^ y) &&& 0xffffff = (x &&& 0xffffff) ^^^ (y &&& 0xffffff) := by
  apply BitVec.eq_of_getLsbD_eq
  intro i _
  simp only [BitVec.getLsbD_and, BitVec.getLsbD_xor, Bool.and_xor_distrib_right]

/-- The bit that is set was clear. -/
theorem or_eq_xor (h : x &&& 0xffffff = 0) : x ||| 0x800000 = x ^^^ 0x800000 := by
  have hbit : x &&& 0x800000 = 0 := by
    rw [show (0x800000 : BitVec 32) = 0xffffff &&& 0x800000 from rfl, ← BitVec.and_assoc, h]
    exact BitVec.zero_and
  apply BitVec.eq_of_getLsbD_eq
  intro i _
  have hi := congrArg (·.getLsbD i) hbit
  simp only [BitVec.getLsbD_and, BitVec.getLsbD_or, BitVec.getLsbD_xor] at hi ⊢
  cases hx : x.getLsbD i <;> cases hc : (0x800000 : BitVec 32).getLsbD i <;> simp_all

theorem nonZeroLow_of_eq (h : x &&& 0xffffff = 0) : nonZeroLow x = x ^^^ 0x800000 := by
  rw [nonZeroLow, if_pos h, or_eq_xor h]

theorem nonZeroLow_of_ne (h : x &&& 0xffffff ≠ 0) : nonZeroLow x = x := if_neg h

theorem low_nonZeroLow (x : BitVec 32) : nonZeroLow x &&& 0xffffff ≠ 0 := by
  by_cases h : x &&& 0xffffff = 0
  · rw [nonZeroLow_of_eq h, xor_and_low, h]
    decide
  · rwa [nonZeroLow_of_ne h]

theorem xor_eq_right_iff : m ^^^ s = s ↔ m = 0 := by
  constructor
  · intro h
    have hx := congrArg (· ^^^ s) h
    simpa [BitVec.xor_assoc] using hx
  · rintro rfl
    exact BitVec.zero_xor

/-- Mixing `m` into a word twice is mixing it in once. -/
theorem nonZeroLow_twice : nonZeroLow (m ^^^ nonZeroLow (m ^^^ s)) = nonZeroLow (m ^^^ s) ↔
    m = 0 ∨ m = 0x800000 ∧ (s &&& 0xffffff = 0 ∨ s &&& 0xffffff = 0x800000) := by
  have hback : ∀ z, m ^^^ (m ^^^ z) = z := fun z => by
    rw [← BitVec.xor_assoc, BitVec.xor_self, BitVec.zero_xor]
  have hlow : m = 0x800000 → m &&& 0xffffff = 0x800000 := by rintro rfl; rfl
  have hlow0 : m = 0 → m &&& 0xffffff = 0 := by rintro rfl; rfl
  by_cases h1 : (m ^^^ s) &&& 0xffffff = 0
  · have hms : m &&& 0xffffff = s &&& 0xffffff := by
      rw [xor_and_low] at h1
      exact BitVec.xor_eq_zero_iff.1 h1
    rw [nonZeroLow_of_eq h1, BitVec.xor_assoc, hback]
    by_cases h2 : s &&& 0xffffff = 0x800000
    · have hs : (s ^^^ 0x800000) &&& 0xffffff = 0 := by rw [xor_and_low, h2]; rfl
      rw [nonZeroLow_of_eq hs, BitVec.xor_assoc, BitVec.xor_self, BitVec.xor_zero, eq_comm,
        BitVec.xor_comm s, ← BitVec.xor_assoc, xor_eq_right_iff]
      have hz : m ^^^ 0x800000 = 0 ↔ m = 0x800000 := BitVec.xor_eq_zero_iff
      rw [hz]
      refine ⟨fun h => .inr ⟨h, .inr h2⟩, ?_⟩
      rintro (h | ⟨h, -⟩)
      · exact absurd ((hlow0 h).symm.trans (hms.trans h2)) (by decide)
      · exact h
    · have hs : (s ^^^ 0x800000) &&& 0xffffff ≠ 0 := by
        rw [xor_and_low]
        exact fun h => h2 (BitVec.xor_eq_zero_iff.1 h)
      rw [nonZeroLow_of_ne hs, eq_comm, xor_eq_right_iff]
      refine ⟨.inl, ?_⟩
      rintro (h | ⟨h, -⟩)
      · exact h
      · exact absurd (hms.symm.trans (hlow h)) h2
  · have hms : m &&& 0xffffff ≠ s &&& 0xffffff := by
      rw [xor_and_low] at h1
      exact fun h => h1 (BitVec.xor_eq_zero_iff.2 h)
    rw [nonZeroLow_of_ne h1, hback]
    by_cases h2 : s &&& 0xffffff = 0
    · rw [nonZeroLow_of_eq h2, BitVec.xor_comm m, BitVec.xor_right_inj, eq_comm]
      refine ⟨fun h => .inr ⟨h, .inl h2⟩, ?_⟩
      rintro (h | ⟨h, -⟩)
      · exact absurd ((hlow0 h).trans h2.symm) hms
      · exact h
    · rw [nonZeroLow_of_ne h2, eq_comm, xor_eq_right_iff]
      refine ⟨.inl, ?_⟩
      rintro (h | ⟨h, hs | hs⟩)
      · exact h
      · exact absurd hs h2
      · exact absurd ((hlow h).trans hs.symm) hms

end

/-! ## Calls -/

section
variable {sid : Sid} {no no' : Fin 16} {nos : List (Fin 16)}
  {c : Fin 16 × Option (List (BitVec 8))}

/-- The address for an interface when the last word is `x`. -/
def macOf (sid0 x : BitVec 32) (no : Fin 16) : List (BitVec 8) :=
  [((BitVec.ofNat 32 no <<< 4) ||| 0x02).setWidth 8, byteAt 0 sid0, byteAt 24 x, byteAt 16 x,
    byteAt 8 x, byteAt 0 x]

theorem getMacAddress_eq (h : sid.sid0 ≠ 0) (no : Fin 16) : getMacAddress sid (.ofNat 32 no) =
    (some (macOf sid.sid0 sid.mix no), { sid with sid3 := sid.mix }) := if_neg h

theorem mix_mix : Sid.mix { sid with sid3 := sid.mix } = sid.mix ↔ sid.Settled := by
  unfold Sid.mix Sid.Settled
  dsimp only
  rw [nonZeroLow_twice]
  exact or_congr_left BitVec.xor_eq_zero_iff

theorem goodMac (sid : Sid) (no : Fin 16) : GoodMac (macOf sid.sid0 sid.mix no) := by
  have hbits : ∀ no : Fin 16, ((((BitVec.ofNat 32 no <<< 4) ||| 0x02).setWidth 8).getLsbD 0 = false ∧
      (((BitVec.ofNat 32 no <<< 4) ||| 0x02).setWidth 8).getLsbD 1 = true) := by decide
  refine ⟨rfl, (hbits no).1, (hbits no).2, fun h => ?_⟩
  obtain ⟨h16, h8, h0, -⟩ : byteAt 16 sid.mix = 0 ∧ byteAt 8 sid.mix = 0 ∧ byteAt 0 sid.mix = 0 ∧ True := by
    simpa [macOf] using h
  exact low_nonZeroLow _ (low_eq_zero h16 h8 h0)

/-- The first byte is the interface's own. -/
theorem macOf_ne {sid0 x y : BitVec 32} (h : no ≠ no') : macOf sid0 x no ≠ macOf sid0 y no' := by
  have hfirst : ∀ no no' : Fin 16, no ≠ no' → ((BitVec.ofNat 32 no <<< 4) ||| 0x02).setWidth 8 ≠
      (((BitVec.ofNat 32 no' <<< 4) ||| 0x02).setWidth 8 : BitVec 8) := by decide
  exact fun he => hfirst no no' h (List.cons.inj he).1

theorem macOf_inj {sid0 x y : BitVec 32} (h : macOf sid0 x no = macOf sid0 y no) : x = y := by
  simp only [macOf, List.cons.injEq, true_and, and_true] at h
  exact byteAt_inj h.1 h.2.1 h.2.2.1 h.2.2.2

theorem macCalls_cons (h : sid.sid0 ≠ 0) : macCalls sid (no :: nos) =
    (no, some (macOf sid.sid0 sid.mix no)) :: macCalls { sid with sid3 := sid.mix } nos := by
  rw [macCalls, getMacAddress_eq h]

/-- Every call makes an address from the first word and some last word. -/
theorem mem_macCalls (h : sid.sid0 ≠ 0) (hc : c ∈ macCalls sid nos) :
    ∃ sid' : Sid, sid'.sid0 = sid.sid0 ∧ c.2 = some (macOf sid'.sid0 sid'.mix c.1) := by
  induction nos generalizing sid with
  | nil => cases hc
  | cons no nos ih =>
    rw [macCalls_cons h] at hc
    rcases List.mem_cons.1 hc with rfl | hc
    · exact ⟨sid, rfl, rfl⟩
    · have h' : Sid.sid0 { sid with sid3 := sid.mix } ≠ 0 := h
      obtain ⟨sid', h0, he⟩ := ih h' hc
      exact ⟨sid', h0, he⟩

/-- A word that mixing keeps is there at every call. -/
theorem macCalls_kept (h : sid.sid0 ≠ 0) (hm : sid.mix = sid.sid3) :
    ∀ c ∈ macCalls sid nos, c.2 = some (macOf sid.sid0 sid.mix c.1) := by
  induction nos with
  | nil => simp [macCalls]
  | cons no nos ih =>
    rw [macCalls_cons h, show { sid with sid3 := sid.mix } = sid by rw [hm]]
    exact List.forall_mem_cons.2 ⟨rfl, ih⟩

theorem macCalls_settled (h : sid.sid0 ≠ 0) (hs : sid.Settled) :
    ∀ c ∈ macCalls sid nos, c.2 = some (macOf sid.sid0 sid.mix c.1) := by
  cases nos with
  | nil => simp [macCalls]
  | cons no nos =>
    rw [macCalls_cons h]
    refine List.forall_mem_cons.2 ⟨rfl, ?_⟩
    have hmix := mix_mix.2 hs
    have hkept : ∀ c ∈ macCalls { sid with sid3 := sid.mix } nos, _ := macCalls_kept h hmix
    rwa [hmix] at hkept

/-- **Addresses are stable**, exactly when the second call mixes nothing new. -/
theorem macLaw_iff (h : sid.sid0 ≠ 0) : MacLaw sid ↔ sid.Settled := by
  constructor
  · rintro ⟨⟨addr, haddr⟩, -, -⟩
    have hcalls := haddr [0, 0]
    have h' : Sid.sid0 { sid with sid3 := sid.mix } ≠ 0 := h
    rw [macCalls_cons h, macCalls_cons h'] at hcalls
    have h₁ := hcalls _ List.mem_cons_self
    have h₂ := hcalls _ (List.mem_cons_of_mem _ List.mem_cons_self)
    exact mix_mix.1 (macOf_inj (Option.some.inj (h₂.trans h₁.symm)))
  · intro hs
    refine ⟨⟨macOf sid.sid0 sid.mix, fun nos => macCalls_settled h hs⟩, fun nos c hc => ?_,
      fun nos c hc d hd hne => ?_⟩
    · obtain ⟨sid', -, he⟩ := mem_macCalls h hc
      exact ⟨_, he, goodMac sid' c.1⟩
    · rw [macCalls_settled h hs c hc, macCalls_settled h hs d hd]
      exact fun he => macOf_ne hne (Option.some.inj he)

end

/-- No bit of the middle words differs. -/
theorem macLaw_equal : MacLaw ⟨0x92c000ba, 0x1234, 0x1234, 0x5678⟩ :=
  (macLaw_iff (by decide)).2 (.inl rfl)

/-- Two calls for one interface. -/
theorem macCalls_differ :
    (macCalls ⟨0x92c000ba, 0x1, 0x2, 0x10⟩ [0, 0]).map Prod.snd =
      [some [0x02, 0xba, 0, 0, 0, 0x13], some [0x02, 0xba, 0, 0, 0, 0x10]] ∧
    ¬ MacLaw ⟨0x92c000ba, 0x1, 0x2, 0x10⟩ := by
  refine ⟨by decide, fun hl => ?_⟩
  obtain ⟨addr, haddr⟩ := hl.stable
  have h₁ := haddr [0, 0] (0, some [0x02, 0xba, 0, 0, 0, 0x13]) (by decide)
  have h₂ := haddr [0, 0] (0, some [0x02, 0xba, 0, 0, 0, 0x10]) (by decide)
  exact absurd (h₁.trans h₂.symm) (by decide)

end PBoot
