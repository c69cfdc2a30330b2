import Mathlib.Data.BitVec

/-!
# The RTC data words (`main.c`)

Two words survive a reset: the persistent options at offset 0x100, with the default boot option
in the low byte and flags in the upper half, and the one-time request at offset 0x104.

* `rtcBootselGet_set`: a default reads back.
* `rtcBootselGet_setFlag`, `rtcGetFlag_setFlag`: setting a flag changes nothing else.
* `rtcGetFlag_bootselSet`: setting the default clears every flag.
-/

namespace PBoot

structure Rtc where
  /-- The word at 0x100. -/
  persistent : BitVec 32
  /-- The word at 0x104. -/
  oneTime : BitVec 32
  deriving DecidableEq, Repr

def bootselPoweroff : Int := 64
def bootselEmmc : Int := 65
def bootselFel : Int := 66

/-- `BIT(n)`. -/
def bit (n : Nat) : BitVec 32 := 1#32 <<< n

def rtcBootselGet (r : Rtc) : Int := ((r.persistent &&& 0xff#32).toNat : Int) - 1

def rtcBootselSet (r : Rtc) (sel : Int) : Rtc :=
  { r with persistent := 0#32 ||| (BitVec.ofInt 32 (sel + 1) &&& 0xff#32) }

def rtcSetFlag (r : Rtc) (flag val : BitVec 32) : Rtc :=
  { r with persistent := (r.persistent &&& ~~~(flag <<< 16)) ||| (val <<< 16) }

def rtcGetFlag (r : Rtc) (flag : BitVec 32) : Bool := (r.persistent &&& (flag <<< 16)) != 0#32

/-! ## Bits of the persistent word -/

theorem getLsbD_bit (n i : Nat) (h : n < 32) : (bit n).getLsbD i = decide (i = n) := by
  simp only [bit, BitVec.getLsbD_shiftLeft, BitVec.getLsbD_one]
  rcases Nat.lt_trichotomy i n with hi | rfl | hi
  · simp [hi, Nat.ne_of_lt hi]
  · simp [h]
  · simp [Nat.ne_of_gt hi, show i - n ≠ 0 by omega]

theorem getLsbD_bit_shift {n : Nat} (hn : n < 16) (i : Nat) :
    (bit n <<< 16).getLsbD i = decide (i = n + 16) := by
  rw [BitVec.getLsbD_shiftLeft, getLsbD_bit _ _ (by omega)]
  by_cases h16 : i < 16
  · simp [h16]; omega
  · by_cases h32 : i < 32
    · simp only [h32, h16, decide_true, decide_false, Bool.not_false, Bool.and_self, Bool.true_and,
        decide_eq_decide]
      omega
    · simp [h32]; omega

theorem rtcGetFlag_bit (r : Rtc) {n : Nat} (hn : n < 16) :
    rtcGetFlag r (bit n) = r.persistent.getLsbD (n + 16) := by
  unfold rtcGetFlag
  rcases hb : r.persistent.getLsbD (n + 16) with _ | _
  · rw [bne_eq_false_iff_eq]
    apply BitVec.eq_of_getLsbD_eq
    intro i _
    rw [BitVec.getLsbD_and, getLsbD_bit_shift hn, BitVec.getLsbD_zero]
    by_cases hi : i = n + 16
    · rw [hi, hb]; rfl
    · simp [hi]
  · rw [bne_iff_ne]
    intro h0
    have := congrArg (·.getLsbD (n + 16)) h0
    simp [getLsbD_bit_shift hn, hb] at this

theorem rtcBootselGet_congr {r r' : Rtc}
    (h : ∀ i < 8, r'.persistent.getLsbD i = r.persistent.getLsbD i) :
    rtcBootselGet r' = rtcBootselGet r := by
  have : r'.persistent &&& 0xff#32 = r.persistent &&& 0xff#32 := by
    apply BitVec.eq_of_getLsbD_eq
    intro i hi
    rw [BitVec.getLsbD_and, BitVec.getLsbD_and]
    by_cases h8 : i < 8
    · rw [h i h8]
    · have : (0xff#32).getLsbD i = false := by
        have : ∀ i < 32, ¬ i < 8 → (0xff#32).getLsbD i = false := by decide
        exact this i hi h8
      rw [this, Bool.and_false, Bool.and_false]
  rw [rtcBootselGet, rtcBootselGet, this]

/-- The upper half of the word has room for 16 flags. -/
theorem bit_shift_of_ge {n : Nat} (hn : 16 ≤ n) : bit n <<< 16 = 0#32 := by
  unfold bit
  rw [← BitVec.shiftLeft_add]
  exact BitVec.shiftLeft_eq_zero (by omega)

theorem rtcGetFlag_of_ge (r : Rtc) {n : Nat} (hn : 16 ≤ n) : rtcGetFlag r (bit n) = false := by
  unfold rtcGetFlag
  rw [bit_shift_of_ge hn, BitVec.and_zero, bne_self_eq_false]

theorem rtcSetFlag_of_ge (r : Rtc) {n : Nat} (hn : 16 ≤ n) (on : Bool) :
    rtcSetFlag r (bit n) (if on then bit n else 0) = r := by
  have hval : (if on then bit n else 0) <<< 16 = 0#32 := by
    cases on
    · simp
    · exact bit_shift_of_ge hn
  unfold rtcSetFlag
  rw [hval, bit_shift_of_ge hn, BitVec.or_zero, BitVec.not_zero, BitVec.and_allOnes]

/-! ## Reading back what was set -/

theorem getLsbD_setFlag (r : Rtc) {n : Nat} (hn : n < 16) (on : Bool) (i : Nat) :
    (rtcSetFlag r (bit n) (if on then bit n else 0)).persistent.getLsbD i =
      if i = n + 16 then on else r.persistent.getLsbD i := by
  have hval : ((if on then bit n else 0) <<< 16).getLsbD i = (on && decide (i = n + 16)) := by
    cases on
    · simp
    · simp [getLsbD_bit_shift hn]
  simp only [rtcSetFlag, BitVec.getLsbD_or, BitVec.getLsbD_and, BitVec.getLsbD_not, hval,
    getLsbD_bit_shift hn]
  by_cases hi : i = n + 16
  · simp [hi]
  · by_cases h32 : i < 32
    · simp [hi, h32]
    · simp [hi, h32, BitVec.getLsbD_of_ge _ _ (Nat.not_lt.1 h32)]

theorem rtcGetFlag_setFlag (r : Rtc) {n m : Nat} (hn : n < 16) (hm : m < 16) (on : Bool) :
    rtcGetFlag (rtcSetFlag r (bit n) (if on then bit n else 0)) (bit m) =
      if m = n then on else rtcGetFlag r (bit m) := by
  rw [rtcGetFlag_bit _ hm, getLsbD_setFlag r hn, rtcGetFlag_bit _ hm]
  simp only [Nat.add_right_cancel_iff]

theorem rtcBootselGet_setFlag (r : Rtc) {n : Nat} (hn : n < 16) (on : Bool) :
    rtcBootselGet (rtcSetFlag r (bit n) (if on then bit n else 0)) = rtcBootselGet r := by
  apply rtcBootselGet_congr
  intro i hi
  rw [getLsbD_setFlag r hn, if_neg (by omega)]

theorem rtcBootselGet_set (r : Rtc) {sel : Int} (h : -1 ≤ sel) (h' : sel < 255) :
    rtcBootselGet (rtcBootselSet r sel) = sel := by
  obtain ⟨n, hn⟩ := Int.eq_ofNat_of_zero_le (show 0 ≤ sel + 1 by omega)
  have hlow : (BitVec.ofInt 32 (sel + 1) &&& 0xff#32).toNat = n := by
    rw [hn, BitVec.ofInt_natCast, BitVec.toNat_and, BitVec.toNat_ofNat,
      show (0xff#32).toNat = 2 ^ 8 - 1 by rfl, Nat.and_two_pow_sub_one_eq_mod]
    omega
  have hmask : (0#32 ||| (BitVec.ofInt 32 (sel + 1) &&& 0xff#32)) &&& 0xff#32 =
      BitVec.ofInt 32 (sel + 1) &&& 0xff#32 := by
    rw [BitVec.zero_or, BitVec.and_assoc, BitVec.and_self]
  rw [rtcBootselGet, rtcBootselSet, hmask, hlow]
  omega

/-- **Setting the default clears every flag.** -/
theorem rtcGetFlag_bootselSet (r : Rtc) (sel : Int) (n : Nat) :
    rtcGetFlag (rtcBootselSet r sel) (bit n) = false := by
  rcases Nat.lt_or_ge n 16 with hn | hn
  swap
  · exact rtcGetFlag_of_ge _ hn
  rw [rtcGetFlag_bit _ hn, rtcBootselSet, BitVec.zero_or, BitVec.getLsbD_and]
  have : ∀ n < 16, (0xff#32).getLsbD (n + 16) = false := by decide
  rw [this n hn, Bool.and_false]

theorem rtcBootselGet_range (r : Rtc) : -1 ≤ rtcBootselGet r ∧ rtcBootselGet r ≤ 254 := by
  have h : (r.persistent &&& 0xff#32).toNat ≤ 255 := by
    rw [BitVec.toNat_and]
    exact Nat.and_le_right
  unfold rtcBootselGet
  omega

end PBoot
