import PBoot.Log.Printf
import PBoot.Lib.Numeral

/-!
# What is logged

* `putUint_eq`, `realPutHex_eq`: the two loops that write digits write numerals.
* `printfFrom_conversion`: a conversion of an integer, anywhere in a format.
* `printfFrom_isSome`: every format that has a terminator ends at it.
* `printfLaw_iff`: where this is what C asks for. A signed number is padded as C asks for exactly
  when it needs no padding or is padded with blanks and not negative; thousandths are right exactly
  when they have three digits or are zero.
-/

namespace PBoot

open Bytes Text Numeral

/-! ## What C asks for -/

inductive IntKind where
  | u
  | x
  | d
  deriving DecidableEq, Repr

def IntKind.char : IntKind → UInt8
  | .u => 117
  | .x => 120
  | .d => 100

/-- A conversion of an integer. Without a width, `width` is zero; C takes it for an `int`. -/
structure Conversion where
  /-- How often the flag `0` is given. -/
  zeros : Nat
  width : Nat
  /-- How many `l`s there are. -/
  longs : Nat
  kind : IntKind
  width_lt : width < 2 ^ 31
  longs_le : longs ≤ 2

/-- The width, as it is written. -/
def widthText (w : Nat) : List UInt8 := if w = 0 then [] else numeral 10 w

/-- How it is written. -/
def Conversion.spell (c : Conversion) : List UInt8 :=
  37 :: (List.replicate c.zeros 48 ++ (widthText c.width ++
    (List.replicate c.longs 108 ++ [c.kind.char])))

/-- The argument as an unsigned number of the type that is selected. -/
def Conversion.unsigned (c : Conversion) (a : PrintfArg) : Nat :=
  if c.longs = 0 then (a.word.setWidth 32 : BitVec 32).toNat else a.word.toNat

/-- The argument as a signed one. -/
def Conversion.signed (c : Conversion) (a : PrintfArg) : Int :=
  if c.longs = 0 then (a.word.setWidth 32 : BitVec 32).toInt else a.word.toInt

def Conversion.sign (c : Conversion) (a : PrintfArg) : List UInt8 :=
  if c.kind = .d ∧ c.signed a < 0 then [45] else []

def Conversion.digits (c : Conversion) (a : PrintfArg) : List UInt8 :=
  match c.kind with
  | .u => numeral 10 (c.unsigned a)
  | .x => numeral 16 (c.unsigned a)
  | .d => numeral 10 (c.signed a).natAbs

/-- How many characters the number has without padding. -/
def Conversion.length (c : Conversion) (a : PrintfArg) : Nat :=
  (c.sign a).length + (c.digits a).length

/-- What C's `printf` writes: zeros come behind the sign, blanks before it. -/
def Conversion.text (c : Conversion) (a : PrintfArg) : List UInt8 :=
  if 0 < c.zeros then c.sign a ++ List.replicate (c.width - c.length a) 48 ++ c.digits a
  else List.replicate (c.width - c.length a) 32 ++ c.sign a ++ c.digits a

/-- In every format, at every argument, `spelled` writes `text`, and the format goes on with the next
argument. -/
def Writes (spelled : List UInt8) (a : PrintfArg) (text : List UInt8) : Prop :=
  ∀ (args : Nat → PrintfArg) (n : Nat) (rest : List UInt8), args n = a →
    printfFrom args (spelled ++ rest) n = (printfFrom args rest (n + 1)).map (text ++ ·)

/-- The text is the decimal fraction `v / 1000`. -/
def Thousandths (v : Nat) (text : List UInt8) : Prop :=
  ∃ whole frac, text = whole ++ 46 :: frac ∧ whole ≠ [] ∧ frac ≠ [] ∧
    (∀ c ∈ whole, isDigit c = true) ∧ (∀ c ∈ frac, isDigit c = true) ∧
    1000 * (Text.digits whole * 10 ^ frac.length + Text.digits frac) = v * 10 ^ frac.length

/-! ## Digits -/

section
variable {v room len : Nat} {align : Int} {pad0 : Bool} {s : List UInt8}

theorem fillDigits_zero (room : Nat) (text : List UInt8) : fillDigits room 0 text = some text := by
  cases room <;> rfl

theorem fillDigits_eq (hv : v ≠ 0) (h : v < 10 ^ room) (text : List UInt8) :
    fillDigits room v text = some (numeral 10 v ++ text) := by
  induction room generalizing v text with
  | zero => exact absurd (show v = 0 by simpa using h) hv
  | succ room ih =>
    obtain ⟨w, rfl⟩ : ∃ w, v = w + 1 := ⟨v - 1, by omega⟩
    rw [fillDigits]
    by_cases hlt : w + 1 < 10
    · rw [Nat.div_eq_of_lt hlt, fillDigits_zero, numeral_of_lt hlt, digitChar_of_lt hlt,
        Nat.mod_eq_of_lt hlt]
      rfl
    · have hle : (w + 1) / 10 < 10 ^ room :=
        Nat.div_lt_of_lt_mul (by rw [← Nat.pow_succ']; exact h)
      rw [ih (by omega) hle, numeral_of_le (v := w + 1) (by decide) (by omega), List.append_assoc,
        digitChar_of_lt (Nat.mod_lt _ (by decide))]
      rfl

theorem padding_eq (hlo : -2 ^ 31 ≤ align - len) (hhi : align - len < 2 ^ 31) :
    padding align len pad0 = List.replicate (align - len).toNat (if pad0 then 48 else 32) := by
  rw [padding, wrapInt_of_lt hlo hhi]

theorem realPuts_digits (h : ∀ c ∈ s, isDigit c = true) : realPuts s = s := by
  have hno : ∀ c, isDigit c = true → c ≠ 0 ∧ c ≠ newline := by
    intro c hc
    refine ⟨?_, ?_⟩
    · rintro rfl
      exact absurd hc (by decide)
    · rintro rfl
      exact absurd hc (by decide)
  rw [realPuts, cstr_of_not_mem fun h0 => (hno 0 (h 0 h0)).1 rfl]
  induction s with
  | nil => rfl
  | cons c s ih =>
    obtain ⟨hc, hs⟩ := List.forall_mem_cons.1 h
    rw [List.flatMap_cons, ih hs, if_neg (hno c hc).2]
    rfl

theorem uintDigits_eq (value : BitVec 64) : uintDigits value = some (numeral 10 value.toNat) := by
  unfold uintDigits
  split
  · rename_i h0
    rw [h0]
    rfl
  · rename_i h0
    have hne : value.toNat ≠ 0 := fun h => h0 (BitVec.eq_of_toNat_eq h)
    rw [fillDigits_eq hne (Nat.lt_trans value.isLt (by decide)), List.append_nil]

/-- **`put_uint`** writes a padded numeral. -/
theorem putUint_eq (value : BitVec 64) (hlo : -2 ^ 30 ≤ align) (hhi : align < 2 ^ 31) :
    putUint value align pad0 =
      some (List.replicate (align - (numeral 10 value.toNat).length).toNat
        (if pad0 then 48 else 32) ++ numeral 10 value.toNat) := by
  have hlt : value.toNat < 10 ^ 20 := Nat.lt_trans value.isLt (by decide)
  have hlen := length_numeral_le (b := 10) (by decide) (by decide) hlt
  rw [putUint, uintDigits_eq, Option.bind_eq_bind, Option.bind_some,
    padding_eq (by omega) (by omega), realPuts_digits (isDigit_numeral _)]

/-! ### Hexadecimal digits -/

theorem hexDigit_eq (n : Nat) : hexDigit n = digitChar n := by
  unfold hexDigit digitChar
  split
  · rfl
  · rw [show 97 + (n - 10) = 87 + n by omega]

theorem log2_lt (hex : BitVec 64) : hex.toNat.log2 < 64 := by
  by_cases h0 : hex.toNat = 0
  · rw [h0]
    decide
  · exact (Nat.log2_lt h0).2 hex.isLt

/-- The nibbles that are left reach the highest bit. -/
theorem skipNibbles_eq (hex : BitVec 64) : skipNibbles hex = 15 - hex.toNat.log2 / 4 := by
  have hlt := log2_lt hex
  unfold skipNibbles
  split
  · rename_i h0
    rw [h0]
    rfl
  · omega

theorem numeral_hex (hex : BitVec 64) : numeral 16 hex.toNat =
    (List.range (hex.toNat.log2 / 4 + 1)).map fun i =>
      digitChar (hex.toNat / 16 ^ (hex.toNat.log2 / 4 - i) % 16) := by
  have hpow : ∀ k, 16 ^ k = 2 ^ (4 * k) := fun k => by rw [Nat.pow_mul]
  refine numeral_places (by decide) (fun hk => ?_) ?_
  · have hne : hex.toNat ≠ 0 := by
      intro h0
      rw [h0] at hk
      exact hk rfl
    rw [hpow]
    exact Nat.le_trans (Nat.pow_le_pow_right (by decide) (by omega)) (Nat.log2_self_le hne)
  · rw [hpow]
    exact Nat.lt_of_lt_of_le Nat.lt_log2_self (Nat.pow_le_pow_right (by decide) (by omega))

/-- **`real_put_hex`** writes a padded numeral. -/
theorem realPutHex_eq (hex : BitVec 64) (hlo : -2 ^ 30 ≤ align) (hhi : align < 2 ^ 31) :
    realPutHex hex align pad0 =
      List.replicate (align - (numeral 16 hex.toNat).length).toNat
        (if pad0 then 48 else 32) ++ numeral 16 hex.toNat := by
  have hlt := log2_lt hex
  have hlen : (numeral 16 hex.toNat).length = hex.toNat.log2 / 4 + 1 := by
    rw [numeral_hex, List.length_map, List.length_range]
  have hleft : 16 - skipNibbles hex = hex.toNat.log2 / 4 + 1 := by
    rw [skipNibbles_eq]
    omega
  rw [realPutHex, hleft, hlen, padding_eq (by omega) (by omega)]
  congr 1
  rw [numeral_hex, List.range'_eq_map_range, List.map_map]
  refine List.map_congr_left fun i hi => ?_
  have hi' := List.mem_range.1 hi
  have hplace : 15 - (skipNibbles hex + i) = hex.toNat.log2 / 4 - i := by
    rw [skipNibbles_eq]
    omega
  simp only [Function.comp_apply]
  rw [hplace, hexDigit_eq, BitVec.toNat_and, BitVec.toNat_ushiftRight, Nat.shiftRight_eq_div_pow,
    Nat.pow_mul]
  exact congrArg digitChar (Nat.and_two_pow_sub_one_eq_mod _ 4)

end

/-! ## Conversions -/

section
variable {args : Nat → PrintfArg} {n : Nat} {c : Conversion} {a : PrintfArg}

/-- The digits of the width are read back. -/
theorem align_numeral {w : Nat} (hw : w < 2 ^ 31) :
    (numeral 10 w).foldl (fun align c => wrapInt (wrapInt (align * 10) + (c.toNat - 48 : Nat))) 0 =
      (w : Int) := by
  refine foldl_numeral (g := fun w => (w : Int)) (n := w) (fun v d hd hle => ?_) (Nat.le_refl w)
  rw [toNat_digitChar hd, wrapInt_of_lt (z := (v : Int) * 10) (by omega) (by omega),
    wrapInt_of_lt (by omega) (by omega)]
  omega

theorem IntKind.char_not (k : IntKind) : k.char ≠ 48 ∧ isDigit k.char = false ∧ k.char ≠ 108 ∧
    k.char ≠ 104 ∧ k.char ≠ 0 := by
  cases k <;> decide

theorem widthText_spec {w : Nat} (hw : w < 2 ^ 31) :
    (∀ c ∈ widthText w, isDigit c = true) ∧ (widthText w).head? ≠ some 48 ∧
      (widthText w).foldl
        (fun align c => wrapInt (wrapInt (align * 10) + (c.toNat - 48 : Nat))) 0 = (w : Int) := by
  unfold widthText
  split
  · rename_i h0
    rw [h0]
    exact ⟨fun _ hc => absurd hc List.not_mem_nil, by decide, rfl⟩
  · rename_i h0
    exact ⟨isDigit_numeral w, head_numeral h0, align_numeral hw⟩

/-- The modifiers and the character of the conversion start with neither a digit. -/
theorem head_mods (c : Conversion) (rest : List UInt8) :
    ∀ y ∈ (List.replicate c.longs 108 ++ c.kind.char :: rest).head?, y ≠ 48 ∧ isDigit y = false := by
  obtain ⟨h48, hdig, -⟩ := c.kind.char_not
  intro y hy
  cases hl : c.longs with
  | zero =>
    rw [hl] at hy
    cases hy
    exact ⟨h48, hdig⟩
  | succ l =>
    rw [hl] at hy
    cases hy
    exact ⟨by decide, by decide⟩

/-- Behind the flags, a conversion does not go on with another one. -/
theorem head_width (c : Conversion) (rest : List UInt8) :
    ∀ y ∈ (widthText c.width ++ (List.replicate c.longs 108 ++ c.kind.char :: rest)).head?,
      y ≠ 48 := by
  obtain ⟨-, hhead, -⟩ := widthText_spec c.width_lt
  intro y hy
  cases hW : widthText c.width with
  | nil =>
    rw [hW] at hy
    exact (head_mods c rest y hy).1
  | cons z W =>
    rw [hW] at hy hhead
    cases hy
    simpa using hhead

/-- The first flag tells that there is one. -/
theorem head_flags {n : Nat} {s : List UInt8} (h : ∀ y ∈ s.head?, y ≠ 48) :
    ((List.replicate n 48 ++ s).head? == some 48) = decide (0 < n) := by
  cases n with
  | zero =>
    rw [List.replicate_zero, List.nil_append]
    cases hs : s.head? with
    | none => rfl
    | some y => simpa using h y hs
  | succ n => rfl

/-- What stands behind the `%` of a conversion is read as it was meant. -/
theorem scanSpec_spell (c : Conversion) (rest : List UInt8) :
    scanSpec (List.replicate c.zeros 48 ++ (widthText c.width ++
      (List.replicate c.longs 108 ++ c.kind.char :: rest))) =
      ({ pad0 := decide (0 < c.zeros), align := c.width, l := c.longs }, c.kind.char :: rest) := by
  obtain ⟨-, -, h108, h104, -⟩ := c.kind.char_not
  obtain ⟨hdigits, -, halign⟩ := widthText_spec c.width_lt
  have hmods := head_mods c rest
  have hwidth := head_width c rest
  generalize hM : List.replicate c.longs 108 ++ c.kind.char :: rest = mods at hmods hwidth
  have hzeros : (List.replicate c.zeros 48 ++ (widthText c.width ++ mods)).dropWhile (· == 48) =
      widthText c.width ++ mods :=
    dropWhile_append_head (fun y hy => by simp [List.eq_of_mem_replicate hy])
      fun y hy => by simp [hwidth y hy]
  have hno : ∀ y ∈ mods.head?, ¬isDigit y = true := fun y hy => by simp [(hmods y hy).2]
  have hlong : ∀ y ∈ List.replicate c.longs (108 : UInt8), (y == 108) = true :=
    fun y hy => by simp [List.eq_of_mem_replicate hy]
  have hkind : ∀ y ∈ (c.kind.char :: rest).head?, ¬(y == 108) = true := fun y hy => by
    cases hy
    simpa using h108
  unfold scanSpec
  simp only [hzeros, head_flags hwidth, takeWhile_append_head hdigits hno,
    dropWhile_append_head hdigits hno, halign]
  rw [← hM, takeWhile_append_head hlong hkind, dropWhile_append_head hlong hkind,
    List.length_replicate, List.dropWhile_cons_of_neg (by simpa using h104)]

/-- A conversion in a format, read as `spec` and `kind`. -/
theorem printfFrom_percent {p p' : List UInt8} {spec : FormatSpec} {kind : UInt8}
    (hs : scanSpec p = (spec, kind :: p')) (hl : spec.l ≤ 2) (hk : kind ≠ 0) :
    printfFrom args (37 :: p) n = (convert spec kind (args n)).bind fun r =>
      (printfFrom args p' (n + r.2)).map (r.1 ++ ·) := by
  have hspec : (scanSpec p).1 = spec := by rw [hs]
  have hrest : (scanSpec p).2 = kind :: p' := by rw [hs]
  rw [printfFrom, if_pos rfl, hspec]
  split
  · rename_i h
    rw [hrest] at h
    cases h
  · rename_i kind' p'' h
    rw [hrest] at h
    cases h
    rw [if_neg (by omega), if_neg hk]
    cases convert spec kind (args n) with
    | none => rfl
    | some r =>
      rw [Option.bind_eq_bind, Option.bind_some, Option.bind_some]
      cases h : printfFrom args p' (n + r.2) with
      | none => simp [h]
      | some more => simp [h]

/-- What is logged for a conversion: as C asks for, but a signed number is padded with blanks behind
its sign. -/
def Conversion.logged (c : Conversion) (a : PrintfArg) : List UInt8 :=
  if c.kind = .d then c.sign a ++ List.replicate (c.width - c.length a) 32 ++ c.digits a
  else c.text a

theorem vaInt_unsigned (h : c.longs ≤ 2) (a : PrintfArg) :
    (vaInt c.longs false a).1.toNat = c.unsigned a ∧ (vaInt c.longs false a).2 = 1 := by
  unfold vaInt Conversion.unsigned
  split
  · exact ⟨BitVec.toNat_setWidth_of_le (show 32 ≤ 64 by decide), rfl⟩
  · rw [if_pos (by omega)]
    exact ⟨rfl, rfl⟩

theorem vaInt_signed (h : c.longs ≤ 2) (a : PrintfArg) :
    (vaInt c.longs true a).1.toInt = c.signed a ∧ (vaInt c.longs true a).2 = 1 := by
  unfold vaInt Conversion.signed
  split
  · exact ⟨BitVec.toInt_signExtend_of_le (show 32 ≤ 64 by decide), rfl⟩
  · rw [if_pos (by omega)]
    exact ⟨rfl, rfl⟩

theorem toNat_neg_of_neg {v : BitVec 64} (h : v.toInt < 0) : (-v).toNat = v.toInt.natAbs := by
  have hlt := v.isLt
  rw [BitVec.toInt_eq_toNat_cond] at h ⊢
  split at h
  · omega
  · rename_i hge
    rw [BitVec.toNat_neg, if_neg hge]
    omega

theorem toNat_of_nonneg {v : BitVec 64} (h : 0 ≤ v.toInt) : v.toNat = v.toInt.natAbs := by
  have hlt := v.isLt
  rw [BitVec.toInt_eq_toNat_cond] at h ⊢
  split at h
  · rename_i hlo
    rw [if_pos hlo]
    omega
  · omega

theorem putInt_eq (v : BitVec 64) {w : Nat} (hw : w < 2 ^ 31) (pad0 : Bool) :
    putInt v w pad0 =
      some ((if v.toInt < 0 then [45] else []) ++
        List.replicate (w - ((if v.toInt < 0 then [45] else ([] : List UInt8)).length +
          (numeral 10 v.toInt.natAbs).length)) 32 ++ numeral 10 v.toInt.natAbs) := by
  unfold putInt
  split
  · rename_i hneg
    rw [wrapInt_of_lt (by omega) (by omega), putUint_eq _ (by omega) (by omega),
      toNat_neg_of_neg hneg]
    have hlen : ((w : Int) - 1 - (numeral 10 v.toInt.natAbs).length).toNat =
        w - (1 + (numeral 10 v.toInt.natAbs).length) := by omega
    rw [hlen]
    rfl
  · rename_i hpos
    rw [putUint_eq _ (by omega) (by omega), toNat_of_nonneg (by omega)]
    have hlen : ((w : Int) - (numeral 10 v.toInt.natAbs).length).toNat =
        w - (0 + (numeral 10 v.toInt.natAbs).length) := by omega
    rw [hlen]
    rfl

theorem logged_unsigned (hk : c.kind ≠ .d) (a : PrintfArg) : c.logged a =
    List.replicate ((c.width : Int) - (c.digits a).length).toNat
      (if decide (0 < c.zeros) then 48 else 32) ++ c.digits a := by
  have hsign : c.sign a = [] := if_neg fun h => hk h.1
  have hlen : ((c.width : Int) - (c.digits a).length).toNat = c.width - c.length a := by
    rw [Conversion.length, hsign, List.length_nil, Nat.zero_add]
    omega
  rw [Conversion.logged, if_neg hk, Conversion.text, hsign, hlen]
  by_cases hz : 0 < c.zeros
  · simp [hz]
  · simp [hz]

theorem convert_eq (c : Conversion) (a : PrintfArg) :
    convert { pad0 := decide (0 < c.zeros), align := c.width, l := c.longs } c.kind.char a =
      some (c.logged a, 1) := by
  have hw := c.width_lt
  cases hk : c.kind with
  | u =>
    obtain ⟨hv, ht⟩ := vaInt_unsigned c.longs_le a
    change (putUint (vaInt c.longs false a).1 c.width (decide (0 < c.zeros))).map
      (·, (vaInt c.longs false a).2) = _
    have hdigits : c.digits a = numeral 10 (c.unsigned a) := by rw [Conversion.digits, hk]
    rw [putUint_eq _ (by omega) (by omega), hv, ht, logged_unsigned (by simp [hk]), hdigits]
    rfl
  | x =>
    obtain ⟨hv, ht⟩ := vaInt_unsigned c.longs_le a
    change some (realPutHex (vaInt c.longs false a).1 c.width (decide (0 < c.zeros)),
      (vaInt c.longs false a).2) = _
    have hdigits : c.digits a = numeral 16 (c.unsigned a) := by rw [Conversion.digits, hk]
    rw [realPutHex_eq _ (by omega) (by omega), hv, ht, logged_unsigned (by simp [hk]), hdigits]
  | d =>
    obtain ⟨hv, ht⟩ := vaInt_signed c.longs_le a
    change (putInt (vaInt c.longs true a).1 c.width (decide (0 < c.zeros))).map
      (·, (vaInt c.longs true a).2) = _
    have hdigits : c.digits a = numeral 10 (c.signed a).natAbs := by rw [Conversion.digits, hk]
    have hsign : c.sign a = if c.signed a < 0 then [45] else [] := by simp [Conversion.sign, hk]
    rw [putInt_eq _ hw, hv, ht, Conversion.logged, if_pos hk, Conversion.length, hsign, hdigits]
    rfl

/-- **A conversion, anywhere in a format.** -/
theorem printfFrom_conversion (c : Conversion) (a : PrintfArg) : Writes c.spell a (c.logged a) := by
  intro args n rest ha
  obtain ⟨-, -, -, -, hk⟩ := c.kind.char_not
  have hspell : c.spell ++ rest = 37 :: (List.replicate c.zeros 48 ++ (widthText c.width ++
      (List.replicate c.longs 108 ++ c.kind.char :: rest))) := by
    simp [Conversion.spell]
  rw [hspell, printfFrom_percent (scanSpec_spell c rest) c.longs_le hk, ha, convert_eq]
  rfl

/-! ## Thousandths -/

theorem putUint_plain (value : BitVec 64) :
    putUint value 0 false = some (numeral 10 value.toNat) := by
  have hlen : ((0 : Int) - (numeral 10 value.toNat).length).toNat = 0 := by omega
  rw [putUint_eq _ (by omega) (by omega), hlen]
  rfl

theorem putUintDivBy1000_eq (value : BitVec 32) : putUintDivBy1000 value =
    some (numeral 10 (value.toNat / 1000) ++ 46 :: numeral 10 (value.toNat % 1000)) := by
  have hwhole : (if 1000 ≤ value.toNat then putUint ((value / 1000).setWidth 64) 0 false
      else some [48]) = some (numeral 10 (value.toNat / 1000)) := by
    split
    · rw [putUint_plain, BitVec.toNat_setWidth_of_le (by decide), BitVec.toNat_udiv]
      rfl
    · rename_i hlt
      rw [Nat.div_eq_of_lt (by omega)]
      rfl
  have hrest : putUint ((value % 1000).setWidth 64) 0 false =
      some (numeral 10 (value.toNat % 1000)) := by
    rw [putUint_plain, BitVec.toNat_setWidth_of_le (by decide), BitVec.toNat_umod]
    rfl
  simp only [putUintDivBy1000, hwhole, hrest, Option.bind_some, Option.map_some]

/-- The numeral behind the point has three digits from 100 on. -/
theorem length_thousandths {r : Nat} (hr : r < 1000) :
    (numeral 10 r).length = if r < 10 then 1 else if r < 100 then 2 else 3 := by
  have hpos := length_numeral_pos 10 r
  split
  · have := length_numeral_le (b := 10) (k := 1) (v := r) (by decide) (by decide) (by omega)
    omega
  · have hlo := le_length_numeral (b := 10) (k := 1) (v := r) (by decide) (by omega)
    split
    · have := length_numeral_le (b := 10) (k := 2) (v := r) (by decide) (by decide) (by omega)
      omega
    · have := le_length_numeral (b := 10) (k := 2) (v := r) (by decide) (by omega)
      have := length_numeral_le (b := 10) (k := 3) (v := r) (by decide) (by decide) (by omega)
      omega

theorem thousandths_iff (v : Nat) :
    Thousandths v (numeral 10 (v / 1000) ++ 46 :: numeral 10 (v % 1000)) ↔
      v % 1000 = 0 ∨ 100 ≤ v % 1000 := by
  have hnum : ∀ {whole frac : List UInt8}, (∀ c ∈ whole, isDigit c = true) →
      (whole ++ 46 :: frac).takeWhile isDigit = whole ∧
        (whole ++ 46 :: frac).dropWhile isDigit = 46 :: frac := fun h =>
    ⟨takeWhile_append_head h (by simp [isDigit]), dropWhile_append_head h (by simp [isDigit])⟩
  have hsplit : 1000 * (v / 1000) + v % 1000 = v := Nat.div_add_mod v 1000
  have hlen := length_thousandths (Nat.mod_lt v (show 0 < 1000 by decide))
  have hval : 1000 * (v / 1000 * 10 ^ (numeral 10 (v % 1000)).length + v % 1000) =
      v * 10 ^ (numeral 10 (v % 1000)).length ↔ v % 1000 = 0 ∨ 100 ≤ v % 1000 := by
    rw [hlen]
    split
    · omega
    · split
      · omega
      · omega
  constructor
  · rintro ⟨whole, frac, heq, -, -, hw, hf, hv⟩
    have h1 := @hnum _ (numeral 10 (v % 1000)) (isDigit_numeral (v / 1000))
    have h2 := @hnum _ frac hw
    rw [heq] at h1
    obtain rfl : whole = numeral 10 (v / 1000) := h2.1.symm.trans h1.1
    obtain rfl : frac = numeral 10 (v % 1000) := (List.cons.inj (h2.2.symm.trans h1.2)).2
    rw [digits_numeral, digits_numeral] at hv
    exact hval.1 hv
  · intro h
    refine ⟨_, _, rfl, List.ne_nil_of_length_pos (length_numeral_pos _ _),
      List.ne_nil_of_length_pos (length_numeral_pos _ _), isDigit_numeral _, isDigit_numeral _, ?_⟩
    rw [digits_numeral, digits_numeral]
    exact hval.2 h

theorem printfFrom_thousandths (a : PrintfArg) : Writes [37, 102] a
    (numeral 10 ((a.word.setWidth 32 : BitVec 32).toNat / 1000) ++
      46 :: numeral 10 ((a.word.setWidth 32 : BitVec 32).toNat % 1000)) := by
  intro args n rest ha
  have hs : scanSpec (102 :: rest) = ({ pad0 := false, align := 0, l := 0 }, 102 :: rest) := rfl
  have hconv : convert { pad0 := false, align := 0, l := 0 } 102 a =
      (putUintDivBy1000 (a.word.setWidth 32)).map (·, 1) := rfl
  rw [show ([37, 102] : List UInt8) ++ rest = 37 :: 102 :: rest from rfl,
    printfFrom_percent hs (by decide) (by decide), ha, hconv, putUintDivBy1000_eq]
  rfl

/-! ## The end of a format -/

theorem dropWhile_concat_nul {p : UInt8 → Bool} (h : p 0 = false) (s : List UInt8) :
    (s ++ [0]).dropWhile p = s.dropWhile p ++ [0] := by
  induction s with
  | nil => simp [h]
  | cons c s ih =>
    rw [List.cons_append, List.dropWhile_cons, List.dropWhile_cons, ih]
    split <;> rfl

/-- What is read of a conversion stays in front of the terminator. -/
theorem scanSpec_concat_nul (s : List UInt8) : (scanSpec (s ++ [0])).2 = (scanSpec s).2 ++ [0] := by
  change (((List.dropWhile (· == 48) (s ++ [0])).dropWhile isDigit).dropWhile (· == 108)).dropWhile
    (· == 104) = _
  rw [dropWhile_concat_nul (by decide), dropWhile_concat_nul (by decide),
    dropWhile_concat_nul (by decide), dropWhile_concat_nul (by decide)]
  rfl

theorem putUint_isSome (value : BitVec 64) (align : Int) (pad0 : Bool) :
    (putUint value align pad0).isSome := by
  rw [putUint, uintDigits_eq]
  rfl

theorem putInt_isSome (v : BitVec 64) (align : Int) (pad0 : Bool) :
    (putInt v align pad0).isSome := by
  unfold putInt
  split
  · rw [Option.isSome_map]
    exact putUint_isSome _ _ _
  · exact putUint_isSome _ _ _

/-- Every conversion has an outcome. -/
theorem convert_isSome (spec : FormatSpec) (kind : UInt8) (a : PrintfArg) :
    (convert spec kind a).isSome := by
  unfold convert
  split
  · rfl
  split
  · rfl
  split
  · simp [putUint_isSome]
  split
  · rfl
  split
  · simp [putInt_isSome]
  split
  · simp [putUintDivBy1000_eq]
  split
  · rfl
  split <;> rfl

/-- The character of a conversion is in front of the terminator, and so is what follows it. -/
theorem scanSpec_next {p p' : List UInt8} {kind : UInt8} (hp : 0 ∉ p)
    (h : (scanSpec (p ++ [0])).2 = kind :: p') (hk : kind ≠ 0) :
    ∃ q, p' = q ++ [0] ∧ 0 ∉ q ∧ q.length < p.length := by
  rw [scanSpec_concat_nul] at h
  cases hs : (scanSpec p).2 with
  | nil =>
    rw [hs] at h
    exact absurd (List.cons.inj h).1.symm hk
  | cons k q =>
    rw [hs] at h
    have hsuf : k :: q <:+ p := hs ▸ scanSpec_suffix p
    refine ⟨q, (List.cons.inj h).2.symm, ?_, ?_⟩
    · intro hmem
      exact hp (hsuf.subset (List.mem_cons_of_mem k hmem))
    · have := hsuf.length_le
      rwa [List.length_cons] at this

/-- **Every format that has a terminator ends at it**: nothing behind it is read. -/
theorem printfFrom_isSome (args : Nat → PrintfArg) {s : List UInt8} (h0 : 0 ∉ s) (n : Nat) :
    (printfFrom args (s ++ [0]) n).isSome := by
  induction hlen : s.length using Nat.strong_induction_on generalizing s n with
  | _ k ih =>
    cases s with
    | nil =>
      rw [List.nil_append, printfFrom, if_neg (by decide), if_neg (by decide), if_pos rfl]
      rfl
    | cons c p =>
      obtain ⟨hc, hp⟩ := not_or.1 (List.mem_cons.not.1 h0)
      have hnext : ∀ m, (printfFrom args (p ++ [0]) m).isSome := fun m =>
        ih p.length (hlen ▸ Nat.lt_succ_self p.length) hp m rfl
      rw [List.cons_append, printfFrom]
      split
      · split
        · rename_i h
          rw [scanSpec_concat_nul] at h
          simp at h
        · rename_i kind p' h
          split
          · rfl
          split
          · rfl
          · rename_i hk
            obtain ⟨q, rfl, hq0, hlt⟩ := scanSpec_next hp h hk
            obtain ⟨r, hr⟩ := Option.isSome_iff_exists.1
              (convert_isSome (scanSpec (p ++ [0])).1 kind (args n))
            have hq : q.length < k := hlen ▸ Nat.lt_succ_of_lt hlt
            obtain ⟨more, hmore⟩ := Option.isSome_iff_exists.1 (ih _ hq hq0 (n + r.2) rfl)
            simp [hr, hmore]
      · split
        · rw [Option.isSome_map]
          exact hnext n
        · rw [if_neg (Ne.symm hc), Option.isSome_map]
          exact hnext n

end

/-! ## Where C's text is logged -/

/-- A signed number fills its width, or is padded with blanks and has no sign. -/
def Conversion.PadsWell (c : Conversion) (a : PrintfArg) : Prop :=
  c.kind = .d → c.width ≤ c.length a ∨ (c.zeros = 0 ∧ 0 ≤ c.signed a)

theorem logged_eq_text_iff (c : Conversion) (a : PrintfArg) : c.logged a = c.text a ↔ c.PadsWell a := by
  by_cases hk : c.kind = .d
  · unfold Conversion.logged
    rw [if_pos hk, Conversion.PadsWell, Conversion.text]
    rcases Nat.eq_zero_or_pos (c.width - c.length a) with h0 | hpos
    · rw [h0]
      simp [show c.width ≤ c.length a by omega]
    · obtain ⟨k, hpad⟩ : ∃ k, c.width - c.length a = k + 1 := ⟨c.width - c.length a - 1, by omega⟩
      have hwide : ¬c.width ≤ c.length a := by omega
      rw [hpad, List.replicate_succ, List.replicate_succ]
      by_cases hz : 0 < c.zeros
      · simp [hk, hz, hwide, show c.zeros ≠ 0 by omega]
      · by_cases hneg : c.signed a < 0
        · simp [hk, hz, hwide, Conversion.sign, hneg]
        · simp [hk, Conversion.sign, hneg, show c.zeros = 0 by omega, show 0 ≤ c.signed a by omega]
  · rw [Conversion.logged, if_neg hk]
    exact ⟨fun _ h => absurd h hk, fun _ => rfl⟩

/-- A text is determined by how it is written. -/
theorem Writes.unique {spelled text text' : List UInt8} {a : PrintfArg} (h : Writes spelled a text)
    (h' : Writes spelled a text') : text = text' := by
  have heq := (h (fun _ => a) 0 [0] rfl).symm.trans (h' (fun _ => a) 0 [0] rfl)
  have hend : printfFrom (fun _ => a) [0] 1 = some [] := by
    rw [printfFrom, if_neg (by decide), if_neg (by decide), if_pos rfl]
  rw [hend] at heq
  simpa using heq

/-- **What is logged is what C asks for**: an unsigned conversion always, a signed one exactly where
it pads well, thousandths exactly where they have three digits or are zero; and every format ends at
its terminator. -/
theorem printfLaw_iff (c : Conversion) (a : PrintfArg) {s : List UInt8} (h0 : 0 ∉ s)
    (args : Nat → PrintfArg) :
    (Writes c.spell a (c.text a) ↔
      (c.kind = .d → c.width ≤ c.length a ∨ (c.zeros = 0 ∧ 0 ≤ c.signed a))) ∧
    ((∃ text, Writes [37, 102] a text ∧ Thousandths (a.word.setWidth 32 : BitVec 32).toNat text) ↔
      (a.word.setWidth 32 : BitVec 32).toNat % 1000 = 0 ∨
        100 ≤ (a.word.setWidth 32 : BitVec 32).toNat % 1000) ∧
    (realPrintf (s ++ [0]) args).isSome := by
  refine ⟨?_, ?_, printfFrom_isSome args h0 0⟩
  · rw [show (_ ↔ (c.kind = .d → _)) = (_ ↔ c.PadsWell a) from rfl, ← logged_eq_text_iff]
    constructor
    · exact fun h => (printfFrom_conversion c a).unique h
    · exact fun h => h ▸ printfFrom_conversion c a
  · rw [← thousandths_iff]
    constructor
    · rintro ⟨text, hw, ht⟩
      rwa [(printfFrom_thousandths a).unique hw]
    · exact fun h => ⟨_, printfFrom_thousandths a, h⟩

/-- `%5d`. -/
def fiveWide : Conversion := ⟨0, 5, 0, .d, by decide, by decide⟩

/-- `%5d` and `%f` of 1500 are right, and a format may end behind its `%`. -/
theorem printfLaw_ends : Writes fiveWide.spell ⟨1500, []⟩ (fiveWide.text ⟨1500, []⟩) ∧
    (∃ text, Writes [37, 102] ⟨1500, []⟩ text ∧ Thousandths 1500 text) ∧
    (realPrintf ([37] ++ [0]) fun _ => ⟨0, []⟩).isSome :=
  have h := printfLaw_iff fiveWide ⟨1500, []⟩ (s := [37]) (by decide) fun _ => ⟨0, []⟩
  ⟨h.1.2 fun _ => .inr ⟨rfl, by decide⟩, h.2.1.2 (.inr (by decide)), h.2.2⟩

/-- `%5d` of -1 has its blanks behind the sign, and `%f` of 1005 is 1.5. -/
theorem printfLaw_minusOne : ¬ Writes fiveWide.spell ⟨-1, []⟩ (fiveWide.text ⟨-1, []⟩) ∧
    ¬ ∃ text, Writes [37, 102] ⟨1005, []⟩ text ∧ Thousandths 1005 text := by
  refine ⟨fun h => ?_, ?_⟩
  · have heq := (printfFrom_conversion fiveWide ⟨-1, []⟩).unique h
    have hsigned : fiveWide.signed ⟨-1, []⟩ = -1 := by decide
    rcases (logged_eq_text_iff fiveWide ⟨-1, []⟩).1 heq rfl with hle | ⟨-, hpos⟩
    · have hlen : fiveWide.length ⟨-1, []⟩ = 2 := by
        rw [Conversion.length, Conversion.sign, if_pos ⟨rfl, by rw [hsigned]; decide⟩]
        change 1 + (numeral 10 (fiveWide.signed ⟨-1, []⟩).natAbs).length = 2
        rw [hsigned, numeral_of_lt (by decide)]
        rfl
      rw [hlen] at hle
      exact absurd hle (by decide)
    · rw [hsigned] at hpos
      exact absurd hpos (by decide)
  · rintro ⟨text, hw, ht⟩
    rw [← (printfFrom_thousandths ⟨1005, []⟩).unique hw] at ht
    rcases (thousandths_iff 1005).1 ht with h | h
    · exact absurd h (by decide)
    · exact absurd h (by decide)

end PBoot
