import PBoot.Lib.Bytes
import PBoot.Lib.Text

/-!
# Formatted output (`debug.c`)

`realPrintf` is what one call puts to the log. A format is the memory from its first byte on; none is
the outcome of a read behind that memory, and of a number that does not fit the buffer of `put_uint`.
`int` computations wrap.
-/

namespace PBoot

open Bytes Text

/-- What `va_arg` finds: a word, and the string that is at it when it is the address of one. -/
structure PrintfArg where
  word : BitVec 64
  str : List UInt8

/-! ## Texts and numbers -/

/-- `real_puts`. -/
def realPuts (s : List UInt8) : List UInt8 :=
  (cstr s).flatMap fun c => if c = newline then [13, c] else [c]

/-- The padding in front of `len` characters. -/
def padding (align : Int) (len : Nat) (pad0 : Bool) : List UInt8 :=
  List.replicate (wrapInt (align - len)).toNat (if pad0 then 48 else 32)

/-- `BUF_LEN`. -/
def bufLen : Nat := 30

/-- The loop of `put_uint`, with some bytes of `buf` left in front of `text`. -/
def fillDigits : Nat → Nat → List UInt8 → Option (List UInt8)
  | _, 0, text => some text
  | 0, _ + 1, _ => none
  | room + 1, value + 1, text =>
    fillDigits room ((value + 1) / 10) (UInt8.ofNat (48 + (value + 1) % 10) :: text)

/-- The digits in `buf`, of which the last byte holds the NUL. -/
def uintDigits (value : BitVec 64) : Option (List UInt8) :=
  if value = 0 then some [48] else fillDigits (bufLen - 1) value.toNat []

/-- `put_uint`. -/
def putUint (value : BitVec 64) (align : Int) (pad0 : Bool) : Option (List UInt8) := do
  let text ← uintDigits value
  some (padding align text.length pad0 ++ realPuts text)

/-- `put_int`, which does not hand on `pad0`. -/
def putInt (v : BitVec 64) (align : Int) (_pad0 : Bool) : Option (List UInt8) :=
  if v.toInt < 0 then (putUint (-v) (wrapInt (align - 1)) false).map (45 :: ·)
  else putUint v align false

/-- `put_uint_div_by_1000`. -/
def putUintDivBy1000 (value : BitVec 32) : Option (List UInt8) :=
  let whole := if 1000 ≤ value.toNat then putUint ((value / 1000).setWidth 64) 0 false
    else some [48]
  whole.bind fun whole =>
    (putUint ((value % 1000).setWidth 64) 0 false).map fun rest => whole ++ 46 :: rest

/-- A character of a hexadecimal number. -/
def hexDigit (nibble : Nat) : UInt8 :=
  UInt8.ofNat (if nibble < 10 then 48 + nibble else 97 + (nibble - 10))

/-- `skip_nibbles`; `__builtin_clzll` counts the zeros in front of the highest bit that is set. -/
def skipNibbles (hex : BitVec 64) : Nat := if hex = 0 then 15 else (63 - hex.toNat.log2) / 4

/-- `real_put_hex`. -/
def realPutHex (hex : BitVec 64) (align : Int) (pad0 : Bool) : List UInt8 :=
  padding align (16 - skipNibbles hex) pad0 ++
    (List.range' (skipNibbles hex) (16 - skipNibbles hex)).map fun i =>
      hexDigit ((hex >>> (4 * (15 - i))) &&& 0xf#64).toNat

/-! ## Conversions -/

/-- What stands between `%` and the character of the conversion. -/
structure FormatSpec where
  pad0 : Bool
  align : Int
  l : Nat

/-- The flags, the width and the modifiers at the head of `p`, and what follows. -/
def scanSpec (p : List UInt8) : FormatSpec × List UInt8 :=
  let width := p.dropWhile (· == 48)
  let mods := width.dropWhile isDigit
  let align := (width.takeWhile isDigit).foldl
    (fun align c => wrapInt (wrapInt (align * 10) + (c.toNat - 48 : Nat))) 0
  let spec : FormatSpec :=
    { pad0 := p.head? == some 48, align, l := (mods.takeWhile (· == 108)).length }
  (spec, (mods.dropWhile (· == 108)).dropWhile (· == 104))

/-- An argument of the type that `l` selects: `int`, `long` or `long long`, `signed` or not, and how
many arguments that takes. -/
def vaInt (l : Nat) (signed : Bool) (a : PrintfArg) : BitVec 64 × Nat :=
  if l = 0 then
    let word : BitVec 32 := a.word.setWidth 32
    (if signed then word.signExtend 64 else word.setWidth 64, 1)
  else if l = 1 ∨ l = 2 then (a.word, 1)
  else (0, 0)

/-- The conversion `kind` of the argument `a`, and how many arguments it takes. -/
def convert (spec : FormatSpec) (kind : UInt8) (a : PrintfArg) : Option (List UInt8 × Nat) :=
  if kind = 99 then some ([(a.word.setWidth 8).toNat.toUInt8], 1)
  else if kind = 115 then some (realPuts a.str, 1)
  else if kind = 117 then
    let (val, taken) := vaInt spec.l false a
    (putUint val spec.align spec.pad0).map (·, taken)
  else if kind = 120 then
    let (val, taken) := vaInt spec.l false a
    some (realPutHex val spec.align spec.pad0, taken)
  else if kind = 100 then
    let (val, taken) := vaInt spec.l true a
    (putInt val spec.align spec.pad0).map (·, taken)
  else if kind = 102 then (putUintDivBy1000 (a.word.setWidth 32)).map (·, 1)
  else if kind = 112 then some (realPutHex a.word 8 true, 1)
  else if kind = 37 then some ([37], 0)
  else some ([37, kind], 0)

theorem scanSpec_suffix (p : List UInt8) : (scanSpec p).2 <:+ p :=
  (List.dropWhile_suffix _).trans ((List.dropWhile_suffix _).trans
    ((List.dropWhile_suffix _).trans (List.dropWhile_suffix _)))

/-- The loop of `real_printf` from `fmt` on, with `n` arguments taken. -/
def printfFrom (args : Nat → PrintfArg) (fmt : List UInt8) (n : Nat) : Option (List UInt8) :=
  match fmt with
  | [] => none
  | c :: p =>
    if c = 37 then
      match hs : (scanSpec p).2 with
      | [] => none
      | kind :: p' =>
        if 2 < (scanSpec p).1.l then some []
        else if kind = 0 then some []
        else do
          have : p'.length < p.length + 1 := by
            have hle := (scanSpec_suffix p).length_le
            rw [hs, List.length_cons] at hle
            omega
          let (out, taken) ← convert (scanSpec p).1 kind (args n)
          let more ← printfFrom args p' (n + taken)
          some (out ++ more)
    else if c = newline then (printfFrom args p n).map ([13, c] ++ ·)
    else if c = 0 then some []
    else (printfFrom args p n).map (c :: ·)
termination_by fmt.length

/-- `real_printf`. -/
def realPrintf (fmt : List UInt8) (args : Nat → PrintfArg) : Option (List UInt8) :=
  printfFrom args fmt 0

end PBoot
