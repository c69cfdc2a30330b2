import PBoot.Lib.Bytes

/-!
# String buffers (`strbuf.c`)

A call takes the buffer and the memory it is in, and gives none where the source has no meaning: it
reads behind the end of mapped memory, or takes an argument that was not passed. The strings it
reads are elsewhere.
-/

namespace PBoot

open Bytes

/-- `struct strbuf`. -/
@[ext]
structure StrBuf where
  start : Nat
  stop : Nat
  cur : Nat

/-- A buffer, the memory, and the formats so far with the number of bytes that were read of each. -/
@[ext]
structure StrState where
  buf : StrBuf
  mem : Mem
  reads : List (List UInt8 × Nat)

/-- `malloc` returns `start`. -/
def strbufNew (start bufSize : Nat) (mem : Mem) : StrState :=
  { buf := { start, stop := start + (bufSize - 1), cur := start }, mem, reads := [] }

def strbufPutc (s : StrState) (ch : UInt8) : StrState :=
  if s.buf.cur < s.buf.stop then
    { s with
      buf.cur := s.buf.cur + 1
      mem := write (write s.mem s.buf.cur [ch]) (s.buf.cur + 1) [0] }
  else s

/-- The loop over the digits: `p` is the index in `buf`, `text` what is there. -/
def uintLoop : Nat → Nat → List UInt8 → Option (List UInt8)
  | 0, _, _ => none
  | p + 1, value, text =>
    let text := UInt8.ofNat (48 + value % 10) :: text
    if value / 10 = 0 then some text else uintLoop p (value / 10) text

/-- `BUF_LEN` is 11. -/
def strbufUint (s : StrState) (value : BitVec 32) : Option StrState :=
  (uintLoop (11 - 1) value.toNat []).map fun text => text.foldl strbufPutc s

/-- What `va_arg` takes: the memory from a pointer on, or an `int` or `unsigned`. -/
inductive VaArg
  | str (s : List UInt8)
  | word (v : BitVec 32)

/-- The `switch`, at the character behind `%`. -/
def strbufConv (c : UInt8) (s : StrState) (ap : List VaArg) : Option (StrState × List VaArg) :=
  if c = 115 then
    match ap with
    | .str m :: ap => some ((cstr m).foldl strbufPutc s, ap)
    | _ => none
  else if c = 117 then
    match ap with
    | .word v :: ap => (strbufUint s v).map (·, ap)
    | _ => none
  else if c = 99 then
    match ap with
    | .word v :: ap => some (strbufPutc s (UInt8.ofNat v.toNat), ap)
    | _ => none
  else if c = 37 then some (strbufPutc s c, ap)
  else some (s, ap)

/-- The loop, from `p` on: the memory there, and how many bytes are before it. -/
def strbufScan : List UInt8 → Nat → StrState → List VaArg → Option (StrState × Nat)
  | [], _, _, _ => none
  | c :: p, k, s, ap =>
    if c = 0 then some (s, k + 1)
    else if c = 37 then
      match p with
      | [] => none
      | c :: p =>
        match strbufConv c s ap with
        | none => none
        | some (s, ap) => strbufScan p (k + 2) s ap
    else strbufScan p (k + 1) (strbufPutc s c) ap

/-- `fmt` is the memory from the format on. -/
def strbufPrintf (s : StrState) (fmt : List UInt8) (ap : List VaArg) : Option StrState :=
  (strbufScan fmt 0 s ap).map fun (s, k) => { s with reads := s.reads ++ [(fmt, k)] }

inductive StrCall
  | putc (ch : UInt8)
  | uint (value : BitVec 32)
  | printf (fmt : List UInt8) (ap : List VaArg)

def StrCall.run (s : StrState) : StrCall → Option StrState
  | .putc ch => some (strbufPutc s ch)
  | .uint value => strbufUint s value
  | .printf fmt ap => strbufPrintf s fmt ap

def strCalls (calls : List StrCall) (s : StrState) : Option StrState := calls.foldlM StrCall.run s

/-- `strbuf_to_cstr`: the bytes from there on. -/
def strbufToCstr (s : StrState) (n : Nat) : List UInt8 := read s.mem s.buf.start n

end PBoot
