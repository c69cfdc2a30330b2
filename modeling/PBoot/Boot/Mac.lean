import Mathlib.Data.List.Basic

/-!
# MAC addresses (`get_mac_address` in `main.c`)

The address is made from the SoC ID, and the array that holds the ID is changed on the way.
-/

namespace PBoot

/-- `globals->sid`, what `get_soc_id` reads. -/
structure Sid where
  sid0 : BitVec 32
  sid1 : BitVec 32
  sid2 : BitVec 32
  sid3 : BitVec 32
  deriving DecidableEq

/-- `(x >> n) & 0xff`, stored in a byte. -/
def byteAt (n : Nat) (x : BitVec 32) : BitVec 8 := ((x >>> n) &&& 0xff).setWidth 8

/-- The device part of an address is not zero. -/
def nonZeroLow (x : BitVec 32) : BitVec 32 := if x &&& 0xffffff = 0 then x ||| 0x800000 else x

/-- The last word when an address is made. -/
def Sid.mix (sid : Sid) : BitVec 32 := nonZeroLow (sid.sid1 ^^^ sid.sid2 ^^^ sid.sid3)

/-- `get_mac_address`: the address, none when it fails, and the array after the call. -/
def getMacAddress (sid : Sid) (no : BitVec 32) : Option (List (BitVec 8)) × Sid :=
  if sid.sid0 = 0 then (none, sid)
  else
    let sid := { sid with sid3 := sid.mix }
    (some [((no <<< 4) ||| 0x02).setWidth 8, byteAt 0 sid.sid0, byteAt 24 sid.sid3,
      byteAt 16 sid.sid3, byteAt 8 sid.sid3, byteAt 0 sid.sid3], sid)

end PBoot
