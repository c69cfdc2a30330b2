import PBoot.Boot.Mem
import PBoot.Fdt.Read
import PBoot.Lib.Prog

/-!
# Editing device trees (`fdt_rw.c`, `fdt_support.c`)

The writing half of libfdt and what U-Boot builds on it. A function that returns an error has made
the changes to memory that the source has made by then. Pointers into the blob are addresses.
-/

namespace PBoot

open Bytes Progs

abbrev FdtM := Prog Mem FdtError

/-- `memcpy` from another object, or a store to a field. -/
def storeBytes (a : Nat) (bs : List UInt8) : FdtM Unit := change fun m => write m a bs

/-! ## Making room -/

/-- `fdt_data_size_`. -/
def fdtDataSize (m : Mem) (fdt : Nat) : Nat := fdtOffDtStrings m fdt + fdtSizeDtStrings m fdt

/-- `fdt_splice_`. -/
def fdtSplice (fdt p oldlen newlen : Nat) : FdtM Unit := do
  let fdtEnd ← look fun m => fdt + fdtDataSize m fdt
  let total ← look fun m => fdtTotalsize m fdt
  if fdtEnd < p + oldlen then throw .badOffset
  else if p < fdt ∨ fdtEnd + newlen < fdt + oldlen then throw .badOffset
  else if fdt + total + oldlen < fdtEnd + newlen then throw .noSpace
  else change fun m => memmove m (p + newlen) (p + oldlen) (fdtEnd - p - oldlen)

/-- A header word changed by `newlen - oldlen`, modulo 2^32. -/
def addDelta (a oldlen newlen : Nat) : FdtM Unit :=
  change fun m => write m a (be32 (fdt32 m a + newlen + 2 ^ 32 - oldlen))

/-- `fdt_splice_mem_rsv_`. -/
def fdtSpliceMemRsv (fdt p oldn newn : Nat) : FdtM Unit := do
  fdtSplice fdt p (16 * oldn) (16 * newn)
  addDelta (fdt + 8) (16 * oldn) (16 * newn)
  addDelta (fdt + 12) (16 * oldn) (16 * newn)

/-- `fdt_splice_struct_`. -/
def fdtSpliceStruct (fdt p oldlen newlen : Nat) : FdtM Unit := do
  fdtSplice fdt p oldlen newlen
  addDelta (fdt + 36) oldlen newlen
  addDelta (fdt + 12) oldlen newlen

/-- `fdt_splice_string_`. -/
def fdtSpliceString (fdt newlen : Nat) : FdtM Unit := do
  let p ← look fun m => fdt + fdtDataSize m fdt
  fdtSplice fdt p 0 newlen
  addDelta (fdt + 32) 0 newlen

/-! ## The strings block -/

/-- `fdt_find_string_`: where in the table the string and its NUL are first. -/
def fdtFindString (m : Mem) (strtab tabsize : Nat) (s : List UInt8) : Option Nat :=
  (List.range (tabsize - s.length)).find? fun i => isStr m (strtab + i) s

/-- `fdt_find_add_string_`. -/
def fdtFindAddString (fdt : Nat) (s : List UInt8) : FdtM Nat := do
  let strtab ← look fun m => fdt + fdtOffDtStrings m fdt
  let size ← look fun m => fdtSizeDtStrings m fdt
  match ← look fun m => fdtFindString m strtab size s with
  | some i => pure i
  | none => do
    fdtSpliceString fdt (s.length + 1)
    storeBytes (strtab + size) (s ++ [0])
    pure size

/-! ## Reservations -/

/-- `fdt_add_mem_rsv`. -/
def fdtAddMemRsv (fdt address size : Nat) : FdtM Unit := do
  let n ← reads fun m => (fdtNumMemRsv m fdt).map .ok
  let re ← look fun m => memRsvAddr m fdt n
  fdtSpliceMemRsv fdt re 0 1
  storeBytes re (be64 address)
  storeBytes (re + 8) (be64 size)

/-- `fdt_del_mem_rsv`. -/
def fdtDelMemRsv (fdt n : Nat) : FdtM Unit := do
  let re ← look fun m => memRsvAddr m fdt n
  let total ← reads fun m => (fdtNumMemRsv m fdt).map .ok
  if total ≤ n then throw .notFound
  else fdtSpliceMemRsv fdt re 1 0

/-! ## Properties -/

/-- `fdt_resize_property_`; the result is `*prop`. -/
def fdtResizeProperty (fdt nodeoffset : Nat) (name : List UInt8) (len : Nat) : FdtM Nat := do
  let o ← reads fun m => fdtGetProperty m fdt nodeoffset name
  let prop ← look fun m => propAddr m fdt o
  let oldlen ← look fun m => propLen m fdt o
  fdtSpliceStruct fdt (prop + 12) (tagAlign oldlen) (tagAlign len)
  storeBytes (prop + 4) (be32 len)
  pure prop

/-- `fdt_add_property_`; the string stays when there is no room for the property. -/
def fdtAddProperty (fdt nodeoffset : Nat) (name : List UInt8) (len : Nat) : FdtM Nat := do
  let nextoffset ← reads fun m => fdtCheckNodeOffset m fdt nodeoffset
  let namestroff ← fdtFindAddString fdt name
  let prop ← look fun m => propAddr m fdt nextoffset
  fdtSpliceStruct fdt prop 0 (12 + tagAlign len)
  storeBytes prop (be32 fdtProp)
  storeBytes (prop + 8) (be32 namestroff)
  storeBytes (prop + 4) (be32 len)
  pure prop

/-- `fdt_setprop_placeholder`: where the value is to be stored. -/
def fdtSetpropPlaceholder (fdt nodeoffset : Nat) (name : List UInt8) (len : Nat) : FdtM Nat := do
  match ← attempt (fdtResizeProperty fdt nodeoffset name len) with
  | .ok prop => pure (prop + 12)
  | .error .notFound => do
    let prop ← fdtAddProperty fdt nodeoffset name len
    pure (prop + 12)
  | .error e => throw e

/-- `fdt_setprop`. -/
def fdtSetprop (fdt nodeoffset : Nat) (name val : List UInt8) : FdtM Unit := do
  let data ← fdtSetpropPlaceholder fdt nodeoffset name val.length
  storeBytes data val

/-- `fdt_setprop_u32`. -/
def fdtSetpropU32 (fdt nodeoffset : Nat) (name : List UInt8) (val : Nat) : FdtM Unit :=
  fdtSetprop fdt nodeoffset name (be32 val)

/-- `fdt_setprop_u64`. -/
def fdtSetpropU64 (fdt nodeoffset : Nat) (name : List UInt8) (val : Nat) : FdtM Unit :=
  fdtSetprop fdt nodeoffset name (be64 val)

/-- `fdt_delprop`. -/
def fdtDelprop (fdt nodeoffset : Nat) (name : List UInt8) : FdtM Unit := do
  let o ← reads fun m => fdtGetProperty m fdt nodeoffset name
  let prop ← look fun m => propAddr m fdt o
  let len ← look fun m => propLen m fdt o
  fdtSpliceStruct fdt prop (12 + tagAlign len) 0

/-! ## Nodes -/

/-- `do { offset = nextoffset; tag = fdt_next_tag(fdt, offset, &nextoffset); } while ((tag ==
FDT_PROP) || (tag == FDT_NOP));` -/
def skipProps (m : Mem) (fdt offset : Nat) : Option Nat :=
  match h : fdtNextTag m fdt offset with
  | none => none
  | some .bad => some offset
  | some (.tag tag next) =>
    have := fdtNextTag_lt h
    if tag = fdtProp ∨ tag = fdtNop then skipProps m fdt next else some offset
termination_by fdtSizeDtStruct m fdt - offset
decreasing_by exact Nat.sub_lt_sub_left this.2 this.1

theorem skipProps_eq (m : Mem) (fdt offset : Nat) :
    skipProps m fdt offset = (fdtNextTag m fdt offset).bind fun
      | .bad => some offset
      | .tag tag next =>
        if tag = fdtProp ∨ tag = fdtNop then skipProps m fdt next else some offset := by
  rw [skipProps]
  split <;> simp [*]

/-- Where `fdt_add_subnode_namelen` places a node, in a parent that is one. -/
def newNodeOffset (m : Mem) (fdt parentoffset : Nat) : Option Nat :=
  (fdtNextTag m fdt parentoffset).bind fun
    | .bad => none
    | .tag _ next => skipProps m fdt next

/-- `fdt_add_subnode`. -/
def fdtAddSubnode (fdt parentoffset : Nat) (name : List UInt8) : FdtM Nat := do
  match ← attempt (reads fun m => fdtSubnodeOffset m fdt parentoffset name) with
  | .ok _ => throw .exists_
  | .error .notFound => do
    let offset ← reads fun m => (newNodeOffset m fdt parentoffset).map .ok
    let nh ← look fun m => fdt + fdtOffDtStruct m fdt + offset
    let nodelen := 4 + tagAlign (name.length + 1) + 4
    fdtSpliceStruct fdt nh 0 nodelen
    storeBytes nh (be32 fdtBeginNode)
    storeBytes (nh + 4) (List.replicate (tagAlign (name.length + 1)) 0)
    storeBytes (nh + 4) name
    storeBytes (nh + nodelen - 4) (be32 fdtEndNode)
    pure offset
  | .error e => throw e

/-- `fdt_del_node`. -/
def fdtDelNode (fdt nodeoffset : Nat) : FdtM Unit := do
  let endoffset ← reads fun m => fdtNodeEndOffset m fdt nodeoffset
  let p ← look fun m => fdt + fdtOffDtStruct m fdt + nodeoffset
  fdtSpliceStruct fdt p (endoffset - nodeoffset) 0

/-! ## The size of the blob -/

/-- `fdt_open_into`. -/
def fdtOpenInto (fdt buf bufsize : Nat) : FdtM Unit := do
  let _ ← reads fun m => (fdtNumMemRsv m fdt).map fun n => (.ok n : Except FdtError Nat)
  let structSize ← look fun m => fdtSizeDtStruct m fdt
  let total ← look fun m => fdtTotalsize m fdt
  -- `fdt_move`
  if bufsize < total then throw .noSpace
  else do
    change fun m => memmove m buf fdt total
    storeBytes (buf + 20) (be32 17)
    storeBytes (buf + 36) (be32 structSize)
    storeBytes (buf + 4) (be32 bufsize)

/-- `fdt_increase_size`. -/
def fdtIncreaseSize (fdt addLen : Nat) : FdtM Unit := do
  let total ← look fun m => fdtTotalsize m fdt
  fdtOpenInto fdt fdt (u32 (total + addLen))

/-- The first of `total` reservations that starts at an address. -/
def findMemRsv (m : Mem) (fdt total addr : Nat) : Option Nat :=
  (List.range total).find? fun i => (fdtGetMemRsv m fdt i).1 == addr

/-- The loops of `fdt_shrink_to_minimum` and `fdt_initrd`: the first reservation that starts at an
address is deleted; whether there was one. -/
def delMemRsvAt (fdt addr : Nat) : FdtM Bool := do
  let total ← reads fun m => (fdtNumMemRsv m fdt).map .ok
  match ← look fun m => findMemRsv m fdt total addr with
  | some i => do
    let _ ← attempt (fdtDelMemRsv fdt i)
    pure true
  | none => pure false

/-- `fdt_shrink_to_minimum`; the result is the size. -/
def fdtShrinkToMinimum (blob extrasize : Nat) : FdtM Nat :=
  if blob = 0 then pure 0
  else do
    let fdtMemrsv ← delMemRsvAt blob blob
    let dataSize ← look fun m => fdtDataSize m blob
    let actualsize := (dataSize + 5 * 16 + extrasize + blob % 0x1000 + 0xfff) / 0x1000 * 0x1000 -
      blob % 0x1000
    storeBytes (blob + 4) (be32 actualsize)
    if fdtMemrsv then do
      fdtAddMemRsv blob blob actualsize
      pure actualsize
    else pure actualsize

/-! ## `fdt_support.c` -/

/-- `fdt_find_and_setprop`. -/
def fdtFindAndSetprop (fdt : Nat) (node prop val : List UInt8) (create : Bool) : FdtM Unit := do
  let nodeoff ← reads fun m => fdtPathOffset m fdt node
  match ← attempt (reads fun m => fdtGetProperty m fdt nodeoff prop) with
  | .ok _ => fdtSetprop fdt nodeoff prop val
  | .error _ => if create then fdtSetprop fdt nodeoff prop val else pure ()

/-- `fdt_find_or_add_subnode`. -/
def fdtFindOrAddSubnode (fdt parentoffset : Nat) (name : List UInt8) : FdtM Nat := do
  match ← attempt (reads fun m => fdtSubnodeOffset m fdt parentoffset name) with
  | .ok offset => pure offset
  | .error .notFound => fdtAddSubnode fdt parentoffset name
  | .error e => throw e

/-- `fdt_setprop_uxx`. -/
def fdtSetpropUxx (fdt nodeoffset : Nat) (name : List UInt8) (val : Nat) (isU64 : Bool) :
    FdtM Unit :=
  if isU64 then fdtSetpropU64 fdt nodeoffset name val else fdtSetpropU32 fdt nodeoffset name val

/-- `fdt_address_cells(fdt, 0) == 2`. -/
def isU64 (m : Mem) (fdt : Nat) : Option Bool :=
  (fdtAddressCells m fdt 0).map fun
    | .ok cells => cells == 2
    | .error _ => false

/-- `fdt_initrd`. -/
def fdtInitrd (fdt initrdStart initrdEnd : Nat) : FdtM Unit :=
  if initrdStart = initrdEnd then pure ()
  else do
    let nodeoffset ← fdtFindOrAddSubnode fdt 0 (ascii "chosen")
    let _ ← delMemRsvAt fdt initrdStart
    fdtAddMemRsv fdt initrdStart ((initrdEnd + 2 ^ 64 - initrdStart) % 2 ^ 64)
    let u64 ← reads fun m => (isU64 m fdt).map .ok
    fdtSetpropUxx fdt nodeoffset (ascii "linux,initrd-start") initrdStart u64
    fdtSetpropUxx fdt nodeoffset (ascii "linux,initrd-end") initrdEnd u64

/-- What `fdt_pack_reg` stores of a value; none leaves a byte of the buffer as it was. -/
def packCells (cells v : Nat) : Option (List UInt8) :=
  match cells with
  | 0 => some []
  | 1 => some (be32 v)
  | 2 => some (be64 v)
  | _ => none

/-- `fdt_pack_reg`. -/
def fdtPackReg (m : Mem) (fdt : Nat) (banks : List (Nat × Nat)) : Option (List UInt8) :=
  (fdtAddressCells m fdt 0).bind fun ac => (fdtSizeCells m fdt 0).bind fun sc =>
    match ac, sc with
    | .ok ac, .ok sc => (banks.mapM fun b =>
        (packCells ac b.1).bind fun a => (packCells sc b.2).map fun s => a ++ s).map List.flatten
    | _, _ => none

/-- `fdt_fixup_memory_banks`. -/
def fdtFixupMemoryBanks (blob : Nat) (banks : List (Nat × Nat)) : FdtM Unit :=
  if 4 < banks.length then throw .notFound
  else do
    let magic ← look fun m => fdt32 m blob
    if magic ≠ 0xd00dfeed then throw .badMagic
    else do
      let nodeoffset ← fdtFindOrAddSubnode blob 0 (ascii "memory")
      fdtSetprop blob nodeoffset (ascii "device_type") (ascii "memory" ++ [0])
      let banks := banks.takeWhile fun b => !(b.1 == 0 && b.2 == 0)
      if banks = [] then pure ()
      else do
        let tmp ← reads fun m => (fdtPackReg m blob banks).map .ok
        fdtSetprop blob nodeoffset (ascii "reg") tmp

/-- `fdt_fixup_memory`. -/
def fdtFixupMemory (blob start size : Nat) : FdtM Unit := fdtFixupMemoryBanks blob [(start, size)]

end PBoot
