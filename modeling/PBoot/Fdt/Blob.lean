import PBoot.Fdt.Read
import PBoot.Lib.Region
import PBoot.Lib.Tree

/-!
# The device tree format

What a blob is that libfdt can work on: reservations, a tree and strings, written to memory in this
order with gaps between them.

* `fdtCode`: how a tree is written to the structure block.
* `Raw`: the blocks as bytes; `Raw.At`: memory holds them behind a header that describes them.
* `Blob`: the blocks as what they mean; `DtAt` is the device tree that memory holds, in terms of
  names and values only, with a node of it and its offset.
-/

namespace PBoot

open Bytes Trees

/-! ## The structure block -/

/-- A node's name, and what is behind its NUL. -/
structure NodeName where
  name : List UInt8
  pad : List UInt8
  noNul : 0 ∉ name
  aligned : (name.length + 1 + pad.length) % 4 = 0
  short : pad.length < 4

/-- A property, and what is behind its value. -/
structure PropEntry where
  nameoff : Nat
  value : List UInt8
  pad : List UInt8
  nameoff_lt : nameoff < 2 ^ 32
  value_lt : value.length < 2 ^ 32
  aligned : (value.length + pad.length) % 4 = 0
  short : pad.length < 4

/-- How a tree is written to the structure block. -/
def fdtCode : Code NodeName PropEntry UInt8 where
  head n := be32 fdtBeginNode ++ (n.name ++ 0 :: n.pad)
  prop p := be32 fdtProp ++ (be32 p.value.length ++ (be32 p.nameoff ++ (p.value ++ p.pad)))
  gap := be32 fdtNop
  foot := be32 fdtEndNode

theorem tagAlign_name (n : NodeName) :
    tagAlign (n.name.length + 1) = n.name.length + 1 + n.pad.length := by
  have := n.aligned
  have := n.short
  unfold tagAlign
  omega

theorem tagAlign_value (p : PropEntry) :
    tagAlign p.value.length = p.value.length + p.pad.length := by
  have := p.aligned
  have := p.short
  unfold tagAlign
  omega

@[simp] theorem length_head (n : NodeName) :
    (fdtCode.head n).length = 4 + tagAlign (n.name.length + 1) := by
  simp only [fdtCode, List.length_append, length_be32, List.length_cons, tagAlign_name]
  omega

@[simp] theorem length_prop (p : PropEntry) :
    (fdtCode.prop p).length = 12 + tagAlign p.value.length := by
  simp only [fdtCode, List.length_append, length_be32, tagAlign_value]
  omega

@[simp] theorem length_gap : fdtCode.gap.length = 4 := rfl

@[simp] theorem length_foot : fdtCode.foot.length = 4 := rfl

theorem tagAlign_mod (n : Nat) : tagAlign n % 4 = 0 := by
  unfold tagAlign
  omega

/-! ## Blocks -/

/-- `gap1` and `gap2` are the lengths of the gaps in front of the structure block and the strings
block. -/
structure Raw where
  offRsv : Nat
  rsv : List UInt8
  gap1 : Nat
  struct : List UInt8
  gap2 : Nat
  strings : List UInt8
  total : Nat

/-- `off_dt_struct`. -/
def Raw.offStruct (r : Raw) : Nat := r.offRsv + r.rsv.length + r.gap1

/-- `off_dt_strings`. -/
def Raw.offStrings (r : Raw) : Nat := r.offStruct + r.struct.length + r.gap2

/-- Where the last block ends. -/
def Raw.used (r : Raw) : Nat := r.offStrings + r.strings.length

/-- The blocks with another structure block. -/
def Raw.withStruct (r : Raw) (struct : List UInt8) : Raw := { r with struct }

@[simp] theorem Raw.withStruct_struct (r : Raw) (s : List UInt8) : (r.withStruct s).struct = s := rfl

@[simp] theorem Raw.withStruct_strings (r : Raw) (s : List UInt8) :
    (r.withStruct s).strings = r.strings := rfl

@[simp] theorem Raw.withStruct_total (r : Raw) (s : List UInt8) :
    (r.withStruct s).total = r.total := rfl

@[simp] theorem Raw.withStruct_offStruct (r : Raw) (s : List UInt8) :
    (r.withStruct s).offStruct = r.offStruct := rfl

theorem Raw.withStruct_offStrings (r : Raw) (s : List UInt8) :
    (r.withStruct s).offStrings = r.offStruct + s.length + r.gap2 := rfl

/-- The blocks with another strings block. -/
def Raw.withStrings (r : Raw) (strings : List UInt8) : Raw := { r with strings }

@[simp] theorem Raw.withStrings_strings (r : Raw) (s : List UInt8) :
    (r.withStrings s).strings = s := rfl

@[simp] theorem Raw.withStrings_total (r : Raw) (s : List UInt8) :
    (r.withStrings s).total = r.total := rfl

@[simp] theorem Raw.withStrings_offStrings (r : Raw) (s : List UInt8) :
    (r.withStrings s).offStrings = r.offStrings := rfl

/-- The blocks with another reservation block. -/
def Raw.withRsv (r : Raw) (rsv : List UInt8) : Raw := { r with rsv }

@[simp] theorem Raw.withRsv_strings (r : Raw) (s : List UInt8) :
    (r.withRsv s).strings = r.strings := rfl

@[simp] theorem Raw.withRsv_total (r : Raw) (s : List UInt8) : (r.withRsv s).total = r.total := rfl

theorem Raw.withRsv_offStruct (r : Raw) (s : List UInt8) :
    (r.withRsv s).offStruct = r.offRsv + s.length + r.gap1 := rfl

theorem Raw.withRsv_offStrings (r : Raw) (s : List UInt8) :
    (r.withRsv s).offStrings = (r.withRsv s).offStruct + r.struct.length + r.gap2 := rfl

/-- Memory holds the blocks at `fdt`, behind a header that describes them, and the blob ends within the
addresses that are mapped. -/
structure Raw.At (r : Raw) (m : Mem) (fdt : Nat) : Prop where
  magic : fdt32 m fdt = 0xd00dfeed
  totalsize : fdtTotalsize m fdt = r.total
  offDtStruct : fdtOffDtStruct m fdt = r.offStruct
  offDtStrings : fdtOffDtStrings m fdt = r.offStrings
  offMemRsvmap : fdtOffMemRsvmap m fdt = r.offRsv
  sizeDtStrings : fdtSizeDtStrings m fdt = r.strings.length
  sizeDtStruct : fdtSizeDtStruct m fdt = r.struct.length
  header_le : 40 ≤ r.offRsv
  used_le : r.used ≤ r.total
  total_lt : r.total < 2 ^ 31
  end_le : fdt + r.total ≤ 2 ^ 32
  rsvAt : HoldsAt m (fdt + r.offRsv) r.rsv
  structAt : HoldsAt m (fdt + r.offStruct) r.struct
  stringsAt : HoldsAt m (fdt + r.offStrings) r.strings

/-! ## Blobs -/

/-- Reservations, each an address and a size. -/
abbrev Rsv := List (Nat × Nat)

/-- `struct fdt_reserve_entry`. -/
def rsvEntry (e : Nat × Nat) : List UInt8 := be64 e.1 ++ be64 e.2

theorem length_rsvEntry (e : Nat × Nat) : (rsvEntry e).length = 16 := rfl

/-- The reservations without the entry that ends them. -/
def rsvBytes (rsv : Rsv) : List UInt8 := rsv.flatMap rsvEntry

/-- `rsvEnd` is the address of the entry of size 0 behind the reservations, `tail` what is behind the
root node in the structure block. -/
structure Blob where
  offRsv : Nat
  rsv : Rsv
  rsvEnd : List UInt8
  gap1 : Nat
  root : Node NodeName PropEntry
  tail : List UInt8
  gap2 : Nat
  strings : List UInt8
  total : Nat

/-- The blob as bytes. -/
def Blob.raw (b : Blob) : Raw where
  offRsv := b.offRsv
  rsv := rsvBytes b.rsv ++ (b.rsvEnd ++ be64 0)
  gap1 := b.gap1
  struct := fdtCode.node b.root ++ b.tail
  gap2 := b.gap2
  strings := b.strings
  total := b.total

/-- A reservation's words fit, and its size does not end the list. -/
def rsvFits (e : Nat × Nat) : Prop := e.1 < 2 ^ 64 ∧ 0 < e.2 ∧ e.2 < 2 ^ 64

/-- The reservations are such as libfdt can count, and every property has a name. -/
structure Blob.Ok (b : Blob) : Prop where
  rsvEnd : b.rsvEnd.length = 8
  rsv : ∀ e ∈ b.rsv, rsvFits e
  /-- The names of the properties end within the strings block. -/
  names : ∀ p ∈ b.root.allProps, 0 ∈ b.strings.drop p.nameoff

/-! ## The tree as names and values -/

/-- A name without its NUL. -/
abbrev DtName := List UInt8

/-- A name and a value. -/
abbrev DtProp := DtName × List UInt8

/-- A node by names and values. -/
abbrev DtNode := Node DtName DtProp

/-- A node in its tree, by names and values. -/
abbrev DtLoc := Loc DtName DtProp

/-- The name and the value of a property. -/
def propView (strings : List UInt8) (p : PropEntry) : DtProp :=
  (cstr (strings.drop p.nameoff), p.value)

/-- The same place in the tree of names and values. -/
def locView (strings : List UInt8) (z : Loc NodeName PropEntry) : DtLoc :=
  z.map NodeName.name (propView strings)

/-- Where a node is in the structure block. -/
def offsetOf (z : Loc NodeName PropEntry) : Nat := (fdtCode.before z.ctx).length

/-- A blob of size `total` at `fdt` holds the reservations `rsv` and the tree around the node of `z`,
which is at the offset `o`, and has `room` bytes left. -/
def DtAt (m : Mem) (fdt total room : Nat) (rsv : Rsv) (z : DtLoc) (o : Nat) : Prop :=
  ∃ (b : Blob) (zc : Loc NodeName PropEntry), b.raw.At m fdt ∧ b.Ok ∧ b.rsv = rsv ∧
    zc.top = b.root ∧ offsetOf zc = o ∧ locView b.strings zc = z ∧
    b.raw.used + room ≤ total ∧ b.total = total

end PBoot
