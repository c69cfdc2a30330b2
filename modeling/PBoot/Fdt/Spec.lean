import PBoot.Fdt.Blob
import PBoot.Fdt.Boot

/-!
# What a boot makes of a device tree

The edits of `main.c` and `fdt_support.c` as functions on trees of names and values: what they are
for, without offsets, blocks or memory. `Dt.boot` is all of them in order.
-/

namespace PBoot

open Bytes Trees

/-! ## Names and paths -/

/-- What `fdt_nodename_eq_` compares: the name, or the name in front of its unit address. -/
def nameMatches (s name : List UInt8) : Bool :=
  s.isPrefixOf name && (name.length == s.length || !s.contains 64 && name[s.length]? == some 64)

/-- A property has a name. -/
def isNamed (name : DtName) (p : DtProp) : Bool := p.1 == name

/-- The names on a path. -/
def segments (path : List UInt8) : List DtName := (path.splitOn 47).filter (· ≠ [])

/-- What a path leads to. -/
def DtNode.at (root : DtNode) (path : List UInt8) : Option DtLoc :=
  root.loc.find ((segments path).map nameMatches)

/-! ## Edits at a node -/

/-- The value of the first property of a name. -/
def DtLoc.get (z : DtLoc) (name : DtName) : Option (List UInt8) :=
  (getProp (isNamed name) z.node.props).map (·.2)

/-- The first property of the name gets the value; a new one is put in front of the others. -/
def DtLoc.set (z : DtLoc) (name : DtName) (val : List UInt8) : DtLoc :=
  z.withProps (setProp (isNamed name) (fun p => (p.1, val)) (name, val) z.node.props)

/-- Without the first property of the name. -/
def DtLoc.del (z : DtLoc) (name : DtName) : DtLoc :=
  z.withProps (delProp (isNamed name) z.node.props)

/-- The subnode of a name, or a new one. -/
def kidOrNew (name : DtName) (z : DtLoc) : DtLoc :=
  (z.down (nameMatches name)).getD (z.addKid name)

/-- `fdt_cells` of a node. -/
def cellsOf (n : DtNode) (name : DtName) : Except FdtError Nat :=
  match getProp (isNamed name) n.props with
  | none => .error .notFound
  | some p =>
    if p.2.length ≠ 4 then .error .badNCells
    else if 4 < ofBe32 p.2 then .error .badNCells
    else .ok (ofBe32 p.2)

/-- `fdt_address_cells`: 2 by default, never 0. -/
def addressCells (n : DtNode) : Except FdtError Nat :=
  match cellsOf n (ascii "#address-cells") with
  | .ok 0 => .error .badNCells
  | .error .notFound => .ok 2
  | r => r

/-- `fdt_size_cells`: 1 by default. -/
def sizeCells (n : DtNode) : Except FdtError Nat :=
  match cellsOf n (ascii "#size-cells") with
  | .error .notFound => .ok 1
  | r => r

/-- A value of as many cells. -/
def cellBytes (cells v : Nat) : List UInt8 := if cells = 2 then be64 v else be32 v

/-! ## Edits of a device tree -/

/-- What a device tree blob is for. -/
structure Dt where
  rsv : Rsv
  root : DtNode

/-- The subnode of the root, or a new one. -/
def Dt.kid (t : Dt) (name : DtName) : DtLoc := kidOrNew name t.root.loc

/-- Nothing where the path leads nowhere. -/
def Dt.atPath (t : Dt) (path : List UInt8) (f : DtLoc → DtNode) : Dt :=
  match t.root.at path with
  | some z => { t with root := f z }
  | none => t

/-- `/chosen` is there. -/
def Dt.prepare (t : Dt) : Dt := { t with root := (t.kid (ascii "chosen")).top }

/-- The framebuffer of the splash screen is described in `/chosen` and reserved. -/
def Dt.framebuffer (fbAddr : Nat) (t : Dt) : Dt where
  rsv := t.rsv ++ [(fbAddr, framebufferSize)]
  root := (((t.kid (ascii "chosen")).set (ascii "p-boot,framebuffer")
    (be32 fbAddr ++ be32 framebufferSize)).set (ascii "p-boot,framebuffer-start") (be32 fbAddr)).top

/-- The framebuffer, if there is a splash screen. -/
def Dt.splash (splashFb : Nat) (t : Dt) : Dt := if splashFb = 0 then t else t.framebuffer splashFb

/-- The node at a path gets the status "disabled". -/
def Dt.disable (t : Dt) (path : List UInt8) : Dt :=
  t.atPath path fun z => (z.set (ascii "status") (ascii "disabled" ++ [0])).top

/-- The six nodes of `priv_nodes` are disabled, and the modem is blocked. -/
def Dt.privacy (t : Dt) : Dt :=
  (privNodes.foldl Dt.disable t).atPath modemPath fun z => (z.set (ascii "blocked") (be32 1)).top

/-- The modem's power is left to eg25-manager. -/
def Dt.modemManager (t : Dt) : Dt :=
  (t.atPath modemPath Loc.remove).atPath vbatPath fun z =>
    (z.set (ascii "regulator-always-on") []).top

/-- What `boot_selection` edits itself. -/
def Dt.selection (privacy : Bool) (bootargs : List UInt8) (t : Dt) : Dt :=
  let t := t.atPath adcPath fun z => (z.del (ascii "x-powers,ts-as-gpadc")).top
  if privacy then t.privacy
  else if (strstr bootargs (ascii "eg25-manager")).isSome then t.modemManager
  else t

/-- The path that an alias stands for. -/
def Dt.aliasPath (t : Dt) (name : DtName) : Option (List UInt8) :=
  ((t.root.at (ascii "/aliases")).bind fun z => z.get name).map cstr

/-- The node that an alias leads to, if it is not disabled. -/
def Dt.enabledNode (t : Dt) (name : DtName) : Option DtLoc :=
  ((t.aliasPath name).bind t.root.at).filter fun z =>
    (z.get (ascii "status")).map cstr != some (ascii "disabled")

/-- The Ethernet addresses of a node. -/
def DtLoc.setMac (z : DtLoc) (mac : List UInt8) : DtLoc :=
  (if (z.get (ascii "mac-address")).isSome then z.set (ascii "mac-address") mac else z).set
    (ascii "local-mac-address") mac

/-- The node of `ethernet0` gets an Ethernet address, if it is there and enabled. -/
def Dt.wifi (sid : Sid) (t : Dt) : Dt :=
  match t.enabledNode (ascii "ethernet0"), (getMacAddress sid 0).1 with
  | some z, some mac => { t with root := (z.setMac (mac.map UInt8.ofBitVec)).top }
  | _, _ => t

/-- The property, if there is a value for it. -/
def DtLoc.setIfSome (z : DtLoc) (name : DtName) : Option (List UInt8) → DtLoc
  | some val => z.set name val
  | none => z

/-- The data for `/p-boot`. -/
def Dt.pboot (d : PbootData) (t : Dt) : Dt :=
  { t with root := (((t.kid (ascii "p-boot")).setIfSome (ascii "configs") d.configs).setIfSome
    (ascii "log") d.log).top }

/-- The kernel's arguments in `/chosen`. -/
def Dt.bootargs (args : List UInt8) (t : Dt) : Dt :=
  { t with root := ((t.kid (ascii "chosen")).set (ascii "bootargs") (args ++ [0])).top }

/-- The memory bank of a root node with these cells. -/
def Dt.memory (ac sc start size : Nat) (t : Dt) : Dt :=
  { t with root := (((t.kid (ascii "memory")).set (ascii "device_type")
    (ascii "memory" ++ [0])).set (ascii "reg") (cellBytes ac start ++ cellBytes sc size)).top }

/-- The initramfs is described in `/chosen`, and its memory is reserved again. -/
def Dt.initrd (ac s e : Nat) (t : Dt) : Dt where
  rsv := t.rsv.eraseP (·.1 == s) ++ [(s, e - s)]
  root := (((t.kid (ascii "chosen")).set (ascii "linux,initrd-start") (cellBytes ac s)).set
    (ascii "linux,initrd-end") (cellBytes ac e)).top

/-- A reservation of the blob itself is renewed. -/
def Dt.shrink (fdt size : Nat) (t : Dt) : Dt :=
  if t.rsv.any (·.1 == fdt) then { t with rsv := t.rsv.eraseP (·.1 == fdt) ++ [(fdt, size)] } else t

@[simp] theorem Dt.shrink_root (fdt size : Nat) (t : Dt) : (t.shrink fdt size).root = t.root := by
  unfold Dt.shrink
  split <;> rfl

theorem Dt.shrink_rsv (fdt size : Nat) (t : Dt) : (t.shrink fdt size).rsv =
    if t.rsv.any (·.1 == fdt) then t.rsv.eraseP (·.1 == fdt) ++ [(fdt, size)] else t.rsv := by
  unfold Dt.shrink
  split <;> rfl

/-- The initramfs, if there is one and it is not empty. -/
def Dt.initrdIfSome (ac : Nat) (initrd : Option (Nat × Nat)) (t : Dt) : Dt :=
  match initrd with
  | some (s, e) => if s = e then t else t.initrd ac s e
  | none => t

/-- The edits of `boot_finalize`, of a tree whose root has these cells. -/
def Dt.finalize (ac sc : Nat) (b : BootSetup) (t : Dt) : Dt :=
  ((((t.wifi b.sid).pboot b.pboot).bootargs b.bootargs).memory ac sc 0x40000000 b.dramSize).initrdIfSome
    ac b.initrd

/-- The tree that `boot_finalize` gets. -/
def Dt.selected (b : BootSetup) (t : Dt) : Dt :=
  (t.prepare.splash b.splashFb).selection b.privacy b.bootargs

/-- All edits of a boot. -/
def Dt.boot (ac sc : Nat) (b : BootSetup) (t : Dt) : Dt := (t.selected b).finalize ac sc b

end PBoot
