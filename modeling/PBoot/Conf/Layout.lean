import PBoot.Conf.Parse
import Mathlib.Data.List.Forall2

/-!
# Ways to write `boot.conf`

A `Config` is what is to be said of a boot configuration: a number, a name, the kernel arguments
and the images. `Layout cs text`: the text writes the configurations `cs`, each with its `no` line
first and the other lines in any order, with blanks before the key, around the `=` and at the end
of a line, with comment lines, and with or without a newline at the end. Lines of blanks are left
out.
-/

namespace PBoot

open Bytes Text

/-! ## What is written -/

/-- A value that a line can hold. -/
structure Value where
  bytes : List UInt8
  no_nul : 0 ∉ bytes
  no_newline : newline ∉ bytes
  trimmed_start : ∀ b, bytes.head? = some b → isBlank b = false
  trimmed_end : ∀ b, bytes.getLast? = some b → isBlank b = false

/-- A boot configuration; `image ty` is the value for an image of type `ty`. -/
structure Config where
  no : Nat
  name : Value
  bootargs : Option Value
  image : ImageType → Option Value
  no_lt : no < 32
  name_ne : name.bytes ≠ []
  name_le : name.bytes.length ≤ 1023
  required : ∀ ty ∈ imageTypes, ty.optional = false → (image ty).isSome

/-- A key and its value. -/
abbrev Setting := List UInt8 × List UInt8

/-- A decimal number. -/
structure Numeral (n : Nat) (v : List UInt8) : Prop where
  ne : v ≠ []
  digit : ∀ b ∈ v, isDigit b = true
  value : digits v = n

def Config.imageSettings (c : Config) : List Setting :=
  imageTypes.filterMap fun ty => (c.image ty).map fun v => (ty.confVar, v.bytes)

/-- The lines of a configuration but the first. -/
def Config.settings (c : Config) : List Setting :=
  (ascii "name", c.name.bytes) ::
    (c.bootargs.toList.map fun v => (ascii "bootargs", v.bytes)) ++ c.imageSettings

/-- The lines of a configuration: its number, and then the others in any order. -/
def Config.Ordered (c : Config) (ss : List Setting) : Prop :=
  ∃ v rest, Numeral c.no v ∧ rest.Perm c.settings ∧ ss = (ascii "no", v) :: rest

/-! ## How it is written -/

/-- The line says `key = value`. -/
def Says (s : Setting) (l : List UInt8) : Prop :=
  ∃ b₁ b₂ b₃ b₄ : List UInt8, (∀ b ∈ b₁ ++ b₂ ++ b₃ ++ b₄, isBlank b = true) ∧
    l = b₁ ++ (s.1 ++ b₂ ++ 61 :: (b₃ ++ s.2 ++ b₄))

/-- The line is a comment. -/
def IsComment (l : List UInt8) : Prop :=
  ∃ b rest : List UInt8, (∀ x ∈ b, isBlank x = true) ∧ newline ∉ rest ∧ l = b ++ 35 :: rest

/-- A line that says something, or a comment. -/
def IsLine : Option Setting → List UInt8 → Prop
  | some s => Says s
  | none => IsComment

/-- The text says the settings, in order, in lines of fewer than 4095 bytes. -/
inductive Written : List Setting → List UInt8 → Prop
  | nil : Written [] []
  /-- A last line without a newline. -/
  | last {s : Option Setting} {l : List UInt8} : IsLine s l → l.length < 4095 → Written s.toList l
  | line {s : Option Setting} {l : List UInt8} {ss : List Setting} {text : List UInt8} :
      IsLine s l → l.length < 4095 → Written ss text → Written (s.toList ++ ss) (l ++ newline :: text)

/-- The text writes the configurations. -/
def Layout (cs : List Config) (text : List UInt8) : Prop :=
  ∃ sss : List (List Setting), List.Forall₂ Config.Ordered cs sss ∧ Written sss.flatten text

/-! ## What is read -/

/-- The path a value stands for. -/
def sourcePath (host : Host) (v : List UInt8) : List UInt8 :=
  if v.head? = some 47 then v else host.confDir ++ 47 :: v

/-- The configuration has the source with resolved path `r` as its image of type `ty`. -/
def Config.Source (host : Host) (c : Config) (ty : ImageType) (r : List UInt8) : Prop :=
  ∃ v, c.image ty = some v ∧ host.realpath (sourcePath host v.bytes) = some r

/-- The images fit the path buffer, resolve and open. -/
def Config.Found (host : Host) (c : Config) : Prop :=
  ∀ ty ∈ imageTypes, ∀ v, c.image ty = some v → (sourcePath host v.bytes).length < host.pathMax ∧
    ∃ r, host.realpath (sourcePath host v.bytes) = some r ∧ host.canOpen r = true

/-- What is read is the configuration. -/
structure Config.IsRead (host : Host) (c : Config) (b : BConf) : Prop where
  index : b.index = c.no
  name : b.name = c.name.bytes
  bootargs : b.bootargs = (c.bootargs.map Value.bytes).getD []
  /-- Its images are bound to their sources. -/
  images : ∀ im, im ∈ b.images ↔ ∃ ty ∈ imageTypes, im.type = ty.type ∧ c.Source host ty im.data
  /-- There is one of each type. -/
  types : (b.images.map (·.type)).Nodup

/-- The slots hold the configurations. -/
structure SlotsRead (host : Host) (cs : List Config) (confs : Nat → Option BConf) : Prop where
  read : ∀ c ∈ cs, ∃ b, confs c.no = some b ∧ c.IsRead host b
  unused : ∀ i, i ∉ cs.map Config.no → confs i = none

/-- The sources are listed once. -/
structure SourcesRead (host : Host) (cs : List Config) (data : List (List UInt8)) : Prop where
  nodup : data.Nodup
  mem : ∀ r, r ∈ data ↔ ∃ c ∈ cs, ∃ ty ∈ imageTypes, c.Source host ty r

/-- The table holds the configurations. -/
structure TableRead (host : Host) (cs : List Config) (t : Table) : Prop where
  slots : SlotsRead host cs t.confs
  sources : SourcesRead host cs t.data
  others : t.deviceId = none ∧ t.files = []

end PBoot
