import PBoot.Lib.Run
import PBoot.Lib.Text
import PBoot.Storage.Format
import Mathlib.Logic.Function.Basic

/-!
# Reading a configuration directory (`conf.c`)

`p-boot-conf` reads `boot.conf` and the directory `files/` and builds a `Table`: the boot
configurations by slot, the files, and the list of the distinct sources that both refer to.
`Host` is what the tool sees of the machine it runs on.

Strings are C strings: a path, a name or a value is the bytes before its NUL.

* `parseConf`: `parse_conf`, one `parseLine` for every piece that `fgets` delivers.
* `includeFiles`: `include_files`.
* `readConf`: the two, one after the other.
-/

namespace PBoot

open Bytes Text

/-! ## The machine the tool runs on -/

/-- An entry of a directory; `isReg` is none when `stat` fails. -/
structure DirEntry where
  name : List UInt8
  isReg : Option Bool
  name_ne : name ≠ []
  no_nul : 0 ∉ name

/-- The entries of a directory in the order of `readdir`, and whether `readdir` got to the end
without an error. -/
structure Dir where
  entries : List DirEntry
  complete : Bool
  nodup : (entries.map (·.name)).Nodup

structure Host where
  pathMax : Nat
  /-- The first argument, `conf_dir`. -/
  confDir : List UInt8
  /-- The contents of `boot.conf`, if it can be opened. -/
  bootConf : Option (List UInt8)
  /-- The directory `files/`, if it can be opened. -/
  files : Option Dir
  realpath : List UInt8 → Option (List UInt8)
  /-- Whether the file at a resolved path can be opened. -/
  canOpen : List UInt8 → Bool
  /-- The contents of the file at a resolved path, if it can be read. -/
  contents : List UInt8 → Option (List UInt8)

/-- Why the tool exits with an error; `line` is `line_no`. -/
inductive ConfError where
  | cantResolve (path : List UInt8)
  | cantOpen (path : List UInt8)
  | slotTaken (no : Nat)
  | missingName (no : Nat)
  | missingImage (no : Nat) (var : List UInt8)
  | cantOpenConf
  | multipleDeviceId (line : Nat)
  | deviceIdTooLong (line : Nat)
  | noOutOfRange (line : Nat) (no : Int)
  | mustStartWithNo (line : Nat)
  | imageSet (line : Nat) (var : List UInt8) (no : Nat)
  | cantOpenDir
  | cantReadDir
  | cantStat (name : List UInt8)
  | fileNameTooLong (name : List UInt8)
  | tooManyFiles
  | cantOpenBlkDev
  | failedWriting
  deriving DecidableEq, Repr

/-! ## What is built -/

/-- `struct bconf_image`; the source is named by its resolved path. -/
structure BConfImage where
  type : Nat
  data : List UInt8
  deriving DecidableEq, Repr

/-- `struct bconf`. -/
structure BConf where
  index : Nat
  name : List UInt8
  bootargs : List UInt8
  images : List BConfImage
  deriving DecidableEq, Repr

/-- `struct file`. -/
structure ConfFile where
  name : List UInt8
  data : List UInt8
  deriving DecidableEq, Repr

/-- `device_id`, `data_list`, `confs` and `files`. -/
structure Table where
  deviceId : Option (List UInt8)
  data : List (List UInt8)
  confs : Nat → Option BConf
  files : List ConfFile

/-! ## Sources -/

/-- `data_add_file`: the source's resolved path and the list of sources with it. -/
def dataAddFile (host : Host) (path : List UInt8) (data : List (List UInt8)) :
    Except ConfError (List UInt8 × List (List UInt8)) :=
  match host.realpath path with
  | none => .error (.cantResolve path)
  | some rpath =>
    if rpath ∈ data then .ok (rpath, data)
    else if host.canOpen rpath then .ok (rpath, data ++ [rpath])
    else .error (.cantOpen path)

/-- An element of `image_types`. -/
structure ImageType where
  confVar : List UInt8
  type : Nat
  optional : Bool

def imageTypes : List ImageType :=
  [⟨ascii "linux", 'L'.toNat, false⟩, ⟨ascii "initramfs", 'I'.toNat, true⟩,
    ⟨ascii "atf", 'A'.toNat, false⟩, ⟨ascii "dtb", 'D'.toNat, false⟩,
    ⟨ascii "dtb2", '2'.toNat, true⟩, ⟨ascii "splash", 'S'.toNat, true⟩]

/-- The configuration has an image of the type. -/
def BConf.hasImage (c : BConf) (type : Nat) : Bool := c.images.any fun im => im.type == type

/-- `complete_conf`. -/
def completeConf (confs : Nat → Option BConf) (c : BConf) :
    Except ConfError (Nat → Option BConf) :=
  if (confs c.index).isSome then .error (.slotTaken c.index)
  else if c.name = [] then .error (.missingName c.index)
  else
    match imageTypes.find? fun ty => !ty.optional && !c.hasImage ty.type with
    | some ty => .error (.missingImage c.index ty.confVar)
    | none => .ok (Function.update confs c.index (some c))

/-! ## A line -/

def isBlank (b : UInt8) : Bool := b == 32 || b == 9

/-- What is trimmed from the end of a line. -/
def atEnd (b : UInt8) : Bool := isBlank b || b == newline

/-- What a line sets: its name and value. None for a blank line, a comment and a line without
`=`, which are skipped. The trim at the line's end also drops the newline; what it touches is in
`PBoot.Conf.Trim`. -/
def setting (line : List UInt8) : Option (List UInt8 × List UInt8) :=
  let line := line.rdropWhile fun b => isBlank b || b == newline
  let name := line.dropWhile isBlank
  if name = [] ∨ name.head? = some 35 then none
  else if 61 ∈ name then
    some ((name.takeWhile (· ≠ 61)).rdropWhile isBlank,
      ((name.dropWhile (· ≠ 61)).drop 1).dropWhile isBlank)
  else none

/-- The variables of `parse_conf`, and the globals it fills; `conf` is none before the first
`no`. -/
structure ParseState where
  deviceId : Option (List UInt8)
  data : List (List UInt8)
  confs : Nat → Option BConf
  conf : Option BConf
  lineNo : Nat

/-- `complete_conf` for the configuration that was started. -/
def ParseState.complete (st : ParseState) : Except ConfError (Nat → Option BConf) :=
  match st.conf with
  | none => .ok st.confs
  | some c => completeConf st.confs c

def setDeviceId (st : ParseState) (val : List UInt8) : Except ConfError ParseState :=
  if st.deviceId.isSome then .error (.multipleDeviceId st.lineNo)
  else if 31 < val.length then .error (.deviceIdTooLong st.lineNo)
  else .ok { st with deviceId := some val }

/-- A line `no = ...`. -/
def setNo (st : ParseState) (val : List UInt8) : Except ConfError ParseState := do
  let confs ← st.complete
  let no := atoi val
  if no < 0 ∨ 32 ≤ no then .error (.noOutOfRange st.lineNo no)
  else .ok { st with confs, conf := some ⟨no.toNat, [], [], []⟩ }

/-- `name` and `bootargs`. -/
def setText (c : BConf) (name val : List UInt8) : BConf :=
  if name = ascii "name" then { c with name := snprintf 1024 val }
  else if name = ascii "bootargs" then { c with bootargs := snprintf 4096 val }
  else c

/-- The path that an image's value stands for. -/
def imagePath (host : Host) (val : List UInt8) : List UInt8 :=
  snprintf host.pathMax (if val.head? = some 47 then val else host.confDir ++ 47 :: val)

/-- An image of the type is set to `val`. -/
def setImage (host : Host) (st : ParseState) (c : BConf) (ty : ImageType) (val : List UInt8) :
    Except ConfError ParseState := do
  let (rpath, data) ← dataAddFile host (imagePath host val) st.data
  if c.hasImage ty.type then .error (.imageSet st.lineNo ty.confVar c.index)
  else .ok { st with data, conf := some { c with images := c.images ++ [⟨ty.type, rpath⟩] } }

/-- A line that sets `name` to `val`. -/
def applySetting (host : Host) (st : ParseState) (name val : List UInt8) :
    Except ConfError ParseState :=
  if name = ascii "device_id" then setDeviceId st val
  else if name = ascii "no" then setNo st val
  else
    match st.conf with
    | none => .error (.mustStartWithNo st.lineNo)
    | some c =>
      let c := setText c name val
      match imageTypes.find? fun ty => ty.confVar == name with
      | none => .ok { st with conf := some c }
      | some ty => setImage host st c ty val

/-- One round of the loop: the piece of the file that is in `line`. -/
def parseLine (host : Host) (st : ParseState) (line : List UInt8) :
    Except ConfError ParseState :=
  let st : ParseState := { st with lineNo := st.lineNo + 1 }
  match setting (cstr line) with
  | none => .ok st
  | some (name, val) => applySetting host st name val

/-- `sizeof line`. -/
def lineSize : Nat := 4096

def ParseState.init : ParseState :=
  { deviceId := none, data := [], confs := fun _ => none, conf := none, lineNo := 0 }

/-- `parse_conf`. -/
def parseConf (host : Host) : Except ConfError Table :=
  match host.bootConf with
  | none => .error .cantOpenConf
  | some text => do
    let st ← (fgets (lineSize - 1) text).foldlM (parseLine host) .init
    let confs ← st.complete
    .ok { deviceId := st.deviceId, data := st.data, confs, files := [] }

/-! ## Files -/

/-- The number of elements of `files`. -/
def maxFiles : Nat := 400

def filePath (host : Host) (name : List UInt8) : List UInt8 :=
  snprintf host.pathMax (snprintf host.pathMax (host.confDir ++ 47 :: ascii "files") ++ 47 :: name)

/-- A regular file is added. -/
def includeFile (host : Host) (t : Table) (name : List UInt8) : Except ConfError Table :=
  if 31 < name.length then .error (.fileNameTooLong name)
  else if maxFiles ≤ t.files.length then .error .tooManyFiles
  else do
    let (rpath, data) ← dataAddFile host (filePath host name) t.data
    .ok { t with data, files := t.files ++ [⟨snprintf 32 name, rpath⟩] }

/-- One round of the loop over the directory. -/
def includeEntry (host : Host) (t : Table) (e : DirEntry) : Except ConfError Table :=
  match e.isReg with
  | none => .error (.cantStat e.name)
  | some true => includeFile host t e.name
  | some false => .ok t

/-- `include_files`. -/
def includeFiles (host : Host) (t : Table) : Except ConfError Table :=
  match host.files with
  | none => .error .cantOpenDir
  | some dir => do
    let t ← dir.entries.foldlM (includeEntry host) t
    if dir.complete then .ok t else .error .cantReadDir

/-- What `main` reads before it opens the device. -/
def readConf (host : Host) : Except ConfError Table := do
  let t ← parseConf host
  includeFiles host t

end PBoot
