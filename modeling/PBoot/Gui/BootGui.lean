import PBoot.Boot.Main
import PBoot.Gui.Menu

/-!
# The boot menu (`boot_gui` in `main.c`)

`bootGuiSetup` fills the menu and places the cursor, `loopStep` is one round of the event loop.
What is drawn, the background images, the backlight and the time that passes until the next frame
are left out: they do not feed back.
-/

namespace PBoot

open Bytes

/-! ## Colours -/

def colorNormalItem : BitVec 32 := 0xffeeccdd#32
def colorDefaultItem : BitVec 32 := 0xff11ff22#32
def colorSdHeader : BitVec 32 := 0xffff8569#32
def colorEmmcHeader : BitVec 32 := 0xffa0c5ff#32
def colorPoweroffItem : BitVec 32 := 0xffff2211#32
def colorFelItem : BitVec 32 := 0xffee77ff#32

/-! ## Filling the menu -/

/-- `gui_menu_set_active`. -/
def guiMenuSetActive (m : GuiMenu) (id : Int) : GuiMenu :=
  { m with
    items := m.items.map fun it => if it.id < 67 then { it with active := it.id == id } else it
    changed := true }

/-- A string literal as an argument. -/
def MenuLine.lit (id : Int) (s : String) (fg activeFg : BitVec 32) : MenuLine :=
  { id, text := ascii s ++ [0], fg, activeFg }

/-- A line for each configuration block of `fs`, with ids from `base` on. -/
def confLines (fs : Option Bootfs) (base : Nat) : List MenuLine :=
  match fs with
  | none => []
  | some fs =>
    ((List.range 32).filter fs.isConf).map fun i =>
      { id := (i + base : Nat), text := nameField (fs.blockFrom i), fg := colorNormalItem
        activeFg := colorDefaultItem }

def emmcLines (g : Globals) : List MenuLine :=
  if g.emmc.isSome ∨ g.bootSource ≠ bootedFromMmc2 then
    [.lit (-2) "eMMC:" colorEmmcHeader colorEmmcHeader] ++ confLines g.emmc 0 ++
      (if g.bootSource ≠ bootedFromMmc2 then
        [.lit bootselEmmc "Boot via bootloader on eMMC" colorNormalItem colorDefaultItem]
      else []) ++ [.lit (-2) "" 0 0]
  else []

def sdLines (g : Globals) : List MenuLine :=
  if g.sd.isSome then
    [.lit (-2) "SD:" colorSdHeader colorSdHeader] ++ confLines g.sd 32 ++ [.lit (-2) "" 0 0]
  else []

/-- The id of the "Privacy mode" item. -/
def privId : Int := 100

def privLine : MenuLine := .lit privId "Privacy mode" 0xff777777#32 colorDefaultItem

def endLines : List MenuLine :=
  [.lit bootselFel "Reboot to FEL" colorFelItem colorDefaultItem,
    .lit bootselPoweroff "Poweroff" colorPoweroffItem colorPoweroffItem]

/-! ## The state of the loop -/

inductive GuiState where
  | menu | off | boot
  deriving DecidableEq, Repr

/-- The variables of `boot_gui` that live across rounds, and the RTC words. -/
structure BootGui where
  menu : GuiMenu
  /-- The index of the item that `priv` points to. -/
  priv : Nat
  rtc : Rtc
  /-- `rtcsel.def`. -/
  dflt : Int
  state : GuiState
  bootSel : Int
  /-- `end`. -/
  deadline : Nat

/-- `priv->active = val`. -/
def setPrivActive (m : GuiMenu) (priv : Nat) (val : Bool) : GuiMenu :=
  { m with items := m.items.modify priv fun it => { it with active := val } }

/-- `priv->active`. -/
def BootGui.privActive (s : BootGui) : Bool :=
  match s.menu.items[s.priv]? with
  | some it => it.active
  | none => false

/-- The option the cursor is placed on. -/
def startOption (g : Globals) (dflt : Int) : Int :=
  if 0 ≤ dflt then dflt else if g.emmc.isNone then 32 else 0

/-- `boot_gui` up to its loop. The title is read from the superblock of `fs`, so that one of the
file systems has to be loaded. -/
def bootGuiSetup (g : Globals) (r : Rtc) (timer : Nat) : Option BootGui := do
  let _ ← g.emmc.or g.sd
  let m ← guiMenuAddItems .new (emmcLines g)
  let m ← guiMenuAddItems m (sdLines g)
  let m ← guiMenuAddItem m privLine
  let priv := m.items.length - 1
  let m := setPrivActive m priv (rtcGetFlag r (bit 0))
  let m ← guiMenuAddItems m endLines
  let dflt := rtcBootselGet r
  let m := if 0 ≤ dflt then guiMenuSetActive m dflt else m
  let m := guiMenuSetSelection m (startOption g dflt)
  return { menu := m, priv, rtc := r, dflt, state := .menu, bootSel := -1
           deadline := timer + 10000000 }

/-! ## The event loop -/

/-- What one round finds: the events, `g->now`, and the timer when it is read again. -/
structure LoopInput where
  events : Events
  now : Nat
  timer : Nat

inductive LoopResult where
  | next (s : BootGui)
  | poweroff
  /-- `boot_selection` with `&cfs->confs_blocks[i]`. -/
  | boot (cfs : Option Bootfs) (i : Int) (r : Rtc)
  | reset (r : Rtc)

/-- `rtcsel.def = def`, stored and shown. -/
def BootGui.storeDefault (s : BootGui) (dflt : Int) : BootGui :=
  { s with dflt, rtc := rtcBootselSet s.rtc dflt, menu := guiMenuSetActive s.menu dflt }

def BootGui.togglePrivacy (s : BootGui) : BootGui :=
  let active := !s.privActive
  { s with
    menu := { setPrivActive s.menu s.priv active with changed := true }
    rtc := rtcSetFlag s.rtc (bit 0) (if active then bit 0 else 0) }

/-- `EV_POK_LONG`: the current selection becomes the default. -/
def BootGui.markDefault (s : BootGui) : BootGui :=
  let id := guiMenuGetSelection s.menu
  if id = bootselPoweroff then s.storeDefault (-1)
  else if id = privId then s.togglePrivacy
  else s.storeDefault id

/-- `EV_POK_SHORT`. -/
def BootGui.choose (s : BootGui) : LoopResult :=
  let id := guiMenuGetSelection s.menu
  match rebootTo id s.rtc with
  | some r => .reset r
  | none =>
    .next (if id = bootselPoweroff then { s with state := .off }
      else if id < 64 then { s with state := .boot, bootSel := id }
      else s)

/-- The deadline: extended while the user is interacting, and the end of the menu. -/
def BootGui.watch (s : BootGui) (i : LoopInput) : BootGui :=
  let user := i.events.volumeUp || i.events.volumeDown || i.events.pokShort || i.events.pokLong ||
    i.events.pokDown
  let s := if user then { s with deadline := i.timer + 10000000 } else s
  if s.deadline < i.now then { s with state := .off } else s

/-- The power key. -/
def BootGui.press (s : BootGui) (e : Events) : LoopResult :=
  let s := if e.pokLong then s.markDefault else s
  if e.pokShort then s.choose else .next s

/-- One round of the loop; none when `gui_menu_update` does not return. -/
def loopStep (g : Globals) (s : BootGui) (i : LoopInput) : Option LoopResult :=
  match guiMenuUpdate s.menu i.events with
  | none => none
  | some m =>
    let s : BootGui := { s with menu := m }
    if i.events.vblank ∧ s.state = .off then some .poweroff
    else if i.events.vblank ∧ s.state = .boot then
      let cfs := if s.bootSel < 32 then g.emmc else g.sd
      some (.boot cfs (Int.tmod s.bootSel 32) s.rtc)
    else some ((s.watch i).press i.events)

/-! ## The file systems that are used -/

/-- `fs`, which the background, the title and the power-off screen are read from. -/
def menuFs (g : Globals) : Option Bootfs := g.emmc.or g.sd

/-- `cfs`, the file system that an option is on. -/
def optionFs (g : Globals) (sel : Int) : Option Bootfs := if sel < 32 then g.emmc else g.sd

/-- The images that are loaded when the selection changed. -/
def selectionUses (g : Globals) (m : GuiMenu) : List (Option Bootfs) :=
  if m.selectionChanged then
    let id := guiMenuGetSelection m
    if id = bootselPoweroff then [menuFs g]
    else if id < 64 then [optionFs g id, menuFs g]
    else []
  else []

/-- The file systems that a round may use; none stands for a null pointer. -/
def loopUses (g : Globals) (s : BootGui) (i : LoopInput) : List (Option Bootfs) :=
  match guiMenuUpdate s.menu i.events with
  | none => []
  | some m =>
    if i.events.vblank ∧ s.state = .off then [menuFs g]
    else if i.events.vblank ∧ s.state = .boot then [optionFs g s.bootSel]
    else selectionUses g m

end PBoot
