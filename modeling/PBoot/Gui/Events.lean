import PBoot.Boot.Main
import PBoot.Gui.Menu

/-!
# Gathering events (`gui_get_events` in `gui.c`)

* `guiGetEvents`: one call, given what its accesses to the hardware find. It also returns what it
  writes to the registers of the PMIC.
* `pokStep`: the same call access by access, while the PMIC goes on raising flags. The registers are
  write-one-to-clear; `pending` is the interrupt controller's bit, which follows a level.
-/

namespace PBoot

/-! ## PMIC flags -/

/-- The result of `pmic_read`: a byte, or a negative error code (`error e` is `-(e + 1)`). -/
inductive PmicResult where
  | byte (b : BitVec 8)
  | error (e : Fin 0x80000000)

def PmicResult.val : PmicResult → Int
  | .byte b => b.toNat
  | .error e => -(e.val + 1)

/-- `(unsigned) pmic_read(i)`. -/
def PmicResult.unsigned (r : PmicResult) : BitVec 32 := BitVec.ofInt 32 r.val

/-- The interrupt flag registers of the PMIC, in the order of the loop. -/
def pmicRegs : List Nat := [0x48, 0x49, 0x4a, 0x4b, 0x4c, 0x4d]

/-- The register with the flags of the power key. -/
def pokReg : Nat := 0x4c

/-- The POK flags of `f` as events. -/
def Events.pok (e : Events) (f : BitVec 32) : Events :=
  { e with
    pokShort := e.pokShort || f.getLsbD 4
    pokLong := e.pokLong || f.getLsbD 3
    pokDown := e.pokDown || f.getLsbD 5 }

/-- What a round of the loop does with `f`, read from register `i`: the events, and the byte that is
written back, if one is. -/
def flagRound (e : Events) (i : Nat) (f : BitVec 32) : Events × Option (BitVec 8) :=
  if f = 0 then (e, none) else (if i = pokReg then e.pok f else e, some (f.setWidth 8))

/-- The loop over the registers: the events and the writes. -/
def clearFlags (read : Nat → PmicResult) :
    List Nat → Events → Events × List (Nat × BitVec 8)
  | [], e => (e, [])
  | i :: is, e =>
    let (e, ack) := flagRound e i (read i).unsigned
    let (e', acks) := clearFlags read is e
    (e', (ack.map (i, ·)).toList ++ acks)

/-! ## One call -/

/-- The fields of `struct gui` that outlive a call, and its events. -/
structure Gui where
  events : Events
  now : Nat
  keyChangeTs : Nat
  lastKey : Key
  autoRepeat : Bool

/-- What one call finds. -/
structure GuiInput where
  /-- The timer when the call starts. -/
  now : Nat
  /-- `display_frame_done()`. -/
  frameDone : Bool
  /-- The PMIC's bit in the interrupt controller. -/
  pending : Bool
  pmic : Nat → PmicResult
  key : Key
  /-- The timer when a change of the key is seen. -/
  timer : Nat

def Events.none : Events :=
  { volumeUp := false, volumeDown := false, pokShort := false, pokLong := false, pokDown := false
    vblank := false }

/-- `gui_init`, on a struct that is zero. -/
def Gui.init (timer : Nat) (key : Key) : Gui :=
  { events := .none, now := timer, keyChangeTs := 0, lastKey := key, autoRepeat := false }

/-- The event of a volume key. -/
def Events.volume (e : Events) : Key → Events
  | .volumeDown => { e with volumeDown := true }
  | .volumeUp => { e with volumeUp := true }
  | .none => e

/-- De-bounce: a change of the key waits for 30 ms. -/
def Gui.debounce (g : Gui) (i : GuiInput) : Gui :=
  if g.lastKey ≠ i.key then
    { g with lastKey := i.key, keyChangeTs := i.timer + 30000, autoRepeat := false }
  else g

/-- When the next event of a key that stays pressed is due. -/
def Gui.rearm (g : Gui) (now : Nat) : Gui :=
  if g.autoRepeat then { g with keyChangeTs := now + 150000 }
  else { g with autoRepeat := true, keyChangeTs := now + 350000 }

/-- The part for the volume keys. -/
def Gui.keys (g : Gui) (i : GuiInput) : Gui :=
  let g := g.debounce i
  if g.keyChangeTs ≠ 0 ∧ g.keyChangeTs < i.now then
    let g := g.rearm i.now
    { g with
      events := g.events.volume i.key
      keyChangeTs := if i.key = .none then 0 else g.keyChangeTs }
  else g

/-- `gui_get_events`, before it updates the widgets: the state after it, and what it wrote to the
PMIC. -/
def guiGetEvents (g : Gui) (i : GuiInput) : Gui × List (Nat × BitVec 8) :=
  let e : Events := { Events.none with vblank := i.frameDone }
  let (e, acks) := if i.pending then clearFlags i.pmic pmicRegs e else (e, [])
  ({ ({ g with events := e } : Gui).keys i with now := i.now }, acks)

/-! ## Access by access -/

/-- The next access of a call. -/
inductive PokPc where
  /-- Between two calls. -/
  | idle
  | checkPending
  | read (i : Nat)
  | write (i : Nat) (v : BitVec 8)
  | clearPending
  deriving DecidableEq, Repr

/-- The PMIC's flags, the interrupt controller and the call that is under way. -/
structure PokState where
  regs : Nat → BitVec 8
  pending : Bool
  pc : PokPc
  events : Events

inductive PokAction where
  /-- The PMIC raises flags of a register. -/
  | raise (i : Nat) (flags : BitVec 8)
  /-- The program's next access; `frameDone` is looked at when a call starts. -/
  | access (frameDone : Bool)

/-- After register `i`. -/
def PokPc.after (i : Nat) : PokPc := if i < 0x4d then .read (i + 1) else .clearPending

/-- One action; `irq` says for which flags the PMIC asks for an interrupt. -/
def pokStep (irq : (Nat → BitVec 8) → Bool) (s : PokState) : PokAction → PokState
  | .raise i flags =>
    let regs := Function.update s.regs i (s.regs i ||| flags)
    { s with regs, pending := s.pending || irq regs }
  | .access frameDone =>
    match s.pc with
    | .idle => { s with events := { Events.none with vblank := frameDone }, pc := .checkPending }
    | .checkPending => { s with pc := if s.pending then .read 0x48 else .idle }
    | .read i =>
      match flagRound s.events i (PmicResult.byte (s.regs i)).unsigned with
      | (events, .none) => { s with events, pc := .after i }
      | (events, some v) => { s with events, pc := .write i v }
    | .write i v => { s with regs := Function.update s.regs i (s.regs i &&& ~~~v), pc := .after i }
    | .clearPending => { s with pending := irq s.regs, pc := .idle }

end PBoot
