import PBoot.Boot.Rtc
import PBoot.Storage.Load

/-!
# The boot decision (`main.c`, `start32.c`)

What happens from power-up until a configuration is handed to `boot_selection`, the menu is shown
or the board is reset. `mainGui` and `mainNoGui` are the two builds of `main`, `start32` the
preamble that runs before either. Opening a boot file system is done at most once per controller:
`Media` is what it yields, `mmcTryLoad` does it.
-/

namespace PBoot

open Bytes

/-! ## Globals and media -/

/-- What opening the boot file systems on the two controllers yields. -/
structure Media where
  sd : Option Bootfs
  emmc : Option Bootfs

/-- The fields of `struct globals` that the boot decision reads. -/
structure Globals where
  bootSource : Nat
  vbusPowerup : Bool
  sd : Option Bootfs
  emmc : Option Bootfs
  mmcTried : BitVec 32

def bootedFromMmc0 : Nat := 0
def bootedFromMmc2 : Nat := 2

/-- The globals when `main` starts to look for something to boot. -/
def Globals.init (bootSource : Nat) (vbusPowerup : Bool) : Globals :=
  { bootSource, vbusPowerup, sd := none, emmc := none, mmcTried := 0#32 }

def mmcTryLoad (media : Media) (g : Globals) (mask : BitVec 32) : Globals :=
  let g := if mask &&& bit 0 &&& ~~~g.mmcTried != 0#32 then { g with sd := media.sd } else g
  let g := if mask &&& bit 2 &&& ~~~g.mmcTried != 0#32 then { g with emmc := media.emmc } else g
  { g with mmcTried := g.mmcTried ||| mask }

/-! ## Configurations -/

/-- A pointer to a configuration block: its file system and its index. -/
abbrev ConfPtr := Bootfs × Nat

/-- `fs ? &fs->confs_blocks[i] : NULL`. -/
def confAt (fs : Option Bootfs) (i : Nat) : Option ConfPtr := fs.map (·, i)

/-- `sbc && !memcmp(sbc->magic, ":BFCONF:", 8)`. -/
def ConfPtr.valid : Option ConfPtr → Bool
  | some (fs, i) => fs.isConf i
  | none => false

/-- The result of `bootfs_select_configuration` and its two out parameters. -/
structure Selection where
  sel : Option ConfPtr
  opt : Int
  fs : Option Bootfs

/-- The part of `bootfs_select_configuration` after `bootsel` is known. -/
def selectBlock (media : Media) (g : Globals) (bootsel : Nat) : Selection × Globals :=
  if bootsel < 32 then
    let g := mmcTryLoad media g (bit 2)
    let sbc := confAt g.emmc bootsel
    ({ sel := if ConfPtr.valid sbc then sbc else none, opt := bootsel, fs := g.emmc }, g)
  else if bootsel < 64 then
    let g := mmcTryLoad media g (bit 0)
    let sbc := confAt g.sd (bootsel - 32)
    ({ sel := if ConfPtr.valid sbc then sbc else none, opt := bootsel, fs := g.sd }, g)
  else ({ sel := none, opt := bootsel, fs := none }, g)

/-- The word at 0x104 holds a one-time request. -/
def isRequest (vt : BitVec 32) : Bool := vt &&& 0xffff0000#32 == 0xb0010000#32

def bootfsSelectConfiguration (media : Media) (g : Globals) (r : Rtc) :
    Selection × Globals × Rtc :=
  let vt := r.oneTime
  let sel := rtcBootselGet r
  if isRequest vt then
    let (s, g) := selectBlock media g (vt &&& 0xffff#32).toNat
    (s, g, { r with oneTime := 0 })
  else if 0 ≤ sel then
    let (s, g) := selectBlock media g sel.toNat
    (s, g, r)
  else ({ sel := none, opt := -1, fs := none }, g, r)

/-! ## Outcomes -/

inductive Outcome where
  /-- `boot_selection` is called with this block; the splash screen may be shown. -/
  | boot (fs : Bootfs) (i : Nat) (splash : Bool)
  /-- `boot_gui` is called with these globals. -/
  | menu (g : Globals)
  /-- The board is reset. -/
  | reset
  /-- `panic` powers the board off. -/
  | panic (code : Nat)

def felRequest : BitVec 32 := 0xb0010fe1#32
def emmcRequest : BitVec 32 := 0xb001e33c#32

/-- `reboot_to`: the RTC when the board is reset, none when it returns. -/
def rebootTo (bootsel : Int) (r : Rtc) : Option Rtc :=
  if bootsel = bootselFel then some { r with oneTime := felRequest }
  else if bootsel = bootselEmmc then some { r with oneTime := emmcRequest }
  else none

/-- Volume keys. -/
inductive Key where
  | none | volumeDown | volumeUp
  deriving DecidableEq, Repr

/-! ## `main`, GUI build -/

/-- The splash image is loaded to 0x48000000. -/
def hasSplash (fs : Bootfs) (i : Nat) (mem : Mem) : Bool := (loadSplash fs i mem 0x48000000).1

/-- From the label `display_init` on. -/
def bootUi (media : Media) (g : Globals) : Outcome := .menu (mmcTryLoad media g (bit 0 ||| bit 2))

/-- `main` with `ENABLE_GUI`; `mem` is the memory it finds. -/
def mainGui (media : Media) (key : Key) (g : Globals) (r : Rtc) (mem : Mem) : Outcome × Rtc :=
  match if key = .volumeUp then rebootTo bootselFel r else none with
  | some r => (.reset, r)
  | none =>
    if key = .volumeDown ∨ key = .volumeUp ∨ g.vbusPowerup then (bootUi media g, r)
    else
      let (s, g, r) := bootfsSelectConfiguration media g r
      match s.sel with
      | some (fs, i) => (.boot fs i (hasSplash fs i mem), r)
      | none =>
        match rebootTo s.opt r with
        | some r => (.reset, r)
        | none => (bootUi media g, r)

/-! ## `main`, build without GUI -/

def nothingToBoot : Outcome := .panic 11

/-- From the label `boot` on: `boot_selection` is called with what `sbc` points to. -/
def bootSbc : Option ConfPtr → Outcome
  | some (fs, i) => .boot fs i false
  | none => nothingToBoot

/-- The code from the label `try_conf0` on; `retry` is what the jump back to it does. -/
def tryConf0 (media : Media) (retry : Option ConfPtr → Globals → Outcome) (bootsel : Nat)
    (sbc : Option ConfPtr) (g : Globals) : Outcome :=
  if sbc.isNone then
    let g := mmcTryLoad media g (bit 2)
    let sbc := confAt g.emmc bootsel
    if ConfPtr.valid sbc then bootSbc sbc
    else
      let g := mmcTryLoad media g (bit 0)
      let sbc := confAt g.sd bootsel
      if ConfPtr.valid sbc then bootSbc sbc
      else if bootsel = 1 then retry sbc g
      else nothingToBoot
  else bootSbc sbc

/-- `try_conf0` with the one jump back, which sets `bootsel` to 0. -/
def tryConf (media : Media) (bootsel : Nat) (sbc : Option ConfPtr) (g : Globals) : Outcome :=
  tryConf0 media (tryConf0 media (fun _ _ => nothingToBoot) 0) bootsel sbc g

/-- `main` without `ENABLE_GUI`. -/
def mainNoGui (media : Media) (key : Key) (g : Globals) (r : Rtc) : Outcome × Rtc :=
  match key with
  | .volumeUp =>
    let g := mmcTryLoad media g (bit 0)
    let sbc := confAt g.sd 0
    if ConfPtr.valid sbc then (bootSbc sbc, r) else (nothingToBoot, r)
  | .volumeDown => (tryConf media 1 none g, r)
  | .none =>
    let (s, g, r) := bootfsSelectConfiguration media g r
    match s.sel with
    | some sbc => (tryConf media s.opt.toNat (some sbc) g, r)
    | none =>
      match rebootTo s.opt r with
      | some r => (.reset, r)
      | none => (tryConf media 0 none g, r)

/-! ## The 32-bit preamble -/

inductive Start where
  /-- Jump to 0x20, FEL. -/
  | fel
  /-- Jump to 0x2f54, the boot ROM loads from eMMC. -/
  | emmcLoader
  /-- Go on to the 64-bit program. -/
  | pboot
  deriving DecidableEq, Repr

/-- `main` of the preamble. -/
def start32 (r : Rtc) : Start × Rtc :=
  if r.oneTime = felRequest then (.fel, { r with oneTime := 0 })
  else if r.oneTime = emmcRequest then (.emmcLoader, { r with oneTime := 0 })
  else (.pboot, r)

/-! ## Opening each medium once -/

/-- What is loaded is what was tried. -/
structure Globals.Loaded (media : Media) (g : Globals) : Prop where
  sd : g.mmcTried.getLsbD 0 = true → g.sd = media.sd
  emmc : g.mmcTried.getLsbD 2 = true → g.emmc = media.emmc

theorem Globals.loaded_init (media : Media) (src : Nat) (vbus : Bool) :
    (Globals.init src vbus).Loaded media :=
  ⟨fun h => by simp [Globals.init] at h, fun h => by simp [Globals.init] at h⟩

theorem bit_and_not_tried {n : Nat} (hn : n < 32) (mask tried : BitVec 32) :
    (mask &&& bit n &&& ~~~tried != 0#32) = (mask.getLsbD n && !tried.getLsbD n) := by
  rcases hb : mask.getLsbD n && !tried.getLsbD n with _ | _
  · rw [bne_eq_false_iff_eq]
    apply BitVec.eq_of_getLsbD_eq
    intro i hi
    rw [BitVec.getLsbD_and, BitVec.getLsbD_and, getLsbD_bit n i hn, BitVec.getLsbD_not,
      BitVec.getLsbD_zero]
    by_cases hin : i = n
    · subst hin
      simp only [Bool.and_eq_false_iff, Bool.not_eq_false'] at hb
      rcases hb with hb | hb <;> simp [hb]
    · simp [hin]
  · rw [bne_iff_ne]
    intro h0
    have := congrArg (·.getLsbD n) h0
    simp only [Bool.and_eq_true, Bool.not_eq_true'] at hb
    simp only [BitVec.getLsbD_and, BitVec.getLsbD_not, getLsbD_bit n n hn, hb.1, hb.2, hn,
      BitVec.getLsbD_zero] at this
    cases this

section
variable {media : Media} {g : Globals}

/-- What one call of `mmc_try_load` does to each field. -/
theorem mmcTryLoad_eq (media : Media) (g : Globals) (mask : BitVec 32) :
    mmcTryLoad media g mask =
      { g with
        sd := if mask.getLsbD 0 && !g.mmcTried.getLsbD 0 then media.sd else g.sd
        emmc := if mask.getLsbD 2 && !g.mmcTried.getLsbD 2 then media.emmc else g.emmc
        mmcTried := g.mmcTried ||| mask } := by
  unfold mmcTryLoad
  dsimp only
  simp only [bit_and_not_tried (show 0 < 32 by decide)]
  rcases mask.getLsbD 0 && !g.mmcTried.getLsbD 0 with _ | _
  · simp only [Bool.false_eq_true, ↓reduceIte, bit_and_not_tried (show 2 < 32 by decide)]
    split <;> rfl
  · simp only [↓reduceIte, bit_and_not_tried (show 2 < 32 by decide)]
    split <;> rfl

theorem mmcTryLoad_sd (h : g.Loaded media) (mask : BitVec 32) (hm : mask.getLsbD 0 = true) :
    (mmcTryLoad media g mask).sd = media.sd := by
  rw [mmcTryLoad_eq, hm]
  rcases ht : g.mmcTried.getLsbD 0 with _ | _
  · rfl
  · exact h.sd ht

theorem mmcTryLoad_emmc (h : g.Loaded media) (mask : BitVec 32) (hm : mask.getLsbD 2 = true) :
    (mmcTryLoad media g mask).emmc = media.emmc := by
  rw [mmcTryLoad_eq, hm]
  rcases ht : g.mmcTried.getLsbD 2 with _ | _
  · rfl
  · exact h.emmc ht

/-- Loading keeps what is loaded in step with what was tried. -/
theorem mmcTryLoad_loaded (h : g.Loaded media) (mask : BitVec 32) :
    (mmcTryLoad media g mask).Loaded media := by
  rw [mmcTryLoad_eq]
  refine ⟨fun ht => ?_, fun ht => ?_⟩
  · rw [BitVec.getLsbD_or] at ht
    rcases h0 : g.mmcTried.getLsbD 0 with _ | _
    · rw [h0, Bool.false_or] at ht
      simp [ht]
    · simp [h.sd h0]
  · rw [BitVec.getLsbD_or] at ht
    rcases h2 : g.mmcTried.getLsbD 2 with _ | _
    · rw [h2, Bool.false_or] at ht
      simp [ht]
    · simp [h.emmc h2]

end

end PBoot
