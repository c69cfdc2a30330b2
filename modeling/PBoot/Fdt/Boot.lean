import PBoot.Boot.Mac
import PBoot.Boot.Prepare
import PBoot.Fdt.Write

/-!
# The device tree of a boot (`main.c`)

What `boot_prepare`, `boot_selection` and `boot_finalize` do to the device tree between its load and
the jump to ATF. `bootSelectionFdt` is all of it in order.
-/

namespace PBoot

open Bytes Progs

/-! ## `boot_prepare` -/

/-- The end of `boot_prepare`. -/
def bootPrepareFdt (fdt : Nat) : FdtM Unit := do
  fdtIncreaseSize fdt (1024 * 256)
  let _ ← fdtFindOrAddSubnode fdt 0 (ascii "chosen")

/-! ## `boot_selection` -/

/-- The size of the framebuffer. -/
def framebufferSize : Nat := 1440 * 720 * 4

/-- `fdt_setup_framebuffer`. -/
def fdtSetupFramebuffer (fdt fbAddr : Nat) : FdtM Unit := do
  let chosenOff ← fdtFindOrAddSubnode fdt 0 (ascii "chosen")
  fdtSetprop fdt chosenOff (ascii "p-boot,framebuffer") (be32 fbAddr ++ be32 framebufferSize)
  fdtSetpropU32 fdt chosenOff (ascii "p-boot,framebuffer-start") fbAddr
  fdtAddMemRsv fdt fbAddr framebufferSize

/-- `if (splash_fb) fdt_setup_framebuffer(boot, splash_fb);` -/
def setupSplash (fdt splashFb : Nat) : FdtM Unit :=
  if splashFb = 0 then pure ()
  else do
    let _ ← attempt (fdtSetupFramebuffer fdt splashFb)

/-- `int node = fdt_path_offset(fdt, path); if (node >= 0) f(fdt, node);` -/
def atPath (fdt : Nat) (path : List UInt8) (f : Nat → FdtM Unit) : FdtM Unit := do
  match ← attempt (reads fun m => fdtPathOffset m fdt path) with
  | .ok node => do
    let _ ← attempt (f node)
  | .error _ => pure ()

/-- `fdt_path_disable`. -/
def fdtPathDisable (fdt : Nat) (path : List UInt8) : FdtM Unit :=
  atPath fdt path fun node => fdtSetprop fdt node (ascii "status") (ascii "disabled" ++ [0])

/-- The ADC, whose TS pin p-boot has configured. -/
def adcPath : List UInt8 := ascii "/soc/rsb@1f03400/pmic@3a3/adc"

/-- The driver of the modem's power. -/
def modemPath : List UInt8 := ascii "/soc/serial@1c28c00/modem"

/-- The modem's regulator. -/
def vbatPath : List UInt8 := ascii "/vbat-bb"

/-- `priv_nodes`. -/
def privNodes : List (List UInt8) :=
  [ascii "/soc/mmc@1c10000", ascii "/sound", ascii "/soc/serial@1c28400", ascii "/soc/i2c@1c2b000",
    ascii "/i2c-csi", ascii "/soc/csi@1cb0000"]

/-- The privacy branch. -/
def fdtPrivacy (fdt : Nat) : FdtM Unit := do
  each (fdtPathDisable fdt) privNodes
  atPath fdt modemPath fun node => fdtSetpropU32 fdt node (ascii "blocked") 1

/-- The branch of distributions with eg25-manager. -/
def fdtModemManager (fdt : Nat) : FdtM Unit := do
  atPath fdt modemPath (fdtDelNode fdt)
  atPath fdt vbatPath fun node => fdtSetprop fdt node (ascii "regulator-always-on") []

/-- The edits of `boot_selection`; `privacy` is `rtc_get_flag(BIT(0))`. -/
def fdtSelectionEdits (fdt : Nat) (privacy : Bool) (bootargs : List UInt8) : FdtM Unit := do
  atPath fdt adcPath fun node => fdtDelprop fdt node (ascii "x-powers,ts-as-gpadc")
  if privacy then fdtPrivacy fdt
  else if (strstr bootargs (ascii "eg25-manager")).isSome then fdtModemManager fdt
  else pure ()

/-! ## `boot_finalize` -/

/-- The path of a node, unless its `status` is "disabled". -/
def pathIfEnabled (m : Mem) (fdt path : Nat) : Except FdtError Nat → Option Nat
  | .ok o => if isStr m (propData m fdt o) (ascii "disabled") then none else some path
  | .error _ => some path

/-- `fdt_get_alias_node`: where the path is; `some none` is `NULL`. -/
def fdtGetAliasNode (m : Mem) (fdt : Nat) (aliasName : List UInt8) : Option (Option Nat) :=
  (fdtGetAlias m fdt aliasName).bind fun
    | none => some none
    | some path => (strAt m path).bind fun s => (fdtPathOffset m fdt s).bind fun
      | .error _ => some none
      | .ok node => (fdtGetProperty m fdt node (ascii "status")).map (pathIfEnabled m fdt path)

/-- `fdt_find_and_setprop` with a path that is read from memory. -/
def findAndSetpropAt (fdt path : Nat) (prop val : List UInt8) (create : Bool) : FdtM Unit := do
  let node ← reads fun m => (strAt m path).map .ok
  fdtFindAndSetprop fdt node prop val create

/-- `fdt_fixup_wifi`. -/
def fdtFixupWifi (fdt : Nat) (sid : Sid) : FdtM Unit := do
  match ← reads fun m => (fdtGetAliasNode m fdt (ascii "ethernet0")).map .ok with
  | none => pure ()
  | some path =>
    match (getMacAddress sid 0).1 with
    | none => pure ()
    | some mac => do
      let macAddr := mac.map UInt8.ofBitVec
      let _ ← attempt (findAndSetpropAt fdt path (ascii "mac-address") macAddr false)
      let _ ← attempt (findAndSetpropAt fdt path (ascii "local-mac-address") macAddr true)

/-- The properties that `fdt_add_pboot_data` was built to set, `PBOOT_FDT_CONFIGS` and
`PBOOT_FDT_LOG`. -/
structure PbootData where
  configs : Option (List UInt8)
  log : Option (List UInt8)

/-- `fdt_setprop` whose error nobody looks at, of a value that is there. -/
def setpropIfSome (fdt node : Nat) (name : List UInt8) : Option (List UInt8) → FdtM Unit
  | some val => do
    let _ ← attempt (fdtSetprop fdt node name val)
  | none => pure ()

/-- `fdt_add_pboot_data`. -/
def fdtAddPbootData (fdt : Nat) (d : PbootData) : FdtM Unit := do
  match ← attempt (fdtFindOrAddSubnode fdt 0 (ascii "p-boot")) with
  | .ok pbootOff => do
    setpropIfSome fdt pbootOff (ascii "configs") d.configs
    setpropIfSome fdt pbootOff (ascii "log") d.log
  | .error _ => pure ()

/-- What the device tree is made from. -/
structure BootSetup where
  /-- `splash_fb`. -/
  splashFb : Nat
  privacy : Bool
  bootargs : List UInt8
  sid : Sid
  pboot : PbootData
  dramSize : Nat
  /-- Where the initramfs starts and ends. -/
  initrd : Option (Nat × Nat)

/-- The initramfs, if there is one. -/
def initrdIfSome (fdt : Nat) : Option (Nat × Nat) → FdtM Unit
  | some (initramfsStart, initramfsEnd) => fdtInitrd fdt initramfsStart initramfsEnd
  | none => pure ()

/-- The property `bootargs` of `/chosen`. -/
def setBootargs (fdt : Nat) (bootargs : List UInt8) : FdtM Unit := do
  let chosenOff ← fdtFindOrAddSubnode fdt 0 (ascii "chosen")
  fdtSetprop fdt chosenOff (ascii "bootargs") (bootargs ++ [0])

/-- `boot_finalize`. -/
def bootFinalize (fdt : Nat) (b : BootSetup) : FdtM Unit := do
  fdtFixupWifi fdt b.sid
  fdtAddPbootData fdt b.pboot
  setBootargs fdt b.bootargs
  fdtFixupMemory fdt 0x40000000 b.dramSize
  initrdIfSome fdt b.initrd
  let _ ← fdtShrinkToMinimum fdt 0

/-- All that is done to the device tree. -/
def bootSelectionFdt (fdt : Nat) (b : BootSetup) : FdtM Unit := do
  bootPrepareFdt fdt
  setupSplash fdt b.splashFb
  fdtSelectionEdits fdt b.privacy b.bootargs
  bootFinalize fdt b

/-! ## The configuration that is booted -/

end PBoot
