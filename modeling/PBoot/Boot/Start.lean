import PBoot.Boot.Main

/-!
# One boot

`bootOnce` is what runs after a reset: the 32-bit preamble, then one of the two builds of `main`.
-/

namespace PBoot

open Bytes

inductive Build where
  | gui | noGui
  deriving DecidableEq, Repr

/-- What a boot finds. -/
structure BootInput where
  build : Build
  key : Key
  /-- The PMIC reports a power-up by VBUS. -/
  vbus : Bool
  bootSource : Nat
  media : Media
  mem : Mem

def BootInput.globals (i : BootInput) : Globals := .init i.bootSource i.vbus

/-- `main` of the build that is installed. -/
def BootInput.main (i : BootInput) (r : Rtc) : Outcome × Rtc :=
  match i.build with
  | .gui => mainGui i.media i.key i.globals r i.mem
  | .noGui => mainNoGui i.media i.key i.globals r

inductive BootEnd where
  | fel
  | emmcLoader
  | main (o : Outcome)

/-- The preamble and, if it returns, `main`. -/
def bootOnce (i : BootInput) (r : Rtc) : BootEnd × Rtc :=
  match start32 r with
  | (.fel, r) => (.fel, r)
  | (.emmcLoader, r) => (.emmcLoader, r)
  | (.pboot, r) =>
    let (o, r) := i.main r
    (.main o, r)

end PBoot
