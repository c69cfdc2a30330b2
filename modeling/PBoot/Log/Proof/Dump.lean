import PBoot.Log.Dump

/-!
# Which registers a dump reads

The loop tests `start` against `start + len` of the current `start`, so that it goes on until that
sum wraps.

* `ends_dump`: it ends after reading up to `len` below the end of the address space.
* `dumpLaw_iff`: these are the `len / 4` registers it was asked for exactly when there are none, or
  when as many again are left behind them.
* `dump_overruns`: no dump of the program is such.
-/

namespace PBoot

open Bytes Runs

/-- The registers of a range: `start`, `start + 4` and so on. -/
def registers (start : BitVec 32) (n : Nat) : List (BitVec 32) :=
  (List.range n).map fun i => start + BitVec.ofNat 32 (4 * i)

/-- The dump ends, and has read the registers of its range, each once and in order. -/
def DumpLaw (readl : List (BitVec 32) → BitVec 32 → BitVec 32) (start len : BitVec 32)
    (name : List UInt8) : Prop :=
  ∃ log, Ends (dumpStep readl len) (dumpInit start len name)
    (registers start (len.toNat / 4), log)

/-- A range of registers. -/
structure DumpRange (start len : BitVec 32) : Prop where
  aligned : start.toNat % 4 = 0 ∧ len.toNat % 4 = 0
  fits : start.toNat + len.toNat ≤ 2 ^ 32

section
variable {readl : List (BitVec 32) → BitVec 32 → BitVec 32} {start len : BitVec 32}

theorem registers_succ (start : BitVec 32) (n : Nat) :
    registers start (n + 1) = start :: registers (start + 4) n := by
  rw [registers, registers, List.range_succ_eq_map, List.map_cons, List.map_map]
  congr 1
  · simp
  · refine List.map_congr_left fun i _ => ?_
    rw [Function.comp_apply, Nat.mul_succ, BitVec.ofNat_add, BitVec.add_assoc,
      BitVec.add_comm (BitVec.ofNat 32 (4 * i))]
    rfl

/-- **The loop goes on until the sum wraps.** -/
theorem ends_dump {n : Nat} (hlen : 0 < len.toNat) {s : DumpState}
    (h : s.start.toNat + len.toNat + 4 * n = 2 ^ 32) :
    ∃ log, Ends (dumpStep readl len) s (s.reads ++ registers s.start n, log) := by
  induction n generalizing s with
  | zero =>
    refine ⟨s.log, .stop ?_⟩
    have hwrap : ¬ s.start < s.start + len := by
      rw [BitVec.lt_def, BitVec.toNat_add]
      omega
    rw [dumpStep, if_neg hwrap]
    simp [registers]
  | succ n ih =>
    have hgo : s.start < s.start + len := by
      rw [BitVec.lt_def, BitVec.toNat_add]
      omega
    obtain ⟨s', hstep, hstart, hreads⟩ : ∃ s', dumpStep readl len s = .inl s' ∧
        s'.start = s.start + 4 ∧ s'.reads = s.reads ++ [s.start] :=
      ⟨_, if_pos hgo, rfl, rfl⟩
    have hnext : s'.start.toNat = s.start.toNat + 4 := by
      have h4 : (4 : BitVec 32).toNat = 4 := rfl
      rw [hstart, BitVec.toNat_add, h4]
      omega
    obtain ⟨log, hlog⟩ := @ih s' (by omega)
    refine ⟨log, .next hstep ?_⟩
    rw [registers_succ, ← hstart, List.append_cons, ← hreads]
    exact hlog

theorem ends_dump_zero {s : DumpState} : Ends (dumpStep readl 0) s (s.reads, s.log) := by
  refine .stop ?_
  have hno : ¬ s.start < s.start + 0 := by simp
  rw [dumpStep, if_neg hno]

theorem length_registers (start : BitVec 32) (n : Nat) : (registers start n).length = n := by
  simp [registers]

/-- The registers that a dump reads. -/
theorem DumpRange.ends (h : DumpRange start len) (name : List UInt8) (hlen : 0 < len.toNat) :
    ∃ log, Ends (dumpStep readl len) (dumpInit start len name)
      (registers start ((2 ^ 32 - start.toNat - len.toNat) / 4), log) := by
  obtain ⟨⟨hs, hl⟩, hfits⟩ := h
  exact @ends_dump readl len ((2 ^ 32 - start.toNat - len.toNat) / 4) hlen (dumpInit start len name)
    (show start.toNat + len.toNat + _ = _ by omega)

/-- A dump of some registers reads just these where as many again are behind them. -/
theorem DumpRange.law_iff (h : DumpRange start len) (name : List UInt8) (hpos : 0 < len.toNat) :
    DumpLaw readl start len name ↔ start.toNat + 2 * len.toNat = 2 ^ 32 := by
  obtain ⟨log, hends⟩ := @DumpRange.ends readl _ _ h name hpos
  obtain ⟨⟨hs, hl⟩, hfits⟩ := h
  constructor
  · rintro ⟨log', hends'⟩
    have heq := congrArg Prod.fst (hends.unique hends')
    have hlen := congrArg List.length heq
    rw [length_registers, length_registers] at hlen
    omega
  · intro hroom
    have hn : (2 ^ 32 - start.toNat - len.toNat) / 4 = len.toNat / 4 := by omega
    exact ⟨log, hn ▸ hends⟩

/-- **The registers are those asked for** exactly where there are none, or as many again behind
them in the address space. -/
theorem dumpLaw_iff (name : List UInt8) (h : DumpRange start len) :
    DumpLaw readl start len name ↔ len = 0 ∨ start.toNat + 2 * len.toNat = 2 ^ 32 := by
  rcases Nat.eq_zero_or_pos len.toNat with h0 | hpos
  · obtain rfl : len = 0 := BitVec.eq_of_toNat_eq h0
    exact ⟨fun _ => .inl rfl, fun _ => ⟨dumpTitle start 0 name, ends_dump_zero⟩⟩
  · have hne : len ≠ 0 := fun h0 => hpos.ne' (by rw [h0]; rfl)
    rw [h.law_iff name hpos, or_iff_right hne]

end

/-- The last registers but two of the address space. -/
theorem dumpLaw_last : DumpLaw (fun _ _ => 0) 0xfffffff0 8 [] ↔
    (8 : BitVec 32) = 0 ∨ (0xfffffff0 : BitVec 32).toNat + 2 * (8 : BitVec 32).toNat = 2 ^ 32 :=
  dumpLaw_iff [] ⟨by decide, by decide⟩

/-- The registers of the D-PHY are overrun. -/
theorem dumpLaw_dphy : DumpRange 0x01ca1000 0x100 ∧
    ¬ DumpLaw (fun _ _ => 0) 0x01ca1000 0x100 (ascii "dphy") := by
  have h : DumpRange 0x01ca1000 0x100 := ⟨by decide, by decide⟩
  exact ⟨h, fun hlaw => absurd ((h.law_iff _ (by decide)).1 hlaw) (by decide)⟩

/-- **No dump of the program** reads just its registers. -/
theorem dump_overruns (readl : List (BitVec 32) → BitVec 32 → BitVec 32) :
    ∀ call ∈ dumpDe2Registers ++ dumpDsiRegisters ++ dumpCcuRegisters,
      ¬ DumpLaw readl call.start call.len call.name := by
  have hall : ∀ call ∈ dumpDe2Registers ++ dumpDsiRegisters ++ dumpCcuRegisters,
      (call.start.toNat % 4 = 0 ∧ call.len.toNat % 4 = 0) ∧ 0 < call.len.toNat ∧
        call.start.toNat + 2 * call.len.toNat < 2 ^ 32 := by decide
  intro call hcall hlaw
  obtain ⟨haligned, hpos, hroom⟩ := hall call hcall
  have h : DumpRange call.start call.len := ⟨haligned, by omega⟩
  have := (h.law_iff _ hpos).1 hlaw
  omega

end PBoot
