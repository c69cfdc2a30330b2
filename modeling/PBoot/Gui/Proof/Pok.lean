import PBoot.Gui.Events
import PBoot.Lib.Run

/-!
# The power key

* `readsOnly_iff`: a call reports and acknowledges what it read, exactly when no read fails.
* `pokInv_step`: in an interleaving, every flag that was raised is still to be read or
  was reported once.
* `pokReported`: so flags are neither lost nor doubled.
-/

namespace PBoot

open Runs

/-! ## Flags -/

inductive PokFlag where
  | short | long | down
  deriving DecidableEq, Repr

/-- The bit of the flag in its register. -/
def PokFlag.bit : PokFlag → Nat
  | .short => 4
  | .long => 3
  | .down => 5

/-- The event of the flag. -/
def PokFlag.inEvents : PokFlag → Events → Bool
  | .short, e => e.pokShort
  | .long, e => e.pokLong
  | .down, e => e.pokDown

theorem PokFlag.inEvents_pok (b : PokFlag) (e : Events) (f : BitVec 32) :
    b.inEvents (e.pok f) = (b.inEvents e || f.getLsbD b.bit) := by
  cases b <;> rfl

theorem PokFlag.inEvents_none (b : PokFlag) (frameDone : Bool) :
    b.inEvents { Events.none with vblank := frameDone } = false := by
  cases b <;> rfl

/-! ## Values -/

theorem PmicResult.unsigned_byte (b : BitVec 8) : (PmicResult.byte b).unsigned = b.setWidth 32 := by
  unfold PmicResult.unsigned PmicResult.val
  dsimp only
  rw [BitVec.ofInt_natCast, BitVec.ofNat_toNat]

/-- An error is not taken for "no flags". -/
theorem PmicResult.unsigned_error (e : Fin 0x80000000) : (PmicResult.error e).unsigned ≠ 0 := by
  intro h
  have hn := congrArg BitVec.toNat h
  unfold PmicResult.unsigned PmicResult.val at hn
  rw [BitVec.toNat_ofInt] at hn
  have := e.isLt
  simp only [BitVec.ofNat_eq_ofNat, BitVec.toNat_ofNat] at hn
  omega

theorem getLsbD_byte (b : BitVec 8) (flag : PokFlag) :
    (PmicResult.byte b).unsigned.getLsbD flag.bit = b.getLsbD flag.bit := by
  rw [PmicResult.unsigned_byte, BitVec.getLsbD_setWidth]
  cases flag <;> rfl

theorem setWidth_byte (b : BitVec 8) : (PmicResult.byte b).unsigned.setWidth 8 = b := by
  rw [PmicResult.unsigned_byte, BitVec.setWidth_setWidth_of_le b (by decide), BitVec.setWidth_eq]

/-! ## One call -/

section
variable {read : Nat → PmicResult} {b : PokFlag} {e : Events}

theorem inEvents_flagRound (b : PokFlag) (e : Events) (i : Nat) (f : BitVec 32) :
    b.inEvents (flagRound e i f).1 = (b.inEvents e || (decide (i = pokReg) && f.getLsbD b.bit)) := by
  unfold flagRound
  split
  · rename_i h
    rw [h, BitVec.ofNat_eq_ofNat, BitVec.getLsbD_zero, Bool.and_false, Bool.or_false]
  · dsimp only
    split
    · rename_i hi
      rw [PokFlag.inEvents_pok, decide_eq_true hi, Bool.true_and]
    · rename_i hi
      rw [decide_eq_false hi, Bool.false_and, Bool.or_false]

theorem flagRound_snd (e : Events) (i : Nat) (f : BitVec 32) :
    (flagRound e i f).2 = if f = 0 then none else some (f.setWidth 8) := by
  unfold flagRound
  split <;> rfl

/-- The events of the loop over the registers. -/
theorem inEvents_clearFlags (is : List Nat) (e : Events) :
    b.inEvents (clearFlags read is e).1 =
      (b.inEvents e || (decide (pokReg ∈ is) && (read pokReg).unsigned.getLsbD b.bit)) := by
  induction is generalizing e with
  | nil =>
    show b.inEvents e = _
    simp
  | cons i is ih =>
    show b.inEvents (clearFlags read is (flagRound e i (read i).unsigned).1).1 = _
    rw [ih, inEvents_flagRound]
    by_cases hi : i = pokReg
    · subst hi
      rw [decide_eq_true rfl, decide_eq_true List.mem_cons_self, Bool.true_and, Bool.or_assoc]
      cases (read pokReg).unsigned.getLsbD b.bit with
      | false => rw [Bool.and_false, Bool.or_false]
      | true => rfl
    · have hmem : pokReg ∈ i :: is ↔ pokReg ∈ is := by
        rw [List.mem_cons, or_iff_right (Ne.symm hi)]
      simp [hi, hmem]

/-- The writes of the loop over the registers. -/
theorem mem_clearFlags (is : List Nat) (e : Events) (i : Nat) (v : BitVec 8) :
    (i, v) ∈ (clearFlags read is e).2 ↔
      i ∈ is ∧ (read i).unsigned ≠ 0 ∧ v = (read i).unsigned.setWidth 8 := by
  induction is generalizing e with
  | nil => exact ⟨fun h => (nomatch h), fun h => (nomatch h.1)⟩
  | cons j is ih =>
    show (i, v) ∈ ((flagRound e j (read j).unsigned).2.map (j, ·)).toList ++
      (clearFlags read is (flagRound e j (read j).unsigned).1).2 ↔ _
    rw [List.mem_append, ih, flagRound_snd, List.mem_cons, or_and_right]
    refine or_congr ?_ Iff.rfl
    split
    · rename_i h0
      refine ⟨fun h => (nomatch h), fun ⟨hij, hne, _⟩ => ?_⟩
      rw [hij] at hne
      exact absurd h0 hne
    · rename_i hne
      rw [Option.map_some, Option.toList_some, List.mem_singleton, Prod.mk.injEq]
      refine ⟨fun ⟨hij, hv⟩ => ?_, fun ⟨hij, _, hv⟩ => ?_⟩
      · subst hij
        exact ⟨rfl, hne, hv⟩
      · subst hij
        exact ⟨rfl, hv⟩

theorem inEvents_volume (b : PokFlag) (e : Events) (key : Key) :
    b.inEvents (e.volume key) = b.inEvents e := by
  cases b <;> cases key <;> rfl

/-- The volume keys do not touch the power key's events. -/
theorem inEvents_keys (b : PokFlag) (g : Gui) (i : GuiInput) :
    b.inEvents (g.keys i).events = b.inEvents g.events := by
  have hdebounce : (g.debounce i).events = g.events := by
    unfold Gui.debounce
    split <;> rfl
  have hrearm : ∀ g : Gui, (g.rearm i.now).events = g.events := fun g => by
    unfold Gui.rearm
    split <;> rfl
  unfold Gui.keys
  dsimp only
  split
  · dsimp only
    rw [inEvents_volume, hrearm, hdebounce]
  · rw [hdebounce]

end

/-- A call reports and acknowledges only flags that it read. -/
structure ReadsOnly (g : Gui) (i : GuiInput) : Prop where
  events : ∀ b : PokFlag, b.inEvents (guiGetEvents g i).1.events = true →
    ∃ v, i.pmic pokReg = .byte v ∧ v.getLsbD b.bit = true
  acks : ∀ a ∈ (guiGetEvents g i).2, i.pmic a.1 = .byte a.2

/-- What is written back. -/
theorem guiGetEvents_acks (g : Gui) (i : GuiInput) : (guiGetEvents g i).2 = if i.pending then
    (clearFlags i.pmic pmicRegs { Events.none with vblank := i.frameDone }).2 else [] := by
  unfold guiGetEvents
  dsimp only
  split <;> rfl

/-- What is reported of the button. -/
theorem inEvents_guiGetEvents (g : Gui) (i : GuiInput) (b : PokFlag) :
    b.inEvents (guiGetEvents g i).1.events =
      (i.pending && (i.pmic pokReg).unsigned.getLsbD b.bit) := by
  unfold guiGetEvents
  dsimp only
  rw [inEvents_keys]
  cases i.pending with
  | false => exact b.inEvents_none _
  | true =>
    show b.inEvents (clearFlags i.pmic pmicRegs _).1 = _
    rw [inEvents_clearFlags, PokFlag.inEvents_none]
    rfl

/-- **A call reports what it read**, exactly when it is not interrupted or no read fails. -/
theorem readsOnly_iff (g : Gui) (i : GuiInput) :
    ReadsOnly g i ↔ (i.pending = true → ∀ r ∈ pmicRegs, ∃ v, i.pmic r = .byte v) := by
  constructor
  · intro h hp r hr
    cases hres : i.pmic r with
    | byte v => exact ⟨v, rfl⟩
    | error e =>
      -- the error is written back
      have hmem : (r, (i.pmic r).unsigned.setWidth 8) ∈ (guiGetEvents g i).2 := by
        rw [guiGetEvents_acks, if_pos hp, mem_clearFlags, hres]
        exact ⟨hr, PmicResult.unsigned_error e, rfl⟩
      have hbyte := h.acks _ hmem
      rw [hres] at hbyte
      cases hbyte
  · intro h
    refine ⟨fun b hb => ?_, fun a ha => ?_⟩
    · rw [inEvents_guiGetEvents, Bool.and_eq_true] at hb
      obtain ⟨v, hv⟩ := h hb.1 pokReg (by decide)
      refine ⟨v, hv, ?_⟩
      rw [hv, getLsbD_byte] at hb
      exact hb.2
    · rw [guiGetEvents_acks] at ha
      split at ha
      · rename_i hp
        obtain ⟨hr, -, hv⟩ := (mem_clearFlags _ _ _ _).1 ha
        obtain ⟨v, hbyte⟩ := h hp _ hr
        rw [hbyte, setWidth_byte] at hv
        rw [hbyte, hv]
      · cases ha

/-- On a bus that times out a short press is reported, and garbage is acknowledged. -/
def timedOut : GuiInput :=
  { now := 0, frameDone := false, pending := true, pmic := fun _ => .error 109, key := .none
    timer := 0 }

theorem readsOnly_timedOut : ¬ ReadsOnly (.init 0 .none) timedOut := by
  intro h
  obtain ⟨v, hv, -⟩ := h.events .short (by decide)
  cases hv

/-! ## Any interleaving -/

section
variable {irq : (Nat → BitVec 8) → Bool} {b : PokFlag} {s : PokState}

/-- The flag is set in the PMIC. -/
def PokFlag.isSet (b : PokFlag) (s : PokState) : Bool := (s.regs pokReg).getLsbD b.bit

/-- The call that is under way, or the last one, reports the flag. -/
def PokFlag.isReported (b : PokFlag) (s : PokState) : Bool := b.inEvents s.events

/-- The flag was read and is about to be cleared. -/
def PokFlag.isTaken (b : PokFlag) (s : PokState) : Bool :=
  match s.pc with
  | .write i v => decide (i = pokReg) && v.getLsbD b.bit
  | _ => false

/-- The call has not read the register yet. -/
def PokPc.early : PokPc → Bool
  | .checkPending => true
  | .read i => decide (i ≤ pokReg)
  | .write i _ => decide (i < pokReg)
  | _ => false

/-- What is known between two accesses: what was not read is not reported, and what is about to be
cleared is set and reported. -/
structure PokInv (b : PokFlag) (s : PokState) : Prop where
  early : s.pc.early = true → b.isReported s = false
  taken : b.isTaken s = true → b.isSet s = true ∧ b.isReported s = true

/-- The flag is set and was not read. -/
def PokFlag.unread (b : PokFlag) (s : PokState) : Nat := if b.isSet s && !b.isTaken s then 1 else 0

theorem early_after {i : Nat} (h : (PokPc.after i).early = true) : i < pokReg := by
  unfold PokPc.after at h
  split at h
  · exact of_decide_eq_true h
  · cases h

theorem isTaken_after {i : Nat} (h : s.pc = .after i) : b.isTaken s = false := by
  unfold PokFlag.isTaken PokPc.after at *
  rw [h]
  by_cases hi : i < 0x4d
  · rw [if_pos hi]
  · rw [if_neg hi]

theorem isTaken_write {i : Nat} {v : BitVec 8} (h : s.pc = .write i v) :
    b.isTaken s = (decide (i = pokReg) && v.getLsbD b.bit) := by
  unfold PokFlag.isTaken
  rw [h]

theorem isSet_update (b : PokFlag) (s : PokState) (i : Nat) (v : BitVec 8) (pending : Bool)
    (pc : PokPc) : b.isSet { s with regs := Function.update s.regs i v, pending, pc } =
      if i = pokReg then v.getLsbD b.bit else b.isSet s := by
  unfold PokFlag.isSet
  dsimp only
  by_cases hi : i = pokReg
  · rw [hi, Function.update_self, if_pos rfl]
  · rw [Function.update_of_ne (Ne.symm hi), if_neg hi]

theorem isTaken_of_ne_write (h : ∀ i v, s.pc ≠ .write i v) : b.isTaken s = false := by
  unfold PokFlag.isTaken
  split
  · rename_i i v hpc
    exact absurd hpc (h i v)
  · rfl

/-! ### What one action does to a flag -/

theorem isSet_raise {i : Nat} {flags : BitVec 8} :
    b.isSet (pokStep irq s (.raise i flags)) =
      (b.isSet s || (decide (i = pokReg) && flags.getLsbD b.bit)) := by
  refine (isSet_update b s i _ _ s.pc).trans ?_
  split
  · rename_i hi
    rw [hi, BitVec.getLsbD_or, decide_eq_true rfl, Bool.true_and]
    rfl
  · rename_i hi
    rw [decide_eq_false hi, Bool.false_and, Bool.or_false]

section
variable {i : Nat} (hpc : s.pc = .read i) (frameDone : Bool)
include hpc

/-- A read is one round of the loop, with the value to clear in the next state. -/
theorem pokStep_read : pokStep irq s (.access frameDone) =
    { s with
      events := (flagRound s.events i (PmicResult.byte (s.regs i)).unsigned).1
      pc := match (flagRound s.events i (PmicResult.byte (s.regs i)).unsigned).2 with
        | none => .after i
        | some v => .write i v } := by
  unfold pokStep
  rw [hpc]
  dsimp only
  split <;> rename_i heq <;> rw [heq]

theorem isSet_read : b.isSet (pokStep irq s (.access frameDone)) = b.isSet s := by
  rw [pokStep_read hpc]
  rfl

/-- A read of the register reports the flag if it is set. -/
theorem isReported_read : b.isReported (pokStep irq s (.access frameDone)) =
    (b.isReported s || (decide (i = pokReg) && b.isSet s)) := by
  rw [pokStep_read hpc]
  refine (inEvents_flagRound b s.events i _).trans ?_
  rw [getLsbD_byte]
  by_cases hi : i = pokReg
  · subst hi
    rfl
  · rw [decide_eq_false hi, Bool.false_and, Bool.false_and]
    rfl

/-- The flag is cleared next if the read saw it. -/
theorem isTaken_read : b.isTaken (pokStep irq s (.access frameDone)) =
    (decide (i = pokReg) && b.isSet s) := by
  rw [pokStep_read hpc, flagRound_snd]
  by_cases hz : (PmicResult.byte (s.regs i)).unsigned = 0
  · -- no flag of the register is set
    rw [if_pos hz]
    refine (isTaken_after (i := i) rfl).trans ?_
    by_cases hi : i = pokReg
    · subst hi
      have hbit := getLsbD_byte (s.regs pokReg) b
      rw [hz, BitVec.ofNat_eq_ofNat, BitVec.getLsbD_zero] at hbit
      unfold PokFlag.isSet
      rw [← hbit, Bool.and_false]
    · rw [decide_eq_false hi, Bool.false_and]
  · rw [if_neg hz, setWidth_byte]
    refine (isTaken_write rfl).trans ?_
    by_cases hi : i = pokReg
    · subst hi
      rfl
    · rw [decide_eq_false hi, Bool.false_and, Bool.false_and]

theorem early_read (he : (pokStep irq s (.access frameDone)).pc.early = true) : i < pokReg := by
  rw [pokStep_read hpc] at he
  dsimp only at he
  split at he
  · exact early_after he
  · exact of_decide_eq_true he

end

section
variable {i : Nat} {v : BitVec 8} (hpc : s.pc = .write i v) (frameDone : Bool)
include hpc

theorem pokStep_write : pokStep irq s (.access frameDone) =
    { s with regs := Function.update s.regs i (s.regs i &&& ~~~v), pc := .after i } := by
  unfold pokStep
  rw [hpc]

/-- A write clears what was taken, and nothing else. -/
theorem isSet_write :
    b.isSet (pokStep irq s (.access frameDone)) = (b.isSet s && !b.isTaken s) := by
  rw [pokStep_write hpc]
  refine (isSet_update b s i _ _ _).trans ?_
  rw [isTaken_write hpc]
  split
  · rename_i hi
    subst hi
    rw [BitVec.getLsbD_and, BitVec.getLsbD_not, decide_eq_true rfl, Bool.true_and]
    cases b <;> rfl
  · rename_i hi
    rw [decide_eq_false hi, Bool.false_and, Bool.not_false, Bool.and_true]

theorem isReported_write :
    b.isReported (pokStep irq s (.access frameDone)) = b.isReported s := by
  rw [pokStep_write hpc]
  rfl

end

/-- An access that neither reads nor writes a register of the PMIC. -/
theorem rest_step (h : PokInv b s) (hr : ∀ i, s.pc ≠ .read i) (hw : ∀ i v, s.pc ≠ .write i v)
    (frameDone : Bool) :
    b.isSet (pokStep irq s (.access frameDone)) = b.isSet s ∧
      b.isTaken (pokStep irq s (.access frameDone)) = false ∧
      (b.isReported (pokStep irq s (.access frameDone)) = true → b.isReported s = true) ∧
      ((pokStep irq s (.access frameDone)).pc.early = true →
        b.isReported (pokStep irq s (.access frameDone)) = false) := by
  unfold pokStep
  cases hpc : s.pc with
  | read i => exact absurd hpc (hr i)
  | write i v => exact absurd hpc (hw i v)
  | idle =>
    have hrep := b.inEvents_none frameDone
    exact ⟨rfl, rfl, fun ht => absurd (hrep.symm.trans ht) Bool.false_ne_true, fun _ => hrep⟩
  | checkPending =>
    have hnew := h.early (by rw [hpc]; rfl)
    refine ⟨rfl, ?_, id, fun _ => hnew⟩
    unfold PokFlag.isTaken
    cases s.pending <;> rfl
  | clearPending => exact ⟨rfl, rfl, id, fun he => nomatch he⟩

/-! ### The invariant and the balance -/

/-- What a step leaves in balance: a flag that gets reported was unread, and one that gets set is. -/
def Balanced (b : PokFlag) (s s' : PokState) : Prop :=
  edge b.isReported s s' + b.unread s' = edge b.isSet s s' + b.unread s

theorem raise_step (h : PokInv b s) (i : Nat) (flags : BitVec 8) :
    PokInv b (pokStep irq s (.raise i flags)) ∧ Balanced b s (pokStep irq s (.raise i flags)) := by
  have hset := @isSet_raise irq b s i flags
  have hrep : b.isReported (pokStep irq s (.raise i flags)) = b.isReported s := rfl
  have htaken : b.isTaken (pokStep irq s (.raise i flags)) = b.isTaken s := rfl
  refine ⟨⟨h.early, fun ht => ?_⟩, ?_⟩
  · obtain ⟨h1, h2⟩ := h.taken ht
    exact ⟨by rw [hset, h1, Bool.true_or], h2⟩
  · have htk := h.taken
    unfold Balanced edge PokFlag.unread
    rw [hset, hrep, htaken]
    generalize b.isSet s = k, b.isTaken s = t, b.isReported s = r,
      (decide (i = pokReg) && flags.getLsbD b.bit) = x at htk ⊢
    revert k t r x
    decide

theorem read_step (h : PokInv b s) {i : Nat} (hpc : s.pc = .read i) (frameDone : Bool) :
    PokInv b (pokStep irq s (.access frameDone)) ∧
      Balanced b s (pokStep irq s (.access frameDone)) := by
  have hnot : b.isTaken s = false := isTaken_of_ne_write fun _ _ hw => nomatch hpc.symm.trans hw
  -- until its register is read the flag is not reported
  have hold : i ≤ pokReg → b.isReported s = false := fun hi => h.early (by
    rw [hpc]
    exact decide_eq_true hi)
  refine ⟨⟨fun he => ?_, fun ht => ?_⟩, ?_⟩
  · have hi := early_read hpc _ he
    rw [isReported_read hpc, hold (Nat.le_of_lt hi), decide_eq_false (Nat.ne_of_lt hi)]
    rfl
  · rw [isTaken_read hpc] at ht
    rw [isSet_read hpc, isReported_read hpc, ht, Bool.or_true]
    exact ⟨(Bool.and_eq_true_iff.1 ht).2, rfl⟩
  · unfold Balanced edge PokFlag.unread
    rw [isSet_read hpc, isReported_read hpc, isTaken_read hpc, hnot]
    by_cases hi : i = pokReg
    · rw [hold (Nat.le_of_eq hi), decide_eq_true hi]
      cases b.isSet s <;> rfl
    · rw [decide_eq_false hi]
      cases b.isSet s <;> cases b.isReported s <;> rfl

theorem write_step (h : PokInv b s) {i : Nat} {v : BitVec 8} (hpc : s.pc = .write i v)
    (frameDone : Bool) :
    PokInv b (pokStep irq s (.access frameDone)) ∧
      Balanced b s (pokStep irq s (.access frameDone)) := by
  have htaken : b.isTaken (pokStep irq s (.access frameDone)) = false := by
    rw [pokStep_write hpc]
    exact isTaken_after (i := i) rfl
  refine ⟨⟨fun he => ?_, fun ht => ?_⟩, ?_⟩
  · rw [pokStep_write hpc] at he
    rw [isReported_write hpc]
    refine h.early ?_
    rw [hpc]
    exact decide_eq_true (early_after he)
  · rw [htaken] at ht
    cases ht
  · unfold Balanced edge PokFlag.unread
    rw [isSet_write hpc, isReported_write hpc, htaken]
    generalize b.isSet s = k, b.isTaken s = t, b.isReported s = r
    revert k t r
    decide

theorem quiet_step (h : PokInv b s) (hr : ∀ i, s.pc ≠ .read i) (hw : ∀ i v, s.pc ≠ .write i v)
    (frameDone : Bool) :
    PokInv b (pokStep irq s (.access frameDone)) ∧
      Balanced b s (pokStep irq s (.access frameDone)) := by
  obtain ⟨hset, htaken, hrep, hearly⟩ := @rest_step irq _ _ h hr hw frameDone
  refine ⟨⟨hearly, fun ht => ?_⟩, ?_⟩
  · rw [htaken] at ht
    cases ht
  · unfold Balanced edge PokFlag.unread
    rw [hset, htaken, isTaken_of_ne_write hw]
    revert hrep
    generalize b.isReported s = r, b.isReported (pokStep irq s (.access frameDone)) = r',
      b.isSet s = k
    revert r r' k
    decide

/-- **Every action** keeps the invariant and the balance. -/
theorem pokInv_step (h : PokInv b s) (a : PokAction) :
    PokInv b (pokStep irq s a) ∧ Balanced b s (pokStep irq s a) := by
  cases a with
  | raise i flags => exact raise_step h i flags
  | access frameDone =>
    cases hpc : s.pc with
    | read i => exact read_step h hpc frameDone
    | write i v => exact write_step h hpc frameDone
    | idle | checkPending | clearPending =>
      exact quiet_step h (fun i => by rw [hpc]; nofun) (fun i v => by rw [hpc]; nofun) frameDone

/-- Only a write to the register clears the flag. -/
theorem cleared_step (h : PokInv b s) {a : PokAction} (hset : b.isSet s = true)
    (hclear : b.isSet (pokStep irq s a) = false) :
    (∃ frameDone v, a = .access frameDone ∧ s.pc = .write pokReg v) ∧ b.isReported s = true ∧
      b.isReported (pokStep irq s a) = true := by
  have hkept : b.isSet (pokStep irq s a) ≠ b.isSet s := by
    rw [hset, hclear]
    exact Bool.false_ne_true
  cases a with
  | raise i flags =>
    rw [isSet_raise, hset, Bool.true_or] at hclear
    cases hclear
  | access frameDone =>
    cases hpc : s.pc with
    | write i v =>
      have htaken : b.isTaken s = true := by
        rw [isSet_write hpc, hset, Bool.true_and] at hclear
        simpa using hclear
      have hi : i = pokReg := by
        rw [isTaken_write hpc] at htaken
        exact of_decide_eq_true (Bool.and_eq_true_iff.1 htaken).1
      have hrep := (h.taken htaken).2
      exact ⟨⟨frameDone, v, rfl, by rw [hi]⟩, hrep, (isReported_write hpc _).trans hrep⟩
    | read i => exact absurd (isSet_read hpc frameDone) hkept
    | idle | checkPending | clearPending =>
      refine absurd (rest_step h (fun i => ?_) (fun i v => ?_) frameDone).1 hkept <;>
      · rw [hpc]
        nofun

end

/-! ## Every run -/

/-- Between two calls, with any flags set. -/
def PokState.idle (regs : Nat → BitVec 8) (pending : Bool) (events : Events) : PokState :=
  { regs, pending, pc := .idle, events }

theorem pokInv_idle (regs : Nat → BitVec 8) (pending : Bool) (events : Events) (b : PokFlag) :
    PokInv b (.idle regs pending events) :=
  ⟨fun he => (nomatch he), fun ht => (nomatch ht)⟩

/-- The actions, taken one by one. -/
def pokRun (irq : (Nat → BitVec 8) → Bool) (s : PokState) (as : List PokAction) : PokState :=
  as.foldl (pokStep irq) s

/-- A flag is reported once. -/
structure ReportedOnce (irq : (Nat → BitVec 8) → Bool) (s : PokState) (b : PokFlag) : Prop where
  /-- An action that clears the flag is an access of a call that reports it. -/
  cleared : ∀ as a, b.isSet (pokRun irq s as) = true →
    b.isSet (pokStep irq (pokRun irq s as) a) = false →
    (∃ frameDone v, a = .access frameDone ∧ (pokRun irq s as).pc = .write pokReg v) ∧
      b.isReported (pokRun irq s as) = true ∧
      b.isReported (pokStep irq (pokRun irq s as) a) = true
  /-- There are no more reports than times that it was raised. -/
  count : ∀ as, rises (pokStep irq) b.isReported s as ≤
    rises (pokStep irq) b.isSet s as + if b.isSet s then 1 else 0

/-- **Every flag is reported once**, whenever the PMIC raises it. -/
theorem pokReported (irq : (Nat → BitVec 8) → Bool) (regs : Nat → BitVec 8) (pending : Bool)
    (events : Events) (b : PokFlag) : ReportedOnce irq (.idle regs pending events) b := by
  have h0 := pokInv_idle regs pending events b
  refine ⟨fun as a hset hclear => ?_, fun as => ?_⟩
  · have hinv : PokInv b (pokRun irq (.idle regs pending events) as) :=
      foldl_inv (P := PokInv b) (fun _ a h => (pokInv_step h a).1) h0 as
    exact cleared_step hinv hset hclear
  · have hbal : rises (pokStep irq) b.isReported (.idle regs pending events) as +
        b.unread (pokRun irq (.idle regs pending events) as) =
        rises (pokStep irq) b.isSet (.idle regs pending events) as +
          b.unread (.idle regs pending events) :=
      rises_balance (P := PokInv b) (fun _ a h => (pokInv_step h a).1)
        (fun _ a h => (pokInv_step h a).2) h0 as
    have hunread : b.unread (.idle regs pending events) =
        if b.isSet (.idle regs pending events) then 1 else 0 := by
      unfold PokFlag.unread
      rw [show b.isTaken (.idle regs pending events) = false by rfl, Bool.not_false, Bool.and_true]
    omega

end PBoot
