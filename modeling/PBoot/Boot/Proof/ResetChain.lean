import Mathlib.Logic.Relation
import PBoot.Boot.Proof.OneTime

/-!
# Resets between two boot loaders

p-boot is installed on SD and on eMMC. After a reset the boot ROM loads SD's boot sector, and
eMMC's when the preamble jumps to it; nobody presses a key.

* `step_main`: what one boot does to the chain.
* `ends_iff`: the chain of resets ends exactly when it does not go round between the instances.
* `chain_ends_iff`: the same for a chain that starts on SD, where the eMMC instance then never
  asks for the eMMC boot loader.
-/

namespace PBoot

open Bytes Runs Relation

/-- What is installed on the two media. -/
structure Installed where
  media : Media
  build : Medium → Build
  mem : Mem

/-- The boot loader that the boot ROM runs next, and what survives a reset: the RTC words, and the
power-up status that the PMIC latches until `main` reads it. -/
structure Chain where
  loader : Medium
  rtc : Rtc
  vbus : Bool

def bootSourceOf : Medium → Nat
  | .sd => bootedFromMmc0
  | .emmc => bootedFromMmc2

def Chain.input (b : Installed) (c : Chain) : BootInput :=
  { build := b.build c.loader, key := .none, vbus := c.vbus, bootSource := bootSourceOf c.loader
    media := b.media, mem := b.mem }

/-- One boot of the chain; it goes on when the board is reset or the eMMC boot loader is run. -/
def Chain.step (b : Installed) (c : Chain) : Chain ⊕ BootEnd :=
  match bootOnce (c.input b) c.rtc with
  | (.emmcLoader, r) => .inl { c with loader := .emmc, rtc := r }
  | (.main .reset, r) => .inl { loader := .sd, rtc := r, vbus := false }
  | (o, _) => .inr o

/-- The instance that runs `main` first. -/
def Chain.first (c : Chain) : Medium := if c.rtc.oneTime = emmcRequest then .emmc else c.loader

/-- The default is the eMMC boot loader, it is asked for now, and the first instance does not
show the menu. -/
def Endless (b : Installed) (c : Chain) : Prop :=
  rtcBootselGet c.rtc = bootselEmmc ∧
    (c.rtc.oneTime = emmcRequest ∨ rtcOption c.rtc = bootselEmmc) ∧
    ¬ (c.vbus = true ∧ b.build c.first = .gui)

/-- `main` asks for the eMMC boot loader and resets. -/
def RequestsEmmc (b : Installed) (c : Chain) : Prop :=
  ∃ r, bootOnce (c.input b) c.rtc = (.main .reset, r) ∧ r.oneTime = emmcRequest

/-! ## One boot -/

section
variable {b : Installed} {c : Chain}

theorem input_menuForced :
    (c.input b).MenuForced ↔ c.vbus = true ∧ b.build c.loader = .gui := by
  unfold BootInput.MenuForced Chain.input
  constructor
  · rintro ⟨hb, h | ⟨-, hv⟩⟩
    · cases h
    · exact ⟨hv, hb⟩
  · rintro ⟨hv, hb⟩
    exact ⟨hb, .inr ⟨rfl, hv⟩⟩

theorem step_fel (h : c.rtc.oneTime = felRequest) : c.step b = .inr .fel := by
  unfold Chain.step bootOnce start32
  rw [if_pos h]

theorem step_emmcLoader (h : c.rtc.oneTime = emmcRequest) :
    c.step b = .inl { c with loader := .emmc, rtc := { c.rtc with oneTime := 0 } } := by
  unfold Chain.step bootOnce start32
  rw [if_neg (by rw [h]; decide), if_pos h]

theorem rebootTo_some {opt : Int} {r r' : Rtc} (h : rebootTo opt r = some r') :
    (opt = bootselFel ∧ r' = { r with oneTime := felRequest }) ∨
      (opt = bootselEmmc ∧ r' = { r with oneTime := emmcRequest }) := by
  unfold rebootTo at h
  split at h
  · rename_i hf
    cases h
    exact .inl ⟨hf, rfl⟩
  · split at h
    · rename_i he
      cases h
      exact .inr ⟨he, rfl⟩
    · cases h

/-- `main` ends the chain, unless it resets with a request for what the RTC words select. -/
theorem step_main (hf : c.rtc.oneTime ≠ felRequest) (he : c.rtc.oneTime ≠ emmcRequest) :
    ((¬ (c.vbus = true ∧ b.build c.loader = .gui) ∧ rtcOption c.rtc = bootselFel ∧
        bootOnce (c.input b) c.rtc = (.main .reset, { c.rtc.consumed with oneTime := felRequest })) ∨
      (¬ (c.vbus = true ∧ b.build c.loader = .gui) ∧ rtcOption c.rtc = bootselEmmc ∧
        bootOnce (c.input b) c.rtc =
          (.main .reset, { c.rtc.consumed with oneTime := emmcRequest }))) ∨
      (((c.vbus = true ∧ b.build c.loader = .gui) ∨
        (rtcOption c.rtc ≠ bootselFel ∧ rtcOption c.rtc ≠ bootselEmmc)) ∧
        ∃ o r, bootOnce (c.input b) c.rtc = (.main o, r) ∧ o ≠ .reset) := by
  rw [bootOnce_pboot _ hf he]
  by_cases hm : (c.input b).MenuForced
  · obtain ⟨⟨g, hg⟩, -⟩ := main_menuForced hm c.rtc
    refine .inr ⟨.inl (input_menuForced.1 hm), _, _, rfl, ?_⟩
    rw [hg]
    exact fun h => nomatch h
  · obtain ⟨hreset, hgo⟩ := main_noKey (i := c.input b) rfl hm c.rtc
    rw [input_menuForced] at hm
    by_cases hreq : RebootRequested .none c.rtc
    · obtain ⟨ho, hr⟩ := hreset hreq
      rcases rebootTo_some hr with ⟨hopt, hr⟩ | ⟨hopt, hr⟩
      · exact .inl (.inl ⟨hm, hopt, by rw [ho, hr]⟩)
      · exact .inl (.inr ⟨hm, hopt, by rw [ho, hr]⟩)
    · have hno : rtcOption c.rtc ≠ bootselFel ∧ rtcOption c.rtc ≠ bootselEmmc :=
        ⟨fun h => hreq ⟨rfl, .inl h⟩, fun h => hreq ⟨rfl, .inr h⟩⟩
      exact .inr ⟨.inr hno, _, _, rfl, (hgo hreq).1⟩

theorem step_reset {r : Rtc} (h : bootOnce (c.input b) c.rtc = (.main .reset, r)) :
    c.step b = .inl { loader := .sd, rtc := r, vbus := false } := by
  unfold Chain.step
  rw [h]

theorem step_stop {o : Outcome} {r : Rtc} (h : bootOnce (c.input b) c.rtc = (.main o, r))
    (ho : o ≠ .reset) : c.step b = .inr (.main o) := by
  unfold Chain.step
  rw [h]
  cases o with
  | reset => exact absurd rfl ho
  | boot | menu | panic => rfl

/-! ## Chains that end -/

theorem ends_fel (h : c.rtc.oneTime = felRequest) : ∃ o, Ends (Chain.step b) c o :=
  ⟨_, .stop (step_fel h)⟩

/-- A chain in which `main` runs next and does not ask for the eMMC boot loader. -/
theorem ends_main (he : c.rtc.oneTime ≠ emmcRequest)
    (h : rtcOption c.rtc ≠ bootselEmmc ∨ (c.vbus = true ∧ b.build c.loader = .gui)) :
    ∃ o, Ends (Chain.step b) c o := by
  by_cases hf : c.rtc.oneTime = felRequest
  · exact ends_fel hf
  · rcases step_main (b := b) hf he with (⟨-, -, hs⟩ | ⟨hm, hopt, -⟩) | ⟨-, o, r, hs, ho⟩
    · obtain ⟨o, ho⟩ := ends_fel (b := b)
        (c := { loader := .sd, rtc := { c.rtc.consumed with oneTime := felRequest }, vbus := false })
        rfl
      exact ⟨o, .next (step_reset hs) ho⟩
    · rcases h with h | h
      · exact absurd hopt h
      · exact absurd h hm
    · exact ⟨_, .stop (step_stop hs ho)⟩

/-- After the jump to eMMC the option is the default. -/
theorem rtcOption_cleared (r : Rtc) : rtcOption { r with oneTime := 0 } = rtcBootselGet r :=
  if_neg (show ¬ isRequest 0#32 = true by decide)

theorem ends_emmcLoader (he : c.rtc.oneTime = emmcRequest)
    (h : rtcBootselGet c.rtc ≠ bootselEmmc ∨ (c.vbus = true ∧ b.build .emmc = .gui)) :
    ∃ o, Ends (Chain.step b) c o := by
  obtain ⟨o, ho⟩ := ends_main (b := b)
    (c := { c with loader := .emmc, rtc := { c.rtc with oneTime := 0 } })
    (show 0#32 ≠ emmcRequest by decide) (by rw [rtcOption_cleared]; exact h)
  exact ⟨o, .next (step_emmcLoader he) ho⟩

/-! ## Chains that do not -/

theorem option_ne_of_felRequest {r : Rtc} (h : r.oneTime = felRequest) :
    rtcOption r ≠ bootselEmmc := by
  unfold rtcOption
  rw [h, if_pos (by decide)]
  decide

theorem endless_step (h : Endless b c) : ∃ c', c.step b = .inl c' ∧ Endless b c' := by
  obtain ⟨hdef, hreq, hmenu⟩ := h
  by_cases he : c.rtc.oneTime = emmcRequest
  · refine ⟨_, step_emmcLoader he, hdef, .inr ((rtcOption_cleared c.rtc).trans hdef), ?_⟩
    rw [Chain.first, if_pos he] at hmenu
    exact hmenu
  · have hopt : rtcOption c.rtc = bootselEmmc := hreq.resolve_left he
    have hf : c.rtc.oneTime ≠ felRequest := fun hf => option_ne_of_felRequest hf hopt
    rw [Chain.first, if_neg he] at hmenu
    rcases step_main (b := b) hf he with (⟨-, hfel, -⟩ | ⟨-, -, hs⟩) | ⟨hm | ⟨-, hno⟩, -⟩
    · exact absurd (hopt.symm.trans hfel) (by decide)
    · refine ⟨_, step_reset hs, (rtcBootselGet_consumed c.rtc).trans hdef, .inl rfl, ?_⟩
      rintro ⟨hv, -⟩
      cases hv
    · exact absurd hm hmenu
    · exact absurd hopt hno

theorem not_ends_of_endless (h : Endless b c) {o : BootEnd} : ¬ Ends (Chain.step b) c o :=
  not_ends (P := Endless b) (fun _ => endless_step) h

theorem ends_iff (b : Installed) (c : Chain) :
    (∃ o, Ends (Chain.step b) c o) ↔ ¬ Endless b c := by
  constructor
  · rintro ⟨o, ho⟩ h
    exact not_ends_of_endless h ho
  · intro h
    by_cases he : c.rtc.oneTime = emmcRequest
    · refine ends_emmcLoader he ?_
      by_contra hno
      obtain ⟨hdef, hmenu⟩ := not_or.1 hno
      refine h ⟨not_not.1 hdef, .inl he, ?_⟩
      rwa [Chain.first, if_pos he]
    · by_cases hmenu : c.vbus = true ∧ b.build c.loader = .gui
      · exact ends_main he (.inr hmenu)
      · by_cases hopt : rtcOption c.rtc = bootselEmmc
        · -- the request reaches the eMMC instance, which goes by the default
          have hf : c.rtc.oneTime ≠ felRequest := fun hf => option_ne_of_felRequest hf hopt
          have hdef : rtcBootselGet c.rtc ≠ bootselEmmc := fun hdef =>
            h ⟨hdef, .inr hopt, by rwa [Chain.first, if_neg he]⟩
          rcases step_main (b := b) hf he with (⟨-, hfel, -⟩ | ⟨-, -, hs⟩) | ⟨hm | ⟨-, hno⟩, -⟩
          · exact absurd (hopt.symm.trans hfel) (by decide)
          · obtain ⟨o, ho⟩ := ends_emmcLoader (b := b)
              (c := { loader := .sd, rtc := { c.rtc.consumed with oneTime := emmcRequest }
                      vbus := false }) rfl
              (.inl (by rwa [← rtcBootselGet_consumed] at hdef))
            exact ⟨o, .next (step_reset hs) ho⟩
          · exact absurd hm hmenu
          · exact absurd hopt hno
        · exact ends_main he (.inl hopt)

end

/-! ## From power-up on SD -/

section
variable (b : Installed)

/-- The chain that starts in `c` ends, and in it the eMMC instance never asks for the eMMC boot
loader. -/
def ChainEnds (c : Chain) : Prop :=
  (∃ o, Ends (Chain.step b) c o) ∧
    ∀ c', ReflTransGen (fun c c' => c.step b = .inl c') c c' → c'.loader = .emmc →
      ¬ RequestsEmmc b c'

/-- The request is cleared on the way to the eMMC instance. -/
def AskedOnce (c : Chain) : Prop := c.loader = .emmc → c.rtc.oneTime = 0

variable {b} {c c' : Chain}

theorem step_inl (h : c.step b = .inl c') :
    (c.rtc.oneTime = emmcRequest ∧
      c' = { c with loader := .emmc, rtc := { c.rtc with oneTime := 0 } }) ∨
      ∃ r, bootOnce (c.input b) c.rtc = (.main .reset, r) ∧
        c' = { loader := .sd, rtc := r, vbus := false } := by
  by_cases he : c.rtc.oneTime = emmcRequest
  · rw [step_emmcLoader he] at h
    cases h
    exact .inl ⟨he, rfl⟩
  · by_cases hf : c.rtc.oneTime = felRequest
    · rw [step_fel hf] at h
      cases h
    · rcases step_main (b := b) hf he with (⟨-, -, hs⟩ | ⟨-, -, hs⟩) | ⟨-, o, r, hs, ho⟩
      · rw [step_reset hs] at h
        cases h
        exact .inr ⟨_, hs, rfl⟩
      · rw [step_reset hs] at h
        cases h
        exact .inr ⟨_, hs, rfl⟩
      · rw [step_stop hs ho] at h
        cases h

theorem askedOnce_step (h : c.step b = .inl c') : AskedOnce c' := by
  rcases step_inl h with ⟨-, rfl⟩ | ⟨r, -, rfl⟩
  · exact fun _ => rfl
  · exact fun h => nomatch h

/-- An eMMC instance that asks for the eMMC boot loader is on an endless chain. -/
theorem endless_of_requests (hc : AskedOnce c) (hl : c.loader = .emmc) (h : RequestsEmmc b c) :
    Endless b c := by
  obtain ⟨r, hs, hr⟩ := h
  have h0 := hc hl
  have he : c.rtc.oneTime ≠ emmcRequest := by rw [h0]; decide
  have hf : c.rtc.oneTime ≠ felRequest := by rw [h0]; decide
  rcases step_main (b := b) hf he with (⟨-, -, hs'⟩ | ⟨hm, hopt, -⟩) | ⟨-, o, r', hs', ho⟩
  · rw [hs'] at hs
    cases hs
    exact absurd hr (show felRequest ≠ emmcRequest by decide)
  · refine ⟨?_, .inr hopt, by rwa [Chain.first, if_neg he]⟩
    rwa [← rtcOption_cleared, ← h0]
  · rw [hs'] at hs
    cases hs
    exact absurd rfl ho

theorem chain_reaches (hn : ¬ Endless b c) (hc : AskedOnce c)
    (h : ReflTransGen (fun c c' => c.step b = .inl c') c c') : ¬ Endless b c' ∧ AskedOnce c' := by
  induction h with
  | refl => exact ⟨hn, hc⟩
  | tail _ hs ih =>
    refine ⟨?_, askedOnce_step hs⟩
    obtain ⟨o, ho⟩ := (ends_iff b _).2 ih.1
    exact (ends_iff b _).1 ⟨o, (Ends.next_iff hs).1 ho⟩

end

/-- **No reset loop between the boot loaders**, exactly when the default is not the eMMC boot
loader, or is not asked for first, or the first instance shows the menu. -/
theorem chain_ends_iff (b : Installed) (r : Rtc) (vbus : Bool) :
    ChainEnds b ⟨.sd, r, vbus⟩ ↔
      ¬ (rtcBootselGet r = bootselEmmc ∧
        (r.oneTime = emmcRequest ∨ rtcOption r = bootselEmmc) ∧
        ¬ (vbus = true ∧ b.build (if r.oneTime = emmcRequest then .emmc else .sd) = .gui)) := by
  constructor
  · rintro ⟨he, -⟩
    exact (ends_iff b _).1 he
  · intro h
    have hn : ¬ Endless b ⟨.sd, r, vbus⟩ := h
    refine ⟨(ends_iff b _).2 hn, fun c' hc' hl hreq => ?_⟩
    obtain ⟨hn', hc⟩ := chain_reaches hn (fun h => nomatch h) hc'
    exact hn' (endless_of_requests hc hl hreq)

/-- GUI builds on both media, and a card with a boot file system. -/
def twoInstalls : Installed :=
  { media := { sd := some blankFs, emmc := none }, build := fun _ => .gui, mem := fun _ => 0 }

/-- The default stored by a long press on "Boot via bootloader on eMMC" never lets the board go. -/
theorem chain_endless :
    ¬ ChainEnds twoInstalls ⟨.sd, rtcBootselSet ⟨0, 0⟩ bootselEmmc, false⟩ := by
  rintro ⟨⟨o, ho⟩, -⟩
  refine not_ends_of_endless ⟨by decide, .inr (by decide), ?_⟩ ho
  rintro ⟨hv, -⟩
  cases hv

end PBoot
