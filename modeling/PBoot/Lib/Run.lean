import Mathlib.Data.List.Basic

/-!
# Runs of step systems

Two shapes of execution and their proof rules:

* `Run step s is s'`: the inputs `is`, taken one by one from `s`, can lead to `s'`. `Run.inv` is
  the invariant rule.
* `Ends step s o`: a machine without input, started in `s`, stops with outcome `o` after finitely
  many steps. `Ends.next_iff` takes one step off, `Ends.unique` is determinism; `not_ends` turns an invariant that every step
  keeps without stopping into divergence.

For a step function, `rises step obs s is` counts the steps that make `obs` true, and
`rises_balance` compares two counts.

And two of loops over a list that an error ends: `foldlM_ok` is the invariant rule, and
`foldlM_goes` also yields that the loop goes well.
-/

namespace Runs

/-! ## Machines with input -/

section
variable {σ ι : Type*}

/-- The inputs `is` lead from `s` to the last state. -/
inductive Run (step : σ → ι → σ → Prop) (s : σ) : List ι → σ → Prop
  | nil : Run step s [] s
  | snoc {is : List ι} {i : ι} {s₁ s₂ : σ} : Run step s is s₁ → step s₁ i s₂ →
      Run step s (is ++ [i]) s₂

/-- The steps of a system that meet a condition on the state before and the input. -/
def Guarded (step : σ → ι → σ → Prop) (C : σ → ι → Prop) (s : σ) (i : ι) (s' : σ) : Prop :=
  C s i ∧ step s i s'

variable {step : σ → ι → σ → Prop} {s s' : σ} {is : List ι}

/-- **Invariant rule**: what holds first and every step keeps holds after every run. -/
theorem Run.inv {P : σ → Prop} (h0 : P s) (hs : ∀ s i s', P s → step s i s' → P s')
    (h : Run step s is s') : P s' := by
  induction h with
  | nil => exact h0
  | snoc _ hst ih => exact hs _ _ _ ih hst

end

/-! ## Machines without input -/

section
variable {σ ω : Type*} {step : σ → σ ⊕ ω} {s s' : σ} {o : ω}

/-- Started in `s`, the machine stops with outcome `o`. -/
inductive Ends (step : σ → σ ⊕ ω) : σ → ω → Prop
  | stop {s : σ} {o : ω} : step s = .inr o → Ends step s o
  | next {s s' : σ} {o : ω} : step s = .inl s' → Ends step s' o → Ends step s o

theorem Ends.next_iff (h : step s = .inl s') : Ends step s o ↔ Ends step s' o := by
  constructor
  · intro he
    cases he with
    | stop hs => rw [h] at hs; cases hs
    | next hs he => rw [h] at hs; cases hs; exact he
  · exact .next h

/-- A machine stops with one outcome only. -/
theorem Ends.unique {o' : ω} (h : Ends step s o) (h' : Ends step s o') : o = o' := by
  induction h with
  | stop hs =>
    cases h' with
    | stop hs' =>
      rw [hs] at hs'
      exact Sum.inr.inj hs'
    | next hs' _ =>
      rw [hs] at hs'
      cases hs'
  | next hs _ ih => exact ih ((Ends.next_iff hs).1 h')

/-- A machine that keeps `P` and goes on from every state of `P` never stops. -/
theorem not_ends {P : σ → Prop} (hP : ∀ s, P s → ∃ s', step s = .inl s' ∧ P s') (h : P s) :
    ¬ Ends step s o := by
  intro he
  induction he with
  | stop hs =>
    obtain ⟨_, hn, -⟩ := hP _ h
    rw [hn] at hs; cases hs
  | next hs _ ih =>
    obtain ⟨_, hn, hp⟩ := hP _ h
    rw [hn] at hs; cases hs
    exact ih hp

end

/-! ## Counting -/

section
variable {σ ι : Type*} (step : σ → ι → σ) (obs : σ → Bool)

/-- A step makes `obs` true. -/
def edge (s s' : σ) : Nat := if !obs s && obs s' then 1 else 0

/-- The number of steps that make `obs` true, when the inputs are taken from `s` on. -/
def rises : σ → List ι → Nat
  | _, [] => 0
  | s, i :: is => edge obs s (step s i) + rises (step s i) is

variable {step obs}

/-- **Accounting rule**: what every step keeps in balance is in balance after every run. -/
theorem rises_balance {P : σ → Prop} {obs' : σ → Bool} {w : σ → Nat}
    (hP : ∀ s i, P s → P (step s i))
    (hs : ∀ s i, P s → edge obs s (step s i) + w (step s i) = edge obs' s (step s i) + w s) {s : σ}
    (h : P s) (is : List ι) :
    rises step obs s is + w (is.foldl step s) = rises step obs' s is + w s := by
  induction is generalizing s with
  | nil => rfl
  | cons i is ih =>
    have hstep := hs s i h
    have hrun := ih (hP s i h)
    show edge obs s (step s i) + rises step obs (step s i) is + w (is.foldl step (step s i)) =
      edge obs' s (step s i) + rises step obs' (step s i) is + w s
    omega

/-- An invariant of a step function. -/
theorem foldl_inv {P : σ → Prop} (hP : ∀ s i, P s → P (step s i)) {s : σ} (h : P s)
    (is : List ι) : P (is.foldl step s) := by
  induction is generalizing s with
  | nil => exact h
  | cons i is ih => exact ih (hP s i h)

end

/-! ## Loops that an error ends -/

section
universe u v
variable {ε : Type u} {α β σ : Type v} {ι : Type*}

theorem bind_ok {x : Except ε α} {f : α → Except ε β} {b : β} :
    x >>= f = .ok b ↔ ∃ a, x = .ok a ∧ f a = .ok b := by
  cases x with
  | error e => exact ⟨fun h => (nomatch h), fun ⟨_, h, _⟩ => (nomatch h)⟩
  | ok a =>
    refine ⟨fun h => ⟨a, rfl, h⟩, fun ⟨a', ha, hf⟩ => ?_⟩
    cases ha
    exact hf

/-- A result that passes a test is there. -/
theorem ok_of_any {x : Except ε α} {p : α → Bool} (h : x.toOption.any p = true) :
    ∃ a, x = .ok a ∧ p a = true := by
  cases x with
  | error e => cases h
  | ok a => exact ⟨a, rfl, h⟩

theorem foldlM_ok_from {I : List ι → σ → Prop} {f : σ → ι → Except ε σ} {is pre : List ι}
    {s s' : σ} (hs : ∀ pre i s s', I pre s → f s i = .ok s' → I (pre ++ [i]) s') (h0 : I pre s)
    (h : is.foldlM f s = .ok s') : I (pre ++ is) s' := by
  induction is generalizing pre s with
  | nil =>
    cases h
    rwa [List.append_nil]
  | cons i is ih =>
    rw [List.foldlM_cons] at h
    obtain ⟨s₁, h₁, h₂⟩ := bind_ok.1 h
    have hi : I (pre ++ [i] ++ is) s' := ih (hs _ _ _ _ h0 h₁) h₂
    rwa [List.append_assoc] at hi

/-- **Invariant rule**: what holds before a loop and what every round that goes well carries from
the inputs before it to those with its own, holds after a loop that goes well. -/
theorem foldlM_ok {I : List ι → σ → Prop} {f : σ → ι → Except ε σ} {is : List ι} {s s' : σ}
    (hs : ∀ pre i s s', I pre s → f s i = .ok s' → I (pre ++ [i]) s') (h0 : I [] s)
    (h : is.foldlM f s = .ok s') : I is s' :=
  foldlM_ok_from hs h0 h

theorem foldlM_goes_from {I : List ι → σ → Prop} {f : σ → ι → Except ε σ} {is pre : List ι} {s : σ}
    (hs : ∀ p i post s, pre ++ is = p ++ i :: post → I p s → ∃ s', f s i = .ok s' ∧ I (p ++ [i]) s')
    (h0 : I pre s) : ∃ s', is.foldlM f s = .ok s' ∧ I (pre ++ is) s' := by
  induction is generalizing pre s with
  | nil => exact ⟨s, rfl, by rwa [List.append_nil]⟩
  | cons i is ih =>
    obtain ⟨s₁, h₁, hi₁⟩ := hs pre i is s rfl h0
    obtain ⟨s', h', hi'⟩ : ∃ s', is.foldlM f s₁ = .ok s' ∧ I (pre ++ [i] ++ is) s' :=
      ih (fun p j post s hp => hs p j post s (by rw [← hp, List.append_assoc]; rfl)) hi₁
    refine ⟨s', ?_, by rwa [List.append_assoc] at hi'⟩
    rw [List.foldlM_cons]
    exact bind_ok.2 ⟨s₁, h₁, h'⟩

/-- **Progress rule**: a loop of which every round goes well from the inputs before it, and carries
the invariant on, goes well. -/
theorem foldlM_goes {I : List ι → σ → Prop} {f : σ → ι → Except ε σ} {is : List ι} {s : σ}
    (hs : ∀ pre i post s, is = pre ++ i :: post → I pre s → ∃ s', f s i = .ok s' ∧ I (pre ++ [i]) s')
    (h0 : I [] s) : ∃ s', is.foldlM f s = .ok s' ∧ I is s' :=
  foldlM_goes_from hs h0

end

end Runs
