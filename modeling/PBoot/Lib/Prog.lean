import Mathlib.Logic.Basic

/-!
# Programs with a state and errors

A program of type `Prog σ ε α` changes a state and ends with a value or with an error; the changes
made before an error stay. It is none where it has no meaning.

`wp x Q s`: run from `s`, the program has a meaning, and the result and the state at its end are in
`Q`. There is one rule for each way to build a program; `wp_each` is the rule of a loop that keeps
the state in a relation to a value that each round changes.
-/

namespace Progs

abbrev Prog (σ ε α : Type) := ExceptT ε (StateT σ Option) α

section
variable {σ ε α β : Type}

/-- What a program computes. -/
def run (x : Prog σ ε α) (s : σ) : Option (Except ε α × σ) := x s

/-- What a function of the state reads, which may fail or have no meaning. -/
def reads (f : σ → Option (Except ε α)) : Prog σ ε α := fun s => (f s).map fun r => (r, s)

/-- What a function of the state reads. -/
def look (f : σ → α) : Prog σ ε α := fun s => some (.ok (f s), s)

/-- The state is changed. -/
def change (f : σ → σ) : Prog σ ε Unit := fun s => some (.ok (), f s)

/-- The result of a program, which is not looked at here. -/
def attempt (x : Prog σ ε α) : Prog σ ε (Except ε α) := fun s =>
  (x s).map fun r => (.ok r.1, r.2)

/-- A program for every element of a list, up to the first error. -/
def each (f : α → Prog σ ε Unit) : List α → Prog σ ε Unit
  | [] => pure ()
  | a :: as => do
    f a
    each f as

/-- The weakest precondition. -/
def wp (x : Prog σ ε α) (Q : Except ε α → σ → Prop) (s : σ) : Prop :=
  ∃ r s', x s = some (r, s') ∧ Q r s'

variable {s : σ} {Q Q' : Except ε α → σ → Prop} {R : Except ε β → σ → Prop} {x : Prog σ ε α}

theorem wp.mono (h : wp x Q s) (hq : ∀ r s', Q r s' → Q' r s') : wp x Q' s := by
  obtain ⟨r, s', hx, hr⟩ := h
  exact ⟨r, s', hx, hq r s' hr⟩

theorem wp_pure {a : α} (h : Q (.ok a) s) : wp (pure a) Q s := ⟨.ok a, s, rfl, h⟩

theorem wp_throw {e : ε} (h : Q (.error e) s) : wp (throw e) Q s := ⟨.error e, s, rfl, h⟩

theorem bind_ok {f : α → Prog σ ε β} {a : α} {s' : σ} (h : x s = some (.ok a, s')) :
    (x >>= f) s = f a s' := by
  change (StateT.bind x (ExceptT.bindCont f)) s = _
  simp only [StateT.bind, h, Option.bind_eq_bind, Option.bind_some]
  rfl

theorem bind_error {f : α → Prog σ ε β} {e : ε} {s' : σ} (h : x s = some (.error e, s')) :
    (x >>= f) s = some (.error e, s') := by
  change (StateT.bind x (ExceptT.bindCont f)) s = _
  simp only [StateT.bind, h, Option.bind_eq_bind, Option.bind_some]
  rfl

theorem wp_bind {f : α → Prog σ ε β} (h : wp x (fun r s' =>
    match r with
    | .ok a => wp (f a) R s'
    | .error e => R (.error e) s') s) : wp (x >>= f) R s := by
  obtain ⟨r, s', hx, hr⟩ := h
  cases r with
  | ok a =>
    obtain ⟨r', s'', hf, hr'⟩ := hr
    exact ⟨r', s'', (bind_ok hx).trans hf, hr'⟩
  | error e => exact ⟨.error e, s', bind_error hx, hr⟩

theorem wp_reads {f : σ → Option (Except ε α)} {r : Except ε α} (hf : f s = some r) (h : Q r s) :
    wp (reads f) Q s := ⟨r, s, by rw [reads, hf]; rfl, h⟩

theorem wp_look {f : σ → α} (h : Q (.ok (f s)) s) : wp (look f) Q s := ⟨_, s, rfl, h⟩

theorem wp_change {f : σ → σ} {Q : Except ε Unit → σ → Prop} (h : Q (.ok ()) (f s)) :
    wp (change f) Q s := ⟨_, f s, rfl, h⟩

theorem wp_attempt {R : Except ε (Except ε α) → σ → Prop} (h : wp x (fun r s' => R (.ok r) s') s) :
    wp (attempt x) R s := by
  obtain ⟨r, s', hx, hr⟩ := h
  exact ⟨.ok r, s', by rw [attempt, hx]; rfl, hr⟩

/-- **A loop over a list**: a relation between a value and the state, which every round keeps while
it changes the value by `g`, holds of the state at the end and what the rounds make of the value. -/
theorem wp_each {τ : Type*} {f : α → Prog σ ε Unit} {g : τ → α → τ} {I : List α → τ → σ → Prop}
    (hf : ∀ a as t s, I (a :: as) t s → wp (f a) (fun r s' => r = .ok () ∧ I as (g t a) s') s)
    {as : List α} {t : τ} (h : I as t s) :
    wp (each f as) (fun r s' => r = .ok () ∧ I [] (as.foldl g t) s') s := by
  induction as generalizing t s with
  | nil => exact wp_pure ⟨rfl, h⟩
  | cons a as ih =>
    refine wp_bind ((hf a as t s h).mono fun r s' hr => ?_)
    obtain ⟨rfl, hI⟩ := hr
    exact ih hI

end

end Progs
