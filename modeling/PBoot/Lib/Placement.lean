import Mathlib.Logic.Function.Basic
import PBoot.Lib.Bytes

/-!
# Objects placed in memory

A program puts objects into memory one after another and moves some of them. `Places` is where
each object is meant to be, an `Op` writes one range of memory.

* `Kept p ops`: no operation touches an object that is in place, other than the one it replaces.
* `Holds.run`: then every object is where it is meant to be.
-/

namespace Placement

open Bytes

variable {κ : Type*}

/-- The ranges of `n` bytes at `a` and `k` bytes at `b` have no byte in common. -/
def Apart (a n b k : Nat) : Prop := n = 0 ∨ k = 0 ∨ a + n ≤ b ∨ b + k ≤ a

theorem apart_iff_of_lt {a n b k : Nat} (h : a < b) : Apart a n b k ↔ n = 0 ∨ k = 0 ∨ a + n ≤ b := by
  unfold Apart
  constructor
  · rintro (h | h | h | h)
    · exact .inl h
    · exact .inr (.inl h)
    · exact .inr (.inr h)
    · omega
  · rintro (h | h | h)
    · exact .inl h
    · exact .inr (.inl h)
    · exact .inr (.inr (.inl h))

theorem apart_comm {a n b k : Nat} : Apart a n b k ↔ Apart b k a n := by
  unfold Apart
  rw [or_left_comm, or_comm (a := a + n ≤ b)]

theorem apart_iff_of_gt {a n b k : Nat} (h : b < a) : Apart a n b k ↔ n = 0 ∨ k = 0 ∨ b + k ≤ a := by
  rw [apart_comm, apart_iff_of_lt h, or_left_comm]

theorem Apart.mono {a n b k a₁ n₁ b₁ k₁ : Nat} (h : Apart a n b k) (ha : a ≤ a₁)
    (hn : a₁ + n₁ ≤ a + n) (hb : b ≤ b₁) (hk : b₁ + k₁ ≤ b + k) : Apart a₁ n₁ b₁ k₁ := by
  unfold Apart at *
  omega

instance (a n b k : Nat) : Decidable (Apart a n b k) :=
  inferInstanceAs (Decidable (n = 0 ∨ k = 0 ∨ a + n ≤ b ∨ b + k ≤ a))

/-- The place and the bytes of each object. -/
abbrev Places (κ : Type*) := κ → Option (Nat × List UInt8)

/-- One range of memory is written: with an object, or with a copy of one that is in place. -/
inductive Op (κ : Type*) where
  /-- `bytes` and `rest` are written to `dest`; the bytes are the object `key`, if it has one. -/
  | put (key : Option κ) (dest : Nat) (bytes rest : List UInt8)
  /-- The `len` bytes of the object `src` at `start` are copied to `dest`; the copy is `key`. -/
  | move (src key : κ) (start dest len : Nat)

/-- What the operation does to the memory. -/
def Op.exec (m : Mem) : Op κ → Mem
  | put _ dest bytes rest => write m dest (bytes ++ rest)
  | move _ _ start dest len => write m dest (read m start len)

/-- The range that is written. -/
def Op.dest : Op κ → Nat
  | put _ dest _ _ => dest
  | move _ _ _ dest _ => dest

/-- How many bytes are written. -/
def Op.len : Op κ → Nat
  | put _ _ bytes rest => (bytes ++ rest).length
  | move _ _ _ _ len => len

/-- The objects that are no longer where they were. -/
def Op.Replaces : Op κ → κ → Prop
  | put key _ _ _, k => key = some k
  | move src key _ _ _, k => k = src ∨ k = key

/-- The operation writes into nothing that it does not replace. -/
def Op.Spares (p : Places κ) (op : Op κ) : Prop :=
  ∀ k x, p k = some x → ¬ op.Replaces k → Apart x.1 x.2.length op.dest op.len

variable [DecidableEq κ]

/-- Where the objects are after the operation. -/
def Op.places (p : Places κ) : Op κ → Places κ
  | put none _ _ _ => p
  | put (some k) dest bytes _ => Function.update p k (some (dest, bytes))
  | move src key _ dest _ =>
    Function.update (Function.update p src none) key ((p src).map fun x => (dest, x.2))

/-- What is moved is an object in its place. -/
def Op.Legal (p : Places κ) : Op κ → Prop
  | put _ _ _ _ => True
  | move src _ start _ len => ∃ b, p src = some (start, b) ∧ b.length = len

/-- No operation writes into an object that is in place, unless it replaces that object. -/
def Kept : Places κ → List (Op κ) → Prop
  | _, [] => True
  | p, op :: ops => op.Spares p ∧ Kept (op.places p) ops

/-- Every copy is one of an object that is in its place by then. -/
def Legal : Places κ → List (Op κ) → Prop
  | _, [] => True
  | p, op :: ops => op.Legal p ∧ Legal (op.places p) ops

/-- Every object is where it is meant to be. -/
def Holds (m : Mem) (p : Places κ) : Prop := ∀ k a b, p k = some (a, b) → read m a b.length = b

omit [DecidableEq κ] in
theorem length_written (m : Mem) (op : Op κ) :
    ∃ bs, op.exec m = write m op.dest bs ∧ bs.length = op.len := by
  cases op with
  | put key dest bytes rest => exact ⟨_, rfl, rfl⟩
  | move src key start dest len => exact ⟨_, rfl, length_read _ _ _⟩

omit [DecidableEq κ] in
/-- Frame rule: a range apart from the one that is written keeps its bytes. -/
theorem read_exec_of_apart {m : Mem} {op : Op κ} {a n : Nat} (h : Apart a n op.dest op.len) :
    read (op.exec m) a n = read m a n := by
  obtain ⟨bs, he, hl⟩ := length_written m op
  rw [he]
  rcases h with rfl | h | h | h
  · rfl
  · rw [List.length_eq_zero_iff.1 (hl.trans h), write_nil]
  · exact read_write_of_disjoint (.inl h)
  · exact read_write_of_disjoint (.inr (by omega))

omit [DecidableEq κ] in
/-- Operations that all stay apart from a range. -/
theorem read_foldl_of_apart {m : Mem} {ops : List (Op κ)} {a n : Nat}
    (h : ∀ op ∈ ops, Apart a n op.dest op.len) : read (ops.foldl Op.exec m) a n = read m a n := by
  induction ops generalizing m with
  | nil => rfl
  | cons op ops ih =>
    rw [List.foldl_cons, ih fun o ho => h o (List.mem_cons_of_mem _ ho)]
    exact read_exec_of_apart (h op List.mem_cons_self)

theorem Holds.step {m : Mem} {p : Places κ} {op : Op κ} (h : Holds m p) (hl : op.Legal p)
    (hs : op.Spares p) : Holds (op.exec m) (op.places p) := by
  -- an object that the operation does not replace
  have hframe : ∀ k a b, p k = some (a, b) → ¬ op.Replaces k → read (op.exec m) a b.length = b :=
    fun k a b hk hr => by rw [read_exec_of_apart (hs k (a, b) hk hr)]; exact h k a b hk
  cases op with
  | put key dest bytes rest =>
    rcases key with _ | key
    · exact fun k a b hk => hframe k a b hk (fun h => nomatch h)
    · intro k a b hk
      by_cases hkk : k = key
      · subst hkk
        simp only [Op.places, Function.update_self, Option.some.injEq, Prod.mk.injEq] at hk
        obtain ⟨rfl, rfl⟩ := hk
        exact (read_write_head (by rw [List.length_append]; omega)).trans List.take_left
      · rw [Op.places, Function.update_of_ne hkk] at hk
        exact hframe k a b hk fun h => hkk (Option.some.inj h).symm
  | move src key start dest len =>
    obtain ⟨bs, hsrc, hlen⟩ := hl
    intro k a b hk
    by_cases hkk : k = key
    · subst hkk
      simp only [Op.places, Function.update_self, hsrc, Option.map_some, Option.some.injEq,
        Prod.mk.injEq] at hk
      obtain ⟨rfl, rfl⟩ := hk
      show read (write m dest (read m start len)) dest bs.length = bs
      have hr : read m start len = bs := hlen ▸ h src start bs hsrc
      rw [hr]
      exact read_write_same _ _ _
    · rw [Op.places, Function.update_of_ne hkk] at hk
      by_cases hks : k = src
      · subst hks
        rw [Function.update_self] at hk
        cases hk
      · rw [Function.update_of_ne hks] at hk
        exact hframe k a b hk (fun h => h.elim hks hkk)

/-- **If nothing in place is touched, everything is in place.** -/
theorem Holds.run {m : Mem} {p : Places κ} {ops : List (Op κ)} (h : Holds m p) (hl : Legal p ops)
    (hk : Kept p ops) : Holds (ops.foldl Op.exec m) (ops.foldl Op.places p) := by
  induction ops generalizing m p with
  | nil => exact h
  | cons op ops ih => exact ih (h.step hl.1 hk.1) hl.2 hk.2

theorem kept_append {p : Places κ} {ops ops' : List (Op κ)} :
    Kept p (ops ++ ops') ↔ Kept p ops ∧ Kept (ops.foldl Op.places p) ops' := by
  induction ops generalizing p with
  | nil => exact ⟨fun h => ⟨trivial, h⟩, fun h => h.2⟩
  | cons op ops ih =>
    simp only [List.cons_append, Kept, List.foldl_cons, ih, and_assoc]

theorem legal_append {p : Places κ} {ops ops' : List (Op κ)} :
    Legal p (ops ++ ops') ↔ Legal p ops ∧ Legal (ops.foldl Op.places p) ops' := by
  induction ops generalizing p with
  | nil => exact ⟨fun h => ⟨trivial, h⟩, fun h => h.2⟩
  | cons op ops ih =>
    simp only [List.cons_append, Legal, List.foldl_cons, ih, and_assoc]

end Placement
