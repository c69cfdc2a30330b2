import Mathlib.Data.List.Nodup
import Mathlib.Tactic.Ring

/-!
# Searches

`tryAll f l` asks `f` about the elements of `l` in order and stops at the first answer: the answer
and the elements that were asked about. `tryAll_fst` is the answer alone, `tryAll_append_some` the
search of two lists of which the first has an answer, `tryAll_map` a search through a renaming.

`cycle n d stop k x` walks round the positions 0 to `n - 1` in steps of `d` until `stop` holds, for
at most `k` steps: `cycle_spec` is where it stops, `cycle_first` that it is the first such position,
`exists_cycle` that one round is enough to come back to the start.

`IsNext n d p x y`: going round from `x`, `y` is the first other position with `p`. Going back undoes
it (`IsNext.symm`), and as many steps as there are positions with `p` take each of them once
(`round_perm`).
-/

namespace Search

variable {α β γ : Type*}

/-- The first answer of `f` on `l`, and the elements of `l` that were asked. -/
def tryAll (f : α → Option β) : List α → Option β × List α
  | [] => (none, [])
  | a :: l =>
    match f a with
    | some b => (some b, [a])
    | none => ((tryAll f l).1, a :: (tryAll f l).2)

variable {f g : α → Option β} {l m : List α} {a : α} {b : β}

@[simp] theorem tryAll_nil : tryAll f [] = (none, []) := rfl

theorem tryAll_cons_some (h : f a = some b) : tryAll f (a :: l) = (some b, [a]) := by
  simp [tryAll, h]

theorem tryAll_cons_none (h : f a = none) :
    tryAll f (a :: l) = ((tryAll f l).1, a :: (tryAll f l).2) := by
  simp [tryAll, h]

theorem tryAll_fst (f : α → Option β) (l : List α) : (tryAll f l).1 = l.findSome? f := by
  induction l with
  | nil => rfl
  | cons a l ih =>
    rcases h : f a with _ | b
    · rw [tryAll_cons_none h, List.findSome?_cons, h, ih]
    · rw [tryAll_cons_some h, List.findSome?_cons, h]

theorem tryAll_fst_eq_none : (tryAll f l).1 = none ↔ ∀ a ∈ l, f a = none := by
  rw [tryAll_fst, List.findSome?_eq_none_iff]

theorem tryAll_append_some (h : (tryAll f l).1 = some b) : tryAll f (l ++ m) = tryAll f l := by
  induction l with
  | nil => cases h
  | cons a l ih =>
    rcases ha : f a with _ | c
    · rw [tryAll_cons_none ha] at h
      rw [List.cons_append, tryAll_cons_none ha, tryAll_cons_none ha, ih h]
    · rw [List.cons_append, tryAll_cons_some ha, tryAll_cons_some ha]

theorem tryAll_map (f : α → Option β) (e : γ → α) (l : List γ) :
    tryAll f (l.map e) = ((tryAll (f ∘ e) l).1, (tryAll (f ∘ e) l).2.map e) := by
  induction l with
  | nil => rfl
  | cons a l ih =>
    rcases h : f (e a) with _ | b
    · rw [List.map_cons, tryAll_cons_none h, tryAll_cons_none (f := f ∘ e) h, ih]
      rfl
    · rw [List.map_cons, tryAll_cons_some h, tryAll_cons_some (f := f ∘ e) h]
      rfl

/-! ## Going round -/

/-- The position after an end is the other end. -/
def wrap (n x : Int) : Int := if n ≤ x then 0 else if x < 0 then n - 1 else x

def cycle (n d : Int) (stop : Int → Bool) : Nat → Int → Option Int
  | 0, _ => none
  | k + 1, x =>
    let y := wrap n (x + d)
    if stop y then some y else cycle n d stop k y

section
variable {n d x y : Int} {stop : Int → Bool} {k : Nat}

theorem wrap_eq_emod (h0 : 0 ≤ x) (hn : x < n) (hd : -1 ≤ d) (hd' : d ≤ 1) :
    wrap n (x + d) = (x + d) % n := by
  unfold wrap
  split
  · rw [show x + d = n by omega, Int.emod_self]
  · split
    · rw [show x + d = n - 1 + n * -1 by ring_nf; omega, Int.add_mul_emod_self_left,
        Int.emod_eq_of_lt (by omega) (by omega)]
    · exact (Int.emod_eq_of_lt (by omega) (by omega)).symm

theorem wrap_range (h0 : 0 ≤ x) (hn : x < n) (_ : -1 ≤ d) (_ : d ≤ 1) :
    0 ≤ wrap n (x + d) ∧ wrap n (x + d) < n := by
  unfold wrap
  split
  · omega
  · split <;> omega

theorem cycle_isSome (h0 : 0 ≤ x) (hn : x < n) (hd : -1 ≤ d) (hd' : d ≤ 1) {j : Nat} (hj : 1 ≤ j)
    (hjk : j ≤ k) (hs : stop ((x + j * d) % n) = true) : ∃ y, cycle n d stop k x = some y := by
  induction k generalizing x j with
  | zero => omega
  | succ k ih =>
    obtain ⟨hw0, hwn⟩ := wrap_range h0 hn hd hd'
    simp only [cycle]
    split
    · exact ⟨_, rfl⟩
    · rename_i hw
      rw [wrap_eq_emod h0 hn hd hd'] at hw hw0 hwn ⊢
      obtain ⟨j, rfl⟩ := Nat.exists_eq_add_of_le' hj
      rcases j with _ | j
      · rw [Nat.zero_add, Nat.cast_one, one_mul] at hs
        exact absurd hs hw
      · refine ih hw0 hwn (j := j + 1) (by omega) (by omega) ?_
        rw [Int.emod_add_emod, ← hs]
        congr 2
        push_cast
        ring

/-- **One round comes back to where it started.** -/
theorem exists_cycle (h0 : 0 ≤ x) (hn : x < n) (hd : -1 ≤ d) (hd' : d ≤ 1) (hk : n ≤ k)
    (hs : stop x = true) : ∃ y, cycle n d stop k x = some y := by
  obtain ⟨m, rfl⟩ := Int.eq_ofNat_of_zero_le (show 0 ≤ n by omega)
  refine cycle_isSome h0 hn hd hd' (j := m) (by omega) (by omega) ?_
  rwa [Int.add_mul_emod_self_left, Int.emod_eq_of_lt h0 hn]

/-- The walk stops at the first position at which it can. -/
theorem cycle_first (h0 : 0 ≤ x) (hn : x < n) (hd : -1 ≤ d) (hd' : d ≤ 1)
    (h : cycle n d stop k x = some y) : ∃ j : Nat, 1 ≤ j ∧ y = (x + j * d) % n ∧ stop y = true ∧
      ∀ i : Nat, 1 ≤ i → i < j → stop ((x + i * d) % n) = false := by
  induction k generalizing x with
  | zero => cases h
  | succ k ih =>
    obtain ⟨hw0, hwn⟩ := wrap_range h0 hn hd hd'
    simp only [cycle] at h
    rw [wrap_eq_emod h0 hn hd hd'] at h hw0 hwn
    split at h
    · rename_i hs
      cases h
      exact ⟨1, le_rfl, by rw [Nat.cast_one, one_mul], hs, fun i hi hi' => by omega⟩
    · rename_i hs
      obtain ⟨j, hj, hy, hstop, hfirst⟩ := ih hw0 hwn h
      have hshift : ∀ i : Nat, ((x + d) % n + i * d) % n = (x + (i + 1 : Nat) * d) % n := by
        intro i
        rw [Int.emod_add_emod]
        congr 1
        push_cast
        ring
      refine ⟨j + 1, by omega, by rw [hy, hshift], hstop, fun i hi hij => ?_⟩
      obtain ⟨i, rfl⟩ := Nat.exists_eq_add_of_le' hi
      rcases i with _ | i
      · rw [Nat.zero_add, Nat.cast_one, one_mul]
        simpa using hs
      · rw [← hshift]
        exact hfirst (i + 1) (by omega) (by omega)

theorem cycle_spec (h0 : 0 ≤ x) (hn : x < n) (hd : -1 ≤ d) (hd' : d ≤ 1)
    (h : cycle n d stop k x = some y) : stop y = true ∧ 0 ≤ y ∧ y < n := by
  obtain ⟨j, -, rfl, hs, -⟩ := cycle_first h0 hn hd hd' h
  exact ⟨hs, Int.emod_nonneg _ (by omega), Int.emod_lt_of_pos _ (by omega)⟩

end

/-! ## The next position -/

/-- Going round from `x` in steps of `d`, `y` is the first other position with `p`. -/
def IsNext (n d : Int) (p : Int → Prop) (x y : Int) : Prop :=
  ∃ j : Nat, 1 ≤ j ∧ (j : Int) < n ∧ y = (x + j * d) % n ∧ p y ∧
    ∀ i : Nat, 1 ≤ i → i < j → ¬ p ((x + i * d) % n)

/-- No other position has `p`. -/
def Alone (n d : Int) (p : Int → Prop) (x : Int) : Prop :=
  ∀ i : Nat, 1 ≤ i → (i : Int) < n → ¬ p ((x + i * d) % n)

/-- A step to the next position, if there is one. -/
def Goes (n d : Int) (p : Int → Prop) (x y : Int) : Prop :=
  IsNext n d p x y ∨ Alone n d p x ∧ y = x

section
variable {n d x y z : Int} {p : Int → Prop}

/-- The way back leads over the same positions. -/
theorem IsNext.symm (h : IsNext n d p x y) (h0 : 0 ≤ x) (hn : x < n) (hp : p x) :
    IsNext n (-d) p y x := by
  obtain ⟨j, hj, hjn, rfl, -, hfirst⟩ := h
  have hback : ∀ i : Nat, ((x + j * d) % n + i * -d) % n = (x + ((j : Int) - i) * d) % n := by
    intro i
    rw [Int.emod_add_emod]
    congr 1
    ring
  refine ⟨j, hj, hjn, ?_, hp, fun i hi hij => ?_⟩
  · rw [hback, sub_self, zero_mul, add_zero, Int.emod_eq_of_lt h0 hn]
  · rw [hback, show (j : Int) - i = (j - i : Nat) by omega]
    exact hfirst (j - i) (by omega) (by omega)

theorem IsNext.unique (h : IsNext n d p x y) (h' : IsNext n d p x z) : y = z := by
  obtain ⟨j, hj, -, rfl, hp, hfirst⟩ := h
  obtain ⟨j', hj', -, rfl, hp', hfirst'⟩ := h'
  rcases Nat.lt_trichotomy j j' with hlt | rfl | hlt
  · exact absurd hp (hfirst' j hj hlt)
  · rfl
  · exact absurd hp' (hfirst j' hj' hlt)

theorem IsNext.not_alone (h : IsNext n d p x y) : ¬ Alone n d p x := by
  obtain ⟨j, hj, hjn, rfl, hp, -⟩ := h
  exact fun ha => ha j hj hjn hp

theorem IsNext.range (h : IsNext n d p x y) : 0 ≤ y ∧ y < n := by
  obtain ⟨j, -, hjn, rfl, -, -⟩ := h
  exact ⟨Int.emod_nonneg _ (by omega), Int.emod_lt_of_pos _ (by omega)⟩

/-- A walk that stops at the start and at positions with `p` goes to the next one. -/
theorem cycle_goes [DecidablePred p] {k : Nat} (h0 : 0 ≤ x) (hn : x < n) (hd : d = 1 ∨ d = -1)
    (h : cycle n d (fun i => i == x || decide (p i)) k x = some y) : Goes n d p x y := by
  obtain ⟨j, hj, rfl, hstop, hfirst⟩ := cycle_first h0 hn (by omega) (by omega) h
  have hround : (x + (n.toNat : Int) * d) % n = x := by
    rw [Int.toNat_of_nonneg (by omega), Int.add_mul_emod_self_left, Int.emod_eq_of_lt h0 hn]
  have hle : j ≤ n.toNat := by
    by_contra hlt
    have hx := hfirst n.toNat (by omega) (by omega)
    rw [hround] at hx
    simp at hx
  have hnone : ∀ i : Nat, 1 ≤ i → i < j → ¬ p ((x + i * d) % n) := fun i hi hij hp => by
    have hx := hfirst i hi hij
    simp [hp] at hx
  rcases Nat.lt_or_eq_of_le hle with hlt | rfl
  · refine .inl ⟨j, hj, by omega, rfl, ?_, hnone⟩
    have hne : (x + j * d) % n ≠ x := fun he => by
      have hz := Int.emod_eq_emod_iff_emod_sub_eq_zero.1 (he.trans (Int.emod_eq_of_lt h0 hn).symm)
      rw [add_sub_cancel_left] at hz
      rcases hd with rfl | rfl
      · rw [mul_one, Int.emod_eq_of_lt (by omega) (by omega)] at hz
        omega
      · rw [mul_neg_one, ← Int.add_emod_right, Int.emod_eq_of_lt (by omega) (by omega)] at hz
        omega
    simpa [hne] using hstop
  · exact .inr ⟨fun i hi hin => hnone i hi (by omega), hround⟩

theorem Alone.neg (h : Alone n d p x) : Alone n (-d) p x := by
  intro i hi hin
  have hround : (x + i * -d) % n = (x + (n.toNat - i : Nat) * d) % n := by
    rw [show ((n.toNat - i : Nat) : Int) = n - i by omega, show x + (n - i) * d = x + i * -d + n * d by
      ring, Int.add_mul_emod_self_left]
  rw [hround]
  exact h _ (by omega) (by omega)

/-- **There and back** is where one was. -/
theorem Goes.back (h : Goes n d p x y) (h' : Goes n (-d) p y z) (h0 : 0 ≤ x) (hn : x < n)
    (hp : p x) : z = x := by
  rcases h with h | ⟨ha, rfl⟩
  · rcases h' with h' | ⟨ha', -⟩
    · exact h'.unique (h.symm h0 hn hp)
    · exact absurd ha' (h.symm h0 hn hp).not_alone
  · rcases h' with h' | ⟨-, rfl⟩
    · exact absurd ha.neg h'.not_alone
    · rfl

end

/-! ## A whole round -/

section
variable {n : Nat} {x : Int} {p : Int → Prop}

/-- One step, in offsets from the start of the round. -/
theorem Goes.offset {o : Nat} {y : Int} (h0 : 0 ≤ x) (hn : x < n) (hp : p x) (ho : o < n)
    (h : Goes n 1 p ((x + o) % n) y) :
    ∃ o', o < o' ∧ o' ≤ n ∧ y = (x + o' : Int) % n ∧ p ((x + o' : Int) % n) ∧
      ∀ i : Nat, o < i → i < o' → ¬ p ((x + i) % n) := by
  have hshift : ∀ i : Nat, ((x + o) % n + i * 1) % n = (x + (o + i : Nat)) % n := by
    intro i
    rw [Int.emod_add_emod]
    congr 1
    push_cast
    ring
  have hround : (x + (n : Nat)) % n = x := by
    rw [Int.add_emod_right, Int.emod_eq_of_lt h0 hn]
  rcases h with ⟨j, hj, hjn, rfl, hpy, hfirst⟩ | ⟨ha, rfl⟩
  · rw [hshift] at hpy ⊢
    refine ⟨o + j, by omega, ?_, rfl, hpy, fun i hoi hi => ?_⟩
    · by_contra hlt
      refine hfirst (n - o) (by omega) (by omega) ?_
      rw [hshift, show o + (n - o) = n by omega, hround]
      exact hp
    · obtain ⟨k, rfl⟩ := Nat.exists_eq_add_of_lt hoi
      rw [show o + k + 1 = o + (k + 1) by omega, ← hshift]
      exact hfirst (k + 1) (by omega) (by omega)
  · -- then the round starts here
    have hzero : o = 0 := by
      by_contra hne
      refine ha (n - o) (by omega) (by omega) ?_
      rw [hshift, show o + (n - o) = n by omega, hround]
      exact hp
    subst hzero
    refine ⟨n, ho, le_rfl, ?_, by rwa [hround], fun i hi hin => ?_⟩
    · rw [hround, Nat.cast_zero, add_zero, Int.emod_eq_of_lt h0 hn]
    · have hno := ha i (by omega) (by omega)
      rwa [hshift, Nat.zero_add] at hno

variable [DecidablePred p]

/-- The positions with `p`. -/
def marked (n : Nat) (p : Int → Prop) [DecidablePred p] : List Int :=
  ((List.range n).map Nat.cast).filter (p ·)

/-- The offsets with `p` behind `o`. -/
def offsets (n : Nat) (p : Int → Prop) [DecidablePred p] (x : Int) (o : Nat) : List Nat :=
  (List.range' (o + 1) (n - o)).filter fun i => p ((x + i) % n)

theorem offsets_eq_cons {o o' : Nat} (ho : o < o') (hn : o' ≤ n) (hp : p ((x + o' : Int) % n))
    (hno : ∀ i : Nat, o < i → i < o' → ¬ p ((x + i) % n)) :
    offsets n p x o = o' :: offsets n p x o' := by
  unfold offsets
  rw [show n - o = (o' - o - 1) + (1 + (n - o')) by omega, ← List.range'_append_1,
    ← List.range'_append_1, List.filter_append, List.filter_append]
  have hnone : ((List.range' (o + 1) (o' - o - 1)).filter fun i : Nat => p ((x + i) % n)) = [] := by
    refine List.filter_eq_nil_iff.2 fun i hi => ?_
    obtain ⟨hi1, hi2⟩ := List.mem_range'_1.1 hi
    simpa using hno i (by omega) (by omega)
  have hone : ((List.range' (o + 1 + (o' - o - 1)) 1).filter fun i : Nat => p ((x + i) % n)) = [o'] := by
    rw [show o + 1 + (o' - o - 1) = o' by omega]
    simpa using hp
  rw [hnone, hone, show o + 1 + (o' - o - 1) + 1 = o' + 1 by omega]
  rfl

/-- The steps take the offsets in order. -/
theorem chain_offsets {ys : List Int} (h0 : 0 ≤ x) (hn : x < n) (hp : p x) {o : Nat} (ho : o ≤ n)
    (h : List.IsChain (Goes n 1 p) ((x + o) % n :: ys)) (hlen : ys.length = (offsets n p x o).length) :
    ys = (offsets n p x o).map fun i : Nat => (x + i) % n := by
  induction ys generalizing o with
  | nil => rw [List.eq_nil_of_length_eq_zero hlen.symm]; rfl
  | cons y ys ih =>
    have hlt : o < n := by
      rcases Nat.lt_or_eq_of_le ho with hlt | rfl
      · exact hlt
      · simp [offsets] at hlen
    obtain ⟨hy, h⟩ := List.isChain_cons_cons.1 h
    obtain ⟨o', hoo, hon, rfl, hpo, hno⟩ := hy.offset h0 hn hp hlt
    rw [offsets_eq_cons hoo hon hpo hno, List.map_cons]
    rw [offsets_eq_cons hoo hon hpo hno, List.length_cons, List.length_cons, Nat.add_right_cancel_iff]
      at hlen
    rw [← ih hon h hlen]

theorem eq_of_emod_eq {i j : Nat} (hi : 1 ≤ i) (hin : i ≤ n) (hj : 1 ≤ j) (hjn : j ≤ n)
    (h : (x + i) % n = (x + j) % n) : i = j := by
  wlog hij : j ≤ i generalizing i j with hwlog
  · exact (hwlog hj hjn hi hin h.symm (by omega)).symm
  have hz := Int.emod_eq_emod_iff_emod_sub_eq_zero.1 h
  rw [show x + i - (x + j) = (i - j : Nat) by omega, Int.emod_eq_of_lt (by omega) (by omega)] at hz
  omega

/-- The offsets of a round lead to every position with `p`. -/
theorem offsets_perm (h0 : 0 ≤ x) (hn : x < n) :
    ((offsets n p x 0).map fun i : Nat => (x + i) % n).Perm (marked n p) := by
  have hrange : ∀ i ∈ offsets n p x 0, 1 ≤ i ∧ i ≤ n := fun i hi => by
    have := List.mem_range'_1.1 (List.mem_filter.1 hi).1
    omega
  refine (List.perm_ext_iff_of_nodup ?_ ?_).2 fun y => ?_
  · refine List.Nodup.map_on (fun i hi j hj he => ?_) ((List.nodup_range' (h := Nat.one_pos)).filter _)
    obtain ⟨hi1, hin⟩ := hrange i hi
    obtain ⟨hj1, hjn⟩ := hrange j hj
    exact eq_of_emod_eq hi1 hin hj1 hjn he
  · exact (List.nodup_range.map Nat.cast_injective).filter _
  · simp only [marked, offsets, List.mem_map, List.mem_filter, List.mem_range'_1, List.mem_range,
      decide_eq_true_eq]
    constructor
    · rintro ⟨i, ⟨-, hp⟩, rfl⟩
      have hpos : 0 ≤ (x + i) % n := Int.emod_nonneg _ (by omega)
      have hlt : (x + i) % n < n := Int.emod_lt_of_pos _ (by omega)
      exact ⟨⟨((x + i) % n).toNat, by omega, by omega⟩, hp⟩
    · rintro ⟨⟨k, hk, rfl⟩, hp⟩
      -- the way from `x` to `k`, a whole round if they are the same
      have hway : ∃ i : Nat, 1 ≤ i ∧ i ≤ n ∧ (x + i) % n = k := by
        rcases Int.lt_or_le x k with hlt | hle
        · exact ⟨(k - x).toNat, by omega, by omega, by
            rw [show x + ((k - x).toNat : Int) = k by omega, Int.emod_eq_of_lt (by omega) (by omega)]⟩
        · exact ⟨(k - x + n).toNat, by omega, by omega, by
            rw [show x + ((k - x + n).toNat : Int) = k + n by omega, Int.add_emod_right,
              Int.emod_eq_of_lt (by omega) (by omega)]⟩
      obtain ⟨i, hi1, hin, hi⟩ := hway
      exact ⟨i, ⟨⟨by omega, by omega⟩, by rwa [hi]⟩, hi⟩

/-- **A round**: as many steps as there are positions with `p` take each of them once, the start
last. -/
theorem round_perm {ys : List Int} (h0 : 0 ≤ x) (hn : x < n) (hp : p x)
    (h : List.IsChain (Goes n 1 p) (x :: ys)) (hlen : ys.length = (marked n p).length) :
    ys.Perm (marked n p) ∧ ys.getLast? = some x := by
  have hperm := offsets_perm (p := p) h0 hn
  have hys : ys = (offsets n p x 0).map fun i : Nat => (x + i) % n := by
    refine chain_offsets h0 hn hp (Nat.zero_le n) ?_ ?_
    · rwa [Nat.cast_zero, add_zero, Int.emod_eq_of_lt h0 hn]
    · rw [hlen, ← hperm.length_eq, List.length_map]
  refine ⟨hys ▸ hperm, ?_⟩
  have hround : (x + (n : Nat)) % n = x := by
    rw [Int.add_emod_right, Int.emod_eq_of_lt h0 hn]
  obtain ⟨m, rfl⟩ : ∃ m, n = m + 1 := Nat.exists_eq_succ_of_ne_zero (by omega)
  rw [hys, offsets, Nat.sub_zero, Nat.zero_add, List.range'_1_concat, List.filter_append,
    List.map_append, Nat.add_comm 1 m]
  have hlast : ([m + 1].filter fun i : Nat => p ((x + i) % (m + 1 : Nat))) = [m + 1] := by
    rw [List.filter_singleton, hround, decide_eq_true hp]
    rfl
  rw [hlast, List.map_singleton, List.getLast?_concat, hround]

end

end Search
