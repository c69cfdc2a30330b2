import Mathlib.Data.List.Basic
import Mathlib.Data.List.TakeDrop
import Mathlib.Data.List.TakeWhile
import Mathlib.Tactic.Ring

/-!
# Byte memories, C strings and 32-bit words

The memory model every program model of the project is written over:

* `Mem`: a total map from addresses to bytes, with `read` (a list of bytes) and `write`; `poke`
  applies a list of writes in order. `write_append` and `write_write` join writes;
  `read_write_same`, `read_write_of_disjoint`, `read_poke_last` (the last write that touches a range
  decides what is read there) and `read_poke_of_mem` (writes that miss one another all read back)
  are the frame rules.
* `cstr`: the C string at the head of a buffer; `field n s`: an `n`-byte zeroed field after
  `snprintf(field, n, "%s", s)`. `cstr_field`: the field reads back as the first `n - 1` bytes.
* `u32`, `wrapInt`: 32-bit arithmetic; `be32`, `ofBe32`, `le64`, `ofLe64`, ...: words as bytes
  (`ofBe32_be32`, `ofLe64_le64`).
* `table n f l`: the records `f x` of `l` one after another, zero-padded to `n` bytes; `drop_table`
  cuts it at a record.
-/

namespace Bytes

/-! ## Memories -/

/-- A byte-addressed memory. -/
abbrev Mem := Nat → UInt8

/-- The `n` bytes from address `a` on. -/
def read (m : Mem) : Nat → Nat → List UInt8
  | _, 0 => []
  | a, n + 1 => m a :: read m (a + 1) n

/-- `m` with the bytes `bs` stored from address `a` on. -/
def write (m : Mem) (a : Nat) (bs : List UInt8) : Mem :=
  fun i => if a ≤ i then (bs[i - a]?).getD (m i) else m i

section
variable {m m' : Mem} {a b n k i : Nat} {bs : List UInt8}

@[simp] theorem length_read (m : Mem) (a n : Nat) : (read m a n).length = n := by
  induction n generalizing a with
  | zero => rfl
  | succ n ih => simp [read, ih]

theorem getElem?_read (m : Mem) (a n k : Nat) :
    (read m a n)[k]? = if k < n then some (m (a + k)) else none := by
  induction n generalizing a k with
  | zero => simp [read]
  | succ n ih =>
    cases k with
    | zero => simp [read]
    | succ k => simp [read, ih, Nat.add_assoc, Nat.add_comm 1 k]

theorem getElem_read (m : Mem) (a n k : Nat) (h : k < (read m a n).length) :
    (read m a n)[k] = m (a + k) := by
  have hk : k < n := by simpa using h
  have := getElem?_read m a n k
  rw [List.getElem?_eq_getElem h, if_pos hk] at this
  exact Option.some.inj this

theorem read_eq_iff {bs : List UInt8} :
    read m a bs.length = bs ↔ ∀ k, (h : k < bs.length) → m (a + k) = bs[k] := by
  constructor
  · intro hr k hk
    have := getElem_read m a bs.length k (by simpa using hk)
    rw [← this]
    exact List.getElem_of_eq hr _
  · intro hb
    apply List.ext_getElem (by simp)
    intro k _ hk
    rw [getElem_read]
    exact hb k hk

theorem read_add (m : Mem) (a n k : Nat) : read m a (n + k) = read m a n ++ read m (a + n) k := by
  induction n generalizing a with
  | zero => simp [read]
  | succ n ih =>
    rw [show n + 1 + k = (n + k) + 1 by omega, read, ih, read, List.cons_append,
      show a + (n + 1) = a + 1 + n by omega]

theorem drop_read (m : Mem) (a n k : Nat) : (read m a n).drop k = read m (a + k) (n - k) := by
  apply List.ext_getElem?
  intro i
  rw [List.getElem?_drop, getElem?_read, getElem?_read, Nat.add_assoc]
  simp only [show k + i < n ↔ i < n - k by omega]

theorem take_read (m : Mem) (a n k : Nat) : (read m a n).take k = read m a (min k n) := by
  apply List.ext_getElem?
  intro i
  rw [List.getElem?_take, getElem?_read, getElem?_read]
  by_cases h : i < k
  · simp only [h, ↓reduceIte, Nat.lt_min, true_and]
  · rw [if_neg h, if_neg (by omega)]

theorem read_congr (h : ∀ i < n, m (a + i) = m' (b + i)) : read m a n = read m' b n := by
  apply List.ext_getElem (by simp)
  intro k hk _
  rw [getElem_read, getElem_read]
  exact h k (by simpa using hk)

theorem write_of_lt (h : i < a) : write m a bs i = m i := by
  simp [write, Nat.not_le.2 h]

theorem write_of_ge (h : a + bs.length ≤ i) : write m a bs i = m i := by
  simp [write, List.getElem?_eq_none (show bs.length ≤ i - a by omega)]

theorem write_at (h : k < bs.length) : write m a bs (a + k) = bs[k] := by
  simp [write, h]

@[simp] theorem write_nil (m : Mem) (a : Nat) : write m a [] = m := by
  funext i; simp [write]

theorem write_append (m : Mem) (a : Nat) (xs ys : List UInt8) :
    write m a (xs ++ ys) = write (write m a xs) (a + xs.length) ys := by
  funext i
  by_cases hi : a + xs.length ≤ i
  · have hsub : i - a - xs.length = i - (a + xs.length) := by omega
    rw [write, write, if_pos (by omega), if_pos hi, List.getElem?_append_right (by omega), hsub,
      write_of_ge hi]
  · rw [write_of_lt (a := a + xs.length) (by omega)]
    by_cases ha : a ≤ i
    · rw [write, write, if_pos ha, if_pos ha, List.getElem?_append_left (by omega)]
    · rw [write_of_lt (by omega), write_of_lt (by omega)]

/-- A write covers a shorter one at the same address. -/
theorem write_write {xs ys : List UInt8} (m : Mem) (a : Nat) (h : xs.length ≤ ys.length) :
    write (write m a xs) a ys = write m a ys := by
  funext i
  by_cases hi : a ≤ i ∧ i < a + xs.length
  · have hlt : i - a < ys.length := by omega
    simp [write, hi.1, hlt]
  · have hm : write m a xs i = m i := by
      rcases Nat.lt_or_ge i a with hlt | hge
      · exact write_of_lt hlt
      · exact write_of_ge (by omega)
    simp only [write] at hm ⊢
    rw [hm]

/-- Writes that miss one another commute. -/
theorem write_comm {xs ys : List UInt8} (m : Mem) (h : a + xs.length ≤ b) :
    write (write m a xs) b ys = write (write m b ys) a xs := by
  funext i
  by_cases hb : b ≤ i
  · have hm : write m a xs i = m i := write_of_ge (by omega)
    rw [@write_of_ge (write m b ys) a i xs (by omega)]
    simp only [write] at hm ⊢
    rw [hm]
  · have hm : write m b ys i = m i := write_of_lt (by omega)
    rw [@write_of_lt (write m a xs) b i ys (by omega)]
    simp only [write] at hm ⊢
    rw [hm]

/-- Writing what is there changes nothing. -/
theorem write_read (m : Mem) (a n : Nat) : write m a (read m a n) = m := by
  funext i
  by_cases h : a ≤ i ∧ i < a + n
  · obtain ⟨k, rfl⟩ : ∃ k, i = a + k := ⟨i - a, by omega⟩
    rw [write_at (by rw [length_read]; omega), getElem_read]
  · rcases Nat.lt_or_ge i a with hlt | hge
    · exact write_of_lt hlt
    · exact write_of_ge (by rw [length_read]; omega)

theorem read_write_same (m : Mem) (a : Nat) (bs : List UInt8) :
    read (write m a bs) a bs.length = bs :=
  read_eq_iff.2 fun _ hk => write_at hk

/-- A write leaves a disjoint range alone. -/
theorem read_write_of_disjoint (h : b + n ≤ a ∨ a + bs.length ≤ b) :
    read (write m a bs) b n = read m b n := by
  apply read_congr
  intro i hi
  rcases h with h | h
  · exact write_of_lt (by omega)
  · exact write_of_ge (by omega)

/-- A part of what was just written reads back as that part. -/
theorem read_write_sub (h : k + n ≤ bs.length) :
    read (write m a bs) (a + k) n = (bs.drop k).take n := by
  apply List.ext_getElem (by simp; omega)
  intro i hi _
  have hin : i < n := by simpa using hi
  rw [getElem_read, List.getElem_take, List.getElem_drop, Nat.add_assoc]
  exact write_at (by omega)

theorem read_write_head (h : n ≤ bs.length) : read (write m a bs) a n = bs.take n := by
  have hsub : read (write m a bs) (a + 0) n = _ := read_write_sub (by rwa [Nat.zero_add])
  rwa [Nat.add_zero, List.drop_zero] at hsub

end

/-! ## Sequences of writes -/

/-- The memory after the writes `ws` (address and bytes), in order. -/
def poke (m : Mem) (ws : List (Nat × List UInt8)) : Mem :=
  ws.foldl (fun m w => write m w.1 w.2) m

/-- The write `w` leaves the `n` bytes at `a` alone. -/
def Misses (a n : Nat) (w : Nat × List UInt8) : Prop :=
  a + n ≤ w.1 ∨ w.1 + w.2.length ≤ a

section
variable {m : Mem} {a n : Nat} {ws vs : List (Nat × List UInt8)}

@[simp] theorem poke_cons (m : Mem) (w : Nat × List UInt8) (ws : List (Nat × List UInt8)) :
    poke m (w :: ws) = poke (write m w.1 w.2) ws := rfl

theorem poke_append (m : Mem) (ws vs : List (Nat × List UInt8)) :
    poke m (ws ++ vs) = poke (poke m ws) vs := by
  simp [poke]

theorem read_poke_of_misses (h : ∀ w ∈ ws, Misses a n w) : read (poke m ws) a n = read m a n := by
  induction ws generalizing m with
  | nil => rfl
  | cons w ws ih =>
    rw [poke_cons, ih fun v hv => h v (List.mem_cons_of_mem _ hv)]
    exact read_write_of_disjoint (h w List.mem_cons_self)

/-- What writes leave at an address depends on what was there only. -/
theorem poke_congr {m' : Mem} {i : Nat} (h : m i = m' i) (ws : List (Nat × List UInt8)) :
    poke m ws i = poke m' ws i := by
  induction ws generalizing m m' with
  | nil => exact h
  | cons w ws ih =>
    refine ih ?_
    simp only [write, h]

/-- **The last write to a range decides what it holds.** -/
theorem read_poke_last {bs : List UInt8} (h : ∀ w ∈ vs, Misses a bs.length w) :
    read (poke m (ws ++ (a, bs) :: vs)) a bs.length = bs := by
  rw [poke_append, poke_cons, read_poke_of_misses h]
  exact read_write_same _ _ _

/-- **Of writes that miss the ones before them, each reads back.** -/
theorem read_poke_of_mem {bs : List UInt8}
    (hvs : vs.Pairwise fun w v => Misses w.1 w.2.length v) (h : (a, bs) ∈ vs) :
    read (poke m (ws ++ vs)) a bs.length = bs := by
  obtain ⟨pre, post, rfl⟩ := List.append_of_mem h
  obtain ⟨-, hpost, -⟩ := List.pairwise_append.1 hvs
  rw [← List.append_assoc]
  exact read_poke_last (List.pairwise_cons.1 hpost).1

end

/-! ## C strings -/

/-- The bytes of an ASCII string literal, without its NUL. -/
def ascii (s : String) : List UInt8 := s.toList.map fun c => UInt8.ofNat c.toNat

/-- The C string at the head of a buffer (all of it when it holds no NUL). -/
def cstr (bs : List UInt8) : List UInt8 := bs.takeWhile (· ≠ 0)

/-- The C string that `snprintf(buf, n, "%s", s)` leaves. -/
def snprintf (n : Nat) (s : List UInt8) : List UInt8 := s.take (n - 1)

/-- An `n`-byte field, zero at first, after `snprintf(field, n, "%s", s)`. -/
def field (n : Nat) (s : List UInt8) : List UInt8 :=
  snprintf n s ++ List.replicate (n - (snprintf n s).length) 0

theorem length_snprintf (n : Nat) (s : List UInt8) :
    (snprintf n s).length = min (n - 1) s.length := List.length_take

theorem snprintf_eq_self_iff {n : Nat} {s : List UInt8} : snprintf n s = s ↔ s.length ≤ n - 1 :=
  List.take_eq_self_iff _

theorem snprintf_snprintf (n k : Nat) (s : List UInt8) :
    snprintf n (snprintf k s) = snprintf (min n k) s := by
  rw [snprintf, snprintf, List.take_take, snprintf]
  congr 1
  omega

theorem not_mem_snprintf {n : Nat} {s : List UInt8} (h : 0 ∉ s) : 0 ∉ snprintf n s :=
  fun hm => h (List.mem_of_mem_take hm)

@[simp] theorem length_field (n : Nat) (s : List UInt8) : (field n s).length = n := by
  simp only [field, List.length_append, length_snprintf, List.length_replicate]
  omega

theorem cstr_of_nul {s t : List UInt8} (h : 0 ∉ s) : cstr (s ++ 0 :: t) = s := by
  induction s with
  | nil => simp [cstr]
  | cons x s ih =>
    simp only [List.mem_cons, not_or] at h
    rw [List.cons_append, cstr, List.takeWhile_cons_of_pos (by simpa using Ne.symm h.1)]
    exact congrArg (x :: ·) (ih h.2)

theorem cstr_of_not_mem {s : List UInt8} (h : 0 ∉ s) : cstr s = s := by
  rw [cstr, List.takeWhile_eq_self_iff]
  exact fun x hx => decide_eq_true fun h0 => h (h0 ▸ hx)

theorem not_mem_cstr (bs : List UInt8) : 0 ∉ cstr bs := by
  intro h
  simpa using List.mem_takeWhile_imp h

/-- **A field reads back as the string cut to `n - 1` bytes**, whatever follows it. -/
theorem cstr_field {n : Nat} {s : List UInt8} (hn : 0 < n) (h : 0 ∉ s) (t : List UInt8) :
    cstr (field n s ++ t) = snprintf n s := by
  have hz : n - (snprintf n s).length = n - (snprintf n s).length - 1 + 1 := by
    rw [length_snprintf]; omega
  rw [field, hz, List.replicate_succ, List.append_assoc, List.cons_append]
  exact cstr_of_nul (not_mem_snprintf h)

/-! ## 32-bit words -/

/-- A `uint32_t`. -/
def u32 (n : Nat) : Nat := n % 2 ^ 32

@[simp] theorem u32_of_lt {n : Nat} (h : n < 2 ^ 32) : u32 n = n := Nat.mod_eq_of_lt h

/-- The `int` that a result wraps to. -/
def wrapInt (z : Int) : Int := Int.bmod z (2 ^ 32)

theorem wrapInt_of_lt {z : Int} (hlo : -2 ^ 31 ≤ z) (hhi : z < 2 ^ 31) : wrapInt z = z :=
  Int.bmod_eq_of_le (by omega) (by omega)

/-- The big-endian bytes of `v mod 2^32` (`htobe32`). -/
def be32 (v : Nat) : List UInt8 :=
  [UInt8.ofNat (v / 2 ^ 24), UInt8.ofNat (v / 2 ^ 16), UInt8.ofNat (v / 2 ^ 8), UInt8.ofNat v]

/-- The value of the big-endian word at the head of a buffer (`__be32_to_cpu`). -/
def ofBe32 (bs : List UInt8) : Nat :=
  (bs.getD 0 0).toNat * 2 ^ 24 + (bs.getD 1 0).toNat * 2 ^ 16 + (bs.getD 2 0).toNat * 2 ^ 8 +
    (bs.getD 3 0).toNat

/-- The value of the little-endian word at the head of a buffer (`__le32_to_cpu`). -/
def ofLe32 (bs : List UInt8) : Nat :=
  (bs.getD 0 0).toNat + (bs.getD 1 0).toNat * 2 ^ 8 + (bs.getD 2 0).toNat * 2 ^ 16 +
    (bs.getD 3 0).toNat * 2 ^ 24

/-- The little-endian bytes of `v mod 2^32`. -/
def le32 (v : Nat) : List UInt8 :=
  [UInt8.ofNat v, UInt8.ofNat (v / 2 ^ 8), UInt8.ofNat (v / 2 ^ 16), UInt8.ofNat (v / 2 ^ 24)]

/-- The little-endian bytes of `v mod 2^64`. -/
def le64 (v : Nat) : List UInt8 := le32 v ++ le32 (v / 2 ^ 32)

/-- The value of the little-endian 64-bit word at the head of a buffer. -/
def ofLe64 (bs : List UInt8) : Nat := ofLe32 bs + 2 ^ 32 * ofLe32 (bs.drop 4)

@[simp] theorem length_be32 (v : Nat) : (be32 v).length = 4 := rfl

@[simp] theorem length_le64 (v : Nat) : (le64 v).length = 8 := rfl

theorem ofBe32_be32_append (v : Nat) (t : List UInt8) : ofBe32 (be32 v ++ t) = v % 2 ^ 32 := by
  simp [ofBe32, be32]
  omega

theorem ofBe32_be32 {v : Nat} (h : v < 2 ^ 32) (t : List UInt8) : ofBe32 (be32 v ++ t) = v := by
  rw [ofBe32_be32_append, Nat.mod_eq_of_lt h]

theorem ofLe32_lt (bs : List UInt8) : ofLe32 bs < 2 ^ 32 := by
  have hb : ∀ k, (bs.getD k 0).toNat < 2 ^ 8 := fun k => (bs.getD k 0).toNat_lt
  have := hb 0; have := hb 1; have := hb 2; have := hb 3
  unfold ofLe32
  omega

theorem ofLe64_lt (bs : List UInt8) : ofLe64 bs < 2 ^ 64 := by
  have := ofLe32_lt bs
  have := ofLe32_lt (bs.drop 4)
  unfold ofLe64
  omega

theorem ofLe32_le32_append (v : Nat) (t : List UInt8) : ofLe32 (le32 v ++ t) = v % 2 ^ 32 := by
  simp [ofLe32, le32]
  omega

theorem ofLe64_le64 (v : Nat) : ofLe64 (le64 v) = v % 2 ^ 64 := by
  have hhi : ofLe32 ((le64 v).drop 4) = v / 2 ^ 32 % 2 ^ 32 := by
    have := ofLe32_le32_append (v / 2 ^ 32) []
    rwa [List.append_nil] at this
  rw [ofLe64, hhi, le64, ofLe32_le32_append]
  omega

theorem le32_mod (v : Nat) : le32 (v % 2 ^ 32) = le32 v := by
  simp only [le32, List.cons.injEq, and_true, ← UInt8.toNat_inj, UInt8.toNat_ofNat']
  omega

theorem le64_mod (v : Nat) : le64 (v % 2 ^ 64) = le64 v := by
  have hlo : le32 (v % 2 ^ 64) = le32 v := by
    rw [← le32_mod, Nat.mod_mod_of_dvd _ (by decide), le32_mod]
  have hhi : le32 (v % 2 ^ 64 / 2 ^ 32) = le32 (v / 2 ^ 32) := by
    rw [← le32_mod (v / 2 ^ 32)]
    congr 1
    omega
  rw [le64, hlo, hhi, le64]

/-! ## Tables of records -/

/-- The records of `l` one after another, filled with zeros up to `size` bytes. -/
def table {α : Type*} (size : Nat) (f : α → List UInt8) (l : List α) : List UInt8 :=
  l.flatMap f ++ List.replicate (size - (l.flatMap f).length) 0

section
variable {α : Type*} {f : α → List UInt8} {c : Nat}

theorem length_flatMap_const (hc : ∀ x, (f x).length = c) (l : List α) :
    (l.flatMap f).length = c * l.length := by
  induction l with
  | nil => rfl
  | cons x l ih => rw [List.flatMap_cons, List.length_append, hc, ih, List.length_cons]; ring

theorem length_table (hc : ∀ x, (f x).length = c) {l : List α} {n : Nat}
    (h : c * l.length ≤ n) : (table n f l).length = n := by
  simp only [table, List.length_append, List.length_replicate, length_flatMap_const hc]
  omega

theorem drop_flatMap_const (hc : ∀ x, (f x).length = c) (l : List α) (j : Nat) :
    (l.flatMap f).drop (c * j) = (l.drop j).flatMap f := by
  induction l generalizing j with
  | nil => simp
  | cons x l ih =>
    cases j with
    | zero => simp
    | succ j =>
      rw [List.flatMap_cons, Nat.mul_succ, Nat.add_comm, ← List.drop_drop, List.drop_succ_cons,
        ← ih j, List.drop_left' (hc x)]

/-- **A table cut at record `j`**: the records from `j` on, then the zeros. -/
theorem drop_table (hc : ∀ x, (f x).length = c) {l : List α} {n j : Nat} (hj : j ≤ l.length)
    (h : c * l.length ≤ n) :
    (table n f l).drop (c * j) = table (n - c * j) f (l.drop j) := by
  have hle : c * j ≤ (l.flatMap f).length := by
    rw [length_flatMap_const hc]; exact Nat.mul_le_mul_left c hj
  rw [table, table, List.drop_append_of_le_length hle, drop_flatMap_const hc,
    length_flatMap_const hc, length_flatMap_const hc, List.length_drop, Nat.mul_sub]
  congr 2
  have := Nat.mul_le_mul_left c hj
  omega

theorem table_cons (hc : ∀ x, (f x).length = c) (x : α) (l : List α) (n : Nat) :
    table n f (x :: l) = f x ++ table (n - c) f l := by
  rw [table, table, List.flatMap_cons, List.length_append, hc, List.append_assoc, Nat.sub_sub]

theorem drop_table_getElem (hc : ∀ x, (f x).length = c) {l : List α} {n j : Nat}
    (hj : j < l.length) (h : c * l.length ≤ n) :
    (table n f l).drop (c * j) =
      f l[j] ++ table (n - c * j - c) f (l.drop (j + 1)) := by
  rw [drop_table hc (Nat.le_of_lt hj) h, List.drop_eq_getElem_cons hj, table_cons hc]

theorem drop_table_zero (hc : ∀ x, (f x).length = c) {l : List α} {n j : Nat}
    (hj : l.length ≤ j) : (table n f l).drop (c * j) = List.replicate (n - c * j) 0 := by
  have hle : c * l.length ≤ c * j := Nat.mul_le_mul_left c hj
  rw [table, List.drop_append, List.drop_eq_nil_of_le (by rw [length_flatMap_const hc]; exact hle),
    List.nil_append, length_flatMap_const hc, List.drop_replicate]
  congr 1
  omega

end

end Bytes
