import PBoot.Lib.Bytes

/-!
# What memory holds at an address

`HoldsAt m a bs`: the bytes `bs` are in memory from `a` on. It splits over `++` (`holds_append`), a
write leaves it alone or makes it true, and a copy moves it (`HoldsAt.copy`).

`SameOutside m m' a n`: two memories differ in the `n` bytes at `a` only.
-/

namespace Bytes

/-- The bytes are in memory at an address. -/
def HoldsAt (m : Mem) (a : Nat) (bs : List UInt8) : Prop := read m a bs.length = bs

section
variable {m m' : Mem} {a b n : Nat} {bs xs ys : List UInt8}

theorem holds_iff : HoldsAt m a bs ↔ ∀ k, (h : k < bs.length) → m (a + k) = bs[k] := read_eq_iff

theorem HoldsAt.at {k : Nat} (h : HoldsAt m a bs) (hk : k < bs.length) : m (a + k) = bs[k] :=
  holds_iff.1 h k hk

theorem holds_append : HoldsAt m a (xs ++ ys) ↔ HoldsAt m a xs ∧ HoldsAt m (a + xs.length) ys := by
  unfold HoldsAt
  rw [List.length_append, read_add]
  constructor
  · intro h
    exact List.append_inj h (length_read m a xs.length)
  · rintro ⟨hx, hy⟩
    rw [hx, hy]

theorem HoldsAt.left (h : HoldsAt m a (xs ++ ys)) : HoldsAt m a xs := (holds_append.1 h).1

theorem HoldsAt.right (h : HoldsAt m a (xs ++ ys)) : HoldsAt m (a + xs.length) ys := (holds_append.1 h).2

theorem HoldsAt.drop {k : Nat} (h : HoldsAt m a bs) (hk : k ≤ bs.length) :
    HoldsAt m (a + k) (bs.drop k) := by
  rw [← List.take_append_drop k bs] at h
  have := h.right
  rwa [List.length_take, Nat.min_eq_left hk] at this

theorem holds_cons {x : UInt8} : HoldsAt m a (x :: xs) ↔ m a = x ∧ HoldsAt m (a + 1) xs := by
  unfold HoldsAt
  rw [List.length_cons, read, List.cons.injEq]

theorem holds_read (m : Mem) (a n : Nat) : HoldsAt m a (read m a n) := by
  unfold HoldsAt
  rw [length_read]

theorem HoldsAt.congr (h : HoldsAt m a bs) (hm : ∀ i, a ≤ i → i < a + bs.length → m' i = m i) :
    HoldsAt m' a bs :=
  holds_iff.2 fun k hk => (hm (a + k) (by omega) (by omega)).trans (h.at hk)

theorem holds_write_same (m : Mem) (a : Nat) (bs : List UInt8) : HoldsAt (write m a bs) a bs :=
  read_write_same m a bs

theorem HoldsAt.write (h : HoldsAt m a bs) (hd : a + bs.length ≤ b ∨ b + xs.length ≤ a) :
    HoldsAt (write m b xs) a bs := by
  unfold HoldsAt
  rw [read_write_of_disjoint hd]
  exact h

/-- **A copy moves what it copies.** -/
theorem HoldsAt.copy {d s k : Nat} (h : HoldsAt m (s + k) bs) (hk : k + bs.length ≤ n) :
    HoldsAt (Bytes.write m d (read m s n)) (d + k) bs := by
  unfold HoldsAt
  rw [read_write_sub (by rw [length_read]; exact hk), drop_read, take_read,
    Nat.min_eq_left (by omega)]
  exact h

end

/-! ## Frames -/

/-- Two memories differ in the `n` bytes at `a` only. -/
def SameOutside (m m' : Mem) (a n : Nat) : Prop := ∀ i, i < a ∨ a + n ≤ i → m' i = m i

section
variable {m m' m'' : Mem} {a b n : Nat} {bs : List UInt8}

theorem SameOutside.rfl : SameOutside m m a n := fun _ _ => Eq.refl _

theorem SameOutside.trans (h : SameOutside m m' a n) (h' : SameOutside m' m'' a n) :
    SameOutside m m'' a n := fun i hi => (h' i hi).trans (h i hi)

theorem SameOutside.mono {a' n' : Nat} (h : SameOutside m m' a n) (ha : a' ≤ a)
    (hn : a + n ≤ a' + n') : SameOutside m m' a' n' := fun i hi => h i (by omega)

theorem sameOutside_write (ha : a ≤ b) (hb : b + bs.length ≤ a + n) :
    SameOutside m (write m b bs) a n := fun i hi => by
  rcases hi with hi | hi
  · exact write_of_lt (by omega)
  · exact write_of_ge (by omega)

theorem HoldsAt.same (h : HoldsAt m b bs) (hs : SameOutside m m' a n)
    (hd : b + bs.length ≤ a ∨ a + n ≤ b) : HoldsAt m' b bs :=
  h.congr fun i _ _ => hs i (by omega)

end

end Bytes
