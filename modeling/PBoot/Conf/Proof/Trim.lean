import PBoot.Conf.Trim

/-!
# A line is trimmed within the line

* `trimEnd_stops`: the trim stops at a byte that stays, and has then zeroed what is behind it.
* `trimEnd_below`: without such a byte it looks at the byte before the line.
* `trimLaw_iff`: the trim touches bytes of the line only, and leaves what it should, exactly when the
  line has a byte that is not a blank, a tab or a newline.
-/

namespace PBoot

open Bytes Text

/-- A string as `fgets` stores it. -/
structure StoredLine (m : Mem) (line : Nat) (s : List UInt8) : Prop where
  ne : s ≠ []
  no_nul : 0 ∉ s
  fits : s.length < lineSize
  stored : read m line (s.length + 1) = s ++ [0]

/-- The line without its trailing blanks, tabs and newline. -/
def trimRight (s : List UInt8) : List UInt8 := s.rdropWhile atEnd

/-- What trimming a line should do: touch its bytes only, take away what is trailing and find the
first character that is not a blank. -/
def TrimLaw (m : Mem) (line : Nat) (s : List UInt8) : Prop :=
  ∃ r, trimLine m line = some r ∧
    (∀ a ∈ r.touched, line ≤ a.addr ∧ a.addr ≤ line + s.length) ∧
    r.mem = write m line (trimRight s ++ List.replicate (s.length - (trimRight s).length) 0) ∧
    r.name = line + ((trimRight s).takeWhile isBlank).length

/-! ## The end -/

section
variable {m : Mem} {line k n : Nat}

theorem trim_test {e : Nat} (h : line ≤ e) :
    (line ≤ e && m e == 32 || m e == 9 || m e == newline) = atEnd (m e) := by
  simp [atEnd, isBlank, h]

/-- The trim stops at a byte that stays. -/
theorem trimEnd_stops (hk : atEnd (m (line + k)) = false)
    (hn : ∀ i < n, atEnd (m (line + k + 1 + i)) = true) :
    ∃ touched, trimEnd line (line + k + 1 + n) m =
        some (write m (line + k + 1) (List.replicate n 0), touched) ∧
      ∀ a ∈ touched, line ≤ a.addr ∧ a.addr < line + k + 1 + n := by
  induction n generalizing m with
  | zero =>
    refine ⟨[.read (line + k)], ?_, fun a ha => ?_⟩
    · rw [Nat.add_zero, trimEnd, trim_test (Nat.le_add_right line k), if_neg (by simp [hk])]
      simp
    · rw [List.mem_singleton.1 ha]
      simp [Access.addr]
  | succ n ih =>
    have hsame : ∀ i, i < line + k + 1 + n → write m (line + k + 1 + n) [0] i = m i :=
      fun i hi => write_of_lt hi
    obtain ⟨touched, hrun, htouched⟩ := @ih (write m (line + k + 1 + n) [0])
      (by rw [hsame _ (by omega)]; exact hk)
      (fun i hi => by rw [hsame _ (by omega)]; exact hn i (by omega))
    refine ⟨.read (line + k + 1 + n) :: .write (line + k + 1 + n) :: touched, ?_, fun a ha => ?_⟩
    · have htest : line ≤ line + k + 1 + n := by omega
      rw [← Nat.add_assoc, trimEnd, trim_test htest, if_pos (hn n (Nat.lt_succ_self n)), hrun,
        List.replicate_succ', write_append, List.length_replicate,
        ← write_comm m (by rw [List.length_replicate])]
      rfl
    · rcases List.mem_cons.1 ha with rfl | ha
      · simp only [Access.addr]
        omega
      · rcases List.mem_cons.1 ha with rfl | ha
        · simp only [Access.addr]
          omega
        · have := htouched a ha
          omega

/-- A line of which nothing stays is left below its start. -/
theorem trimEnd_below {r : Mem × List Access} (hn : ∀ i < n, atEnd (m (line + i)) = true)
    (h : trimEnd line (line + n) m = some r) : 0 < line ∧ .read (line - 1) ∈ r.2 := by
  induction n generalizing m r with
  | zero =>
    cases line with
    | zero => cases h
    | succ e =>
      refine ⟨Nat.succ_pos e, ?_⟩
      rw [Nat.add_zero, trimEnd] at h
      split at h
      · obtain ⟨r', -, rfl⟩ := Option.map_eq_some_iff.1 h
        simp
      · cases h
        simp
  | succ n ih =>
    rw [← Nat.add_assoc, trimEnd, trim_test (Nat.le_add_right line n),
      if_pos (hn n (Nat.lt_succ_self n))] at h
    obtain ⟨r', hr', rfl⟩ := Option.map_eq_some_iff.1 h
    obtain ⟨hpos, hmem⟩ := ih (fun i hi => by
      rw [write_of_lt (by omega)]
      exact hn i (by omega)) hr'
    exact ⟨hpos, by simp [hmem]⟩

end

/-! ## The start -/

theorem skipBlanks_eq {m : Mem} {line k n : Nat} (hk : isBlank (m (line + k)) = false)
    (hb : ∀ i < k, isBlank (m (line + i)) = true) (hn : k < n) :
    ∃ touched, skipBlanks m n line = some (line + k, touched) ∧
      ∀ a ∈ touched, line ≤ a.addr ∧ a.addr ≤ line + k := by
  induction k generalizing line n with
  | zero =>
    obtain ⟨n, rfl⟩ : ∃ j, n = j + 1 := ⟨n - 1, by omega⟩
    refine ⟨[.read line], ?_, fun a ha => ?_⟩
    · rw [skipBlanks, if_neg (by simpa using hk)]
      rfl
    · rw [List.mem_singleton.1 ha]
      simp [Access.addr]
  | succ k ih =>
    obtain ⟨n, rfl⟩ : ∃ j, n = j + 1 := ⟨n - 1, by omega⟩
    have hnext : ∀ i, line + 1 + i = line + (i + 1) := fun i => by omega
    obtain ⟨touched, hrun, htouched⟩ := @ih (line + 1) n (by rw [hnext]; exact hk)
      (fun i hi => by rw [hnext]; exact hb (i + 1) (by omega)) (by omega)
    refine ⟨.read line :: touched, ?_, fun a ha => ?_⟩
    · rw [skipBlanks, if_pos (by simpa using hb 0 (Nat.succ_pos k)), hrun,
        hnext]
      rfl
    · rcases List.mem_cons.1 ha with rfl | ha
      · simp [Access.addr]
      · have := htouched a ha
        omega

/-! ## The line -/

section
variable {m : Mem} {line : Nat} {s : List UInt8}

theorem StoredLine.getElem (h : StoredLine m line s) {i : Nat} (hi : i < s.length) :
    m (line + i) = s[i] := by
  have hr : read m line s.length = s := by
    have hs := h.stored
    rw [read_add] at hs
    exact (List.append_inj hs (length_read _ _ _)).1
  exact read_eq_iff.1 hr i hi

theorem StoredLine.at (h : StoredLine m line s) {t u : List UInt8} {b : UInt8}
    (hs : s = t ++ b :: u) : m (line + t.length) = b := by
  subst hs
  rw [h.getElem (by simp), List.getElem_append_right (Nat.le_refl _)]
  simp

theorem StoredLine.all (h : StoredLine m line s) {t u v : List UInt8} {p : UInt8 → Bool}
    (hs : s = t ++ (u ++ v)) (hu : ∀ c ∈ u, p c = true) :
    ∀ i < u.length, p (m (line + t.length + i)) = true := by
  intro i hi
  subst hs
  rw [Nat.add_assoc, h.getElem (by simp; omega), List.getElem_append_right (Nat.le_add_right _ _),
    List.getElem_append_left (by omega)]
  exact hu _ (List.getElem_mem _)

theorem StoredLine.strlen (h : StoredLine m line s) :
    (cstr (read m line lineSize)).length = s.length := by
  have hfits := h.fits
  rw [show lineSize = s.length + 1 + (lineSize - (s.length + 1)) by omega, read_add, h.stored,
    List.append_assoc]
  exact congrArg List.length (cstr_of_nul h.no_nul)

/-- The last byte that stays, and what is behind it. -/
theorem trimRight_split (h : ∃ b ∈ s, atEnd b = false) :
    ∃ t b u, s = t ++ b :: u ∧ trimRight s = t ++ [b] ∧ atEnd b = false ∧
      ∀ c ∈ u, atEnd c = true := by
  obtain ⟨t, b, u, rfl, hb, hu⟩ := @exists_last_not _ atEnd s (by simpa using h)
  refine ⟨t, b, u, rfl, ?_, by simpa using hb, hu⟩
  rw [trimRight, rdropWhile_append_cons hb, List.rdropWhile_eq_nil_iff.2 hu]

/-- The line with its end taken away. -/
def trimmedMem (m : Mem) (line : Nat) (s : List UInt8) : Mem :=
  write m line (trimRight s ++ List.replicate (s.length - (trimRight s).length) 0)

theorem StoredLine.trimmedMem_eq (h : StoredLine m line s) {t u : List UInt8}
    (hs : s = t ++ u) (ht : trimRight s = t) :
    trimmedMem m line s = write m (line + t.length) (List.replicate u.length 0) := by
  have hlen : s.length - (trimRight s).length = u.length := by
    rw [ht, hs, List.length_append, Nat.add_sub_cancel_left]
  have hread : read m line t.length = t := by
    have hst := h.stored
    rw [hs, List.length_append, Nat.add_assoc, read_add, List.append_assoc] at hst
    exact (List.append_inj hst (length_read _ _ _)).1
  have hsame : write m line t = m := by
    conv_rhs => rw [← write_read m line t.length, hread]
  rw [trimmedMem, hlen, ht, write_append, hsame]

/-- **The trim of the end**, on a line of which something stays. -/
theorem StoredLine.trimEnd_eq (h : StoredLine m line s) (hs : ∃ b ∈ s, atEnd b = false) :
    ∃ back, trimEnd line (line + s.length) m = some (trimmedMem m line s, back) ∧
      ∀ a ∈ back, line ≤ a.addr ∧ a.addr ≤ line + s.length := by
  obtain ⟨t, b, u, hsplit, htrim, hb, hu⟩ := trimRight_split hs
  have hsplit' : s = t ++ [b] ++ u := by simp [hsplit]
  have hlen : line + s.length = line + t.length + 1 + u.length := by
    simp [hsplit]
    omega
  have hk : atEnd (m (line + t.length)) = false := by rwa [h.at hsplit]
  have hn : ∀ i < u.length, atEnd (m (line + t.length + 1 + i)) = true := by
    have hall := @StoredLine.all _ _ _ h (t ++ [b]) u [] atEnd (by simpa using hsplit) hu
    simpa [Nat.add_assoc] using hall
  obtain ⟨back, hback, hin⟩ := trimEnd_stops hk hn
  refine ⟨back, ?_, fun a ha => ?_⟩
  · rw [hlen, hback, h.trimmedMem_eq hsplit' htrim, List.length_append, List.length_singleton,
      Nat.add_assoc]
  · have := hin a ha
    omega

/-- **The skip of blanks**, once the end is trimmed. -/
theorem StoredLine.skipBlanks_eq (h : StoredLine m line s) (hs : ∃ b ∈ s, atEnd b = false) :
    ∃ front, skipBlanks (trimmedMem m line s) lineSize line =
        some (line + ((trimRight s).takeWhile isBlank).length, front) ∧
      ∀ a ∈ front, line ≤ a.addr ∧ a.addr ≤ line + s.length := by
  obtain ⟨t, b, u, hsplit, htrim, hb, -⟩ := trimRight_split hs
  have hblank : isBlank b = false := by
    simp only [atEnd, Bool.or_eq_false_iff] at hb
    exact hb.1
  obtain ⟨t', b', u', hfirst, hb', ht'⟩ := @exists_first_not _ isBlank (t ++ [b])
    ⟨b, by simp, by simp [hblank]⟩
  have hs' : s = t' ++ b' :: (u' ++ u) := by
    rw [hsplit, ← List.singleton_append, ← List.append_assoc, hfirst]
    simp
  have hle : t'.length < (t ++ [b]).length := by
    rw [hfirst]
    simp
  have hlen : (t ++ [b]).length ≤ s.length := by simp [hsplit]
  have hfits := h.fits
  have hsame : ∀ i < (t ++ [b]).length, trimmedMem m line s (line + i) = m (line + i) := by
    intro i hi
    rw [h.trimmedMem_eq (t := t ++ [b]) (u := u) (by simp [hsplit]) htrim]
    exact write_of_lt (by omega)
  obtain ⟨front, hfront, hin⟩ := @PBoot.skipBlanks_eq (trimmedMem m line s) line t'.length lineSize
    (by rw [hsame _ hle, h.at hs']; simpa using hb')
    (fun i hi => by
      rw [hsame i (by omega)]
      exact @StoredLine.all _ _ _ h [] t' _ isBlank hs' ht' i hi) (by omega)
  refine ⟨front, ?_, fun a ha => ?_⟩
  · rw [hfront, htrim, hfirst, takeWhile_append_head ht' (by simpa using hb')]
  · have := hin a ha
    omega

theorem trimLaw_of_stays (h : StoredLine m line s) (hs : ∃ b ∈ s, atEnd b = false) :
    TrimLaw m line s := by
  obtain ⟨back, hback, hback_in⟩ := h.trimEnd_eq hs
  obtain ⟨front, hfront, hfront_in⟩ := h.skipBlanks_eq hs
  refine ⟨⟨trimmedMem m line s, _, back ++ front⟩, ?_, fun a ha => ?_, rfl, rfl⟩
  · rw [trimLine, h.strlen, hback, Option.bind_eq_bind, Option.bind_some]
    dsimp only
    rw [hfront]
    rfl
  · rcases List.mem_append.1 ha with ha | ha
    · exact hback_in a ha
    · exact hfront_in a ha

/-- Where nothing stays, the byte before the line is read. -/
theorem not_trimLaw (h : StoredLine m line s)
    (hall : ∀ i < s.length, atEnd (m (line + i)) = true) : ¬ TrimLaw m line s := by
  rintro ⟨r, hr, hin, -⟩
  rw [trimLine, h.strlen, Option.bind_eq_bind, Option.bind_eq_some_iff] at hr
  obtain ⟨r₁, hback, hr⟩ := hr
  obtain ⟨hpos, hmem⟩ := trimEnd_below hall hback
  obtain ⟨r₂, -, hr⟩ := Option.bind_eq_some_iff.1 hr
  cases hr
  have hread := hin (.read (line - 1)) (List.mem_append_left _ hmem)
  simp only [Access.addr] at hread
  omega

/-- **The law holds exactly where the line has something else than blanks, tabs and newlines.** -/
theorem trimLaw_iff (h : StoredLine m line s) :
    TrimLaw m line s ↔ ∃ b ∈ s, b ≠ 32 ∧ b ≠ 9 ∧ b ≠ 10 := by
  have htest : ∀ b : UInt8, atEnd b = false ↔ b ≠ 32 ∧ b ≠ 9 ∧ b ≠ 10 := by
    intro b
    simp [atEnd, isBlank, newline, and_assoc]
  constructor
  · intro hlaw
    by_contra hno
    refine not_trimLaw h (fun i hi => ?_) hlaw
    rw [h.getElem hi]
    by_contra hb
    exact hno ⟨s[i], List.getElem_mem hi, (htest _).1 (by simpa using hb)⟩
  · rintro ⟨b, hb, hne⟩
    exact trimLaw_of_stays h ⟨b, hb, (htest b).2 hne⟩

end

/-! ## A line that is only a newline -/

/-- Zeros, with a line in them. -/
def lineAt (line : Nat) (s : List UInt8) : Mem := write (fun _ => 0) line s

theorem storedLine_lineAt {line : Nat} {s : List UInt8} (hne : s ≠ []) (h0 : 0 ∉ s)
    (hfits : s.length < lineSize) : StoredLine (lineAt line s) line s := by
  refine ⟨hne, h0, hfits, ?_⟩
  have hnul : lineAt line s (line + s.length) = 0 := write_of_ge (Nat.le_refl _)
  rw [read_add, lineAt, read_write_same, ← lineAt, Bytes.read, Bytes.read, hnul]

theorem trimLaw_word : TrimLaw (lineAt 64 [32, 97, 9, 10]) 64 [32, 97, 9, 10] ↔
    ∃ b ∈ ([32, 97, 9, 10] : List UInt8), b ≠ 32 ∧ b ≠ 9 ∧ b ≠ 10 :=
  trimLaw_iff (storedLine_lineAt (by decide) (by decide) (by decide))

/-- Of a line that is only a newline the trim looks at the byte in front. -/
theorem trimLaw_newline : StoredLine (lineAt 64 [10]) 64 [10] ∧ ¬ TrimLaw (lineAt 64 [10]) 64 [10] := by
  have h : StoredLine (lineAt 64 [10]) 64 [10] :=
    storedLine_lineAt (by decide) (by decide) (by decide)
  exact ⟨h, not_trimLaw h (by decide)⟩

end PBoot
