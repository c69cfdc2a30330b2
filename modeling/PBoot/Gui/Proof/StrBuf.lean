import PBoot.Gui.StrBuf
import PBoot.Lib.Numeral

/-!
# What string buffers hold

`strKept_iff`: after any calls the buffer is a C string of the first characters of what they put out,
and no format is read behind its terminator, if and only if no format ends in a lone `%`, and the
buffer had been terminated by `malloc` or a character fits.
-/

namespace PBoot

open Bytes Numeral

/-! ## Outputs -/

/-- Decimal digits without leading zeros. -/
def decimal (v : Nat) : List UInt8 :=
  if v = 0 then [48] else (Nat.digits 10 v).reverse.map fun d => UInt8.ofNat (48 + d)

def convOutput (c : UInt8) (ap : List VaArg) : Option (List UInt8 × List VaArg) :=
  if c = 115 then
    match ap with
    | .str m :: ap => some (cstr m, ap)
    | _ => none
  else if c = 117 then
    match ap with
    | .word v :: ap => some (decimal v.toNat, ap)
    | _ => none
  else if c = 99 then
    match ap with
    | .word v :: ap => some ([UInt8.ofNat v.toNat], ap)
    | _ => none
  else if c = 37 then some ([37], ap)
  else some ([], ap)

/-- The characters of a format, for arguments that match it. -/
def fmtOutput : List UInt8 → List VaArg → Option (List UInt8)
  | [], _ => some []
  | c :: p, ap =>
    if c = 37 then
      match p with
      | [] => some []
      | c :: p =>
        match convOutput c ap with
        | none => none
        | some (out, ap) => (fmtOutput p ap).map (out ++ ·)
    else (fmtOutput p ap).map (c :: ·)

def StrCall.output : StrCall → Option (List UInt8)
  | .putc ch => some [ch]
  | .uint value => some (decimal value.toNat)
  | .printf fmt ap => fmtOutput (cstr fmt) ap

/-- What the calls put out, for arguments that match. -/
def outputs : List StrCall → Option (List UInt8)
  | [] => some []
  | c :: calls => c.output.bind fun o => (outputs calls).map (o ++ ·)

/-- A format ends inside a conversion. -/
def endsInside : List UInt8 → Bool
  | [] => false
  | c :: p =>
    if c = 37 then
      match p with
      | [] => true
      | _ :: p => endsInside p
    else endsInside p

/-- Formats are C strings. -/
def StrCall.Terminated : StrCall → Prop
  | .printf fmt _ => 0 ∈ fmt
  | _ => True

def StrCall.EndsInside : StrCall → Prop
  | .printf fmt _ => endsInside (cstr fmt)
  | _ => False

/-- A format was not read behind its terminator. -/
def StrRead (x : List UInt8 × Nat) : Prop := x.2 ≤ (cstr x.1).length + 1

/-- What a buffer of `n` bytes at `start` should be after `out`. -/
structure StrKept (start n : Nat) (mem : Mem) (out : List UInt8) (s : StrState) : Prop where
  terminated : 0 ∈ strbufToCstr s n
  text : 0 ∉ out → cstr (strbufToCstr s n) = out.take (n - 1)
  frame : ∀ a, a < start ∨ start + n ≤ a → s.mem a = mem a
  formats : ∀ x ∈ s.reads, StrRead x

/-! ## Digits -/

theorem decimal_eq (v : Nat) : decimal v = numeral 10 v := by
  unfold decimal numeral
  split
  · rfl
  · refine List.map_congr_left fun d hd => ?_
    rw [digitChar_of_lt (Nat.digits_lt_base (by decide) (List.mem_reverse.1 hd))]

/-- The digits fit the local buffer. -/
theorem uintLoop_eq (p : Nat) {v : Nat} (h : v < 10 ^ (p + 1)) (text : List UInt8) :
    uintLoop (p + 1) v text = some (numeral 10 v ++ text) := by
  induction p generalizing v text with
  | zero =>
    have hlt : v < 10 := by simpa using h
    rw [uintLoop, if_pos (by omega), numeral_of_lt hlt, digitChar_of_lt hlt, Nat.mod_eq_of_lt hlt]
    rfl
  | succ p ih =>
    by_cases hlt : v < 10
    · rw [uintLoop, if_pos (by omega), numeral_of_lt hlt, digitChar_of_lt hlt, Nat.mod_eq_of_lt hlt]
      rfl
    · have hle : v / 10 < 10 ^ (p + 1) := Nat.div_lt_of_lt_mul (by rw [← Nat.pow_succ']; exact h)
      rw [uintLoop, if_neg (by omega), ih hle, numeral_of_le (v := v) (by decide) (by omega),
        List.append_assoc, digitChar_of_lt (Nat.mod_lt _ (by decide))]
      rfl

theorem strbufUint_eq (s : StrState) (value : BitVec 32) :
    strbufUint s value = some ((decimal value.toNat).foldl strbufPutc s) := by
  have hlt : value.toNat < 10 ^ (9 + 1) := Nat.lt_trans value.isLt (by decide)
  rw [strbufUint, uintLoop_eq 9 hlt, List.append_nil, decimal_eq]
  rfl

/-! ## The buffer -/

/-- The buffer after `out`: nothing is written before the first character. -/
def strAfter (start n : Nat) (mem : Mem) (out : List UInt8) (reads : List (List UInt8 × Nat)) :
    StrState :=
  let text := out.take (n - 1)
  { buf := { start, stop := start + (n - 1), cur := start + text.length }
    mem := if text = [] then mem else write mem start (text ++ [0]), reads }

section
variable {start n : Nat} {mem : Mem} {out o : List UInt8} {reads : List (List UInt8 × Nat)}

theorem strAfter_new : strbufNew start n mem = strAfter start n mem [] [] := by
  simp [strbufNew, strAfter]

/-- The last terminator becomes the next character. -/
theorem write_next (mem : Mem) (start : Nat) (text : List UInt8) (ch : UInt8) :
    write (write (if text = [] then mem else write mem start (text ++ [0])) (start + text.length) [ch])
      (start + text.length + 1) [0] = write mem start (text ++ [ch] ++ [0]) := by
  have hch : write (if text = [] then mem else write mem start (text ++ [0]))
      (start + text.length) [ch] = write mem start (text ++ [ch]) := by
    split
    · next h0 => simp [h0]
    · rw [write_append, write_write _ _ (by simp), ← write_append]
  rw [hch, write_append mem start (text ++ [ch]), List.length_append]
  rfl

theorem strAfter_putc (ch : UInt8) :
    strbufPutc (strAfter start n mem out reads) ch = strAfter start n mem (out ++ [ch]) reads := by
  by_cases hlt : out.length < n - 1
  · have htake : out.take (n - 1) = out := List.take_of_length_le hlt.le
    have htake' : (out ++ [ch]).take (n - 1) = out ++ [ch] :=
      List.take_of_length_le (by rw [List.length_append]; exact hlt)
    have hcur : start + out.length < start + (n - 1) := by omega
    simp only [strAfter, strbufPutc, htake, htake', if_pos hcur, write_next]
    simp [Nat.add_assoc]
  · have htake : (out ++ [ch]).take (n - 1) = out.take (n - 1) :=
      List.take_append_of_le_length (Nat.not_lt.1 hlt)
    have hlen : (out.take (n - 1)).length = n - 1 := by
      rw [List.length_take]
      omega
    simp [strAfter, strbufPutc, htake, hlen]

theorem strAfter_puts (cs : List UInt8) :
    cs.foldl strbufPutc (strAfter start n mem out reads) = strAfter start n mem (out ++ cs) reads := by
  induction cs generalizing out with
  | nil => simp
  | cons c cs ih => rw [List.foldl_cons, strAfter_putc, ih, List.append_assoc]; rfl

/-! ## Formats -/

@[simp] theorem scan_nul (p : List UInt8) (k : Nat) (s : StrState) (ap : List VaArg) :
    strbufScan (0 :: p) k s ap = some (s, k + 1) := by
  rw [strbufScan.eq_def]
  rfl

theorem scan_conv (c : UInt8) (p : List UInt8) (k : Nat) (s : StrState) (ap : List VaArg) :
    strbufScan (37 :: c :: p) k s ap =
      (strbufConv c s ap).bind fun x => strbufScan p (k + 2) x.1 x.2 := by
  rw [strbufScan.eq_def]
  simp only [show (37 : UInt8) ≠ 0 by decide, if_false, if_true]
  cases strbufConv c s ap <;> rfl

theorem scan_char {c : UInt8} (h0 : c ≠ 0) (h : c ≠ 37) (p : List UInt8) (k : Nat) (s : StrState)
    (ap : List VaArg) : strbufScan (c :: p) k s ap = strbufScan p (k + 1) (strbufPutc s c) ap := by
  rw [strbufScan.eq_def]
  simp [h0, h]

theorem fmtOutput_conv (c : UInt8) (p : List UInt8) (ap : List VaArg) :
    fmtOutput (37 :: c :: p) ap =
      (convOutput c ap).bind fun x => (fmtOutput p x.2).map (x.1 ++ ·) := by
  rw [fmtOutput.eq_def]
  simp only [if_true]
  cases convOutput c ap <;> rfl

theorem fmtOutput_char {c : UInt8} (h : c ≠ 37) (p : List UInt8) (ap : List VaArg) :
    fmtOutput (c :: p) ap = (fmtOutput p ap).map (c :: ·) := by
  rw [fmtOutput.eq_def]
  simp [h]

theorem strAfter_conv {c : UInt8} {ap ap' : List VaArg} (h : convOutput c ap = some (o, ap')) :
    strbufConv c (strAfter start n mem out reads) ap =
      some (strAfter start n mem (out ++ o) reads, ap') := by
  unfold convOutput at h
  unfold strbufConv
  split_ifs at h ⊢
  · match ap, h with
    | .str m :: ap, h =>
      cases h
      simp [strAfter_puts]
    | .word _ :: _, h => cases h
    | [], h => cases h
  · match ap, h with
    | .word v :: ap, h =>
      cases h
      simp [strbufUint_eq, strAfter_puts]
    | .str _ :: _, h => cases h
    | [], h => cases h
  · match ap, h with
    | .word v :: ap, h =>
      cases h
      simp [strAfter_putc]
    | .str _ :: _, h => cases h
    | [], h => cases h
  · next hp =>
    cases h
    simp [hp, strAfter_putc]
  · cases h
    simp

theorem strAfter_scan {fmt : List UInt8} (rest : List UInt8) (h0 : 0 ∉ fmt)
    (hc : endsInside fmt = false) {ap : List VaArg} (ho : fmtOutput fmt ap = some o) (k : Nat) :
    strbufScan (fmt ++ 0 :: rest) k (strAfter start n mem out reads) ap =
      some (strAfter start n mem (out ++ o) reads, k + fmt.length + 1) := by
  fun_induction endsInside fmt generalizing out ap o k with
  | case1 =>
    simp only [fmtOutput, Option.some.injEq] at ho
    simp [← ho]
  | case2 => simp at hc
  | case3 c p ih =>
    rw [fmtOutput_conv, Option.bind_eq_some_iff] at ho
    obtain ⟨⟨o₁, ap'⟩, hconv, ho⟩ := ho
    obtain ⟨o₂, ho₂, rfl⟩ := Option.map_eq_some_iff.1 ho
    simp only [List.mem_cons, not_or] at h0
    rw [List.cons_append, List.cons_append, scan_conv, strAfter_conv hconv]
    have hscan : strbufScan (p ++ 0 :: rest) (k + 2)
        (strAfter start n mem (out ++ o₁) reads) ap' = _ := ih h0.2.2 hc ho₂ (k + 2)
    simpa [Nat.add_assoc, Nat.add_comm, Nat.add_left_comm] using hscan
  | case4 c p hne ih =>
    rw [fmtOutput_char hne] at ho
    obtain ⟨o', ho', rfl⟩ := Option.map_eq_some_iff.1 ho
    simp only [List.mem_cons, not_or] at h0
    rw [List.cons_append, scan_char (Ne.symm h0.1) hne, strAfter_putc]
    have hscan : strbufScan (p ++ 0 :: rest) (k + 1)
        (strAfter start n mem (out ++ [c]) reads) ap = _ := ih h0.2 hc ho' (k + 1)
    simpa [Nat.add_assoc, Nat.add_comm, Nat.add_left_comm] using hscan

end

/-- A scan reads on until a terminator. -/
theorem lt_of_scan {fmt : List UInt8} {k k' : Nat} {s s' : StrState} {ap : List VaArg}
    (h : strbufScan fmt k s ap = some (s', k')) : k < k' := by
  fun_induction strbufScan fmt k s ap with
  | case1 => simp at h
  | case2 =>
    simp only [Option.some.injEq, Prod.mk.injEq] at h
    omega
  | case3 => simp at h
  | case4 => simp at h
  | case5 =>
    next ih =>
      have := ih h
      omega
  | case6 =>
    next ih =>
      have := ih h
      omega

/-- A format that ends inside a conversion is read behind its terminator. -/
theorem scan_endsInside {fmt : List UInt8} (rest : List UInt8) (h0 : 0 ∉ fmt)
    (hc : endsInside fmt = true) {k k' : Nat} {s s' : StrState} {ap : List VaArg}
    (h : strbufScan (fmt ++ 0 :: rest) k s ap = some (s', k')) : k + fmt.length + 1 < k' := by
  fun_induction endsInside fmt generalizing s ap k with
  | case1 => simp at hc
  | case2 =>
    rw [List.cons_append, List.nil_append, scan_conv, Option.bind_eq_some_iff] at h
    obtain ⟨x, -, h⟩ := h
    simpa using lt_of_scan h
  | case3 c p ih =>
    simp only [List.mem_cons, not_or] at h0
    rw [List.cons_append, List.cons_append, scan_conv, Option.bind_eq_some_iff] at h
    obtain ⟨x, -, h⟩ := h
    have := ih h0.2.2 hc h
    simp only [List.length_cons]
    omega
  | case4 c p hne ih =>
    simp only [List.mem_cons, not_or] at h0
    rw [List.cons_append, scan_char (Ne.symm h0.1) hne] at h
    have := ih h0.2 hc h
    simp only [List.length_cons]
    omega

/-! ## Calls -/

theorem exists_cstr {m : List UInt8} (h : 0 ∈ m) : ∃ rest, m = cstr m ++ 0 :: rest := by
  obtain ⟨s, rest, rfl, h0⟩ := List.eq_append_cons_of_mem h
  exact ⟨rest, by rw [cstr_of_nul h0]⟩

section
variable {start n : Nat} {mem : Mem} {out o : List UInt8} {reads : List (List UInt8 × Nat)}

theorem strAfter_call {c : StrCall} (ht : c.Terminated) (hc : ¬ c.EndsInside)
    (ho : c.output = some o) :
    ∃ rs, c.run (strAfter start n mem out reads) =
      some (strAfter start n mem (out ++ o) (reads ++ rs)) ∧ ∀ x ∈ rs, StrRead x := by
  cases c with
  | putc ch =>
    cases ho
    exact ⟨[], by simp [StrCall.run, strAfter_putc], by simp⟩
  | uint value =>
    cases ho
    exact ⟨[], by simp [StrCall.run, strbufUint_eq, strAfter_puts], by simp⟩
  | printf fmt ap =>
    obtain ⟨rest, hfmt⟩ := exists_cstr ht
    have hscan : strbufScan _ 0 (strAfter start n mem out reads) ap = _ :=
      strAfter_scan rest (not_mem_cstr fmt) (by simpa [StrCall.EndsInside] using hc) ho 0
    rw [← hfmt] at hscan
    refine ⟨[(fmt, 0 + (cstr fmt).length + 1)], ?_, ?_⟩
    · rw [StrCall.run, strbufPrintf, hscan]
      rfl
    · simp [StrRead]

theorem strAfter_calls {calls : List StrCall} (ht : ∀ c ∈ calls, c.Terminated)
    (hc : ∀ c ∈ calls, ¬ c.EndsInside) (ho : outputs calls = some o) :
    ∃ rs, strCalls calls (strAfter start n mem out reads) =
      some (strAfter start n mem (out ++ o) (reads ++ rs)) ∧ ∀ x ∈ rs, StrRead x := by
  induction calls generalizing out o reads with
  | nil =>
    cases ho
    exact ⟨[], by simp [strCalls], by simp⟩
  | cons c calls ih =>
    obtain ⟨o₁, ho₁, ho⟩ := Option.bind_eq_some_iff.1 ho
    obtain ⟨o₂, ho₂, rfl⟩ := Option.map_eq_some_iff.1 ho
    obtain ⟨rs₁, hrun, hrs₁⟩ : ∃ rs, c.run (strAfter start n mem out reads) = some _ ∧ _ :=
      strAfter_call (ht c List.mem_cons_self) (hc c List.mem_cons_self) ho₁
    obtain ⟨rs₂, hruns, hrs₂⟩ :
        ∃ rs, strCalls calls (strAfter start n mem (out ++ o₁) (reads ++ rs₁)) = some _ ∧ _ :=
      ih (fun c h => ht c (List.mem_cons_of_mem _ h)) (fun c h => hc c (List.mem_cons_of_mem _ h)) ho₂
    refine ⟨rs₁ ++ rs₂, ?_, ?_⟩
    · rw [strCalls, List.foldlM_cons, hrun]
      simpa [strCalls] using hruns
    · intro x hx
      exact (List.mem_append.1 hx).elim (hrs₁ x) (hrs₂ x)

end

/-! ### Incomplete formats -/

@[simp] theorem putc_reads (s : StrState) (ch : UInt8) : (strbufPutc s ch).reads = s.reads := by
  unfold strbufPutc
  split <;> rfl

@[simp] theorem puts_reads (s : StrState) (cs : List UInt8) :
    (cs.foldl strbufPutc s).reads = s.reads := by
  induction cs generalizing s with
  | nil => rfl
  | cons c cs ih => rw [List.foldl_cons, ih, putc_reads]

theorem conv_reads {c : UInt8} {s s' : StrState} {ap ap' : List VaArg}
    (h : strbufConv c s ap = some (s', ap')) : s'.reads = s.reads := by
  unfold strbufConv at h
  split_ifs at h with hs hu hc hp
  · split at h
    · cases h
      exact puts_reads s _
    · cases h
  · split at h
    · rw [strbufUint_eq] at h
      cases h
      exact puts_reads s _
    · cases h
  · split at h
    · cases h
      exact putc_reads s _
    · cases h
  · cases h
    exact putc_reads s c
  · cases h
    rfl

theorem scan_reads {fmt : List UInt8} {k k' : Nat} {s s' : StrState} {ap : List VaArg}
    (h : strbufScan fmt k s ap = some (s', k')) : s'.reads = s.reads := by
  fun_induction strbufScan fmt k s ap with
  | case1 => simp at h
  | case2 =>
    cases h
    rfl
  | case3 => simp at h
  | case4 => simp at h
  | case5 =>
    next hconv _ ih =>
      rw [ih h, conv_reads hconv]
  | case6 =>
    next ih =>
      rw [ih h, putc_reads]

/-- A call reads at most one format. -/
theorem run_reads {c : StrCall} {s s' : StrState} (h : c.run s = some s') :
    ∃ rs, s'.reads = s.reads ++ rs ∧ (c.Terminated → c.EndsInside → ∃ x ∈ rs, ¬ StrRead x) := by
  cases c with
  | putc ch =>
    cases h
    exact ⟨[], by simp, fun _ => False.elim⟩
  | uint value =>
    rw [StrCall.run, strbufUint_eq, Option.some.injEq] at h
    exact ⟨[], by simp [← h], fun _ => False.elim⟩
  | printf fmt ap =>
    obtain ⟨⟨t, k⟩, hscan, rfl⟩ := Option.map_eq_some_iff.1 h
    refine ⟨[(fmt, k)], congrArg (· ++ _) (scan_reads hscan), fun ht hc => ?_⟩
    refine ⟨_, List.mem_singleton_self _, ?_⟩
    obtain ⟨rest, hfmt⟩ := exists_cstr ht
    rw [hfmt] at hscan
    have := scan_endsInside rest (not_mem_cstr fmt) hc hscan
    simp only [StrRead]
    omega

theorem calls_reads {calls : List StrCall} {s s' : StrState} (h : strCalls calls s = some s') :
    (∀ x ∈ s.reads, x ∈ s'.reads) ∧
      ((∃ c ∈ calls, c.Terminated ∧ c.EndsInside) → ∃ x ∈ s'.reads, ¬ StrRead x) := by
  induction calls generalizing s with
  | nil =>
    cases h
    exact ⟨fun _ hx => hx, by simp⟩
  | cons c calls ih =>
    rw [strCalls, List.foldlM_cons] at h
    obtain ⟨t, hrun, hcalls⟩ := Option.bind_eq_some_iff.1 h
    obtain ⟨rs, hrs, hbad⟩ := run_reads hrun
    obtain ⟨hmono, hlater⟩ := ih hcalls
    refine ⟨fun x hx => hmono x (by simp [hrs, hx]), ?_⟩
    rintro ⟨d, hd, ht, hc⟩
    rcases List.mem_cons.1 hd with rfl | hd
    · obtain ⟨x, hx, hnot⟩ := hbad ht hc
      exact ⟨x, hmono x (by simp [hrs, hx]), hnot⟩
    · exact hlater ⟨d, hd, ht, hc⟩

/-! ## What is kept -/

section
variable {start n : Nat} {mem : Mem} {out : List UInt8} {reads : List (List UInt8 × Nat)}

theorem nothing_kept_iff : out.take (n - 1) = [] ↔ ¬ (2 ≤ n ∧ out ≠ []) := by
  by_cases h : out = []
  · simp [h]
  · simp [h]
    omega

/-- The buffer of a text that is not empty. -/
theorem toCstr_strAfter (h : out.take (n - 1) ≠ []) :
    ∃ rest, strbufToCstr (strAfter start n mem out reads) n = out.take (n - 1) ++ 0 :: rest := by
  have hlen : (out.take (n - 1)).length ≤ n - 1 := List.length_take_le _ _
  have hpos := List.length_pos_of_ne_nil h
  obtain ⟨k, hk⟩ : ∃ k, n = (out.take (n - 1) ++ [0]).length + k :=
    ⟨n - ((out.take (n - 1)).length + 1), by rw [List.length_append, List.length_singleton]; omega⟩
  refine ⟨read (strAfter start n mem out reads).mem (start + (out.take (n - 1) ++ [0]).length) k, ?_⟩
  have hread : read (strAfter start n mem out reads).mem start (out.take (n - 1) ++ [0]).length =
      out.take (n - 1) ++ [0] := by
    simp only [strAfter, if_neg h]
    exact read_write_same _ _ _
  have hsplit := read_add (strAfter start n mem out reads).mem start
    (out.take (n - 1) ++ [0]).length k
  rw [← hk, hread] at hsplit
  exact hsplit.trans (by simp)

theorem toCstr_empty (hn : 1 ≤ n) (h : out.take (n - 1) = []) :
    ∃ rest, strbufToCstr (strAfter start n mem out reads) n = mem start :: rest ∧
      rest.length + 1 = n := by
  obtain ⟨k, rfl⟩ : ∃ k, n = k + 1 := ⟨n - 1, by omega⟩
  simp only [strbufToCstr, strAfter, if_pos h]
  exact ⟨_, rfl, by simp⟩

theorem frame_strAfter (hn : 1 ≤ n) {a : Nat} (h : a < start ∨ start + n ≤ a) :
    (strAfter start n mem out reads).mem a = mem a := by
  have hlen : (out.take (n - 1)).length ≤ n - 1 := List.length_take_le _ _
  simp only [strAfter]
  split
  · rfl
  · rcases h with hlt | hge
    · exact write_of_lt hlt
    · exact write_of_ge (by rw [List.length_append, List.length_singleton]; omega)

theorem strKept_after (hn : 1 ≤ n) (hr : ∀ x ∈ reads, StrRead x) :
    StrKept start n mem out (strAfter start n mem out reads) ↔ mem start = 0 ∨ 2 ≤ n ∧ out ≠ [] := by
  by_cases hT : out.take (n - 1) = []
  · obtain ⟨rest, hcstr, hlen⟩ :
        ∃ rest, strbufToCstr (strAfter start n mem out reads) n = mem start :: rest ∧ _ :=
      toCstr_empty hn hT
    rw [or_iff_left (nothing_kept_iff.1 hT)]
    constructor
    · intro h
      rcases List.take_eq_nil_iff.1 hT with h1 | rfl
      · have hnil : rest = [] := List.length_eq_zero_iff.1 (by omega)
        have := h.terminated
        rw [hcstr, hnil, List.mem_singleton] at this
        exact this.symm
      · have htext := h.text List.not_mem_nil
        rw [hcstr, hT] at htext
        by_contra hne
        simp [cstr, hne] at htext
    · intro h0
      rw [h0] at hcstr
      refine ⟨by simp [hcstr], fun _ => ?_, fun a => frame_strAfter hn, hr⟩
      rw [hcstr, hT]
      exact cstr_of_nul (s := []) List.not_mem_nil
  · obtain ⟨rest, hcstr⟩ : ∃ rest, strbufToCstr (strAfter start n mem out reads) n = _ :=
      toCstr_strAfter hT
    refine iff_of_true ⟨by simp [hcstr], fun h0 => ?_, fun a => frame_strAfter hn, hr⟩
      (.inr (not_not.1 fun hno => hT (nothing_kept_iff.2 hno)))
    rw [hcstr]
    exact cstr_of_nul fun hm => h0 (List.mem_of_mem_take hm)

end

/-- **The buffer is a C string of the outputs exactly when** no format ends inside a conversion, and
something was there or was written. -/
theorem strKept_iff (start n : Nat) (mem : Mem) (calls : List StrCall) (out : List UInt8) (hn : 1 ≤ n)
    (ht : ∀ c ∈ calls, c.Terminated) (ho : outputs calls = some out) :
    (∃ s, strCalls calls (strbufNew start n mem) = some s ∧ StrKept start n mem out s) ↔
      (∀ c ∈ calls, ¬ c.EndsInside) ∧ (mem start = 0 ∨ 2 ≤ n ∧ out ≠ []) := by
  have hgood : (∀ c ∈ calls, ¬ c.EndsInside) →
      ((∃ s, strCalls calls (strbufNew start n mem) = some s ∧ StrKept start n mem out s) ↔
        (mem start = 0 ∨ 2 ≤ n ∧ out ≠ [])) := by
    intro hc
    obtain ⟨rs, hrun, hrs⟩ : ∃ rs, strCalls calls (strAfter start n mem [] []) = some _ ∧ _ :=
      strAfter_calls ht hc ho
    rw [← strAfter_new, List.nil_append, List.nil_append] at hrun
    rw [← strKept_after hn hrs]
    constructor
    · rintro ⟨s, hs, hkept⟩
      cases hrun.symm.trans hs
      exact hkept
    · exact fun hkept => ⟨_, hrun, hkept⟩
  constructor
  · rintro ⟨s, hs, hkept⟩
    have hc : ∀ c ∈ calls, ¬ c.EndsInside := by
      intro c hc hbad
      obtain ⟨x, hx, hnot⟩ := (calls_reads hs).2 ⟨c, hc, ht c hc, hbad⟩
      exact hnot (hkept.formats x hx)
    exact ⟨hc, (hgood hc).1 ⟨s, hs, hkept⟩⟩
  · rintro ⟨hc, h⟩
    exact (hgood hc).2 h

/-- `%u%%` of 42 percent. -/
theorem strKept_percent :
    ∃ s, strCalls [.printf [37, 117, 37, 37, 0] [.word 42]] (strbufNew 0x100 64 fun _ => 0xff) = some s ∧
      StrKept 0x100 64 (fun _ => 0xff) [52, 50, 37] s := by
  refine (strKept_iff 0x100 64 _ _ _ (by decide) ?_ ?_).2 ⟨?_, .inr ⟨by decide, by decide⟩⟩
  · simp [StrCall.Terminated]
  · simp [outputs, StrCall.output, cstr, fmtOutput, convOutput, decimal]
  · simp [StrCall.EndsInside, cstr, endsInside]

/-- No call leaves what `malloc` returned, and a lone `%` at the end hides the terminator. -/
theorem strKept_not : (¬ ∃ s, strCalls [] (strbufNew 0x100 64 fun _ => 0xff) = some s ∧
      StrKept 0x100 64 (fun _ => 0xff) [] s) ∧
    outputs [.printf [66, 37, 0, 65, 0] []] = some [66] ∧
    ¬ ∃ s, strCalls [.printf [66, 37, 0, 65, 0] []] (strbufNew 0x100 64 fun _ => 0) = some s ∧
      StrKept 0x100 64 (fun _ => 0) [66] s := by
  refine ⟨?_, by simp [outputs, StrCall.output, cstr, fmtOutput], ?_⟩
  · rintro ⟨s, hs, hkept⟩
    cases hs
    rw [strAfter_new] at hkept
    simpa using (strKept_after (by decide) (by simp)).1 hkept
  · rintro ⟨s, hs, hkept⟩
    obtain ⟨x, hx, hnot⟩ := (calls_reads hs).2 ⟨_, List.mem_singleton_self _, by
      simp [StrCall.Terminated], by simp [StrCall.EndsInside, cstr, endsInside]⟩
    exact hnot (hkept.formats x hx)

end PBoot
