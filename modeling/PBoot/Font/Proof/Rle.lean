import PBoot.Font.Rle
import PBoot.Lib.RunLength
import Mathlib.Data.List.DropRight
import Mathlib.Data.List.GetD

/-!
# What the console reads of an encoded font

* `rleFrom_eq`: the encoder writes the packets of `packetsFrom`, whatever follows the input.
* `expand_packetsFrom`: where zeros follow, these stand for all of the input but the end of its last
  run of zeros. That run is not told from the zeros behind the input, so that only whole runs of 127
  are written.
* `encSize_eq`: as many bytes as `enc_size` says.
* `unrleTo_packets`: the decoder expands packets, and stops at their end.
* `encSize_packets`: the three, whatever the memory holds.
-/

namespace PBoot

open Bytes RunLength

/-! ## The encoder -/

section
variable {inp : Mem} {sizein t : Nat}

theorem literalSize_le (room pin : Nat) : literalSize inp sizein room pin ≤ room := by
  induction room generalizing pin with
  | zero => exact Nat.le_refl 0
  | succ room ih =>
    unfold literalSize
    split
    · split
      · exact Nat.zero_le _
      · exact Nat.succ_le_succ (ih _)
    · exact Nat.zero_le _

/-- A literal does not get past two equal bytes. -/
theorem add_literalSize_le (ht : inp t = inp (t + 1)) (room : Nat) {pin : Nat} (h : pin ≤ t) :
    pin + literalSize inp sizein room pin ≤ t := by
  induction room generalizing pin with
  | zero => exact h
  | succ room ih =>
    unfold literalSize
    split
    · rename_i hne
      have hlt : pin < t := Nat.lt_of_le_of_ne h fun he => hne (he ▸ ht)
      split
      · exact h
      · have hnext : pin + 1 + literalSize inp sizein room (pin + 1) ≤ t := ih hlt
        omega
    · exact h

/-- The input ends at `sizein` with zeros from `t` on, and nothing but zeros follows. -/
structure ZerosFrom (inp : Mem) (sizein t : Nat) : Prop where
  le : t ≤ sizein
  zero : ∀ i, t ≤ i → inp i = 0
  last : t = 0 ∨ inp (t - 1) ≠ 0

/-- How much of the input is written: all but an incomplete run of zeros at its end. -/
def writtenSize (sizein t : Nat) : Nat := sizein - (sizein - t) % 127

/-- A run that gets to the zeros starts in them. -/
theorem ZerosFrom.start_le (hz : ZerosFrom inp sizein t) {a size : Nat}
    (hrun : ∀ i < size, inp (a + i) = inp (a + size)) (h : t ≤ a + size) : t ≤ a := by
  by_contra hlt
  have h0 := hz.zero _ h
  rcases hz.last with rfl | hne
  · omega
  · have hi := hrun (t - 1 - a) (by omega)
    rw [show a + (t - 1 - a) = t - 1 by omega, h0] at hi
    exact hne hi

theorem read_eq_replicate {a size : Nat} (hrun : ∀ i < size, inp (a + i) = inp (a + size)) :
    read inp a (size + 1) = List.replicate (size + 1) (inp (a + size)) := by
  refine List.ext_getElem (by simp) fun i h1 h2 => ?_
  rw [getElem_read, List.getElem_replicate]
  rw [length_read] at h1
  by_cases hi : i < size
  · exact hrun i hi
  · rw [show i = size by omega]

/-- The packets of one round: the run, if there is one, and a literal that may be empty. -/
def roundPackets (inp : Mem) (pin size n : Nat) : List Packet :=
  (if 0 < size then [.run (size + 1) (inp pin)] else []) ++ [.literal (read inp (afterRun pin size) n)]

theorem bytes_roundPackets {pin size n : Nat} (hsize : size ≤ 126) (hn : n ≤ 127) :
    (roundPackets inp pin size n).flatMap Packet.bytes =
      (if 0 < size then [UInt8.ofNat (2 ^ 7 + ((size + 1) &&& 0x7f)), inp pin] else []) ++
        UInt8.ofNat (n &&& 0x7f) :: read inp (afterRun pin size) n := by
  have hs7 : (size + 1) &&& 0x7f = size + 1 :=
    Nat.and_two_pow_sub_one_of_lt_two_pow (n := 7) (by omega)
  have hn7 : n &&& 0x7f = n := Nat.and_two_pow_sub_one_of_lt_two_pow (n := 7) (by omega)
  rw [roundPackets, List.flatMap_append, hs7, hn7, List.flatMap_singleton, Packet.bytes, length_read]
  split <;> rfl

theorem fits_roundPackets {pin size n : Nat} (hsize : size ≤ 126) (hn : n ≤ 127) :
    ∀ p ∈ roundPackets inp pin size n, p.Fits := by
  intro p hp
  rcases List.mem_append.1 hp with hp | hp
  · split at hp
    · rw [List.mem_singleton.1 hp]
      show size + 1 ≤ 127
      omega
    · cases hp
  · rw [List.mem_singleton.1 hp]
    show (read inp _ n).length ≤ 127
    rwa [length_read]

theorem expand_roundPackets {a size : Nat} (hrun : ∀ i < size, inp (a + i) = inp (a + size))
    (n : Nat) : (roundPackets inp (a + size) size n).flatMap Packet.expand =
      read inp a (afterRun (a + size) size - a + n) := by
  rw [roundPackets, List.flatMap_append, List.flatMap_singleton, Packet.expand, read_add]
  unfold afterRun
  split
  · rw [List.flatMap_singleton, Packet.expand, ← read_eq_replicate hrun,
      show a + size + 1 - a = size + 1 by omega, Nat.add_assoc]
  · rename_i h0
    rw [show size = 0 by omega, Nat.add_zero, Nat.sub_self]
    rfl

/-- Where the next round starts. -/
theorem ZerosFrom.next_start (hz : ZerosFrom inp sizein t) {a size : Nat}
    (hpin : a + size < sizein) (hsize : size ≤ 126)
    (hrun : ∀ i < size, inp (a + i) = inp (a + size)) (hstart : t ≤ a → (a - t) % 127 = 0)
    (hr : ¬(inp (a + size) = inp (a + size + 1) ∧ size < 0x7f - 1)) {a' : Nat}
    (ha' : a' = afterRun (a + size) size + literalSize inp sizein 127 (afterRun (a + size) size)) :
    a' ≤ writtenSize sizein t ∧ (t ≤ a' → (a' - t) % 127 = 0) := by
  have heq : ∀ i, t ≤ i → inp i = inp (i + 1) := fun i hi => by
    rw [hz.zero i hi, hz.zero (i + 1) (by omega)]
  have hle := hz.le
  by_cases hpt : t ≤ a + size
  · -- among the zeros only a run that is full ends
    have hta := hz.start_le hrun hpt
    have h126 : ¬ size < 126 := fun hlt => hr ⟨heq _ hpt, hlt⟩
    have hafter : afterRun (a + size) size = a + 127 := by
      unfold afterRun
      rw [if_pos (by omega)]
      omega
    have hn : literalSize inp sizein 127 (a + 127) = 0 := by
      rw [literalSize, if_neg (not_not.2 (heq _ (by omega)))]
    have := hstart hta
    rw [hafter, hn] at ha'
    unfold writtenSize
    omega
  · have hafter : afterRun (a + size) size ≤ t := by
      unfold afterRun
      split <;> omega
    have hnext : afterRun (a + size) size +
        literalSize inp sizein 127 (afterRun (a + size) size) ≤ t :=
      add_literalSize_le (heq t (Nat.le_refl t)) 127 hafter
    unfold writtenSize
    omega

/-- The packets that `rle` writes from `pin` on. -/
def packetsFrom (inp : Mem) (sizein pin size : Nat) : List Packet :=
  if h : pin < sizein then
    if hr : inp pin = inp (pin + 1) ∧ size < 0x7f - 1 then
      packetsFrom inp sizein (pin + 1) (size + 1)
    else
      have := round_progress h hr
      let n := literalSize inp sizein 127 (afterRun pin size)
      roundPackets inp pin size n ++ packetsFrom inp sizein (afterRun pin size + n) 0
  else []
termination_by sizein - pin

/-- **The encoder writes packets**, with counts that fit their headers. -/
theorem rleFrom_eq {pin size : Nat} (hsize : size ≤ 126) :
    rleFrom inp sizein pin size = (packetsFrom inp sizein pin size).flatMap Packet.bytes ∧
      ∀ p ∈ packetsFrom inp sizein pin size, p.Fits := by
  induction pin, size using rleFrom.induct inp sizein with
  | case1 pin size h hr ih =>
    rw [rleFrom, packetsFrom, dif_pos h, dif_pos h, dif_pos hr, dif_pos hr]
    exact ih (by omega)
  | case2 pin size h hr _ n =>
    rename_i ih
    have hn : n ≤ 127 := literalSize_le _ _
    obtain ⟨hps, hfits⟩ := ih (by decide)
    rw [rleFrom, packetsFrom, dif_pos h, dif_pos h, dif_neg hr, dif_neg hr]
    refine ⟨?_, fun p hp => ?_⟩
    · rw [List.flatMap_append, bytes_roundPackets hsize hn, ← hps]
    · rcases List.mem_append.1 hp with hp | hp
      · exact fits_roundPackets hsize hn p hp
      · exact hfits p hp
  | case3 pin size h =>
    rw [rleFrom, packetsFrom, dif_neg h, dif_neg h]
    exact ⟨rfl, fun _ hp => (nomatch hp)⟩

/-- **What the packets stand for**, from the start `a` of the current run on, where the encoder
starts runs among the zeros at the end only every 127 bytes. -/
theorem expand_packetsFrom (hz : ZerosFrom inp sizein t) {pin size a : Nat} (ha : pin = a + size)
    (hpin : pin ≤ sizein) (hsize : size ≤ 126) (hrun : ∀ i < size, inp (a + i) = inp (a + size))
    (hstart : t ≤ a → (a - t) % 127 = 0) :
    (packetsFrom inp sizein pin size).flatMap Packet.expand =
      read inp a (writtenSize sizein t - a) := by
  induction pin, size using rleFrom.induct inp sizein generalizing a with
  | case1 pin size h hr ih =>
    subst ha
    rw [packetsFrom, dif_pos h, dif_pos hr]
    refine ih (a := a) (by omega) (by omega) (by omega) (fun i hi => ?_) hstart
    rw [← Nat.add_assoc, ← hr.1]
    by_cases h' : i < size
    · exact hrun i h'
    · rw [show i = size by omega]
  | case2 pin size h hr _ n =>
    rename_i ih
    subst ha
    have hndef : n = literalSize inp sizein 127 (afterRun (a + size) size) := rfl
    obtain ⟨hle, hnext⟩ := hz.next_start h hsize hrun hstart hr (congrArg (afterRun _ _ + ·) hndef)
    have hwr : writtenSize sizein t ≤ sizein := Nat.sub_le _ _
    have haft : a ≤ afterRun (a + size) size := by
      unfold afterRun
      split <;> omega
    have hexp := ih rfl (Nat.le_trans hle hwr) (by decide)
      (fun i hi => absurd hi (Nat.not_lt_zero i)) hnext
    have hsplit : writtenSize sizein t - a = afterRun (a + size) size - a + n +
        (writtenSize sizein t - (afterRun (a + size) size + n)) := by omega
    have hpos : a + (afterRun (a + size) size - a + n) = afterRun (a + size) size + n := by omega
    rw [packetsFrom, dif_pos h, dif_neg hr, List.flatMap_append, expand_roundPackets hrun,
      hexp, hsplit, read_add inp a (_ + _), hpos]
    rfl
  | case3 pin size h =>
    subst ha
    rw [packetsFrom, dif_neg h]
    have hle := hz.le
    have hta : t ≤ a := hz.start_le hrun (by omega)
    have := hstart hta
    rw [show writtenSize sizein t - a = 0 by unfold writtenSize; omega]
    rfl

/-- `enc_size` counts what `rle` writes. -/
theorem encSizeFrom_eq (inp : Mem) (sizein pin size : Nat) :
    encSizeFrom inp sizein pin size = (rleFrom inp sizein pin size).length := by
  induction pin, size using rleFrom.induct inp sizein with
  | case1 pin size h hr ih =>
    rw [encSizeFrom, rleFrom, dif_pos h, dif_pos h, dif_pos hr, dif_pos hr, ih]
  | case2 pin size h hr _ n =>
    rename_i ih
    rw [encSizeFrom, rleFrom, dif_pos h, dif_pos h, dif_neg hr, dif_neg hr]
    dsimp only
    rw [skipSize_eq (Nat.zero_add 127), Nat.zero_add, ih]
    simp only [List.length_append, List.length_cons, length_read]
    split <;> rfl
  | case3 pin size h =>
    rw [encSizeFrom, rleFrom, dif_neg h, dif_neg h]
    rfl

theorem encSize_eq (inp : Mem) (sizein : Nat) : encSize inp sizein = (rle inp sizein).length :=
  encSizeFrom_eq inp sizein 0 0

end

/-! ## The decoder -/

/-- One packet is expanded, and its bytes are read. -/
theorem unrleTo_packet {m : Mem} {p : Packet} {pos stop : Nat} (hp : p.Fits)
    (hstop : pos + p.bytes.length ≤ stop) (hm : read m pos p.bytes.length = p.bytes) :
    unrleTo m pos stop = (p.expand ++ (unrleTo m (pos + p.bytes.length) stop).1,
      (unrleTo m (pos + p.bytes.length) stop).2) := by
  cases p with
  | run n b =>
    obtain ⟨hbit, hcount⟩ := Packet.header_run hp
    have h0 : m pos = UInt8.ofNat (0x80 + n) := (List.cons.inj hm).1
    have h1 : m (pos + 1) = b := (List.cons.inj (List.cons.inj hm).2).1
    have hlt : pos < stop := Nat.lt_of_lt_of_le (Nat.lt_add_of_pos_right Nat.zero_lt_two) hstop
    rw [unrleTo, if_pos hlt]
    dsimp only
    rw [h0, if_pos hbit, hcount, h1]
    rfl
  | literal bs =>
    obtain ⟨hbit, hcount⟩ := Packet.header_literal hp
    rw [Packet.bytes, List.length_cons] at hm hstop ⊢
    have h0 : m pos = UInt8.ofNat bs.length := (List.cons.inj hm).1
    have h1 : read m (pos + 1) bs.length = bs := (List.cons.inj hm).2
    have hpos : pos + (bs.length + 1) = pos + 1 + bs.length := by omega
    rw [unrleTo, if_pos (by omega)]
    dsimp only
    rw [h0, if_neg (not_not.2 hbit), hcount, h1, hpos]
    rfl

/-- **The decoder expands packets**, and stops at their end. -/
theorem unrleTo_packets {m : Mem} {ps : List Packet} (hf : ∀ p ∈ ps, p.Fits) {pos stop : Nat}
    (hstop : stop = pos + (ps.flatMap Packet.bytes).length)
    (hm : read m pos (ps.flatMap Packet.bytes).length = ps.flatMap Packet.bytes) :
    unrleTo m pos stop = (ps.flatMap Packet.expand, stop) := by
  induction ps generalizing pos with
  | nil =>
    subst hstop
    rw [unrleTo, if_neg (Nat.lt_irrefl _)]
    rfl
  | cons p ps ih =>
    obtain ⟨hp, hps⟩ := List.forall_mem_cons.1 hf
    rw [List.flatMap_cons, List.length_append] at hstop hm
    rw [read_add] at hm
    obtain ⟨hhead, htail⟩ := List.append_inj hm (by rw [length_read])
    rw [unrleTo_packet hp (by omega) hhead, ih hps (by omega) htail]
    rfl

/-! ## Both -/

/-- **`enc_size` predicts `rle`**, whatever the memory holds: every header that is written counts the
bytes behind it, and the decoder stops exactly at the end. -/
theorem encSize_packets (inp : Mem) (sizein : Nat) :
    encSize inp sizein = (rle inp sizein).length ∧
      ∃ ps : List Packet, rle inp sizein = ps.flatMap Packet.bytes ∧ (∀ p ∈ ps, p.Fits) ∧
        ∀ (rest : Mem) (a : Nat),
          unrleTo (write rest a (rle inp sizein)) a (a + encSize inp sizein) =
            (ps.flatMap Packet.expand, a + (rle inp sizein).length) := by
  obtain ⟨hps, hfits⟩ := @rleFrom_eq inp sizein 0 0 (by decide)
  refine ⟨encSize_eq inp sizein, packetsFrom inp sizein 0 0, hps, hfits, fun rest a => ?_⟩
  rw [encSize_eq, rle, hps, unrleTo_packets hfits rfl (read_write_same _ _ _)]

/-- The encoder's buffer with `x` in it: zeros follow. -/
def buffer (x : List UInt8) : Mem := fun i => x.getD i 0

/-- The number of zeros at the end. -/
def zerosAtEnd (x : List UInt8) : Nat := (x.rtakeWhile (· == 0)).length

theorem read_buffer (x : List UInt8) {n : Nat} (h : n ≤ x.length) : read (buffer x) 0 n = x.take n := by
  refine List.ext_getElem (by rw [length_read, List.length_take]; omega) fun i h1 h2 => ?_
  rw [length_read] at h1
  rw [getElem_read, List.getElem_take, Nat.zero_add]
  exact (List.getElem_eq_getD 0).symm

theorem buffer_concat (l : List UInt8) (b : UInt8) (i : Nat) :
    buffer (l ++ [b]) i = if i < l.length then buffer l i else if i = l.length then b else 0 := by
  unfold buffer
  split
  · rename_i h
    exact List.getD_append _ _ _ _ h
  · split
    · rename_i h
      rw [h, List.getD_append_right _ _ _ _ (Nat.le_refl _), Nat.sub_self]
      rfl
    · rw [List.getD_eq_default]
      rw [List.length_append, List.length_singleton]
      omega

theorem zerosFrom_buffer (x : List UInt8) :
    zerosAtEnd x ≤ x.length ∧ ZerosFrom (buffer x) x.length (x.length - zerosAtEnd x) := by
  induction x using List.reverseRecOn with
  | nil => exact ⟨Nat.le_refl 0, Nat.le_refl 0, fun _ _ => rfl, .inl rfl⟩
  | append_singleton l b ih =>
    obtain ⟨hle, hz⟩ := ih
    by_cases hb : b = 0
    · have hend : zerosAtEnd (l ++ [b]) = zerosAtEnd l + 1 := by
        unfold zerosAtEnd
        rw [List.rtakeWhile_concat_pos (fun b => b == 0) _ _ (beq_iff_eq.2 hb), List.length_append,
          List.length_singleton]
      rw [hend, List.length_append, List.length_singleton, Nat.add_sub_add_right]
      refine ⟨by omega, by omega, fun i hi => ?_, hz.last.imp_right fun hlast => ?_⟩
      · rw [buffer_concat, hb]
        split
        · exact hz.zero i hi
        · exact ite_self 0
      · rw [buffer_concat]
        split
        · exact hlast
        · -- the last byte that is not a zero is in `l`
          rename_i hlt
          refine absurd ?_ hlast
          unfold buffer
          exact List.getD_eq_default _ _ (by omega)
    · have hend : zerosAtEnd (l ++ [b]) = 0 := by
        unfold zerosAtEnd
        rw [List.rtakeWhile_concat_neg (fun b => b == 0) _ _ fun h => hb (beq_iff_eq.1 h)]
        rfl
      rw [hend, List.length_append, List.length_singleton, Nat.sub_zero]
      refine ⟨Nat.zero_le _, Nat.le_refl _, fun i hi => ?_, .inr ?_⟩
      · rw [buffer_concat, if_neg (by omega), if_neg (by omega)]
      · rw [buffer_concat, Nat.add_sub_cancel, if_neg (Nat.lt_irrefl _), if_pos rfl]
        exact hb

/-- **What is read back** is all but an incomplete run of zeros at the end. -/
theorem unrle_rle (x : List UInt8) (rest : Mem) (a : Nat) :
    unrle (write rest a ((rle (buffer x) x.length).take (encSize (buffer x) x.length))) a
      (a + encSize (buffer x) x.length) = x.take (x.length - zerosAtEnd x % 127) := by
  obtain ⟨hle, hz⟩ := zerosFrom_buffer x
  obtain ⟨hps, hfits⟩ := @rleFrom_eq (buffer x) x.length 0 0 (by decide)
  have hexp := expand_packetsFrom hz (a := 0) rfl (Nat.zero_le _) (by decide)
    (fun i hi => absurd hi (Nat.not_lt_zero i)) (fun h => by rw [Nat.zero_sub])
  have hw : writtenSize x.length (x.length - zerosAtEnd x) = x.length - zerosAtEnd x % 127 := by
    unfold writtenSize
    rw [Nat.sub_sub_self hle]
  rw [encSize_eq, List.take_length, rle, hps, unrle,
    unrleTo_packets hfits rfl (read_write_same _ _ _)]
  dsimp only
  rw [hexp, hw, Nat.sub_zero, read_buffer x (Nat.sub_le _ _)]

/-- The font is read back from where the console finds it, with anything behind it. -/
def ReadsFont (x : List UInt8) : Prop :=
  ∀ (rest : Mem) (a : Nat),
    unrle (write rest a ((rle (buffer x) x.length).take (encSize (buffer x) x.length))) a
      (a + encSize (buffer x) x.length) = x

/-- **A font is read back** exactly when the zeros at its end are a number of whole runs. -/
theorem readsFont_iff (x : List UInt8) : ReadsFont x ↔ zerosAtEnd x % 127 = 0 := by
  have hle := (zerosFrom_buffer x).1
  constructor
  · intro h
    have hlen := congrArg List.length ((unrle_rle x (fun _ => 0) 0).symm.trans (h (fun _ => 0) 0))
    rw [List.length_take] at hlen
    have := Nat.mod_le (zerosAtEnd x) 127
    omega
  · intro h rest a
    rw [unrle_rle, h, Nat.sub_zero, List.take_length]

/-- A single row without a pixel is lost. -/
theorem readsFont_zero : ¬ ReadsFont [0] := by
  intro h
  have hlost := (unrle_rle [0] (fun _ => 0) 0).symm.trans (h (fun _ => 0) 0)
  exact absurd hlost (by decide)

end PBoot
