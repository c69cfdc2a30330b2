import PBoot.Display.Dsi
import Mathlib.Algebra.Group.Nat.Defs
import Mathlib.Data.List.GetD
import Mathlib.Logic.Function.Basic

/-!
# DSI packets

`dcsWrite_sends`: each command is sent as its DSI packet, with the check bits of the header and a
checksum that is the CRC of the payload, one bit at a time.
-/

namespace PBoot

open Check

/-! ## Packets -/

def wordsOfWeight (n : Nat) : List (BitVec 6) :=
  ((List.range 64).map (BitVec.ofNat 6)).filter fun c => (bitsOf c).count true = n

/-- The columns of the header's code: the words of weight 3, and then of weight 5. -/
def eccColumns : List (BitVec 6) := wordsOfWeight 3 ++ (wordsOfWeight 5).take 4

/-- A header and its check bits. -/
def withEcc (header : List (BitVec 8)) : List (BitVec 8) :=
  header ++ [(parityCheck eccColumns (header.flatMap bitsOf)).setWidth 8]

def le16 (n : Nat) : List (BitVec 8) := [.ofNat 8 n, .ofNat 8 (n / 256)]

def checksum (payload : List (BitVec 8)) : BitVec 16 :=
  serial 0x8408 0xffff (payload.flatMap bitsOf)

/-- The packet of a command. -/
def dcsPacket : List (BitVec 8) → List (BitVec 8)
  | [b] => withEcc [0x05, b, 0]
  | [b, c] => withEcc [0x15, b, c]
  | data => withEcc (0x39 :: le16 data.length) ++ data ++ le16 (checksum data).toNat

/-- The bytes of the transmit registers, as many as the control register says. -/
def packetIn (r : Nat → BitVec 32) : List (BitVec 8) :=
  (List.range ((r cmdCtlReg).toNat + 1)).map fun k =>
    (r (cmdTxReg (k / 4)) >>> (8 * (k % 4))).setWidth 8

/-- The packets that are sent, from registers `r` on. -/
def sends : (Nat → BitVec 32) → List DsiOp → List (List (BitVec 8))
  | _, [] => []
  | r, .write reg val :: ops => sends (Function.update r reg val) ops
  | r, .start :: ops => packetIn r :: sends r ops
  | r, .abort :: ops => sends r ops

/-- The display-off command, with its well-known check bits. -/
example : withEcc [0x05, 0x28, 0] = [0x05, 0x28, 0, 0x06] := by decide

/-! ## Checksums -/

theorem crcCcittTable_eq :
    crcCcittTable = (List.range 256).map fun i => (shift 0x8408)^[8] (BitVec.ofNat 16 i) := by
  decide +kernel

theorem crcCcittByte_eq :
    crcCcittByte = tableStep fun i => (shift 0x8408)^[8] (i.setWidth 16) := by
  funext crc c
  have hlow : (crc ^^^ c.setWidth 16).setWidth 8 = crc.setWidth 8 ^^^ c := by simp
  have hindex : ((crc ^^^ c.setWidth 16) &&& 0xff).toNat = (crc.setWidth 8 ^^^ c).toNat := by
    rw [← hlow, BitVec.toNat_and, BitVec.toNat_setWidth]
    exact Nat.and_two_pow_sub_one_eq_mod _ 8
  have hlt := (crc.setWidth 8 ^^^ c).isLt
  rw [crcCcittByte, hindex, crcCcittTable_eq, List.getD_eq_getElem _ _ (by simpa using hlt),
    List.getElem_map, List.getElem_range, BitVec.ofNat_toNat, tableStep]

theorem crcCcitt_eq (crc : BitVec 16) (bs : List (BitVec 8)) :
    crcCcitt crc bs = serial 0x8408 crc (bs.flatMap bitsOf) := by
  rw [crcCcitt, crcCcittByte_eq]
  exact foldl_tableStep 0x8408 (by decide) (fun _ => rfl) bs crc

theorem sun6iDsiCrcCompute_eq (bs : List (BitVec 8)) : sun6iDsiCrcCompute bs = checksum bs :=
  crcCcitt_eq 0xffff bs

/-! ## Check bits -/

theorem foldl_eccVal (field data : BitVec 32) (l : List Nat) (s : Bool × BitVec 8)
    (h : s.1 = false → s.2 = 0) :
    (l.foldl (eccVal field data) s).2 =
      s.2 ^^^
        (BitVec.ofBool (parity (l.map fun j => field.getLsbD j && data.getLsbD j))).setWidth 8 := by
  induction l generalizing s with
  | nil => simp [parity_nil]
  | cons j l ih =>
    have hval : (eccVal field data s j).2 =
        s.2 ^^^ (BitVec.ofBool (field.getLsbD j && data.getLsbD j)).setWidth 8 := by
      by_cases hf : field.getLsbD j = false
      · simp [eccVal, hf]
      · by_cases hs : s.1 = false
        · cases hd : data.getLsbD j <;> simp [eccVal, hf, hs, hd, h hs]
        · cases hd : data.getLsbD j <;> simp [eccVal, hf, hs, hd]
    have hinit : (eccVal field data s j).1 = false → (eccVal field data s j).2 = 0 := by
      by_cases hf : field.getLsbD j = false
      · simpa [eccVal, hf] using h
      · by_cases hs : s.1 = false <;> simp [eccVal, hf, hs]
    rw [List.foldl_cons, ih _ hinit, hval, List.map_cons, parity_cons, BitVec.xor_assoc,
      ← BitVec.setWidth_xor, ← BitVec.ofBool_xor_ofBool]

/-- Flags put together by `ecc |= val << i`. -/
theorem getLsbD_flags (f : Nat → Bool) {n k : Nat} (hk : k < 8) :
    ((List.range n).foldl
      (fun e i => e ||| (BitVec.ofBool (f i)).setWidth 8 <<< i) (0 : BitVec 8)).getLsbD k =
        (decide (k < n) && f k) := by
  induction n with
  | zero => simp
  | succ n ih =>
    rw [List.range_succ, List.foldl_append, List.foldl_cons, List.foldl_nil, BitVec.getLsbD_or, ih]
    rcases Nat.lt_trichotomy k n with hlt | rfl | hgt
    · simp [hlt, Nat.lt_succ_of_lt hlt]
    · cases f k <;> simp [hk]
    · simp [Nat.not_lt.2 (Nat.le_of_lt hgt), show ¬ k < n + 1 by omega, show k - n ≠ 0 by omega]

/-- The rows of the source are those of the code. -/
theorem eccColumns_rows : ∀ k < 6, ∀ j < 24,
    (sun6iDsiEccArray.getD k 0).getLsbD j = (eccColumns.getD j 0).getLsbD k := by
  decide +kernel

theorem sun6iDsiEccCompute_eq (pkt : BitVec 32) :
    sun6iDsiEccCompute pkt =
      (parityCheck eccColumns ((List.range 24).map pkt.getLsbD)).setWidth 8 := by
  refine BitVec.eq_of_getLsbD_eq fun k hk => ?_
  have hrow : ∀ i, ((List.range 24).foldl (eccVal (sun6iDsiEccArray.getD i 0) pkt) (false, 0)).2 =
      (BitVec.ofBool (parity ((List.range 24).map fun j =>
        (sun6iDsiEccArray.getD i 0).getLsbD j && pkt.getLsbD j))).setWidth 8 := by
    intro i
    rw [foldl_eccVal _ _ _ _ fun _ => rfl]
    exact BitVec.zero_xor
  simp only [sun6iDsiEccCompute, hrow]
  rw [getLsbD_flags _ hk, BitVec.getLsbD_setWidth]
  by_cases hk6 : k < 6
  · have hlen : eccColumns.length = 24 := by decide +kernel
    simp only [hk6, hk, decide_true, Bool.true_and, getLsbD_parityCheck]
    congr 1
    refine List.ext_getElem (by simp [hlen]) fun j hj _ => ?_
    have hj24 : j < 24 := by simpa using hj
    have hget := eccColumns_rows k hk6 j hj24
    rw [List.getD_eq_getElem eccColumns 0 (hlen ▸ hj24)] at hget
    simp only [List.getElem_map, List.getElem_range, List.getElem_zipWith, hget]
  · simp [hk6, BitVec.getLsbD_of_ge _ k (Nat.not_lt.1 hk6)]

/-! ## Words -/

section
variable (t a b e : BitVec 8)

/-- Bit `r` of byte `j`. -/
theorem getLsbD_word {j r : Nat} (hj : j < 4) (hr : r < 8) :
    (e ++ b ++ a ++ t : BitVec 32).getLsbD (8 * j + r) = ([t, a, b, e].getD j 0).getLsbD r := by
  rw [BitVec.getLsbD_append, BitVec.getLsbD_append, BitVec.getLsbD_append]
  match j, hj with
  | 0, _ => simp [hr]
  | 1, _ => simp [hr, show ¬ 8 + r < 8 by omega]
  | 2, _ => simp [hr, show ¬ 16 + r < 8 by omega, show ¬ 16 + r - 8 < 8 by omega,
      show 16 + r - 8 - 8 = r by omega]
  | 3, _ => simp [show ¬ 24 + r < 8 by omega, show ¬ 24 + r - 8 < 8 by omega,
      show ¬ 24 + r - 8 - 8 < 8 by omega, show 24 + r - 8 - 8 - 8 = r by omega]

theorem word_ext {x : BitVec 32}
    (h : ∀ j < 4, ∀ r < 8, x.getLsbD (8 * j + r) = ([t, a, b, e].getD j 0).getLsbD r) :
    x = (e ++ b ++ a ++ t : BitVec 32) := by
  refine BitVec.eq_of_getLsbD_eq fun i hi => ?_
  have hlt : i / 8 < 4 := by omega
  have hmod : i % 8 < 8 := by omega
  have := h _ hlt _ hmod
  rwa [← getLsbD_word t a b e hlt hmod, Nat.div_add_mod] at this

theorem word_or : t.setWidth 32 ||| a.setWidth 32 <<< 8 ||| b.setWidth 32 <<< 16 =
    (0#8 ++ b ++ a ++ t : BitVec 32) := by
  refine word_ext t a b 0 fun j hj r hr => ?_
  match j, hj with
  | 0, _ => simp [hr, show r < 16 by omega, show r < 32 by omega]
  | 1, _ => simp [show 8 + r < 32 by omega, show 8 + r < 16 by omega]
  | 2, _ => simp [show 16 + r < 32 by omega, show ¬ 16 + r < 16 by omega,
      BitVec.getLsbD_of_ge t (16 + r) (by omega), BitVec.getLsbD_of_ge a (16 + r - 8) (by omega)]
  | 3, _ => simp [show 24 + r < 32 by omega, BitVec.getLsbD_of_ge t (24 + r) (by omega),
      BitVec.getLsbD_of_ge a (24 + r - 8) (by omega), BitVec.getLsbD_of_ge b (24 + r - 16) (by omega)]

theorem word_or_high : (0#8 ++ b ++ a ++ t : BitVec 32) ||| e.setWidth 32 <<< 24 =
    (e ++ b ++ a ++ t : BitVec 32) := by
  refine word_ext t a b e fun j hj r hr => ?_
  rw [BitVec.getLsbD_or, getLsbD_word _ _ _ _ hj hr]
  match j, hj with
  | 0, _ => simp [show r < 24 by omega]
  | 1, _ => simp [show 8 + r < 24 by omega]
  | 2, _ => simp [show 16 + r < 24 by omega]
  | 3, _ => simp [show 24 + r < 32 by omega]

theorem byte_word {j : Nat} (hj : j < 4) :
    ((e ++ b ++ a ++ t : BitVec 32) >>> (8 * j)).setWidth 8 = [t, a, b, e].getD j 0 := by
  refine BitVec.eq_of_getLsbD_eq fun r hr => ?_
  rw [BitVec.getLsbD_setWidth, BitVec.getLsbD_ushiftRight, getLsbD_word _ _ _ _ hj hr]
  simp [hr]

theorem word_header_bits : (List.range 24).map (0#8 ++ b ++ a ++ t : BitVec 32).getLsbD =
    [t, a, b].flatMap bitsOf := by
  have hbyte : ∀ j < 4,
      ((List.range 8).map (8 * j + ·)).map (0#8 ++ b ++ a ++ t : BitVec 32).getLsbD =
        bitsOf ([t, a, b, 0].getD j 0) := fun j hj => by
    rw [List.map_map]
    exact List.map_congr_left fun r hr => getLsbD_word t a b 0 hj (List.mem_range.1 hr)
  have hrange : List.range 24 = (List.range 8).map (8 * 0 + ·) ++ ((List.range 8).map (8 * 1 + ·) ++
      (List.range 8).map (8 * 2 + ·)) := rfl
  rw [hrange, List.map_append, List.map_append, hbyte 0 (by decide), hbyte 1 (by decide),
    hbyte 2 (by decide)]
  simp

end

/-! ## Headers -/

/-- The word of a header. -/
def headerWord (t a b : BitVec 8) : BitVec 32 :=
  (parityCheck eccColumns ([t, a, b].flatMap bitsOf)).setWidth 8 ++ b ++ a ++ t

theorem header_ecc (t a b : BitVec 8) :
    t.setWidth 32 ||| a.setWidth 32 <<< 8 ||| b.setWidth 32 <<< 16 |||
      (sun6iDsiEccCompute
        (t.setWidth 32 ||| a.setWidth 32 <<< 8 ||| b.setWidth 32 <<< 16)).setWidth 32 <<< 24 =
      headerWord t a b := by
  rw [word_or, word_or_high, sun6iDsiEccCompute_eq, word_header_bits, headerWord]

theorem buildPktHdr_short (type : BitVec 8) (hne : type ≠ mipiDsiDcsLongWrite) (b : BitVec 8) :
    sun6iDsiDcsBuildPktHdr type [b] 1 = headerWord type b 0 := by
  rw [← header_ecc]
  simp [sun6iDsiDcsBuildPktHdr, hne]

theorem buildPktHdr_param (type : BitVec 8) (hne : type ≠ mipiDsiDcsLongWrite) (b c : BitVec 8) :
    sun6iDsiDcsBuildPktHdr type [b, c] 2 = headerWord type b c := by
  rw [← header_ecc]
  simp [sun6iDsiDcsBuildPktHdr, hne]

theorem toNat_and_ffff (x : BitVec 32) : (x &&& 0xffff#32).toNat = x.toNat % 2 ^ 16 := by
  rw [BitVec.toNat_and]
  exact Nat.and_two_pow_sub_one_eq_mod _ 16

/-- The second shift of the length adds nothing to the first. -/
theorem length_or {n : Nat} (hn : n ≤ 65535) (t : BitVec 32) :
    t ||| (BitVec.ofNat 32 n &&& 0xffff#32) <<< 8 |||
        (BitVec.ofNat 32 n >>> 8 &&& 0xffff#32) <<< 16 =
      t ||| (BitVec.ofNat 8 n).setWidth 32 <<< 8 |||
        (BitVec.ofNat 8 (n / 256)).setWidth 32 <<< 16 := by
  have hhigh : BitVec.ofNat 32 n >>> 8 &&& 0xffff#32 = (BitVec.ofNat 8 (n / 256)).setWidth 32 := by
    refine BitVec.eq_of_toNat_eq ?_
    rw [toNat_and_ffff]
    simp [Nat.shiftRight_eq_div_pow]
    omega
  have hlow : BitVec.ofNat 32 n &&& 0xffff#32 =
      (BitVec.ofNat 8 n).setWidth 32 ||| (BitVec.ofNat 8 (n / 256)).setWidth 32 <<< 8 := by
    have hsum : n % 256 ||| n / 256 * 256 = n := by
      have hor := Nat.two_pow_add_eq_or_of_lt (show n % 256 < 2 ^ 8 by omega) (n / 256)
      rw [Nat.or_comm, Nat.mul_comm, ← hor]
      exact Nat.div_add_mod n 256
    refine BitVec.eq_of_toNat_eq ?_
    rw [toNat_and_ffff]
    simp [Nat.shiftLeft_eq, Nat.mod_eq_of_lt (show n / 256 < 256 by omega),
      Nat.mod_eq_of_lt (show n / 256 * 256 < 4294967296 by omega),
      Nat.mod_eq_of_lt (show n % 256 < 4294967296 by omega), hsum]
    omega
  rw [hhigh, hlow, BitVec.shiftLeft_or_distrib, ← BitVec.shiftLeft_add, ← BitVec.or_assoc,
    BitVec.or_assoc, BitVec.or_self]

theorem buildPktHdr_long {n : Nat} (hn : n ≤ 65535) (data : List (BitVec 8)) :
    sun6iDsiDcsBuildPktHdr mipiDsiDcsLongWrite data (.ofNat 32 n) =
      headerWord mipiDsiDcsLongWrite (.ofNat 8 n) (.ofNat 8 (n / 256)) := by
  rw [← header_ecc, ← length_or hn]
  rfl

/-! ## Registers -/

/-- The registers after `k` words of the payload. -/
def loadTx (f : Nat → BitVec 32) (r : Nat → BitVec 32) : Nat → Nat → BitVec 32
  | 0 => r
  | k + 1 => Function.update (loadTx f r k) (cmdTxReg (1 + k)) (f k)

theorem sends_load (f : Nat → BitVec 32) (r : Nat → BitVec 32) (k : Nat) (ops : List DsiOp) :
    sends r ((List.range k).map (fun i => .write (cmdTxReg (1 + i)) (f i)) ++ ops) =
      sends (loadTx f r k) ops := by
  induction k generalizing ops with
  | zero => rfl
  | succ k ih =>
    rw [List.range_succ, List.map_append, List.append_assoc, ih]
    rfl

theorem loadTx_of_ne {f : Nat → BitVec 32} {r : Nat → BitVec 32} {k reg : Nat}
    (h : ∀ i, reg ≠ cmdTxReg (1 + i)) : loadTx f r k reg = r reg := by
  induction k with
  | zero => rfl
  | succ k ih => rw [loadTx, Function.update_of_ne (h k), ih]

theorem loadTx_tx {f : Nat → BitVec 32} {r : Nat → BitVec 32} {i k : Nat} (h : i < k) :
    loadTx f r k (cmdTxReg (1 + i)) = f i := by
  induction k with
  | zero => omega
  | succ k ih =>
    rcases Nat.lt_succ_iff_lt_or_eq.1 h with hlt | rfl
    · rw [loadTx, Function.update_of_ne (by unfold cmdTxReg; omega), ih hlt]
    · rw [loadTx, Function.update_self]

theorem sends_write (r : Nat → BitVec 32) (reg : Nat) (val : BitVec 32) (ops : List DsiOp) :
    sends r (.write reg val :: ops) = sends (Function.update r reg val) ops := rfl

/-- The bytes that are read from the registers of a header and a payload. -/
theorem packetIn_eq {r : Nat → BitVec 32} {t a b e : BitVec 8} {payload : List (BitVec 8)}
    (hctl : (r cmdCtlReg).toNat = payload.length + 3)
    (h0 : r (cmdTxReg 0) = (e ++ b ++ a ++ t : BitVec 32))
    (hr : ∀ i, ∀ j < 4, 4 * i + j < payload.length →
      (r (cmdTxReg (1 + i)) >>> (8 * j)).setWidth 8 = payload.getD (4 * i + j) 0) :
    packetIn r = [t, a, b, e] ++ payload := by
  have hhead : (List.range 4).map (fun k => (r (cmdTxReg (k / 4)) >>> (8 * (k % 4))).setWidth 8) =
      [t, a, b, e] := by
    refine List.ext_getElem (by simp) fun k hk _ => ?_
    have hk4 : k < 4 := by simpa using hk
    rw [List.getElem_map, List.getElem_range, Nat.div_eq_of_lt hk4, Nat.mod_eq_of_lt hk4, h0,
      byte_word t a b e hk4, List.getD_eq_getElem]
  have htail : (List.range payload.length).map
      (fun k => (r (cmdTxReg ((4 + k) / 4)) >>> (8 * ((4 + k) % 4))).setWidth 8) = payload := by
    refine List.ext_getElem (by simp) fun k _ hk => ?_
    have hbyte := hr (k / 4) (k % 4) (Nat.mod_lt k (by decide)) (by omega)
    rw [Nat.div_add_mod, List.getD_eq_getElem _ _ hk] at hbyte
    rw [List.getElem_map, List.getElem_range, show (4 + k) / 4 = 1 + k / 4 by omega,
      Nat.add_mod_left, hbyte]
  rw [packetIn, hctl, show payload.length + 3 + 1 = 4 + payload.length by omega, List.range_add,
    List.map_append, hhead, List.map_map]
  exact congrArg ([t, a, b, e] ++ ·) htail

/-! ## Commands -/

/-- The checksum as the bytes of a word in memory. -/
theorem leBytes_eq (w : BitVec 16) : leBytes w = le16 w.toNat := by
  have hhigh : (w >>> 8).setWidth 8 = BitVec.ofNat 8 (w.toNat / 256) := by
    refine BitVec.eq_of_toNat_eq ?_
    simp [Nat.shiftRight_eq_div_pow]
  rw [leBytes, le16, hhigh, BitVec.ofNat_toNat]

/-- A header with `w` in the first register, and the payload whose words are `f`. -/
theorem sends_packet {t a b : BitVec 8} {w : BitVec 32} (hw : w = headerWord t a b)
    (payload : List (BitVec 8)) (hn : payload.length + 3 < 2 ^ 32) (f : Nat → BitVec 32)
    (hf : ∀ i, ∀ j < 4, 4 * i + j < payload.length →
      (f i >>> (8 * j)).setWidth 8 = payload.getD (4 * i + j) 0) (r : Nat → BitVec 32) :
    ∃ r', ∀ post, sends r (.write (cmdTxReg 0) w ::
      ((List.range ((payload.length + 3) / 4)).map (fun i => .write (cmdTxReg (1 + i)) (f i)) ++
        [.write cmdCtlReg (.ofNat 32 (payload.length + 3)), .start]) ++ post) =
      (withEcc [t, a, b] ++ payload) :: sends r' post := by
  refine ⟨Function.update (loadTx f (Function.update r (cmdTxReg 0) w) ((payload.length + 3) / 4))
    cmdCtlReg (.ofNat 32 (payload.length + 3)), fun post => ?_⟩
  rw [List.cons_append, List.append_assoc, sends_write, sends_load]
  refine congrArg (· :: _) (packetIn_eq ?_ ?_ fun i j hj hlt => ?_)
  · rw [Function.update_self, BitVec.toNat_ofNat, Nat.mod_eq_of_lt hn]
  · rw [Function.update_of_ne (by decide), loadTx_of_ne (by intro i; unfold cmdTxReg; omega),
      Function.update_self, hw, headerWord]
  · rw [Function.update_of_ne (by unfold cmdTxReg cmdCtlReg; omega), loadTx_tx (by omega)]
    exact hf i j hj hlt

theorem sends_header {t a b : BitVec 8} {w : BitVec 32} (hw : w = headerWord t a b)
    (r : Nat → BitVec 32) :
    ∃ r', ∀ post, sends r ([.write (cmdTxReg 0) w, .write cmdCtlReg (4 - 1), .start] ++ post) =
      withEcc [t, a, b] :: sends r' post :=
  sends_packet hw [] (by decide) (fun _ => 0) (fun _ _ _ h => absurd h (Nat.not_lt_zero _)) r

/-- The words behind the checksum are not sent. -/
theorem byte_wordAt (payload pad : List (BitVec 8)) (i : Nat) {j : Nat} (hj : j < 4)
    (h : 4 * i + j < payload.length) :
    (wordAt (payload ++ pad) i >>> (8 * j)).setWidth 8 = payload.getD (4 * i + j) 0 := by
  rw [wordAt, byte_word _ _ _ _ hj, ← List.getD_append payload pad 0 _ h]
  match j, hj with
  | 0, _ => rfl
  | 1, _ => rfl
  | 2, _ => rfl
  | 3, _ => rfl

theorem dcsPacket_long {data : List (BitVec 8)} (h : 2 < data.length) :
    dcsPacket data =
      withEcc (0x39 :: le16 data.length) ++ (data ++ leBytes (sun6iDsiCrcCompute data)) := by
  match data, h with
  | b :: c :: d :: data, _ =>
    rw [leBytes_eq, sun6iDsiCrcCompute_eq, ← List.append_assoc]
    rfl

/-- What is sent does not depend on what the registers held. -/
theorem sends_ops {data : List (BitVec 8)} (h1 : 1 ≤ data.length) (hn : data.length ≤ 65535)
    (r : Nat → BitVec 32) :
    ∃ ops r', dcsPacketOps data = some ops ∧
      ∀ post, sends r (ops ++ post) = dcsPacket data :: sends r' post := by
  match data, h1, hn with
  | [b], _, _ =>
    obtain ⟨r', hr'⟩ := sends_header (buildPktHdr_short mipiDsiDcsShortWrite (by decide) b) r
    exact ⟨_, r', rfl, hr'⟩
  | [b, c], _, _ =>
    obtain ⟨r', hr'⟩ :=
      sends_header (buildPktHdr_param mipiDsiDcsShortWriteParam (by decide) b c) r
    exact ⟨_, r', rfl, hr'⟩
  | b :: c :: d :: data, _, hn =>
    have hlen : ((b :: c :: d :: data) ++ leBytes (sun6iDsiCrcCompute (b :: c :: d :: data))).length =
        (b :: c :: d :: data).length + 2 := List.length_append
    obtain ⟨r', hr'⟩ := sends_packet (buildPktHdr_long hn (b :: c :: d :: data))
      ((b :: c :: d :: data) ++ leBytes (sun6iDsiCrcCompute (b :: c :: d :: data)))
      (by omega) _ (fun i _ hj h => byte_wordAt _ (List.replicate 4 0) i hj h) r
    rw [hlen] at hr'
    refine ⟨_, r', ?_, fun post => (hr' post).trans ?_⟩
    · rw [dcsPacketOps, if_neg (by simp), if_pos (by simp)]
      rfl
    · rw [dcsPacket_long (by simp)]
      rfl

/-- **Each command is sent as its packet**, and the table agrees with the bits one at a time. -/
theorem dcsWrite_sends (data : List (BitVec 8)) (done : Int) (r : Nat → BitVec 32) :
    (1 ≤ data.length ∧ data.length ≤ 65535 →
      sends r (mipiDsiDcsWrite data done).1 = [dcsPacket data]) ∧
    ∀ bs, sun6iDsiCrcCompute bs = checksum bs := by
  refine ⟨?_, sun6iDsiCrcCompute_eq⟩
  rintro ⟨h1, hn⟩
  obtain ⟨ops, r', hops, hr'⟩ := sends_ops h1 hn (Function.update r cmdCtlReg cmdCtlFlags)
  by_cases hd : done < 0
  · simpa [mipiDsiDcsWrite, hops, hd, sends] using hr' [.abort]
  · simpa [mipiDsiDcsWrite, hops, hd, sends] using hr' []

/-- `ST7703_CMD_SETEXTC` and its parameters. -/
theorem dcsWrite_sends_setextc :
    sends (fun _ => 0) (mipiDsiDcsWrite [0xb9, 0xf1, 0x12, 0x83] 0).1 =
      [[0x39, 4, 0, 0x2c, 0xb9, 0xf1, 0x12, 0x83, 0x84, 0x5d]] := by
  have hpacket : dcsPacket [0xb9, 0xf1, 0x12, 0x83] =
      [0x39, 4, 0, 0x2c, 0xb9, 0xf1, 0x12, 0x83, 0x84, 0x5d] := by decide +kernel
  rw [← hpacket]
  exact (dcsWrite_sends _ 0 _).1 (by decide)

end PBoot
