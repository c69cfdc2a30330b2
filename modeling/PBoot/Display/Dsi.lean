import PBoot.Lib.Check

/-!
# DSI commands (`mipi_dsi_dcs_write` in `display.c`)

`mipiDsiDcsWrite data done` is what one call writes to the registers of the host, and what it
returns; `done` is what waiting for the transfer returned.
-/

namespace PBoot

/-! ## Headers -/

/-- Some bits, `BIT(i) | BIT(j) | …`. -/
def bitMask (l : List Nat) : BitVec 32 := l.foldr (fun j w => 1#32 <<< j ||| w) 0

def sun6iDsiEccArray : List (BitVec 32) :=
  [[0, 1, 2, 4, 5, 7, 10, 11, 13, 16, 20, 21, 22, 23],
   [0, 1, 3, 4, 6, 8, 10, 12, 14, 17, 20, 21, 22, 23],
   [0, 2, 3, 5, 6, 9, 11, 12, 15, 18, 20, 21, 22],
   [1, 2, 3, 7, 8, 9, 13, 14, 15, 19, 20, 21, 23],
   [4, 5, 6, 7, 8, 9, 16, 17, 18, 19, 20, 22, 23],
   [10, 11, 12, 13, 14, 15, 16, 17, 18, 19, 21, 22, 23]].map bitMask

/-- A step of the inner loop: `init` and `val`. -/
def eccVal (field data : BitVec 32) (s : Bool × BitVec 8) (j : Nat) : Bool × BitVec 8 :=
  let bit : BitVec 8 := if data.getLsbD j then 1 else 0
  if field.getLsbD j = false then s
  else if s.1 = false then (true, bit)
  else (s.1, s.2 ^^^ bit)

def sun6iDsiEccCompute (data : BitVec 32) : BitVec 8 :=
  (List.range 6).foldl (fun ecc i =>
    ecc ||| ((List.range 24).foldl (eccVal (sun6iDsiEccArray.getD i 0) data) (false, 0)).2 <<< i) 0

def mipiDsiDcsLongWrite : BitVec 8 := 0x39
def mipiDsiDcsShortWriteParam : BitVec 8 := 0x15
def mipiDsiDcsShortWrite : BitVec 8 := 0x05

def sun6iDsiDcsBuildPktHdr (type : BitVec 8) (buf : List (BitVec 8)) (len : BitVec 32) : BitVec 32 :=
  let pkt : BitVec 32 :=
    if type = mipiDsiDcsLongWrite then
      type.setWidth 32 ||| (len &&& 0xffff) <<< 8 ||| ((len >>> 8) &&& 0xffff) <<< 16
    else
      type.setWidth 32 ||| (buf.getD 0 0).setWidth 32 <<< 8 |||
        if 1 < len then (buf.getD 1 0).setWidth 32 <<< 16 else 0
  pkt ||| (sun6iDsiEccCompute pkt).setWidth 32 <<< 24

/-! ## Checksums -/

def crcCcittTable : List (BitVec 16) :=
  [0x0000, 0x1189, 0x2312, 0x329b, 0x4624, 0x57ad, 0x6536, 0x74bf,
   0x8c48, 0x9dc1, 0xaf5a, 0xbed3, 0xca6c, 0xdbe5, 0xe97e, 0xf8f7,
   0x1081, 0x0108, 0x3393, 0x221a, 0x56a5, 0x472c, 0x75b7, 0x643e,
   0x9cc9, 0x8d40, 0xbfdb, 0xae52, 0xdaed, 0xcb64, 0xf9ff, 0xe876,
   0x2102, 0x308b, 0x0210, 0x1399, 0x6726, 0x76af, 0x4434, 0x55bd,
   0xad4a, 0xbcc3, 0x8e58, 0x9fd1, 0xeb6e, 0xfae7, 0xc87c, 0xd9f5,
   0x3183, 0x200a, 0x1291, 0x0318, 0x77a7, 0x662e, 0x54b5, 0x453c,
   0xbdcb, 0xac42, 0x9ed9, 0x8f50, 0xfbef, 0xea66, 0xd8fd, 0xc974,
   0x4204, 0x538d, 0x6116, 0x709f, 0x0420, 0x15a9, 0x2732, 0x36bb,
   0xce4c, 0xdfc5, 0xed5e, 0xfcd7, 0x8868, 0x99e1, 0xab7a, 0xbaf3,
   0x5285, 0x430c, 0x7197, 0x601e, 0x14a1, 0x0528, 0x37b3, 0x263a,
   0xdecd, 0xcf44, 0xfddf, 0xec56, 0x98e9, 0x8960, 0xbbfb, 0xaa72,
   0x6306, 0x728f, 0x4014, 0x519d, 0x2522, 0x34ab, 0x0630, 0x17b9,
   0xef4e, 0xfec7, 0xcc5c, 0xddd5, 0xa96a, 0xb8e3, 0x8a78, 0x9bf1,
   0x7387, 0x620e, 0x5095, 0x411c, 0x35a3, 0x242a, 0x16b1, 0x0738,
   0xffcf, 0xee46, 0xdcdd, 0xcd54, 0xb9eb, 0xa862, 0x9af9, 0x8b70,
   0x8408, 0x9581, 0xa71a, 0xb693, 0xc22c, 0xd3a5, 0xe13e, 0xf0b7,
   0x0840, 0x19c9, 0x2b52, 0x3adb, 0x4e64, 0x5fed, 0x6d76, 0x7cff,
   0x9489, 0x8500, 0xb79b, 0xa612, 0xd2ad, 0xc324, 0xf1bf, 0xe036,
   0x18c1, 0x0948, 0x3bd3, 0x2a5a, 0x5ee5, 0x4f6c, 0x7df7, 0x6c7e,
   0xa50a, 0xb483, 0x8618, 0x9791, 0xe32e, 0xf2a7, 0xc03c, 0xd1b5,
   0x2942, 0x38cb, 0x0a50, 0x1bd9, 0x6f66, 0x7eef, 0x4c74, 0x5dfd,
   0xb58b, 0xa402, 0x9699, 0x8710, 0xf3af, 0xe226, 0xd0bd, 0xc134,
   0x39c3, 0x284a, 0x1ad1, 0x0b58, 0x7fe7, 0x6e6e, 0x5cf5, 0x4d7c,
   0xc60c, 0xd785, 0xe51e, 0xf497, 0x8028, 0x91a1, 0xa33a, 0xb2b3,
   0x4a44, 0x5bcd, 0x6956, 0x78df, 0x0c60, 0x1de9, 0x2f72, 0x3efb,
   0xd68d, 0xc704, 0xf59f, 0xe416, 0x90a9, 0x8120, 0xb3bb, 0xa232,
   0x5ac5, 0x4b4c, 0x79d7, 0x685e, 0x1ce1, 0x0d68, 0x3ff3, 0x2e7a,
   0xe70e, 0xf687, 0xc41c, 0xd595, 0xa12a, 0xb0a3, 0x8238, 0x93b1,
   0x6b46, 0x7acf, 0x4854, 0x59dd, 0x2d62, 0x3ceb, 0x0e70, 0x1ff9,
   0xf78f, 0xe606, 0xd49d, 0xc514, 0xb1ab, 0xa022, 0x92b9, 0x8330,
   0x7bc7, 0x6a4e, 0x58d5, 0x495c, 0x3de3, 0x2c6a, 0x1ef1, 0x0f78]

def crcCcittByte (crc : BitVec 16) (c : BitVec 8) : BitVec 16 :=
  crc >>> 8 ^^^ crcCcittTable.getD ((crc ^^^ c.setWidth 16) &&& 0xff).toNat 0

def crcCcitt (crc : BitVec 16) (buffer : List (BitVec 8)) : BitVec 16 :=
  buffer.foldl crcCcittByte crc

def sun6iDsiCrcCompute (buffer : List (BitVec 8)) : BitVec 16 := crcCcitt 0xffff buffer

/-! ## Commands -/

def cmdCtlReg : Nat := 0x200
def cmdTxReg (n : Nat) : Nat := 0x300 + n * 4

inductive DsiOp
  | write (reg : Nat) (val : BitVec 32)
  /-- `sun6i_dsi_start(DSI_START_LPTX)` -/
  | start
  /-- `sun6i_dsi_inst_abort` -/
  | abort
  deriving DecidableEq

/-- The flags that are cleared first. -/
def cmdCtlFlags : BitVec 32 := bitMask [26, 25, 9]

/-- The bytes of a word in memory. -/
def leBytes (w : BitVec 16) : List (BitVec 8) := [w.setWidth 8, (w >>> 8).setWidth 8]

/-- `((u32*)bounce)[i]` -/
def wordAt (bounce : List (BitVec 8)) (i : Nat) : BitVec 32 :=
  bounce.getD (4 * i + 3) 0 ++ bounce.getD (4 * i + 2) 0 ++ bounce.getD (4 * i + 1) 0 ++
    bounce.getD (4 * i) 0

/-- What is written for a command before it is waited for; none when there is nothing to send. -/
def dcsPacketOps (data : List (BitVec 8)) : Option (List DsiOp) :=
  if 1 ≤ data.length ∧ data.length ≤ 2 then
    some [.write (cmdTxReg 0) (sun6iDsiDcsBuildPktHdr
        (if data.length = 1 then mipiDsiDcsShortWrite else mipiDsiDcsShortWriteParam) data
        (.ofNat 32 data.length)),
      .write cmdCtlReg (4 - 1), .start]
  else if 2 < data.length then
    let bounce := data ++ leBytes (sun6iDsiCrcCompute data) ++ List.replicate 4 0
    let bounceLen := data.length + 2
    some (.write (cmdTxReg 0)
        (sun6iDsiDcsBuildPktHdr mipiDsiDcsLongWrite data (.ofNat 32 data.length)) ::
      ((List.range ((bounceLen + 3) / 4)).map
          (fun i => .write (cmdTxReg (1 + i)) (wordAt bounce i)) ++
        [.write cmdCtlReg (.ofNat 32 (bounceLen + 4 - 1)), .start]))
  else none

def mipiDsiDcsWrite (data : List (BitVec 8)) (done : Int) : List DsiOp × Int :=
  match dcsPacketOps data with
  | none => ([.write cmdCtlReg cmdCtlFlags], -1)
  | some ops =>
    if done < 0 then (.write cmdCtlReg cmdCtlFlags :: (ops ++ [.abort]), done)
    else (.write cmdCtlReg cmdCtlFlags :: ops, 0)

end PBoot
