import Cheshire.Sw.Base
import Mathlib.Data.PNat.Basic

/-!
The SD card driver (`spi_sdcard.c`) over the DIF of the SPI host: commands with their responses,
and reads of any alignment through whole blocks.
-/

namespace Cheshire.Sw.SpiSdcard

open Lib

/-- The segments of a transaction (`dif_spi_host_segment_t`). -/
inductive Segment where
  | tx (buf : List Byte)
  | rx (length : ℕ)
  | dummy (length : ℕ)

/-- The DIF of the host on a state `σ`: the code that a function returns, and what a segment has
received. -/
structure Dif (σ : Type) where
  /-- `dif_spi_host_transaction_csaat` -/
  transactionCsaat : (csid : CInt) → Segment → σ → (CInt × List Byte) × σ
  /-- `dif_spi_host_transaction` -/
  transaction : (csid : CInt) → Segment → σ → (CInt × List Byte) × σ

/-- `spi_sdcard_t`, set up. -/
structure Handle where
  csid : CInt
  csidDummy : CInt

/-- The memory and the host with its card. -/
structure St (σ : Type) where
  mem : Mem 64
  dev : σ

/-- `spi_sdcard_resp_t`. -/
inductive Resp where
  | r1 | r1b | r2 | r3 | r7
  deriving DecidableEq

/-- `__spi_sdcard_resp_len`. -/
def respLen : Resp → ℕ
  | .r1 => 1
  | .r1b => 1
  | .r2 => 2
  | .r3 => 5
  | .r7 => 5

/-- What C leaves open in a check: the value of a shift by too much, which the mask of a response is
made of, and what `buf` holds before a response comes. -/
structure Undefined where
  mask : U64
  buf : U64

/-- The mask of a response.  The 1 that is shifted is an `int`, in which 2^31 is not there any
more. -/
def respMask (resp : Resp) : Option U64 :=
  if 8 * respLen resp < 31 then some (((1 : BitVec 32) <<< (8 * respLen resp) - 1).signExtend 64)
  else none

/-- The mask that a check takes. -/
def Undefined.maskOf (undef : Undefined) (resp : Resp) : U64 := (respMask resp).getD undef.mask

/-- `buf`, of which a response has overwritten the low bytes. -/
def Undefined.received (undef : Undefined) (bs : List Byte) : U64 :=
  .ofNat 64 (ofLe (bs ++ (toLe 8 undef.buf.toNat).drop bs.length))

/-! ### Checksums -/

/-- `__spi_sdcard_crc7_lookup`. -/
def crc7Lookup : List Byte :=
  [0x00, 0x12, 0x24, 0x36, 0x48, 0x5a, 0x6c, 0x7e, 0x90, 0x82, 0xb4, 0xa6, 0xd8, 0xca, 0xfc, 0xee,
   0x32, 0x20, 0x16, 0x04, 0x7a, 0x68, 0x5e, 0x4c, 0xa2, 0xb0, 0x86, 0x94, 0xea, 0xf8, 0xce, 0xdc,
   0x64, 0x76, 0x40, 0x52, 0x2c, 0x3e, 0x08, 0x1a, 0xf4, 0xe6, 0xd0, 0xc2, 0xbc, 0xae, 0x98, 0x8a,
   0x56, 0x44, 0x72, 0x60, 0x1e, 0x0c, 0x3a, 0x28, 0xc6, 0xd4, 0xe2, 0xf0, 0x8e, 0x9c, 0xaa, 0xb8,
   0xc8, 0xda, 0xec, 0xfe, 0x80, 0x92, 0xa4, 0xb6, 0x58, 0x4a, 0x7c, 0x6e, 0x10, 0x02, 0x34, 0x26,
   0xfa, 0xe8, 0xde, 0xcc, 0xb2, 0xa0, 0x96, 0x84, 0x6a, 0x78, 0x4e, 0x5c, 0x22, 0x30, 0x06, 0x14,
   0xac, 0xbe, 0x88, 0x9a, 0xe4, 0xf6, 0xc0, 0xd2, 0x3c, 0x2e, 0x18, 0x0a, 0x74, 0x66, 0x50, 0x42,
   0x9e, 0x8c, 0xba, 0xa8, 0xd6, 0xc4, 0xf2, 0xe0, 0x0e, 0x1c, 0x2a, 0x38, 0x46, 0x54, 0x62, 0x70,
   0x82, 0x90, 0xa6, 0xb4, 0xca, 0xd8, 0xee, 0xfc, 0x12, 0x00, 0x36, 0x24, 0x5a, 0x48, 0x7e, 0x6c,
   0xb0, 0xa2, 0x94, 0x86, 0xf8, 0xea, 0xdc, 0xce, 0x20, 0x32, 0x04, 0x16, 0x68, 0x7a, 0x4c, 0x5e,
   0xe6, 0xf4, 0xc2, 0xd0, 0xae, 0xbc, 0x8a, 0x98, 0x76, 0x64, 0x52, 0x40, 0x3e, 0x2c, 0x1a, 0x08,
   0xd4, 0xc6, 0xf0, 0xe2, 0x9c, 0x8e, 0xb8, 0xaa, 0x44, 0x56, 0x60, 0x72, 0x0c, 0x1e, 0x28, 0x3a,
   0x4a, 0x58, 0x6e, 0x7c, 0x02, 0x10, 0x26, 0x34, 0xda, 0xc8, 0xfe, 0xec, 0x92, 0x80, 0xb6, 0xa4,
   0x78, 0x6a, 0x5c, 0x4e, 0x30, 0x22, 0x14, 0x06, 0xe8, 0xfa, 0xcc, 0xde, 0xa0, 0xb2, 0x84, 0x96,
   0x2e, 0x3c, 0x0a, 0x18, 0x66, 0x74, 0x42, 0x50, 0xbe, 0xac, 0x9a, 0x88, 0xf6, 0xe4, 0xd2, 0xc0,
   0x1c, 0x0e, 0x38, 0x2a, 0x54, 0x46, 0x70, 0x62, 0x8c, 0x9e, 0xa8, 0xba, 0xc4, 0xd6, 0xe0, 0xf2]

/-- `__spi_sdcard_crc7`. -/
def crc7 (data : List Byte) : Byte :=
  data.foldl (fun state x => crc7Lookup.getD (x ^^^ state <<< 1).toNat 0) 0

/-- `__spi_sdcard_crc16_lookup`. -/
def crc16Lookup : List (BitVec 16) :=
  [0x0000, 0x1021, 0x2042, 0x3063, 0x4084, 0x50a5, 0x60c6, 0x70e7, 0x8108, 0x9129, 0xa14a, 0xb16b,
   0xc18c, 0xd1ad, 0xe1ce, 0xf1ef, 0x1231, 0x0210, 0x3273, 0x2252, 0x52b5, 0x4294, 0x72f7, 0x62d6,
   0x9339, 0x8318, 0xb37b, 0xa35a, 0xd3bd, 0xc39c, 0xf3ff, 0xe3de, 0x2462, 0x3443, 0x0420, 0x1401,
   0x64e6, 0x74c7, 0x44a4, 0x5485, 0xa56a, 0xb54b, 0x8528, 0x9509, 0xe5ee, 0xf5cf, 0xc5ac, 0xd58d,
   0x3653, 0x2672, 0x1611, 0x0630, 0x76d7, 0x66f6, 0x5695, 0x46b4, 0xb75b, 0xa77a, 0x9719, 0x8738,
   0xf7df, 0xe7fe, 0xd79d, 0xc7bc, 0x48c4, 0x58e5, 0x6886, 0x78a7, 0x0840, 0x1861, 0x2802, 0x3823,
   0xc9cc, 0xd9ed, 0xe98e, 0xf9af, 0x8948, 0x9969, 0xa90a, 0xb92b, 0x5af5, 0x4ad4, 0x7ab7, 0x6a96,
   0x1a71, 0x0a50, 0x3a33, 0x2a12, 0xdbfd, 0xcbdc, 0xfbbf, 0xeb9e, 0x9b79, 0x8b58, 0xbb3b, 0xab1a,
   0x6ca6, 0x7c87, 0x4ce4, 0x5cc5, 0x2c22, 0x3c03, 0x0c60, 0x1c41, 0xedae, 0xfd8f, 0xcdec, 0xddcd,
   0xad2a, 0xbd0b, 0x8d68, 0x9d49, 0x7e97, 0x6eb6, 0x5ed5, 0x4ef4, 0x3e13, 0x2e32, 0x1e51, 0x0e70,
   0xff9f, 0xefbe, 0xdfdd, 0xcffc, 0xbf1b, 0xaf3a, 0x9f59, 0x8f78, 0x9188, 0x81a9, 0xb1ca, 0xa1eb,
   0xd10c, 0xc12d, 0xf14e, 0xe16f, 0x1080, 0x00a1, 0x30c2, 0x20e3, 0x5004, 0x4025, 0x7046, 0x6067,
   0x83b9, 0x9398, 0xa3fb, 0xb3da, 0xc33d, 0xd31c, 0xe37f, 0xf35e, 0x02b1, 0x1290, 0x22f3, 0x32d2,
   0x4235, 0x5214, 0x6277, 0x7256, 0xb5ea, 0xa5cb, 0x95a8, 0x8589, 0xf56e, 0xe54f, 0xd52c, 0xc50d,
   0x34e2, 0x24c3, 0x14a0, 0x0481, 0x7466, 0x6447, 0x5424, 0x4405, 0xa7db, 0xb7fa, 0x8799, 0x97b8,
   0xe75f, 0xf77e, 0xc71d, 0xd73c, 0x26d3, 0x36f2, 0x0691, 0x16b0, 0x6657, 0x7676, 0x4615, 0x5634,
   0xd94c, 0xc96d, 0xf90e, 0xe92f, 0x99c8, 0x89e9, 0xb98a, 0xa9ab, 0x5844, 0x4865, 0x7806, 0x6827,
   0x18c0, 0x08e1, 0x3882, 0x28a3, 0xcb7d, 0xdb5c, 0xeb3f, 0xfb1e, 0x8bf9, 0x9bd8, 0xabbb, 0xbb9a,
   0x4a75, 0x5a54, 0x6a37, 0x7a16, 0x0af1, 0x1ad0, 0x2ab3, 0x3a92, 0xfd2e, 0xed0f, 0xdd6c, 0xcd4d,
   0xbdaa, 0xad8b, 0x9de8, 0x8dc9, 0x7c26, 0x6c07, 0x5c64, 0x4c45, 0x3ca2, 0x2c83, 0x1ce0, 0x0cc1,
   0xef1f, 0xff3e, 0xcf5d, 0xdf7c, 0xaf9b, 0xbfba, 0x8fd9, 0x9ff8, 0x6e17, 0x7e36, 0x4e55, 0x5e74,
   0x2e93, 0x3eb2, 0x0ed1, 0x1ef0]

/-- The state of `__spi_sdcard_crc16` behind its loop. -/
def crc16State (data : List Byte) : BitVec 16 :=
  data.foldl (fun state x =>
    crc16Lookup.getD (x ^^^ (state >>> 8).setWidth 8).toNat 0 ^^^ state <<< 8) 0

/-- `__spi_sdcard_crc16`. -/
def crc16 (data : List Byte) : BitVec 16 :=
  -- the card sends its checksum big endian
  (crc16State data &&& 0xFF) <<< 8 ||| (crc16State data &&& 0xFF00) >>> 8

/-- The first five bytes of a command, as a number. -/
def cmdBody (opcode : Byte) (arg : U32) : U64 :=
  opcode.setWidth 64 ||| (arg.setWidth 64 >>> 24 &&& 0xff) <<< 8 |||
    (arg.setWidth 64 >>> 16 &&& 0xff) <<< 16 ||| (arg.setWidth 64 >>> 8 &&& 0xff) <<< 24 |||
    (arg.setWidth 64 &&& 0xff) <<< 32

/-- `__spi_sdcard_build_cmd`. -/
def buildCmd (opcode : Byte) (arg : U32) : U64 :=
  let crcbyte : U64 := (crc7 ((toLe 8 (cmdBody opcode arg).toNat).take 5)).setWidth 64 <<< 1 ||| 1
  crcbyte <<< 40 ||| cmdBody opcode arg

/-! ### Transfers and commands -/

section Code

variable {σ : Type} (dif : Dif σ) (handle : Handle) (undef : Undefined)

/-- `CHECK_CALL` on a function of the DIF. -/
def checkDif (call : σ → (CInt × List Byte) × σ) : CM (St σ) (List Byte) := fun s =>
  if (call s.dev).1.1 ≠ 0 then .error (call s.dev).1.1 ⟨s.mem, (call s.dev).2⟩
  else .ok (call s.dev).1.2 ⟨s.mem, (call s.dev).2⟩

def loadBytes (p : U64) (n : ℕ) : CM (St σ) (List Byte) := fun s => .ok (s.mem.slice p n) s

def storeBytes (p : U64) (bs : List Byte) : CM (St σ) Unit := fun s =>
  .ok () ⟨s.mem.write p bs, s.dev⟩

/-- `__builtin_memcpy`. -/
def memcpy (dst src len : U64) : CM (St σ) Unit := do
  let bs ← loadBytes src len.toNat
  storeBytes dst bs

/-- `__spi_sdcard_xfer_csaat`: `rx` tells whether there is somewhere to receive to, `tx` has the
bytes to send. -/
def xferCsaat (rx : Bool) (tx : Option (List Byte)) (len : ℕ) : CM (St σ) (List Byte) := do
  checkAssert 0x11 (¬ (tx.isSome ∧ rx))
  let seg := match tx with
    | some bs => .tx (bs.take len)
    | none => if rx then .rx len else .dummy (8 * len)
  checkDif (dif.transactionCsaat handle.csid seg)

/-- A byte received to a variable. -/
def xferByte : CM (St σ) Byte := do
  let bs ← xferCsaat dif handle true none 1
  pure (bs.headD 0)

/-- Bytes received to a pointer. -/
def xferTo (p : U64) (len : ℕ) : CM (St σ) Unit := do
  let bs ← xferCsaat dif handle (p != 0) none len
  if p = 0 then pure () else storeBytes p bs

/-- `__spi_sdcard_csfree`. -/
def csfree : CM (St σ) Unit := do
  let _ ← checkDif (dif.transaction handle.csidDummy (.dummy 8))

/-- `do CHECK_CALL(xfer) while (--timeout && again); if (timeout == 0) return err`. -/
def poll (err : CInt) (again : Byte → Bool) : ℕ → CM (St σ) Byte
  | 0 => throw err
  | timeout + 1 => do
    let x ← xferByte dif handle
    if timeout = 0 then throw err
    else if again x then poll err again timeout
    else pure x

/-- `__spi_sdcard_cmd`; gives the response. -/
def cmd (c : U64) (resp : Resp) (csaat : Bool) : CM (St σ) (List Byte) := do
  let _ ← xferCsaat dif handle false (some (toLe 8 c.toNat)) 6
  -- discard the stuff byte behind CMD12
  if c &&& 0xFF = 0x4C then
    let _ ← xferByte dif handle
  let r ← poll dif handle 0x12 (fun x => x &&& 0x80 != 0) 8
  let remBytes := respLen resp - 1
  let rest ←
    if resp = .r1b then do
      let _ ← poll dif handle 0x13 (fun x => x == 0) 10000
      pure []
    else if remBytes ≠ 0 then xferCsaat dif handle true none remBytes
    else pure []
  if csaat then pure () else csfree dif handle
  pure (r :: rest)

/-- `__spi_sdcard_cmd_check`. -/
def cmdCheck (c : U64) (resp : Resp) (checkExp : Bool) (exp : U64) : CM (St σ) Unit := do
  let bs ← cmd dif handle c resp false
  let buf := undef.received bs
  let mask := undef.maskOf resp
  if checkExp ∧ buf &&& mask ≠ exp &&& mask then checkCall ((buf &&& mask).setWidth 32)
  else pure ()

/-! ### Reads -/

/-- The loop over the chunks of a block, `SPI_HOST_PARAM_RX_DEPTH` being `depth`. -/
def readChunks (depth : ℕ+) (blockBuf : U64) (offs : ℕ) : CM (St σ) Unit :=
  if offs < 512 then do
    xferTo dif handle (blockBuf + .ofNat 64 offs) (min (4 * depth) (512 - offs))
    readChunks depth blockBuf (offs + 4 * depth)
  else pure ()
termination_by 512 - offs
decreasing_by
  have := depth.pos
  omega

/-- The body of the loop over the blocks. -/
def readBlock (depth : ℕ+) (buf len blockSwap firstOffs lastLen : U64) (checkCrc : Bool)
    (b : U64) : CM (St σ) Unit := do
  let token ← poll dif handle 0x19 (fun x => x == 0xFF) 10000
  if token = 0xFE then pure () else throw 0x20
  let firstBlock : Bool := b = 0 ∧ firstOffs ≠ 0
  let lastBlock : Bool := b = len - 1 ∧ lastLen ≠ 512
  let blockDst := buf + 512 * b
  let blockBuf := if firstBlock || lastBlock then blockSwap else blockDst
  readChunks dif handle depth blockBuf 0
  let crc ← xferCsaat dif handle true none 2
  let data ← loadBytes blockBuf 512
  if checkCrc ∧ BitVec.ofNat 16 (ofLe crc) ≠ crc16 data then throw 0x21
  -- if this block is buffered, copy what is asked for
  if firstBlock && lastBlock then
    memcpy (blockDst + firstOffs) (blockSwap + firstOffs) (lastLen - firstOffs)
  else if firstBlock then
    memcpy (blockDst + firstOffs) (blockSwap + firstOffs) (512 - firstOffs)
  else if lastBlock then
    memcpy blockDst blockSwap lastLen
  else pure ()

/-- `__spi_sdcard_read_blocks`. -/
def readBlocks (depth : ℕ+) (buf block len blockSwap firstOffs lastLen : U64) (checkCrc : Bool) :
    CM (St σ) Unit := do
  if len = 0 then pure ()
  else do
    -- CMD17 for a single block, CMD18 for more
    let c := buildCmd (if len > 1 then 0x52 else 0x51) (block.setWidth 32)
    let _ ← cmd dif handle c .r1 true
    (List.range len.toNat).forM fun b =>
      readBlock dif handle depth (buf - firstOffs) len blockSwap firstOffs lastLen checkCrc
        (.ofNat 64 b)
    if len > 1 then cmdCheck dif handle undef 0x61000000004C .r1b false 0
    else csfree dif handle

/-- `__spi_sdcard_read`, with its array `swap` at the address `swap`. -/
def read (depth : ℕ+) (swap buf addr len : U64) (checkCrc : Bool) : CM (St σ) Unit :=
  if len = 0 then pure ()
  else
    let block := addr / 512
    let firstOffs := addr % 512
    let pteOffs := (addr + len) % 512
    let lastLen := if pteOffs = 0 then 512 else pteOffs
    let lenBlocks := (len + firstOffs + 511) / 512
    readBlocks dif handle undef depth buf block lenBlocks swap firstOffs lastLen checkCrc

/-- `spi_sdcard_read_checkcrc`. -/
def spiSdcardReadCheckcrc (depth : ℕ+) (swap buf addr len : U64) : CM (St σ) Unit :=
  read dif handle undef depth swap buf addr len true

/-- `spi_sdcard_read_ignorecrc`. -/
def spiSdcardReadIgnorecrc (depth : ℕ+) (swap buf addr len : U64) : CM (St σ) Unit :=
  read dif handle undef depth swap buf addr len false

end Code

end Cheshire.Sw.SpiSdcard
