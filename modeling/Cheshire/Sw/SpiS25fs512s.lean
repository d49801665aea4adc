import Cheshire.Sw.Base
import Mathlib.Data.PNat.Basic

/-!
The driver of the S25FS512S flash (`spi_s25fs512s.c`) over the DIF of the SPI host.
-/

namespace Cheshire.Sw.SpiS25fs512s

open Lib

/-- The segments of a transaction (`dif_spi_host_segment_t`), in standard width and with addresses
of four bytes. -/
inductive Segment where
  | opcode (opcode : Byte)
  | address (address : U32)
  | tx (buf : List Byte)
  | rx (length : ℕ)

/-- The DIF of the host on a state `σ`: the code that the function returns, and what the receive
segment of the transaction has received. -/
structure Dif (σ : Type) where
  /-- `dif_spi_host_transaction` -/
  transaction : (csid : CInt) → List Segment → σ → (CInt × List Byte) × σ

/-- `spi_s25fs512s_t`, set up. -/
structure Handle where
  spiFreq : U64
  csid : CInt

/-- The memory and the host with its flash. -/
structure St (σ : Type) where
  mem : Mem 64
  dev : σ

/-- A function that polls: it stops with a code that it returns, or with `none` while a poll has
not come to an end. -/
abbrev PollM (S α : Type) := EStateM (Option CInt) S α

section Code

variable {σ : Type} (dif : Dif σ) (handle : Handle)

/-- `CHECK_CALL` on a transaction. -/
def checkDif (segs : List Segment) : PollM (St σ) (List Byte) := fun s =>
  if (dif.transaction handle.csid segs s.dev).1.1 ≠ 0 then
    .error (some (dif.transaction handle.csid segs s.dev).1.1)
      ⟨s.mem, (dif.transaction handle.csid segs s.dev).2⟩
  else
    .ok (dif.transaction handle.csid segs s.dev).1.2
      ⟨s.mem, (dif.transaction handle.csid segs s.dev).2⟩

/-- `CHECK_CALL` on a transaction that receives to `p`: what it has received is in memory, also when
it fails. -/
def checkRx (p : U64) (segs : List Segment) : PollM (St σ) Unit := fun s =>
  if (dif.transaction handle.csid segs s.dev).1.1 ≠ 0 then
    .error (some (dif.transaction handle.csid segs s.dev).1.1)
      ⟨s.mem.write p (dif.transaction handle.csid segs s.dev).1.2,
        (dif.transaction handle.csid segs s.dev).2⟩
  else
    .ok () ⟨s.mem.write p (dif.transaction handle.csid segs s.dev).1.2,
      (dif.transaction handle.csid segs s.dev).2⟩

/-- `__spi_s25fs512s_single_read_chunk`. -/
def singleReadChunk (buf addr len : U64) : PollM (St σ) Unit :=
  checkRx dif handle buf [.opcode 0x13, .address (addr.setWidth 32), .rx len.toNat]

/-- The loop over the chunks, `SPI_HOST_PARAM_RX_DEPTH` being `depth`. -/
def readLoop (depth : ℕ+) (buf addr len : U64) : ℕ → (offs : U64) → PollM (St σ) Unit
  | 0, _ => throw none
  | fuel + 1, offs =>
    if offs < len then do
      let chunkLen := cMin (.ofNat 64 (4 * depth)) (len - offs)
      singleReadChunk dif handle (buf + offs) (addr + offs) chunkLen
      readLoop depth buf addr len fuel (offs + .ofNat 64 (4 * depth))
    else pure ()

/-- `spi_s25fs512s_single_read`. -/
def spiS25fs512sSingleRead (depth : ℕ+) (fuel : ℕ) (buf addr len : U64) : PollM (St σ) Unit :=
  if handle.spiFreq < 50 * 1000 * 1000 then readLoop dif handle depth buf addr len fuel 0
  else throw (some 0x15)

/-- `__spi_s25fs512s_poll_wip`; gives the error bits. -/
def pollWip : ℕ → PollM (St σ) Byte
  | 0 => throw none
  | fuel + 1 => do
    let bs ← checkDif dif handle [.opcode 0x05, .rx 1]
    let statusReg1 := bs.headD 0
    if statusReg1 &&& 1 ≠ 0 then pollWip fuel else pure (statusReg1 &&& 0b01100000)

/-- `CHECK_CALL(__spi_s25fs512s_poll_wip(handle))`. -/
def checkWip (fuel : ℕ) : PollM (St σ) Unit := do
  let ret ← pollWip dif handle fuel
  if ret ≠ 0 then throw (some (ret.setWidth 32)) else pure ()

/-- `__spi_s25fs512s_single_flash_page`. -/
def singleFlashPage (fuel : ℕ) (buf page : U64) : PollM (St σ) Unit := do
  -- erase two sectors
  (List.range 2).forM fun i => do
    let _ ← checkDif dif handle
      [.opcode 0xDC, .address ((page <<< 9 + BitVec.ofNat 64 i <<< 8).setWidth 32)]
    checkWip dif handle fuel
  -- program the page
  checkRx dif handle buf [.opcode 0x12, .address ((page <<< 9).setWidth 32), .rx 512]
  checkWip dif handle fuel

/-- `spi_s25fs512s_single_flash`. -/
def spiS25fs512sSingleFlash (fuel : ℕ) (buf page numPages : U64) : PollM (St σ) Unit :=
  if handle.spiFreq < 100 * 1000 * 1000 then do
    -- write enable
    let _ ← checkDif dif handle [.opcode 0x06]
    (List.range numPages.toNat).forM fun p =>
      singleFlashPage dif handle fuel (buf + BitVec.ofNat 64 p <<< 9) (page + .ofNat 64 p)
  else throw (some 0x16)

end Code

end Cheshire.Sw.SpiS25fs512s
