import Cheshire.Sw.I2cBus

/-!
The driver of the 24FC1025 EEPROM (`i2c_24fc1025.c`) over the DIF of the I2C host.
-/

namespace Cheshire.Sw.I2c

/-- The fill levels of the FIFOs of the host, each a `uint8_t`. -/
structure Levels where
  fmt : Byte
  rx : Byte
  tx : Byte
  acq : Byte

/-- The DIF of the host on a state `σ`; each function gives the code it returns. -/
structure Dif (σ : Type) where
  /-- `dif_i2c_get_fifo_levels` -/
  getFifoLevels : σ → (CInt × Levels) × σ
  /-- `dif_i2c_host_set_enabled` -/
  hostSetEnabled : Bool → σ → CInt × σ
  /-- `dif_i2c_write_byte` -/
  writeByte : Byte → Fmt → (suppressNakIrq : Bool) → σ → CInt × σ
  /-- `dif_i2c_read_byte` -/
  readByte : σ → (CInt × Byte) × σ
  /-- `clint_spin_ticks` -/
  spinTicks : U64 → σ → σ

/-- The memory of the caller and the host. -/
structure St (σ : Type) where
  mem : Mem 64
  dev : σ

/-- A function that polls: it stops with a code that it returns, or with `none` while a poll has
not come to an end. -/
abbrev PollM (S α : Type) := EStateM (Option CInt) S α

section Code

variable {σ : Type} (dif : Dif σ)

/-- `CHECK_CALL` on a function of the DIF. -/
def checkDif {α : Type} (call : σ → (CInt × α) × σ) : PollM (St σ) α := fun s =>
  if (call s.dev).1.1 ≠ 0 then .error (some (call s.dev).1.1) ⟨s.mem, (call s.dev).2⟩
  else .ok (call s.dev).1.2 ⟨s.mem, (call s.dev).2⟩

/-- `CHECK_CALL` on a function of the DIF without a result. -/
def checkDif' (call : σ → CInt × σ) : PollM (St σ) Unit :=
  checkDif fun s => (((call s).1, ()), (call s).2)

def spinTicks (n : U64) : PollM (St σ) Unit := fun s => .ok () ⟨s.mem, dif.spinTicks n s.dev⟩

def loadByte (p : U64) : PollM (St σ) Byte := fun s => .ok (s.mem p) s

def storeByte (p : U64) (b : Byte) : PollM (St σ) Unit := fun s => .ok () ⟨s.mem.write p [b], s.dev⟩

/-- `do CHECK_CALL(dif_i2c_get_fifo_levels(...)) while (busy)`. -/
def pollLevels (busy : Levels → Bool) : ℕ → PollM (St σ) Unit
  | 0 => throw none
  | fuel + 1 => do
    let l ← checkDif dif.getFifoLevels
    if busy l then pollLevels busy fuel else pure ()

/-- The control byte of a write; a byte of it is sent. -/
def ctrlWaddr (addr : U64) : U64 :=
  0xA0 ||| ((addr &&& 0x10000) >>> 1) ||| ((addr &&& 0x1100000) >>> 4)

/-- `__i2c_24fc1025_access_chunk`, with `I2C_PARAM_FIFO_DEPTH` a parameter. -/
def accessChunk (depth : U64) : ℕ → (buf addr len : U64) → (write : Bool) → PollM (St σ) Unit
  | 0, _, _, _, _ => throw none
  | fuel + 1, buf, addr, len, write => do
    -- wait for all FIFOs to be vacated
    pollLevels dif (fun l => l.fmt != 0 || l.rx != 0 || l.tx != 0 || l.acq != 0) fuel
    spinTicks dif 1
    checkDif' (dif.hostSetEnabled false)
    checkDif' (dif.writeByte ((ctrlWaddr addr).setWidth 8) .start true)
    checkDif' (dif.writeByte ((addr >>> 8 &&& 0xFF).setWidth 8) .tx true)
    checkDif' (dif.writeByte ((addr &&& 0xFF).setWidth 8) (if write then .tx else .txStop) true)
    if write then
      let halfFill := depth / 2
      (List.range (cMin (len - 1) halfFill).toNat).forM fun b => do
        let x ← loadByte (buf + .ofNat 64 b)
        checkDif' (dif.writeByte x .tx true)
      let x ← loadByte (buf + (len - 1))
      checkDif' (dif.writeByte x .tx true)
      checkDif' (dif.hostSetEnabled true)
      if len > halfFill then
        accessChunk depth fuel (buf + len) (addr + len) (len - halfFill) true
      else pure ()
    else
      checkDif' (dif.writeByte ((ctrlWaddr addr ||| 0x1).setWidth 8) .start true)
      checkDif' (dif.writeByte (len.setWidth 8) .rx false)
      checkDif' (dif.hostSetEnabled true)
      -- wait for the chunk to be received
      pollLevels dif (fun l => decide (l.rx.setWidth 64 < len)) fuel
      (List.range len.toNat).forM fun b => do
        let x ← checkDif dif.readByte
        storeByte (buf + .ofNat 64 b) x

/-- The loop over the chunks that start aligned. -/
def accessLoop (depth : U64) (buf addr len : U64) (write : Bool) :
    ℕ → (offs : U64) → PollM (St σ) Unit
  | 0, _ => throw none
  | fuel + 1, offs =>
    if offs < len then do
      let chunkLen := cMin depth (len - offs)
      accessChunk dif depth fuel (buf + offs) (addr + offs) chunkLen write
      accessLoop depth buf addr len write fuel (offs + depth)
    else pure ()

/-- `__i2c_24fc1025_access`. -/
def access (depth : U64) (fuel : ℕ) (buf addr len : U64) (write : Bool) : PollM (St σ) Unit := do
  if 128 % depth = 0 then pure () else throw (some 0x13)
  let addrOffs := addr % depth
  if addrOffs ≠ 0 then do
    accessChunk dif depth fuel buf addr (depth - addrOffs) write
    accessLoop dif depth buf addr len write fuel (depth - addrOffs)
  else
    accessLoop dif depth buf addr len write fuel 0

/-- `i2c_24fc1025_read`. -/
def i2c24fc1025Read (depth : U64) (fuel : ℕ) (buf addr len : U64) : PollM (St σ) Unit :=
  access dif depth fuel buf addr len false

/-- `i2c_24fc1025_write`. -/
def i2c24fc1025Write (depth : U64) (fuel : ℕ) (buf addr len : U64) : PollM (St σ) Unit :=
  access dif depth fuel buf addr len true

end Code

end Cheshire.Sw.I2c
