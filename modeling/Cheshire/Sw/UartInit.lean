import Cheshire.Sw.Base

/-!
The settings of the UART (`uart_init` of `uart.c`), and what a 16550 makes of them: its divisor is
reached through other registers while a bit of the line control is set.
-/

namespace Cheshire.Sw.Uart

open Lib

abbrev UART_INTR_ENABLE_REG_OFFSET : ℕ := 4
abbrev UART_FIFO_CONTROL_REG_OFFSET : ℕ := 8
abbrev UART_LINE_CONTROL_REG_OFFSET : ℕ := 12
abbrev UART_MODEM_CONTROL_REG_OFFSET : ℕ := 16
abbrev UART_DLAB_LSB_REG_OFFSET : ℕ := 0
abbrev UART_DLAB_MSB_REG_OFFSET : ℕ := 4

section Init

variable {σ : Type} (store : ℕ → Byte → σ → σ)

/-- `uart_init`, with the stores to the registers. -/
def uartInit (freq baud : U64) (s : σ) : σ :=
  let divisor := freq / (baud <<< 4)
  let dlo : Byte := divisor.setWidth 8
  let dhi : Byte := (divisor >>> 8).setWidth 8
  let s := store UART_INTR_ENABLE_REG_OFFSET 0x00 s
  let s := store UART_LINE_CONTROL_REG_OFFSET 0x80 s
  let s := store UART_DLAB_LSB_REG_OFFSET dlo s
  let s := store UART_DLAB_MSB_REG_OFFSET dhi s
  let s := store UART_LINE_CONTROL_REG_OFFSET 0x03 s
  let s := store UART_FIFO_CONTROL_REG_OFFSET 0xC7 s
  store UART_MODEM_CONTROL_REG_OFFSET 0x20 s

/-- `__BOOT_BAUDRATE`. -/
def bootBaudrate : U64 := 115200

end Init

/-! ### The registers -/

/-- The registers of a 16550 that hold its settings. -/
structure Regs where
  dll : Byte
  dlm : Byte
  ier : Byte
  fcr : Byte
  lcr : Byte
  mcr : Byte

/-- A UART that transmits: stores to its registers, and its line from a time on at which it is idle,
when it sends bytes one after another, each after some idle time.  A cycle of its clock takes `C`
ticks. -/
structure Transmitter (σ : Type) where
  store : ℕ → Byte → σ → σ
  line : σ → (C : ℕ) → List (ℕ × Byte) → ℕ → Bool

namespace Regs

/-- The bit of the line control that puts the divisor in the place of two other registers. -/
def dlab (r : Regs) : Bool := r.lcr.getLsbD 7

/-- A store to one of them, or of a byte that is to be sent. -/
def store (offs : ℕ) (v : Byte) (r : Regs) : Regs :=
  match offs with
  | 0 => if r.dlab then { r with dll := v } else r
  | 4 => if r.dlab then { r with dlm := v } else { r with ier := v }
  | 8 => { r with fcr := v }
  | 12 => { r with lcr := v }
  | 16 => { r with mcr := v }
  | _ => r

def divisor (r : Regs) : ℕ := r.dlm.toNat * 256 + r.dll.toNat

/-- Eight bits, no parity, one stop bit, no break, and the divisor out of the way. -/
def Is8N1 (r : Regs) : Prop := r.lcr &&& 0xCF = 0x03

end Regs

/-- **What `uart_init` leaves in the registers**, whatever was in them. -/
theorem uartInit_regs (freq baud : U64) (r : Regs) : uartInit Regs.store freq baud r =
    ⟨(freq / (baud <<< 4)).setWidth 8, ((freq / (baud <<< 4)) >>> 8).setWidth 8,
      if r.dlab then r.ier else 0x00, 0xC7, 0x03, 0x20⟩ := by
  obtain ⟨dll, dlm, ier, fcr, lcr, mcr⟩ := r
  cases h : lcr[7] <;> simp [uartInit, Regs.store, Regs.dlab, h]

lemma is8N1_uartInit (freq baud : U64) (r : Regs) : (uartInit Regs.store freq baud r).Is8N1 := by
  rw [uartInit_regs]
  show (0x03 : Byte) &&& 0xCF = 0x03
  decide

lemma divisor_uartInit {freq baud : U64} (hbaud : 16 * baud.toNat < 2 ^ 64)
    (hfit : freq.toNat / (16 * baud.toNat) < 2 ^ 16) (r : Regs) :
    (uartInit Regs.store freq baud r).divisor = freq.toNat / (16 * baud.toNat) := by
  have hshift : (baud <<< 4).toNat = 16 * baud.toNat := by
    rw [BitVec.toNat_shiftLeft, Nat.shiftLeft_eq]
    omega
  rw [uartInit_regs]
  simp only [Regs.divisor, BitVec.toNat_setWidth, BitVec.toNat_ushiftRight, BitVec.toNat_udiv,
    hshift, Nat.shiftRight_eq_div_pow]
  generalize freq.toNat / (16 * baud.toNat) = d at hfit ⊢
  omega

end Cheshire.Sw.Uart
