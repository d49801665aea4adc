import Cheshire.Hw.Cfg
import Mathlib.Data.Fintype.Defs

/-!
The documented memory map: the rows of the table of internal devices, with their start, size and
flags.
-/

namespace Cheshire.Hw

/-- The flags of a region: cacheable, idempotent, executable. -/
structure Flags where
  c : Bool
  i : Bool
  e : Bool
  deriving DecidableEq

/-- The rows of the memory map. -/
inductive Device where
  | debugRom
  | dma
  | bootrom | clint | irqRouter | axirt
  | regs | llc | uart | i2c | spiHost | gpio | slink | vga | unbent
  | plic | clics
  | spmCached | spmUncached
  deriving DecidableEq

namespace Device

instance : Fintype Device where
  elems := ⟨[debugRom, dma, bootrom, clint, irqRouter, axirt, regs, llc, uart, i2c, spiHost, gpio,
    slink, vga, unbent, plic, clics, spmCached, spmUncached], by decide⟩
  complete d := by cases d <;> decide

/-- The column "Start". -/
def start : Device → ℕ
  | debugRom => 0x0000_0000
  | dma => 0x0100_0000
  | bootrom => 0x0200_0000
  | clint => 0x0204_0000
  | irqRouter => 0x0208_0000
  | axirt => 0x020C_0000
  | regs => 0x0300_0000
  | llc => 0x0300_1000
  | uart => 0x0300_2000
  | i2c => 0x0300_3000
  | spiHost => 0x0300_4000
  | gpio => 0x0300_5000
  | slink => 0x0300_6000
  | vga => 0x0300_7000
  | unbent => 0x0300_8000
  | plic => 0x0400_0000
  | clics => 0x0800_0000
  | spmCached => 0x1000_0000
  | spmUncached => 0x1400_0000

/-- The column "Size". -/
def size : Device → ℕ
  | debugRom | bootrom | clint | irqRouter | axirt => 0x4_0000
  | dma | regs | llc | uart | i2c | spiHost | gpio | slink | vga | unbent => 0x1000
  | plic | clics | spmCached | spmUncached => 0x400_0000

/-- The column "Flags". -/
def flags : Device → Flags
  | debugRom | bootrom => ⟨false, false, true⟩
  | spmCached => ⟨true, true, true⟩
  | spmUncached => ⟨false, true, true⟩
  | _ => ⟨false, false, false⟩

end Device

/-- The address lies in `[start, pte)`. -/
def InWindow (start pte a : ℕ) : Prop := start ≤ a ∧ a < pte

instance (start pte a : ℕ) : Decidable (InWindow start pte a) := by unfold InWindow; infer_instance

end Cheshire.Hw
