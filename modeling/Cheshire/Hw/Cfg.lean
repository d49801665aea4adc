import Mathlib.Tactic.Common

/-!
The configuration struct of the SoC (`cheshire_cfg_t` of `cheshire_pkg.sv`), as far as the
address maps and the user signals read it, and the static addresses.
-/

namespace Cheshire.Hw

/-- `doub_bt`. -/
abbrev Doub := BitVec 64

/-- `aw_bt`: address and ID widths, and port indices. -/
abbrev Aw := BitVec 6

/-- `dw_bt`: data widths. -/
abbrev Dw := BitVec 10

/-- `cheshire_cfg_t`.  The arrays of external regions have sixteen entries, and no rule count
exceeds fifteen. -/
structure CheshireCfg where
  cva6ExtCieLength : Doub
  cva6ExtCieOnTop : Bool
  numCores : BitVec 5
  coreUserAmoOffs : Doub
  axiDataWidth : BitVec 10
  axiUserWidth : Dw
  axiUserAmoMsb : Dw
  axiUserAmoLsb : Dw
  axiUserDefault : Doub
  axiExtNumSlv : BitVec 4
  axiExtNumRules : BitVec 4
  axiExtRegionIdx : ℕ → BitVec 8
  axiExtRegionStart : ℕ → Doub
  axiExtRegionEnd : ℕ → Doub
  regExtNumSlv : BitVec 4
  regExtNumRules : BitVec 4
  regExtRegionIdx : ℕ → BitVec 8
  regExtRegionStart : ℕ → Doub
  regExtRegionEnd : ℕ → Doub
  bootrom : Bool
  uart : Bool
  i2c : Bool
  spiHost : Bool
  gpio : Bool
  dma : Bool
  serialLink : Bool
  vga : Bool
  axiRt : Bool
  clic : Bool
  irqRouter : Bool
  busErr : Bool
  llcNotBypass : Bool
  llcSetAssoc : BitVec 16
  llcNumLines : BitVec 16
  llcNumBlocks : BitVec 16
  llcOutConnect : Bool
  llcOutRegionStart : Doub
  llcOutRegionEnd : Doub
  slinkRegionStart : Doub
  slinkRegionEnd : Doub

/-- `get_llc_size`: 32-bit arithmetic throughout. -/
def getLlcSize (cfg : CheshireCfg) : BitVec 32 :=
  cfg.llcSetAssoc.setWidth 32 * cfg.llcNumLines.setWidth 32 * cfg.llcNumBlocks.setWidth 32 *
    cfg.axiDataWidth.setWidth 32 / 8

/-- The size of the LLC as an address offset. -/
def sizeSpm (cfg : CheshireCfg) : Doub := (getLlcSize cfg).setWidth 64

/-! ### Static addresses -/

def amDbg : Doub := 0x0000_0000
def amBrom : Doub := 0x0200_0000
def amRegs : Doub := 0x0300_0000
def amLlc : Doub := 0x0300_1000
def amSlink : Doub := 0x0300_6000
def amBusErr : Doub := 0x0300_8000
def amSpm : Doub := 0x1000_0000
def amClic : Doub := 0x0800_0000

def amSpmBaseUncached : Doub := 0x1400_0000
def amSpmRegionMask : Doub := 0x03FF_FFFF

/-- `DefaultCfg`. -/
def defaultCfg : CheshireCfg where
  cva6ExtCieLength := 0x2000_0000
  cva6ExtCieOnTop := false
  numCores := 1
  coreUserAmoOffs := 0
  axiDataWidth := 64
  axiUserWidth := 2
  axiUserAmoMsb := 1
  axiUserAmoLsb := 0
  axiUserDefault := 0
  axiExtNumSlv := 0
  axiExtNumRules := 0
  axiExtRegionIdx := fun _ => 0
  axiExtRegionStart := fun _ => 0
  axiExtRegionEnd := fun _ => 0
  regExtNumSlv := 0
  regExtNumRules := 0
  regExtRegionIdx := fun _ => 0
  regExtRegionStart := fun _ => 0
  regExtRegionEnd := fun _ => 0
  bootrom := true
  uart := true
  i2c := true
  spiHost := true
  gpio := true
  dma := true
  serialLink := true
  vga := true
  axiRt := false
  clic := false
  irqRouter := false
  busErr := true
  llcNotBypass := true
  llcSetAssoc := 8
  llcNumLines := 256
  llcNumBlocks := 8
  llcOutConnect := true
  llcOutRegionStart := 0x8000_0000
  llcOutRegionEnd := 0x1_0000_0000
  slinkRegionStart := 0x1_0000_0000
  slinkRegionEnd := 0x2_0000_0000

end Cheshire.Hw
