import Cheshire.Sw.Base

/-!
The functions of the DIF of the SPI host that set it up.
-/

namespace Cheshire.Sw

/-- The delays of a chip select. -/
structure ChipSelect where
  idle : Byte
  lead : Byte
  trail : Byte

/-- `dif_spi_host_config_t`. -/
structure HostConfig where
  chipSelect : ChipSelect
  cpha : Bool
  cpol : Bool
  fullCycle : Bool
  peripheralClockFreqHz : U64
  spiClock : U64

/-- What sets up the host, with the code that it returns. -/
structure HostSetup (σ : Type) where
  /-- `dif_spi_host_init` -/
  init : σ → CInt × σ
  /-- `dif_spi_host_reset` -/
  reset : σ → σ
  /-- `dif_spi_host_configure_cs` -/
  configureCs : HostConfig → (csid : CInt) → σ → CInt × σ
  /-- `dif_spi_host_enable` -/
  enable : Bool → σ → σ
  /-- `dif_spi_host_output_set_enabled` -/
  outputSetEnabled : Bool → σ → CInt × σ

end Cheshire.Sw
