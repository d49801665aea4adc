import Cheshire.Hw.AmoUser
import Cheshire.Hw.Cva6
import Cheshire.Hw.LlcRemap
import Cheshire.Hw.Route
import Cheshire.Sw.GptBoot
import Cheshire.Sw.I2cWrite
import Cheshire.Sw.I2cSelect
import Cheshire.Sim.UartSession
import Cheshire.Sw.SpiSdcardRead
import Cheshire.Sw.SpiSdcardExit
import Cheshire.Sw.SpiSdcardCmd
import Cheshire.Sw.SpiSdcardPoll
import Cheshire.Sw.S25fs512sFlash
import Cheshire.Sw.SmpBarrier
import Cheshire.Sim.JtagPreload
import Cheshire.Sim.SlinkPreload
import Cheshire.Sim.UartPreload
import Cheshire.Sim.Handshake
import Cheshire.Sw.Zsl
import Cheshire.Sw.Crt0
import Cheshire.Sim.ElfLoads
import Cheshire.Lib.CrcPoly
import Cheshire.Sw.SpiSdcardCrc
import Cheshire.Sim.ElfMapped
import Cheshire.Sim.ElfReads
import Cheshire.Sim.ElfStatus
import Cheshire.Sim.SlinkBursts
import Cheshire.Lib.Tick
import Cheshire.Sw.Clint
import Cheshire.Sw.ClintHalves
import Cheshire.Sw.ClintSleep
import Cheshire.Sw.ClintFreq
import Cheshire.Sw.ClintRate
import Cheshire.Sim.UartExec
import Cheshire.Sim.ExitCode
import Cheshire.Sim.SlinkWord
import Cheshire.Sw.ZslWindows
import Cheshire.Lib.Numeral
import Cheshire.Util.GenBootrom
import Cheshire.Sw.ZeroBss
import Cheshire.Lib.SaveArea
import Cheshire.Sw.TrapWrap
import Cheshire.Sw.BootChain
import Cheshire.Hw.RegTop
import Cheshire.Sim.UartRun
import Cheshire.Sw.SmpOpens
import Cheshire.Sim.UartLine
import Cheshire.Sim.SlinkRun
import Cheshire.Sw.BootEeprom
import Cheshire.Sw.BootMain
