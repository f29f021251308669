import CaravelSoc.Housekeeping.OutputUpdate
import CaravelSoc.Housekeeping.OutputSelect
import CaravelSoc.Housekeeping.SpiStream
import CaravelSoc.Housekeeping.SpiBusy
import CaravelSoc.Housekeeping.DisabledSpi
import CaravelSoc.Housekeeping.PassThroughModes
import CaravelSoc.Transfer.OneTransfer
import CaravelSoc.Transfer.WaitLoop
import CaravelSoc.Transfer.Termination
import CaravelSoc.Transfer.BitBang
import CaravelSoc.Transfer.PowerOnDefaults
import CaravelSoc.Transfer.PadSnapshot
import CaravelSoc.Transfer.LoaderCounters
import CaravelSoc.User.DivisionByZero
import CaravelSoc.User.CounterWishbone
import CaravelSoc.User.CounterReads
import CaravelSoc.User.CounterProbes
import CaravelSoc.Firmware.WholeBuffer
import CaravelSoc.Management.UartPrint
import CaravelSoc.Management.FlashMemory
import CaravelSoc.Flash.HostRead
import CaravelSoc.Management.DebugHost
import CaravelSoc.Management.Interrupts
import CaravelSoc.Management.SpiMaster
import CaravelSoc.Firmware.GcdLaRun
