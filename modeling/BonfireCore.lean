import BonfireCore.BitSlice
import BonfireCore.Clocked
import BonfireCore.DmiTransport
import BonfireCore.DmiDelivery
import BonfireCore.TapFsm
import BonfireCore.JtagDtm
import BonfireCore.Ecp5Jtagg
import BonfireCore.DmiScan
import BonfireCore.DataRegister
import BonfireCore.Ecp5JtaggTap
import BonfireCore.Dbus
import BonfireCore.Interconnect
import BonfireCore.InterconnectReady
import BonfireCore.NestedInterconnect
import BonfireCore.InterconnectRouting
import BonfireCore.ByteMerge
import BonfireCore.Cache
import BonfireCore.CacheTransparent
import BonfireCore.CoreConfig
import BonfireCore.Alu
import BonfireCore.LoadStore
import BonfireCore.Csr
import BonfireCore.RegFile
import BonfireCore.Decode
import BonfireCore.Execute
import BonfireCore.Backend
import BonfireCore.Fetch
import BonfireCore.Core
import BonfireCore.Arch
import BonfireCore.LoadStoreAccess
import BonfireCore.ExecutePhase
import BonfireCore.WriteLog
import BonfireCore.Retirement
import BonfireCore.DataHazards
import BonfireCore.FaultContainment
import BonfireCore.DebugModule
import BonfireCore.CommandProtocol
import BonfireCore.Autoexec
import BonfireCore.Rsp
import BonfireCore.RspFraming
import BonfireCore.RspChunks
import BonfireCore.DebugApi
import BonfireCore.RspMemory
import BonfireCore.RspRegisters
import BonfireCore.UndoLog
import BonfireCore.Breakpoints
import BonfireCore.RspHandlers
import BonfireCore.RegisterPackets
import BonfireCore.RspReplies
import BonfireCore.LongDivision
import BonfireCore.Rv32i
import BonfireCore.AluResult
import BonfireCore.CsrFile
import BonfireCore.LoadStoreLanes
import BonfireCore.ByteMemory
import BonfireCore.IllegalWords
import BonfireCore.DbusToWishbone
import BonfireCore.DualportedRam
import BonfireCore.SerialLine
import BonfireCore.Uart
import BonfireCore.UartTransmit
import BonfireCore.UartDrain
import BonfireCore.UartReceive
import BonfireCore.DbusToRamPort
import BonfireCore.TrapFile
import BonfireCore.ShiftPipeline
import BonfireCore.DebugCore
import BonfireCore.DebugSystem
import BonfireCore.PcAlignment
import BonfireCore.FetchStream
import BonfireCore.FetchRestart
import BonfireCore.Resume
import BonfireCore.RunControl
import BonfireCore.Mcycle
import BonfireCore.HartReset
import BonfireCore.ControlFlow
import BonfireCore.ProgramOrder
import BonfireCore.Program
import BonfireCore.ProgramRun
import BonfireCore.JumpBypass
import BonfireCore.LoadStoreUnit
import BonfireCore.LoadStorePipelining
import BonfireCore.LoadStoreMemory
import BonfireCore.InstructionSemantics
import BonfireCore.RegisterWrite
import BonfireCore.InstructionEffect
import BonfireCore.RegisterStrobe
import BonfireCore.Divider
import BonfireCore.BitArith
import BonfireCore.Division
import BonfireCore.FillShift
import BonfireCore.BarrelShifter
import BonfireCore.BarrelShifterRuns
import BonfireCore.AddressMapCheck
import BonfireCore.ShiftSubtract
import BonfireCore.Snprintf
import BonfireCore.PrintfExpansion
import BonfireCore.Hart
import BonfireCore.HartRefinement
import BonfireCore.ExtendedCore
import BonfireCore.ExtendedCoreRun
import BonfireCore.JtagDebugApi
import BonfireCore.RemoteBitbang
import BonfireCore.Console
import BonfireCore.Startup
import BonfireCore.Boot
