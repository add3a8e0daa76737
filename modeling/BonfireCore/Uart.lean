import BonfireCore.BitSlice
import BonfireCore.Dbus

/-! The UART: its registers on the data bus, the transmitter and the receiver. -/
namespace BonfireCore

/-- The registers of `registers`. -/
structure UartRegs (fifoBits : ℕ) where
  txDivider : BitVec 16 := 0xffff
  rxStartQualTicks : BitVec 16 := (0xffff#16 >>> 1) + (0xffff#16 >>> 2) + (0xffff#16 >>> 4)
  rxStartSampleTicks : BitVec 16 := (0xffff#16 >>> 1) + (0xffff#16 >>> 3) + (0xffff#16 >>> 4)
  extModeEn : Bool := false
  enabledQ : Bool := false
  fifoThreshold : BitVec fifoBits := 0
  rxIntEn : Bool := false
  txIntEn : Bool := false
  fifoIntEn : Bool := false
  deriving DecidableEq, Repr

structure UartTx where
  line : Bool := true
  buffer : BitVec 8 := 0
  shift : BitVec 8 := 0
  bitIndex : BitVec 4 := 0
  divCount : BitVec 16 := 0
  busy : Bool := false
  bufferValid : Bool := false
  deriving DecidableEq, Repr

/-- `tx_fsm`. -/
def UartTx.step (t : UartTx) (divider : BitVec 16) (regWrite : Bool) (data : BitVec 8) : UartTx :=
  if t.busy then
    let next :=
      if t.divCount = 0 then
        let bit := { t with divCount := divider }
        if t.bitIndex < 8 then
          { bit with line := t.shift.getLsbD t.bitIndex.toNat, bitIndex := t.bitIndex + 1 }
        else if t.bitIndex = 8 then { bit with line := true, bitIndex := 9 }
        else if t.bufferValid then
          { bit with shift := t.buffer, bufferValid := false, line := false, bitIndex := 0 }
        else if regWrite then { bit with shift := data, line := false, bitIndex := 0 }
        else { bit with busy := false, line := true, bitIndex := 0 }
      else { t with divCount := t.divCount - 1 }
    if regWrite && !(t.divCount = 0 && t.bitIndex = 9 && !t.bufferValid) then
      { next with buffer := data, bufferValid := true }
    else next
  else if regWrite then
    { t with busy := true, shift := data, line := false, bitIndex := 0, divCount := divider }
  else t

/-- The registers of `rx_fsm` that follow the line. -/
structure UartRxFsm where
  busy : Bool := false
  startCandidate : Bool := false
  stopBit : Bool := false
  shift : BitVec 8 := 0
  bitIndex : BitVec 4 := 0
  divCount : BitVec 16 := 0
  startTicks : BitVec 16 := 0
  samplePhase : BitVec 2 := 0
  sampleOnes : BitVec 3 := 0
  prev : Bool := true
  deriving DecidableEq, Repr

/-- The timing registers, as the receiver reads them. -/
structure RxTiming where
  divider : BitVec 16
  startQual : BitVec 16
  startSample : BitVec 16
  deriving DecidableEq, Repr

namespace UartRxFsm
variable (f : UartRxFsm) (t : RxTiming) (x : Bool)

/-- The majority of three samples, the last one still on the line. -/
def vote : Bool := f.sampleOnes = 2 || f.sampleOnes = 1 && x

/-- A byte that is complete, with its framing error. -/
def arrival : Option (BitVec 8 × Bool) :=
  if !f.startCandidate && f.busy && f.divCount = 0 && f.samplePhase = 2 && f.stopBit then
    some (f.shift, !f.vote x)
  else none

/-- The line's part of `rx_fsm`; `x` is `rx_sync_2`. -/
def step : UartRxFsm :=
  let next := { f with prev := x }
  if f.startCandidate then
    if x then { next with startCandidate := false, startTicks := 0 }
    else if f.startTicks = t.startQual then
      { next with
        startCandidate := false
        startTicks := 0
        busy := true
        stopBit := false
        bitIndex := 0
        samplePhase := 0
        sampleOnes := 0
        divCount := t.startSample }
    else { next with startTicks := f.startTicks + 1 }
  else if f.busy then
    if f.divCount = 0 then
      if f.samplePhase = 2 then
        let sampled := { next with samplePhase := 0, sampleOnes := 0, divCount := t.divider - 2 }
        if f.stopBit then { sampled with busy := false, stopBit := false, bitIndex := 0 }
        else
          { sampled with
            shift := setSlice f.shift f.bitIndex.toNat (BitVec.ofBool (f.vote x))
            stopBit := f.bitIndex = 7
            bitIndex := if f.bitIndex = 7 then f.bitIndex else f.bitIndex + 1 }
      else
        { next with
          sampleOnes := if x then f.sampleOnes + 1 else f.sampleOnes
          samplePhase := f.samplePhase + 1
          divCount := 0 }
    else { next with divCount := f.divCount - 1 }
  else if f.prev && !x then { next with startCandidate := true, startTicks := 0 }
  else next

end UartRxFsm

/-- The receiver: synchroniser, state machine and holding register. -/
structure UartRx where
  sync1 : Bool := true
  sync2 : Bool := true
  fsm : UartRxFsm := {}
  data : BitVec 8 := 0
  ready : Bool := false
  framingError : Bool := false
  deriving DecidableEq, Repr

/-- A clock edge of the receiver; an arrival wins over a read. -/
def UartRx.step (r : UartRx) (t : RxTiming) (rx regRead : Bool) : UartRx :=
  let arrival := r.fsm.arrival r.sync2
  { sync1 := rx
    sync2 := r.sync1
    fsm := r.fsm.step t r.sync2
    data := (arrival.map (·.1)).getD r.data
    ready := arrival.isSome || r.ready && !regRead
    framingError := (arrival.map (·.2)).getD (r.framingError && !regRead) }

structure Uart (fifoBits : ℕ) where
  regs : UartRegs fifoBits := {}
  tx : UartTx := {}
  rx : UartRx := {}
  deriving DecidableEq, Repr

structure UartInput where
  dbus : DbusRequest 32 := {}
  rx : Bool := true
  deriving DecidableEq, Repr

namespace UartInput
variable (i : UartInput)

/-- `adr_o[4:2]`. -/
def reg : BitVec 2 := i.dbus.adr.extractLsb' 2 2

def writeCycle : Bool := i.dbus.en && i.dbus.we ≠ 0

def rxRegRead : Bool := i.dbus.en && i.dbus.we = 0 && i.reg = 0

/-- A write to the data register, accepted or not. -/
def txWrite : Bool := i.writeCycle && i.reg = 0

/-- A write to the extended control register. -/
def controlWrite : Bool := i.writeCycle && i.reg = 2

def divider : BitVec 16 := i.dbus.dbWr.extractLsb' 0 16

end UartInput

namespace UartRegs
variable {fifoBits : ℕ} (r : UartRegs fifoBits) (i : UartInput)

/-- `register_write`. -/
def step : UartRegs fifoBits :=
  if i.writeCycle then
    if i.reg = 2 then
      { r with
        txDivider := i.divider
        rxStartQualTicks := (i.divider >>> 1) + (i.divider >>> 2) + (i.divider >>> 4)
        rxStartSampleTicks := (i.divider >>> 1) + (i.divider >>> 3) + (i.divider >>> 4)
        enabledQ := i.dbus.dbWr.getLsbD 16
        extModeEn := i.dbus.dbWr.getLsbD 17
        fifoThreshold := i.dbus.dbWr.extractLsb' 18 fifoBits }
    else if i.reg = 3 then
      { r with
        rxIntEn := i.dbus.dbWr.getLsbD 0
        txIntEn := i.dbus.dbWr.getLsbD 1
        fifoIntEn := i.dbus.dbWr.getLsbD 3 }
    else r
  else r

def timing : RxTiming where
  divider := r.txDivider
  startQual := r.rxStartQualTicks
  startSample := r.rxStartSampleTicks

end UartRegs

namespace Uart
variable {fifoBits : ℕ} (u : Uart fifoBits) (i : UartInput)

def txReady : Bool := !u.tx.bufferValid

def rxPending : Bool := u.regs.rxIntEn && u.rx.ready

def txPending : Bool := u.regs.txIntEn && u.txReady

def txRegWrite : Bool := i.txWrite && !u.tx.bufferValid

/-- `read_mux`. -/
def readData : BitVec 32 :=
  let bit (n : ℕ) (b : Bool) : BitVec 32 := (BitVec.ofBool b).setWidth 32 <<< n
  if i.reg = 0 then
    u.rx.data.setWidth 32 ||| bit 31 (u.regs.extModeEn && u.rx.framingError)
  else if i.reg = 1 then
    bit 0 u.rx.ready ||| bit 1 u.txReady ||| bit 2 u.tx.busy |||
      (if u.regs.extModeEn then BitVec.ofNat 32 fifoBits <<< 16 else 0)
  else if i.reg = 2 then
    u.regs.txDivider.setWidth 32 ||| bit 16 u.regs.enabledQ ||| bit 17 u.regs.extModeEn |||
      u.regs.fifoThreshold.setWidth 32 <<< 18
  else
    bit 0 u.regs.rxIntEn ||| bit 1 u.regs.txIntEn ||| bit 3 u.regs.fifoIntEn |||
      bit 16 (u.regs.extModeEn && u.rxPending) ||| bit 17 (u.regs.extModeEn && u.txPending)

def response : DbusResponse 32 where
  ack := i.dbus.en
  dbRd := u.readData i

def step : Uart fifoBits where
  regs := u.regs.step i
  tx := u.tx.step u.regs.txDivider (u.txRegWrite i) (i.dbus.dbWr.extractLsb' 0 8)
  rx := u.rx.step u.regs.timing i.rx i.rxRegRead

end Uart
end BonfireCore
