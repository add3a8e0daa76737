import BonfireCore.DmiTransport
import BonfireCore.TapFsm

/-! The native JTAG debug transport module: the TAP and its data registers in the `TCK`
domain, in front of the shared clock-domain crossing. -/
namespace BonfireCore.DmiTransport

def JTAG_INSTR_IDCODE : BitVec 5 := 0x01
def JTAG_INSTR_DTMCS : BitVec 5 := 0x10
def JTAG_INSTR_DMI : BitVec 5 := 0x11
def JTAG_INSTR_BYPASS : BitVec 5 := 0x1F
def JTAG_IDCODE : BitVec 32 := 0x10E31913

def DTM_VERSION : BitVec 3 := 1
def DTM_IDLE : BitVec 3 := 1

variable {abits : ℕ}

/-- One shift of a scan register: `tdi` enters at the top. -/
def shiftIn {n : ℕ} (tdi : Bool) (v : BitVec n) : BitVec n :=
  setSlice (setSlice v (n - 1) (BitVec.ofBool tdi)) 0 (v.extractLsb' 1 (n - 1))

/-- What a DMI scan captures. -/
def captureDmi (pending : Bool) (response : DmiPayload abits) : DmiPayload abits :=
  if pending then setSlice 0 0 DMI_OP_BUSY else response

/-- What a DTMCS scan captures. -/
def captureDtmcs (abits : ℕ) (pending : Bool) : BitVec 32 :=
  let dtmcs : BitVec 32 := setSlice (setSlice 0 0 DTM_VERSION) 4 (BitVec.ofNat 5 abits)
  let dtmcs := if pending then setSlice dtmcs 10 DMI_OP_BUSY else dtmcs
  setSlice dtmcs 12 DTM_IDLE

structure JtagDtm (abits : ℕ) where
  tapState : TapState := .testLogicReset
  instruction : BitVec 5 := JTAG_INSTR_IDCODE
  irShift : BitVec 5 := 0
  idcodeShift : BitVec 32 := 0
  bypass : Bool := false
  dmiShiftReg : DmiPayload abits := 0
  dtmcsShiftReg : BitVec 32 := 0
  scan : ScanSide abits := {}
  deriving DecidableEq, Repr

namespace JtagDtm

/-- Instruction register part of a rising `tck_i` edge. -/
def irActions (tms tdi : Bool) (d : JtagDtm abits) : JtagDtm abits :=
  let e := if d.tapState = .testLogicReset ∧ tms then
      { d with instruction := JTAG_INSTR_IDCODE } else d
  if d.tapState = .captureIr then { e with irShift := 0x01 }
  else if d.tapState = .shiftIr then { e with irShift := shiftIn tdi d.irShift }
  else if d.tapState = .updateIr then { e with instruction := d.irShift }
  else e

/-- Data register part: `d` before the edge, `e` with the instruction part done. -/
def drActions (tdi pending : Bool) (response : DmiPayload abits) (d e : JtagDtm abits) :
    JtagDtm abits :=
  if d.tapState = .captureDr then
    if d.instruction = JTAG_INSTR_IDCODE then { e with idcodeShift := JTAG_IDCODE }
    else if d.instruction = JTAG_INSTR_BYPASS then { e with bypass := false }
    else if d.instruction = JTAG_INSTR_DMI then
      { e with dmiShiftReg := captureDmi pending response }
    else if d.instruction = JTAG_INSTR_DTMCS then
      { e with dtmcsShiftReg := captureDtmcs abits pending }
    else e
  else if d.tapState = .shiftDr then
    if d.instruction = JTAG_INSTR_BYPASS then { e with bypass := tdi }
    else if d.instruction = JTAG_INSTR_IDCODE then
      { e with idcodeShift := shiftIn tdi d.idcodeShift }
    else if d.instruction = JTAG_INSTR_DMI then
      { e with dmiShiftReg := shiftIn tdi d.dmiShiftReg }
    else if d.instruction = JTAG_INSTR_DTMCS then
      { e with dtmcsShiftReg := shiftIn tdi d.dtmcsShiftReg }
    else e
  else if d.tapState = .updateDr then
    if d.instruction = JTAG_INSTR_DMI then
      { e with scan := { d.scan with
          requestPayload := d.dmiShiftReg
          requestToggle := !d.scan.requestToggle } }
    else if d.instruction = JTAG_INSTR_DTMCS ∧ d.dtmcsShiftReg.getLsbD 17 then
      { e with scan := { d.scan with dtmhardresetToggle := !d.scan.dtmhardresetToggle } }
    else e
  else e

/-- Rising edge of `tck_i`: register actions and TAP state. -/
def tapActions (reset trstn tms tdi pending : Bool) (response : DmiPayload abits)
    (d : JtagDtm abits) : JtagDtm abits :=
  let e := if reset || !trstn then {} else drActions tdi pending response d (d.irActions tms tdi)
  { e with tapState := d.tapState.transition reset trstn tms }

/-- Falling edge of `tck_i`: the bit shown on `tdo_o`. -/
def tdoSelect (reset trstn : Bool) (d : JtagDtm abits) : Bool :=
  if reset || !trstn then false
  else if d.tapState = .shiftIr then d.irShift.getLsbD 0
  else if d.tapState = .shiftDr then
    if d.instruction = JTAG_INSTR_BYPASS then d.bypass
    else if d.instruction = JTAG_INSTR_IDCODE then d.idcodeShift.getLsbD 0
    else if d.instruction = JTAG_INSTR_DMI then d.dmiShiftReg.getLsbD 0
    else if d.instruction = JTAG_INSTR_DTMCS then d.dtmcsShiftReg.getLsbD 0
    else false
  else false

end JtagDtm
end BonfireCore.DmiTransport
