import BonfireCore.JtagDtm

/-! The ECP5 JTAGG frontend: data registers on the falling edge of `JTCK`, in front of the
same clock-domain crossing. -/
namespace BonfireCore.DmiTransport

variable {abits : ℕ}

/-- The JTAGG signals as the client sees them at a falling `JTCK` edge. -/
structure Ecp5JtaggInput where
  jtdi : Bool := false
  jshift : Bool := false
  jupdate : Bool := false
  jrstn : Bool := true
  jce1 : Bool := false
  jce2 : Bool := false
  jrt1 : Bool := false
  jrt2 : Bool := false
  deriving DecidableEq, Repr

structure Ecp5JtaggClient (abits : ℕ) where
  dmiShiftReg : DmiPayload abits := 0
  dtmcsShiftReg : BitVec 32 := 0
  activeEr1 : Bool := false
  activeEr2 : Bool := false
  jshiftD : Bool := false
  scan : ScanSide abits := {}
  deriving DecidableEq, Repr

namespace Ecp5JtaggClient

/-- Falling edge of `JTCK`. -/
def jtagClockDomain (reset : Bool) (i : Ecp5JtaggInput) (pending : Bool)
    (response : DmiPayload abits) (c : Ecp5JtaggClient abits) : Ecp5JtaggClient abits :=
  if reset || !i.jrstn then {}
  else
    let e := { c with jshiftD := i.jshift }
    if i.jce1 && !i.jshift then
      { e with
        activeEr1 := true
        activeEr2 := false
        dmiShiftReg := captureDmi pending response }
    else if i.jce2 && !i.jshift then
      { e with
        activeEr1 := false
        activeEr2 := true
        dtmcsShiftReg := captureDtmcs abits pending }
    else if i.jshift || c.jshiftD then
      -- the bit registered by JTAGG on the rising edge, the last one in Exit1-DR included
      if c.activeEr1 || i.jce1 then { e with dmiShiftReg := shiftIn i.jtdi c.dmiShiftReg }
      else if c.activeEr2 || i.jce2 then
        { e with dtmcsShiftReg := shiftIn i.jtdi c.dtmcsShiftReg }
      else e
    else if i.jupdate then
      if c.activeEr1 then
        { e with scan := { c.scan with
            requestPayload := c.dmiShiftReg
            requestToggle := !c.scan.requestToggle } }
      else if c.activeEr2 && c.dtmcsShiftReg.getLsbD 17 then
        { e with scan := { c.scan with dtmhardresetToggle := !c.scan.dtmhardresetToggle } }
      else e
    else if i.jrt1 then { e with activeEr1 := true, activeEr2 := false }
    else if i.jrt2 then { e with activeEr1 := false, activeEr2 := true }
    else e

def jtdo1 (c : Ecp5JtaggClient abits) : Bool := c.dmiShiftReg.getLsbD 0
def jtdo2 (c : Ecp5JtaggClient abits) : Bool := c.dtmcsShiftReg.getLsbD 0

end Ecp5JtaggClient
end BonfireCore.DmiTransport
