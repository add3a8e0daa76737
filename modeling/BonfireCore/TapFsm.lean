import Mathlib.Tactic.Common

/-! The JTAG TAP state machine shared by the debug transport frontends. -/
namespace BonfireCore

inductive TapState
  | testLogicReset | runTestIdle
  | selectDrScan | captureDr | shiftDr | exit1Dr | pauseDr | exit2Dr | updateDr
  | selectIrScan | captureIr | shiftIr | exit1Ir | pauseIr | exit2Ir | updateIr
  deriving DecidableEq, Repr

/-- Rising edge of `tck_i`. -/
def TapState.transition (reset trstn tms : Bool) (s : TapState) : TapState :=
  if reset || !trstn then .testLogicReset
  else
    match s with
    | .testLogicReset => if tms then .testLogicReset else .runTestIdle
    | .runTestIdle => if tms then .selectDrScan else .runTestIdle
    | .selectDrScan => if tms then .selectIrScan else .captureDr
    | .captureDr => if tms then .exit1Dr else .shiftDr
    | .shiftDr => if tms then .exit1Dr else .shiftDr
    | .exit1Dr => if tms then .updateDr else .pauseDr
    | .pauseDr => if tms then .exit2Dr else .pauseDr
    | .exit2Dr => if tms then .updateDr else .shiftDr
    | .updateDr => if tms then .selectDrScan else .runTestIdle
    | .selectIrScan => if tms then .testLogicReset else .captureIr
    | .captureIr => if tms then .exit1Ir else .shiftIr
    | .shiftIr => if tms then .exit1Ir else .shiftIr
    | .exit1Ir => if tms then .updateIr else .pauseIr
    | .pauseIr => if tms then .exit2Ir else .pauseIr
    | .exit2Ir => if tms then .updateIr else .shiftIr
    | .updateIr => if tms then .selectDrScan else .runTestIdle

/-- After Capture-DR, up to and with Update-DR. -/
def TapState.inScan : TapState → Bool
  | .shiftDr | .exit1Dr | .pauseDr | .exit2Dr | .updateDr => true
  | _ => false

end BonfireCore
