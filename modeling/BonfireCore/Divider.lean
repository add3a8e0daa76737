import BonfireCore.Clocked
import BonfireCore.CoreConfig
import BonfireCore.LongDivision

/-! The divider: non-restoring division, and a complementer in front of it and behind it. -/
namespace BonfireCore

/-- The registers of `Complementor`. -/
structure Complementor where
  sumLow : BitVec 17 := 0
  dHigh : BitVec 16 := 0
  deriving DecidableEq, Repr

namespace Complementor

def step (compl : Bool) (d : Word) : Complementor :=
  let dPrepared := if compl then ~~~d else d
  { sumLow := (dPrepared.extractLsb' 0 16).setWidth 17 + (BitVec.ofBool compl).setWidth 17
    dHigh := dPrepared.extractLsb' 16 16 }

def dO (s : Complementor) : Word :=
  (s.dHigh + (BitVec.ofBool (s.sumLow.getLsbD 16)).setWidth 16) ++ s.sumLow.extractLsb' 0 16

end Complementor

structure DividerInput where
  op1 : Word
  op2 : Word
  signed : Bool
  rem : Bool
  ce : Bool
  deriving DecidableEq, Repr

structure Divider where
  compl : Complementor := {}
  invRes : Bool := false
  fsmCe : Bool := false
  wantRemainder : Bool := false
  dividend : Word := 0
  divisor : BitVec 33 := 0
  partialRemainder : BitVec 33 := 0
  sumSubtract : Bool := false
  cnt : ℕ := 0
  ceO : Bool := false
  remainderCorrector : Word := 0
  remainderCorrector1 : Bool := false
  remainderPos : Word := 0
  deriving DecidableEq, Repr

namespace Divider
variable (s : Divider) (i : DividerInput)

def resultO : Word := s.compl.dO

def addend : BitVec 33 := if s.sumSubtract then ~~~s.divisor else s.divisor

def sumVal : BitVec 33 :=
  s.partialRemainder + s.addend + (BitVec.ofBool s.sumSubtract).setWidth 33

def sumPositive : Bool := !s.sumVal.getLsbD 32

/-- The partial remainder, corrected to be positive. -/
def restored : Word :=
  s.partialRemainder.extractLsb' 1 32 + s.remainderCorrector +
    (BitVec.ofBool s.remainderCorrector1).setWidth 32

def resultPos : Word := if s.wantRemainder then s.remainderPos else s.dividend

def negative (op : Word) : Bool := op.getLsbD 31 && i.signed

/-- `inv_res` of an operation. -/
def inverts : Bool :=
  if i.rem then negative i i.op1
  else (i.op1.getLsbD 31 ^^ i.op2.getLsbD 31) && i.signed && i.op2 ≠ 0

def step : Divider where
  compl :=
    if i.ce then .step (negative i i.op1) i.op1 else .step s.invRes s.resultPos
  invRes := if i.ce then inverts i else s.invRes
  fsmCe := i.ce
  wantRemainder := if i.ce then i.rem else s.wantRemainder
  dividend :=
    if s.fsmCe then s.compl.dO.extractLsb' 0 31 ++ 0#1
    else s.dividend.extractLsb' 0 31 ++ BitVec.ofBool s.sumPositive
  divisor := if i.ce then BitVec.ofBool (negative i i.op2) ++ i.op2 else s.divisor
  partialRemainder :=
    if s.fsmCe then 0#32 ++ BitVec.ofBool (s.compl.dO.getLsbD 31)
    else s.sumVal.extractLsb' 0 32 ++ BitVec.ofBool (s.dividend.getLsbD 31)
  sumSubtract :=
    if s.fsmCe then !s.divisor.getLsbD 32 else s.sumPositive ^^ s.divisor.getLsbD 32
  cnt := if s.fsmCe then if s.wantRemainder then 34 else 33 else s.cnt - 1
  ceO := s.cnt = 1
  remainderCorrector :=
    if s.sumPositive then 0
    else if s.divisor.getLsbD 32 then ~~~s.divisor.extractLsb' 0 32
    else s.divisor.extractLsb' 0 32
  remainderCorrector1 := s.divisor.getLsbD 32 && !s.sumPositive
  remainderPos := s.restored

def machine : Clocked Divider DividerInput where
  init := {}
  step := step

end Divider
end BonfireCore
