import BonfireCore.CoreConfig
import Mathlib.Data.List.Basic

/-! The barrel shifter and the ALU around it. -/
namespace BonfireCore

/-- `left_shift_comb`: the powers of two from `low` up to, not including, `high`. -/
def leftShiftComb (d : Word) (shift : ℕ → Bool) (fill : Bool) (high low : ℕ) : Word :=
  (List.range (high - low)).foldl
    (fun temp i =>
      if shift i then
        temp <<< 2 ^ (low + i) |||
          if fill then (BitVec.allOnes (2 ^ (low + i))).setWidth 32 else 0
      else temp) d

def reverse (d : Word) : Word := d.reverse

/-- Registers of the pipelined shifter, and the busy flag of the ALU. -/
structure AluState where
  shift1 : BitVec 2 := 0
  fillR : Bool := false
  stageReg : Word := 0
  readyO : Bool := false
  rightR : Bool := false
  busyO : Bool := false
  deriving DecidableEq, Repr

structure AluInput where
  funct3 : BitVec 3
  funct7_6 : Bool
  op1 : Word
  op2 : Word
  en : Bool

structure AluOutput where
  res : Word
  flagGe : Bool
  flagUge : Bool
  flagEqual : Bool
  valid : Bool

namespace AluInput
variable (i : AluInput)

def subtract : Bool := !(i.en && i.funct3 = Funct3.ADD_SUB && !i.funct7_6)

/-- `adder`, with the carry as the top bit. -/
def adder : BitVec 33 :=
  i.op1.setWidth 33 + (if i.subtract then ~~~i.op2 else i.op2).setWidth 33 +
    (BitVec.ofBool i.subtract).setWidth 33

def flagUge : Bool := i.adder.getLsbD 32

def flagGe : Bool :=
  let carry := i.adder.getLsbD 32
  let s1 := i.op1.getLsbD 31
  let s2 := i.op2.getLsbD 31
  s1 && s2 && carry || !s1 && !s2 && carry || !s1 && s2

def shiftRight : Bool := i.funct3 = Funct3.SRL_SRA

def fillV : Bool := i.shiftRight && i.funct7_6 && i.op1.getLsbD 31

def isShift : Bool := i.funct3 = Funct3.SLL || i.funct3 = Funct3.SRL_SRA

def shiftEn : Bool := i.isShift && i.en

def tempIn : Word := if i.shiftRight then reverse i.op1 else i.op1

/-- All powers at once: the shifter without a pipeline stage. -/
def shiftComb : Word :=
  let tempOut := leftShiftComb i.tempIn (fun k => i.op2.getLsbD k) i.fillV 5 0
  if i.shiftRight then reverse tempOut else tempOut

/-- The Python operators of the behavioral mode. -/
def shiftBehavioral : Word :=
  let amount := (i.op2.extractLsb' 0 5).toNat
  if i.funct3 = Funct3.SLL then i.op1 <<< amount
  else if i.funct7_6 then i.op1.sshiftRight amount
  else i.op1 >>> amount

/-- The result of everything but a shift. -/
def logic : Word :=
  if i.funct3 = Funct3.ADD_SUB then i.adder.setWidth 32
  else if i.funct3 = Funct3.OR then i.op1 ||| i.op2
  else if i.funct3 = Funct3.AND then i.op1 &&& i.op2
  else if i.funct3 = Funct3.XOR then i.op1 ^^^ i.op2
  else if i.funct3 = Funct3.SLT then (BitVec.ofBool !i.flagGe).setWidth 32
  else if i.funct3 = Funct3.SLTU then (BitVec.ofBool !i.flagUge).setWidth 32
  else 0

end AluInput

namespace AluState
variable (mode : ShifterMode) (s : AluState) (i : AluInput)

/-- `ready_o` of the shifter, `shift_valid` in the behavioral mode. -/
def shiftValid : Bool :=
  match mode with
  | .comb => i.shiftEn
  | .pipelined => s.readyO
  | .behavioral => i.isShift

def shifterOut : Word :=
  match mode with
  | .comb => i.shiftComb
  | .pipelined =>
    let tempOut := leftShiftComb s.stageReg (fun k => s.shift1.getLsbD k) s.fillR 5 3
    if s.rightR then reverse tempOut else tempOut
  | .behavioral => i.shiftBehavioral

def out : AluOutput where
  res := if s.shiftValid mode i then s.shifterOut mode i else i.logic
  flagGe := i.flagGe
  flagUge := i.flagUge
  flagEqual := i.op1 = i.op2
  valid := s.shiftValid mode i || i.en && !i.isShift

def step : AluState :=
  match mode with
  | .pipelined =>
    { shift1 := if i.shiftEn then i.op2.extractLsb' 3 2 else s.shift1
      fillR := if i.shiftEn then i.fillV else s.fillR
      stageReg :=
        if i.shiftEn then leftShiftComb i.tempIn (fun k => i.op2.getLsbD k) i.fillV 3 0
        else s.stageReg
      readyO := i.shiftEn
      rightR := i.shiftRight
      busyO := i.shiftEn && !s.readyO }
  | _ => s

end AluState

/-- The two stages of the pipelined shifter do what the five powers do at once. -/
theorem leftShiftComb_split (d : Word) (shift : ℕ → Bool) (fill : Bool) :
    leftShiftComb (leftShiftComb d shift fill 3 0) (fun k => shift (3 + k)) fill 5 3 =
      leftShiftComb d shift fill 5 0 := by
  have h5 : List.range 5 = [0, 1, 2, 3, 4] := rfl
  have h3 : List.range 3 = [0, 1, 2] := rfl
  have h2 : List.range 2 = [0, 1] := rfl
  simp [leftShiftComb, h5, h3, h2]

theorem leftShiftComb_congr (d : Word) {f g : ℕ → Bool} (fill : Bool) {high low : ℕ}
    (h : ∀ k < high - low, f k = g k) :
    leftShiftComb d f fill high low = leftShiftComb d g fill high low := by
  unfold leftShiftComb
  apply List.foldl_ext
  intro temp k hk
  rw [h k (List.mem_range.1 hk)]

namespace AluState
variable {mode : ShifterMode} {s : AluState} {i j : AluInput}

/-- Nothing is in the shifter's pipeline. -/
structure Quiet (s : AluState) : Prop where
  ready : s.readyO = false
  busy : s.busyO = false

/-- Without a shift in progress the ALU answers as the purely combinational one does. -/
theorem Quiet.out_eq (hs : s.Quiet) (hm : mode ≠ .behavioral)
    (hi : mode = .pipelined → i.shiftEn = false) :
    s.out mode i = ({} : AluState).out .comb i := by
  cases mode with
  | comb => rfl
  | behavioral => exact absurd rfl hm
  | pipelined =>
    have hen : i.shiftEn = false := hi rfl
    simp [out, shiftValid, hs.ready, hen]

theorem Quiet.valid_shift (hs : s.Quiet) (hi : i.shiftEn = true) :
    (s.out .pipelined i).valid = false := by
  have hshift : i.isShift = true := by
    simp only [AluInput.shiftEn, Bool.and_eq_true] at hi
    exact hi.1
  simp [out, shiftValid, hs.ready, hshift]

theorem Quiet.step (hs : s.Quiet) (hi : mode = .pipelined → i.shiftEn = false) :
    (s.step mode i).Quiet := by
  cases mode with
  | pipelined => exact ⟨hi rfl, by simp [AluState.step, hi rfl]⟩
  | _ => exact hs

/-- The second cycle of a pipelined shift. -/
theorem step_shift (hs : s.Quiet) (hi : i.shiftEn = true) :
    (s.step .pipelined i).busyO = true ∧ (s.step .pipelined i).readyO = true ∧
      ((s.step .pipelined i).out .pipelined j).res = (({} : AluState).out .comb i).res := by
  refine ⟨by simp [AluState.step, hs.ready, hi], by simp [AluState.step, hi], ?_⟩
  have hcomb : leftShiftComb (leftShiftComb i.tempIn (fun k => i.op2.getLsbD k) i.fillV 3 0)
      (fun k => (i.op2.extractLsb' 3 2).getLsbD k) i.fillV 5 3 =
        leftShiftComb i.tempIn (fun k => i.op2.getLsbD k) i.fillV 5 0 := by
    rw [← leftShiftComb_split]
    apply leftShiftComb_congr
    intro k hk
    have hk2 : k < 2 := by omega
    simp [hk2]
  simp only [out, shiftValid, shifterOut, AluState.step, hi, if_true, hcomb, AluInput.shiftComb]

theorem step_quiet_of_idle (hen : i.shiftEn = false) : (s.step .pipelined i).Quiet :=
  ⟨by simp [AluState.step, hen], by simp [AluState.step, hen]⟩

end AluState
end BonfireCore
