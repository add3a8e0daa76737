import BonfireCore.Csr
import BonfireCore.Decode
import BonfireCore.LoadStore

/-! The execute stage around its functional units. -/
namespace BonfireCore

structure Execute where
  rdAdrReg : BitVec 5 := 0
  jumpR : Bool := false
  jumpDestR : Word := 0
  jumpBusy : Bool := false
  loadPending : Bool := false
  shiftPending : Bool := false
  alu : AluState := {}
  ls : LoadStore := {}
  csr : Csr := {}
  deriving DecidableEq, Repr

/-- What Execute sees in a cycle; without a debug module the last three are off. -/
structure ExecuteInput where
  valid : Bool
  op : DecodedOp
  op1 : Word
  op2 : Word
  hazard : Bool := false
  dbus : DbusResponse 32
  debugCsr : Option DebugCsr := none
  progbufActive : Bool := false
  flush : Bool := false

/-- The outputs of `jump_comb`. -/
structure JumpOutput where
  jump : Bool := false
  jumpDest : Word := 0
  jumpWe : Bool := false
  invalidOpcodeFault : Bool := false
  update : TrapCsrUpdate := {}
  debugEbreak : Bool := false
  deriving DecidableEq, Repr

namespace DecodedOp
variable (op : DecodedOp) (taken : Bool) (op1 op2 : Word)

def aluInput : AluInput where
  funct3 := op.funct3
  funct7_6 := op.funct7.getLsbD 5
  op1 := op1
  op2 := op2
  en := op.aluCmd && taken

def lsInput : LsInput where
  store := op.storeCmd
  funct3 := op.funct3
  op1 := op1
  op2 := op2
  displacement := op.displacement
  en := (op.storeCmd || op.loadCmd) && taken

def csrInput : CsrInput where
  funct3 := op.funct3
  op1 := op1
  csrAdr := op.privFunct12
  source := op.sourceRs1
  en := op.csrCmd && taken

/-- `mcause_update`, and the address a trap saves. -/
def trapUpdate : TrapCsrUpdate where
  mepc := op.mepc.extractLsb' 2 30
  mcause := if op.privFunct12.getLsbD 0 then 0x3 else 0xb

end DecodedOp

/-- The branch decision; `none`: a reserved `funct3`. -/
def branchTaken (f3 : BitVec 3) (flags : AluOutput) : Option Bool :=
  if f3 = Funct3.BEQ then some flags.flagEqual
  else if f3 = Funct3.BGE then some flags.flagGe
  else if f3 = Funct3.BGEU then some flags.flagUge
  else if f3 = Funct3.BLT then some !flags.flagGe
  else if f3 = Funct3.BLTU then some !flags.flagUge
  else if f3 = Funct3.BNE then some !flags.flagEqual
  else none

/-- `jump_comb` for an instruction that is taken. `ebreakm` and `progbufActive` are off
without a debug module. -/
def jumpComb (op : DecodedOp) (alu : AluOutput) (trap : TrapCsr) (ebreakm progbufActive : Bool) :
    JumpOutput :=
  let none := { update := op.trapUpdate }
  if op.branchCmd then
    match branchTaken op.funct3 alu with
    | some jump => { none with jump := jump, jumpDest := op.jumpDest }
    | .none => { none with invalidOpcodeFault := true, jumpDest := op.jumpDest }
  else if op.jumpCmd then { none with jumpDest := op.jumpDest, jump := true, jumpWe := true }
  else if op.jumprCmd then { none with jumpDest := alu.res, jump := true, jumpWe := true }
  else if op.sysCmd then
    if progbufActive && op.privFunct12 = PrivFunct12.ECALL then none
    else if ebreakm && op.privFunct12 = PrivFunct12.EBREAK then { none with debugEbreak := true }
    else if op.privFunct12 = PrivFunct12.EBREAK ∨ op.privFunct12 = PrivFunct12.ECALL then
      { none with
        jumpDest := trap.mtvec ++ 0#2
        jump := true
        update := { none.update with mstatusTrapEnter := true, weMcause := true, weMepc := true } }
    else if op.privFunct12 = PrivFunct12.ERET then
      { none with
        jumpDest := trap.mepc ++ 0#2
        jump := true
        update := { none.update with mstatusTrapExit := true } }
    else { none with invalidOpcodeFault := true }
  else none

namespace Execute
variable (c : CoreConfig) (s : Execute) (i : ExecuteInput)

def busy : Bool := s.alu.busyO || s.ls.busyO c i.dbus || s.jumpBusy || i.hazard

def taken : Bool := i.valid && !s.busy c i

def aluInput : AluInput := i.op.aluInput (s.taken c i) i.op1 i.op2

def lsInput : LsInput := i.op.lsInput (s.taken c i) i.op1 i.op2

def csrInput : CsrInput := i.op.csrInput (s.taken c i) i.op1

def aluOut : AluOutput := s.alu.out c.shifterMode (s.aluInput c i)

def csrOutput : CsrOutput := s.csr.out c i.debugCsr (s.csrInput c i)

def jumpOut : JumpOutput :=
  if s.taken c i then
    jumpComb i.op (s.aluOut c i) s.csr.trap (i.debugCsr.any (·.ebreakm)) i.progbufActive
  else { update := i.op.trapUpdate }

def validO : Bool :=
  (s.aluOut c i).valid || s.ls.validO c i.dbus || (s.csrOutput c i).valid || (s.jumpOut c i).jumpWe

def regWeO : Bool :=
  (s.aluOut c i).valid || s.ls.writeO c || (s.csrOutput c i).valid || (s.jumpOut c i).jumpWe

def rdAdrO : BitVec 5 := if s.taken c i then i.op.rdAdr else s.rdAdrReg

/-- `result_mux` of the pipeline without a writeback stage. -/
def resultO : Word :=
  if (s.jumpOut c i).jumpWe then i.op.nextIp
  else if s.loadPending then s.ls.resultO c i.dbus
  else if s.shiftPending || i.op.aluCmd then (s.aluOut c i).res
  else if i.op.csrCmd then (s.csrOutput c i).result
  else 0

def jumpO : Bool :=
  if s.taken c i && c.jumpBypass then (s.jumpOut c i).jump else s.jumpR && !s.taken c i

def jumpDestO : Word :=
  if s.taken c i && c.jumpBypass then (s.jumpOut c i).jumpDest else s.jumpDestR

/-- `decode.kill_i`. -/
def kill : Bool :=
  (if c.jumpBypass then s.taken c i && (s.jumpOut c i).jump else s.jumpBusy) || i.flush

/-- The condition of `debug_events`, before it is gated with the activity flag. -/
def debugException : Bool :=
  s.taken c i && i.op.invalidOpcode || (s.jumpOut c i).invalidOpcodeFault ||
    (s.csrOutput c i).invalidOp || s.ls.invalidOpO || s.ls.misalignLoadO || s.ls.misalignStoreO ||
    s.ls.busErrorO ||
    s.taken c i && i.op.sysCmd && i.op.privFunct12 = PrivFunct12.ECALL

/-- `pending_seq` counts a shift only where it takes a second cycle. -/
def isPipelinedShift : Bool :=
  c.shifterMode = .pipelined && i.op.aluCmd &&
    (i.op.funct3 = Funct3.SLL || i.op.funct3 = Funct3.SRL_SRA)

def step : Execute :=
  let taken := s.taken c i
  { rdAdrReg := if taken then i.op.rdAdr else s.rdAdrReg
    jumpR := if taken then (s.jumpOut c i).jump else s.jumpR
    jumpDestR := if taken then (s.jumpOut c i).jumpDest else s.jumpDestR
    jumpBusy := taken && (s.jumpOut c i).jump && !c.jumpBypass
    loadPending :=
      if taken then i.op.loadCmd else s.loadPending && !s.ls.validO c i.dbus
    shiftPending :=
      if taken then isPipelinedShift c i else s.shiftPending && !(s.aluOut c i).valid
    alu := s.alu.step c.shifterMode (s.aluInput c i)
    ls := s.ls.step c i.dbus (s.lsInput c i)
    csr := s.csr.step c i.debugCsr (s.csrInput c i) (s.jumpOut c i).update }

end Execute
end BonfireCore
