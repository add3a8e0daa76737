import BonfireCore.Execute
import BonfireCore.RegFile

/-! Decode, Execute and the register file, with or without a writeback stage. -/
namespace BonfireCore

/-- The functional-unit result registers of the four-stage backend. -/
structure Writeback where
  valid : Bool := false
  we : Bool := false
  rd : BitVec 5 := 0
  aluValid : Bool := false
  loadValid : Bool := false
  csrValid : Bool := false
  jumpValid : Bool := false
  aluData : Word := 0
  loadData : Word := 0
  csrData : Word := 0
  jumpData : Word := 0
  deriving DecidableEq, Repr

namespace Writeback
variable (s : Writeback)

def data : Word :=
  if s.aluValid then s.aluData
  else if s.loadValid then s.loadData
  else if s.jumpValid then s.jumpData
  else if s.csrValid then s.csrData
  else 0

/-- `wb_prepare` and `writeback_seq`. -/
def capture (c : CoreConfig) (e : Execute) (i : ExecuteInput) : Writeback :=
  let jumpWe := (e.jumpOut c i).jumpWe
  let load := e.ls.writeO c
  let alu := (e.aluOut c i).valid
  let csr := (e.csrOutput c i).valid
  { valid := e.validO c i
    we := e.regWeO c i
    rd := e.rdAdrO c i
    jumpValid := jumpWe
    loadValid := !jumpWe && load
    aluValid := !jumpWe && !load && alu
    csrValid := !jumpWe && !load && !alu && csr
    aluData := (e.aluOut c i).res
    loadData := e.ls.resultO c i.dbus
    csrData := (e.csrOutput c i).result
    jumpData := i.op.nextIp }

/-- The slot writes the register an operand is read from. -/
def matchesSource (uses : Bool) (source : BitVec 5) : Bool :=
  s.valid && s.we && s.rd ≠ 0 && uses && source = s.rd

end Writeback

/-- What the debug module asks of the backend in a cycle; all off without one. -/
structure DebugHooks where
  transfer : RegisterTransfer := {}
  flush : Bool := false
  progbufActive : Bool := false
  debugCsr : Option DebugCsr := none
  deriving DecidableEq, Repr

structure BackendInput where
  fetch : DecodeInput := {}
  dbus : DbusResponse 32 := {}
  debug : DebugHooks := {}
  deriving DecidableEq, Repr

structure Backend where
  decode : Decode := {}
  execute : Execute := {}
  regfile : RegFile := {}
  wb : Writeback := {}

namespace Backend
variable (c : CoreConfig) (s : Backend) (i : BackendInput)

def usesRs1 : Bool := s.decode.valid && s.decode.op.usesRs1
def usesRs2 : Bool := s.decode.valid && s.decode.op.usesRs2

/-- `four_stage_hazard`. -/
def hazard : Bool :=
  c.pipelineLength = .four && !c.writebackBypass &&
    (s.wb.matchesSource s.usesRs1 s.decode.op.sourceRs1 ||
      s.wb.matchesSource s.usesRs2 s.decode.op.sourceRs2)

/-- `frwd_comb`. -/
def forwarded (uses : Bool) (source : BitVec 5) (operand : Word) : Word :=
  if c.writebackBypass && s.wb.matchesSource uses source then s.wb.data else operand

def op1 : Word :=
  s.forwarded c s.usesRs1 s.decode.op.sourceRs1 (s.decode.op.op1 s.regfile.rdA)

def op2 : Word :=
  s.forwarded c s.usesRs2 s.decode.op.sourceRs2 (s.decode.op.op2 s.regfile.rdB)

def executeInput : ExecuteInput where
  valid := s.decode.valid
  op := s.decode.op
  op1 := s.op1 c
  op2 := s.op2 c
  hazard := s.hazard c
  dbus := i.dbus
  debugCsr := i.debug.debugCsr
  progbufActive := i.debug.progbufActive
  flush := i.debug.flush

def executeBusy : Bool := s.execute.busy c (s.executeInput c i)

def taken : Bool := s.execute.taken c (s.executeInput c i)

def jumpOut : JumpOutput := s.execute.jumpOut c (s.executeInput c i)

/-- `busy_o`: Fetch has to hold what it offers. -/
def busyO : Bool := s.decode.busy (s.executeBusy c i)

def jumpO : Bool := s.execute.jumpO c (s.executeInput c i)

def jumpDestO : Word := s.execute.jumpDestO c (s.executeInput c i)

def writePort : WritePort :=
  match c.pipelineLength with
  | .three =>
    { we := s.execute.regWeO c (s.executeInput c i)
      wa := s.execute.rdAdrO c (s.executeInput c i)
      wd := s.execute.resultO c (s.executeInput c i) }
  | .four => { we := s.wb.valid && s.wb.we, wa := s.wb.rd, wd := s.wb.data }

/-- `debug_pipeline_status`. -/
def pipelineEmpty : Bool :=
  !s.decode.valid && !s.executeBusy c i && !s.execute.validO c (s.executeInput c i) &&
    !(c.pipelineLength = .four && s.wb.valid)

def step : Backend :=
  let e := s.executeInput c i
  let stall := s.executeBusy c i
  { decode := s.decode.step stall (s.execute.kill c e) i.fetch i.debug.transfer
    execute := s.execute.step c e
    regfile :=
      s.regfile.step (s.decode.rs1Adr stall i.fetch.word i.debug.transfer)
        (s.decode.rs2Adr stall i.fetch.word) (s.writePort c i)
    wb := if c.pipelineLength = .four then .capture c s.execute e else s.wb }

end Backend
end BonfireCore
