import BonfireCore.Core
import BonfireCore.DebugModule

/-! The core with the hart side of the debug module: hart control and the pipeline adapter. -/
namespace BonfireCore

/-- `t_hart_debug_state`. -/
inductive HartDebugState
  | running | haltPending | halted | stepIssue | stepWait
  deriving DecidableEq, Repr

/-- The registers of `HartDebugController`. -/
structure HartDebug where
  state : HartDebugState := .running
  redirectValid : Bool := false
  redirectPc : Word := 0
  reqAck : Bool := false
  update : DebugCsrUpdate := {}
  deriving DecidableEq, Repr

/-- The registers of `DebugPipelineAdapter`. -/
structure PipelineAdapter where
  active : Bool := false
  activeProgbuf : Bool := false
  architecturalNextPc : Word := 0
  deriving DecidableEq, Repr

/-- What the Debug Module asks of the hart in a cycle. -/
structure HartControl where
  dmactive : Bool := false
  haltreq : Bool := false
  resumereq : Bool := false
  transfer : RegisterTransfer := {}
  progbufValid : Bool := false
  progbufWord : Word := 0
  deriving DecidableEq, Repr

structure DebugPipelineEvents where
  instructionAccepted : Bool
  instructionComplete : Bool
  pipelineEmpty : Bool
  nextPc : Word
  ebreak : Bool
  ebreakPc : Word
  progbufException : Bool
  deriving DecidableEq, Repr

def PROGBUF_EBREAK : Word := 0x00100073

namespace HartDebug
variable (s : HartDebug) (h : HartControl)

def allowFetch : Bool :=
  if s.state = .running ∧ h.haltreq = true then false
  else s.state = .running || s.state = .stepIssue

/-- `halt` saves the pc and the cause. -/
def halt (pc : Word) (cause : BitVec 3) (t : HartDebug) : HartDebug :=
  { t with
    state := .halted
    update := { dpc := pc.extractLsb' 2 30, cause := cause, weDpc := true, weCause := true } }

def step (csr : DebugCsr) (e : DebugPipelineEvents) : HartDebug :=
  let t :=
    { s with
      reqAck := false
      redirectValid := false
      update := { s.update with weDpc := false, weCause := false } }
  if !h.dmactive ∧ s.state = .haltPending then { t with state := .running }
  else if e.ebreak ∧ s.state ≠ .halted then t.halt e.ebreakPc 1
  else match s.state with
    | .running => if h.haltreq then { t with state := .haltPending } else t
    | .haltPending =>
      if e.pipelineEmpty then { t.halt e.nextPc 3 with reqAck := true } else t
    | .halted =>
      if h.resumereq then
        { t with
          reqAck := true
          redirectValid := true
          redirectPc := csr.dpc ++ 0#2
          state := if csr.step then .stepIssue else .running }
      else t
    | .stepIssue => if e.instructionAccepted then { t with state := .stepWait } else t
    | .stepWait => if e.instructionComplete then t.halt e.nextPc 4 else t

end HartDebug

structure DebugCore where
  fetch : Fetch
  backend : Backend := {}
  hart : HartDebug := {}
  adapter : PipelineAdapter := {}
  csr : DebugCsr := {}

structure DebugCoreInput where
  ibus : DbusResponse 32 := {}
  dbus : DbusResponse 32 := {}
  control : HartControl := {}
  deriving DecidableEq, Repr

namespace DebugCore
variable (c : CoreConfig)

def reset : DebugCore where
  fetch := Fetch.reset c
  adapter := { architecturalNextPc := c.resetAddress }
  csr := { dpc := c.resetAddress.extractLsb' 2 30 }

variable (s : DebugCore) (i : DebugCoreInput)

section SourceMux

def progbufTerminator : Bool := i.control.progbufValid && i.control.progbufWord = PROGBUF_EBREAK

def progbufSource : Bool := i.control.progbufValid && !progbufTerminator i

def sourceValid : Bool :=
  if i.control.progbufValid then !progbufTerminator i
  else s.fetch.valid && s.hart.allowFetch i.control && !s.fetch.redirectPending &&
    !s.hart.redirectValid

/-- What Decode is offered. -/
def source : DecodeInput where
  en := s.sourceValid i
  word := if i.control.progbufValid then i.control.progbufWord else s.fetch.currentWord0
  currentIp := s.fetch.currentIp0
  nextIp := s.fetch.currentIp0 + 4

end SourceMux

section Events

/-- What the backend sees of the cycle, but for the flush, which only Decode looks at. -/
def unflushed : BackendInput where
  fetch := s.source i
  dbus := i.dbus
  debug :=
    { transfer := i.control.transfer
      progbufActive := s.adapter.activeProgbuf
      debugCsr := some s.csr }

def executeInput : ExecuteInput := s.backend.executeInput c (s.unflushed i)

def jumpOut : JumpOutput := s.backend.execute.jumpOut c (s.executeInput c i)

/-- `debug_progbuf_exception_o`, and the same gated by the adapter. -/
def progbufException : Bool :=
  s.adapter.activeProgbuf && s.backend.execute.debugException c (s.executeInput c i)

def busyO : Bool := s.backend.busyO c (s.unflushed i)

def accepted : Bool := s.sourceValid i && !s.busyO c i

def pipelineEmpty : Bool := s.backend.pipelineEmpty c (s.unflushed i)

def complete : Bool := s.adapter.active && s.pipelineEmpty c i

def executeJump : Bool := s.backend.jumpO c (s.unflushed i)

def executeJumpDest : Word := s.backend.jumpDestO c (s.unflushed i)

/-- A jump of the instruction at the boundary. -/
def boundaryJump : Bool :=
  s.adapter.active && !s.adapter.activeProgbuf && s.executeJump c i

def events : DebugPipelineEvents where
  instructionAccepted := s.accepted c i && !progbufSource i
  instructionComplete := s.complete c i && !s.adapter.activeProgbuf
  pipelineEmpty := s.pipelineEmpty c i
  nextPc :=
    if s.boundaryJump c i then s.executeJumpDest c i else s.adapter.architecturalNextPc
  ebreak := (s.jumpOut c i).debugEbreak
  ebreakPc := s.backend.decode.op.mepc
  progbufException := s.adapter.active && s.adapter.activeProgbuf && s.progbufException c i

/-- The answers to the Program Buffer. -/
def progbufCompletion : ProgbufCompletion where
  accepted := s.accepted c i && progbufSource i
  complete := s.complete c i && s.adapter.activeProgbuf && !s.progbufException c i
  terminated := progbufTerminator i
  exception := (s.events c i).progbufException
  readData := s.backend.regfile.rdA

end Events

def flush : Bool :=
  (s.events c i).ebreak || (s.events c i).progbufException || s.hart.redirectValid

def backendInput : BackendInput :=
  { s.unflushed i with debug := { (s.unflushed i).debug with flush := s.flush c i } }

def fetchInput : FetchInput where
  stall :=
    s.busyO c i || !s.hart.allowFetch i.control || s.hart.redirectValid ||
      i.control.progbufValid
  jump := s.executeJump c i || s.hart.redirectValid
  jumpDest := if s.hart.redirectValid then s.hart.redirectPc else s.executeJumpDest c i
  ibus := i.ibus

def ibusRequest : DbusRequest 32 := s.fetch.request (s.fetchInput c i)

/-- `boundary_tracker`. -/
def adapterStep : PipelineAdapter :=
  let t :=
    if s.accepted c i then
      { s.adapter with active := true, activeProgbuf := progbufSource i }
    else s.adapter
  let t :=
    { t with
      architecturalNextPc :=
        if s.hart.redirectValid then s.hart.redirectPc
        else if s.accepted c i && !progbufSource i then (s.source i).nextIp
        else if s.boundaryJump c i then s.executeJumpDest c i
        else s.adapter.architecturalNextPc }
  if s.adapter.active &&
      (s.pipelineEmpty c i || s.adapter.activeProgbuf && s.progbufException c i) then
    { t with active := false, activeProgbuf := false }
  else t

def step : DebugCore where
  fetch := s.fetch.step (s.fetchInput c i)
  backend := s.backend.step c (s.backendInput c i)
  hart := s.hart.step i.control s.csr (s.events c i)
  adapter := s.adapterStep c i
  csr :=
    s.backend.execute.csr.stepDebug c
      (s.backend.execute.csrInput c (s.executeInput c i)) s.csr s.hart.update

def machine : Clocked DebugCore DebugCoreInput where
  init := reset c
  step := step c

end DebugCore
end BonfireCore
