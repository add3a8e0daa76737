import BonfireCore.CoreConfig

/-! The CSR unit: trap CSRs, cycle counter and, with a debug module, the debug CSRs. -/
namespace BonfireCore

structure TrapCsrUpdate where
  mepc : BitVec 30 := 0
  mcause : BitVec 6 := 0
  mcauseIrq : Bool := false
  mtval : Word := 0
  weMepc : Bool := false
  weMcause : Bool := false
  mstatusTrapEnter : Bool := false
  mstatusTrapExit : Bool := false
  deriving DecidableEq, Repr

structure TrapCsr where
  mepc : BitVec 30 := 0
  mcause : BitVec 6 := 0
  mcauseIrq : Bool := false
  mtvec : BitVec 30 := 0
  mscratch : Word := 0
  mie : Bool := false
  mpie : Bool := false
  mtval : Word := 0
  deriving DecidableEq, Repr

namespace TrapCsr

/-- `csr_write`, write enable set: a CSR instruction. -/
def write (t : TrapCsr) (adr : BitVec 8) (data : Word) : TrapCsr :=
  if adr = CsrAdr.tvec then { t with mtvec := data.extractLsb' 2 30 }
  else if adr = CsrAdr.scratch then { t with mscratch := data }
  else if adr = CsrAdr.cause then { t with mcause := data.setWidth 6 }
  else if adr = CsrAdr.epc then { t with mepc := data.extractLsb' 2 30 }
  else if adr = CsrAdr.tval then { t with mtval := data }
  else if adr = CsrAdr.status then { t with mie := data.getLsbD 3, mpie := data.getLsbD 7 }
  else t

/-- `csr_write`, no write enable: a trap entry or exit. -/
def update (t : TrapCsr) (u : TrapCsrUpdate) : TrapCsr where
  mepc := if u.weMepc then u.mepc else t.mepc
  mcause := if u.weMcause then u.mcause else t.mcause
  mcauseIrq := if u.weMcause then u.mcauseIrq else t.mcauseIrq
  mtvec := t.mtvec
  mscratch := t.mscratch
  mie := if u.mstatusTrapExit then t.mpie else if u.mstatusTrapEnter then false else t.mie
  mpie := if u.mstatusTrapEnter then t.mie else t.mpie
  mtval := if u.mtval ≠ 0 then u.mtval else t.mtval

/-- `csr_read`; `none`: not a trap CSR. -/
def read (t : TrapCsr) (reg : BitVec 8) : Option Word :=
  if reg = CsrAdr.tvec then some (t.mtvec ++ 0#2)
  else if reg = CsrAdr.scratch then some t.mscratch
  else if reg = CsrAdr.epc then some (t.mepc ++ 0#2)
  else if reg = CsrAdr.cause then some (t.mcause.setWidth 32)
  else if reg = CsrAdr.tval then some t.mtval
  else if reg = CsrAdr.status then
    some ((BitVec.ofBool t.mpie).setWidth 32 <<< 7 ||| (BitVec.ofBool t.mie).setWidth 32 <<< 3
      ||| 0b11#32 <<< 11)
  else none

end TrapCsr

structure DebugCsrUpdate where
  dpc : BitVec 30 := 0
  cause : BitVec 3 := 0
  weDpc : Bool := false
  weCause : Bool := false
  deriving DecidableEq, Repr

structure DebugCsr where
  ebreakm : Bool := false
  cause : BitVec 3 := 0
  step : Bool := false
  dpc : BitVec 30 := 0
  deriving DecidableEq, Repr

namespace DebugCsr

def write (d : DebugCsr) (adr : BitVec 8) (data : Word) : DebugCsr :=
  if adr = CsrAdr.dcsr then { d with ebreakm := data.getLsbD 15, step := data.getLsbD 2 }
  else if adr = CsrAdr.dpc then { d with dpc := data.extractLsb' 2 30 }
  else d

def update (d : DebugCsr) (u : DebugCsrUpdate) : DebugCsr :=
  { d with
    cause := if u.weCause then u.cause else d.cause
    dpc := if u.weDpc then u.dpc else d.dpc }

def read (d : DebugCsr) (reg : BitVec 8) : Option Word :=
  if reg = CsrAdr.dcsr then
    some (4#32 <<< 28 ||| (BitVec.ofBool d.ebreakm).setWidth 32 <<< 15
      ||| d.cause.setWidth 32 <<< 6 ||| (BitVec.ofBool d.step).setWidth 32 <<< 2 ||| 3)
  else if reg = CsrAdr.dpc then some (d.dpc ++ 0#2)
  else none

end DebugCsr

structure CsrInput where
  funct3 : BitVec 3
  op1 : Word
  csrAdr : BitVec 12
  source : BitVec 5
  en : Bool

/-- What `csr_select_proc` selects. -/
structure CsrSelect where
  csrIn : Word := 0
  invReg : Bool := false
  csrWe : Bool := false
  mcycleLowWe : Bool := false
  mcycleHighWe : Bool := false
  deriving DecidableEq, Repr

structure CsrOutput where
  result : Word
  invalidOp : Bool
  valid : Bool

namespace CsrInput
variable (i : CsrInput)

def op : BitVec 2 := i.funct3.extractLsb' 0 2

def writeRequested : Bool :=
  i.op = 0b01#2 || (i.op = 0b10#2 || i.op = 0b11#2) && i.source ≠ 0

def invOp : Bool := !(i.op = 0b01#2 || i.op = 0b10#2 || i.op = 0b11#2)

def csrOut (csrIn : Word) : Word :=
  if i.op = 0b01#2 then i.op1
  else if i.op = 0b10#2 then csrIn ||| i.op1
  else if i.op = 0b11#2 then csrIn &&& ~~~i.op1
  else csrIn

def rw : BitVec 2 := i.csrAdr.extractLsb' 10 2
def priv : BitVec 2 := i.csrAdr.extractLsb' 8 2
def reg : BitVec 8 := i.csrAdr.extractLsb' 0 8

end CsrInput

def CoreConfig.bonfirecfg (c : CoreConfig) : Word :=
  (BitVec.ofBool (c.pipelineLength = .four)).setWidth 32 |||
    (BitVec.ofBool c.writebackBypass).setWidth 32 <<< 1 |||
    (BitVec.ofBool c.enableDebugModule).setWidth 32 <<< 2 |||
    (BitVec.ofBool c.jumpPredictor).setWidth 32 <<< 3 |||
    (BitVec.ofBool c.memWriteEarlyTerm).setWidth 32 <<< 4

/-- The registers behind the CSR unit that belong to the core. -/
structure Csr where
  trap : TrapCsr := {}
  mcycle : BitVec 64 := 0
  deriving DecidableEq, Repr

namespace Csr
variable (c : CoreConfig) (s : Csr) (debug : Option DebugCsr) (i : CsrInput)

/-- `csr_select_proc`; without a debug module `debug` is `none`. -/
def select : CsrSelect :=
  if i.priv = 0b11#2 then
    if i.rw = 0b11#2 then
      if i.writeRequested then { invReg := true }
      else if i.reg = CsrAdr.vendorid || i.reg = CsrAdr.archid || i.reg = CsrAdr.hartid then {}
      else if i.reg = CsrAdr.impid then { csrIn := 0x8000 }
      else if i.reg = CsrAdr.mbonfirecfg then { csrIn := c.bonfirecfg }
      else { invReg := true }
    else if i.rw = 0b00#2 then
      if i.reg = CsrAdr.isa then { csrIn := 0x40000000 }
      else match s.trap.read i.reg with
        | some data => { csrIn := data, csrWe := i.en && i.writeRequested }
        | none => readDebug
    else if i.rw = 0b10#2 then
      if i.reg = CsrAdr.mcycle then
        { csrIn := s.mcycle.extractLsb' 0 32, mcycleLowWe := i.en && i.writeRequested }
      else if i.reg = CsrAdr.mcycleh then
        { csrIn := s.mcycle.extractLsb' 32 32, mcycleHighWe := i.en && i.writeRequested }
      else { invReg := true }
    else readDebug
  else { invReg := true }
where
  readDebug : CsrSelect :=
    match debug.bind (·.read i.reg) with
    | some data => { csrIn := data, csrWe := i.en && i.writeRequested }
    | none => { invReg := true }

def csrOut : Word := i.csrOut (s.select c debug i).csrIn

def out : CsrOutput :=
  let invalid := i.invOp || (s.select c debug i).invReg
  { result := (s.select c debug i).csrIn
    invalidOp := invalid && i.en
    valid := !invalid && i.en }

def step (u : TrapCsrUpdate) : Csr where
  trap :=
    if (s.select c debug i).csrWe then s.trap.write i.reg (s.csrOut c debug i)
    else s.trap.update u
  mcycle :=
    if (s.select c debug i).mcycleLowWe then s.mcycle.extractLsb' 32 32 ++ s.csrOut c debug i
    else if (s.select c debug i).mcycleHighWe then s.csrOut c debug i ++ s.mcycle.extractLsb' 0 32
    else s.mcycle + 1

def stepDebug (d : DebugCsr) (u : DebugCsrUpdate) : DebugCsr :=
  if (s.select c (some d) i).csrWe then d.write i.reg (s.csrOut c (some d) i) else d.update u

variable {c} {s} {debug} {i}

theorem select_unrequested (h : (i.en && i.writeRequested) = false) :
    (s.select c debug i).csrWe = false ∧ (s.select c debug i).mcycleLowWe = false ∧
      (s.select c debug i).mcycleHighWe = false := by
  unfold select select.readDebug
  split_ifs
  all_goals first
    | exact ⟨rfl, rfl, rfl⟩
    | (cases s.trap.read i.reg <;> cases debug.bind (·.read i.reg) <;> simp [h])

/-- Only an instruction that is taken writes a CSR. -/
theorem select_en (h : i.en = false) :
    (s.select c debug i).csrWe = false ∧ (s.select c debug i).mcycleLowWe = false ∧
      (s.select c debug i).mcycleHighWe = false :=
  select_unrequested (by rw [h, Bool.false_and])

theorem step_trap_congr {u u' : TrapCsrUpdate} (h : s.trap.update u = s.trap.update u') :
    (s.step c debug i u).trap = (s.step c debug i u').trap := by
  show (if _ then _ else s.trap.update u) = if _ then _ else s.trap.update u'
  rw [h]

theorem step_trap_of_not_en (h : i.en = false) (u : TrapCsrUpdate) :
    (s.step c debug i u).trap = s.trap.update u := by
  show (if _ then _ else s.trap.update u) = s.trap.update u
  rw [(select_en h).1]
  rfl

end Csr
end BonfireCore
