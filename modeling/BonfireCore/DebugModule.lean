import BonfireCore.CoreConfig
import Mathlib.Logic.Function.Basic

/-! The Debug Module: its registers behind the DMI, and the abstract-command controller. -/
namespace BonfireCore

/-- `t_abstract_command_state`. -/
inductive AbstractState
  | none | regvalid | taken | failed | exec | exec2 | waitRetire
  deriving DecidableEq, Repr

namespace Dmi
def DATA0 : ℕ := 0x04
def DMCONTROL : ℕ := 0x10
def DMSTATUS : ℕ := 0x11
def HARTINFO : ℕ := 0x12
def ABSTRACTCS : ℕ := 0x16
def COMMAND : ℕ := 0x17
def ABSTRACTAUTO : ℕ := 0x18
def PROGBUF0 : ℕ := 0x20
def PROGBUF1 : ℕ := 0x21
end Dmi

namespace Cmderr
def NONE : BitVec 3 := 0
def BUSY : BitVec 3 := 1
def NOT_SUPPORTED : BitVec 3 := 2
def EXCEPTION : BitVec 3 := 3
def HART_RUNNING : BitVec 3 := 4
end Cmderr

/-- The registers written by the DMI process. `dataRegs` is used below `numdata` only. -/
structure DebugModule (c : CoreConfig) where
  dmactive : Bool := false
  havereset : Bool := false
  abstractBusyError : Bool := false
  haltreq : Bool := false
  resumereq : Bool := false
  ndmreset : Bool := false
  abstractCommandNew : Bool := false
  aarsize : BitVec 3 := 0
  aarpostincrement : Bool := false
  postexec : Bool := false
  transfer : Bool := false
  write : Bool := false
  regno : BitVec 5 := 0
  cmderr : BitVec 3 := 0
  dataRegs : ℕ → Word := fun _ => 0
  progbuf0 : Word := 0
  progbuf1 : Word := 0
  abstractAutoData : BitVec c.numdata := 0
  abstractAutoProgbuf : BitVec c.progbufSize := 0
  resumeack : Bool := false
  dbo : Word := 0
  ndmresetO : Bool := false

/-- Registers of the abstract-command controller. -/
structure AbstractCommand where
  state : AbstractState := .none
  issuedLast : Bool := false
  result : Word := 0
  deriving DecidableEq, Repr

structure DmiAccess (c : CoreConfig) where
  en : Bool := false
  we : Bool := false
  adr : BitVec c.dmiAdrWidth := 0
  dbi : Word := 0
  deriving DecidableEq, Repr

/-- What the Debug Module sees of the hart in a cycle. -/
structure HartStatus where
  halted : Bool := false
  reqAck : Bool := false
  reset : Bool := false
  deriving DecidableEq, Repr

namespace DebugModule
variable {c : CoreConfig} (d : DebugModule c) (state : AbstractState) (halted : Bool)

def commandBusy : Bool := d.abstractCommandNew || state ≠ .none

def commandStartError : BitVec 3 :=
  if d.commandBusy state then Cmderr.BUSY
  else if halted then Cmderr.NONE
  else Cmderr.HART_RUNNING

/-- An access to a data or Program Buffer register: a conflict with a busy command is
remembered, and a set autoexec bit requests the last command again. `new` is the state the
access is applied to; all decisions read the state `d` before the edge. -/
def touch (auto : Bool) (new : DebugModule c) : DebugModule c :=
  if d.commandBusy state then
    if d.cmderr = Cmderr.NONE then { new with abstractBusyError := true } else new
  else if auto && d.cmderr = Cmderr.NONE then
    if d.commandStartError state halted ≠ Cmderr.NONE then
      { new with cmderr := d.commandStartError state halted }
    else { new with abstractCommandNew := true }
  else new

/-- A write to one of the registers a busy command protects. -/
def guardedWrite (f : DebugModule c → DebugModule c) (new : DebugModule c) : DebugModule c :=
  if d.commandBusy state then
    if d.cmderr = Cmderr.NONE then { new with abstractBusyError := true } else new
  else f new

def isDataReg (adr : ℕ) : Bool := Dmi.DATA0 ≤ adr && adr ≤ Dmi.DATA0 + c.numdata - 1

def bit (b : Bool) (n : ℕ) : Word := (BitVec.ofBool b).setWidth 32 <<< n

def dmstatus : Word :=
  bit d.ndmreset 24 ||| bit true 22 ||| bit d.havereset 19 ||| bit d.havereset 18 |||
    bit d.resumeack 17 ||| bit d.resumeack 16 ||| bit (!halted) 11 ||| bit (!halted) 10 |||
    bit halted 9 ||| bit halted 8 ||| bit true 7 ||| 3

def abstractcs : Word :=
  BitVec.ofNat 32 c.progbufSize <<< 24 ||| bit (d.commandBusy state) 12 |||
    d.cmderr.setWidth 32 <<< 8 ||| BitVec.ofNat 32 (c.numdata % 16)

/-- A DMI read. -/
def read (adr : ℕ) (new : DebugModule c) : DebugModule c :=
  if adr = Dmi.DMSTATUS then { new with dbo := d.dmstatus halted }
  else if adr = Dmi.DMCONTROL then { new with dbo := bit d.ndmreset 1 ||| 1 }
  else if adr = Dmi.HARTINFO then { new with dbo := BitVec.ofNat 32 (c.numdata % 16) <<< 12 }
  else if adr = Dmi.ABSTRACTAUTO then
    { new with
      dbo := d.abstractAutoProgbuf.setWidth 32 <<< 16 ||| d.abstractAutoData.setWidth 32 }
  else if adr = Dmi.PROGBUF0 then
    d.touch state halted (d.abstractAutoProgbuf.getLsbD 0) { new with dbo := d.progbuf0 }
  else if c.progbufSize = 2 ∧ adr = Dmi.PROGBUF1 then
    d.touch state halted (d.abstractAutoProgbuf.getLsbD 1) { new with dbo := d.progbuf1 }
  else if isDataReg (c := c) adr then
    let index := adr - Dmi.DATA0
    d.touch state halted (d.abstractAutoData.getLsbD index) { new with dbo := d.dataRegs index }
  else if adr = Dmi.ABSTRACTCS then { new with dbo := d.abstractcs state }
  else new

/-- The fields of an access-register command. -/
def setCommand (dbi : Word) (new : DebugModule c) : DebugModule c :=
  { new with
    aarsize := dbi.extractLsb' 20 3
    aarpostincrement := dbi.getLsbD 19
    postexec := dbi.getLsbD 18
    transfer := dbi.getLsbD 17
    write := dbi.getLsbD 16
    regno := dbi.extractLsb' 0 5 }

/-- The module runs such a command: no post-increment, and a transfer of one 32-bit register. -/
def supported (dbi : Word) : Bool :=
  !dbi.getLsbD 19 &&
    (!dbi.getLsbD 17 || dbi.extractLsb' 20 3 = 2#3 && dbi.extractLsb' 5 11 = 0x80#11)

def writeCommand (dbi : Word) (new : DebugModule c) : DebugModule c :=
  if d.cmderr = Cmderr.NONE then
    if d.commandBusy state then { new with abstractBusyError := true }
    else if !halted then { new with cmderr := Cmderr.HART_RUNNING }
    else if dbi.extractLsb' 24 8 = 0#8 then
      let new := setCommand dbi new
      if supported dbi then { new with abstractCommandNew := true }
      else { new with cmderr := Cmderr.NOT_SUPPORTED }
    else { new with cmderr := Cmderr.NOT_SUPPORTED }
  else new

def writeDmcontrol (dbi : Word) (new : DebugModule c) : DebugModule c :=
  if !dbi.getLsbD 0 then { new with dmactive := false }
  else
    let new := { new with ndmreset := dbi.getLsbD 1 }
    if d.commandBusy state then new
    else
      let new := { new with haltreq := dbi.getLsbD 31 }
      let new :=
        if !dbi.getLsbD 31 && halted && dbi.getLsbD 30 then
          { new with resumereq := true, resumeack := false }
        else new
      if dbi.getLsbD 28 then { new with havereset := false } else new

/-- A DMI write. -/
def writeReg (adr : ℕ) (dbi : Word) (new : DebugModule c) : DebugModule c :=
  if adr = Dmi.DMCONTROL then d.writeDmcontrol state halted dbi new
  else if isDataReg (c := c) adr then
    let index := adr - Dmi.DATA0
    d.touch state halted (d.abstractAutoData.getLsbD index)
      (if d.commandBusy state then new
        else { new with dataRegs := Function.update new.dataRegs index dbi })
  else if adr = Dmi.ABSTRACTCS then
    d.guardedWrite state (fun new => { new with cmderr := d.cmderr &&& ~~~dbi.extractLsb' 8 3 }) new
  else if adr = Dmi.ABSTRACTAUTO then
    d.guardedWrite state
      (fun new =>
        { new with
          abstractAutoData := dbi.extractLsb' 0 c.numdata
          abstractAutoProgbuf := dbi.extractLsb' 16 c.progbufSize }) new
  else if adr = Dmi.COMMAND then d.writeCommand state halted dbi new
  else if adr = Dmi.PROGBUF0 then
    d.touch state halted (d.abstractAutoProgbuf.getLsbD 0)
      (if d.commandBusy state then new else { new with progbuf0 := dbi })
  else if c.progbufSize = 2 ∧ adr = Dmi.PROGBUF1 then
    d.touch state halted (d.abstractAutoProgbuf.getLsbD 1)
      (if d.commandBusy state then new else { new with progbuf1 := dbi })
  else new

/-- The module held in its own reset: everything but the data and Program Buffer contents. -/
def inactive (a : DmiAccess c) : DebugModule c where
  dmactive := a.en && a.we && a.adr.toNat = Dmi.DMCONTROL && a.dbi.getLsbD 0
  dataRegs := d.dataRegs
  progbuf0 := d.progbuf0
  progbuf1 := d.progbuf1

/-- What the core does to the registers, without a DMI access. -/
def lifecycle (cmd : AbstractCommand) (hart : HartStatus) : DebugModule c :=
  let new := { d with dbo := 0, ndmresetO := d.ndmreset }
  let new := if hart.reset then { new with havereset := true } else new
  let new :=
    if hart.reqAck then
      { new with resumeack := d.resumereq || new.resumeack, resumereq := false }
    else new
  if cmd.state = .regvalid then { new with dataRegs := Function.update new.dataRegs 0 cmd.result }
  else if cmd.state = .taken then { new with abstractCommandNew := false }
  else if cmd.state = .failed then
    { new with
      cmderr :=
        if d.cmderr = Cmderr.NONE then
          if d.abstractBusyError then Cmderr.BUSY else Cmderr.EXCEPTION
        else d.cmderr
      abstractBusyError := false }
  else if !d.commandBusy cmd.state && d.abstractBusyError then
    { new with
      cmderr := if d.cmderr = Cmderr.NONE then Cmderr.BUSY else d.cmderr
      abstractBusyError := false }
  else new

/-- `dmi_interface`. -/
def step (cmd : AbstractCommand) (hart : HartStatus) (a : DmiAccess c) : DebugModule c :=
  if !d.dmactive then d.inactive a
  else
    let new := d.lifecycle cmd hart
    if !a.en then new
    else if a.we then d.writeReg cmd.state hart.halted a.adr.toNat a.dbi new
    else d.read cmd.state hart.halted a.adr.toNat new

/-- `command_request`. -/
def commandRequest : Bool := d.abstractCommandNew && state = .none

end DebugModule

/-- The pipeline's answers to a Program Buffer word, and the register-file port. -/
structure ProgbufCompletion where
  accepted : Bool := false
  complete : Bool := false
  terminated : Bool := false
  exception : Bool := false
  readData : Word := 0
  deriving DecidableEq, Repr

namespace AbstractCommand
variable {c : CoreConfig} (s : AbstractCommand) (d : DebugModule c)

def issuing : Bool := s.state = .exec || s.state = .exec2

def issueWord : Word := if s.state = .exec2 then d.progbuf1 else d.progbuf0

def issueLast (c : CoreConfig) : Bool := s.state = .exec2 || c.progbufSize = 1

/-- Where the command goes on once the transfer is done. -/
def afterTransfer : AbstractState := if d.postexec then .exec else .none

def step (halted : Bool) (p : ProgbufCompletion) : AbstractCommand :=
  if !d.dmactive then { s with state := .none, issuedLast := false }
  else if !halted then s
  else match s.state with
    | .none => if d.commandRequest s.state then { s with state := .taken } else s
    | .taken =>
      if d.transfer && !d.write then { s with result := p.readData, state := .regvalid }
      else { s with state := afterTransfer d }
    | .regvalid => { s with state := afterTransfer d }
    | .exec | .exec2 =>
      if p.terminated then { s with state := .none }
      else if p.accepted then { s with issuedLast := s.issueLast c, state := .waitRetire }
      else s
    | .waitRetire =>
      if p.exception then { s with state := .failed }
      else if p.complete then { s with state := if s.issuedLast then .none else .exec2 }
      else s
    | .failed => { s with state := .none }

end AbstractCommand
end BonfireCore
