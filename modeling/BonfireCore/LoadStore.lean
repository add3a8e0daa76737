import BonfireCore.Alu
import BonfireCore.Dbus

/-! The load/store unit with one outstanding request. -/
namespace BonfireCore

structure LoadStore where
  outstanding : Bool := false
  busEn : Bool := false
  adrO : Word := 0
  weO : BitVec 4 := 0
  dbWr : Word := 0
  pipeRd : BitVec 5 := 0
  pipeAdrLo : BitVec 2 := 0
  pipeByteMode : Bool := false
  pipeHwordMode : Bool := false
  pipeUnsigned : Bool := false
  pipeStore : Bool := false
  pipeMisalign : Bool := false
  pipeInvalidOp : Bool := false
  busErrorO : Bool := false
  invalidOpO : Bool := false
  misalignLoadO : Bool := false
  misalignStoreO : Bool := false
  validReg : Bool := false
  resultReg : Word := 0
  deriving DecidableEq, Repr

structure LsInput where
  store : Bool
  funct3 : BitVec 3
  op1 : Word
  op2 : Word
  displacement : BitVec 12
  rd : BitVec 5 := 0
  en : Bool

/-- `rd_mux`: the addressed byte or half word of what was read, extended. -/
def rdMux (byteMode hwordMode isUnsigned : Bool) (adrLo : BitVec 2) (rd : Word) : Word :=
  if byteMode then
    let byte := rd.extractLsb' (8 * adrLo.toNat) 8
    if isUnsigned then byte.setWidth 32 else byte.signExtend 32
  else if hwordMode then
    let hword := if adrLo.getLsbD 1 then rd.extractLsb' 16 16 else rd.extractLsb' 0 16
    if isUnsigned then hword.setWidth 32 else hword.signExtend 32
  else rd

namespace LsInput
variable (i : LsInput)

def adr : Word := i.op1 + i.displacement.signExtend 32
def op2Shifted : Word := leftShiftComb i.op2 (fun k => i.adr.getLsbD k) false 5 3
def byteMode : Bool := i.funct3.extractLsb' 0 2 = 0#2
def hwordMode : Bool := i.funct3.extractLsb' 0 2 = 1#2
def wordMode : Bool := i.funct3.extractLsb' 0 2 = 2#2

def invalidOp : Bool :=
  i.funct3.getLsbD 2 && i.store || !(i.byteMode || i.wordMode || i.hwordMode)

def misalign : Bool :=
  i.hwordMode && i.adr.getLsbD 0 || i.wordMode && i.adr.extractLsb' 0 2 ≠ 0#2

/-- The byte enables of a store. -/
def byteEnables : BitVec 4 :=
  if i.wordMode then 0b1111
  else if i.hwordMode then if i.adr.getLsbD 1 then 0b1100 else 0b0011
  else if i.byteMode then
    if i.adr.extractLsb' 0 2 = 0#2 then 0b0001
    else if i.adr.extractLsb' 0 2 = 1#2 then 0b0010
    else if i.adr.extractLsb' 0 2 = 2#2 then 0b0100
    else 0b1000
  else 0

/-- What a load makes of the word read. -/
def rdMux (rd : Word) : Word :=
  BonfireCore.rdMux i.byteMode i.hwordMode (i.funct3.getLsbD 2) (i.adr.extractLsb' 0 2) rd

end LsInput

namespace LoadStore
variable (c : CoreConfig) (s : LoadStore) (r : DbusResponse 32)

def confirm : Bool := (r.ack || r.error) && s.outstanding

def busy : Bool := s.outstanding && !(!c.registeredReadStage && r.ack)

def validComb : Bool := s.confirm r && !(s.pipeMisalign || s.pipeInvalidOp)

def rdmuxOut : Word :=
  rdMux s.pipeByteMode s.pipeHwordMode s.pipeUnsigned s.pipeAdrLo r.dbRd

/-- A store is terminated by the answer itself. -/
def earlyTerm : Bool := s.pipeStore && c.memWriteEarlyTerm

def validO : Bool :=
  if c.registeredReadStage then if s.earlyTerm c then s.validComb r else s.validReg
  else s.validComb r

def busyO : Bool :=
  if c.registeredReadStage then
    if s.earlyTerm c then s.busy c r else s.busy c r || s.validReg
  else s.busy c r

def writeO : Bool :=
  if c.registeredReadStage then if s.pipeStore then false else s.validReg
  else !s.pipeStore

def resultO : Word := if c.registeredReadStage then s.resultReg else s.rdmuxOut r

def request : DbusRequest 32 where
  en := s.busEn
  adr := s.adrO
  we := s.weO
  dbWr := s.dbWr

/-- `drive_bus`: a new operation. -/
def issue (i : LsInput) (s : LoadStore) : LoadStore :=
  let s :=
    if i.misalign then s
    else
      { s with
        adrO := i.adr
        busEn := true
        weO := if i.store then i.byteEnables else 0
        dbWr := if i.store then i.op2Shifted else s.dbWr }
  { s with
    pipeRd := i.rd
    pipeByteMode := i.byteMode
    pipeHwordMode := i.hwordMode
    pipeStore := i.store
    pipeUnsigned := i.funct3.getLsbD 2
    pipeMisalign := i.misalign
    pipeInvalidOp := i.invalidOp
    pipeAdrLo := i.adr.extractLsb' 0 2 }

/-- The clocked processes; `i.en` comes with a unit that is not busy. -/
def step (i : LsInput) : LoadStore :=
  let taken := i.en && !s.busyO c r
  let t := { s with busEn := if r.stall then s.busEn else false }
  let t := if taken then issue i t else t
  { t with
    busErrorO := if s.confirm r then r.error else s.busErrorO
    invalidOpO := if s.confirm r then s.pipeInvalidOp else s.invalidOpO
    misalignLoadO := if s.confirm r then s.pipeMisalign && !s.pipeStore else s.misalignLoadO
    misalignStoreO := if s.confirm r then s.pipeMisalign && s.pipeStore else s.misalignStoreO
    outstanding :=
      if taken && !s.confirm r then true
      else if !taken && s.confirm r then false
      else s.outstanding
    resultReg := s.rdmuxOut r
    validReg := s.validComb r }

end LoadStore
end BonfireCore
