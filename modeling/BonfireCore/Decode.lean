import BonfireCore.CoreConfig

/-! The decode stage: the registered decode of a word, and the look-ahead read addresses. -/
namespace BonfireCore

/-- The opcodes `decode_op` knows. -/
inductive OpClass
  | op | imm | branch | jal | jalr | lui | auipc | store | load | fence | system
  deriving DecidableEq, Repr

/-- The class of a word; `none`: an invalid encoding. -/
def opClass (word : Word) : Option OpClass :=
  let opcode := word.extractLsb' 2 5
  if word.extractLsb' 0 2 ≠ 3#2 then none
  else if opcode = Opcode.OP then some .op
  else if opcode = Opcode.IMM then some .imm
  else if opcode = Opcode.BRANCH then some .branch
  else if opcode = Opcode.JAL then some .jal
  else if opcode = Opcode.JALR then some .jalr
  else if opcode = Opcode.LUI then some .lui
  else if opcode = Opcode.AUIPC then some .auipc
  else if opcode = Opcode.STORE then some .store
  else if opcode = Opcode.LOAD then some .load
  else if opcode = Opcode.FENCE then some .fence
  else if opcode = Opcode.SYSTEM then some .system
  else none

/-- The decoded instruction as Execute sees it. -/
structure DecodedOp where
  sourceRs1 : BitVec 5 := 0
  sourceRs2 : BitVec 5 := 0
  rdAdr : BitVec 5 := 0
  funct3 : BitVec 3 := 0
  funct7 : BitVec 7 := 0
  displacement : BitVec 12 := 0
  jumpDest : Word := 0
  nextIp : Word := 0
  privFunct12 : BitVec 12 := 0
  mepc : Word := 0
  rs1Immediate : Bool := false
  rs1ImmValue : Word := 0
  rs2Immediate : Bool := false
  rs2ImmValue : Word := 0
  aluCmd : Bool := false
  loadCmd : Bool := false
  storeCmd : Bool := false
  branchCmd : Bool := false
  jumpCmd : Bool := false
  jumprCmd : Bool := false
  csrCmd : Bool := false
  sysCmd : Bool := false
  fenceCmd : Bool := false
  invalidOpcode : Bool := false
  debugWord : Word := 0
  debugCurrentIp : Word := 0
  deriving DecidableEq, Repr

namespace DecodedOp

/-- What every decode writes; the other registers keep the previous instruction's value. -/
def base (d : DecodedOp) (word currentIp nextIp : Word) : DecodedOp where
  sourceRs1 := word.extractLsb' 15 5
  sourceRs2 := word.extractLsb' 20 5
  rdAdr := word.extractLsb' 7 5
  funct3 := word.extractLsb' 12 3
  funct7 := word.extractLsb' 25 7
  displacement := d.displacement
  jumpDest := d.jumpDest
  nextIp := nextIp
  privFunct12 := d.privFunct12
  mepc := currentIp
  rs1ImmValue := d.rs1ImmValue
  rs2ImmValue := d.rs2ImmValue
  debugWord := word
  debugCurrentIp := currentIp

/-- `LUI` and `AUIPC`: both operands are immediates. -/
def decodeUpper (b : DecodedOp) (word rs2 : Word) : DecodedOp :=
  { b with
    aluCmd := true
    rs1Immediate := true
    rs1ImmValue := getUImmediate word
    rs2Immediate := true
    rs2ImmValue := rs2
    funct3 := Funct3.ADD_SUB
    funct7 := 0 }

def decodeSystem (b : DecodedOp) (word : Word) : DecodedOp :=
  let b := { b with privFunct12 := word.extractLsb' 20 12 }
  if b.funct3 = Funct3.PRIV then { b with sysCmd := true }
  else if word.getLsbD 14 then
    { b with
      csrCmd := true
      rs1Immediate := true
      rs1ImmValue := (word.extractLsb' 15 5).setWidth 32 }
  else { b with csrCmd := true }

/-- The decode proper of `decode_op`. -/
def decodeWord (d : DecodedOp) (word currentIp nextIp : Word) : DecodedOp :=
  let b := d.base word currentIp nextIp
  let immI := (getIImmediate word).signExtend 32
  let clearBit5 (f : BitVec 7) : BitVec 7 := f &&& 0b1011111
  match opClass word with
  | none => { b with invalidOpcode := true }
  | some .op => { b with aluCmd := true }
  | some .imm =>
    { b with
      aluCmd := true
      funct7 := if b.funct3 = Funct3.ADD_SUB then clearBit5 b.funct7 else b.funct7
      rs2ImmValue := immI
      rs2Immediate := true }
  | some .branch =>
    { b with branchCmd := true, jumpDest := currentIp + (getSBImmediate word).signExtend 32 }
  | some .jal =>
    { b with jumpCmd := true, jumpDest := currentIp + (getUJImmediate word).signExtend 32 }
  | some .jalr =>
    { b with
      jumprCmd := true
      aluCmd := true
      funct3 := Funct3.ADD_SUB
      funct7 := clearBit5 b.funct7
      rs2ImmValue := immI
      rs2Immediate := true }
  | some .lui => b.decodeUpper word 0
  | some .auipc => b.decodeUpper word currentIp
  | some .store => { b with storeCmd := true, displacement := getSImmediate word }
  | some .load => { b with loadCmd := true, displacement := getIImmediate word }
  | some .fence => { b with fenceCmd := true }
  | some .system => b.decodeSystem word

def usesRs1 (d : DecodedOp) : Bool :=
  d.branchCmd || d.loadCmd || d.storeCmd || d.jumprCmd || d.aluCmd && !d.rs1Immediate ||
    d.csrCmd && !d.rs1Immediate

def usesRs2 (d : DecodedOp) : Bool :=
  d.branchCmd || d.storeCmd || d.aluCmd && !d.rs2Immediate

def op1 (d : DecodedOp) (rs1Data : Word) : Word := if d.rs1Immediate then d.rs1ImmValue else rs1Data
def op2 (d : DecodedOp) (rs2Data : Word) : Word := if d.rs2Immediate then d.rs2ImmValue else rs2Data

end DecodedOp

/-- The debug module's register transfer; all off without a debug module. -/
structure RegisterTransfer where
  valid : Bool := false
  write : Bool := false
  regno : BitVec 5 := 0
  writeData : Word := 0
  deriving DecidableEq, Repr

structure DecodeInput where
  en : Bool := false
  word : Word := 0
  currentIp : Word := 0
  nextIp : Word := 0
  deriving DecidableEq, Repr

structure Decode where
  valid : Bool := false
  op : DecodedOp := {}
  rs1AdrReg : BitVec 5 := 0
  rs2AdrReg : BitVec 5 := 0
  deriving DecidableEq, Repr

namespace Decode
variable (s : Decode)

/-- `downstream_busy`, driven out as `busy_o`. -/
def busy (stall : Bool) : Bool := s.valid && stall

def rs1Adr (stall : Bool) (word : Word) (transfer : RegisterTransfer) : BitVec 5 :=
  if transfer.valid then transfer.regno
  else if s.busy stall then s.rs1AdrReg
  else word.extractLsb' 15 5

def rs2Adr (stall : Bool) (word : Word) : BitVec 5 :=
  if s.busy stall then s.rs2AdrReg else word.extractLsb' 20 5

/-- The instruction an abstract register write puts into the output registers. -/
def transferOp (d : DecodedOp) (transfer : RegisterTransfer) : DecodedOp :=
  { d with
    rs1Immediate := true
    rs2Immediate := true
    rs1ImmValue := transfer.writeData
    rs2ImmValue := 0
    aluCmd := true
    funct3 := Funct3.OR
    rdAdr := transfer.regno
    debugWord := 0
    branchCmd := false
    jumpCmd := false
    jumprCmd := false
    loadCmd := false
    storeCmd := false
    csrCmd := false
    invalidOpcode := false
    sysCmd := false
    fenceCmd := false }

def step (stall kill : Bool) (i : DecodeInput) (transfer : RegisterTransfer) : Decode :=
  if transfer.valid && transfer.write then
    { s with valid := true, op := transferOp s.op transfer }
  else if kill then
    { s with valid := false, op := { s.op with invalidOpcode := false, fenceCmd := false } }
  else if s.busy stall then s
  else if i.en then
    let op := s.op.decodeWord i.word i.currentIp i.nextIp
    { valid := !op.invalidOpcode
      op := op
      rs1AdrReg := i.word.extractLsb' 15 5
      rs2AdrReg := i.word.extractLsb' 20 5 }
  else { s with valid := false, op := { s.op with fenceCmd := false } }

end Decode
end BonfireCore
