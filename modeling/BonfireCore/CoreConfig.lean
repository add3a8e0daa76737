import Mathlib.Data.BitVec

/-! Core configuration and the RV32I encodings the pipeline stages compare with. -/
namespace BonfireCore

abbrev Word := BitVec 32

inductive PipelineLength
  | three | four
  deriving DecidableEq, Repr

inductive ShifterMode
  | comb | pipelined | behavioral
  deriving DecidableEq, Repr

structure CoreConfig where
  shifterMode : ShifterMode := .pipelined
  jumpPredictor : Bool := false
  jumpBypass : Bool := true
  memWriteEarlyTerm : Bool := false
  registeredReadStage : Bool := true
  pipelineLength : PipelineLength := .three
  writebackBypass : Bool := false
  resetAddress : Word := 0
  enableDebugModule : Bool := false
  progbufSize : ℕ := 2
  numdata : ℕ := 1
  dmiAdrWidth : ℕ := 7
  bypass_four : writebackBypass = true → pipelineLength = .four := by decide
  progbufSize_range : 1 ≤ progbufSize ∧ progbufSize ≤ 2 := by decide
  numdata_range : 1 ≤ numdata ∧ numdata ≤ 16 := by decide
  dmiAdrWidth_range : 7 ≤ dmiAdrWidth ∧ dmiAdrWidth ≤ 32 := by decide

def defaultConfig : CoreConfig := {}

namespace Opcode
def LUI : BitVec 5 := 0b01101
def AUIPC : BitVec 5 := 0b00101
def JAL : BitVec 5 := 0b11011
def JALR : BitVec 5 := 0b11001
def BRANCH : BitVec 5 := 0b11000
def LOAD : BitVec 5 := 0b00000
def STORE : BitVec 5 := 0b01000
def IMM : BitVec 5 := 0b00100
def OP : BitVec 5 := 0b01100
def FENCE : BitVec 5 := 0b00011
def SYSTEM : BitVec 5 := 0b11100
end Opcode

namespace Funct3
def BEQ : BitVec 3 := 0
def BNE : BitVec 3 := 1
def BLT : BitVec 3 := 4
def BGE : BitVec 3 := 5
def BLTU : BitVec 3 := 6
def BGEU : BitVec 3 := 7
def ADD_SUB : BitVec 3 := 0
def SLL : BitVec 3 := 1
def SLT : BitVec 3 := 2
def SLTU : BitVec 3 := 3
def XOR : BitVec 3 := 4
def SRL_SRA : BitVec 3 := 5
def OR : BitVec 3 := 6
def AND : BitVec 3 := 7
def PRIV : BitVec 3 := 0

/-- Whether a mode is one of a list. -/
instance decidableMem (funct3 : BitVec 3) (modes : List (BitVec 3)) : Decidable (funct3 ∈ modes) :=
  inferInstance

end Funct3

namespace PrivFunct12
def ECALL : BitVec 12 := 0
def EBREAK : BitVec 12 := 1
def ERET : BitVec 12 := 0x302
end PrivFunct12

namespace CsrAdr
-- the low byte of the CSR addresses
def status : BitVec 8 := 0
def mcycle : BitVec 8 := 0x00
def isa : BitVec 8 := 1
def tvec : BitVec 8 := 5
def vendorid : BitVec 8 := 0x11
def archid : BitVec 8 := 0x12
def impid : BitVec 8 := 0x13
def hartid : BitVec 8 := 0x14
def scratch : BitVec 8 := 0x40
def epc : BitVec 8 := 0x41
def cause : BitVec 8 := 0x42
def tval : BitVec 8 := 0x43
def dcsr : BitVec 8 := 0xb0
def dpc : BitVec 8 := 0xb1
def mcycleh : BitVec 8 := 0x80
def mbonfirecfg : BitVec 8 := 0xc0
end CsrAdr

section Immediates
variable (instr : Word)

def getIImmediate : BitVec 12 := instr.extractLsb' 20 12
def getUImmediate : Word := instr.extractLsb' 12 20 ++ (0 : BitVec 12)
def getUJImmediate : BitVec 21 :=
  instr.extractLsb' 31 1 ++ instr.extractLsb' 12 8 ++ instr.extractLsb' 20 1 ++
    instr.extractLsb' 21 10 ++ (0 : BitVec 1)
def getSImmediate : BitVec 12 := instr.extractLsb' 25 7 ++ instr.extractLsb' 7 5
def getSBImmediate : BitVec 13 :=
  instr.extractLsb' 31 1 ++ instr.extractLsb' 7 1 ++ instr.extractLsb' 25 6 ++
    instr.extractLsb' 8 4 ++ (0 : BitVec 1)

end Immediates

end BonfireCore
