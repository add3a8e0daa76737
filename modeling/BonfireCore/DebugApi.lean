import BonfireCore.Csr
import BonfireCore.RegFile
import BonfireCore.Rsp
import Mathlib.Tactic.IntervalCases

/-! The debug API over a halted hart: abstract commands and Program Buffer runs with their
documented meaning, and the accesses that are made of them. -/
namespace BonfireCore

/-- A halted hart as the debugger sees it. -/
structure HaltedHart where
  regs : BitVec 5 → Word := fun _ => 0
  mem : Word → Byte := fun _ => 0
  debug : DebugCsr := {}
  data0 : Word := 0
  progbuf0 : Word := 0

namespace HaltedHart

def gpr (h : HaltedHart) (regno : BitVec 5) : Word := RegFile.readReg h.regs regno

def setGpr (h : HaltedHart) (regno : BitVec 5) (value : Word) : HaltedHart :=
  { h with regs := RegFile.writeReg h.regs ⟨true, regno, value⟩ }

/-- Only the debugger's own registers differ. -/
def scratch (h : HaltedHart) (data0 progbuf0 : Word) : HaltedHart := { h with data0, progbuf0 }

def loadWord (h : HaltedHart) (adr : Word) : Word :=
  h.mem (adr + 3) ++ h.mem (adr + 2) ++ h.mem (adr + 1) ++ h.mem adr

def storeByte (h : HaltedHart) (adr : Word) (value : Byte) : HaltedHart :=
  { h with mem := Function.update h.mem adr value }

def storeWord (h : HaltedHart) (adr value : Word) : HaltedHart :=
  (((h.storeByte adr (value.extractLsb' 0 8)).storeByte (adr + 1) (value.extractLsb' 8 8)).storeByte
    (adr + 2) (value.extractLsb' 16 8)).storeByte (adr + 3) (value.extractLsb' 24 8)

def readCsr (h : HaltedHart) (csrAdr : BitVec 12) : Option Word :=
  if csrAdr.extractLsb' 8 4 = 7 then h.debug.read (csrAdr.extractLsb' 0 8) else none

/-- The instructions that the debug API puts into the Program Buffer: LBU, LW, SB, SW, and
CSRRW and CSRRS of the debug CSRs. Without a result the command ends with an error. -/
def exec (word : Word) (h : HaltedHart) : Option HaltedHart :=
  let rd := word.extractLsb' 7 5
  let funct3 := word.extractLsb' 12 3
  let op1 := h.gpr (word.extractLsb' 15 5)
  let op2 := h.gpr (word.extractLsb' 20 5)
  match (word.extractLsb' 0 7).toNat, funct3.toNat with
  | 0x03, 4 =>
    some (h.setGpr rd ((h.mem (op1 + (word.extractLsb' 20 12).signExtend 32)).setWidth 32))
  | 0x03, 2 =>
    let adr := op1 + (word.extractLsb' 20 12).signExtend 32
    if adr.extractLsb' 0 2 = 0 then some (h.setGpr rd (h.loadWord adr)) else none
  | 0x23, 0 =>
    let adr := op1 + (word.extractLsb' 25 7 ++ word.extractLsb' 7 5).signExtend 32
    some (h.storeByte adr (op2.setWidth 8))
  | 0x23, 2 =>
    let adr := op1 + (word.extractLsb' 25 7 ++ word.extractLsb' 7 5).signExtend 32
    if adr.extractLsb' 0 2 = 0 then some (h.storeWord adr op2) else none
  | 0x73, 1 => do
    let old ← h.readCsr (word.extractLsb' 20 12)
    return ({ h with debug := h.debug.write (word.extractLsb' 20 8) op1 }).setGpr rd old
  | 0x73, 2 => do
    let old ← h.readCsr (word.extractLsb' 20 12)
    let debug :=
      if word.extractLsb' 15 5 = 0 then h.debug
      else h.debug.write (word.extractLsb' 20 8) (old ||| op1)
    return ({ h with debug }).setGpr rd old
  | _, _ => none

end HaltedHart

def CSR_SCRATCH_GPR : BitVec 5 := 8

def encodeCsrr (rd : BitVec 5) (csrAdr : BitVec 12) : Word :=
  csrAdr.setWidth 32 <<< 20 ||| 2 <<< 12 ||| rd.setWidth 32 <<< 7 ||| 0x73

def encodeCsrw (csrAdr : BitVec 12) (rs1 : BitVec 5) : Word :=
  csrAdr.setWidth 32 <<< 20 ||| rs1.setWidth 32 <<< 15 ||| 1 <<< 12 ||| 0x73

namespace DebugApi
variable (h : HaltedHart)

def writeProgbuf0 (instruction : Word) : HaltedHart := { h with progbuf0 := instruction }

/-- Without a result the command left `cmderr` set and the API raises. -/
def run (postexec : Bool) (h : HaltedHart) : Option HaltedHart :=
  if postexec then h.exec h.progbuf0 else some h

/-- With the value that `cmd_result` returns after it. -/
def readReg (regno : BitVec 5) (postexec transfer : Bool) : Option (Word × HaltedHart) := do
  let h ← run postexec (if transfer then { h with data0 := h.gpr regno } else h)
  return (h.data0, h)

def readGPR (regno : BitVec 5) : Option (Word × HaltedHart) := readReg h regno false true

def writeReg (regno : BitVec 5) (value : Word) (postexec transfer : Bool) : Option HaltedHart :=
  let h := { h with data0 := value }
  run postexec (if transfer then h.setGpr regno value else h)

def readCSR (csrAdr : BitVec 12) (scratchReg : BitVec 5) : Option (Word × HaltedHart) := do
  let (scratchSave, h) ← readGPR h scratchReg
  let h := writeProgbuf0 h (encodeCsrr scratchReg csrAdr)
  let (_, h) ← readReg h 0 true false
  let (csrValue, h) ← readGPR h scratchReg
  let h ← writeReg h scratchReg scratchSave false true
  return (csrValue, h)

def writeCSR (csrAdr : BitVec 12) (value : Word) (scratchReg : BitVec 5) : Option HaltedHart := do
  let (scratchSave, h) ← readGPR h scratchReg
  let h ← writeReg h scratchReg value false true
  let h := writeProgbuf0 h (encodeCsrw csrAdr scratchReg)
  let (_, h) ← readReg h 0 true false
  writeReg h scratchReg scratchSave false true

def readMemory (memadr : Word) (readbyte : Bool) : Option (Word × HaltedHart) := do
  let h := writeProgbuf0 h (if readbyte then 0x00044403 else 0x00042403)
  let h ← writeReg h 8 memadr true true
  readGPR h 8

def writeMemory (memadr memvalue : Word) (writeByte : Bool) : Option HaltedHart := do
  let h := writeProgbuf0 h (if writeByte then 0x00940023 else 0x00942023)
  let h ← writeReg h 8 memadr false true
  writeReg h 9 memvalue true true

end DebugApi

/-- The fields of an I-type word. -/
def iType (imm : BitVec 12) (rs1 : BitVec 5) (funct3 : BitVec 3) (rd : BitVec 5)
    (opcode : BitVec 7) : Word :=
  imm ++ rs1 ++ funct3 ++ rd ++ opcode

theorem iType_fields (imm : BitVec 12) (rs1 : BitVec 5) (funct3 : BitVec 3) (rd : BitVec 5)
    (opcode : BitVec 7) :
    (iType imm rs1 funct3 rd opcode).extractLsb' 0 7 = opcode ∧
      (iType imm rs1 funct3 rd opcode).extractLsb' 7 5 = rd ∧
      (iType imm rs1 funct3 rd opcode).extractLsb' 12 3 = funct3 ∧
      (iType imm rs1 funct3 rd opcode).extractLsb' 15 5 = rs1 ∧
      (iType imm rs1 funct3 rd opcode).extractLsb' 20 12 = imm ∧
      (iType imm rs1 funct3 rd opcode).extractLsb' 20 8 = imm.extractLsb' 0 8 := by
  refine ⟨?_, ?_, ?_, ?_, ?_, ?_⟩ <;> apply BitVec.eq_of_getLsbD_eq <;> intro i hi <;>
    simp only [iType, BitVec.getLsbD_extractLsb', BitVec.getLsbD_append] <;>
    interval_cases i <;> simp

theorem encodeCsrr_eq (rd : BitVec 5) (csrAdr : BitVec 12) :
    encodeCsrr rd csrAdr = iType csrAdr 0 2 rd 0x73 := by
  apply BitVec.eq_of_getLsbD_eq
  intro i hi
  simp only [encodeCsrr, iType, BitVec.getLsbD_append, BitVec.getLsbD_or,
    BitVec.getLsbD_shiftLeft, BitVec.getLsbD_setWidth]
  interval_cases i <;> simp

theorem encodeCsrw_eq (csrAdr : BitVec 12) (rs1 : BitVec 5) :
    encodeCsrw csrAdr rs1 = iType csrAdr rs1 1 0 0x73 := by
  apply BitVec.eq_of_getLsbD_eq
  intro i hi
  simp only [encodeCsrw, iType, BitVec.getLsbD_append, BitVec.getLsbD_or,
    BitVec.getLsbD_shiftLeft, BitVec.getLsbD_setWidth]
  interval_cases i <;> simp

namespace HaltedHart
variable {h : HaltedHart}

@[simp] theorem setGpr_mem (regno : BitVec 5) (value : Word) : (h.setGpr regno value).mem = h.mem :=
  rfl

@[simp] theorem setGpr_debug (regno : BitVec 5) (value : Word) :
    (h.setGpr regno value).debug = h.debug := rfl

@[simp] theorem storeByte_regs (adr : Word) (value : Byte) :
    (h.storeByte adr value).regs = h.regs := rfl

section Scratch
variable (data0 data0' progbuf0 progbuf0' : Word)

@[simp] theorem scratch_regs : (h.scratch data0 progbuf0).regs = h.regs := rfl
@[simp] theorem scratch_mem : (h.scratch data0 progbuf0).mem = h.mem := rfl
@[simp] theorem scratch_debug : (h.scratch data0 progbuf0).debug = h.debug := rfl
@[simp] theorem scratch_data0 : (h.scratch data0 progbuf0).data0 = data0 := rfl
@[simp] theorem scratch_progbuf0 : (h.scratch data0 progbuf0).progbuf0 = progbuf0 := rfl

@[simp] theorem scratch_gpr (regno : BitVec 5) :
    (h.scratch data0 progbuf0).gpr regno = h.gpr regno := rfl

@[simp] theorem scratch_readCsr (csrAdr : BitVec 12) :
    (h.scratch data0 progbuf0).readCsr csrAdr = h.readCsr csrAdr := rfl

@[simp] theorem setGpr_scratch (regno : BitVec 5) (value : Word) :
    (h.scratch data0 progbuf0).setGpr regno value =
      (h.setGpr regno value).scratch data0 progbuf0 := rfl

@[simp] theorem storeByte_scratch (adr : Word) (value : Byte) :
    (h.scratch data0 progbuf0).storeByte adr value =
      (h.storeByte adr value).scratch data0 progbuf0 := rfl

@[simp] theorem scratch_scratch :
    (h.scratch data0 progbuf0).scratch data0' progbuf0' = h.scratch data0' progbuf0' := rfl

end Scratch

theorem gpr_setGpr (regno regno' : BitVec 5) (value : Word) :
    (h.setGpr regno value).gpr regno' =
      if regno = regno' ∧ regno' ≠ 0 then value else h.gpr regno' := by
  simp only [gpr, setGpr, RegFile.readReg_writeReg]
  simp

@[simp] theorem setGpr_progbuf0 (regno : BitVec 5) (value : Word) :
    (h.setGpr regno value).progbuf0 = h.progbuf0 := rfl

@[simp] theorem setGpr_setGpr (regno : BitVec 5) (value value' : Word) :
    (h.setGpr regno value).setGpr regno value' = h.setGpr regno value' := by
  by_cases h0 : regno = 0#5 <;> simp [setGpr, RegFile.writeReg, h0]

/-- Writing back what was there changes nothing. -/
@[simp] theorem setGpr_gpr (regno : BitVec 5) : h.setGpr regno (h.gpr regno) = h := by
  by_cases h0 : regno = 0#5 <;> simp [setGpr, gpr, RegFile.writeReg, RegFile.readReg, h0]

theorem exec_loadByte : h.exec 0x00044403 =
    some (h.setGpr 8 ((h.mem (h.gpr 8)).setWidth 32)) := by
  simp [exec]

theorem exec_storeByte : h.exec 0x00940023 =
    some (h.storeByte (h.gpr 8) ((h.gpr 9).setWidth 8)) := by
  simp [exec]

theorem exec_csrr (rd : BitVec 5) (csrAdr : BitVec 12) :
    h.exec (encodeCsrr rd csrAdr) = (h.readCsr csrAdr).map (h.setGpr rd) := by
  obtain ⟨hopcode, hrd, hfunct3, hrs1, himm, -⟩ := iType_fields csrAdr 0 2 rd 0x73
  rw [encodeCsrr_eq]
  simp only [exec, hopcode, hrd, hfunct3, hrs1, himm]
  cases h.readCsr csrAdr <;> rfl

theorem exec_csrw (csrAdr : BitVec 12) (rs1 : BitVec 5) :
    h.exec (encodeCsrw csrAdr rs1) = (h.readCsr csrAdr).map fun _ =>
      { h with debug := h.debug.write (csrAdr.extractLsb' 0 8) (h.gpr rs1) } := by
  obtain ⟨hopcode, hrd, hfunct3, hrs1, himm, himm'⟩ := iType_fields csrAdr rs1 1 0 0x73
  rw [encodeCsrw_eq]
  simp only [exec, hopcode, hrd, hfunct3, hrs1, himm, himm']
  cases h.readCsr csrAdr <;> rfl

end HaltedHart

namespace DebugApi
variable {h : HaltedHart}

theorem writeProgbuf0_eq (instruction : Word) :
    writeProgbuf0 h instruction = h.scratch h.data0 instruction := rfl

theorem readGPR_eq (regno : BitVec 5) :
    readGPR h regno = some (h.gpr regno, h.scratch (h.gpr regno) h.progbuf0) := rfl

theorem writeReg_eq (regno : BitVec 5) (value : Word) :
    writeReg h regno value false true =
      some ((h.setGpr regno value).scratch value h.progbuf0) := rfl

theorem writeReg_postexec (regno : BitVec 5) (value : Word) :
    writeReg h regno value true true =
      ((h.setGpr regno value).scratch value h.progbuf0).exec h.progbuf0 := by
  simp only [writeReg, run, if_true]
  rfl

theorem readReg_postexec (regno : BitVec 5) :
    readReg h regno true false = (h.exec h.progbuf0).map fun h => (h.data0, h) := by
  cases hexec : h.exec h.progbuf0 <;> simp [readReg, run, hexec]

/-- A byte is read through `x8`. -/
theorem readMemory_byte (adr : Word) : readMemory h adr true =
    some ((h.mem adr).setWidth 32,
      (h.setGpr 8 ((h.mem adr).setWidth 32)).scratch ((h.mem adr).setWidth 32) 0x00044403) := by
  have hself (v : Word) : (h.setGpr 8 v).gpr 8 = v :=
    (h.gpr_setGpr 8 8 v).trans (if_pos (by decide))
  simp only [readMemory, if_true, Option.bind_eq_bind, writeProgbuf0_eq, writeReg_postexec,
    HaltedHart.scratch_progbuf0, HaltedHart.setGpr_scratch, HaltedHart.scratch_scratch,
    HaltedHart.exec_loadByte, HaltedHart.scratch_gpr, HaltedHart.scratch_mem,
    HaltedHart.setGpr_mem, hself, HaltedHart.setGpr_setGpr, Option.bind_some, readGPR_eq]

/-- A byte is written through `x8` and `x9`. -/
theorem writeMemory_byte (adr value : Word) : writeMemory h adr value true =
    some ((((h.setGpr 8 adr).setGpr 9 value).storeByte adr (value.setWidth 8)).scratch
      value 0x00940023) := by
  have h8 : ((h.setGpr 8 adr).setGpr 9 value).gpr 8 = adr :=
    (((h.setGpr 8 adr).gpr_setGpr 9 8 value).trans (if_neg (by decide))).trans
      ((h.gpr_setGpr 8 8 adr).trans (if_pos (by decide)))
  have h9 : ((h.setGpr 8 adr).setGpr 9 value).gpr 9 = value :=
    ((h.setGpr 8 adr).gpr_setGpr 9 9 value).trans (if_pos (by decide))
  unfold writeMemory
  simp only [if_true]
  rw [writeProgbuf0_eq, writeReg_eq, Option.bind_eq_bind, Option.bind_some, writeReg_postexec]
  simp only [HaltedHart.scratch_progbuf0, HaltedHart.setGpr_scratch, HaltedHart.scratch_scratch]
  rw [HaltedHart.exec_storeByte]
  simp only [HaltedHart.scratch_gpr, h8, h9, HaltedHart.storeByte_scratch]

/-- A CSR is read through a register that is put back. -/
theorem readCSR_eq (csrAdr : BitVec 12) {scratchReg : BitVec 5} (hscratch : scratchReg ≠ 0#5) :
    readCSR h csrAdr scratchReg = (h.readCsr csrAdr).map fun value =>
      (value, h.scratch (h.gpr scratchReg) (encodeCsrr scratchReg csrAdr)) := by
  have hself (v : Word) : (h.setGpr scratchReg v).gpr scratchReg = v :=
    (h.gpr_setGpr _ _ v).trans (if_pos ⟨rfl, hscratch⟩)
  unfold readCSR
  rw [readGPR_eq, Option.bind_eq_bind, Option.bind_some]
  simp only [writeProgbuf0_eq, HaltedHart.scratch_scratch]
  rw [readReg_postexec, HaltedHart.scratch_progbuf0, HaltedHart.exec_csrr,
    HaltedHart.scratch_readCsr]
  cases h.readCsr csrAdr with
  | none => rfl
  | some value =>
    simp only [Option.map_some, HaltedHart.setGpr_scratch]
    rw [Option.bind_eq_bind, Option.bind_some, readGPR_eq, Option.bind_some, writeReg_eq,
      Option.bind_some]
    simp only [HaltedHart.scratch_gpr, hself, HaltedHart.setGpr_scratch,
      HaltedHart.setGpr_setGpr, HaltedHart.setGpr_gpr, HaltedHart.scratch_scratch,
      HaltedHart.scratch_progbuf0]
    rfl

/-- A CSR is written the same way. -/
theorem writeCSR_eq (csrAdr : BitVec 12) (value : Word) {scratchReg : BitVec 5}
    (hscratch : scratchReg ≠ 0#5) :
    writeCSR h csrAdr value scratchReg = (h.readCsr csrAdr).map fun _ =>
      ({ h with debug := h.debug.write (csrAdr.extractLsb' 0 8) value } : HaltedHart).scratch
        (h.gpr scratchReg) (encodeCsrw csrAdr scratchReg) := by
  have hself (v : Word) : (h.setGpr scratchReg v).gpr scratchReg = v :=
    (h.gpr_setGpr _ _ v).trans (if_pos ⟨rfl, hscratch⟩)
  have hcsr : (h.setGpr scratchReg value).readCsr csrAdr = h.readCsr csrAdr := rfl
  unfold writeCSR
  rw [readGPR_eq, Option.bind_eq_bind, Option.bind_some]
  dsimp only
  rw [writeReg_eq, Option.bind_eq_bind, Option.bind_some]
  simp only [writeProgbuf0_eq, HaltedHart.scratch_scratch, HaltedHart.setGpr_scratch]
  rw [readReg_postexec, HaltedHart.scratch_progbuf0, HaltedHart.exec_csrw,
    HaltedHart.scratch_readCsr, hcsr]
  cases h.readCsr csrAdr with
  | none => rfl
  | some old =>
    simp only [Option.map_some, HaltedHart.scratch_gpr, hself]
    rw [Option.bind_some, writeReg_eq]
    have hrestore := h.setGpr_setGpr scratchReg value (h.gpr scratchReg)
    rw [HaltedHart.setGpr_gpr] at hrestore
    exact congrArg (fun g : HaltedHart =>
      some (({ g with debug := h.debug.write (csrAdr.extractLsb' 0 8) value } : HaltedHart).scratch
        (h.gpr scratchReg) (encodeCsrw csrAdr scratchReg))) hrestore

end DebugApi

end BonfireCore
