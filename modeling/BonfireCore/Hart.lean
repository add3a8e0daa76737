import BonfireCore.ByteMemory
import BonfireCore.TrapFile

/-! A hart of the base set with the machine-mode traps: program counter, registers, trap CSRs
and one memory of bytes, changed by the instruction whose encoding is at the program counter. -/
namespace BonfireCore

open Rv32i (Instr Access LoadKind Bytes)

namespace Rv32i.Instr

/-- The instruction the fields of a word name, whatever the bits hold that it does not use. -/
def ofFields (w : BitVec 32) : Option Instr :=
  let opcode := w.extractLsb' 0 7
  let rd := w.extractLsb' 7 5
  let f3 := w.extractLsb' 12 3
  let rs1 := w.extractLsb' 15 5
  let rs2 := w.extractLsb' 20 5
  let f7 := w.extractLsb' 25 7
  let imm := w.extractLsb' 20 12
  if opcode = 0b0110111 then some (.lui rd (w.extractLsb' 12 20))
  else if opcode = 0b0010111 then some (.auipc rd (w.extractLsb' 12 20))
  else if opcode = 0b1101111 then
    some (.jal rd (w.extractLsb' 31 1 ++ w.extractLsb' 12 8 ++ w.extractLsb' 20 1 ++
      w.extractLsb' 21 10))
  else if opcode = 0b1100111 then some (.jalr rd rs1 imm)
  else if opcode = 0b1100011 then
    (Cond.ofFunct3 f3).map fun cond => .branch cond rs1 rs2 (w.extractLsb' 31 1 ++
      w.extractLsb' 7 1 ++ w.extractLsb' 25 6 ++ w.extractLsb' 8 4)
  else if opcode = 0b0000011 then (LoadKind.ofFunct3 f3).map fun kind => .load kind rd rs1 imm
  else if opcode = 0b0100011 then
    (StoreKind.ofFunct3 f3).map fun kind => .store kind rs2 rs1 (f7 ++ rd)
  else if opcode = 0b0010011 then
    match ImmOp.ofFunct3 f3 with
    | some op => some (.aluImm op rd rs1 imm)
    | none => (ShiftOp.ofFunct f7 f3).map fun op => .shiftImm op rd rs1 rs2
  else if opcode = 0b0110011 then (AluOp.ofFunct f7 f3).map fun op => .alu op rd rs1 rs2
  else if opcode = 0b0001111 then some (.fence (f3 = 1) rd rs1 imm)
  else
    match CsrOp.ofFunct3 f3 with
    | some op => some (.csr op rd rs1 imm)
    | none => if imm = 0 then some .ecall else if imm = 1 then some .ebreak else some .mret

/-- The instruction a word encodes. -/
def decode (w : BitVec 32) : Option Instr := (ofFields w).filter (·.encode = w)

theorem encode_of_decode {w : BitVec 32} {ins : Instr} (h : decode w = some ins) :
    ins.encode = w :=
  of_decide_eq_true (Option.filter_eq_some_iff.1 h).2

theorem ofFields_encode (ins : Instr) : ofFields ins.encode = some ins := by
  unfold ofFields
  cases ins with
  | lui rd imm =>
    obtain ⟨h0, h7, h12⟩ := uType_fields 0b0110111 rd imm
    simp only [encode, h0, h7, h12]
    rfl
  | auipc rd imm =>
    obtain ⟨h0, h7, h12⟩ := uType_fields 0b0010111 rd imm
    simp only [encode, h0, h7, h12]
    rfl
  | jal rd offset =>
    have h0 : (jType 0b1101111 rd offset).extractLsb' 0 7 = 0b1101111 := (uType_fields _ _ _).1
    have h7 : (jType 0b1101111 rd offset).extractLsb' 7 5 = rd := (uType_fields _ _ _).2.1
    simp only [encode, h0, h7, jType_offset]
    rfl
  | jalr rd rs1 imm =>
    obtain ⟨h0, h7, -, h15, h20⟩ := iType_fields 0b1100111 rd rs1 0 imm
    simp only [encode, h0, h7, h15, h20]
    rfl
  | branch cond rs1 rs2 offset =>
    have hfields : (bType 0b1100011 cond.funct3 rs1 rs2 offset).extractLsb' 0 7 = 0b1100011 ∧
        (bType 0b1100011 cond.funct3 rs1 rs2 offset).extractLsb' 12 3 = cond.funct3 ∧
        (bType 0b1100011 cond.funct3 rs1 rs2 offset).extractLsb' 15 5 = rs1 ∧
        (bType 0b1100011 cond.funct3 rs1 rs2 offset).extractLsb' 20 5 = rs2 := by
      obtain ⟨h0, -, h12, h15, h20, -⟩ := rType_fields _ _ _ _ _ _
      exact ⟨h0, h12, h15, h20⟩
    obtain ⟨h0, h12, h15, h20⟩ := hfields
    have hcond : Cond.ofFunct3 cond.funct3 = some cond := by cases cond <;> rfl
    simp only [encode, h0, h12, h15, h20, hcond, bType_offset]
    rfl
  | load kind rd rs1 imm =>
    obtain ⟨h0, h7, h12, h15, h20⟩ := iType_fields 0b0000011 rd rs1 kind.funct3 imm
    have hkind : LoadKind.ofFunct3 kind.funct3 = some kind := by cases kind <;> rfl
    simp only [encode, h0, h7, h12, h15, h20, hkind]
    rfl
  | store kind rs2 rs1 imm =>
    have hfields : (sType 0b0100011 kind.funct3 rs1 rs2 imm).extractLsb' 0 7 = 0b0100011 ∧
        (sType 0b0100011 kind.funct3 rs1 rs2 imm).extractLsb' 12 3 = kind.funct3 ∧
        (sType 0b0100011 kind.funct3 rs1 rs2 imm).extractLsb' 15 5 = rs1 ∧
        (sType 0b0100011 kind.funct3 rs1 rs2 imm).extractLsb' 20 5 = rs2 := by
      obtain ⟨h0, -, h12, h15, h20, -⟩ := rType_fields _ _ _ _ _ _
      exact ⟨h0, h12, h15, h20⟩
    obtain ⟨h0, h12, h15, h20⟩ := hfields
    have hkind : StoreKind.ofFunct3 kind.funct3 = some kind := by cases kind <;> rfl
    simp only [encode, h0, h12, h15, h20, hkind, sType_imm]
    rfl
  | aluImm op rd rs1 imm =>
    obtain ⟨h0, h7, h12, h15, h20⟩ := iType_fields 0b0010011 rd rs1 op.toAlu.funct3 imm
    have hop : ImmOp.ofFunct3 op.toAlu.funct3 = some op := by cases op <;> rfl
    simp only [encode, h0, h7, h12, h15, h20, hop]
    rfl
  | shiftImm op rd rs1 shamt =>
    obtain ⟨h0, h7, h12, h15, h20, h25⟩ :=
      rType_fields 0b0010011 rd rs1 shamt op.toAlu.funct3 op.toAlu.funct7
    have hno : ImmOp.ofFunct3 op.toAlu.funct3 = none := by cases op <;> rfl
    have hop : ShiftOp.ofFunct op.toAlu.funct7 op.toAlu.funct3 = some op := by cases op <;> rfl
    simp only [encode, h0, h7, h12, h15, h20, h25, hno, hop]
    rfl
  | alu op rd rs1 rs2 =>
    obtain ⟨h0, h7, h12, h15, h20, h25⟩ := rType_fields 0b0110011 rd rs1 rs2 op.funct3 op.funct7
    have hop : AluOp.ofFunct op.funct7 op.funct3 = some op := by cases op <;> rfl
    simp only [encode, h0, h7, h12, h15, h20, h25, hop]
    rfl
  | fence instructions rd rs1 imm =>
    obtain ⟨h0, h7, h12, h15, h20⟩ :=
      iType_fields 0b0001111 rd rs1 (if instructions then 1 else 0) imm
    simp only [encode, h0, h7, h12, h15, h20]
    cases instructions <;> rfl
  | csr op rd source adr =>
    obtain ⟨h0, h7, h12, h15, h20⟩ := iType_fields 0b1110011 rd source op.funct3 adr
    have hop : CsrOp.ofFunct3 op.funct3 = some op := by cases op <;> rfl
    simp only [encode, h0, h7, h12, h15, h20, hop]
    rfl
  | ecall | ebreak | mret => decide

/-- Decoding undoes encoding; no two instructions share a word. -/
theorem decode_encode (ins : Instr) : decode ins.encode = some ins := by
  rw [decode, ofFields_encode, Option.filter_some, decide_eq_true rfl, if_pos rfl]

end Rv32i.Instr

/-- What a program sees of its hart. -/
structure Hart where
  pc : Word
  regs : Rv32i.Reg → Word := fun _ => 0
  trap : TrapFile := {}
  mem : Bytes

namespace Hart
variable (h : Hart) (ins : Instr)

def reg (r : Rv32i.Reg) : Word := if r = 0 then 0 else h.regs r

/-- The word at the program counter. -/
def word : Word := LoadKind.lw.value fun k => h.mem (h.pc + BitVec.ofNat 32 k)

def instr : Option Instr := Instr.decode h.word

/-- The register in the `rs1` field. -/
def x1 : Word := h.reg (ins.encode.extractLsb' 15 5)

def x2 : Word := h.reg (ins.encode.extractLsb' 20 5)

def effect : Rv32i.Effect := ins.effect h.pc (h.x1 ins) (h.x2 ins)

/-- What a computing instruction gives: what it has read, or its result. -/
def computed : Option Word :=
  match (h.effect ins).access with
  | some a => a.read h.mem
  | none => (h.effect ins).result

/-- The value of the destination register. -/
def value : Option Word :=
  match ins with
  | .csr _ _ _ adr => (TrapFile.named adr).map h.trap.read
  | _ => h.computed ins

def write : Option (Rv32i.Reg × Word) := ins.rd.bind fun rd => regWrite rd (h.value ins)

def exec : Hart where
  pc := (h.trap.target ins).getD ((h.effect ins).nextPc h.pc)
  regs :=
    match h.write ins with
    | some (rd, value) => Function.update h.regs rd value
    | none => h.regs
  trap := h.trap.exec h.pc (h.x1 ins) ins
  mem :=
    match (h.effect ins).access with
    | some a => a.write h.mem
    | none => h.mem

/-- Without an instruction the hart stays where it is. -/
def next : Hart :=
  match h.instr with
  | some ins => h.exec ins
  | none => h

def after : ℕ → Hart
  | 0 => h
  | n + 1 => (after n).next

/-- What the first instructions did, the latest first. -/
def log {α : Type*} (observe : Hart → List α) : ℕ → List α
  | 0 => []
  | n + 1 => observe (h.after n) ++ log observe n

def visited : List (Word × Word) := [(h.pc, h.word)]

/-- The register write of the next instruction. -/
def wrote : List (Rv32i.Reg × Word) := (h.instr.bind h.write).toList

/-- The instruction raises no exception, and asks nothing of the trap CSRs that they do not
hold: of the other CSRs, the interrupt bit of `mcause`, and a return with MPIE clear. -/
def InOrder : Prop :=
  ins.Regular h.pc (h.x1 ins) (h.x2 ins) ∧
    match ins with
    | .csr _ _ _ adr => (TrapFile.named adr).isSome = true ∧
        (h.trap.written (h.x1 ins) ins).all (fun w => w.1 ≠ .mcause || !w.2.getLsbD 31) = true
    | .mret => h.trap.mpie = true
    | _ => True

def Orderly : Prop := ∃ ins, h.instr = some ins ∧ h.InOrder ins

instance (pc x1 x2 : Word) : Decidable (ins.Regular pc x1 x2) :=
  have : Decidable (∀ a, (ins.effect pc x1 x2).access = some a → a.Aligned) :=
    inferInstanceAs (Decidable (∀ a ∈ (ins.effect pc x1 x2).access, a.Aligned))
  match ins with
  | .jalr .. => inferInstanceAs (Decidable (_ ∧ (_ : Bool) = false))
  | .lui .. | .auipc .. | .jal .. | .branch .. | .load .. | .store .. | .aluImm ..
  | .shiftImm .. | .alu .. | .fence .. | .csr .. | .ecall | .ebreak | .mret =>
    inferInstanceAs (Decidable (_ ∧ True))

instance : Decidable (h.InOrder ins) :=
  match ins with
  | .csr .. => inferInstanceAs (Decidable (_ ∧ (_ : Bool) = true ∧ (_ : Bool) = true))
  | .mret => inferInstanceAs (Decidable (_ ∧ (_ : Bool) = true))
  | .lui .. | .auipc .. | .jal .. | .jalr .. | .branch .. | .load .. | .store .. | .aluImm ..
  | .shiftImm .. | .alu .. | .fence .. | .ecall | .ebreak => inferInstanceAs (Decidable (_ ∧ True))

instance : Decidable h.Orderly := inferInstanceAs (Decidable (∃ ins ∈ h.instr, h.InOrder ins))

end Hart
end BonfireCore
