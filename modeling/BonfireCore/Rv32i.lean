import BonfireCore.BitArith
import BonfireCore.BitSlice

/-! The RV32I instructions with Zicsr and the machine-mode return: their encoding, and the
effect of the instructions that compute, branch or access memory. -/
namespace BonfireCore.Rv32i

abbrev Reg := BitVec 5

inductive AluOp
  | add | sub | sll | slt | sltu | xor | srl | sra | or | and
  deriving DecidableEq, Repr

/-- The operations with an immediate operand that are no shifts. -/
inductive ImmOp
  | add | slt | sltu | xor | or | and
  deriving DecidableEq, Repr

inductive ShiftOp
  | sll | srl | sra
  deriving DecidableEq, Repr

inductive Cond
  | eq | ne | lt | ge | ltu | geu
  deriving DecidableEq, Repr

inductive LoadKind
  | lb | lh | lw | lbu | lhu
  deriving DecidableEq, Repr

inductive StoreKind
  | sb | sh | sw
  deriving DecidableEq, Repr

inductive CsrOp
  | rw | rs | rc | rwi | rsi | rci
  deriving DecidableEq, Repr

/-- Branch and jump offsets are counted in half words. -/
inductive Instr
  | lui (rd : Reg) (imm : BitVec 20)
  | auipc (rd : Reg) (imm : BitVec 20)
  | jal (rd : Reg) (offset : BitVec 20)
  | jalr (rd rs1 : Reg) (imm : BitVec 12)
  | branch (cond : Cond) (rs1 rs2 : Reg) (offset : BitVec 12)
  | load (kind : LoadKind) (rd rs1 : Reg) (imm : BitVec 12)
  | store (kind : StoreKind) (rs2 rs1 : Reg) (imm : BitVec 12)
  | aluImm (op : ImmOp) (rd rs1 : Reg) (imm : BitVec 12)
  | shiftImm (op : ShiftOp) (rd rs1 : Reg) (shamt : BitVec 5)
  | alu (op : AluOp) (rd rs1 rs2 : Reg)
  | fence (instructions : Bool) (rd rs1 : Reg) (imm : BitVec 12)
  | csr (op : CsrOp) (rd source : Reg) (adr : BitVec 12)
  | ecall | ebreak | mret
  deriving DecidableEq, Repr

section Fields

def AluOp.funct3 : AluOp → BitVec 3
  | add | sub => 0
  | sll => 1
  | slt => 2
  | sltu => 3
  | xor => 4
  | srl | sra => 5
  | or => 6
  | and => 7

def AluOp.funct7 : AluOp → BitVec 7
  | sub | sra => 0b0100000
  | _ => 0

def ImmOp.toAlu : ImmOp → AluOp
  | add => .add
  | slt => .slt
  | sltu => .sltu
  | xor => .xor
  | or => .or
  | and => .and

def ShiftOp.toAlu : ShiftOp → AluOp
  | sll => .sll
  | srl => .srl
  | sra => .sra

def Cond.funct3 : Cond → BitVec 3
  | eq => 0
  | ne => 1
  | lt => 4
  | ge => 5
  | ltu => 6
  | geu => 7

def LoadKind.funct3 : LoadKind → BitVec 3
  | lb => 0
  | lh => 1
  | lw => 2
  | lbu => 4
  | lhu => 5

def StoreKind.funct3 : StoreKind → BitVec 3
  | sb => 0
  | sh => 1
  | sw => 2

def CsrOp.funct3 : CsrOp → BitVec 3
  | rw => 1
  | rs => 2
  | rc => 3
  | rwi => 5
  | rsi => 6
  | rci => 7

def AluOp.ofFunct (f7 : BitVec 7) (f3 : BitVec 3) : Option AluOp :=
  [add, sub, sll, slt, sltu, xor, srl, sra, or, and].find? fun op =>
    op.funct7 = f7 && op.funct3 = f3

def ImmOp.ofFunct3 (f3 : BitVec 3) : Option ImmOp :=
  [add, slt, sltu, xor, or, and].find? fun op => op.toAlu.funct3 = f3

def ShiftOp.ofFunct (f7 : BitVec 7) (f3 : BitVec 3) : Option ShiftOp :=
  [sll, srl, sra].find? fun op => op.toAlu.funct7 = f7 && op.toAlu.funct3 = f3

def Cond.ofFunct3 (f3 : BitVec 3) : Option Cond :=
  [eq, ne, lt, ge, ltu, geu].find? fun cond => cond.funct3 = f3

def LoadKind.ofFunct3 (f3 : BitVec 3) : Option LoadKind :=
  [lb, lh, lw, lbu, lhu].find? fun kind => kind.funct3 = f3

def StoreKind.ofFunct3 (f3 : BitVec 3) : Option StoreKind :=
  [sb, sh, sw].find? fun kind => kind.funct3 = f3

def CsrOp.ofFunct3 (f3 : BitVec 3) : Option CsrOp :=
  [rw, rs, rc, rwi, rsi, rci].find? fun op => op.funct3 = f3

end Fields

section Formats

/-- The fields every format but U and J has; the upper ones are then set by the format. -/
def base (opcode : BitVec 7) (rd : BitVec 5) (funct3 : BitVec 3) (rs1 : BitVec 5) : BitVec 32 :=
  setSlice (setSlice (setSlice (setSlice 0 0 opcode) 7 rd) 12 funct3) 15 rs1

def rType (opcode : BitVec 7) (rd : Reg) (funct3 : BitVec 3) (rs1 rs2 : Reg) (funct7 : BitVec 7) :
    BitVec 32 :=
  setSlice (setSlice (base opcode rd funct3 rs1) 20 rs2) 25 funct7

def iType (opcode : BitVec 7) (rd : Reg) (funct3 : BitVec 3) (rs1 : Reg) (imm : BitVec 12) :
    BitVec 32 :=
  setSlice (base opcode rd funct3 rs1) 20 imm

def sType (opcode : BitVec 7) (funct3 : BitVec 3) (rs1 rs2 : Reg) (imm : BitVec 12) : BitVec 32 :=
  rType opcode (imm.extractLsb' 0 5) funct3 rs1 rs2 (imm.extractLsb' 5 7)

/-- `imm[12|10:5]` and `imm[4:1|11]`, where `offset` is `imm[12:1]`. -/
def bType (opcode : BitVec 7) (funct3 : BitVec 3) (rs1 rs2 : Reg) (offset : BitVec 12) :
    BitVec 32 :=
  rType opcode (offset.extractLsb' 0 4 ++ offset.extractLsb' 10 1) funct3 rs1 rs2
    (offset.extractLsb' 11 1 ++ offset.extractLsb' 4 6)

def uType (opcode : BitVec 7) (rd : Reg) (imm : BitVec 20) : BitVec 32 :=
  setSlice (setSlice (setSlice 0 0 opcode) 7 rd) 12 imm

/-- `imm[20|10:1|11|19:12]`, where `offset` is `imm[20:1]`. -/
def jType (opcode : BitVec 7) (rd : Reg) (offset : BitVec 20) : BitVec 32 :=
  uType opcode rd (offset.extractLsb' 19 1 ++ offset.extractLsb' 0 10 ++ offset.extractLsb' 10 1 ++
    offset.extractLsb' 11 8)

end Formats

def Instr.encode : Instr → BitVec 32
  | lui rd imm => uType 0b0110111 rd imm
  | auipc rd imm => uType 0b0010111 rd imm
  | jal rd offset => jType 0b1101111 rd offset
  | jalr rd rs1 imm => iType 0b1100111 rd 0 rs1 imm
  | branch cond rs1 rs2 offset => bType 0b1100011 cond.funct3 rs1 rs2 offset
  | load kind rd rs1 imm => iType 0b0000011 rd kind.funct3 rs1 imm
  | store kind rs2 rs1 imm => sType 0b0100011 kind.funct3 rs1 rs2 imm
  | aluImm op rd rs1 imm => iType 0b0010011 rd op.toAlu.funct3 rs1 imm
  | shiftImm op rd rs1 shamt => rType 0b0010011 rd op.toAlu.funct3 rs1 shamt op.toAlu.funct7
  | alu op rd rs1 rs2 => rType 0b0110011 rd op.funct3 rs1 rs2 op.funct7
  | fence instructions rd rs1 imm => iType 0b0001111 rd (if instructions then 1 else 0) rs1 imm
  | csr op rd source adr => iType 0b1110011 rd op.funct3 source adr
  | ecall => iType 0b1110011 0 0 0 0
  | ebreak => iType 0b1110011 0 0 0 1
  | mret => iType 0b1110011 0 0 0 0x302

/-- The words that are encodings. -/
def Legal (word : BitVec 32) : Prop := ∃ i : Instr, i.encode = word

section Semantics
variable (a b : BitVec 32)

def AluOp.eval : AluOp → BitVec 32
  | add => a + b
  | sub => a - b
  | sll => a <<< (b.extractLsb' 0 5).toNat
  | slt => if a.slt b then 1 else 0
  | sltu => if a.ult b then 1 else 0
  | xor => a ^^^ b
  | srl => a >>> (b.extractLsb' 0 5).toNat
  | sra => a.sshiftRight (b.extractLsb' 0 5).toNat
  | or => a ||| b
  | and => a &&& b

def Cond.holds : Cond → Bool
  | eq => a = b
  | ne => a ≠ b
  | lt => a.slt b
  | ge => !a.slt b
  | ltu => a.ult b
  | geu => !a.ult b

def LoadKind.size : LoadKind → ℕ
  | lb | lbu => 1
  | lh | lhu => 2
  | lw => 4

def StoreKind.size : StoreKind → ℕ
  | sb => 1
  | sh => 2
  | sw => 4

/-- The value loaded from consecutive bytes, the least significant first. -/
def LoadKind.value (bytes : ℕ → BitVec 8) : LoadKind → BitVec 32
  | lb => (bytes 0).signExtend 32
  | lh => (bytes 1 ++ bytes 0).signExtend 32
  | lw => bytes 3 ++ bytes 2 ++ bytes 1 ++ bytes 0
  | lbu => (bytes 0).setWidth 32
  | lhu => (bytes 1 ++ bytes 0).setWidth 32

/-- Byte `k` of a word. -/
def byteLane (w : BitVec 32) (k : ℕ) : BitVec 8 := w.extractLsb' (8 * k) 8

/-- What a CSR instruction stores, from the old value and the operand. -/
def CsrOp.eval (old operand : BitVec 32) : CsrOp → BitVec 32
  | rw | rwi => operand
  | rs | rsi => old ||| operand
  | rc | rci => old &&& ~~~operand

/-- Set and clear with a zero `rs1` field only read. -/
def CsrOp.writes (source : BitVec 5) : CsrOp → Bool
  | rw | rwi => true
  | _ => source ≠ 0

inductive Access
  | load (kind : LoadKind) (adr : BitVec 32)
  | store (kind : StoreKind) (adr data : BitVec 32)
  deriving DecidableEq, Repr

/-- Naturally aligned. -/
def Access.Aligned : Access → Prop
  | .load kind adr => adr.toNat % kind.size = 0
  | .store kind adr _ => adr.toNat % kind.size = 0

instance (a : Access) : Decidable a.Aligned :=
  match a with
  | .load kind adr => inferInstanceAs (Decidable (adr.toNat % kind.size = 0))
  | .store kind adr _ => inferInstanceAs (Decidable (adr.toNat % kind.size = 0))

/-- `result`: the value of `rd`, where it does not come from memory; `target`: where a jump
goes. -/
structure Effect where
  result : Option (BitVec 32) := none
  target : Option (BitVec 32) := none
  access : Option Access := none
  deriving DecidableEq, Repr

def Effect.nextPc (e : Effect) (pc : BitVec 32) : BitVec 32 := e.target.getD (pc + 4)

/-- The offset of a jump in bytes, sign-extended. -/
def byteOffset {w : ℕ} (offset : BitVec w) : BitVec 32 := (offset ++ 0#1).signExtend 32

/-- `rs1`, `rs2`: the values of the source registers. -/
def Instr.effect (pc rs1 rs2 : BitVec 32) : Instr → Effect
  | lui _ imm => { result := imm ++ 0#12 }
  | auipc _ imm => { result := some (pc + (imm ++ 0#12)) }
  | jal _ offset => { result := some (pc + 4), target := some (pc + byteOffset offset) }
  | jalr _ _ imm =>
    { result := some (pc + 4), target := some ((rs1 + imm.signExtend 32) &&& ~~~1) }
  | branch cond _ _ offset =>
    { target := if cond.holds rs1 rs2 then some (pc + byteOffset offset) else none }
  | load kind _ _ imm => { access := some (.load kind (rs1 + imm.signExtend 32)) }
  | store kind _ _ imm => { access := some (.store kind (rs1 + imm.signExtend 32) rs2) }
  | aluImm op _ _ imm => { result := some (op.toAlu.eval rs1 (imm.signExtend 32)) }
  | shiftImm op _ _ shamt => { result := some (op.toAlu.eval rs1 (shamt.setWidth 32)) }
  | alu op _ _ _ => { result := some (op.eval rs1 rs2) }
  | _ => {}

end Semantics

/-- The instructions of `Instr.effect`. -/
def Instr.computes : Instr → Bool
  | fence .. | csr .. | ecall | ebreak | mret => false
  | _ => true

def Instr.rd : Instr → Option Reg
  | lui rd _ | auipc rd _ | jal rd _ | jalr rd _ _ | load _ rd _ _ | aluImm _ rd _ _
  | shiftImm _ rd _ _ | alu _ rd _ _ | csr _ rd _ _ => some rd
  | _ => none

section Encoding
variable (opcode : BitVec 7) (rd rs1 rs2 : Reg) (funct3 : BitVec 3) (funct7 : BitVec 7)

theorem rType_fields :
    (rType opcode rd funct3 rs1 rs2 funct7).extractLsb' 0 7 = opcode ∧
      (rType opcode rd funct3 rs1 rs2 funct7).extractLsb' 7 5 = rd ∧
      (rType opcode rd funct3 rs1 rs2 funct7).extractLsb' 12 3 = funct3 ∧
      (rType opcode rd funct3 rs1 rs2 funct7).extractLsb' 15 5 = rs1 ∧
      (rType opcode rd funct3 rs1 rs2 funct7).extractLsb' 20 5 = rs2 ∧
      (rType opcode rd funct3 rs1 rs2 funct7).extractLsb' 25 7 = funct7 := by
  simp [rType, base, extractLsb'_setSlice_of_disjoint]

theorem iType_fields (imm : BitVec 12) :
    (iType opcode rd funct3 rs1 imm).extractLsb' 0 7 = opcode ∧
      (iType opcode rd funct3 rs1 imm).extractLsb' 7 5 = rd ∧
      (iType opcode rd funct3 rs1 imm).extractLsb' 12 3 = funct3 ∧
      (iType opcode rd funct3 rs1 imm).extractLsb' 15 5 = rs1 ∧
      (iType opcode rd funct3 rs1 imm).extractLsb' 20 12 = imm := by
  simp [iType, base, extractLsb'_setSlice_of_disjoint]

theorem uType_fields (imm : BitVec 20) :
    (uType opcode rd imm).extractLsb' 0 7 = opcode ∧ (uType opcode rd imm).extractLsb' 7 5 = rd ∧
      (uType opcode rd imm).extractLsb' 12 20 = imm := by
  simp [uType, extractLsb'_setSlice_of_disjoint]

theorem sType_imm (imm : BitVec 12) :
    (sType opcode funct3 rs1 rs2 imm).extractLsb' 25 7 ++
      (sType opcode funct3 rs1 rs2 imm).extractLsb' 7 5 = imm := by
  have h := imm.isLt
  obtain ⟨-, hrd, -, -, -, hfunct7⟩ :=
    rType_fields opcode (imm.extractLsb' 0 5) rs1 rs2 funct3 (imm.extractLsb' 5 7)
  apply BitVec.eq_of_toNat_eq
  rw [sType, hrd, hfunct7, toNat_append_eq]
  simp only [BitVec.extractLsb'_toNat, Nat.shiftRight_eq_div_pow]
  omega

/-- The shuffled bits of a branch offset, put back in order. -/
theorem bType_offset (offset : BitVec 12) :
    (bType opcode funct3 rs1 rs2 offset).extractLsb' 31 1 ++
        (bType opcode funct3 rs1 rs2 offset).extractLsb' 7 1 ++
        (bType opcode funct3 rs1 rs2 offset).extractLsb' 25 6 ++
        (bType opcode funct3 rs1 rs2 offset).extractLsb' 8 4 = offset := by
  have h := offset.isLt
  obtain ⟨-, hrd, -, -, -, hfunct7⟩ := rType_fields opcode
    (offset.extractLsb' 0 4 ++ offset.extractLsb' 10 1) rs1 rs2 funct3
    (offset.extractLsb' 11 1 ++ offset.extractLsb' 4 6)
  have h31 := extractLsb'_eq_of_slice hfunct7 (a := 6) (m := 1) (by decide)
  have h25 := extractLsb'_eq_of_slice hfunct7 (a := 0) (m := 6) (by decide)
  have h8 := extractLsb'_eq_of_slice hrd (a := 1) (m := 4) (by decide)
  have h7 := extractLsb'_eq_of_slice hrd (a := 0) (m := 1) (by decide)
  rw [BitVec.extractLsb'_append_eq_of_le (by decide)] at h31 h8
  rw [BitVec.extractLsb'_append_eq_of_add_le (by decide)] at h25 h7
  simp only [Nat.reduceAdd, Nat.reduceSub, extractLsb'_zero_self] at h31 h25 h8 h7
  apply BitVec.eq_of_toNat_eq
  rw [bType, h31, h25, h8, h7, toNat_append_eq, toNat_append_eq, toNat_append_eq]
  simp only [BitVec.extractLsb'_toNat, Nat.shiftRight_eq_div_pow]
  omega

/-- The same for a jump. -/
theorem jType_offset (offset : BitVec 20) :
    (jType opcode rd offset).extractLsb' 31 1 ++ (jType opcode rd offset).extractLsb' 12 8 ++
        (jType opcode rd offset).extractLsb' 20 1 ++ (jType opcode rd offset).extractLsb' 21 10 =
      offset := by
  have h := offset.isLt
  obtain ⟨-, -, himm⟩ := uType_fields opcode rd (offset.extractLsb' 19 1 ++
    offset.extractLsb' 0 10 ++ offset.extractLsb' 10 1 ++ offset.extractLsb' 11 8)
  have h31 := extractLsb'_eq_of_slice himm (a := 19) (m := 1) (by decide)
  have h21 := extractLsb'_eq_of_slice himm (a := 9) (m := 10) (by decide)
  have h20 := extractLsb'_eq_of_slice himm (a := 8) (m := 1) (by decide)
  have h12 := extractLsb'_eq_of_slice himm (a := 0) (m := 8) (by decide)
  rw [BitVec.extractLsb'_append_eq_of_le (by decide)] at h31 h21 h20
  rw [BitVec.extractLsb'_append_eq_of_le (by decide)] at h31 h21
  rw [BitVec.extractLsb'_append_eq_of_le (by decide)] at h31
  rw [BitVec.extractLsb'_append_eq_of_add_le (by decide)] at h21 h20 h12
  simp only [Nat.reduceAdd, Nat.reduceSub, extractLsb'_zero_self] at h31 h21 h20 h12
  apply BitVec.eq_of_toNat_eq
  rw [jType, h31, h21, h20, h12, toNat_append_eq, toNat_append_eq, toNat_append_eq]
  simp only [BitVec.extractLsb'_toNat, Nat.shiftRight_eq_div_pow]
  omega

end Encoding

end BonfireCore.Rv32i
