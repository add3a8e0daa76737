import BonfireCore.AluResult
import BonfireCore.ExecutePhase
import BonfireCore.LoadStoreLanes

/-! Decode and Execute give every instruction of the base set its architectural effect. -/
namespace BonfireCore

open Rv32i (Instr AluOp ImmOp ShiftOp LoadKind Effect Access byteLane)

theorem DecodedOp.decodeWord_rdAdr (a : DecodedOp) (word currentIp nextIp : Word) :
    (a.decodeWord word currentIp nextIp).rdAdr = word.extractLsb' 7 5 := by
  unfold decodeWord
  rcases opClass word with _ | cls
  · simp [base]
  · cases cls with
    | system =>
      by_cases hpriv : word.extractLsb' 12 3 = Funct3.PRIV
      · simp [decodeSystem, base, hpriv]
      · cases h14 : word[14] <;> simp [decodeSystem, base, hpriv, h14]
    | _ => simp [base, decodeUpper]

section Fields

theorem opClass_eq {word : Word} {opcode : BitVec 7} (h : word.extractLsb' 0 7 = opcode) :
    opClass word = opClass (opcode.setWidth 32) := by
  have h2 : word.extractLsb' 2 5 = (opcode.setWidth 32).extractLsb' 2 5 := by
    subst h
    apply BitVec.eq_of_toNat_eq
    simp only [BitVec.extractLsb'_toNat, BitVec.toNat_setWidth, Nat.shiftRight_eq_div_pow]
    omega
  have h0 : word.extractLsb' 0 2 = (opcode.setWidth 32).extractLsb' 0 2 := by
    subst h
    apply BitVec.eq_of_toNat_eq
    simp only [BitVec.extractLsb'_toNat, BitVec.toNat_setWidth, Nat.shiftRight_eq_div_pow]
    omega
  unfold opClass
  rw [h2, h0]

/-- The class Decode finds for an instruction. -/
def Rv32i.Instr.opClass : Instr → OpClass
  | lui .. => .lui
  | auipc .. => .auipc
  | jal .. => .jal
  | jalr .. => .jalr
  | branch .. => .branch
  | load .. => .load
  | store .. => .store
  | aluImm .. | shiftImm .. => .imm
  | alu .. => .op
  | fence .. => .fence
  | csr .. | ecall | ebreak | mret => .system

theorem opClass_encode (ins : Instr) : opClass ins.encode = some ins.opClass := by
  cases ins with
  | lui rd imm => exact (opClass_eq (Rv32i.uType_fields _ _ _).1).trans rfl
  | auipc rd imm => exact (opClass_eq (Rv32i.uType_fields _ _ _).1).trans rfl
  | jal rd offset => exact (opClass_eq (Rv32i.uType_fields _ _ _).1).trans rfl
  | branch | store | shiftImm | alu =>
    exact (opClass_eq (Rv32i.rType_fields _ _ _ _ _ _).1).trans rfl
  | _ => exact (opClass_eq (Rv32i.iType_fields _ _ _ _ _).1).trans rfl

end Fields

section Alu

theorem operation_eq {f3 : BitVec 3} {f7_6 : Bool} {x1 x2 : Word} {en : Bool} (aop : AluOp)
    (h3 : f3 = aop.funct3)
    (h7 : f3 = Funct3.ADD_SUB ∨ f3 = Funct3.SRL_SRA → f7_6 = aop.funct7.getLsbD 5) :
    AluInput.operation ⟨f3, f7_6, x1, x2, en⟩ = aop := by
  subst h3
  cases aop <;>
    simp_all [AluInput.operation, AluOp.funct3, AluOp.funct7, Funct3.ADD_SUB, Funct3.SLL,
      Funct3.SLT, Funct3.SLTU, Funct3.XOR, Funct3.SRL_SRA, Funct3.OR]

theorem DecodedOp.alu_res {op : DecodedOp} {x1 x2 : Word} (ha : op.aluCmd = true) (aop : AluOp)
    (h3 : op.funct3 = aop.funct3)
    (h7 : op.funct3 = Funct3.ADD_SUB ∨ op.funct3 = Funct3.SRL_SRA →
      op.funct7.getLsbD 5 = aop.funct7.getLsbD 5) :
    (op.alu x1 x2).res = aop.eval x1 x2 := by
  have hres : (op.alu x1 x2).res = (op.aluInput true x1 x2).result :=
    AluState.out_comb_res (by simp [aluInput, ha])
  rw [hres, AluInput.result, aluInput, operation_eq aop h3 h7]

/-- The subtractor compares where no addition is enabled. -/
theorem DecodedOp.alu_flags {op : DecodedOp} (x1 x2 : Word) (ha : op.aluCmd = false) :
    (op.alu x1 x2).flagGe = (!x1.slt x2) ∧ (op.alu x1 x2).flagUge = (!x1.ult x2) ∧
      (op.alu x1 x2).flagEqual = decide (x1 = x2) := by
  have hsub : (op.aluInput true x1 x2).subtract = true := by
    simp [AluInput.subtract, aluInput, ha]
  exact ⟨AluInput.flagGe_eq hsub, AluInput.flagUge_eq hsub, rfl⟩

theorem branchTaken_eq {op : DecodedOp} {x1 x2 : Word} (ha : op.aluCmd = false)
    (cond : Rv32i.Cond) : branchTaken cond.funct3 (op.alu x1 x2) = some (cond.holds x1 x2) := by
  obtain ⟨hge, huge, heq⟩ := DecodedOp.alu_flags x1 x2 ha
  cases cond <;>
    simp [branchTaken, hge, huge, heq, Rv32i.Cond.funct3, Rv32i.Cond.holds, Funct3.BEQ,
      Funct3.BGE, Funct3.BGEU, Funct3.BLT, Funct3.BLTU, Funct3.BNE]

end Alu

section Specification

/-- The value of the destination register, given what a load has read. -/
def Rv32i.Effect.value (e : Effect) (answer : Option Word) : Option Word :=
  match e.access with
  | some (.load kind adr) =>
    answer.map fun w => kind.value fun k => byteLane w (adr.toNat % 4 + k)
  | _ => e.result

/-- Where the decision of `jump_comb` leads, if it is to jump. -/
def JumpOutput.target (j : JumpOutput) : Option Word := if j.jump then some j.jumpDest else none

/-- Operands for which the instruction is defined: a data address is naturally aligned, and
JALR jumps to an even sum. -/
def Rv32i.Instr.Regular (pc x1 x2 : Word) (ins : Instr) : Prop :=
  (∀ a, (ins.effect pc x1 x2).access = some a → a.Aligned) ∧
    match ins with
    | .jalr _ _ imm => (x1 + imm.signExtend 32).getLsbD 0 = false
    | _ => True

/-- The instruction's bits as Execute sees them, after any earlier instruction `d`. -/
def Rv32i.Instr.decoded (ins : Instr) (d : DecodedOp) (pc : Word) : DecodedOp :=
  d.decodeWord ins.encode pc (pc + 4)

def Rv32i.Instr.rs1 : Instr → Option Rv32i.Reg
  | jalr _ rs1 _ | branch _ rs1 _ _ | load _ _ rs1 _ | store _ _ rs1 _ | aluImm _ _ rs1 _
  | shiftImm _ _ rs1 _ | alu _ _ rs1 _ => some rs1
  | _ => none

def Rv32i.Instr.rs2 : Instr → Option Rv32i.Reg
  | branch _ _ rs2 _ | store _ rs2 _ _ | alu _ _ _ rs2 => some rs2
  | _ => none

def Rv32i.Instr.isShift : Instr → Bool
  | shiftImm .. => true
  | alu op _ _ _ => op = .sll || op = .srl || op = .sra
  | _ => false

end Specification

section Decoding
variable {d : DecodedOp} {pc x1 x2 : Word} {c : CoreConfig} {csr : Csr} {answer : Option Word}

theorem getUImmediate_uType (opcode : BitVec 7) (rd : Rv32i.Reg) (imm : BitVec 20) :
    getUImmediate (Rv32i.uType opcode rd imm) = imm ++ 0#12 :=
  congrArg (· ++ 0#12) (Rv32i.uType_fields opcode rd imm).2.2

theorem getIImmediate_iType (opcode : BitVec 7) (rd rs1 : Rv32i.Reg) (f3 : BitVec 3)
    (imm : BitVec 12) : getIImmediate (Rv32i.iType opcode rd f3 rs1 imm) = imm :=
  (Rv32i.iType_fields opcode rd rs1 f3 imm).2.2.2.2

theorem getSBImmediate_bType (opcode : BitVec 7) (rs1 rs2 : Rv32i.Reg) (f3 : BitVec 3)
    (offset : BitVec 12) :
    (getSBImmediate (Rv32i.bType opcode f3 rs1 rs2 offset)).signExtend 32 =
      Rv32i.byteOffset offset :=
  congrArg (fun x : BitVec 12 => (x ++ 0#1).signExtend 32)
    (Rv32i.bType_offset opcode rs1 rs2 f3 offset)

theorem getUJImmediate_jType (opcode : BitVec 7) (rd : Rv32i.Reg) (offset : BitVec 20) :
    (getUJImmediate (Rv32i.jType opcode rd offset)).signExtend 32 = Rv32i.byteOffset offset :=
  congrArg (fun x : BitVec 20 => (x ++ 0#1).signExtend 32) (Rv32i.jType_offset opcode rd offset)

theorem decoded_alu {op : DecodedOp} (ha : op.aluCmd = true)
    (hj : (op.jumpCmd || op.jumprCmd) = false) (aop : AluOp) (h3 : op.funct3 = aop.funct3)
    (h7 : op.funct3 = Funct3.ADD_SUB ∨ op.funct3 = Funct3.SRL_SRA →
      op.funct7.getLsbD 5 = aop.funct7.getLsbD 5) :
    op.result c x1 x2 csr answer = some (aop.eval x1 x2) := by
  rw [DecodedOp.result, hj, ha, DecodedOp.alu_res ha aop h3 h7]
  rfl

theorem clearBit5 (f : BitVec 7) : (f &&& 0b1011111#7).getLsbD 5 = false := by
  rw [BitVec.getLsbD_and]
  simp

variable {word next : Word}

/-- `LUI` and `AUIPC` add their two immediates. -/
theorem decodeUpper_value {b : DecodedOp} {u : Word} (hj : (b.jumpCmd || b.jumprCmd) = false) :
    (b.decodeUpper word u).result c ((b.decodeUpper word u).op1 x1)
      ((b.decodeUpper word u).op2 x2) csr answer = some (getUImmediate word + u) := by
  have hj' : ((b.decodeUpper word u).jumpCmd || (b.decodeUpper word u).jumprCmd) = false := hj
  exact decoded_alu rfl hj' .add rfl fun _ => rfl

theorem imm_value (h : opClass word = some .imm) (aop : AluOp)
    (h3 : word.extractLsb' 12 3 = aop.funct3)
    (h7 : aop.funct3 = Funct3.SRL_SRA → (word.extractLsb' 25 7).getLsbD 5 = aop.funct7.getLsbD 5)
    (hsub : aop ≠ .sub) :
    (d.decodeWord word pc next).result c ((d.decodeWord word pc next).op1 x1)
      ((d.decodeWord word pc next).op2 x2) csr answer =
      some (aop.eval x1 ((getIImmediate word).signExtend 32)) := by
  simp only [DecodedOp.decodeWord, h]
  refine decoded_alu rfl rfl aop h3 fun hf => ?_
  by_cases hadd : word.extractLsb' 12 3 = Funct3.ADD_SUB
  · have haop : aop.funct7.getLsbD 5 = false := by
      rw [h3] at hadd
      cases aop <;> first | rfl | exact absurd rfl hsub | exact absurd hadd (by decide)
    rw [haop]
    exact (congrArg (fun f : BitVec 7 => f.getLsbD 5) (if_pos hadd)).trans (clearBit5 _)
  · have hsr : word.extractLsb' 12 3 = Funct3.SRL_SRA := hf.resolve_left hadd
    exact (congrArg (fun f : BitVec 7 => f.getLsbD 5) (if_neg hadd)).trans (h7 (h3.symm.trans hsr))

theorem shamt_of_imm (word : Word) :
    ((getIImmediate word).signExtend 32).extractLsb' 0 5 = word.extractLsb' 20 5 := by
  apply BitVec.eq_of_getLsbD_eq
  intro k hk
  have h12 : k < 12 := by omega
  have h32 : k < 32 := by omega
  simp only [getIImmediate, BitVec.getLsbD_extractLsb', BitVec.getLsbD_signExtend, hk, h12, h32,
    decide_true, Bool.true_and, Nat.zero_add, if_true]

theorem shamt_of_setWidth (shamt : BitVec 5) : (shamt.setWidth 32).extractLsb' 0 5 = shamt := by
  revert shamt
  decide

theorem shift_eval_congr (op : ShiftOp) {y1 y2 : Word}
    (h : y1.extractLsb' 0 5 = y2.extractLsb' 0 5) :
    op.toAlu.eval x1 y1 = op.toAlu.eval x1 y2 := by
  cases op <;> simp only [ShiftOp.toAlu, AluOp.eval, h]

theorem op_value (h : opClass word = some .op) (aop : AluOp)
    (h3 : word.extractLsb' 12 3 = aop.funct3) (h7 : word.extractLsb' 25 7 = aop.funct7) :
    (d.decodeWord word pc next).result c ((d.decodeWord word pc next).op1 x1)
      ((d.decodeWord word pc next).op2 x2) csr answer = some (aop.eval x1 x2) := by
  simp only [DecodedOp.decodeWord, h]
  exact decoded_alu rfl rfl aop h3 fun _ => congrArg (fun f : BitVec 7 => f.getLsbD 5) h7

theorem decoded_load {op : DecodedOp} (hl : op.loadCmd = true)
    (hj : (op.jumpCmd || op.jumprCmd) = false)
    (hf : op.aluCmd = false ∧ op.csrCmd = false ∧ op.storeCmd = false) {kind : LoadKind}
    (h3 : op.funct3 = kind.funct3) (ha : (op.ls x1 x2).adr.toNat % kind.size = 0) :
    op.result c x1 x2 csr answer = answer.map fun w => kind.value fun k =>
      byteLane w ((op.ls x1 x2).adr.toNat % 4 + k) := by
  obtain ⟨halu, hcsr, hstore⟩ := hf
  obtain ⟨hm, hi, hv⟩ := load_value (l := op.ls x1 x2) h3 hstore ha
  have hmux : (op.ls x1 x2).rdMux = fun w => kind.value fun k =>
      byteLane w ((op.ls x1 x2).adr.toNat % 4 + k) := funext hv
  simp [DecodedOp.result, hj, halu, hcsr, hl, hm, hi, hmux]

/-- What Decode and the units make of an instruction is its result. -/
theorem decoded_value (ins : Instr) (hc : ins.computes = true) (hr : ins.Regular pc x1 x2) :
    (ins.decoded d pc).result c ((ins.decoded d pc).op1 x1) ((ins.decoded d pc).op2 x2) csr answer =
      (ins.effect pc x1 x2).value answer := by
  have hcls := opClass_encode ins
  rw [Instr.decoded]
  cases ins with
  | lui rd imm =>
    simp only [DecodedOp.decodeWord, hcls, Instr.opClass]
    rw [decodeUpper_value rfl]
    show some (getUImmediate (Rv32i.uType _ rd imm) + 0#32) = some (imm ++ 0#12)
    rw [getUImmediate_uType, BitVec.add_zero]
  | auipc rd imm =>
    simp only [DecodedOp.decodeWord, hcls, Instr.opClass]
    rw [decodeUpper_value rfl]
    show some (getUImmediate (Rv32i.uType _ rd imm) + pc) = some (pc + (imm ++ 0#12))
    rw [getUImmediate_uType, BitVec.add_comm]
  | jal | jalr | branch | store =>
    simp only [DecodedOp.decodeWord, hcls, Instr.opClass]
    rfl
  | load kind rd rs1 imm =>
    have himm : getIImmediate (Instr.load kind rd rs1 imm).encode = imm :=
      getIImmediate_iType _ _ _ _ _
    have h3 : (Instr.load kind rd rs1 imm).encode.extractLsb' 12 3 = kind.funct3 :=
      (Rv32i.iType_fields _ _ _ _ _).2.2.1
    have ha : (x1 + imm.signExtend 32).toNat % kind.size = 0 := hr.1 _ rfl
    simp only [DecodedOp.decodeWord, hcls, Instr.opClass]
    generalize (Instr.load kind rd rs1 imm).encode = word at himm h3 ⊢
    subst himm
    exact decoded_load rfl rfl ⟨rfl, rfl, rfl⟩ h3 ha
  | aluImm op rd rs1 imm =>
    have himm : getIImmediate (Instr.aluImm op rd rs1 imm).encode = imm :=
      getIImmediate_iType _ _ _ _ _
    have h3 : (Instr.aluImm op rd rs1 imm).encode.extractLsb' 12 3 = op.toAlu.funct3 :=
      (Rv32i.iType_fields _ _ _ _ _).2.2.1
    rw [imm_value hcls op.toAlu h3 (fun hf => ?_) (by cases op <;> decide), himm]
    · rfl
    · exact absurd hf (by cases op <;> decide)
  | shiftImm op rd rs1 shamt =>
    obtain ⟨-, -, h3, -, hrs2, h7⟩ :=
      Rv32i.rType_fields 0b0010011 rd rs1 shamt op.toAlu.funct3 op.toAlu.funct7
    have hamount :
        ((getIImmediate (Instr.shiftImm op rd rs1 shamt).encode).signExtend 32).extractLsb' 0 5 =
          (shamt.setWidth 32).extractLsb' 0 5 := by
      rw [shamt_of_imm, shamt_of_setWidth]
      exact hrs2
    rw [imm_value hcls op.toAlu h3 (fun _ => congrArg (fun f : BitVec 7 => f.getLsbD 5) h7)
      (by cases op <;> decide), shift_eval_congr op hamount]
    rfl
  | alu op rd rs1 rs2 =>
    obtain ⟨-, -, h3, -, -, h7⟩ := Rv32i.rType_fields 0b0110011 rd rs1 rs2 op.funct3 op.funct7
    exact op_value hcls op h3 h7
  | fence | csr | ecall | ebreak | mret => exact absurd hc Bool.false_ne_true

theorem and_not_one {v : Word} (h : v.getLsbD 0 = false) : v &&& ~~~1 = v := by
  apply BitVec.eq_of_getLsbD_eq
  intro k hk
  cases k with
  | zero => rw [BitVec.getLsbD_and, h, Bool.false_and]
  | succ k =>
    have hk1 : (1#32).getLsbD (k + 1) = false := by simp [BitVec.getLsbD_one]
    rw [BitVec.getLsbD_and, BitVec.getLsbD_not, BitVec.ofNat_eq_ofNat, hk1]
    simp [hk]

theorem jump_jumpr {op : DecodedOp} (hr : op.jumprCmd = true)
    (hb : op.branchCmd = false ∧ op.jumpCmd = false) (trap : TrapCsr) :
    (op.jump x1 x2 trap).target = some (op.alu x1 x2).res := by
  simp [DecodedOp.jump, jumpComb, hr, hb, JumpOutput.target]

theorem jump_branch {op : DecodedOp} (hb : op.branchCmd = true) (ha : op.aluCmd = false)
    {cond : Rv32i.Cond} (h3 : op.funct3 = cond.funct3) (trap : TrapCsr) :
    (op.jump x1 x2 trap).target = if cond.holds x1 x2 then some op.jumpDest else none := by
  rw [DecodedOp.jump, jumpComb, if_pos hb, h3, branchTaken_eq ha cond]
  rfl

/-- The jump that is taken is the one the instruction asks for. -/
theorem decoded_jump (ins : Instr) (hc : ins.computes = true) (hr : ins.Regular pc x1 x2)
    (trap : TrapCsr) :
    ((ins.decoded d pc).jump ((ins.decoded d pc).op1 x1) ((ins.decoded d pc).op2 x2) trap).target =
      (ins.effect pc x1 x2).target := by
  have hcls := opClass_encode ins
  rw [Instr.decoded]
  cases ins with
  | lui | auipc | load | store | aluImm | shiftImm | alu =>
    simp only [DecodedOp.decodeWord, hcls, Instr.opClass]
    rfl
  | jal rd offset =>
    have himm : (getUJImmediate (Instr.jal rd offset).encode).signExtend 32 =
      Rv32i.byteOffset offset := getUJImmediate_jType _ _ _
    simp only [DecodedOp.decodeWord, hcls, Instr.opClass]
    generalize (Instr.jal rd offset).encode = word at himm ⊢
    exact congrArg (fun x => some (pc + x)) himm
  | jalr rd rs1 imm =>
    have himm : getIImmediate (Instr.jalr rd rs1 imm).encode = imm :=
      getIImmediate_iType _ _ _ _ _
    have heven : (x1 + imm.signExtend 32) &&& ~~~1 = x1 + imm.signExtend 32 := and_not_one hr.2
    simp only [DecodedOp.decodeWord, hcls, Instr.opClass]
    generalize (Instr.jalr rd rs1 imm).encode = word at himm ⊢
    subst himm
    refine (jump_jumpr rfl ⟨rfl, rfl⟩ trap).trans ?_
    refine (congrArg some (DecodedOp.alu_res rfl .add rfl fun _ => ?_)).trans ?_
    · exact (clearBit5 _).trans rfl
    · exact congrArg some heven.symm
  | branch cond rs1 rs2 offset =>
    have himm : (getSBImmediate (Instr.branch cond rs1 rs2 offset).encode).signExtend 32 =
      Rv32i.byteOffset offset := getSBImmediate_bType _ _ _ _ _
    have h3 : (Instr.branch cond rs1 rs2 offset).encode.extractLsb' 12 3 = cond.funct3 :=
      (Rv32i.rType_fields _ _ _ _ _ _).2.2.1
    simp only [DecodedOp.decodeWord, hcls, Instr.opClass]
    generalize (Instr.branch cond rs1 rs2 offset).encode = word at himm h3 ⊢
    refine (jump_branch rfl rfl h3 trap).trans ?_
    show (if cond.holds x1 x2 then some (pc + (getSBImmediate word).signExtend 32) else none) = _
    rw [himm]
    rfl
  | fence | csr | ecall | ebreak | mret => exact absurd hc Bool.false_ne_true

theorem decoded_noAccess (ins : Instr) (hc : ins.computes = true)
    (h : (ins.effect pc x1 x2).access = none) :
    (ins.decoded d pc).loadCmd = false ∧ (ins.decoded d pc).storeCmd = false := by
  have hcls := opClass_encode ins
  rw [Instr.decoded]
  cases ins with
  | load | store => cases h
  | fence | csr | ecall | ebreak | mret => exact absurd hc Bool.false_ne_true
  | _ =>
    simp only [DecodedOp.decodeWord, hcls, Instr.opClass]
    exact ⟨rfl, rfl⟩

theorem decoded_access (ins : Instr) {a : Access} (h : (ins.effect pc x1 x2).access = some a) :
    ((ins.decoded d pc).loadCmd || (ins.decoded d pc).storeCmd) = true ∧
      a.Asks ((ins.decoded d pc).ls ((ins.decoded d pc).op1 x1) ((ins.decoded d pc).op2 x2)) := by
  have hcls := opClass_encode ins
  rw [Instr.decoded]
  cases ins with
  | load kind rd rs1 imm =>
    have himm : getIImmediate (Instr.load kind rd rs1 imm).encode = imm :=
      getIImmediate_iType _ _ _ _ _
    have h3 : (Instr.load kind rd rs1 imm).encode.extractLsb' 12 3 = kind.funct3 :=
      (Rv32i.iType_fields _ _ _ _ _).2.2.1
    simp only [DecodedOp.decodeWord, hcls, Instr.opClass]
    generalize (Instr.load kind rd rs1 imm).encode = word at himm h3 ⊢
    subst himm
    cases h
    exact ⟨rfl, rfl, h3, rfl⟩
  | store kind rs2 rs1 imm =>
    have himm : getSImmediate (Instr.store kind rs2 rs1 imm).encode = imm :=
      Rv32i.sType_imm _ _ _ _ _
    have h3 : (Instr.store kind rs2 rs1 imm).encode.extractLsb' 12 3 = kind.funct3 :=
      (Rv32i.rType_fields _ _ _ _ _ _).2.2.1
    simp only [DecodedOp.decodeWord, hcls, Instr.opClass]
    generalize (Instr.store kind rs2 rs1 imm).encode = word at himm h3 ⊢
    subst himm
    cases h
    exact ⟨rfl, rfl, h3, rfl, rfl⟩
  | _ => cases h

/-- The register fields of an encoding are where Decode looks for them. -/
theorem encode_registers (ins : Instr) :
    (∀ r, ins.rd = some r → ins.encode.extractLsb' 7 5 = r) ∧
      (∀ r, ins.rs1 = some r → ins.encode.extractLsb' 15 5 = r) ∧
      ∀ r, ins.rs2 = some r → ins.encode.extractLsb' 20 5 = r := by
  have hnone (k : ℕ) (r : Rv32i.Reg) (h : (none : Option Rv32i.Reg) = some r) :
      ins.encode.extractLsb' k 5 = r := by cases h
  cases ins with
  | lui | auipc | jal =>
    obtain ⟨-, hrd, -⟩ := Rv32i.uType_fields _ _ _
    exact ⟨fun r hr => hrd.trans (Option.some.inj hr), hnone 15, hnone 20⟩
  | branch | store =>
    obtain ⟨-, -, -, hrs1, hrs2, -⟩ := Rv32i.rType_fields _ _ _ _ _ _
    exact ⟨hnone 7, fun r hr => hrs1.trans (Option.some.inj hr),
      fun r hr => hrs2.trans (Option.some.inj hr)⟩
  | shiftImm =>
    obtain ⟨-, hrd, -, hrs1, -⟩ := Rv32i.rType_fields _ _ _ _ _ _
    exact ⟨fun r hr => hrd.trans (Option.some.inj hr), fun r hr => hrs1.trans (Option.some.inj hr),
      hnone 20⟩
  | alu =>
    obtain ⟨-, hrd, -, hrs1, hrs2, -⟩ := Rv32i.rType_fields _ _ _ _ _ _
    exact ⟨fun r hr => hrd.trans (Option.some.inj hr), fun r hr => hrs1.trans (Option.some.inj hr),
      fun r hr => hrs2.trans (Option.some.inj hr)⟩
  | jalr | load | aluImm =>
    obtain ⟨-, hrd, -, hrs1, -⟩ := Rv32i.iType_fields _ _ _ _ _
    exact ⟨fun r hr => hrd.trans (Option.some.inj hr), fun r hr => hrs1.trans (Option.some.inj hr),
      hnone 20⟩
  | csr =>
    obtain ⟨-, hrd, -⟩ := Rv32i.iType_fields _ _ _ _ _
    exact ⟨fun r hr => hrd.trans (Option.some.inj hr), hnone 15, hnone 20⟩
  | fence | ecall | ebreak | mret => exact ⟨hnone 7, hnone 15, hnone 20⟩

theorem decoded_registers (ins : Instr) :
    (∀ r, ins.rd = some r → (ins.decoded d pc).rdAdr = r) ∧
      (∀ r, ins.rs1 = some r →
        (ins.decoded d pc).usesRs1 = true ∧ (ins.decoded d pc).sourceRs1 = r) ∧
      ∀ r, ins.rs2 = some r →
        (ins.decoded d pc).usesRs2 = true ∧ (ins.decoded d pc).sourceRs2 = r := by
  have hcls := opClass_encode ins
  have hrd : (ins.decoded d pc).rdAdr = ins.encode.extractLsb' 7 5 :=
    DecodedOp.decodeWord_rdAdr _ _ _ _
  obtain ⟨-, -, -, hrs1, hrs2⟩ := DecodedOp.decodeWord_fetched d ins.encode pc (pc + 4)
  obtain ⟨h7, h15, h20⟩ := encode_registers ins
  refine ⟨fun r hr => hrd.trans (h7 r hr), fun r hr => ⟨?_, hrs1.trans (h15 r hr)⟩,
    fun r hr => ⟨?_, hrs2.trans (h20 r hr)⟩⟩
  · rw [Instr.decoded]
    cases ins with
    | jalr | branch | load | store | aluImm | shiftImm | alu =>
      simp only [DecodedOp.decodeWord, hcls, Instr.opClass]
      rfl
    | _ => cases hr
  · rw [Instr.decoded]
    cases ins with
    | branch | store | alu =>
      simp only [DecodedOp.decodeWord, hcls, Instr.opClass]
      rfl
    | _ => cases hr

/-- No class but those of the base set. -/
theorem decoded_flags (d : DecodedOp) (pc x1 x2 : Word) (ins : Instr) (hc : ins.computes = true) :
    (ins.decoded d pc).csrCmd = false ∧ (ins.decoded d pc).invalidOpcode = false ∧
      ((ins.decoded d pc).jumpCmd || (ins.decoded d pc).jumprCmd) =
        ((ins.effect pc x1 x2).result.isSome && (ins.effect pc x1 x2).target.isSome) := by
  have hcls := opClass_encode ins
  rw [Instr.decoded]
  cases ins with
  | fence | csr | ecall | ebreak | mret => exact absurd hc Bool.false_ne_true
  | _ =>
    simp only [DecodedOp.decodeWord, hcls, Instr.opClass]
    exact ⟨rfl, rfl, rfl⟩

theorem decoded_isShift (d : DecodedOp) (pc : Word) (ins : Instr) (hc : ins.computes = true) :
    ((ins.decoded d pc).aluCmd && (decide ((ins.decoded d pc).funct3 = Funct3.SLL) ||
      decide ((ins.decoded d pc).funct3 = Funct3.SRL_SRA))) = ins.isShift := by
  have hcls := opClass_encode ins
  rw [Instr.decoded]
  cases ins with
  | fence | csr | ecall | ebreak | mret => exact absurd hc Bool.false_ne_true
  | lui | auipc | jal | jalr | branch | load | store =>
    simp only [DecodedOp.decodeWord, hcls, Instr.opClass]
    rfl
  | aluImm op rd rs1 imm =>
    have h3 : (Instr.aluImm op rd rs1 imm).encode.extractLsb' 12 3 = op.toAlu.funct3 :=
      (Rv32i.iType_fields _ _ _ _ _).2.2.1
    simp only [DecodedOp.decodeWord, hcls, Instr.opClass, DecodedOp.base, h3]
    cases op <;> rfl
  | shiftImm op rd rs1 shamt =>
    have h3 : (Instr.shiftImm op rd rs1 shamt).encode.extractLsb' 12 3 = op.toAlu.funct3 :=
      (Rv32i.rType_fields _ _ _ _ _ _).2.2.1
    simp only [DecodedOp.decodeWord, hcls, Instr.opClass, DecodedOp.base, h3]
    cases op <;> rfl
  | alu op rd rs1 rs2 =>
    have h3 : (Instr.alu op rd rs1 rs2).encode.extractLsb' 12 3 = op.funct3 :=
      (Rv32i.rType_fields _ _ _ _ _ _).2.2.1
    simp only [DecodedOp.decodeWord, hcls, Instr.opClass, DecodedOp.base, h3]
    cases op <;> rfl

end Decoding
end BonfireCore
