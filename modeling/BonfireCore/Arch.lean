import BonfireCore.Execute
import BonfireCore.RegFile

/-! What a program sees: the registers and the trap CSRs, changed by one whole instruction
at a time. The functional units are used as they stand when nothing is in progress. -/
namespace BonfireCore

/-- An instruction as Fetch offers it to Decode. -/
structure Fetched where
  word : Word
  currentIp : Word
  nextIp : Word
  deriving DecidableEq, Repr

namespace DecodedOp

/-- What every decode guarantees: one class, and the ALU as JALR's adder. -/
structure WellFormed (a : DecodedOp) : Prop where
  jumpr : a.jumprCmd = true → a.aluCmd = true ∧ a.funct3 = Funct3.ADD_SUB
  alu : a.aluCmd = true → a.loadCmd = false ∧ a.storeCmd = false ∧ a.branchCmd = false ∧
    a.jumpCmd = false ∧ a.csrCmd = false ∧ a.sysCmd = false
  load : a.loadCmd = true → a.storeCmd = false ∧ a.branchCmd = false ∧ a.jumpCmd = false ∧
    a.csrCmd = false ∧ a.sysCmd = false
  store : a.storeCmd = true → a.branchCmd = false ∧ a.jumpCmd = false ∧ a.csrCmd = false ∧
    a.sysCmd = false
  csr : a.csrCmd = true → a.branchCmd = false ∧ a.jumpCmd = false ∧ a.sysCmd = false
  jump : a.jumpCmd = true → a.branchCmd = false ∧ a.sysCmd = false
  rs1Immediate : a.rs1Immediate = true → a.usesRs1 = false
  rs2Immediate : a.rs2Immediate = true → a.usesRs2 = false

theorem decodeWord_wellFormed (a : DecodedOp) (word currentIp nextIp : Word) :
    WellFormed (a.decodeWord word currentIp nextIp) := by
  have hsystem (x : DecodedOp) : WellFormed ((x.base word currentIp nextIp).decodeSystem word) := by
    by_cases hpriv : word.extractLsb' 12 3 = Funct3.PRIV
    · constructor <;> simp [decodeSystem, base, hpriv]
    · cases h14 : word[14] <;> constructor <;>
        simp [decodeSystem, base, hpriv, h14, usesRs1, usesRs2]
  unfold decodeWord
  rcases opClass word with _ | cls
  · constructor <;> simp [base]
  · cases cls with
    | system => exact hsystem a
    | _ => constructor <;> simp [base, decodeUpper, usesRs1, usesRs2]

/-- Decode keeps the word and its addresses beside the instruction. -/
theorem decodeWord_fetched (a : DecodedOp) (word currentIp nextIp : Word) :
    (a.decodeWord word currentIp nextIp).debugWord = word ∧
      (a.decodeWord word currentIp nextIp).debugCurrentIp = currentIp ∧
      (a.decodeWord word currentIp nextIp).nextIp = nextIp ∧
      (a.decodeWord word currentIp nextIp).sourceRs1 = word.extractLsb' 15 5 ∧
      (a.decodeWord word currentIp nextIp).sourceRs2 = word.extractLsb' 20 5 := by
  unfold decodeWord
  rcases opClass word with _ | cls
  · simp [base]
  · cases cls with
    | system =>
      by_cases hpriv : word.extractLsb' 12 3 = Funct3.PRIV
      · simp [decodeSystem, base, hpriv]
      · cases h14 : word[14] <;> simp [decodeSystem, base, hpriv, h14]
    | _ => simp [base, decodeUpper]

/-- The registers of another decode of the same word may differ only where they are not
looked at. -/
structure Agrees (a b : DecodedOp) : Prop where
  fetched : a.debugWord = b.debugWord ∧ a.debugCurrentIp = b.debugCurrentIp ∧ a.nextIp = b.nextIp
    ∧ a.mepc = b.mepc
  registers : a.sourceRs1 = b.sourceRs1 ∧ a.sourceRs2 = b.sourceRs2 ∧ a.rdAdr = b.rdAdr
  functs : a.funct3 = b.funct3 ∧ a.funct7 = b.funct7
  classes : a.aluCmd = b.aluCmd ∧ a.loadCmd = b.loadCmd ∧ a.storeCmd = b.storeCmd ∧
    a.branchCmd = b.branchCmd ∧ a.jumpCmd = b.jumpCmd ∧ a.jumprCmd = b.jumprCmd ∧
    a.csrCmd = b.csrCmd ∧ a.sysCmd = b.sysCmd ∧ a.invalidOpcode = b.invalidOpcode
  rs1Immediate : a.rs1Immediate = b.rs1Immediate
  rs2Immediate : a.rs2Immediate = b.rs2Immediate
  rs1ImmValue : a.rs1Immediate = true → a.rs1ImmValue = b.rs1ImmValue
  rs2ImmValue : a.rs2Immediate = true → a.rs2ImmValue = b.rs2ImmValue
  displacement : (a.loadCmd || a.storeCmd) = true → a.displacement = b.displacement
  jumpDest : (a.branchCmd || a.jumpCmd) = true → a.jumpDest = b.jumpDest
  privFunct12 : (a.csrCmd || a.sysCmd) = true → a.privFunct12 = b.privFunct12

theorem decodeWord_agrees (a b : DecodedOp) (word currentIp nextIp : Word) :
    Agrees (a.decodeWord word currentIp nextIp) (b.decodeWord word currentIp nextIp) := by
  have hsystem (x y : DecodedOp) : Agrees ((x.base word currentIp nextIp).decodeSystem word)
      ((y.base word currentIp nextIp).decodeSystem word) := by
    by_cases hpriv : word.extractLsb' 12 3 = Funct3.PRIV
    · constructor <;> simp [decodeSystem, base, hpriv]
    · cases h14 : word[14] <;> constructor <;> simp [decodeSystem, base, hpriv, h14]
  unfold decodeWord
  rcases opClass word with _ | cls
  · constructor <;> simp [base]
  · cases cls with
    | system => exact hsystem a b
    | imm => constructor <;> first | exact ⟨rfl, rfl⟩ | simp [base]
    | _ => constructor <;> simp [base, decodeUpper]

variable (c : CoreConfig) (op : DecodedOp) (op1 op2 : Word)

/-- The ALU with an empty pipeline and the shift done in one piece. -/
def alu : AluOutput := ({} : AluState).out .comb (op.aluInput true op1 op2)

def jump (trap : TrapCsr) : JumpOutput := jumpComb op (op.alu op1 op2) trap false false

def csr (csr : Csr) : CsrOutput := csr.out c none (op.csrInput true op1)

def ls : LsInput := op.lsInput true op1 op2

/-- The destination value, if there is one. `answer`: what the bus gave a load. -/
def result (csr : Csr) (answer : Option Word) : Option Word :=
  if op.jumpCmd || op.jumprCmd then some op.nextIp
  else if op.aluCmd then some (op.alu op1 op2).res
  else if op.csrCmd then
    if (op.csr c op1 csr).valid then some (op.csr c op1 csr).result else none
  else if op.loadCmd && !(op.ls op1 op2).misalign && !(op.ls op1 op2).invalidOp then
    answer.map (op.ls op1 op2).rdMux
  else none

variable {op op1 op2}

theorem jump_jumpWe (hw : op.WellFormed) (trap : TrapCsr) :
    (op.jump op1 op2 trap).jumpWe = (op.jumpCmd || op.jumprCmd) := by
  unfold jump jumpComb
  cases hb : op.branchCmd with
  | true =>
    have hj : op.jumpCmd = false := by
      by_contra hj
      simp [(hw.jump (by simpa using hj)).1] at hb
    have hr : op.jumprCmd = false := by
      by_contra hr
      simp [(hw.alu (hw.jumpr (by simpa using hr)).1).2.2.1] at hb
    cases branchTaken op.funct3 (op.alu op1 op2) <;> simp [hj, hr]
  | false =>
    cases hj : op.jumpCmd with
    | true => simp
    | false =>
      cases hr : op.jumprCmd with
      | true => simp
      | false =>
        simp only [Bool.or_self]
        split_ifs <;> first | rfl | simp_all

theorem alu_valid (h : op.aluCmd = true) : (op.alu op1 op2).valid = true := by
  cases hs : (op.aluInput true op1 op2).isShift <;>
    simp [alu, AluState.out, AluState.shiftValid, AluInput.shiftEn, aluInput, h]

variable {a b : DecodedOp} {x1 x2 y1 y2 : Word}

/-- The operands agree wherever the instruction reads them. -/
structure SameOperands (a : DecodedOp) (x1 x2 y1 y2 : Word) : Prop where
  op1 : (a.usesRs1 || a.rs1Immediate) = true → x1 = y1
  op2 : (a.usesRs2 || a.rs2Immediate) = true → x2 = y2

theorem SameOperands.of_agrees (ho : SameOperands a x1 x2 y1 y2) (h : Agrees a b) :
    SameOperands b x1 x2 y1 y2 := by
  obtain ⟨halu, hload, hstore, hbr, -, hjr, hcsr, -⟩ := h.classes
  constructor
  · intro hu
    apply ho.op1
    simpa [usesRs1, halu, hload, hstore, hbr, hjr, hcsr, h.rs1Immediate] using hu
  · intro hu
    apply ho.op2
    simpa [usesRs2, halu, hstore, hbr, h.rs2Immediate] using hu

theorem SameOperands.op1_eq (ho : SameOperands a x1 x2 y1 y2)
    (hc : (a.branchCmd || a.loadCmd || a.storeCmd || a.jumprCmd || a.aluCmd || a.csrCmd) = true) :
    x1 = y1 := by
  apply ho.op1
  cases hi : a.rs1Immediate with
  | true => simp
  | false => simpa [usesRs1, hi] using hc

theorem SameOperands.op2_eq (ho : SameOperands a x1 x2 y1 y2)
    (hc : (a.branchCmd || a.storeCmd || a.aluCmd) = true) : x2 = y2 := by
  apply ho.op2
  cases hi : a.rs2Immediate with
  | true => simp
  | false => simpa [usesRs2, hi] using hc

theorem Agrees.alu_eq (h : Agrees a b) (ho : SameOperands a x1 x2 y1 y2)
    (hc : (a.aluCmd || a.branchCmd) = true) : a.alu x1 x2 = b.alu y1 y2 := by
  obtain ⟨hf3, hf7⟩ := h.functs
  have h1 : x1 = y1 := ho.op1_eq (by rcases Bool.or_eq_true _ _ ▸ hc with hc | hc <;> simp [hc])
  have h2 : x2 = y2 := ho.op2_eq (by rcases Bool.or_eq_true _ _ ▸ hc with hc | hc <;> simp [hc])
  simp [alu, aluInput, hf3, hf7, h.classes.1, h1, h2]

theorem Agrees.csrInput_eq (h : Agrees a b) (ho : SameOperands a x1 x2 y1 y2)
    (hc : a.csrCmd = true) (taken : Bool) : a.csrInput taken x1 = b.csrInput taken y1 := by
  have h1 : x1 = y1 := ho.op1_eq (by simp [hc])
  have hp : a.privFunct12 = b.privFunct12 := h.privFunct12 (by simp [hc])
  simp [csrInput, h.functs.1, h.registers.1, h.classes, h1, hp]

theorem Agrees.ls_eq (h : Agrees a b) (ho : SameOperands a x1 x2 y1 y2)
    (hc : (a.loadCmd || a.storeCmd) = true) :
    (a.ls x1 x2).store = (b.ls y1 y2).store ∧ (a.ls x1 x2).funct3 = (b.ls y1 y2).funct3 ∧
      (a.ls x1 x2).adr = (b.ls y1 y2).adr ∧
      (a.storeCmd = true → (a.ls x1 x2).op2 = (b.ls y1 y2).op2) := by
  have h1 : x1 = y1 := ho.op1_eq (by rcases Bool.or_eq_true _ _ ▸ hc with hc | hc <;> simp [hc])
  have hd : a.displacement = b.displacement := h.displacement hc
  refine ⟨h.classes.2.2.1, h.functs.1, by simp [ls, lsInput, LsInput.adr, h1, hd], fun hs => ?_⟩
  exact ho.op2_eq (by simp [hs])

theorem Agrees.jump_eq (h : Agrees a b) (ho : SameOperands a x1 x2 y1 y2) (hw : a.WellFormed)
    (trap : TrapCsr) :
    (a.jump x1 x2 trap).jump = (b.jump y1 y2 trap).jump ∧
      ((a.jump x1 x2 trap).jump = true →
        (a.jump x1 x2 trap).jumpDest = (b.jump y1 y2 trap).jumpDest) ∧
      (a.jump x1 x2 trap).jumpWe = (b.jump y1 y2 trap).jumpWe ∧
      trap.update (a.jump x1 x2 trap).update = trap.update (b.jump y1 y2 trap).update := by
  obtain ⟨-, -, -, hbr, hjmp, hjr, -, hsys, -⟩ := h.classes
  have hmepc : a.mepc = b.mepc := h.fetched.2.2.2
  unfold jump jumpComb
  simp only [← hbr, ← hjmp, ← hjr, ← hsys]
  cases hb : a.branchCmd with
  | true =>
    have halu : a.alu x1 x2 = b.alu y1 y2 := h.alu_eq ho (by simp [hb])
    have hdest : a.jumpDest = b.jumpDest := h.jumpDest (by simp [hb])
    simp only [halu, hdest, h.functs.1, if_true]
    cases branchTaken b.funct3 (b.alu y1 y2) <;> simp [trapUpdate, TrapCsr.update]
  | false =>
    cases hj : a.jumpCmd with
    | true =>
      have hdest : a.jumpDest = b.jumpDest := h.jumpDest (by simp [hj])
      simp [hdest, trapUpdate, TrapCsr.update]
    | false =>
      cases hr : a.jumprCmd with
      | true =>
        have halu : a.alu x1 x2 = b.alu y1 y2 := h.alu_eq ho (by simp [hw.jumpr hr])
        simp [halu, trapUpdate, TrapCsr.update]
      | false =>
        cases hs : a.sysCmd with
        | true =>
          have hp : a.privFunct12 = b.privFunct12 := h.privFunct12 (by simp [hs])
          simp only [hp, trapUpdate, hmepc]
          exact ⟨rfl, fun _ => rfl, rfl, rfl⟩
        | false => simp [trapUpdate, TrapCsr.update]

theorem Agrees.result_eq (h : Agrees a b) (ho : SameOperands a x1 x2 y1 y2) (csr : Csr)
    (answer : Option Word) : a.result c x1 x2 csr answer = b.result c y1 y2 csr answer := by
  obtain ⟨halu, hload, hstore, hbr, hjmp, hjr, hcsr, -⟩ := h.classes
  unfold result
  rw [← hjmp, ← hjr, ← halu, ← hcsr, ← hload, h.fetched.2.2.1]
  cases hj : a.jumpCmd || a.jumprCmd with
  | true => simp
  | false =>
    cases ha : a.aluCmd with
    | true => simp [h.alu_eq ho (by simp [ha])]
    | false =>
      cases hc : a.csrCmd with
      | true =>
        have hcsr : a.csr c x1 csr = b.csr c y1 csr := by
          unfold DecodedOp.csr
          rw [h.csrInput_eq ho hc]
        simp [hcsr]
      | false =>
        cases hl : a.loadCmd with
        | false => simp
        | true =>
          obtain ⟨hst, hf3, hadr, -⟩ := h.ls_eq ho (by simp [hl])
          have hmis : (a.ls x1 x2).misalign = (b.ls y1 y2).misalign := by
            simp only [LsInput.misalign, LsInput.hwordMode, LsInput.wordMode, hf3, hadr]
          have hinv : (a.ls x1 x2).invalidOp = (b.ls y1 y2).invalidOp := by
            simp only [LsInput.invalidOp, LsInput.byteMode, LsInput.hwordMode, LsInput.wordMode,
              hst, hf3]
          have hmux : (a.ls x1 x2).rdMux = (b.ls y1 y2).rdMux := by
            funext rd
            simp only [LsInput.rdMux, LsInput.byteMode, LsInput.hwordMode, hf3, hadr]
          simp [hmis, hinv, hmux]

/-- A load has a result only through the bus, and a store has none. -/
theorem result_mem (hw : op.WellFormed) (hmem : (op.loadCmd || op.storeCmd) = true) (csr : Csr)
    (answer : Option Word) :
    op.result c op1 op2 csr answer =
      if op.loadCmd && !(op.ls op1 op2).misalign && !(op.ls op1 op2).invalidOp then
        answer.map (op.ls op1 op2).rdMux
      else none := by
  have hac : op.aluCmd = false := by
    by_contra ha
    have hcls := hw.alu (by simpa using ha)
    simp [hcls] at hmem
  have hjr : op.jumprCmd = false := by
    by_contra hj
    simp [(hw.jumpr (by simpa using hj)).1] at hac
  have hcls : op.jumpCmd = false ∧ op.csrCmd = false := by
    cases hl : op.loadCmd with
    | true => exact ⟨(hw.load hl).2.2.1, (hw.load hl).2.2.2.1⟩
    | false =>
      have hs : op.storeCmd = true := by simpa [hl] using hmem
      exact ⟨(hw.store hs).2.1, (hw.store hs).2.2.1⟩
  simp [result, hcls, hjr, hac]

theorem result_aligned (hw : op.WellFormed) (hmem : (op.loadCmd || op.storeCmd) = true)
    (hmis : (op.ls op1 op2).misalign = false) (csr : Csr) (answer : Option Word) :
    op.result c op1 op2 csr answer =
      if (op.ls op1 op2).store || (op.ls op1 op2).invalidOp then none
      else answer.map (op.ls op1 op2).rdMux := by
  have hst : (op.ls op1 op2).store = op.storeCmd := rfl
  rw [result_mem c hw hmem, hmis, hst]
  cases hl : op.loadCmd with
  | true => cases hinv : (op.ls op1 op2).invalidOp <;> simp [(hw.load hl).1]
  | false =>
    have hs : op.storeCmd = true := by simpa [hl] using hmem
    simp [hs]

theorem Agrees.csrStep_eq (h : Agrees a b) (ho : SameOperands a x1 x2 y1 y2) (hw : a.WellFormed)
    (csr : Csr) :
    (csr.step c none (a.csrInput true x1) (a.jump x1 x2 csr.trap).update).trap =
      (csr.step c none (b.csrInput true y1) (b.jump y1 y2 csr.trap).update).trap := by
  obtain ⟨-, -, -, hupdate⟩ := h.jump_eq ho hw csr.trap
  cases hc : a.csrCmd with
  | true =>
    rw [h.csrInput_eq ho hc]
    exact Csr.step_trap_congr hupdate
  | false =>
    have hcb : b.csrCmd = false := h.classes.2.2.2.2.2.2.1 ▸ hc
    rw [Csr.step_trap_of_not_en (by simp [csrInput, hc]),
      Csr.step_trap_of_not_en (by simp [csrInput, hcb]), hupdate]

end DecodedOp

/-- A register write; `x0` is no destination. -/
def regWrite (rd : BitVec 5) (value : Option Word) : Option (BitVec 5 × Word) :=
  if rd = 0 then none else value.map (rd, ·)

@[simp] theorem regWrite_none (rd : BitVec 5) : regWrite rd none = none := by simp [regWrite]

/-- The state a program sees. -/
structure Arch where
  regs : BitVec 5 → Word := fun _ => 0
  trap : TrapCsr := {}

namespace Arch
variable (c : CoreConfig) (a : Arch) (f : Fetched)

def op (f : Fetched) : DecodedOp := ({} : DecodedOp).decodeWord f.word f.currentIp f.nextIp

def op1 : Word := (op f).op1 (RegFile.readReg a.regs (op f).sourceRs1)
def op2 : Word := (op f).op2 (RegFile.readReg a.regs (op f).sourceRs2)

variable (mcycle : BitVec 64) (answer : Option Word)

def write : Option (BitVec 5 × Word) :=
  regWrite (op f).rdAdr ((op f).result c (a.op1 f) (a.op2 f) ⟨a.trap, mcycle⟩ answer)

/-- The jump destination computed by the instruction, or the next address. -/
def nextPc : Word :=
  let j := (op f).jump (a.op1 f) (a.op2 f) a.trap
  if j.jump then j.jumpDest else f.nextIp

/-- One instruction. `mcycle` and `answer` are what it finds outside the program's state. -/
def exec : Arch where
  regs :=
    match a.write c f mcycle answer with
    | some (rd, value) => Function.update a.regs rd value
    | none => a.regs
  trap :=
    (Csr.step c ⟨a.trap, mcycle⟩ none ((op f).csrInput true (a.op1 f))
      ((op f).jump (a.op1 f) (a.op2 f) a.trap).update).trap

end Arch
end BonfireCore
