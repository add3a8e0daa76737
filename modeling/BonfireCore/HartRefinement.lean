import BonfireCore.Hart
import BonfireCore.JumpBypass
import BonfireCore.LoadStoreMemory

/-! The core runs the programs of a hart of the base set: its instructions do what the hart's
do, one after the other, whatever the buses make of the time. -/
namespace BonfireCore

open Rv32i (Instr Access Bytes bytesOf writeWord)

/-- Another word for the decision of a jump. -/
theorem Arch.nextPc_eq (a : Arch) (f : Fetched) :
    a.nextPc f = ((Arch.op f).jump (a.op1 f) (a.op2 f) a.trap).target.getD f.nextIp := by
  simp only [nextPc, JumpOutput.target]
  split_ifs <;> rfl

theorem Rv32i.Instr.opClass_computes {ins : Instr} (h : ins.computes = true) :
    ins.opClass ≠ .system := by
  cases ins with
  | fence | csr | ecall | ebreak | mret => exact absurd h Bool.false_ne_true
  | _ => exact fun hcls => OpClass.noConfusion hcls

namespace DecodedOp
variable {op : DecodedOp} {x1 x2 : Word}

theorem jump_plain (hb : op.branchCmd = false) (hj : op.jumpCmd = false)
    (hr : op.jumprCmd = false) (hs : op.sysCmd = false) (trap : TrapCsr) :
    (op.jump x1 x2 trap).target = none := by
  simp [jump, jumpComb, hb, hj, hr, hs, JumpOutput.target]

/-- Without a CSR instruction the trap CSRs change by `jump_comb` alone. -/
theorem csrStep_plain (c : CoreConfig) (h : op.csrCmd = false) (csr : Csr) (u : TrapCsrUpdate) :
    (csr.step c none (op.csrInput true x1) u).trap = csr.trap.update u :=
  Csr.step_trap_of_not_en (by simp [csrInput, h]) u

/-- An instruction of no class has no result. -/
theorem result_none (c : CoreConfig) (hj : (op.jumpCmd || op.jumprCmd) = false)
    (ha : op.aluCmd = false) (hc : op.csrCmd = false) (hl : op.loadCmd = false) (csr : Csr)
    (answer : Option Word) : op.result c x1 x2 csr answer = none := by
  simp [result, hj, ha, hc, hl]

end DecodedOp

namespace ProgramState

/-- The program is where the hart is. -/
structure Refines (p : ProgramState) (h : Hart) : Prop where
  pc : p.pc = h.pc
  regs : p.arch.regs = h.regs
  trap : p.arch.trap.file = h.trap
  mem : bytesOf p.mem = h.mem

/-- The next instruction of the program does what the hart's does. -/
structure Performs (c : CoreConfig) (imem : Word → Word) (p : ProgramState) (h : Hart)
    (ins : Instr) : Prop where
  pc : (p.step c imem).pc = (h.exec ins).pc
  write : p.write c imem = h.write ins
  trap : (p.step c imem).arch.trap.file = (h.exec ins).trap
  mem : bytesOf (p.step c imem).mem = (h.exec ins).mem

variable {c : CoreConfig} {imem : Word → Word} {p : ProgramState} {h : Hart} {ins : Instr}

theorem Performs.refines (hp : p.Performs c imem h ins) (hr : p.Refines h) :
    (p.step c imem).Refines (h.exec ins) where
  pc := hp.pc
  regs := by
    have hwrite : p.arch.write c (p.fetched imem) 0 (p.answer imem) = h.write ins := hp.write
    rw [ProgramState.step, Arch.exec, hwrite, hr.regs]
    rfl
  trap := hp.trap
  mem := hp.mem

/-- Without a store the data memory stays. -/
theorem step_mem (hst : (p.op imem).storeCmd = false) : (p.step c imem).mem = p.mem := by
  have hstore : p.store imem = none := by
    rw [ProgramState.store, hst, if_neg Bool.false_ne_true]
  rw [ProgramState.step, hstore]

section Step
variable (hr : p.Refines h) (hw : imem h.pc = ins.encode)
include hr hw

theorem Refines.fetched : p.fetched imem = ⟨ins.encode, h.pc, h.pc + 4⟩ := by
  rw [ProgramState.fetched, hr.pc, hw]

theorem Refines.op : Arch.op (p.fetched imem) = ins.decoded {} h.pc := by
  rw [hr.fetched hw]
  rfl

theorem Refines.op1 : p.arch.op1 (p.fetched imem) = (ins.decoded {} h.pc).op1 (h.x1 ins) := by
  obtain ⟨-, -, -, hs1, -⟩ := DecodedOp.decodeWord_fetched {} ins.encode h.pc (h.pc + 4)
  rw [Arch.op1, hr.op hw, hr.regs, Instr.decoded, hs1]
  rfl

theorem Refines.op2 : p.arch.op2 (p.fetched imem) = (ins.decoded {} h.pc).op2 (h.x2 ins) := by
  obtain ⟨-, -, -, -, hs2⟩ := DecodedOp.decodeWord_fetched {} ins.encode h.pc (h.pc + 4)
  rw [Arch.op2, hr.op hw, hr.regs, Instr.decoded, hs2]
  rfl

theorem Refines.nextPc : (p.step c imem).pc =
    ((ins.decoded {} h.pc).jump ((ins.decoded {} h.pc).op1 (h.x1 ins))
      ((ins.decoded {} h.pc).op2 (h.x2 ins)) p.arch.trap).target.getD (h.pc + 4) := by
  have hpc : (p.step c imem).pc = p.arch.nextPc (p.fetched imem) := rfl
  rw [hpc, Arch.nextPc_eq, hr.op hw, hr.op1 hw, hr.op2 hw, hr.fetched hw]

/-- The register write, given the result of the decoded instruction. -/
theorem Refines.write_eq (value : Option Word)
    (hv : (ins.decoded {} h.pc).result c ((ins.decoded {} h.pc).op1 (h.x1 ins))
      ((ins.decoded {} h.pc).op2 (h.x2 ins)) ⟨p.arch.trap, 0⟩ (p.answer imem) = value)
    (hrd : ins.rd = none → value = none) :
    p.write c imem = ins.rd.bind fun rd => regWrite rd value := by
  have hwrite : p.write c imem = p.arch.write c (p.fetched imem) 0 (p.answer imem) := rfl
  rw [hwrite, Arch.write, hr.op hw, hr.op1 hw, hr.op2 hw, hv, Instr.decoded,
    DecodedOp.decodeWord_rdAdr]
  cases hins : ins.rd with
  | none => rw [hrd hins, regWrite_none, Option.bind_none]
  | some rd => rw [(encode_registers ins).1 rd hins, Option.bind_some]

theorem Refines.trap_eq : (p.step c imem).arch.trap =
    (Csr.step c ⟨p.arch.trap, 0⟩ none
      ((ins.decoded {} h.pc).csrInput true ((ins.decoded {} h.pc).op1 (h.x1 ins)))
      ((ins.decoded {} h.pc).jump ((ins.decoded {} h.pc).op1 (h.x1 ins))
        ((ins.decoded {} h.pc).op2 (h.x2 ins)) p.arch.trap).update).trap := by
  have htrap : (p.step c imem).arch.trap = (Csr.step c ⟨p.arch.trap, 0⟩ none
      ((Arch.op (p.fetched imem)).csrInput true (p.arch.op1 (p.fetched imem)))
      ((Arch.op (p.fetched imem)).jump (p.arch.op1 (p.fetched imem)) (p.arch.op2 (p.fetched imem))
        p.arch.trap).update).trap := rfl
  rw [htrap, hr.op hw, hr.op1 hw, hr.op2 hw]

/-- The access of the program is the one the instruction asks for. -/
theorem Refines.access_eq : p.access imem =
    (ins.decoded {} h.pc).ls ((ins.decoded {} h.pc).op1 (h.x1 ins))
      ((ins.decoded {} h.pc).op2 (h.x2 ins)) := by
  rw [← hr.op1 hw, ← hr.op2 hw, ← hr.op hw]
  rfl

/-- Memory and the value loaded after the access. -/
theorem Refines.performs_access {a : Access} (ha : (h.effect ins).access = some a)
    (hal : a.Aligned) :
    bytesOf (p.step c imem).mem = a.write h.mem ∧
      (h.effect ins).value (p.answer imem) = a.read h.mem := by
  obtain ⟨hmem, hasks⟩ := decoded_access (d := {}) ins ha
  rw [← hr.access_eq hw] at hasks
  have hmem : ((p.op imem).loadCmd || (p.op imem).storeCmd) = true := by
    rw [ProgramState.op, hr.op hw]
    exact hmem
  let u : LoadStore :=
    { busEn := true
      adrO := (p.access imem).adr
      weO := if (p.access imem).store then (p.access imem).byteEnables else 0
      dbWr := (p.access imem).op2Shifted }
  have hrequests : a.Requests u.request := hasks.requests hal ⟨rfl, rfl, rfl, fun _ => rfl⟩
  obtain ⟨hwrite, hread⟩ := Attached.answered (w := p.mem) hrequests hasks hal
  rw [hr.mem] at hwrite hread
  cases a with
  | load kind adr =>
    obtain ⟨hst, -, hadr⟩ := hasks
    have hst : (p.op imem).storeCmd = false := hst
    have hload : (p.op imem).loadCmd = true := by simpa [hst] using hmem
    refine ⟨(congrArg bytesOf (step_mem hst)).trans hr.mem, ?_⟩
    rw [Rv32i.Effect.value, ha, answer, if_pos hload, hadr, ← hr.mem, Access.read_bytesOf p.mem hal]
    rfl
  | store kind adr data =>
    have hst : (p.op imem).storeCmd = true := hasks.1
    have hnone : (h.effect ins).result = none := by
      rw [Hart.effect] at ha ⊢
      cases ins <;> first | rfl | cases ha
    constructor
    · rw [ProgramState.step, ProgramState.store, if_pos hst, ← hwrite]
      have hwe : u.request.we = (p.access imem).byteEnables := if_pos hst
      rw [hwe]
      rfl
    · rw [Rv32i.Effect.value, ha]
      exact hnone

/-- Only the jump logic and the CSR unit change the trap CSRs, and neither is asked. -/
theorem Refines.trap_plain (hcsr : (ins.decoded {} h.pc).csrCmd = false)
    (hsys : (ins.decoded {} h.pc).sysCmd = false) :
    (p.step c imem).arch.trap.file = h.trap := by
  rw [hr.trap_eq hw, DecodedOp.csrStep_plain c hcsr, DecodedOp.jump, jumpComb_plain _ _ hsys,
    Traced.trap_update_idle, hr.trap]

theorem Refines.performs_computes (hc : ins.computes = true)
    (hregular : ins.Regular h.pc (h.x1 ins) (h.x2 ins)) : p.Performs c imem h ins := by
  obtain ⟨hcsr, hsys⟩ :
      (ins.decoded {} h.pc).csrCmd = false ∧ (ins.decoded {} h.pc).sysCmd = false :=
    decoded_plain ins (Instr.opClass_computes hc)
  obtain ⟨hexec, htarget, -⟩ := h.trap.plain h.pc (h.x1 ins) (Instr.opClass_computes hc)
  have hresult := @decoded_value {} _ _ _ c ⟨p.arch.trap, 0⟩ (p.answer imem) ins hc hregular
  have hvalue : h.value ins = h.computed ins := by
    cases ins <;> first | rfl | exact absurd hc Bool.false_ne_true
  have heffect : (h.effect ins).value (p.answer imem) = h.value ins ∧
      bytesOf (p.step c imem).mem = (h.exec ins).mem := by
    rw [hvalue, Hart.computed, Hart.exec]
    cases ha : (h.effect ins).access with
    | none =>
      have hst : (p.op imem).storeCmd = false := by
        rw [ProgramState.op, hr.op hw]
        exact (decoded_noAccess (d := {}) ins hc ha).2
      refine ⟨?_, (congrArg bytesOf (step_mem hst)).trans hr.mem⟩
      rw [Rv32i.Effect.value, ha]
    | some a =>
      obtain ⟨hmem, hread⟩ := hr.performs_access (c := c) hw ha (hregular.1 a ha)
      exact ⟨hread, hmem⟩
  obtain ⟨hread, hmem⟩ := heffect
  constructor
  · rw [hr.nextPc hw, decoded_jump ins hc hregular, Hart.exec, htarget]
    rfl
  · refine (hr.write_eq hw _ (hresult.trans hread) fun hrd => ?_).trans rfl
    rw [hvalue]
    cases ins with
    | branch | store => rfl
    | fence | csr | ecall | ebreak | mret => exact absurd hc Bool.false_ne_true
    | _ => cases hrd
  · rw [hr.trap_plain hw hcsr hsys, Hart.exec, hexec]
  · exact hmem

/-- What Decode makes of a fence asks for nothing. -/
theorem Refines.performs_fence {instructions : Bool} {rd rs1 : Rv32i.Reg} {imm : BitVec 12}
    (hi : ins = .fence instructions rd rs1 imm) : p.Performs c imem h ins := by
  subst hi
  have hcls := opClass_encode (.fence instructions rd rs1 imm)
  have hop : (Instr.fence instructions rd rs1 imm).decoded {} h.pc =
      { ({} : DecodedOp).base (Instr.fence instructions rd rs1 imm).encode h.pc (h.pc + 4) with
        fenceCmd := true } := by
    rw [Instr.decoded, DecodedOp.decodeWord, hcls]
    rfl
  constructor
  · rw [hr.nextPc hw, hop]
    rfl
  · refine (hr.write_eq hw none ?_ fun _ => rfl).trans rfl
    rw [hop]
    rfl
  · refine (hr.trap_plain hw ?_ ?_).trans rfl <;> rw [hop] <;> rfl
  · refine (congrArg bytesOf (step_mem ?_)).trans hr.mem
    rw [ProgramState.op, hr.op hw, hop]
    rfl

/-- ECALL, EBREAK and MRET: a jump and an update of the trap CSRs. -/
theorem Refines.performs_priv {f12 : BitVec 12} (hp : IsPriv (ins.decoded {} h.pc) h.pc f12)
    {target : Word} (hrd : ins.rd = none) (he : (h.effect ins).access = none)
    (htarget : h.trap.target ins = some target)
    (hjump : ∀ alu, let out := jumpComb (ins.decoded {} h.pc) alu p.arch.trap false false
      out.jump = true ∧ out.jumpDest = target ∧
        (p.arch.trap.update out.update).file = h.trap.exec h.pc (h.x1 ins) ins) :
    p.Performs c imem h ins := by
  have hwf : (ins.decoded {} h.pc).WellFormed := DecodedOp.decodeWord_wellFormed _ _ _ _
  have hno {flag : Bool} (hflag : flag = true → (ins.decoded {} h.pc).sysCmd = false) :
      flag = false := by
    cases flag with
    | false => rfl
    | true => exact absurd ((hflag rfl).symm.trans hp.sys) Bool.false_ne_true
  have hload := hno fun hl => (hwf.load hl).2.2.2.2
  have hstore := hno fun hs => (hwf.store hs).2.2.2
  have halu := hno fun ha => (hwf.alu ha).2.2.2.2.2
  obtain ⟨hout, hdest, hfile⟩ := hjump ((ins.decoded {} h.pc).alu
    ((ins.decoded {} h.pc).op1 (h.x1 ins)) ((ins.decoded {} h.pc).op2 (h.x2 ins)))
  constructor
  · rw [hr.nextPc hw, JumpOutput.target, DecodedOp.jump, hout, if_pos rfl, hdest, Hart.exec,
      htarget]
    rfl
  · refine (hr.write_eq hw none ?_ fun _ => rfl).trans ?_
    · refine DecodedOp.result_none c ?_ halu hp.csr hload _ _
      rw [hp.jump.1, hp.jump.2, Bool.or_false]
    · rw [Hart.write, hrd]
      rfl
  · rw [hr.trap_eq hw, DecodedOp.csrStep_plain c hp.csr, DecodedOp.jump]
    exact hfile
  · refine (congrArg bytesOf (step_mem ?_)).trans ?_
    · rw [ProgramState.op, hr.op hw]
      exact hstore
    · rw [hr.mem, Hart.exec, he]

/-- A CSR instruction on a trap CSR. -/
theorem Refines.performs_csr {op : Rv32i.CsrOp} {rd source : Rv32i.Reg} {adr : BitVec 12}
    (hi : ins = .csr op rd source adr) (hin : h.InOrder ins) : p.Performs c imem h ins := by
  subst hi
  obtain ⟨-, hnamed, hbits⟩ := hin
  obtain ⟨n, hn⟩ := Option.isSome_iff_exists.1 hnamed
  obtain ⟨rfl, hmem⟩ := named_cases hn
  set ins : Instr := .csr op rd source n.address with hins
  have hwf : (ins.decoded {} h.pc).WellFormed := DecodedOp.decodeWord_wellFormed _ _ _ _
  obtain ⟨hsys, hcmd, h3, hadr, hsource, hoperand⟩ :=
    @decoded_csr {} h.pc op rd source n.address (h.x1 ins)
  obtain ⟨hbranch, hjump, -⟩ := hwf.csr hcmd
  have hno {flag : Bool} (hflag : flag = true → (ins.decoded {} h.pc).csrCmd = false) :
      flag = false := by
    cases flag with
    | false => rfl
    | true => exact absurd ((hflag rfl).symm.trans hcmd) Bool.false_ne_true
  have halu := hno fun ha => (hwf.alu ha).2.2.2.2.1
  have hstore := hno fun hs => (hwf.store hs).2.2.1
  have hjumpr : (ins.decoded {} h.pc).jumprCmd = false := by
    cases hj : (ins.decoded {} h.pc).jumprCmd with
    | false => rfl
    | true => exact absurd (halu.symm.trans (hwf.jumpr hj).1) Bool.false_ne_true
  -- what the CSR unit is asked, and what it makes of it
  have hinput : (ins.decoded {} h.pc).csrInput true ((ins.decoded {} h.pc).op1 (h.x1 ins)) =
      ⟨op.funct3, TrapFile.operand op source (h.x1 ins), n.address, source, true⟩ := by
    rw [DecodedOp.csrInput, h3, hoperand, hadr, hsource, hcmd]
    rfl
  obtain ⟨hreg, hread, hwe, hinv, hout⟩ := Execute.csr_select (c := c) op source
    (TrapFile.operand op source (h.x1 ins)) ⟨p.arch.trap, 0⟩ none hmem
  rw [← hinput] at hreg hread hwe hinv hout
  constructor
  · rw [hr.nextPc hw, DecodedOp.jump_plain hbranch hjump hjumpr hsys]
    rfl
  · refine (hr.write_eq hw (some (h.trap.read n)) ?_ fun hrd => by cases hrd).trans ?_
    · have hvalid : ((ins.decoded {} h.pc).csr c ((ins.decoded {} h.pc).op1 (h.x1 ins))
          ⟨p.arch.trap, 0⟩).valid = true := by
        rw [DecodedOp.csr, Csr.out, hreg, hinv, hinput]
        rfl
      have hresult : ((ins.decoded {} h.pc).csr c ((ins.decoded {} h.pc).op1 (h.x1 ins))
          ⟨p.arch.trap, 0⟩).result = h.trap.read n := hread.trans (by rw [hr.trap])
      rw [DecodedOp.result, hjump, hjumpr, halu, hcmd, hvalid, hresult]
      rfl
    · have hvalue : h.value ins = some (h.trap.read n) := by
        show (TrapFile.named n.address).map h.trap.read = _
        rw [hn]
        rfl
      rw [Hart.write, hvalue]
  · have hwritten : h.trap.written (h.x1 ins) ins =
        if op.writes source then
          some (n, op.eval (h.trap.read n) (TrapFile.operand op source (h.x1 ins)))
        else none := by
      rw [hins]
      simp only [TrapFile.written, hn]
    rw [hr.trap_eq hw]
    show _ = TrapFile.exec h.trap h.pc (h.x1 ins) ins
    unfold TrapFile.exec
    rw [hins]
    dsimp only
    rw [← hins, hwritten]
    rw [hwritten] at hbits
    cases hwrites : op.writes source with
    | false =>
      rw [hwrites] at hwe
      rw [Csr.step, hwe, DecodedOp.jump, jumpComb_plain _ _ hsys, Traced.trap_update_idle]
      exact hr.trap
    | true =>
      rw [hwrites] at hwe hbits
      have hnew := (file_write hmem p.arch.trap
        (op.eval (h.trap.read n) (TrapFile.operand op source (h.x1 ins)))).2 (by
          rintro rfl
          simpa using hbits)
      rw [hr.trap] at hnew hout
      rw [Csr.step, hwe, Csr.csrOut, hout, hinput]
      exact hnew
  · refine (congrArg bytesOf (step_mem ?_)).trans hr.mem
    rw [ProgramState.op, hr.op hw]
    exact hstore

/-- Whatever the instruction. -/
theorem Refines.performs (hin : h.InOrder ins) : p.Performs c imem h ins := by
  have hmtvec : p.arch.trap.mtvec ++ 0#2 = h.trap.mtvec := congrArg TrapFile.mtvec hr.trap
  have hmepc : p.arch.trap.mepc ++ 0#2 = h.trap.mepc := congrArg TrapFile.mepc hr.trap
  cases hi : ins with
  | fence => exact hi ▸ hr.performs_fence hw hi
  | csr => exact hi ▸ hr.performs_csr hw hi hin
  | ecall =>
    subst hi
    refine hr.performs_priv hw decoded_ecall rfl rfl rfl fun alu => ?_
    obtain ⟨hjump, hdest, hfile⟩ := @jumpComb_enter _ false _ alu p.arch.trap _
      (@decoded_ecall {} h.pc) (.inl rfl)
    exact ⟨hjump, hdest.trans hmtvec, hfile.trans (by rw [hr.trap]; rfl)⟩
  | ebreak =>
    subst hi
    refine hr.performs_priv hw decoded_ebreak rfl rfl rfl fun alu => ?_
    obtain ⟨hjump, hdest, hfile⟩ := @jumpComb_enter _ false _ alu p.arch.trap _
      (@decoded_ebreak {} h.pc) (.inr ⟨rfl, rfl⟩)
    exact ⟨hjump, hdest.trans hmtvec, hfile.trans (by rw [hr.trap]; rfl)⟩
  | mret =>
    subst hi
    refine hr.performs_priv hw decoded_mret rfl rfl rfl fun alu => ?_
    obtain ⟨hjump, hdest, hfile⟩ := jumpComb_leave alu p.arch.trap
      (@decoded_mret {} h.pc) false false
    refine ⟨hjump, hdest.trans hmepc, hfile.trans ?_⟩
    -- a return with MPIE set leaves it set
    have hmpie : h.trap.mpie = true := hin.2
    have hmie : p.arch.trap.mpie = h.trap.mpie := congrArg TrapFile.mpie hr.trap
    show _ = h.trap.leave
    rw [hr.trap, hmie, TrapFile.leave, ← hmpie]
  | _ => exact hi ▸ hr.performs_computes hw (by rw [hi]; rfl) hin.1

end Step

section Run

/-- The instruction bus has the word at the hart's program counter, and the instruction that it
encodes is in order. -/
structure Proceeds (imem : Word → Word) (h : Hart) : Prop where
  word : imem h.pc = h.word
  orderly : h.Orderly

instance : Decidable (Proceeds imem h) :=
  decidable_of_iff (imem h.pc = h.word ∧ h.Orderly) ⟨fun h => ⟨h.1, h.2⟩, fun h => ⟨h.1, h.2⟩⟩

theorem Refines.step (hr : p.Refines h) (hp : Proceeds imem h) :
    (p.step c imem).Refines h.next ∧ (p.write c imem).toList = h.wrote := by
  obtain ⟨ins, hi, hin⟩ := hp.orderly
  have hw : imem h.pc = ins.encode := hp.word.trans (Instr.encode_of_decode hi).symm
  have hperforms : p.Performs c imem h ins := hr.performs hw hin
  refine ⟨?_, ?_⟩
  · rw [Hart.next, hi]
    exact hperforms.refines hr
  · rw [Hart.wrote, hi, hperforms.write]
    rfl

theorem Refines.after (hr : p.Refines h) {n : ℕ} (hp : ∀ k < n, Proceeds imem (h.after k)) :
    (p.after c imem n).Refines (h.after n) := by
  induction n with
  | zero => exact hr
  | succ n ih =>
    exact ((ih fun k hk => hp k (hk.trans n.lt_succ_self)).step (hp n n.lt_succ_self)).1

/-- Two logs of what is the same in every step. -/
theorem log_eq {α : Type*} {observe : ProgramState → List α} {observe' : Hart → List α} {n : ℕ}
    (heq : ∀ k < n, observe (p.after c imem k) = observe' (h.after k)) :
    p.log c imem observe n = h.log observe' n := by
  induction n with
  | zero => rfl
  | succ n ih =>
    rw [log, Hart.log, heq n n.lt_succ_self, ih fun k hk => heq k (hk.trans n.lt_succ_self)]

theorem Refines.log_visited (hr : p.Refines h) {n : ℕ}
    (hp : ∀ k < n, Proceeds imem (h.after k)) :
    p.log c imem (visited imem) n = h.log Hart.visited n := by
  refine log_eq fun k hk => ?_
  have hk' := hr.after (c := c) fun j hj => hp j (hj.trans hk)
  rw [visited, Hart.visited, hk'.pc, (hp k hk).word]

theorem Refines.log_wrote (hr : p.Refines h) {n : ℕ} (hp : ∀ k < n, Proceeds imem (h.after k)) :
    p.log c imem (fun p => (p.write c imem).toList) n = h.log Hart.wrote n :=
  log_eq fun k hk => ((hr.after fun j hj => hp j (hj.trans hk)).step (hp k hk)).2

end Run

end ProgramState

section Decoding
variable {ins : Instr} {pc x1 x2 : Word}

theorem noAccess_of_class {d : DecodedOp} {word next : Word} {cls : OpClass}
    (h : opClass word = some cls) (hl : cls ≠ .load) (hs : cls ≠ .store) :
    (d.decodeWord word pc next).loadCmd = false ∧ (d.decodeWord word pc next).storeCmd = false := by
  rw [DecodedOp.decodeWord, h]
  cases cls with
  | load => exact absurd rfl hl
  | store => exact absurd rfl hs
  | system =>
    by_cases hpriv : word.extractLsb' 12 3 = Funct3.PRIV
    · simp [DecodedOp.decodeSystem, DecodedOp.base, hpriv]
    · cases h14 : word[14] <;> simp [DecodedOp.decodeSystem, DecodedOp.base, hpriv, h14]
  | _ => exact ⟨rfl, rfl⟩

/-- Decode asks the load/store unit only for the access of the instruction. -/
theorem access_of_decoded {d : DecodedOp} (x1 x2 : Word)
    (hmem : ((ins.decoded d pc).loadCmd || (ins.decoded d pc).storeCmd) = true) :
    ∃ a, (ins.effect pc x1 x2).access = some a := by
  have hplain (hl : ins.opClass ≠ .load) (hs : ins.opClass ≠ .store) :
      ∃ a, (ins.effect pc x1 x2).access = some a := by
    obtain ⟨hload, hstore⟩ :=
      @noAccess_of_class pc d _ (pc + 4) _ (opClass_encode ins) hl hs
    rw [Instr.decoded, hload, hstore] at hmem
    exact absurd hmem Bool.false_ne_true
  cases ins with
  | load | store => exact ⟨_, rfl⟩
  | _ => exact hplain (fun h => OpClass.noConfusion h) fun h => OpClass.noConfusion h

/-- No instruction in order reads the cycle counter. -/
theorem readsCycle_inOrder {h : Hart} (hin : h.InOrder ins) (d : DecodedOp) :
    (ins.decoded d pc).readsCycle = false := by
  have hplain (hsys : ins.opClass ≠ .system) : (ins.decoded d pc).readsCycle = false := by
    rw [DecodedOp.readsCycle, (decoded_plain ins hsys).1]
    rfl
  cases hi : ins with
  | csr op rd source adr =>
    subst hi
    obtain ⟨n, hn⟩ := Option.isSome_iff_exists.1 hin.2.1
    obtain ⟨rfl, hmem⟩ := named_cases hn
    have hcsr := @decoded_csr d pc op rd source n.address 0
    have hread : (((Instr.csr op rd source n.address).decoded d pc).csrInput true 0).readsCycle =
        false := by
      have hrw : n.address.extractLsb' 10 2 ≠ 0b10#2 := by
        revert hmem
        cases n <;> decide
      simp [CsrInput.readsCycle, CsrInput.rw, DecodedOp.csrInput, hcsr.adr, hrw]
    rw [DecodedOp.readsCycle, hread, Bool.and_false]
  | ecall => rw [DecodedOp.readsCycle, decoded_ecall.csr]; rfl
  | ebreak => rw [DecodedOp.readsCycle, decoded_ebreak.csr]; rfl
  | mret => rw [DecodedOp.readsCycle, decoded_mret.csr]; rfl
  | _ => exact hi ▸ hplain (by rw [hi]; exact fun hcls => OpClass.noConfusion hcls)

end Decoding

namespace Executed
variable (c : CoreConfig) (imem : Word → Word) (s : Executed) (i : CoreInput)

/-- What the two buses do, whatever the program is: those of `Lawful` and `Regular`. -/
structure Served : Prop where
  ibus : s.followed.Serves c imem i
  emptied : s.followed.Emptied i
  owes : s.followed.Owes c i
  dbus : AnswersAccepted s.traced.owes s.traced.backend.execute.ls.request i.dbus
  noError : i.dbus.error = false
  data : i.dbus.ack = true → ∀ m ∈ s.current i, m.we = 0 →
    i.dbus.dbRd = s.mem (m.adr.extractLsb' 2 30)

instance : Decidable (s.Served c imem i) :=
  decidable_of_iff (_ ∧ _ ∧ _ ∧ _ ∧ _ ∧ (_ → ∀ m ∈ s.current i, m.we = 0 →
      i.dbus.dbRd = s.mem (m.adr.extractLsb' 2 30)))
    ⟨fun h => ⟨h.1, h.2.1, h.2.2.1, h.2.2.2.1, h.2.2.2.2.1, h.2.2.2.2.2⟩,
      fun h => ⟨h.ibus, h.emptied, h.owes, h.dbus, h.noError, h.data⟩⟩

variable {c imem s i} {p : ProgramState} {h : Hart}

section Taken
variable (hc : Execute.Qualified c) (hinv : s.Inv c imem p) (hok : s.Served c imem i)
  (hr : (p.after c imem s.words.length).Refines h) (hp : ProgramState.Proceeds imem h)
  (ht : s.taken c i = true)
include hc hinv hok hr hp ht

/-- What Execute takes is the instruction of the hart, with its operands. -/
theorem Inv.taken_instr : ∃ ins, h.InOrder ins ∧
    s.traced.backend.decode.op.Agrees (ins.decoded {} h.pc) ∧
    s.traced.backend.decode.op.SameOperands (s.traced.backend.op1 c) (s.traced.backend.op2 c)
      ((ins.decoded {} h.pc).op1 (h.x1 ins)) ((ins.decoded {} h.pc).op2 (h.x2 ins)) := by
  obtain ⟨ins, hi, hin⟩ := hp.orderly
  have hw : imem h.pc = ins.encode := hp.word.trans (Instr.encode_of_decode hi).symm
  obtain ⟨hf, -⟩ := hinv.taken_eq hc hok.ibus hok.emptied ht
  have ht' : s.traced.backend.taken c (s.input i) = true := by
    rw [hinv.linked.backend]
    exact ht
  obtain ⟨a, hphase, hfollows⟩ := hinv.phase
  obtain rfl := hphase.none_of_taken hc ht'
  have hag := (hphase.decode_of_taken ht').agrees (c := c)
  have hops := Traced.operand_exact hphase rfl ht'
  rw [hf, hr.op hw] at hag
  rw [hf, hfollows.1.arch, hr.op1 hw, hr.op2 hw] at hops
  exact ⟨ins, hin, hag, hops⟩

theorem Inv.legal_taken : Traced.LegalAccess c s.traced.backend := by
  obtain ⟨ins, hin, hag, hops⟩ := hinv.taken_instr hc hok hr hp ht
  obtain ⟨-, hload, hstore, -⟩ := hag.classes
  have hasks (hmem : (s.traced.backend.decode.op.loadCmd ||
      s.traced.backend.decode.op.storeCmd) = true) :
      ∃ a : Access, a.Aligned ∧ a.Asks ((ins.decoded {} h.pc).ls
        ((ins.decoded {} h.pc).op1 (h.x1 ins)) ((ins.decoded {} h.pc).op2 (h.x2 ins))) := by
    rw [hload, hstore] at hmem
    obtain ⟨a, ha⟩ := access_of_decoded (h.x1 ins) (h.x2 ins) hmem
    exact ⟨a, hin.1.1 a ha, (decoded_access ins ha).2⟩
  have hfunct3 : s.traced.backend.decode.op.funct3 = ((ins.decoded {} h.pc).ls
      ((ins.decoded {} h.pc).op1 (h.x1 ins)) ((ins.decoded {} h.pc).op2 (h.x2 ins))).funct3 :=
    hag.functs.1
  constructor
  · intro hl
    obtain ⟨a, -, hasks⟩ := hasks (by rw [hl, Bool.true_or])
    have hst : (ins.decoded {} h.pc).storeCmd = false :=
      ((DecodedOp.decodeWord_wellFormed _ _ _ _).load (hload.symm.trans hl)).1
    cases a with
    | load kind adr =>
      rw [hfunct3, hasks.2.1]
      cases kind <;> decide
    | store => exact absurd (hst.symm.trans hasks.1) Bool.false_ne_true
  · intro hs
    obtain ⟨a, -, hasks⟩ := hasks (by rw [hs, Bool.or_true])
    cases a with
    | load => exact absurd (hasks.1.symm.trans (hstore.symm.trans hs)) Bool.false_ne_true
    | store kind adr data =>
      rw [hfunct3, hasks.2.1]
      cases kind <;> decide
  · intro hmem
    obtain ⟨a, hal, hasks⟩ := hasks hmem
    obtain ⟨-, hf3, hadr, -⟩ := hag.ls_eq hops hmem
    rw [LsInput.misalign, LsInput.hwordMode, LsInput.wordMode, hf3, hadr]
    exact (hasks.legal hal).1

theorem Inv.cycle_taken : s.core.backend.decode.op.readsCycle = false := by
  obtain ⟨ins, hin, hag, -⟩ := hinv.taken_instr hc hok hr hp ht
  rw [← hinv.linked.backend, hag.readsCycle_eq]
  exact readsCycle_inOrder hin {}

end Taken

/-- With such buses a hart that proceeds is all that the run needs. -/
theorem Inv.lawful (hc : Execute.Qualified c) (hinv : s.Inv c imem p) (hok : s.Served c imem i)
    (hp : s.taken c i = true → ∃ h, (p.after c imem s.words.length).Refines h ∧
      ProgramState.Proceeds imem h) : s.Lawful c imem i ∧ s.Regular c i := by
  refine ⟨⟨hok.ibus, ⟨rfl, hok.dbus, hok.noError, fun ht => ?_⟩, hok.data⟩,
    ⟨hok.emptied, hok.owes, fun ht => ?_⟩⟩
  · have ht : s.taken c i = true := by
      rw [hinv.linked.backend] at ht
      exact ht
    obtain ⟨h, hr, hp⟩ := hp ht
    exact hinv.legal_taken hc hok hr hp ht
  · obtain ⟨h, hr, hp⟩ := hp ht
    exact hinv.cycle_taken hc hok hr hp ht

theorem words_step : (s.step c i).words.length =
    s.words.length + if s.taken c i then 1 else 0 := by
  cases ht : s.taken c i with
  | true =>
    have htakes : s.followed.takes c i = true := ht
    have htaken : (s.step c i).followed.taken = _ := if_pos htakes
    rw [words, htaken, List.map_cons, List.length_cons]
    rfl
  | false => rw [(step_words ht).2, if_neg Bool.false_ne_true, Nat.add_zero]

section Run

/-- The hart after a reset. -/
def hart (c : CoreConfig) (mem : BitVec 30 → Word) : Hart :=
  { pc := c.resetAddress, mem := bytesOf mem }

/-- The core takes the words of the hart's instructions and writes what they write, with at most
two register writes and one access to come; when nothing is in progress it is where the hart
is. -/
structure FollowsHart (c : CoreConfig) (h : Hart) (s : Executed) : Prop where
  words : s.words = h.log Hart.visited s.words.length
  writes : ∃ late, late.length ≤ 2 ∧ h.log Hart.wrote s.words.length = late ++ s.traced.writes
  mem : ∃ n, n ≤ s.words.length ∧ s.words.length ≤ n + 1 ∧ bytesOf s.mem = (h.after n).mem
  settled : s.Settled c →
    s.core.backend.regfile.registers = (h.after s.words.length).regs ∧
      s.core.backend.execute.csr.trap.file = (h.after s.words.length).trap ∧
      bytesOf s.mem = (h.after s.words.length).mem

theorem Inv.mem_reached (hinv : s.Inv c imem p) :
    ∃ n, n ≤ s.words.length ∧ s.words.length ≤ n + 1 ∧ s.mem = (p.after c imem n).mem := by
  obtain ⟨a, -, hfollows⟩ := hinv.phase
  cases a with
  | access l =>
    obtain ⟨n, t, ts, hcount, -, -, hreach, -⟩ := hfollows
    exact ⟨n, by omega, by omega, hreach.mem⟩
  | _ => exact ⟨_, le_rfl, Nat.le_succ _, hfollows.1.mem⟩

theorem Inv.followsHart (hc : Execute.Qualified c) (hinv : s.Inv c imem p) (hr : p.Refines h)
    (hp : ∀ k < s.words.length, ProgramState.Proceeds imem (h.after k)) :
    s.FollowsHart c h := by
  obtain ⟨hwords, hwrites, -, hsettled⟩ := hinv.followsProgram hc
  have hend : (p.after c imem s.words.length).Refines (h.after s.words.length) := hr.after hp
  constructor
  · rw [← hr.log_visited (c := c) hp]
    exact hwords
  · rw [← hr.log_wrote (c := c) hp]
    exact hwrites
  · obtain ⟨n, hn, hlen, hmem⟩ := hinv.mem_reached
    refine ⟨n, hn, hlen, ?_⟩
    rw [hmem]
    exact (hr.after fun k hk => hp k (hk.trans_le hn)).mem
  · intro hs
    obtain ⟨hregs, htrap, hmem⟩ := hsettled hs
    rw [hregs, htrap, hmem]
    exact ⟨hend.regs, hend.trap, hend.mem⟩

/-- A hart that proceeds for as many instructions as there are words taken makes the run of the
core, on any buses, a run of the hart; and a word is taken at least every eleven cycles in which
no bus makes the core wait. -/
theorem runs_hart (c : CoreConfig) (hregistered : c.registeredReadStage = true)
    (hshifter : c.shifterMode ≠ .behavioral) (imem : Word → Word) (mem : BitVec 30 → Word)
    (is : List CoreInput) (hbus : (machine c mem).Along (Served c imem) (init c mem) is)
    (hp : ∀ k < ((machine c mem).run is).words.length,
      ProgramState.Proceeds imem ((hart c mem).after k)) :
    ((machine c mem).run is).FollowsHart c (hart c mem) ∧
      ((machine c mem).labels (fun s i => !s.waits c i) (init c mem) is).count true ≤
        11 * (((machine c mem).run is).words.length + 1) := by
  have hc : Execute.Qualified c := ⟨hregistered, hshifter⟩
  have hr : ProgramState.Refines { pc := c.resetAddress, mem := mem } (hart c mem) :=
    ⟨rfl, rfl, show TrapCsr.file {} = {} by decide, rfl⟩
  obtain ⟨halong, hinv⟩ : (machine c mem).Along (fun s i => s.Lawful c imem i ∧ s.Regular c i)
        (init c mem) is ∧ ((machine c mem).run is).Inv c imem _ := by
    refine hbus.mono_below (Inv c imem { pc := c.resetAddress, mem := mem })
      (fun s => s.words.length) (fun s i => ?_) (fun s i hinv hok hle => ?_) (inv_init mem) le_rfl
    · show s.words.length ≤ (s.step c i).words.length
      rw [words_step]
      exact Nat.le_add_right _ _
    · have hlaw := hinv.lawful hc hok fun ht => by
        have hlt : s.words.length < ((machine c mem).run is).words.length := by
          have hle : (s.step c i).words.length ≤ _ := hle
          rw [words_step, ht, if_pos rfl] at hle
          exact hle
        exact ⟨_, hr.after fun k hk => hp k (hk.trans hlt), hp _ hlt⟩
      exact ⟨hlaw, hinv.step hc hlaw.1 hlaw.2⟩
  refine ⟨hinv.followsHart hc hr hp, ?_⟩
  have hlaw : (machine c mem).Along (Lawful c imem) (init c mem) is :=
    halong.mono (fun _ => True) (fun _ _ _ _ => trivial) (fun _ _ _ hok => hok.1) trivial
  have hregular : (machine c mem).Along (Regular c) (init c mem) is :=
    halong.mono (fun _ => True) (fun _ _ _ _ => trivial) (fun _ _ _ hok => hok.2) trivial
  exact (follows_run hc mem hlaw hregular).2

/-- `addi x1, x0, 64`, `sw x1, 0(x1)`, `lw x2, 0(x1)` and `nop`. -/
def storeLoad (a : Word) : Word :=
  if a = 0 then 0x04000093 else if a = 4 then 0x0010a023 else if a = 8 then 0x0000a103 else 0x13

/-- The store and the load are each answered one cycle after the bus has taken them. -/
def storeLoadRun : List CoreInput :=
  let word (w : Word) : CoreInput := { ibus := { ack := true, dbRd := w } }
  let data (w : Word) : CoreInput := { dbus := { ack := true, dbRd := w } }
  [{}, {}, word 0x04000093, word 0x0010a023, word 0x0000a103, word 0x13, word 0x13, data 0x13, {},
    {}, {}, data 64, {}]

theorem runs_hart_load :
    let s := (machine {} fun a => storeLoad (a ++ 0#2)).run storeLoadRun
    s.FollowsHart {} (hart {} fun a => storeLoad (a ++ 0#2)) ∧
      s.traced.writes = [(2, 64), (1, 64)] :=
  ⟨(runs_hart {} rfl (by decide) storeLoad _ storeLoadRun (by decide +kernel)
    (by decide +kernel)).1, by decide +kernel⟩

end Run

end Executed
end BonfireCore
