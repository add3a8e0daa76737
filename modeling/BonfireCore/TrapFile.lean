import BonfireCore.CsrFile
import BonfireCore.IllegalWords
import BonfireCore.Retirement

/-! The machine-mode trap state as the privileged specification has it, and Execute against it
over every sequence of instructions. -/
namespace BonfireCore

open Rv32i (Instr CsrOp)

/-- The trap CSRs, as a program reads them. -/
structure TrapFile where
  mie : Bool := false
  mpie : Bool := false
  mtvec : Word := 0
  mscratch : Word := 0
  mepc : Word := 0
  mcause : Word := 0
  mtval : Word := 0
  deriving DecidableEq, Repr

namespace TrapFile

def names : List CsrName := [.mstatus, .mtvec, .mscratch, .mepc, .mcause, .mtval]

/-- The trap CSR at an address. -/
def named (adr : BitVec 12) : Option CsrName := names.find? fun n => n.address = adr

variable (t : TrapFile)

def read : CsrName → Word
  | .mstatus =>
    (BitVec.ofBool t.mpie).setWidth 32 <<< 7 ||| (BitVec.ofBool t.mie).setWidth 32 <<< 3 ||| 0x1800
  | .mtvec => t.mtvec
  | .mscratch => t.mscratch
  | .mepc => t.mepc
  | .mcause => t.mcause
  | .mtval => t.mtval
  | _ => 0

/-- The bits that are implemented: of `mcause` the interrupt bit and six bits of the code. -/
def write (n : CsrName) (new : Word) : TrapFile :=
  match n with
  | .mstatus => { t with mie := new.getLsbD 3, mpie := new.getLsbD 7 }
  | .mtvec => { t with mtvec := new &&& 0xfffffffc }
  | .mscratch => { t with mscratch := new }
  | .mepc => { t with mepc := new &&& 0xfffffffc }
  | .mcause => { t with mcause := new &&& 0x8000003f }
  | .mtval => { t with mtval := new }
  | _ => t

/-- A trap entry; an instruction's address has its low bits clear. -/
def enter (pc cause : Word) : TrapFile :=
  { t with mepc := pc &&& 0xfffffffc, mcause := cause, mpie := t.mie, mie := false }

def leave : TrapFile := { t with mie := t.mpie, mpie := true }

/-- The second operand of a CSR instruction: a register's value, or five bits of the word. -/
def operand (op : CsrOp) (source : Rv32i.Reg) (x1 : Word) : Word :=
  match op with
  | .rw | .rs | .rc => x1
  | .rwi | .rsi | .rci => source.setWidth 32

/-- The trap CSR an instruction writes, and with what. -/
def written (x1 : Word) : Instr → Option (CsrName × Word)
  | .csr op _ source adr =>
    match named adr with
    | some n =>
      if op.writes source then some (n, op.eval (t.read n) (operand op source x1)) else none
    | none => none
  | _ => none

def exec (pc x1 : Word) (ins : Instr) : TrapFile :=
  match ins with
  | .ecall => t.enter pc 11
  | .ebreak => t.enter pc 3
  | .mret => t.leave
  | _ =>
    match t.written x1 ins with
    | some (n, new) => t.write n new
    | none => t

/-- Where a trap or a return goes. -/
def target : Instr → Option Word
  | .ecall | .ebreak => some t.mtvec
  | .mret => some t.mepc
  | _ => none

theorem plain (pc x1 : Word) {ins : Instr} (h : ins.opClass ≠ .system) :
    t.exec pc x1 ins = t ∧ t.target ins = none ∧ t.written x1 ins = none := by
  cases ins <;> first | exact ⟨rfl, rfl, rfl⟩ | exact absurd rfl h

end TrapFile

/-- The trap CSRs of the core, as `csr_read` shows them. -/
def TrapCsr.file (t : TrapCsr) : TrapFile where
  mie := t.mie
  mpie := t.mpie
  mtvec := t.mtvec ++ 0#2
  mscratch := t.mscratch
  mepc := t.mepc ++ 0#2
  mcause := t.mcause.setWidth 32
  mtval := t.mtval

/-- An instruction as Execute is offered it, after any earlier one, with the cycle's other
inputs. -/
structure Offered where
  ins : Instr
  pc : Word
  x1 : Word := 0
  x2 : Word := 0
  valid : Bool := true
  previous : DecodedOp := {}
  hazard : Bool := false
  dbus : DbusResponse 32 := {}
  debugCsr : Option DebugCsr := none
  deriving DecidableEq, Repr

namespace Offered
variable (o : Offered)

def op : DecodedOp := o.ins.decoded o.previous o.pc

def input : ExecuteInput where
  valid := o.valid
  op := o.op
  op1 := o.op.op1 o.x1
  op2 := o.op.op2 o.x2
  hazard := o.hazard
  dbus := o.dbus
  debugCsr := o.debugCsr

/-- An EBREAK does not enter debug mode. -/
def Traps : Prop := o.ins = .ebreak → o.debugCsr.any (·.ebreakm) = false

instance : Decidable o.Traps := inferInstanceAs (Decidable (_ → _))

end Offered

namespace Execute
variable (c : CoreConfig) (s : Execute) (o : Offered)

def trapMachine : Clocked Execute Offered where
  init := {}
  step s o := s.step c o.input

/-- The cycle does to the trap CSRs what the instruction that is taken does, a trap or return
goes where it has to, and a CSR instruction reads what the CSR holds. -/
structure KeepsTrapFile : Prop where
  state : (s.step c o.input).csr.trap.file =
    if s.taken c o.input then s.csr.trap.file.exec o.pc o.x1 o.ins else s.csr.trap.file
  jump : s.taken c o.input = true → ∀ t, s.csr.trap.file.target o.ins = some t →
    (s.jumpOut c o.input).jump = true ∧ (s.jumpOut c o.input).jumpDest = t
  read : s.taken c o.input = true → ∀ op rd source adr n, o.ins = .csr op rd source adr →
    TrapFile.named adr = some n →
    (s.csrOutput c o.input).valid = true ∧
      (s.csrOutput c o.input).result = s.csr.trap.file.read n

/-- What the CSR file does otherwise: a return with MPIE clear, and an interrupt bit in
`mcause`. -/
def Diverts : Prop :=
  s.taken c o.input = true ∧
    (o.ins = .mret ∧ s.csr.trap.mpie = false ∨
      ∃ new, s.csr.trap.file.written o.x1 o.ins = some (.mcause, new) ∧ new.getLsbD 31 = true)

end Execute

section Decoding
variable {d : DecodedOp} {pc : Word}

/-- No instruction but these asks the CSR unit or raises a trap. -/
theorem decoded_plain (ins : Instr) (h : ins.opClass ≠ .system) :
    (ins.decoded d pc).csrCmd = false ∧ (ins.decoded d pc).sysCmd = false := by
  have hcls := opClass_encode ins
  rw [Instr.decoded]
  unfold DecodedOp.decodeWord
  rw [hcls]
  cases hc : ins.opClass <;> first | exact absurd hc h | exact ⟨rfl, rfl⟩

/-- ECALL, EBREAK and MRET. -/
structure IsPriv (op : DecodedOp) (pc : Word) (f12 : BitVec 12) : Prop where
  branch : op.branchCmd = false
  jump : op.jumpCmd = false ∧ op.jumprCmd = false
  csr : op.csrCmd = false
  sys : op.sysCmd = true
  f12 : op.privFunct12 = f12
  mepc : op.mepc = pc

theorem decoded_priv (word : Word) (hcls : opClass word = some .system)
    (h3 : word.extractLsb' 12 3 = 0#3) :
    IsPriv (d.decodeWord word pc (pc + 4)) pc (word.extractLsb' 20 12) := by
  unfold DecodedOp.decodeWord
  rw [hcls]
  constructor <;> simp [DecodedOp.decodeSystem, DecodedOp.base, h3, Funct3.PRIV]

theorem decoded_ecall : IsPriv (Instr.ecall.decoded d pc) pc PrivFunct12.ECALL :=
  decoded_priv _ (opClass_encode .ecall) (by decide)

theorem decoded_ebreak : IsPriv (Instr.ebreak.decoded d pc) pc PrivFunct12.EBREAK :=
  decoded_priv _ (opClass_encode .ebreak) (by decide)

theorem decoded_mret : IsPriv (Instr.mret.decoded d pc) pc PrivFunct12.ERET :=
  decoded_priv _ (opClass_encode .mret) (by decide)

/-- What a CSR instruction asks of the CSR unit. -/
structure IsCsr (op : DecodedOp) (cop : CsrOp) (source : Rv32i.Reg) (adr : BitVec 12)
    (x1 : Word) : Prop where
  sys : op.sysCmd = false
  csr : op.csrCmd = true
  funct3 : op.funct3 = cop.funct3
  adr : op.privFunct12 = adr
  sourceRs1 : op.sourceRs1 = source
  operand : op.op1 x1 = TrapFile.operand cop source x1

theorem decoded_csr (cop : CsrOp) (rd source : Rv32i.Reg) (adr : BitVec 12) (x1 : Word) :
    IsCsr ((Instr.csr cop rd source adr).decoded d pc) cop source adr x1 := by
  have hcls := opClass_encode (.csr cop rd source adr)
  obtain ⟨-, hrd, h3, h15, h20⟩ := Rv32i.iType_fields 0b1110011 rd source cop.funct3 adr
  have hword : (Instr.csr cop rd source adr).encode =
    Rv32i.iType 0b1110011 rd cop.funct3 source adr := rfl
  rw [hword] at hcls
  rw [Instr.decoded, hword]
  clear hword
  generalize Rv32i.iType 0b1110011 rd cop.funct3 source adr = word at *
  have h14 : word.getLsbD 14 = cop.funct3.getLsbD 2 := by
    rw [← h3]
    simp
  have hpriv : cop.funct3 ≠ Funct3.PRIV := by cases cop <;> decide
  unfold DecodedOp.decodeWord
  rw [hcls]
  simp only [Instr.opClass, DecodedOp.decodeSystem, DecodedOp.base, h3, h15, h20, h14, hpriv,
    if_false]
  cases cop <;> exact ⟨rfl, rfl, rfl, rfl, rfl, rfl⟩

end Decoding

section Csrs

theorem named_cases {adr : BitVec 12} {n : CsrName} (h : TrapFile.named adr = some n) :
    adr = n.address ∧ n ∈ TrapFile.names := by
  have hn := List.find?_some h
  exact ⟨(of_decide_eq_true hn).symm, List.mem_of_find?_eq_some h⟩

theorem ofAddress_named {n : CsrName} (h : n ∈ TrapFile.names) (debug : Bool) :
    CsrName.ofAddress debug n.address = some n := by
  revert debug
  revert n
  decide

theorem append_clear (new : Word) : new.extractLsb' 2 30 ++ 0#2 = new &&& 0xfffffffc := by
  have hstore := CsrUnit.store_aligned new (n := .mepc) rfl 0
  simpa [CsrName.store, CsrName.writable] using hstore

theorem cause_bits (new : Word) :
    (new.setWidth 6).setWidth 32 = new &&& 0x8000003f ↔ new.getLsbD 31 = false := by
  constructor
  · intro h
    have h31 := congrArg (·.getLsbD 31) h
    simpa using h31.symm
  · intro h
    apply BitVec.eq_of_getLsbD_eq
    intro k hk
    interval_cases k <;> simp_all

/-- `csr_write` is the write of the file, but for the interrupt bit. -/
theorem file_write {n : CsrName} (h : n ∈ TrapFile.names) (t : TrapCsr) (new : Word) :
    (t.write (n.address.extractLsb' 0 8) new).file = t.file.write n new ↔
      (n = .mcause → new.getLsbD 31 = false) := by
  cases n <;> try exact absurd h (by decide)
  case mcause =>
    have hw : (t.write (CsrName.mcause.address.extractLsb' 0 8) new).file =
        { t.file with mcause := (new.setWidth 6).setWidth 32 } := rfl
    rw [hw]
    simp only [TrapFile.write, TrapFile.mk.injEq, true_and, and_true, forall_const]
    exact cause_bits new
  case mtvec =>
    have hw : (t.write (CsrName.mtvec.address.extractLsb' 0 8) new).file =
        { t.file with mtvec := new.extractLsb' 2 30 ++ 0#2 } := rfl
    simp [hw, TrapFile.write, append_clear]
  case mepc =>
    have hw : (t.write (CsrName.mepc.address.extractLsb' 0 8) new).file =
        { t.file with mepc := new.extractLsb' 2 30 ++ 0#2 } := rfl
    simp [hw, TrapFile.write, append_clear]
  case mstatus =>
    have hw : (t.write (CsrName.mstatus.address.extractLsb' 0 8) new).file =
        t.file.write .mstatus new := rfl
    simp [hw]
  case mscratch =>
    have hw : (t.write (CsrName.mscratch.address.extractLsb' 0 8) new).file =
        t.file.write .mscratch new := rfl
    simp [hw]
  case mtval =>
    have hw : (t.write (CsrName.mtval.address.extractLsb' 0 8) new).file =
        t.file.write .mtval new := rfl
    simp [hw]

/-- The registers of other groups that share a decoder with the trap CSRs. -/
theorem csrWe_group {c : CoreConfig} {s : Csr} {debug : Option DebugCsr} {i : CsrInput}
    (h : (s.select c debug i).csrWe = true) :
    i.priv = 0b11#2 ∧ (i.rw = 0b00#2 ∨ i.reg = CsrAdr.dcsr ∨ i.reg = CsrAdr.dpc) := by
  have hdebug (hd : (Csr.select.readDebug debug i).csrWe = true) :
      i.reg = CsrAdr.dcsr ∨ i.reg = CsrAdr.dpc := by
    by_contra hne
    obtain ⟨hdcsr, hdpc⟩ := not_or.1 hne
    have hread : debug.bind (·.read i.reg) = none := by
      cases debug with
      | none => rfl
      | some d => simp [DebugCsr.read, hdcsr, hdpc]
    simp [Csr.select.readDebug, hread] at hd
  unfold Csr.select at h
  by_cases h3 : i.priv = 0b11#2
  · refine ⟨h3, ?_⟩
    by_cases h00 : i.rw = 0b00#2
    · exact .inl h00
    · right
      rw [if_pos h3, if_neg h00] at h
      split_ifs at h
      exact hdebug h
  · rw [if_neg h3] at h
    simp at h

/-- A write elsewhere changes no trap CSR. -/
theorem write_other {c : CoreConfig} {s : Csr} {debug : Option DebugCsr} {i : CsrInput}
    (h : (s.select c debug i).csrWe = true) (hn : TrapFile.named i.csrAdr = none) (data : Word) :
    s.trap.write i.reg data = s.trap := by
  obtain ⟨hpriv, hgroup⟩ := csrWe_group h
  have hne (n : CsrName) (hmem : n ∈ TrapFile.names) (h3 : n.address.extractLsb' 8 4 = 0b0011#4)
      (hdebug : n.address.extractLsb' 0 8 ≠ CsrAdr.dcsr ∧ n.address.extractLsb' 0 8 ≠ CsrAdr.dpc) :
      i.reg ≠ n.address.extractLsb' 0 8 := by
    intro hreg
    rcases hgroup with hrw | hd | hd
    · have hadr := List.find?_eq_none.1 hn n hmem
      apply hadr
      rw [decide_eq_true_eq, ← split_address i.csrAdr, ← split_address n.address]
      have hgroup' : n.address.extractLsb' 10 2 = 0b00#2 ∧ n.address.extractLsb' 8 2 = 0b11#2 := by
        revert h3
        cases n <;> decide
      exact congrArg₂ _ (congrArg₂ _ (hgroup'.1.trans hrw.symm) (hgroup'.2.trans hpriv.symm))
        hreg.symm
    · exact hdebug.1 (hreg.symm.trans hd)
    · exact hdebug.2 (hreg.symm.trans hd)
  have htvec : i.reg ≠ CsrAdr.tvec := hne .mtvec (by decide) (by decide) (by decide)
  have hscratch : i.reg ≠ CsrAdr.scratch := hne .mscratch (by decide) (by decide) (by decide)
  have hcause : i.reg ≠ CsrAdr.cause := hne .mcause (by decide) (by decide) (by decide)
  have hepc : i.reg ≠ CsrAdr.epc := hne .mepc (by decide) (by decide) (by decide)
  have htval : i.reg ≠ CsrAdr.tval := hne .mtval (by decide) (by decide) (by decide)
  have hstatus : i.reg ≠ CsrAdr.status := hne .mstatus (by decide) (by decide) (by decide)
  simp only [TrapCsr.write, htvec, hscratch, hcause, hepc, htval, hstatus, if_false]

end Csrs

section Events
variable {op : DecodedOp} {ebreakm : Bool} {pc : Word} (alu : AluOutput) (t : TrapCsr)

theorem jumpComb_plain (h : op.sysCmd = false) (progbufActive : Bool) :
    (jumpComb op alu t ebreakm progbufActive).update = op.trapUpdate := by
  unfold jumpComb
  cases op.branchCmd with
  | true => cases branchTaken op.funct3 alu <;> simp
  | false =>
    cases op.jumpCmd with
    | true => simp
    | false => cases op.jumprCmd <;> simp [h]

/-- ECALL and EBREAK. -/
theorem jumpComb_enter {f12 : BitVec 12} (h : IsPriv op pc f12)
    (hf : f12 = PrivFunct12.ECALL ∨ f12 = PrivFunct12.EBREAK ∧ ebreakm = false) :
    let out := jumpComb op alu t ebreakm false
    out.jump = true ∧ out.jumpDest = t.mtvec ++ 0#2 ∧
      (t.update out.update).file =
        t.file.enter pc (if f12 = PrivFunct12.ECALL then 11 else 3) := by
  obtain ⟨hb, ⟨hj, hjr⟩, -, hsys, hf12, hmepc⟩ := h
  have hout : jumpComb op alu t ebreakm false =
      { jumpDest := t.mtvec ++ 0#2, jump := true,
        update := { op.trapUpdate with
          mstatusTrapEnter := true, weMcause := true, weMepc := true } } := by
    rcases hf with hf | ⟨hf, hm⟩ <;>
      simp [jumpComb, PrivFunct12.ECALL, PrivFunct12.EBREAK, *]
  rw [hout]
  refine ⟨rfl, rfl, ?_⟩
  rcases hf with rfl | ⟨rfl, -⟩ <;>
    simp [TrapCsr.file, TrapCsr.update, TrapFile.enter, DecodedOp.trapUpdate, hf12, hmepc,
      append_clear, PrivFunct12.ECALL, PrivFunct12.EBREAK]

/-- MRET leaves MPIE alone. -/
theorem jumpComb_leave (h : IsPriv op pc PrivFunct12.ERET) (ebreakm progbufActive : Bool) :
    let out := jumpComb op alu t ebreakm progbufActive
    out.jump = true ∧ out.jumpDest = t.mepc ++ 0#2 ∧
      (t.update out.update).file = { t.file with mie := t.mpie } := by
  obtain ⟨hb, ⟨hj, hjr⟩, -, hsys, hf12, hmepc⟩ := h
  have hout : jumpComb op alu t ebreakm progbufActive =
      { jumpDest := t.mepc ++ 0#2, jump := true,
        update := { op.trapUpdate with mstatusTrapExit := true } } := by
    simp [jumpComb, hb, hj, hjr, hsys, hf12, PrivFunct12.ECALL, PrivFunct12.EBREAK,
      PrivFunct12.ERET]
  rw [hout]
  exact ⟨rfl, rfl, by simp [TrapCsr.file, TrapCsr.update, DecodedOp.trapUpdate]⟩

end Events

namespace Execute
variable {c : CoreConfig} {s : Execute} {o : Offered}

theorem step_trap_of_not_csr (h : o.op.csrCmd = false) :
    (s.step c o.input).csr.trap = s.csr.trap.update (s.jumpOut c o.input).update :=
  Csr.step_trap_of_not_en
    (by simp [csrInput, DecodedOp.csrInput, show o.input.op.csrCmd = false from h]) _

theorem jumpOut_offered (ht : s.taken c o.input = true) :
    s.jumpOut c o.input =
      jumpComb o.op (s.aluOut c o.input) s.csr.trap (o.debugCsr.any (·.ebreakm)) false := by
  rw [jumpOut, if_pos ht]
  rfl

theorem keeps_plain (ht : s.taken c o.input = true) (h : o.ins.opClass ≠ .system) :
    s.KeepsTrapFile c o ↔ ¬ s.Diverts c o := by
  have hcmd : o.op.csrCmd = false ∧ o.op.sysCmd = false := decoded_plain o.ins h
  obtain ⟨hexec, htarget, hwritten⟩ := s.csr.trap.file.plain o.pc o.x1 h
  refine iff_of_true ⟨?_, ?_, ?_⟩ ?_
  · rw [if_pos ht, hexec, step_trap_of_not_csr hcmd.1, jumpOut_offered ht,
      jumpComb_plain _ _ hcmd.2, Traced.trap_update_idle]
  · intro _ t hgoes
    rw [htarget] at hgoes
    contradiction
  · intro _ op rd source adr n hi
    exact absurd (hi ▸ rfl) h
  · rintro ⟨-, ⟨hi, -⟩ | ⟨new, hw, -⟩⟩
    · exact absurd (hi ▸ rfl) h
    · rw [hwritten] at hw
      contradiction

theorem keeps_enter (ht : s.taken c o.input = true) (ho : o.Traps)
    (hi : o.ins = .ecall ∨ o.ins = .ebreak) : s.KeepsTrapFile c o ↔ ¬ s.Diverts c o := by
  obtain ⟨f12, hp, hf, hexec⟩ : ∃ f12, IsPriv o.op o.pc f12 ∧
      (f12 = PrivFunct12.ECALL ∨
        f12 = PrivFunct12.EBREAK ∧ o.debugCsr.any (·.ebreakm) = false) ∧
      ∀ t : TrapFile, t.exec o.pc o.x1 o.ins =
        t.enter o.pc (if f12 = PrivFunct12.ECALL then 11 else 3) := by
    rcases hi with hi | hi
    · refine ⟨PrivFunct12.ECALL, ?_, .inl rfl, fun t => by rw [hi]; rfl⟩
      rw [Offered.op, hi]
      exact decoded_ecall
    · refine ⟨PrivFunct12.EBREAK, ?_, .inr ⟨rfl, ho hi⟩, fun t => by rw [hi]; rfl⟩
      rw [Offered.op, hi]
      exact decoded_ebreak
  have htarget (t : TrapFile) : t.target o.ins = some t.mtvec := by
    rcases hi with hi | hi <;> rw [hi] <;> rfl
  obtain ⟨hjump, hdest, hfile⟩ := jumpComb_enter (s.aluOut c o.input) s.csr.trap hp hf
  rw [← jumpOut_offered ht] at hjump hdest hfile
  refine iff_of_true ⟨?_, ?_, ?_⟩ ?_
  · rw [if_pos ht, hexec, step_trap_of_not_csr hp.csr, hfile]
  · intro _ t hgoes
    rw [htarget] at hgoes
    exact ⟨hjump, hdest.trans (Option.some.inj hgoes)⟩
  · intro _ op rd source adr n hcsr
    rcases hi with hi | hi <;> exact absurd (hi.symm.trans hcsr) (by simp)
  · rintro ⟨-, ⟨hmret, -⟩ | ⟨new, hw, -⟩⟩
    · rcases hi with hi | hi <;> exact absurd (hi.symm.trans hmret) (by simp)
    · rcases hi with hi | hi <;> rw [hi] at hw <;> exact absurd hw (by simp [TrapFile.written])

theorem keeps_mret (ht : s.taken c o.input = true) (hi : o.ins = .mret) :
    s.KeepsTrapFile c o ↔ ¬ s.Diverts c o := by
  have hp : IsPriv o.op o.pc PrivFunct12.ERET := by
    rw [Offered.op, hi]
    exact decoded_mret
  obtain ⟨hjump, hdest, hfile⟩ := jumpComb_leave (s.aluOut c o.input) s.csr.trap hp
    (o.debugCsr.any (·.ebreakm)) false
  rw [← jumpOut_offered ht] at hjump hdest hfile
  have hleave : s.csr.trap.file.exec o.pc o.x1 o.ins = s.csr.trap.file.leave := by rw [hi]; rfl
  have hdiv : s.Diverts c o ↔ s.csr.trap.mpie = false := by
    constructor
    · rintro ⟨-, ⟨-, h⟩ | ⟨new, hw, -⟩⟩
      · exact h
      · rw [hi] at hw
        exact absurd hw (by simp [TrapFile.written])
    · exact fun h => ⟨ht, .inl ⟨hi, h⟩⟩
  have hstate : (s.step c o.input).csr.trap.file =
      { s.csr.trap.file with mie := s.csr.trap.mpie } := by
    rw [step_trap_of_not_csr hp.csr, hfile]
  rw [hdiv, Bool.not_eq_false]
  constructor
  · intro h
    have hs := h.state
    rw [if_pos ht, hleave, hstate] at hs
    exact congrArg TrapFile.mpie hs
  · intro hm
    refine ⟨?_, ?_, ?_⟩
    · rw [if_pos ht, hleave, hstate]
      simp [TrapFile.leave, TrapCsr.file, hm]
    · intro _ t hgoes
      rw [hi] at hgoes
      exact ⟨hjump, hdest.trans (Option.some.inj hgoes)⟩
    · intro _ op rd source adr n hcsr
      rw [hi] at hcsr
      contradiction

/-- A CSR instruction as the CSR unit sees it. -/
theorem csrInput_offered (ht : s.taken c o.input = true) {op : CsrOp} {rd source : Rv32i.Reg}
    {adr : BitVec 12} (hi : o.ins = .csr op rd source adr) :
    s.csrInput c o.input =
      ⟨op.funct3, TrapFile.operand op source o.x1, adr, source, true⟩ := by
  have hcsr : IsCsr o.op op source adr o.x1 := by
    rw [Offered.op, hi]
    exact decoded_csr op rd source adr o.x1
  rw [csrInput, ht]
  show (⟨o.op.funct3, o.op.op1 o.x1, o.op.privFunct12, o.op.sourceRs1, o.op.csrCmd && true⟩ :
    CsrInput) = _
  rw [hcsr.funct3, hcsr.operand, hcsr.adr, hcsr.sourceRs1, hcsr.csr]
  rfl

/-- What the CSR unit does with it. -/
theorem csr_select (op : CsrOp) (source : Rv32i.Reg) (x1 : Word) (trap : Csr)
    (debug : Option DebugCsr) {n : CsrName} (hn : n ∈ TrapFile.names) :
    let x : CsrInput := ⟨op.funct3, x1, n.address, source, true⟩
    let sel := trap.select c debug x
    sel.invReg = false ∧ sel.csrIn = trap.trap.file.read n ∧ sel.csrWe = op.writes source ∧
      x.invOp = false ∧ x.csrOut sel.csrIn = op.eval (trap.trap.file.read n) x1 := by
  intro x sel
  have hop : CsrOp.ofFunct3 x.funct3 = some op := by cases op <;> rfl
  have hspec := x.ofFunct3_spec
  rw [hop] at hspec
  obtain ⟨hinv, heval, hwrites⟩ := hspec
  obtain ⟨hreg, hin, hwe, -, -⟩ := CsrUnit.select_name (c := c) (s := ⟨trap, debug⟩) (i := x)
    (ofAddress_named hn debug.isSome)
  have hro : n.readOnly = false ∧ CsrUnit.stored n = true := by
    revert hn
    cases n <;> decide
  have hvalue : (CsrUnit.mk trap debug).value c n = trap.trap.file.read n := by
    revert hn
    cases n <;> intro hn <;> first | rfl | exact absurd hn (by decide)
  rw [hro.1, Bool.false_and] at hreg hin
  rw [hvalue] at hin
  rw [hro.2, hwrites] at hwe
  refine ⟨hreg, hin rfl, hwe.trans (Bool.true_and _), hinv, ?_⟩
  rw [heval, show sel.csrIn = _ from hin rfl]

theorem step_trap_csr (ht : s.taken c o.input = true) (h : o.op.sysCmd = false) :
    (s.step c o.input).csr.trap =
      if (s.csr.select c o.debugCsr (s.csrInput c o.input)).csrWe then
        s.csr.trap.write (s.csrInput c o.input).reg
          (s.csr.csrOut c o.debugCsr (s.csrInput c o.input))
      else s.csr.trap := by
  have hidle : s.csr.trap.update (s.jumpOut c o.input).update = s.csr.trap := by
    rw [jumpOut_offered ht, jumpComb_plain _ _ h, Traced.trap_update_idle]
  show (if _ then _ else s.csr.trap.update (s.jumpOut c o.input).update) = _
  rw [hidle]
  rfl

/-- A CSR instruction on another CSR. -/
theorem keeps_other (ht : s.taken c o.input = true) {op : CsrOp} {rd source : Rv32i.Reg}
    {adr : BitVec 12} (hi : o.ins = .csr op rd source adr) (hn : TrapFile.named adr = none) :
    s.KeepsTrapFile c o ↔ ¬ s.Diverts c o := by
  have hsys : o.op.sysCmd = false := by
    rw [Offered.op, hi]
    exact (decoded_csr op rd source adr o.x1).sys
  have hw : s.csr.trap.file.written o.x1 o.ins = none := by
    rw [hi]
    simp [TrapFile.written, hn]
  have hexec : s.csr.trap.file.exec o.pc o.x1 o.ins = s.csr.trap.file := by
    rw [hi] at hw ⊢
    simp [TrapFile.exec, hw]
  refine iff_of_true ⟨?_, ?_, ?_⟩ ?_
  · rw [if_pos ht, hexec, step_trap_csr ht hsys]
    split_ifs with hwe
    · rw [write_other hwe (by rw [csrInput_offered ht hi]; exact hn)]
    · rfl
  · intro _ t hgoes
    rw [hi] at hgoes
    exact absurd hgoes (by simp [TrapFile.target])
  · intro _ op' rd' source' adr' n hcsr hn'
    rw [hi] at hcsr
    obtain ⟨-, -, -, rfl⟩ := Rv32i.Instr.csr.inj hcsr
    rw [hn] at hn'
    contradiction
  · rintro ⟨-, ⟨hmret, -⟩ | ⟨new, hnew, -⟩⟩
    · exact absurd (hi.symm.trans hmret) (by simp)
    · rw [hw] at hnew
      contradiction

/-- A CSR instruction on a trap CSR. -/
theorem keeps_named (ht : s.taken c o.input = true) {op : CsrOp} {rd source : Rv32i.Reg}
    {n : CsrName} (hi : o.ins = .csr op rd source n.address)
    (hn : TrapFile.named n.address = some n) :
    s.KeepsTrapFile c o ↔ ¬ s.Diverts c o := by
  have hmem := (named_cases hn).2
  have hsys : o.op.sysCmd = false := by
    rw [Offered.op, hi]
    exact (decoded_csr op rd source n.address o.x1).sys
  obtain ⟨hreg, hread, hwe, hinv, hout⟩ := csr_select (c := c) op source
    (TrapFile.operand op source o.x1) s.csr o.debugCsr hmem
  rw [← csrInput_offered ht hi] at hreg hread hwe hinv hout
  set new := op.eval (s.csr.trap.file.read n) (TrapFile.operand op source o.x1) with hnew
  have hwritten : s.csr.trap.file.written o.x1 o.ins =
      if op.writes source then some (n, new) else none := by
    rw [hi]
    simp only [TrapFile.written, hn, hnew]
  have hexec : s.csr.trap.file.exec o.pc o.x1 o.ins =
      if op.writes source then s.csr.trap.file.write n new else s.csr.trap.file := by
    rw [hi] at hwritten ⊢
    simp only [TrapFile.exec, hwritten]
    cases op.writes source <;> rfl
  have hstep : (s.step c o.input).csr.trap.file =
      if op.writes source then (s.csr.trap.write (n.address.extractLsb' 0 8) new).file
      else s.csr.trap.file := by
    rw [step_trap_csr ht hsys, hwe]
    split_ifs
    · rw [Csr.csrOut, hout, csrInput_offered ht hi]
      rfl
    · rfl
  have hresult : (s.csrOutput c o.input).valid = true ∧
      (s.csrOutput c o.input).result = s.csr.trap.file.read n := by
    refine ⟨?_, hread⟩
    show (!((s.csrInput c o.input).invOp ||
      (s.csr.select c o.debugCsr (s.csrInput c o.input)).invReg) && _) = true
    rw [hinv, hreg, csrInput_offered ht hi]
    rfl
  have hdiv : s.Diverts c o ↔
      op.writes source = true ∧ n = .mcause ∧ new.getLsbD 31 = true := by
    rw [Diverts, hwritten, hi]
    cases op.writes source <;> simp [ht]
  have hkeeps : s.KeepsTrapFile c o ↔ (s.step c o.input).csr.trap.file =
      s.csr.trap.file.exec o.pc o.x1 o.ins := by
    constructor
    · intro h
      have hs := h.state
      rwa [if_pos ht] at hs
    · intro h
      refine ⟨by rwa [if_pos ht], ?_, ?_⟩
      · intro _ t hgoes
        rw [hi] at hgoes
        exact absurd hgoes (by simp [TrapFile.target])
      · intro _ op' rd' source' adr' m hcsr hm
        rw [hi] at hcsr
        obtain ⟨-, -, -, rfl⟩ := Rv32i.Instr.csr.inj hcsr
        rw [hn] at hm
        obtain rfl := Option.some.inj hm
        exact hresult
  rw [hkeeps, hdiv, hstep, hexec]
  cases op.writes source with
  | false => simp
  | true =>
    rw [if_pos rfl, if_pos rfl, file_write hmem]
    simp

theorem keepsTrapFile_iff (ho : o.Traps) : s.KeepsTrapFile c o ↔ ¬ s.Diverts c o := by
  cases ht : s.taken c o.input with
  | false =>
    refine iff_of_true ⟨?_, by simp [ht], by simp [ht]⟩ fun h => ?_
    · rw [Traced.trap_step_idle s o.input ht, ht]
      rfl
    · exact absurd (ht.symm.trans h.1) Bool.false_ne_true
  | true =>
    cases hi : o.ins
    case csr op rd source adr =>
      cases hn : TrapFile.named adr with
      | none => exact keeps_other ht hi hn
      | some n =>
        obtain ⟨rfl, -⟩ := named_cases hn
        exact keeps_named ht hi hn
    case mret => exact keeps_mret ht hi
    case ecall => exact keeps_enter ht ho (.inl hi)
    case ebreak => exact keeps_enter ht ho (.inr hi)
    all_goals exact keeps_plain ht (by rw [hi]; simp [Rv32i.Instr.opClass])

instance : Decidable (s.Diverts c o) :=
  decidable_of_iff
    (s.taken c o.input = true ∧
      (o.ins = .mret ∧ s.csr.trap.mpie = false ∨
        (s.csr.trap.file.written o.x1 o.ins).any fun w => w.1 = .mcause && w.2.getLsbD 31)) <| by
    rw [Diverts]
    cases s.csr.trap.file.written o.x1 o.ins with
    | none => simp
    | some w => cases w; simp

/-- The trap state is that of the specification in every cycle of a run that returns only with
MPIE set and never sets the interrupt bit of `mcause`, and in no other run. -/
theorem trap_file (c : CoreConfig) {os : List Offered}
    (h : (trapMachine c).Along (fun _ o => o.Traps) (trapMachine c).init os) :
    (trapMachine c).Along (KeepsTrapFile c) (trapMachine c).init os ↔
      (trapMachine c).Along (fun s o => ¬ Diverts c s o) (trapMachine c).init os :=
  h.congr fun _ _ ho => keepsTrapFile_iff ho

/-- A handler is set up, interrupts are enabled, and an ECALL is followed by its return. -/
theorem trap_file_return : (trapMachine {}).Along (KeepsTrapFile {}) {}
    [⟨.csr .rw 0 1 0x305, 0, 0x101, 0, true, {}, false, {}, none⟩,
      ⟨.csr .rsi 0 8 0x300, 4, 0, 0, true, {}, false, {}, none⟩,
      ⟨.ecall, 0x40, 0, 0, true, {}, false, {}, none⟩,
      ⟨.mret, 0x100, 0, 0, false, {}, false, {}, none⟩,
      ⟨.mret, 0x100, 0, 0, true, {}, false, {}, none⟩] :=
  (trap_file {} (by decide)).2 (by decide +kernel)

/-- The interrupt bit of `mcause` is lost. -/
theorem mcause_interrupt_lost :
    ¬ ∀ (c : CoreConfig) (os : List Offered),
      (trapMachine c).Along (fun _ o => o.Traps) (trapMachine c).init os →
        (trapMachine c).Along (KeepsTrapFile c) (trapMachine c).init os := by
  intro h
  have hrun := h {} [{ ins := .csr .rw 0 1 0x342, pc := 0, x1 := 0x80000007 }] (by decide)
  have hstate := hrun.1.state
  revert hstate
  decide

end Execute

end BonfireCore
