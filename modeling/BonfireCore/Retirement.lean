import BonfireCore.Clocked
import BonfireCore.ExecutePhase
import BonfireCore.WriteLog

/-! The backend against the instruction stream it takes: every instruction finds its operands
as all earlier ones leave them, and the register file is written with their results, in order
and once each. -/
namespace BonfireCore

/-- What Execute did with one instruction. -/
structure Issued where
  fetched : Fetched
  op1 : Word
  op2 : Word
  /-- The cycle counter when it was taken. -/
  mcycle : BitVec 64
  /-- What the data bus acknowledged it with. -/
  answer : Option Word := none
  /-- The data bus answered it with an error. -/
  error : Bool := false
  deriving DecidableEq, Repr

/-- One instruction after the other; the log has the latest first. -/
def Arch.after (c : CoreConfig) : List Issued → Arch
  | [] => {}
  | t :: ts => (after c ts).exec c t.fetched t.mcycle t.answer

/-- The register writes of the instructions, latest first. -/
def Arch.writes (c : CoreConfig) : List Issued → List (BitVec 5 × Word)
  | [] => []
  | t :: ts => ((after c ts).write c t.fetched t.mcycle t.answer).toList ++ writes c ts

/-- Every instruction was given the operands that the ones before it left. -/
def OperandsExact (c : CoreConfig) : List Issued → Prop
  | [] => True
  | t :: ts =>
    (Arch.op t.fetched).SameOperands t.op1 t.op2 ((Arch.after c ts).op1 t.fetched)
        ((Arch.after c ts).op2 t.fetched) ∧
      OperandsExact c ts

/-- A backend with what can be observed of it: the answer the data bus still owes, the
instructions taken and the registers written, latest first. -/
structure Traced where
  backend : Backend := {}
  owes : Bool := false
  taken : List Issued := []
  writes : List (BitVec 5 × Word) := []

namespace Traced

def issued (c : CoreConfig) (b : Backend) : Issued where
  fetched := ⟨b.decode.op.debugWord, b.decode.op.debugCurrentIp, b.decode.op.nextIp⟩
  op1 := b.op1 c
  op2 := b.op2 c
  mcycle := b.execute.csr.mcycle

/-- The answer belongs to the last instruction taken. -/
def answered (r : DbusResponse 32) : List Issued → List Issued
  | [] => []
  | t :: ts => { t with answer := if r.ack then some r.dbRd else none, error := r.error } :: ts

def portWrite (w : WritePort) : Option (BitVec 5 × Word) :=
  if w.we then regWrite w.wa (some w.wd) else none

def step (c : CoreConfig) (t : Traced) (i : BackendInput) : Traced where
  backend := t.backend.step c i
  owes := nextOwes t.owes t.backend.execute.ls.request i.dbus
  taken :=
    if t.backend.taken c i then issued c t.backend :: t.taken
    else if t.backend.execute.ls.confirm i.dbus then answered i.dbus t.taken
    else t.taken
  writes := (portWrite (t.backend.writePort c i)).toList ++ t.writes

def machine (c : CoreConfig) : Clocked Traced BackendInput where
  init := {}
  step := step c

/-- The operation that is taken is an aligned load or store, or none. -/
def Aligned (c : CoreConfig) (b : Backend) : Prop :=
  (b.decode.op.loadCmd || b.decode.op.storeCmd) = true →
    (b.decode.op.ls (b.op1 c) (b.op2 c)).misalign = false

/-- The step keeps clear of what the backend does wrong with a fault. -/
structure Contained (c : CoreConfig) (t : Traced) (i : BackendInput) : Prop where
  noDebug : i.debug = {}
  bus : AnswersAccepted t.owes t.backend.execute.ls.request i.dbus
  aligned : t.backend.taken c i = true → Aligned c t.backend
  own : t.backend.taken c i = true → t.backend.execute.OwnResult c (t.backend.executeInput c i)
  load : t.backend.execute.ls.outstanding = true → i.dbus.error = true →
    t.backend.execute.ls.pipeStore = false → t.backend.execute.ls.pipeInvalidOp = false →
    t.backend.execute.rdAdrReg = 0

/-- The write waiting in the writeback slot. -/
def slot (c : CoreConfig) (b : Backend) : Option (BitVec 5 × Word) :=
  if c.pipelineLength = .four ∧ b.wb.valid = true ∧ b.wb.we = true then
    regWrite b.wb.rd (some b.wb.data)
  else none

/-- The access `l` is the one the instruction asks for. -/
structure SameAccess (op : DecodedOp) (x1 x2 : Word) (l : LsInput) : Prop where
  mem : (op.loadCmd || op.storeCmd) = true
  store : l.store = op.storeCmd
  funct3 : l.funct3 = op.funct3
  adr : l.adr = (op.ls x1 x2).adr
  op2 : op.storeCmd = true → l.op2 = x2
  misalign : l.misalign = false

/-- The access in progress is that of the last instruction, whose result it will be. -/
def IssuedAccess (c : CoreConfig) (rd : BitVec 5) (l : LsInput) : List Issued → Prop
  | [] => False
  | t :: ts => t.answer = none ∧ (Arch.op t.fetched).rdAdr = rd ∧
      SameAccess (Arch.op t.fetched) ((Arch.after c ts).op1 t.fetched)
        ((Arch.after c ts).op2 t.fetched) l ∧
      ∀ answer, (Arch.op t.fetched).result c ((Arch.after c ts).op1 t.fetched)
        ((Arch.after c ts).op2 t.fetched) ⟨(Arch.after c ts).trap, t.mcycle⟩ answer =
          if l.store || l.invalidOp then none else answer.map l.rdMux

/-- The instruction Decode shows, with the addresses the register file was read at. -/
def Decoded (b : Backend) : Prop :=
  ∃ d word currentIp nextIp, b.decode.op = DecodedOp.decodeWord d word currentIp nextIp ∧
    b.decode.rs1AdrReg = word.extractLsb' 15 5 ∧ b.decode.rs2AdrReg = word.extractLsb' 20 5

structure Inv (c : CoreConfig) (t : Traced) (p : Pending) : Prop where
  phase : t.backend.execute.InPhase c t.owes p
  access : ∀ l, p = .access l → IssuedAccess c t.backend.execute.rdAdrReg l t.taken
  trap : t.backend.execute.csr.trap = (Arch.after c t.taken).trap
  exact : OperandsExact c t.taken
  writes : Arch.writes c t.taken =
    (regWrite t.backend.execute.rdAdrReg p.value).toList ++ (slot c t.backend).toList ++ t.writes
  registers : t.backend.regfile.registers = WriteLog.replay (fun _ => 0) t.writes
  decode : t.backend.decode.valid = true → Decoded t.backend
  ports : t.backend.decode.valid = true →
    t.backend.regfile.rdA =
        RegFile.readReg t.backend.regfile.registers t.backend.decode.op.sourceRs1 ∧
      t.backend.regfile.rdB =
        RegFile.readReg t.backend.regfile.registers t.backend.decode.op.sourceRs2

variable {c : CoreConfig} {b : Backend} {i : BackendInput}

theorem after_regs (ts : List Issued) :
    (Arch.after c ts).regs = WriteLog.replay (fun _ => 0) (Arch.writes c ts) := by
  induction ts with
  | nil => rfl
  | cons t ts ih =>
    simp only [Arch.after, Arch.writes, Arch.exec, ih]
    cases (Arch.after c ts).write c t.fetched t.mcycle t.answer with
    | none => simp
    | some w => simp

theorem writeReg_replay (w : WritePort) (ws : List (BitVec 5 × Word)) :
    RegFile.writeReg (WriteLog.replay (fun _ => 0) ws) w =
      WriteLog.replay (fun _ => 0) ((portWrite w).toList ++ ws) := by
  unfold RegFile.writeReg portWrite regWrite
  cases hwe : w.we <;> by_cases h0 : w.wa = 0#5 <;> simp [h0]

/-- What Execute retires reaches the port at once, or through the writeback slot. -/
theorem slot_step (hc : Execute.Qualified c) :
    (slot c (b.step c i)).toList ++ (portWrite (b.writePort c i)).toList =
      (b.execute.retires c (b.executeInput c i)).toList ++ (slot c b).toList := by
  have hvalid : b.execute.regWeO c (b.executeInput c i) = true →
      b.execute.validO c (b.executeInput c i) = true := by
    intro h
    simp only [Execute.regWeO, Execute.validO, Bool.or_eq_true] at h ⊢
    rcases h with ((h | h) | h) | h
    · simp [h]
    · exact .inl (.inl (.inr (LoadStore.validO_of_writeO hc.registered h)))
    · simp [h]
    · simp [h]
  cases hp : c.pipelineLength with
  | three =>
    simp only [slot, hp, reduceCtorEq, false_and, if_false, Option.toList_none, List.nil_append,
      List.append_nil]
    simp only [portWrite, Backend.writePort, Execute.retires, Execute.retireData, hp]
    cases b.execute.regWeO c (b.executeInput c i) <;> simp [regWrite]
  | four =>
    have hport : portWrite (b.writePort c i) = slot c b := by
      simp only [portWrite, Backend.writePort, hp, slot, true_and, Bool.and_eq_true]
    have hslot : slot c (b.step c i) = b.execute.retires c (b.executeInput c i) := by
      simp only [slot, Backend.step, hp, if_true, true_and, Execute.retires, Execute.retireData,
        Writeback.capture]
      cases hw : b.execute.regWeO c (b.executeInput c i) with
      | false => simp [regWrite]
      | true => simp [hvalid hw]
    rw [hport, hslot]

theorem trap_update_idle (trap : TrapCsr) (op : DecodedOp) : trap.update op.trapUpdate = trap := by
  simp [TrapCsr.update, DecodedOp.trapUpdate]

theorem trap_step_idle (e : Execute) (x : ExecuteInput) (ht : e.taken c x = false) :
    (e.step c x).csr.trap = e.csr.trap := by
  show (e.csr.step c x.debugCsr (e.csrInput c x) (e.jumpOut c x).update).trap = _
  rw [Csr.step_trap_of_not_en (by simp [Execute.csrInput, DecodedOp.csrInput, ht])]
  simp [Execute.jumpOut, ht, trap_update_idle]

theorem Decoded.sources (h : Decoded b) :
    b.decode.op.sourceRs1 = b.decode.rs1AdrReg ∧ b.decode.op.sourceRs2 = b.decode.rs2AdrReg := by
  obtain ⟨d, word, currentIp, nextIp, hop, h1, h2⟩ := h
  obtain ⟨-, -, -, hs1, hs2⟩ := d.decodeWord_fetched word currentIp nextIp
  rw [hop, h1, h2]
  exact ⟨hs1, hs2⟩

theorem Decoded.wellFormed (h : Decoded b) : b.decode.op.WellFormed := by
  obtain ⟨d, word, currentIp, nextIp, hop, -⟩ := h
  rw [hop]
  exact d.decodeWord_wellFormed word currentIp nextIp

/-- What Decode holds is the word it was given, decoded. -/
theorem Decoded.agrees (h : Decoded b) :
    b.decode.op.Agrees (Arch.op (issued c b).fetched) := by
  obtain ⟨d, word, currentIp, nextIp, hop, -⟩ := h
  obtain ⟨hw, hip, hnext, -⟩ := d.decodeWord_fetched word currentIp nextIp
  have hf : (issued c b).fetched = ⟨word, currentIp, nextIp⟩ := by
    simp [issued, hop, hw, hip, hnext]
  rw [hf, hop]
  exact DecodedOp.decodeWord_agrees d {} word currentIp nextIp

/-- A decode that is valid after the edge was held, or has just been made. -/
theorem decode_step (hd : i.debug = {})
    (hdec : b.decode.valid = true → Decoded b) (hv : (b.step c i).decode.valid = true) :
    Decoded (b.step c i) ∧
      b.decode.rs1Adr (b.executeBusy c i) i.fetch.word i.debug.transfer =
        (b.step c i).decode.op.sourceRs1 ∧
      b.decode.rs2Adr (b.executeBusy c i) i.fetch.word = (b.step c i).decode.op.sourceRs2 := by
  have htransfer : i.debug.transfer.valid = false := by rw [hd]
  have hstep : (b.step c i).decode =
      b.decode.step (b.executeBusy c i) (b.execute.kill c (b.executeInput c i)) i.fetch
        i.debug.transfer := rfl
  unfold Decode.step at hstep
  simp only [htransfer, Bool.false_and, Bool.false_eq_true, if_false] at hstep
  cases hk : b.execute.kill c (b.executeInput c i) with
  | true => simp [hstep, hk] at hv
  | false =>
    simp only [hk, Bool.false_eq_true, if_false] at hstep
    cases hbusy : b.decode.busy (b.executeBusy c i) with
    | true =>
      simp only [hbusy, if_true] at hstep
      have hdecoded : Decoded b := hdec (by
        rw [Decode.busy, Bool.and_eq_true] at hbusy
        exact hbusy.1)
      obtain ⟨hs1, hs2⟩ := hdecoded.sources
      refine ⟨by simpa [Decoded, hstep] using hdecoded, ?_, ?_⟩
      · simp [Decode.rs1Adr, htransfer, hbusy, hstep, hs1]
      · simp [Decode.rs2Adr, hbusy, hstep, hs2]
    | false =>
      simp only [hbusy, Bool.false_eq_true, if_false] at hstep
      cases hen : i.fetch.en with
      | false => simp [hstep, hen] at hv
      | true =>
        simp only [hen, if_true] at hstep
        obtain ⟨-, -, -, hs1, hs2⟩ :=
          b.decode.op.decodeWord_fetched i.fetch.word i.fetch.currentIp i.fetch.nextIp
        refine ⟨⟨b.decode.op, i.fetch.word, i.fetch.currentIp, i.fetch.nextIp, ?_⟩, ?_, ?_⟩
        · simp [hstep]
        · simp [Decode.rs1Adr, htransfer, hbusy, hstep, hs1]
        · simp [Decode.rs2Adr, hbusy, hstep, hs2]

/-- An operand that is read is the register's latest value, the slot's write included. -/
theorem forwarded_eq (uses : Bool) (source : BitVec 5) (regs : BitVec 5 → Word)
    (hstall : c.pipelineLength = .four → c.writebackBypass = false →
      b.wb.matchesSource uses source = false) (huses : uses = true) :
    b.forwarded c uses source (RegFile.readReg regs source) =
      RegFile.readReg (WriteLog.replay regs (slot c b).toList) source := by
  cases hp : c.pipelineLength with
  | three =>
    have hby : c.writebackBypass = false := by
      by_contra hby
      have := c.bypass_four (by simpa using hby)
      simp [hp] at this
    simp [Backend.forwarded, slot, hp, hby]
  | four =>
    cases hm : b.wb.matchesSource uses source with
    | true =>
      have hby : c.writebackBypass = true := by
        by_contra hby
        have := hstall hp (by simpa using hby)
        simp [hm] at this
      have hm' := hm
      simp only [Writeback.matchesSource, Bool.and_eq_true, decide_eq_true_eq] at hm'
      obtain ⟨⟨⟨⟨hv, hw⟩, h0⟩, -⟩, hsrc⟩ := hm'
      have h0' : b.wb.rd ≠ 0#5 := h0
      have hforward : b.forwarded c uses source (RegFile.readReg regs source) = b.wb.data := by
        simp [Backend.forwarded, hby, hm]
      rw [hforward, hsrc]
      simp [slot, hp, hv, hw, regWrite, RegFile.readReg, h0']
    | false =>
      have hlate : ∀ w ∈ (slot c b).toList, w.1 ≠ source := by
        intro w hw hsrc
        rw [Option.mem_toList] at hw
        unfold slot regWrite at hw
        split_ifs at hw with hvw h0
        have hw' : (b.wb.rd, b.wb.data) = w := by simpa using hw
        have hmatch : b.wb.matchesSource uses source = true := by
          have h0' : b.wb.rd ≠ 0#5 := h0
          simp [Writeback.matchesSource, hvw, huses, h0', ← hsrc, ← hw']
        simp [hm] at hmatch
      have hreplay : WriteLog.replay regs ((slot c b).toList ++ []) source =
          WriteLog.replay regs [] source := WriteLog.replay_append_of_not_mem hlate
      rw [List.append_nil, WriteLog.replay_nil] at hreplay
      simp [Backend.forwarded, hm, RegFile.readReg, hreplay]

theorem operand_exact {p : Pending} {t : Traced} (h : Inv c t p) (hp : p = .none)
    (ht : t.backend.taken c i = true) :
    t.backend.decode.op.SameOperands (t.backend.op1 c) (t.backend.op2 c)
      ((Arch.after c t.taken).op1 (issued c t.backend).fetched)
      ((Arch.after c t.taken).op2 (issued c t.backend).fetched) := by
  have hbusy : t.backend.execute.busy c (t.backend.executeInput c i) = false ∧
      t.backend.decode.valid = true := by
    simp only [Backend.taken, Execute.taken, Backend.executeInput, Bool.and_eq_true,
      Bool.not_eq_true'] at ht
    exact ⟨ht.2, ht.1⟩
  obtain ⟨hbusy, hv⟩ := hbusy
  have hhazard : t.backend.hazard c = false := by
    simp only [Execute.busy, Bool.or_eq_false_iff] at hbusy
    exact hbusy.2
  obtain ⟨hrdA, hrdB⟩ := h.ports hv
  have hdec := h.decode hv
  have hag := hdec.agrees (c := c)
  have hregs : (Arch.after c t.taken).regs =
      WriteLog.replay t.backend.regfile.registers (slot c t.backend).toList := by
    rw [after_regs, h.writes, hp, h.registers, ← WriteLog.replay_append]
    simp [Pending.value]
  have hstall (uses : Bool) (source : BitVec 5)
      (hm : t.backend.wb.matchesSource uses source = true → t.backend.hazard c = true ∨
        c.writebackBypass = true ∨ c.pipelineLength = .three) :
      c.pipelineLength = .four → c.writebackBypass = false →
        t.backend.wb.matchesSource uses source = false := by
    intro hfour hby
    by_contra hne
    rcases hm (by simpa using hne) with hm | hm | hm
    · simp [hhazard] at hm
    · simp [hby] at hm
    · simp [hfour] at hm
  have hhaz1 : t.backend.wb.matchesSource t.backend.usesRs1 t.backend.decode.op.sourceRs1 = true →
      t.backend.hazard c = true ∨ c.writebackBypass = true ∨ c.pipelineLength = .three := by
    intro hm
    cases hp : c.pipelineLength <;> cases hby : c.writebackBypass <;>
      simp [Backend.hazard, hp, hby, hm]
  have hhaz2 : t.backend.wb.matchesSource t.backend.usesRs2 t.backend.decode.op.sourceRs2 = true →
      t.backend.hazard c = true ∨ c.writebackBypass = true ∨ c.pipelineLength = .three := by
    intro hm
    cases hp : c.pipelineLength <;> cases hby : c.writebackBypass <;>
      simp [Backend.hazard, hp, hby, hm]
  have hw := hdec.wellFormed
  constructor
  · intro huse
    unfold Backend.op1 Arch.op1 DecodedOp.op1
    rw [← hag.rs1Immediate, ← hag.registers.1, hregs, hrdA]
    cases himm : t.backend.decode.op.rs1Immediate with
    | true =>
      have hno : t.backend.usesRs1 = false := by simp [Backend.usesRs1, hw.rs1Immediate himm]
      simp [Backend.forwarded, Writeback.matchesSource, hno, hag.rs1ImmValue himm]
    | false =>
      have huses : t.backend.usesRs1 = true := by simpa [Backend.usesRs1, hv, himm] using huse
      simpa using forwarded_eq _ _ _ (hstall _ _ hhaz1) huses
  · intro huse
    unfold Backend.op2 Arch.op2 DecodedOp.op2
    rw [← hag.rs2Immediate, ← hag.registers.2.1, hregs, hrdB]
    cases himm : t.backend.decode.op.rs2Immediate with
    | true =>
      have hno : t.backend.usesRs2 = false := by simp [Backend.usesRs2, hw.rs2Immediate himm]
      simp [Backend.forwarded, Writeback.matchesSource, hno, hag.rs2ImmValue himm]
    | false =>
      have huses : t.backend.usesRs2 = true := by simpa [Backend.usesRs2, hv, himm] using huse
      simpa using forwarded_eq _ _ _ (hstall _ _ hhaz2) huses

section Steps
variable {t : Traced} (hc : Execute.Qualified c)

/-- What the edge does to Decode and the register file, in any phase. -/
theorem Inv.step_front {p : Pending} (h : Inv c t p) (hd : i.debug = {}) :
    (t.step c i).backend.regfile.registers =
        WriteLog.replay (fun _ => 0) (t.step c i).writes ∧
      ((t.step c i).backend.decode.valid = true → Decoded (t.step c i).backend ∧
        (t.step c i).backend.regfile.rdA = RegFile.readReg (t.step c i).backend.regfile.registers
            (t.step c i).backend.decode.op.sourceRs1 ∧
        (t.step c i).backend.regfile.rdB = RegFile.readReg (t.step c i).backend.regfile.registers
            (t.step c i).backend.decode.op.sourceRs2) := by
  refine ⟨?_, fun hv => ?_⟩
  · show RegFile.writeReg t.backend.regfile.registers (t.backend.writePort c i) = _
    rw [h.registers, writeReg_replay]
    rfl
  · obtain ⟨hdec, h1, h2⟩ := decode_step hd h.decode hv
    refine ⟨hdec, ?_, ?_⟩
    · rw [show (t.step c i).backend.decode.op.sourceRs1 = _ from h1.symm]
      exact RegFile.step_rdA _ _ _
    · rw [show (t.step c i).backend.decode.op.sourceRs2 = _ from h2.symm]
      exact RegFile.step_rdB _ _ _

include hc in
theorem Inv.step_taken (h : Inv c t .none) (hok : Contained c t i)
    (ht : t.backend.taken c i = true) :
    Inv c (t.step c i) (Execute.nextPending c (t.backend.executeInput c i)) := by
  have hd := hok.noDebug
  have hnd : Execute.NoDebug (t.backend.executeInput c i) :=
    ⟨by simp [Backend.executeInput, hd], by simp [Backend.executeInput, hd]⟩
  have hv : t.backend.decode.valid = true := by
    simp only [Backend.taken, Execute.taken, Bool.and_eq_true] at ht
    exact ht.1
  have hdec : Decoded t.backend := h.decode hv
  have hw : t.backend.decode.op.WellFormed := hdec.wellFormed
  have hag : t.backend.decode.op.Agrees (Arch.op (issued c t.backend).fetched) := hdec.agrees
  have hops := operand_exact h rfl ht
  have halu : t.backend.execute.alu.Quiet := h.phase.1
  have hcsr : t.backend.execute.csr =
      ⟨(Arch.after c t.taken).trap, (issued c t.backend).mcycle⟩ := by
    rw [← h.trap]
    rfl
  have hresult (answer : Option Word) :
      (Arch.op (issued c t.backend).fetched).result c
          ((Arch.after c t.taken).op1 (issued c t.backend).fetched)
          ((Arch.after c t.taken).op2 (issued c t.backend).fetched)
          ⟨(Arch.after c t.taken).trap, (issued c t.backend).mcycle⟩ answer =
        t.backend.decode.op.result c (t.backend.op1 c) (t.backend.op2 c) t.backend.execute.csr
          answer := by
    rw [← hcsr]
    exact (hag.result_eq c hops _ _).symm
  have htaken : (t.step c i).taken = issued c t.backend :: t.taken := by simp [step, ht]
  have hrd : (t.step c i).backend.execute.rdAdrReg = t.backend.decode.op.rdAdr := by
    show (if t.backend.taken c i then _ else _) = _
    rw [ht]
    rfl
  have hmis := hok.aligned ht
  obtain ⟨hregs, hfront⟩ := h.step_front hd
  refine ⟨Execute.step_taken hc h.phase hw ht hok.bus hmis, ?_, ?_, ?_, ?_, hregs,
    fun hv' => (hfront hv').1, fun hv' => (hfront hv').2⟩
  · intro l hl
    unfold Execute.nextPending at hl
    split_ifs at hl with hmem
    injection hl with hl
    subst hl
    rw [htaken, hrd]
    obtain ⟨hst, hf3, hadr, hop2⟩ := hag.ls_eq hops hmem
    have hsc : t.backend.decode.op.storeCmd = (Arch.op (issued c t.backend).fetched).storeCmd :=
      hag.classes.2.2.1
    refine ⟨rfl, hag.registers.2.2.symm, ⟨?_, hsc, hag.functs.1, hadr, ?_, hmis hmem⟩,
      fun answer => ?_⟩
    · rw [← hag.classes.2.1, ← hsc]
      exact hmem
    · intro hs
      exact hop2 (hsc.trans hs)
    rw [hresult, DecodedOp.result_aligned c hw hmem (hmis hmem)]
    rfl
  · rw [htaken]
    show (Csr.step c t.backend.execute.csr _ (t.backend.execute.csrInput c _)
      (t.backend.execute.jumpOut c _).update).trap = _
    rw [Execute.jumpOut_taken hc.shifter halu hw hnd ht, hnd.debugCsr]
    have hin : t.backend.execute.csrInput c (t.backend.executeInput c i) =
        t.backend.decode.op.csrInput true (t.backend.op1 c) := by
      simp only [Execute.csrInput]
      rw [show t.backend.execute.taken c (t.backend.executeInput c i) = true from ht]
      rfl
    rw [hin]
    refine (hag.csrStep_eq c hops hw t.backend.execute.csr).trans ?_
    rw [hcsr]
    rfl
  · rw [htaken]
    exact ⟨hops.of_agrees hag, h.exact⟩
  · rw [htaken, hrd, Execute.nextPending_value (i := t.backend.executeInput c i) hw
      t.backend.execute.csr]
    have hport : (slot c (t.step c i).backend).toList ++ (t.step c i).writes =
        (t.backend.execute.retires c (t.backend.executeInput c i)).toList ++
          ((slot c t.backend).toList ++ t.writes) := by
      have := slot_step (b := t.backend) (i := i) hc
      simp only [step, ← List.append_assoc]
      rw [this]
    have hwrites : Arch.writes c t.taken = (slot c t.backend).toList ++ t.writes := by
      simpa [Pending.value] using h.writes
    rw [List.append_assoc, hport,
      Execute.retires_taken hc h.phase hw hnd ht (hok.own ht), Arch.writes, hwrites, Arch.write,
      show (issued c t.backend).answer = none from rfl, hresult, hag.registers.2.2]
    show _ = (regWrite _ (if Execute.isPipelinedShift c (t.backend.executeInput c i) then
      t.backend.decode.op.result c (t.backend.op1 c) (t.backend.op2 c) t.backend.execute.csr none
        else none)).toList ++ ((regWrite t.backend.decode.op.rdAdr
          (if Execute.isPipelinedShift c (t.backend.executeInput c i) then none
            else t.backend.decode.op.result c (t.backend.op1 c) (t.backend.op2 c)
              t.backend.execute.csr none)).toList ++ _)
    rw [hag.registers.2.2]
    cases Execute.isPipelinedShift c (t.backend.executeInput c i) <;> simp

/-- An answer completes the log entry of the access: it adds the result, if there is one. -/
theorem answered_writes {rd : BitVec 5} {l : LsInput} {ts : List Issued} (r : DbusResponse 32)
    (h : IssuedAccess c rd l ts) :
    Arch.writes c (answered r ts) =
      (regWrite rd (if l.store || l.invalidOp then none
        else if r.ack then some (l.rdMux r.dbRd) else none)).toList ++ Arch.writes c ts := by
  cases ts with
  | nil => exact h.elim
  | cons u us =>
    obtain ⟨hnone, hrd, -, hres⟩ := h
    have hold : (Arch.after c us).write c u.fetched u.mcycle u.answer = none := by
      rw [Arch.write, hres, hnone]
      simp
    simp only [answered, Arch.writes, hold, Option.toList_none, List.nil_append]
    rw [Arch.write, hres, hrd]
    cases r.ack <;> simp

theorem answered_trap (r : DbusResponse 32) (ts : List Issued) :
    (Arch.after c (answered r ts)).trap = (Arch.after c ts).trap := by
  cases ts <;> rfl

theorem answered_exact (r : DbusResponse 32) {ts : List Issued} (h : OperandsExact c ts) :
    OperandsExact c (answered r ts) := by
  cases ts with
  | nil => exact h
  | cons u us => exact h

include hc in
theorem Inv.step_idle {p : Pending} (h : Inv c t p) (hok : Contained c t i)
    (ht : t.backend.taken c i = false) : Inv c (t.step c i) (p.next c i.dbus) := by
  have hphase := Execute.step_idle (i := t.backend.executeInput c i) hc h.phase ht hok.bus
  have hrd : (t.step c i).backend.execute.rdAdrReg = t.backend.execute.rdAdrReg := by
    show (if t.backend.taken c i then _ else _) = _
    rw [ht]
    rfl
  have htrap : (t.step c i).backend.execute.csr.trap = t.backend.execute.csr.trap :=
    trap_step_idle _ _ ht
  have htaken : (t.step c i).taken =
      if t.backend.execute.ls.confirm i.dbus then answered i.dbus t.taken else t.taken := by
    simp [step, ht]
  have hport : (slot c (t.step c i).backend).toList ++ (t.step c i).writes =
      (regWrite t.backend.execute.rdAdrReg p.value).toList ++
        ((slot c t.backend).toList ++ t.writes) := by
    have := slot_step (b := t.backend) (i := i) hc
    simp only [step, ← List.append_assoc]
    rw [this, Execute.retires_idle hc h.phase ht]
  have hport' : (slot c (t.step c i).backend).toList ++ (t.step c i).writes =
      Arch.writes c t.taken := by
    rw [hport, h.writes, List.append_assoc]
  obtain ⟨hregs, hfront⟩ := h.step_front hok.noDebug
  refine ⟨hphase, ?_, ?_, ?_, ?_, hregs, fun hv => (hfront hv).1, fun hv => (hfront hv).2⟩
  · -- an access goes on only while nothing is answered
    intro l hl
    cases p with
    | access l' =>
      unfold Pending.next at hl
      cases hr : i.dbus.answers with
      | true =>
        simp only [hr, if_true] at hl
        split_ifs at hl
      | false =>
        simp only [hr, Bool.false_eq_true, if_false, Pending.access.injEq] at hl
        subst hl
        have hconf : t.backend.execute.ls.confirm i.dbus = false := by
          rw [LoadStore.confirm, show (i.dbus.ack || i.dbus.error) = false from hr]
          rfl
        rw [htaken, hconf, hrd]
        exact h.access l' rfl
    | _ => simp [Pending.next] at hl
  · rw [htrap, h.trap, htaken]
    split_ifs
    · exact (answered_trap _ _).symm
    · rfl
  · rw [htaken]
    split_ifs
    · exact answered_exact _ h.exact
    · exact h.exact
  · rw [List.append_assoc, hport', hrd, htaken]
    cases hconf : t.backend.execute.ls.confirm i.dbus with
    | false =>
      have hval : (p.next c i.dbus).value = none := by
        cases p with
        | access l =>
          obtain ⟨-, hls, -⟩ := h.phase
          have hr : i.dbus.answers = false := by
            simpa [LoadStore.confirm, hls.outstanding, DbusResponse.answers] using hconf
          simp [Pending.next, hr, Pending.value]
        | _ => rfl
      simp [hval]
    | true =>
      obtain ⟨hans, hout⟩ : (i.dbus.answers = true ∧
          t.backend.execute.ls.outstanding = true) := by
        simpa [LoadStore.confirm, DbusResponse.answers] using hconf
      cases p with
      | none => simp [h.phase.2.1.outstanding] at hout
      | shift res => simp [h.phase.2.2.2.2.1.outstanding] at hout
      | done store value => simp [h.phase.2.1.outstanding] at hout
      | access l =>
        obtain ⟨-, hls, -⟩ := h.phase
        rw [if_pos rfl, answered_writes _ (h.access l rfl)]
        congr 2
        cases hst : l.store with
        | true => cases hearly : c.memWriteEarlyTerm <;> cases hinv : l.invalidOp <;>
            simp [Pending.next, hans, hst, hearly, hinv, Pending.value]
        | false =>
          cases hinv : l.invalidOp with
          | true => simp [Pending.next, hans, hst, hinv, Pending.value]
          | false =>
            cases hack : i.dbus.ack with
            | true => simp [Pending.next, hans, hst, hinv, Pending.value]
            | false =>
              have herr : i.dbus.error = true := by simpa [DbusResponse.answers, hack] using hans
              have h0 : t.backend.execute.rdAdrReg = 0 :=
                hok.load hout herr (hls.store.trans hst) (hls.invalidOp.trans hinv)
              simp [regWrite, h0]

end Steps

theorem inv_init (c : CoreConfig) : Inv c {} .none where
  phase := ⟨⟨rfl, rfl⟩, ⟨rfl, rfl, fun h => absurd h Bool.false_ne_true⟩, rfl, rfl,
    fun h => absurd h Bool.false_ne_true⟩
  access := fun l hl => by cases hl
  trap := rfl
  exact := trivial
  writes := by simp [Arch.writes, slot, Pending.value]
  registers := rfl
  decode := fun h => absurd h Bool.false_ne_true
  ports := fun h => absurd h Bool.false_ne_true

theorem inv_step (hc : Execute.Qualified c) {t : Traced} (h : ∃ p, Inv c t p)
    (hok : Contained c t i) : ∃ p, Inv c (t.step c i) p := by
  obtain ⟨p, h⟩ := h
  cases ht : t.backend.taken c i with
  | false => exact ⟨_, h.step_idle hc hok ht⟩
  | true =>
    cases p with
    | none => exact ⟨_, h.step_taken hc hok ht⟩
    | _ =>
      have hnot := h.phase.not_taken (i := t.backend.executeInput c i) hc (by simp)
      exact absurd ht (by rw [Backend.taken, hnot]; exact Bool.false_ne_true)

end Traced
end BonfireCore
