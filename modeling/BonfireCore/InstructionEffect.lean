import BonfireCore.InstructionSemantics
import BonfireCore.RegisterWrite

/-! One instruction on its way through Execute, from the cycle that takes it to the one that
delivers its result. -/
namespace BonfireCore

open Rv32i (Instr Access byteLane)

namespace Execute

/-- The jump that Fetch is told of; without the bypass it is told a cycle later, with `j`. -/
def drives (c : CoreConfig) (s : Execute) (i j : ExecuteInput) : Option Word :=
  if c.jumpBypass then if s.jumpO c i then some (s.jumpDestO c i) else none
  else if (s.step c i).jumpO c j then some ((s.step c i).jumpDestO c j) else none

/-- Nothing is in progress. -/
structure Clear (c : CoreConfig) (s : Execute) : Prop where
  alu : s.alu.Quiet
  ls : s.ls.Free c
  pending : s.loadPending = false ∧ s.shiftPending = false
  jumpBusy : s.jumpBusy = false

end Execute

/-- The instruction with its register operands, in a cycle of the data bus. -/
def DecodedOp.offered (op : DecodedOp) (x1 x2 : Word) (dbus : DbusResponse 32) : ExecuteInput where
  valid := true
  op := op
  op1 := op.op1 x1
  op2 := op.op2 x2
  dbus := dbus

/-- The cycles from the one after the instruction was taken to the one that delivers. Nothing
else is offered meanwhile, and a read is answered with `answer`. -/
def Rv32i.Instr.Served (c : CoreConfig) (ins : Instr) (access : Option Access) (answer : Word)
    (js : List ExecuteInput) : Prop :=
  (∀ j ∈ js, j.valid = false) ∧
    match access with
    | some _ => ∃ waits r last, js = waits ++ r :: last ∧ (∀ j ∈ waits, j.dbus.answers = false) ∧
        r.dbus.ack = true ∧ r.dbus.error = false ∧ r.dbus.dbRd = answer ∧
        last.length = if c.registeredReadStage then 1 else 0
    | none => js.length = if c.shifterMode = .pipelined ∧ ins.isShift = true then 1 else 0

/-- The registers after the instruction. -/
def Rv32i.Instr.written (pc x1 x2 answer : Word) (regs : BitVec 5 → Word) (ins : Instr) :
    BitVec 5 → Word :=
  match ins.rd, (ins.effect pc x1 x2).value (some answer) with
  | some rd, some v => RegFile.writeReg regs { we := true, wa := rd, wd := v }
  | _, _ => regs

/-- `op` is what Decode makes of `ins`: Execute gives it the architectural effect. -/
structure Execute.Implements (c : CoreConfig) (s : Execute) (op : DecodedOp) (ins : Instr)
    (pc x1 x2 : Word) : Prop where
  reads : (∀ r, ins.rs1 = some r → op.usesRs1 = true ∧ op.sourceRs1 = r) ∧
    ∀ r, ins.rs2 = some r → op.usesRs2 = true ∧ op.sourceRs2 = r
  jumps : ∀ dbus j, s.drives c (op.offered x1 x2 dbus) j = (ins.effect pc x1 x2).target
  nextPc : ∀ dbus j, (s.drives c (op.offered x1 x2 dbus) j).getD op.nextIp =
    (ins.effect pc x1 x2).nextPc pc
  requests : ∀ dbus, match (ins.effect pc x1 x2).access with
    | some a => a.Requests (s.step c (op.offered x1 x2 dbus)).ls.request
    | none => (s.step c (op.offered x1 x2 dbus)).ls.request.en = false
  writes : ∀ dbus answer js regs, ins.Served c (ins.effect pc x1 x2).access answer js →
    s.registers c (op.offered x1 x2 dbus :: js) regs = ins.written pc x1 x2 answer regs

namespace Execute
variable {c : CoreConfig} {s : Execute} {i j : ExecuteInput} {l : LsInput}

section Quiet

theorem Clear.taken (hs : s.Clear c) (hv : i.valid = true) (hh : i.hazard = false) :
    s.taken c i = true := by
  simp [Execute.taken, busy, hs.alu.busy, hs.ls.busyO, hs.jumpBusy, hv, hh]

/-- A jump, or a result of the ALU that does not wait. The register write is the result's,
unless the write strobe of the load/store unit is on in the writeback pipeline. -/
theorem Clear.writePort_result (hm : c.shifterMode ≠ .behavioral) (hs : s.Clear c)
    (ht : s.taken c i = true) (hw : i.op.WellFormed) (hd : NoDebug i) (hcsr : i.op.csrCmd = false)
    (hns : isPipelinedShift c i = false) {v : Word} {answer : Option Word}
    (hres : i.op.result c i.op1 i.op2 s.csr answer = some v)
    (hmem : i.op.loadCmd = false)
    (hstrobe : c.pipelineLength = .four → s.ls.writeO c = true →
      (i.op.jumpCmd || i.op.jumprCmd) = true) :
    s.writePort c i = ⟨true, i.op.rdAdr, v⟩ := by
  obtain ⟨hlp, hsp⟩ := hs.pending
  have hrd : s.rdAdrO c i = i.op.rdAdr := by simp [rdAdrO, ht]
  have hjump : (s.jumpOut c i).jumpWe = (i.op.jumpCmd || i.op.jumprCmd) := by
    rw [jumpOut_taken hm hs.alu hw hd ht, DecodedOp.jump_jumpWe hw]
  have halu : s.aluOut c i = i.op.alu i.op1 i.op2 := aluOut_taken hm hs.alu ht hns
  cases hj : i.op.jumpCmd || i.op.jumprCmd with
  | true =>
    have hv : v = i.op.nextIp := by simpa [DecodedOp.result, hj] using hres.symm
    cases hp : c.pipelineLength with
    | three => simp [writePort_three hp, hrd, regWeO, resultO, hjump, hj, hv]
    | four =>
      simp [writePort_four hp, hrd, validO, regWeO, Writeback.capture, Writeback.data, hjump, hj,
        hv]
  | false =>
    have ha : i.op.aluCmd = true := by
      by_contra ha
      simp [DecodedOp.result, hj, hcsr, hmem, ha] at hres
    have hv : v = (i.op.alu i.op1 i.op2).res := by
      simpa [DecodedOp.result, hj, ha] using hres.symm
    have hvalid : (i.op.alu i.op1 i.op2).valid = true := DecodedOp.alu_valid ha
    cases hp : c.pipelineLength with
    | three => simp [writePort_three hp, hrd, regWeO, resultO, hjump, hj, hvalid, hlp, ha, hv, halu]
    | four =>
      have hwrite : s.ls.writeO c = false := by
        by_contra hwr
        rw [hstrobe hp (by simpa using hwr)] at hj
        exact Bool.false_ne_true hj.symm
      simp [writePort_four hp, hrd, validO, regWeO, Writeback.capture, Writeback.data, hjump, hj,
        hvalid, hwrite, hv, halu]

/-- Neither a result nor a jump: only the strobe of the load/store unit writes. -/
theorem Clear.writePort_noResult (hm : c.shifterMode ≠ .behavioral) (hs : s.Clear c)
    (ht : s.taken c i = true) (hw : i.op.WellFormed) (hd : NoDebug i)
    (hcls : i.op.aluCmd = false ∧ i.op.csrCmd = false ∧ (i.op.jumpCmd || i.op.jumprCmd) = false) :
    s.writePort c i = if c.pipelineLength = .three then ⟨s.ls.writeO c, i.op.rdAdr, 0⟩
      else ⟨false, i.op.rdAdr, (Writeback.capture c s i).data⟩ := by
  obtain ⟨hlp, hsp⟩ := hs.pending
  obtain ⟨ha, hcsr, hj⟩ := hcls
  have hrd : s.rdAdrO c i = i.op.rdAdr := by simp [rdAdrO, ht]
  have hjump : (s.jumpOut c i).jumpWe = false := by
    rw [jumpOut_taken hm hs.alu hw hd ht, DecodedOp.jump_jumpWe hw, hj]
  have halu : (s.aluOut c i).valid = false := aluOut_noAlu hm hs.alu ha
  have hcv : (s.csrOutput c i).valid = false := csrOutput_noCsr hcsr
  cases hp : c.pipelineLength with
  | three =>
    simp [writePort_three hp, hrd, regWeO, resultO, hjump, halu, hcv, hlp, hsp, ha, hcsr]
  | four => simp [writePort_four hp, hrd, validO, regWeO, hjump, halu, hcv, hs.ls.validO]

/-- The first cycle of a shift through the pipelined shifter. -/
theorem Clear.writePort_shift (hs : s.Clear c) (hm : c.shifterMode ≠ .behavioral)
    (ht : s.taken c i = true) (hw : i.op.WellFormed) (hd : NoDebug i) (hcsr : i.op.csrCmd = false)
    (hj : (i.op.jumpCmd || i.op.jumprCmd) = false) (hns : isPipelinedShift c i = true) :
    (s.writePort c i).wa = i.op.rdAdr ∧
      (c.pipelineLength = .four → (s.writePort c i).we = false) := by
  have hrd : s.rdAdrO c i = i.op.rdAdr := by simp [rdAdrO, ht]
  have hjump : (s.jumpOut c i).jumpWe = false := by
    rw [jumpOut_taken hm hs.alu hw hd ht, DecodedOp.jump_jumpWe hw, hj]
  have halu : (s.aluOut c i).valid = false := aluOut_shift hs.alu ht hns
  have hcv : (s.csrOutput c i).valid = false := csrOutput_noCsr hcsr
  cases hp : c.pipelineLength with
  | three => simp [writePort_three hp, hrd]
  | four => simp [writePort_four hp, hrd, validO, hjump, halu, hcv, hs.ls.validO]

end Quiet

section Waiting

/-- The second cycle of the shift. -/
theorem writePort_shifted (hm : c.shifterMode = .pipelined) (hready : s.alu.readyO = true)
    {res : Word} (hres : ∀ k, (s.alu.out .pipelined k).res = res) (ht : s.taken c i = false)
    (hsp : s.shiftPending = true) (hlp : s.loadPending = false)
    (hstrobe : c.pipelineLength = .four → s.ls.writeO c = false) :
    s.writePort c i = ⟨true, s.rdAdrReg, res⟩ := by
  have hrd : s.rdAdrO c i = s.rdAdrReg := by simp [rdAdrO, ht]
  obtain ⟨-, hjump⟩ := jumpOut_idle ht
  have hvalid : (s.aluOut c i).valid = true := by
    simp [aluOut, AluState.out, AluState.shiftValid, hm, hready]
  have hout : (s.aluOut c i).res = res := by
    rw [aluOut, hm]
    exact hres _
  cases hp : c.pipelineLength with
  | three => simp [writePort_three hp, hrd, regWeO, resultO, hvalid, hjump, hlp, hsp, hout]
  | four =>
    simp [writePort_four hp, hrd, validO, regWeO, Writeback.capture, Writeback.data, hvalid, hjump,
      hstrobe hp, hout]

/-- The unit at work for the instruction that was taken. -/
structure Waits (c : CoreConfig) (l : LsInput) (rd : BitVec 5) (s : Execute) : Prop where
  alu : s.alu.Quiet
  ls : s.ls.Serving c l
  loadPending : s.loadPending = !l.store
  shiftPending : s.shiftPending = false
  rd : s.rdAdrReg = rd

variable {rd : BitVec 5} (hm : c.shifterMode ≠ .behavioral) (hs : s.Waits c l rd)
  (ht : s.taken c i = false)
include hm hs ht

theorem Waits.idle : s.rdAdrO c i = rd ∧ (s.aluOut c i).valid = false ∧
    (s.csrOutput c i).valid = false ∧ (s.jumpOut c i).jumpWe = false :=
  ⟨by simp [rdAdrO, ht, hs.rd], aluOut_idle hm hs.alu ht, csrOutput_idle ht, (jumpOut_idle ht).2⟩

theorem Waits.writePort_wait (hr : i.dbus.answers = false) :
    (s.writePort c i).wa = rd ∧ (l.store = true → (s.writePort c i).we = false) := by
  obtain ⟨hrd, halu, hcsr, hjump⟩ := hs.idle hm ht
  have hvalid : s.ls.validO c i.dbus = false := hs.ls.validO_wait hr
  have hwrite (hst : l.store = true) : s.ls.writeO c = false := by
    cases hreg : c.registeredReadStage <;> simp [LoadStore.writeO, hreg, hs.ls.store, hst]
  cases hp : c.pipelineLength with
  | three =>
    refine ⟨by simp [writePort_three hp, hrd], fun hst => ?_⟩
    simp [writePort_three hp, regWeO, halu, hcsr, hjump, hwrite hst]
  | four =>
    refine ⟨by simp [writePort_four hp, hrd], fun hst => ?_⟩
    simp [writePort_four hp, validO, halu, hcsr, hjump, hvalid]

omit hm in
theorem Waits.step_wait (hr : i.dbus.answers = false) : (s.step c i).Waits c l rd where
  alu := hs.alu.step fun _ => by simp [aluInput, DecodedOp.aluInput, AluInput.shiftEn, ht]
  ls := hs.ls.step_wait hr
  loadPending := by
    simp [step, ht, hs.loadPending, hs.ls.validO_wait hr]
  shiftPending := by simp [step, ht, hs.shiftPending]
  rd := by simp [step, ht, hs.rd]

/-- The cycle of the answer: with the registered read stage nothing is written yet. -/
theorem Waits.writePort_answer (hr : i.dbus.answers = true) (hinv : l.invalidOp = false) :
    ((c.registeredReadStage || l.store) = true → (s.writePort c i).we = false) ∧
      ((c.registeredReadStage || l.store) = false →
        s.writePort c i = ⟨true, rd, l.rdMux i.dbus.dbRd⟩) := by
  obtain ⟨hrd, halu, hcsr, hjump⟩ := hs.idle hm ht
  have hcomb : s.ls.validComb i.dbus = true := by simp [hs.ls.validComb hr, hinv]
  have hlp := hs.loadPending
  have hst := hs.ls.store
  constructor
  · intro hno
    have hwrite : s.ls.writeO c = false := by
      have hv := hs.ls.validReg
      cases hreg : c.registeredReadStage <;> simp_all [LoadStore.writeO]
    cases hp : c.pipelineLength <;>
      simp [writePort, hp, regWeO, halu, hcsr, hjump, hwrite]
  · intro hyes
    obtain ⟨hreg, hload⟩ := Bool.or_eq_false_iff.1 hyes
    have hwrite : s.ls.writeO c = true := by simp [LoadStore.writeO, hreg, hst, hload]
    have hres : s.ls.resultO c i.dbus = l.rdMux i.dbus.dbRd := by
      simp [LoadStore.resultO, hreg, hs.ls.rdmuxOut]
    have hvalid : s.ls.validO c i.dbus = true := by simp [LoadStore.validO, hreg, hcomb]
    cases hp : c.pipelineLength with
    | three => simp [writePort_three hp, hrd, regWeO, resultO, hjump, hwrite, hlp, hload, hres]
    | four =>
      simp [writePort_four hp, hrd, validO, regWeO, Writeback.capture, Writeback.data, hjump, halu,
        hwrite, hvalid, hres]

/-- The cycle after it. -/
theorem Waits.writePort_last (hreg : c.registeredReadStage = true) (hr : i.dbus.answers = true)
    (hinv : l.invalidOp = false) (hj : j.valid = false) :
    (l.store = true → ((s.step c i).writePort c j).we = false) ∧
      (l.store = false → (s.step c i).writePort c j = ⟨true, rd, l.rdMux i.dbus.dbRd⟩) := by
  have hquiet : (s.step c i).alu.Quiet :=
    hs.alu.step fun _ => by simp [aluInput, DecodedOp.aluInput, AluInput.shiftEn, ht]
  have htj : (s.step c i).taken c j = false := by simp [taken, hj]
  obtain ⟨hout, hvalid, hstore, hres⟩ :=
    hs.ls.step_answer (i := s.lsInput c i) hreg hr
  have hrd : (s.step c i).rdAdrO c j = rd := by
    simp only [rdAdrO, htj, Bool.false_eq_true, if_false]
    simp [step, ht, hs.rd]
  have halu : ((s.step c i).aluOut c j).valid = false := aluOut_idle hm hquiet htj
  have hcsr : ((s.step c i).csrOutput c j).valid = false := csrOutput_idle htj
  have hjump : ((s.step c i).jumpOut c j).jumpWe = false := (jumpOut_idle htj).2
  have hwrite : (s.step c i).ls.writeO c = !l.store := by
    cases hst : l.store <;> simp_all [step, LoadStore.writeO]
  constructor
  · intro hst
    cases hp : c.pipelineLength <;>
      simp [writePort, hp, regWeO, halu, hcsr, hjump, hwrite, hst]
  · intro hst
    have hlp : (s.step c i).loadPending = true := by
      have hv : s.ls.validO c i.dbus = false := by
        simp [LoadStore.validO, hreg, LoadStore.earlyTerm, hs.ls.store, hst, hs.ls.validReg hreg]
      simp [step, ht, hs.loadPending, hst, hv]
    have hout' : (s.step c i).ls.resultO c j.dbus = l.rdMux i.dbus.dbRd := by
      simp only [LoadStore.resultO, hreg, if_true]
      exact hres
    have hvalid' : (s.step c i).ls.validO c j.dbus = true := by
      have he : (s.step c i).ls.earlyTerm c = false := by
        simp [step, LoadStore.earlyTerm, hstore, hst]
      simp only [LoadStore.validO, hreg, he, if_true, Bool.false_eq_true, if_false]
      exact hvalid.trans (by simp [hinv])
    cases hp : c.pipelineLength with
    | three => simp [writePort_three hp, hrd, regWeO, resultO, hjump, hwrite, hst, hlp, hout']
    | four =>
      simp [writePort_four hp, hrd, validO, regWeO, Writeback.capture, Writeback.data, hjump, halu,
        hwrite, hst, hvalid', hout']

end Waiting

section Delivery
variable {rd : BitVec 5} {regs : BitVec 5 → Word}

variable (hm : c.shifterMode ≠ .behavioral) (hs : s.Waits c l rd) (hinv : l.invalidOp = false)
include hm hs hinv

theorem Waits.registers_answer {last : List ExecuteInput} (hi : i.valid = false)
    (hlast : ∀ j ∈ last, j.valid = false) (hr : i.dbus.answers = true)
    (hlen : last.length = if c.registeredReadStage then 1 else 0) :
    s.registers c (i :: last) regs =
      if l.store then regs else RegFile.writeReg regs ⟨true, rd, l.rdMux i.dbus.dbRd⟩ := by
  have ht : s.taken c i = false := by simp [taken, hi]
  obtain ⟨hoff, hon⟩ := hs.writePort_answer hm ht hr hinv
  cases hreg : c.registeredReadStage with
  | false =>
    have hnil : last = [] := List.length_eq_zero_iff.1 (by simpa [hreg] using hlen)
    subst hnil
    cases hst : l.store with
    | true => simp [registers, writeReg_off (hoff (by simp [hst]))]
    | false => simp [registers, hon (by simp [hreg, hst])]
  | true =>
    obtain ⟨j, rfl⟩ : ∃ j, last = [j] := List.length_eq_one_iff.1 (by simpa [hreg] using hlen)
    obtain ⟨hstore, hload⟩ :=
      hs.writePort_last hm ht hreg hr hinv (hlast j List.mem_cons_self)
    rw [registers, registers, registers, writeReg_off (hoff (by simp [hreg]))]
    cases hst : l.store with
    | true => simp [writeReg_off (hstore hst)]
    | false => simp [hload hst]

/-- The wait for the data bus leaves nothing but the loaded value. -/
theorem Waits.registers_served {waits last : List ExecuteInput}
    (hwaits : ∀ j ∈ waits, j.valid = false ∧ j.dbus.answers = false) (hi : i.valid = false)
    (hlast : ∀ j ∈ last, j.valid = false) (hr : i.dbus.answers = true)
    (hlen : last.length = if c.registeredReadStage then 1 else 0) :
    s.registers c (waits ++ i :: last) regs =
      if l.store then regs else RegFile.writeReg regs ⟨true, rd, l.rdMux i.dbus.dbRd⟩ := by
  induction waits generalizing s regs with
  | nil => exact hs.registers_answer hm hinv hi hlast hr hlen
  | cons w ws ih =>
    obtain ⟨hw, hans⟩ := hwaits w List.mem_cons_self
    have ht : s.taken c w = false := by simp [taken, hw]
    obtain ⟨hwa, hoff⟩ := hs.writePort_wait hm ht hans
    rw [List.cons_append, registers,
      ih (hs.step_wait ht hans) fun j hj => hwaits j (List.mem_cons_of_mem w hj)]
    cases hst : l.store with
    | true => simp [writeReg_off (hoff hst)]
    | false => simp [writeReg_writeReg hwa]

end Delivery

section Taking
variable (hm : c.shifterMode ≠ .behavioral) (hs : s.Clear c) (ht : s.taken c i = true)
  (hw : i.op.WellFormed) (hd : NoDebug i)
include hm hs ht hw hd

/-- Fetch is told of the jump in this cycle, or in the next. -/
theorem Clear.drives_eq : s.drives c i j = (i.op.jump i.op1 i.op2 s.csr.trap).target := by
  have hjump : s.jumpOut c i = i.op.jump i.op1 i.op2 s.csr.trap := jumpOut_taken hm hs.alu hw hd ht
  unfold drives JumpOutput.target
  cases hb : c.jumpBypass with
  | true => simp [jumpO, jumpDestO, ht, hb, hjump]
  | false =>
    have hbusy : (s.step c i).jumpBusy = (i.op.jump i.op1 i.op2 s.csr.trap).jump := by
      simp [step, ht, hb, hjump]
    cases hj : (i.op.jump i.op1 i.op2 s.csr.trap).jump with
    | false => simp [jumpO, step, ht, hb, hjump, hj]
    | true =>
      have htj : (s.step c i).taken c j = false := by simp [Execute.taken, busy, hbusy, hj]
      have hr : (s.step c i).jumpR = true := by simp [step, ht, hjump, hj]
      have hdest : (s.step c i).jumpDestR = (i.op.jump i.op1 i.op2 s.csr.trap).jumpDest := by
        simp [step, ht, hjump]
      simp [jumpO, jumpDestO, hb, htj, hr, hdest]

omit hm hw hd in
theorem Clear.step_access (hns : isPipelinedShift c i = false)
    (hmem : (i.op.loadCmd || i.op.storeCmd) = true) (hl : i.op.loadCmd = !i.op.storeCmd)
    (hmis : (i.op.ls i.op1 i.op2).misalign = false) :
    (s.step c i).Waits c (i.op.ls i.op1 i.op2) i.op.rdAdr ∧
      (s.step c i).ls.Driven (i.op.ls i.op1 i.op2) false := by
  have hlsi : s.lsInput c i = i.op.ls i.op1 i.op2 := by simp [lsInput, ht, DecodedOp.ls]
  have hen : (i.op.ls i.op1 i.op2).en = true := by
    simpa [DecodedOp.ls, DecodedOp.lsInput, Bool.or_comm] using hmem
  have hstep : (s.step c i).ls = s.ls.step c i.dbus (i.op.ls i.op1 i.op2) := by
    simp [step, hlsi]
  obtain ⟨hserving, hdriven⟩ := hs.ls.step_issue (r := i.dbus) hen hmis
  refine ⟨⟨hs.alu.step fun hp => ?_, hstep ▸ hserving, ?_, ?_, ?_⟩, hstep ▸ hdriven⟩
  · rw [aluInput_taken ht]
    by_contra hse
    have : isPipelinedShift c i = true := isPipelinedShift_iff.2 ⟨hp, by simpa using hse⟩
    simp [hns] at this
  · simp [step, ht, hl, DecodedOp.ls, DecodedOp.lsInput]
  · simp [step, ht, hns]
  · simp [step, ht]

omit hm hw hd ht in
theorem Clear.step_noAccess (hmem : (i.op.loadCmd || i.op.storeCmd) = false) :
    (s.step c i).ls.Free c ∧ (s.step c i).ls.pipeStore = s.ls.pipeStore := by
  have hen : (s.lsInput c i).en = false := by
    simp [lsInput, DecodedOp.lsInput, Bool.or_comm, hmem]
  exact ⟨hs.ls.step_free hen, by simp [step, LoadStore.step, hen]⟩

omit hm hw hd in
theorem Clear.step_shift (hns : isPipelinedShift c i = true) (hload : i.op.loadCmd = false) :
    c.shifterMode = .pipelined ∧ (s.step c i).alu.readyO = true ∧
      (∀ k, ((s.step c i).alu.out .pipelined k).res = (i.op.alu i.op1 i.op2).res) ∧
      (s.step c i).shiftPending = true ∧ (s.step c i).loadPending = false ∧
      (s.step c i).rdAdrReg = i.op.rdAdr := by
  obtain ⟨hp, hen⟩ := isPipelinedShift_iff.1 hns
  have halu : (s.step c i).alu = s.alu.step .pipelined (i.op.aluInput true i.op1 i.op2) := by
    simp [step, hp, aluInput_taken ht]
  refine ⟨hp, ?_, fun k => ?_, by simp [step, ht, hns], by simp [step, ht, hload],
    by simp [step, ht]⟩
  · rw [halu]
    exact (AluState.step_shift (j := i.op.aluInput true 0 0) hs.alu hen).2.1
  · rw [halu]
    exact (AluState.step_shift hs.alu hen).2.2

end Taking

/-- The write strobe of the load/store unit, which without the registered read stage stays on
after a load, does not change what the instruction writes. -/
def Undisturbed (c : CoreConfig) (s : Execute) (ins : Instr) (pc x1 x2 : Word) : Prop :=
  c.registeredReadStage = true ∨ s.ls.pipeStore = true ∨
    match c.pipelineLength with
    | .three => ins.rd = none → ins.encode.extractLsb' 7 5 = 0
    | .four => ∀ r, ins.rd = some r → r = 0 ∨ (ins.effect pc x1 x2).access.isSome = true ∨
        (ins.effect pc x1 x2).target.isSome = true

theorem not_taken_of_valid (h : i.valid = false) : s.taken c i = false := by
  simp [taken, h]

/-- With the strobe on, the writeback slot holds what the data bus shows. -/
theorem writePort_strobe (hp : c.pipelineLength = .four) (hreg : c.registeredReadStage = false)
    (hstore : s.ls.pipeStore = false) (hvalid : (s.aluOut c i).valid = true)
    (hj : (s.jumpOut c i).jumpWe = false) :
    s.writePort c i = ⟨true, s.rdAdrO c i, s.ls.rdmuxOut i.dbus⟩ := by
  have hwrite : s.ls.writeO c = true := by simp [LoadStore.writeO, hreg, hstore]
  simp [writePort_four hp, validO, regWeO, Writeback.capture, Writeback.data, hvalid, hj, hwrite,
    LoadStore.resultO, hreg]

end Execute

theorem rdMux_ne (byteMode hwordMode isUnsigned : Bool) (lo : BitVec 2) (v : Word) :
    ∃ w, rdMux byteMode hwordMode isUnsigned lo w ≠ v := by
  have h0 : rdMux byteMode hwordMode isUnsigned lo 0 = 0 := by
    revert byteMode hwordMode isUnsigned lo
    decide
  have h1 : rdMux byteMode hwordMode isUnsigned lo (BitVec.allOnes 32) ≠ 0 := by
    revert byteMode hwordMode isUnsigned lo
    decide
  by_cases hv : v = 0
  · exact ⟨_, hv ▸ h1⟩
  · exact ⟨0, fun h => hv (h.symm.trans h0)⟩

theorem LoadStore.Free.writeO {c : CoreConfig} {s : LoadStore} (h : s.Free c) :
    s.writeO c = (!c.registeredReadStage && !s.pipeStore) := by
  cases hreg : c.registeredReadStage with
  | true => simp [(h.idle hreg).writeO hreg]
  | false => simp [LoadStore.writeO, hreg]

section Implementation
variable {c : CoreConfig} {s : Execute} {d : DecodedOp} {ins : Instr} {pc x1 x2 : Word}

/-- The kinds of instruction: an access, a value, or neither. -/
theorem effect_cases (pc x1 x2 : Word) (hc : ins.computes = true) :
    (∃ a, (ins.effect pc x1 x2).access = some a) ∨
      (∃ r v, (ins.effect pc x1 x2).access = none ∧ ins.rd = some r ∧
        (ins.effect pc x1 x2).result = some v) ∨
      (ins.effect pc x1 x2).access = none ∧ ins.rd = none ∧
        (ins.effect pc x1 x2).result = none := by
  cases ins with
  | fence | csr | ecall | ebreak | mret => exact absurd hc Bool.false_ne_true
  | load | store => exact .inl ⟨_, rfl⟩
  | branch => exact .inr (.inr ⟨rfl, rfl, rfl⟩)
  | _ => exact .inr (.inl ⟨_, _, rfl, rfl, rfl⟩)

variable (hm : c.shifterMode ≠ .behavioral) (hs : s.Clear c) (hc : ins.computes = true)
  (hr : ins.Regular pc x1 x2)


theorem decoded_late (d : DecodedOp) (pc x1 x2 : Word) (hc : ins.computes = true)
    (dbus : DbusResponse 32) :
    Execute.isPipelinedShift c ((ins.decoded d pc).offered x1 x2 dbus) = true ↔
      c.shifterMode = .pipelined ∧ ins.isShift = true := by
  rw [← decoded_isShift d pc ins hc]
  simp only [Execute.isPipelinedShift, DecodedOp.offered, Bool.and_eq_true, decide_eq_true_eq,
    and_assoc]
  exact Iff.rfl

include hs in
theorem decoded_taken (dbus : DbusResponse 32) :
    s.taken c ((ins.decoded d pc).offered x1 x2 dbus) = true := hs.taken rfl rfl

theorem decoded_wellFormed : (ins.decoded d pc).WellFormed :=
  DecodedOp.decodeWord_wellFormed _ _ _ _

section Access
variable {a : Access} (h : (ins.effect pc x1 x2).access = some a)
include hs hr h

/-- After the cycle that takes it, the unit waits for the access. -/
theorem decoded_waits (dbus : DbusResponse 32) :
    (s.step c ((ins.decoded d pc).offered x1 x2 dbus)).Waits c
        ((ins.decoded d pc).ls ((ins.decoded d pc).op1 x1) ((ins.decoded d pc).op2 x2))
        (ins.decoded d pc).rdAdr ∧
      a.Requests (s.step c ((ins.decoded d pc).offered x1 x2 dbus)).ls.request := by
  obtain ⟨hmem, hasks⟩ := decoded_access (d := d) ins h
  have hw : (ins.decoded d pc).WellFormed := decoded_wellFormed
  have hl : (ins.decoded d pc).loadCmd = !(ins.decoded d pc).storeCmd := by
    cases hl : (ins.decoded d pc).loadCmd with
    | true => simp [(hw.load hl).1]
    | false => simpa [hl] using hmem
  obtain ⟨hwaits, hdriven⟩ := hs.step_access (decoded_taken hs dbus)
    (Execute.not_shift_of_mem hw hmem) hmem hl (hasks.legal (hr.1 a h)).1
  exact ⟨hwaits, hasks.requests (hr.1 a h) hdriven⟩

include hm

theorem decoded_registers_access {dbus : DbusResponse 32} {answer : Word}
    {js : List ExecuteInput} {regs : BitVec 5 → Word} (hj : ins.Served c (some a) answer js) :
    s.registers c ((ins.decoded d pc).offered x1 x2 dbus :: js) regs =
      if (ins.decoded d pc).storeCmd then
        RegFile.writeReg regs (s.writePort c ((ins.decoded d pc).offered x1 x2 dbus))
      else
        RegFile.writeReg
          (RegFile.writeReg regs (s.writePort c ((ins.decoded d pc).offered x1 x2 dbus)))
          ⟨true, (ins.decoded d pc).rdAdr, ((ins.decoded d pc).ls ((ins.decoded d pc).op1 x1)
            ((ins.decoded d pc).op2 x2)).rdMux answer⟩ := by
  obtain ⟨hvalid, waits, r, last, rfl, hwaits, hack, -, hdata, hlen⟩ := hj
  obtain ⟨hw, -⟩ := decoded_waits (d := d) hs hr h dbus
  obtain ⟨-, hasks⟩ := decoded_access (d := d) ins h
  subst hdata
  rw [Execute.registers]
  refine (hw.registers_served hm (hasks.legal (hr.1 a h)).2 (fun j hj => ⟨hvalid j ?_, hwaits j hj⟩)
    (hvalid r ?_) (fun j hj => hvalid j ?_) ?_ hlen).trans ?_
  · exact List.mem_append_left _ hj
  · exact List.mem_append_right _ List.mem_cons_self
  · exact List.mem_append_right _ (List.mem_cons_of_mem _ hj)
  · simp [DbusResponse.answers, hack]
  · rfl

end Access

include hs in
/-- Nothing reaches `x0`. -/
theorem decoded_registers_zero (hr' : ins.rd = some 0) {dbus : DbusResponse 32} {answer : Word}
    {js : List ExecuteInput} {regs : BitVec 5 → Word} (hj : ins.Served c none answer js) :
    s.registers c ((ins.decoded d pc).offered x1 x2 dbus :: js) regs = regs := by
  obtain ⟨hvalid, hlen⟩ := hj
  have ht : s.taken c ((ins.decoded d pc).offered x1 x2 dbus) = true := decoded_taken hs dbus
  have hrd : (ins.decoded d pc).rdAdr = 0 := (decoded_registers ins).1 0 hr'
  have hfirst : (s.writePort c ((ins.decoded d pc).offered x1 x2 dbus)).wa = 0 := by
    rw [Execute.writePort_wa, Execute.rdAdrO, if_pos ht]
    exact hrd
  rw [Execute.registers, writeReg_zero hfirst]
  by_cases hlate : c.shifterMode = .pipelined ∧ ins.isShift = true
  · obtain ⟨j, rfl⟩ : ∃ j, js = [j] := List.length_eq_one_iff.1 (by simpa [hlate] using hlen)
    have htj : (s.step c ((ins.decoded d pc).offered x1 x2 dbus)).taken c j = false :=
      Execute.not_taken_of_valid (hvalid j List.mem_cons_self)
    rw [Execute.registers, Execute.registers, writeReg_zero]
    rw [Execute.writePort_wa, Execute.rdAdrO, htj, if_neg Bool.false_ne_true]
    simp only [Execute.step, ht, if_true]
    exact hrd
  · have hnil : js = [] := List.length_eq_zero_iff.1 (by simpa [hlate] using hlen)
    rw [hnil, Execute.registers]

section Value
variable {r : Rv32i.Reg} {v : Word} (hr' : ins.rd = some r)
  (h : (ins.effect pc x1 x2).access = none) (hv : (ins.effect pc x1 x2).result = some v)
include hc hr h hv

theorem decoded_result (answer : Option Word) (csr : Csr) :
    (ins.decoded d pc).result c ((ins.decoded d pc).op1 x1) ((ins.decoded d pc).op2 x2) csr
      answer = some v := by
  rw [decoded_value ins hc hr, Rv32i.Effect.value, h, hv]

include hm hs hr'

/-- A value is written in the cycle that computes it. -/
theorem decoded_registers_value {dbus : DbusResponse 32} {answer : Word} {js : List ExecuteInput}
    {regs : BitVec 5 → Word} (hj : ins.Served c none answer js)
    (hok : c.pipelineLength = .four → s.ls.writeO c = true →
      (ins.effect pc x1 x2).target.isSome = true) :
    s.registers c ((ins.decoded d pc).offered x1 x2 dbus :: js) regs =
      RegFile.writeReg regs ⟨true, r, v⟩ := by
  obtain ⟨hcsr, -, hlink⟩ := decoded_flags d pc x1 x2 ins hc
  obtain ⟨hload, hstore⟩ := decoded_noAccess (d := d) ins hc h
  obtain ⟨hvalid, hlen⟩ := hj
  have hw : (ins.decoded d pc).WellFormed := decoded_wellFormed
  have hd : Execute.NoDebug ((ins.decoded d pc).offered x1 x2 dbus) := ⟨rfl, rfl⟩
  have ht : s.taken c ((ins.decoded d pc).offered x1 x2 dbus) = true := decoded_taken hs dbus
  have hrd : (ins.decoded d pc).rdAdr = r := (decoded_registers ins).1 r hr'
  have hres : (ins.decoded d pc).result c ((ins.decoded d pc).op1 x1) ((ins.decoded d pc).op2 x2)
      s.csr none = some v := decoded_result hc hr h hv none s.csr
  cases hns : Execute.isPipelinedShift c ((ins.decoded d pc).offered x1 x2 dbus) with
  | false =>
    have hnil : js = [] := by
      have hno : ¬ (c.shifterMode = .pipelined ∧ ins.isShift = true) := by
        rw [← decoded_late d pc x1 x2 hc dbus, hns]
        exact Bool.false_ne_true
      exact List.length_eq_zero_iff.1 (by simpa [hno] using hlen)
    subst hnil
    have hport := hs.writePort_result hm ht hw hd hcsr hns hres hload fun hp hwr => by
      have htarget := hok hp hwr
      rw [hv, htarget] at hlink
      exact hlink
    rw [Execute.registers, Execute.registers, hport]
    exact congrArg (fun q => RegFile.writeReg regs ⟨true, q, v⟩) hrd
  | true =>
    obtain ⟨hp, hready, hout, hsp, hlp, hreg⟩ := hs.step_shift ht hns hload
    have hlate := (decoded_late d pc x1 x2 hc dbus).1 hns
    obtain ⟨j, rfl⟩ : ∃ j, js = [j] := List.length_eq_one_iff.1 (by simpa [hlate] using hlen)
    have hj : ((ins.decoded d pc).jumpCmd || (ins.decoded d pc).jumprCmd) = false := by
      by_contra hj
      rw [Bool.not_eq_false] at hj
      have : Execute.isPipelinedShift c ((ins.decoded d pc).offered x1 x2 dbus) = false :=
        Execute.not_shift_of_jump hw hj
      simp [hns] at this
    have htarget : (ins.effect pc x1 x2).target.isSome = false := by simpa [hj, hv] using hlink.symm
    obtain ⟨hfree, hstore'⟩ := hs.step_noAccess (i := (ins.decoded d pc).offered x1 x2 dbus)
      (by simp [DecodedOp.offered, hload, hstore])
    have ha : (ins.decoded d pc).aluCmd = true := by
      simp only [Execute.isPipelinedShift, Bool.and_eq_true] at hns
      exact hns.1.2
    have hval : ((ins.decoded d pc).alu ((ins.decoded d pc).op1 x1)
        ((ins.decoded d pc).op2 x2)).res = v := by
      simpa [DecodedOp.result, hj, ha] using hres
    have hfirst := (hs.writePort_shift hm ht hw hd hcsr hj hns).1
    have hsecond := Execute.writePort_shifted hp hready hout
      (i := j) (c := c) (by simp [Execute.taken, hvalid j]) hsp hlp fun hfour => by
        rw [hfree.writeO, hstore', ← hs.ls.writeO]
        by_contra hwr
        rw [hok hfour (by simpa using hwr)] at htarget
        exact Bool.false_ne_true htarget.symm
    rw [Execute.registers, Execute.registers, Execute.registers, hsecond]
    rw [hreg, writeReg_writeReg hfirst]
    show RegFile.writeReg regs ⟨true, (ins.decoded d pc).rdAdr, _⟩ = _
    rw [hrd]
    exact congrArg (fun q => RegFile.writeReg regs ⟨true, r, q⟩) hval

/-- With a writeback stage the strobe puts what the data bus shows in the place of the value. -/
theorem decoded_registers_strobe (hp : c.pipelineLength = .four) (hwr : s.ls.writeO c = true)
    (htarget : (ins.effect pc x1 x2).target = none) (hr0 : r ≠ 0) :
    ∃ dbus js, ins.Served c none 0 js ∧ s.registers c
      ((ins.decoded d pc).offered x1 x2 dbus :: js) (fun _ => 0) r ≠ v := by
  obtain ⟨hcsr, -, hlink⟩ := decoded_flags d pc x1 x2 ins hc
  obtain ⟨hload, hstore⟩ := decoded_noAccess (d := d) ins hc h
  obtain ⟨hreg, hps⟩ : c.registeredReadStage = false ∧ s.ls.pipeStore = false := by
    simpa [hs.ls.writeO] using hwr
  have hw : (ins.decoded d pc).WellFormed := decoded_wellFormed
  have hrd : (ins.decoded d pc).rdAdr = r := (decoded_registers ins).1 r hr'
  have hj : ((ins.decoded d pc).jumpCmd || (ins.decoded d pc).jumprCmd) = false := by
    rw [hlink, htarget]
    simp
  have ha : (ins.decoded d pc).aluCmd = true := by
    have hres := decoded_result (c := c) (d := d) hc hr h hv none s.csr
    by_contra ha
    simp [DecodedOp.result, hj, ha, hcsr, hload] at hres
  have hget (x : BitVec 5 → Word) (w : Word) : RegFile.writeReg x ⟨true, r, w⟩ r = w := by
    have h0 : ¬ r = 0#5 := hr0
    simp [RegFile.writeReg, h0]
  have ht (dbus : DbusResponse 32) : s.taken c ((ins.decoded d pc).offered x1 x2 dbus) = true :=
    decoded_taken hs dbus
  by_cases hlate : c.shifterMode = .pipelined ∧ ins.isShift = true
  · have hns : Execute.isPipelinedShift c ((ins.decoded d pc).offered x1 x2 {}) = true :=
      (decoded_late d pc x1 x2 hc _).2 hlate
    obtain ⟨hpm, hready, -, -, -, hreg'⟩ := hs.step_shift (ht {}) hns hload
    obtain ⟨-, hps'⟩ := hs.step_noAccess (i := (ins.decoded d pc).offered x1 x2 {})
      (by simp [DecodedOp.offered, hload, hstore])
    have hfirst := (hs.writePort_shift hm (ht {}) hw ⟨rfl, rfl⟩ hcsr hj hns).2 hp
    obtain ⟨w, hne⟩ := rdMux_ne _ _ _ _ v
    have hidle (j : ExecuteInput) (hv : j.valid = false) :
        (s.step c ((ins.decoded d pc).offered x1 x2 {})).writePort c j =
          ⟨true, r, (s.step c ((ins.decoded d pc).offered x1 x2 {})).ls.rdmuxOut j.dbus⟩ := by
      have htj := Execute.not_taken_of_valid (c := c)
        (s := s.step c ((ins.decoded d pc).offered x1 x2 {})) hv
      have hvalid : ((s.step c ((ins.decoded d pc).offered x1 x2 {})).aluOut c j).valid = true := by
        simp only [Execute.aluOut, AluState.out, AluState.shiftValid, hpm, hready, Bool.true_or]
      rw [Execute.writePort_strobe hp hreg (hps'.trans hps) hvalid (Execute.jumpOut_idle htj).2,
        Execute.rdAdrO, htj, if_neg Bool.false_ne_true, hreg']
      exact congrArg (fun q => WritePort.mk true q _) hrd
    refine ⟨{}, [{ (ins.decoded d pc).offered x1 x2 { dbRd := w } with valid := false }],
      ⟨fun j hj => by rw [List.mem_singleton.1 hj], by simp [hlate]⟩, ?_⟩
    rw [Execute.registers, Execute.registers, Execute.registers, hidle _ rfl, hget]
    exact hne
  · have hns (dbus : DbusResponse 32) :
        Execute.isPipelinedShift c ((ins.decoded d pc).offered x1 x2 dbus) = false := by
      rw [← Bool.not_eq_true, decoded_late d pc x1 x2 hc]
      exact hlate
    obtain ⟨w, hne⟩ := rdMux_ne s.ls.pipeByteMode s.ls.pipeHwordMode s.ls.pipeUnsigned
      s.ls.pipeAdrLo v
    refine ⟨{ dbRd := w }, [], ⟨fun j hj => (List.not_mem_nil hj).elim, by simp [hlate]⟩, ?_⟩
    have hvalid : (s.aluOut c ((ins.decoded d pc).offered x1 x2 { dbRd := w })).valid = true := by
      rw [Execute.aluOut_taken hm hs.alu (ht _) (hns _)]
      exact DecodedOp.alu_valid ha
    have hjump : (s.jumpOut c ((ins.decoded d pc).offered x1 x2 { dbRd := w })).jumpWe = false := by
      rw [Execute.jumpOut_taken hm hs.alu hw ⟨rfl, rfl⟩ (ht _)]
      exact (DecodedOp.jump_jumpWe hw _).trans hj
    have hrdO : s.rdAdrO c ((ins.decoded d pc).offered x1 x2 { dbRd := w }) = r := by
      rw [Execute.rdAdrO, if_pos (ht _)]
      exact hrd
    rw [Execute.registers, Execute.registers,
      Execute.writePort_strobe hp hreg hps hvalid hjump, hrdO, hget]
    exact hne

end Value

theorem load_flags (d : DecodedOp) {a : Access} (h : (ins.effect pc x1 x2).access = some a)
    {r : Rv32i.Reg} (hr' : ins.rd = some r) :
    (ins.decoded d pc).storeCmd = false ∧ (ins.decoded d pc).loadCmd = true ∧
      (ins.decoded d pc).aluCmd = false ∧ (ins.decoded d pc).csrCmd = false ∧
        ((ins.decoded d pc).jumpCmd || (ins.decoded d pc).jumprCmd) = false := by
  have hcls := opClass_encode ins
  rw [Rv32i.Instr.decoded]
  cases ins with
  | load =>
    simp only [DecodedOp.decodeWord, hcls, Rv32i.Instr.opClass]
    exact ⟨rfl, trivial, rfl, rfl, rfl⟩
  | store => cases hr'
  | _ => cases h

section NoValue
variable (hr' : ins.rd = none)
include hc hr'

theorem noValue_flags (d : DecodedOp) (pc : Word) :
    ins.isShift = false ∧ (ins.decoded d pc).loadCmd = false ∧
      (ins.decoded d pc).aluCmd = false ∧ (ins.decoded d pc).csrCmd = false ∧
        ((ins.decoded d pc).jumpCmd || (ins.decoded d pc).jumprCmd) = false := by
  have hcls := opClass_encode ins
  rw [Rv32i.Instr.decoded]
  cases ins with
  | branch | store =>
    simp only [DecodedOp.decodeWord, hcls, Rv32i.Instr.opClass]
    exact ⟨rfl, rfl, rfl, rfl, rfl⟩
  | fence | ecall | ebreak | mret => exact absurd hc Bool.false_ne_true
  | _ => cases hr'

include hm hs hr

/-- Without a destination only the strobe writes, in the cycle that takes the instruction. -/
theorem decoded_registers_noValue {dbus : DbusResponse 32} {answer : Word}
    {js : List ExecuteInput} {regs : BitVec 5 → Word}
    (hj : ins.Served c (ins.effect pc x1 x2).access answer js) :
    s.registers c ((ins.decoded d pc).offered x1 x2 dbus :: js) regs =
      if c.pipelineLength = .three then
        RegFile.writeReg regs ⟨s.ls.writeO c, ins.encode.extractLsb' 7 5, 0⟩
      else regs := by
  obtain ⟨hshift, hload, hcls⟩ := noValue_flags hc hr' d pc
  have hw : (ins.decoded d pc).WellFormed := decoded_wellFormed
  have hport := hs.writePort_noResult (i := (ins.decoded d pc).offered x1 x2 dbus) hm
    (decoded_taken hs dbus) hw ⟨rfl, rfl⟩ hcls
  have hregs : RegFile.writeReg regs
      (s.writePort c ((ins.decoded d pc).offered x1 x2 dbus)) =
        if c.pipelineLength = .three then
          RegFile.writeReg regs ⟨s.ls.writeO c, ins.encode.extractLsb' 7 5, 0⟩
        else regs := by
    rw [hport, ← DecodedOp.decodeWord_rdAdr d ins.encode pc (pc + 4)]
    split_ifs
    · rfl
    · exact writeReg_off rfl
  rcases effect_cases pc x1 x2 hc with ⟨a, h⟩ | ⟨r, v, h, hrd, -⟩ | ⟨h, -, -⟩
  · rw [h] at hj
    have hstore : (ins.decoded d pc).storeCmd = true := by
      simpa [hload] using (decoded_access (d := d) ins h).1
    rw [decoded_registers_access hm hs hr h hj, if_pos hstore, hregs]
  · rw [hr'] at hrd
    cases hrd
  · rw [h] at hj
    have hnil : js = [] := List.length_eq_zero_iff.1 (by simpa [hshift] using hj.2)
    subst hnil
    rw [Execute.registers, Execute.registers, hregs]

end NoValue

theorem served_exists (c : CoreConfig) (ins : Instr) (access : Option Access) :
    ∃ answer js, ins.Served c access answer js := by
  let j : ExecuteInput := { DecodedOp.offered {} 0 0 { ack := true } with valid := false }
  cases access with
  | none =>
    refine ⟨0, List.replicate (if c.shifterMode = .pipelined ∧ ins.isShift = true then 1 else 0) j,
      fun k hk => ?_, by simp⟩
    rw [List.eq_of_mem_replicate hk]
  | some a =>
    refine ⟨0, [] ++ j :: List.replicate (if c.registeredReadStage then 1 else 0) j,
      fun k hk => ?_, [], j, _, rfl, fun k hk => (List.not_mem_nil hk).elim, rfl, rfl, rfl, by simp⟩
    rcases List.mem_cons.1 hk with rfl | hk
    · rfl
    · rw [List.eq_of_mem_replicate hk]

theorem written_value {r : Rv32i.Reg} {v answer : Word} {regs : BitVec 5 → Word}
    (hr' : ins.rd = some r) (hv : (ins.effect pc x1 x2).value (some answer) = some v) :
    ins.written pc x1 x2 answer regs = RegFile.writeReg regs ⟨true, r, v⟩ := by
  simp only [Rv32i.Instr.written, hr', hv]

theorem written_none {answer : Word} {regs : BitVec 5 → Word} (hr' : ins.rd = none) :
    ins.written pc x1 x2 answer regs = regs := by
  simp only [Rv32i.Instr.written, hr']

include hm hs hc hr

/-- The writes are the instruction's own where the strobe does no harm. -/
theorem decoded_written (hok : s.Undisturbed c ins pc x1 x2) {dbus : DbusResponse 32}
    {answer : Word} {js : List ExecuteInput} {regs : BitVec 5 → Word}
    (hj : ins.Served c (ins.effect pc x1 x2).access answer js) :
    s.registers c ((ins.decoded d pc).offered x1 x2 dbus :: js) regs =
      ins.written pc x1 x2 answer regs := by
  have hstrobe (hwr : s.ls.writeO c = true) :
      c.registeredReadStage = false ∧ s.ls.pipeStore = false := by simpa [hs.ls.writeO] using hwr
  cases hrd : ins.rd with
  | none =>
    rw [decoded_registers_noValue hm hs hc hr hrd hj, written_none hrd]
    split_ifs with hp
    · cases hwr : s.ls.writeO c with
      | false => exact writeReg_off rfl
      | true =>
        obtain ⟨hreg, hst⟩ := hstrobe hwr
        have h0 : ins.encode.extractLsb' 7 5 = 0 := by
          simpa [Execute.Undisturbed, hreg, hst, hp, hrd] using hok
        simp [RegFile.writeReg, h0]
    · rfl
  | some r =>
    rcases effect_cases pc x1 x2 hc with ⟨a, h⟩ | ⟨q, v, h, hq, hv⟩ |
      ⟨-, hq, -⟩
    · rw [h] at hj
      obtain ⟨hst, hload, hcls⟩ := load_flags d h hrd
      obtain ⟨hmem, hasks⟩ := decoded_access (d := d) ins h
      have hw : (ins.decoded d pc).WellFormed := decoded_wellFormed
      obtain ⟨hmis, hinv⟩ := hasks.legal (hr.1 a h)
      have hport : (s.writePort c ((ins.decoded d pc).offered x1 x2 dbus)).wa =
          (ins.decoded d pc).rdAdr := by
        rw [hs.writePort_noResult (i := (ins.decoded d pc).offered x1 x2 dbus) hm
          (decoded_taken hs dbus) hw ⟨rfl, rfl⟩ hcls]
        split_ifs <;> rfl
      have hval : (ins.decoded d pc).result c ((ins.decoded d pc).op1 x1)
          ((ins.decoded d pc).op2 x2) s.csr (some answer) =
            (ins.effect pc x1 x2).value (some answer) :=
        decoded_value ins hc hr
      rw [DecodedOp.result_aligned c hw hmem hmis, hinv, Bool.or_false] at hval
      rw [show ((ins.decoded d pc).ls ((ins.decoded d pc).op1 x1)
        ((ins.decoded d pc).op2 x2)).store = false from hst] at hval
      rw [decoded_registers_access hm hs hr h hj, hst, if_neg Bool.false_ne_true,
        writeReg_writeReg hport, written_value hrd hval.symm,
        (decoded_registers ins).1 r hrd]
    · rw [h] at hj
      have hval : (ins.effect pc x1 x2).value (some answer) = some v := by
        rw [Rv32i.Effect.value, h, hv]
      rw [written_value hq hval]
      by_cases h0 : q = 0
      · subst h0
        rw [decoded_registers_zero hs hq hj]
        simp [RegFile.writeReg]
      · refine decoded_registers_value hm hs hc hr hq h hv hj fun hp hwr => ?_
        obtain ⟨hreg, hst⟩ := hstrobe hwr
        have hq' : q = 0 ∨ (ins.effect pc x1 x2).target.isSome = true := by
          simpa [Execute.Undisturbed, hreg, hst, hp, hq, h] using hok
        exact hq'.resolve_left h0
    · rw [hrd] at hq
      cases hq

/-- Execute gives every instruction of the base set its effect, unless the strobe disturbs it. -/
theorem implements_iff :
    s.Implements c (ins.decoded d pc) ins pc x1 x2 ↔ s.Undisturbed c ins pc x1 x2 := by
  constructor
  · intro h
    by_contra hno
    simp only [Execute.Undisturbed, not_or, Bool.not_eq_true] at hno
    obtain ⟨hreg, hst, hno⟩ := hno
    have hwr : s.ls.writeO c = true := by simp [hs.ls.writeO, hreg, hst]
    cases hp : c.pipelineLength with
    | three =>
      simp only [hp, Classical.not_imp] at hno
      obtain ⟨hrd, h0⟩ := hno
      obtain ⟨answer, js, hj⟩ := served_exists c ins (ins.effect pc x1 x2).access
      have hregs := congrFun (h.writes {} answer js (fun _ => 1) hj) (ins.encode.extractLsb' 7 5)
      rw [decoded_registers_noValue hm hs hc hr hrd hj, if_pos hp, written_none hrd, hwr] at hregs
      have h0' : ¬ ins.encode.extractLsb' 7 5 = 0#5 := h0
      simp [RegFile.writeReg, h0'] at hregs
    | four =>
      simp only [hp, not_forall, not_or, Bool.not_eq_true] at hno
      obtain ⟨r, hrd, h0, haccess, htarget⟩ := hno
      simp only [Option.isSome_eq_false_iff, Option.isNone_iff_eq_none] at haccess htarget
      rcases effect_cases pc x1 x2 hc with ⟨a, h'⟩ | ⟨q, v, -, -, hv⟩ | ⟨-, hq, -⟩
      · rw [haccess] at h'
        cases h'
      · obtain ⟨dbus, js, hj, hne⟩ :=
          decoded_registers_strobe (d := d) hm hs hc hr hrd haccess hv hp hwr htarget h0
        rw [← haccess] at hj
        have hval : (ins.effect pc x1 x2).value (some 0) = some v := by
          rw [Rv32i.Effect.value, haccess, hv]
        have h0' : ¬ r = 0#5 := h0
        rw [h.writes dbus 0 js _ hj, written_value hrd hval] at hne
        simp [RegFile.writeReg, h0'] at hne
      · rw [hq] at hrd
        cases hrd
  · intro hok
    have hw : (ins.decoded d pc).WellFormed := decoded_wellFormed
    have hjumps (dbus : DbusResponse 32) (j : ExecuteInput) :
        s.drives c ((ins.decoded d pc).offered x1 x2 dbus) j = (ins.effect pc x1 x2).target :=
      (hs.drives_eq hm (decoded_taken hs dbus) hw ⟨rfl, rfl⟩).trans (decoded_jump ins hc hr _)
    refine ⟨(decoded_registers ins).2, hjumps, fun dbus j => ?_, fun dbus => ?_,
      fun dbus answer js regs hj => decoded_written hm hs hc hr hok hj⟩
    · have hnext : (ins.decoded d pc).nextIp = pc + 4 :=
        (DecodedOp.decodeWord_fetched d ins.encode pc (pc + 4)).2.2.1
      rw [hjumps, hnext, Rv32i.Effect.nextPc]
    · cases h : (ins.effect pc x1 x2).access with
      | none =>
        obtain ⟨hload, hstore⟩ := decoded_noAccess (d := d) ins hc h
        exact (hs.step_noAccess (i := (ins.decoded d pc).offered x1 x2 dbus)
          (by simp [DecodedOp.offered, hload, hstore])).1.busEn
      | some a => exact (decoded_waits hs hr h dbus).2

end Implementation
/-- A word that Decode takes in reaches Execute as the instruction it encodes. -/
def Rv32i.Instr.fetched (ins : Instr) (pc : Word) : DecodeInput where
  en := true
  word := ins.encode
  currentIp := pc
  nextIp := pc + 4

/-- Decode and Execute implement the base set wherever the write strobe of the load/store unit
leaves the instruction's own write alone. -/
theorem decode_execute_iff (c : CoreConfig) (hm : c.shifterMode ≠ .behavioral) (d : Decode)
    (stall : Bool) (hd : d.busy stall = false) (s : Execute) (hs : s.Clear c) (ins : Instr)
    (hc : ins.computes = true) (pc x1 x2 : Word) (hr : ins.Regular pc x1 x2) :
    (d.step stall false (ins.fetched pc) {}).valid = true ∧
        s.Implements c (d.step stall false (ins.fetched pc) {}).op ins pc x1 x2 ↔
      s.Undisturbed c ins pc x1 x2 := by
  have hop : (d.step stall false (ins.fetched pc) {}).op = ins.decoded d.op pc := by
    simp [Decode.step, hd, Rv32i.Instr.fetched, Rv32i.Instr.decoded]
  have hvalid : (d.step stall false (ins.fetched pc) {}).valid = true := by
    have hinv := (decoded_flags d.op pc x1 x2 ins hc).2.1
    rw [Rv32i.Instr.decoded] at hinv
    simpa [Decode.step, hd, Rv32i.Instr.fetched] using hinv
  rw [hop, implements_iff hm hs hc hr]
  exact and_iff_right hvalid

theorem decode_execute_iff_sra :
    (({} : Decode).step false false ((Instr.shiftImm .sra 5 6 31).fetched 0x80) {}).valid = true ∧
      ({} : Execute).Implements defaultConfig
        (({} : Decode).step false false ((Instr.shiftImm .sra 5 6 31).fetched 0x80) {}).op
        (.shiftImm .sra 5 6 31) 0x80 0x80000000 0 :=
  (decode_execute_iff defaultConfig (by decide) {} false rfl {}
    ⟨⟨rfl, rfl⟩, ⟨rfl, rfl, fun _ h => absurd h (by decide)⟩, ⟨rfl, rfl⟩, rfl⟩ _ rfl _ _ _
    ⟨fun _ h => absurd h (by rintro ⟨⟩), trivial⟩).2 (.inl rfl)

/-- `addi x1, x0, 5` after reset, with a writeback stage and no registered read stage: `x1` gets
what the data bus happens to show. -/
theorem addi_gets_bus_data :
    let c : CoreConfig := { pipelineLength := .four, registeredReadStage := false }
    let op := (({} : Decode).step false false ((Instr.aluImm .add 1 0 5).fetched 0) {}).op
    ({} : Execute).registers c [op.offered 0 0 { dbRd := 0x77 }] (fun _ => 0) 1 = 0x77 ∧
      (Instr.aluImm .add 1 0 5).written 0 0 0 0 (fun _ => 0) 1 = 5 ∧
      ¬ ({} : Execute).Implements c op (.aluImm .add 1 0 5) 0 0 0 := by
  refine ⟨by decide +kernel, by decide +kernel, fun h => ?_⟩
  have hregs := congrFun (h.writes { dbRd := 0x77 } 0 [] (fun _ => 0)
    ⟨fun j hj => (List.not_mem_nil hj).elim, rfl⟩) 1
  revert hregs
  decide +kernel

end BonfireCore
