import BonfireCore.Arch
import BonfireCore.Backend
import BonfireCore.LoadStoreAccess

/-! What Execute has in progress, and what it retires in a cycle. -/
namespace BonfireCore

/-- The operation that keeps Execute busy. -/
inductive Pending
  | none
  | shift (res : Word)
  | access (l : LsInput)
  | done (store : Bool) (value : Word)

namespace Pending

/-- The register value that is computed and not yet written. -/
def value : Pending → Option Word
  | .shift res => some res
  | .done false value => some value
  | _ => Option.none

/-- One cycle, in which no instruction is taken. -/
def next (c : CoreConfig) (r : DbusResponse 32) : Pending → Pending
  | .access l =>
    if r.answers then
      if l.invalidOp || l.store && c.memWriteEarlyTerm then .none
      else .done l.store (l.rdMux r.dbRd)
    else .access l
  | _ => .none

end Pending

namespace Execute

/-- The data of this cycle's register write, as the port (three stages) or the writeback
slot (four stages) will show it. -/
def retireData (c : CoreConfig) (s : Execute) (i : ExecuteInput) : Word :=
  match c.pipelineLength with
  | .three => s.resultO c i
  | .four => (Writeback.capture c s i).data

def retires (c : CoreConfig) (s : Execute) (i : ExecuteInput) : Option (BitVec 5 × Word) :=
  regWrite (s.rdAdrO c i) (if s.regWeO c i then some (s.retireData c i) else none)

/-- `owes`: the data bus has accepted a request it has not answered. -/
def InPhase (c : CoreConfig) (s : Execute) (owes : Bool) : Pending → Prop
  | .none => s.alu.Quiet ∧ s.ls.Idle c ∧ owes = false ∧ s.shiftPending = false ∧
      (s.loadPending = true → s.ls.pipeInvalidOp = true)
  | .shift res => c.shifterMode = .pipelined ∧ s.alu.busyO = true ∧ s.alu.readyO = true ∧
      (∀ j, (s.alu.out .pipelined j).res = res) ∧ s.ls.Idle c ∧ owes = false ∧
      s.shiftPending = true ∧ s.loadPending = false
  | .access l => s.alu.Quiet ∧ s.ls.Access l owes ∧ s.shiftPending = false ∧
      s.loadPending = !l.store
  | .done store value => s.alu.Quiet ∧ s.ls.Done c store value ∧ owes = false ∧
      s.shiftPending = false ∧ s.loadPending = !store

/-- What an instruction that is taken leaves in progress. -/
def nextPending (c : CoreConfig) (i : ExecuteInput) : Pending :=
  if i.op.loadCmd || i.op.storeCmd then .access (i.op.ls i.op1 i.op2)
  else if isPipelinedShift c i then .shift (i.op.alu i.op1 i.op2).res
  else .none

/-- The configurations with a qualified `valid_o` and `we_o` in every unit. -/
structure Qualified (c : CoreConfig) : Prop where
  registered : c.registeredReadStage = true
  shifter : c.shifterMode ≠ .behavioral

/-- No debug module looks at this cycle. -/
structure NoDebug (i : ExecuteInput) : Prop where
  debugCsr : i.debugCsr = none
  progbufActive : i.progbufActive = false

variable {c : CoreConfig} {s : Execute} {i : ExecuteInput} {owes : Bool}

theorem InPhase.busy_none (hc : Qualified c) (h : s.InPhase c owes .none) :
    s.busy c i = (s.jumpBusy || i.hazard) := by
  obtain ⟨halu, hls, -⟩ := h
  simp [busy, halu.busy, hls.busyO hc.registered]

theorem InPhase.busy (hc : Qualified c) {p : Pending} (h : s.InPhase c owes p)
    (hp : p ≠ .none) : s.busy c i = true := by
  cases p with
  | none => exact absurd rfl hp
  | shift res => simp [Execute.busy, h.2.1]
  | access l => simp [Execute.busy, h.2.1.busyO hc.registered]
  | done store value => simp [Execute.busy, h.2.1.busyO hc.registered]

theorem InPhase.not_taken (hc : Qualified c) {p : Pending} (h : s.InPhase c owes p)
    (hp : p ≠ .none) : s.taken c i = false := by
  simp [taken, h.busy hc hp]

section Outputs

theorem aluOut_idle (hm : c.shifterMode ≠ .behavioral) (h : s.alu.Quiet)
    (ht : s.taken c i = false) :
    (s.aluOut c i).valid = false := by
  have hen : (s.aluInput c i).en = false := by simp [aluInput, DecodedOp.aluInput, ht]
  have hshift : (s.aluInput c i).shiftEn = false := by simp [AluInput.shiftEn, hen]
  rw [aluOut, h.out_eq hm fun _ => hshift]
  simp [AluState.out, AluState.shiftValid, hshift, hen]

theorem csrOutput_idle (ht : s.taken c i = false) : (s.csrOutput c i).valid = false := by
  simp [csrOutput, Csr.out, csrInput, DecodedOp.csrInput, ht]

theorem jumpOut_idle (ht : s.taken c i = false) :
    (s.jumpOut c i).jump = false ∧ (s.jumpOut c i).jumpWe = false := by
  simp [jumpOut, ht]

theorem InPhase.validO_idle (hc : Qualified c) (h : s.InPhase c owes .none)
    (ht : s.taken c i = false) : s.validO c i = false := by
  obtain ⟨halu, hls, -⟩ := h
  rw [validO, aluOut_idle hc.shifter halu ht, hls.validO hc.registered, csrOutput_idle ht,
    (jumpOut_idle ht).2]
  rfl

theorem isPipelinedShift_iff : isPipelinedShift c i = true ↔
    c.shifterMode = .pipelined ∧ (i.op.aluInput true i.op1 i.op2).shiftEn = true := by
  simp only [isPipelinedShift, AluInput.shiftEn, AluInput.isShift, DecodedOp.aluInput,
    Bool.and_eq_true, Bool.or_eq_true, decide_eq_true_eq, Bool.and_true]
  tauto

theorem aluInput_taken (ht : s.taken c i = true) :
    s.aluInput c i = i.op.aluInput true i.op1 i.op2 := by
  simp [aluInput, ht]

theorem aluOut_taken (hm : c.shifterMode ≠ .behavioral) (h : s.alu.Quiet) (ht : s.taken c i = true)
    (hs : isPipelinedShift c i = false) : s.aluOut c i = i.op.alu i.op1 i.op2 := by
  rw [aluOut, aluInput_taken ht]
  apply h.out_eq hm
  intro hm
  by_contra hen
  have : isPipelinedShift c i = true := isPipelinedShift_iff.2 ⟨hm, by simpa using hen⟩
  simp [hs] at this

theorem csrOutput_taken (hd : NoDebug i) (ht : s.taken c i = true) :
    s.csrOutput c i = i.op.csr c i.op1 s.csr := by
  simp [csrOutput, csrInput, ht, hd.debugCsr, DecodedOp.csr]

theorem jumpComb_congr {op : DecodedOp} {alu alu' : AluOutput} (trap : TrapCsr)
    (h : (op.branchCmd || op.jumprCmd) = true → alu = alu') :
    jumpComb op alu trap false false = jumpComb op alu' trap false false := by
  unfold jumpComb
  cases hb : op.branchCmd with
  | true => rw [h (by simp [hb])]
  | false =>
    cases hr : op.jumprCmd with
    | true => rw [h (by simp [hr])]
    | false => simp

theorem not_shift_of_jump (hw : i.op.WellFormed)
    (hj : (i.op.jumpCmd || i.op.jumprCmd) = true) : isPipelinedShift c i = false := by
  rcases Bool.or_eq_true _ _ ▸ hj with hj | hj
  · have ha : i.op.aluCmd = false := by
      by_contra ha
      simp [(hw.alu (by simpa using ha)).2.2.2.1] at hj
    simp [isPipelinedShift, ha]
  · simp [isPipelinedShift, (hw.jumpr hj).2, Funct3.ADD_SUB, Funct3.SLL, Funct3.SRL_SRA]

theorem jumpOut_taken (hm : c.shifterMode ≠ .behavioral) (h : s.alu.Quiet) (hw : i.op.WellFormed)
    (hd : NoDebug i) (ht : s.taken c i = true) :
    s.jumpOut c i = i.op.jump i.op1 i.op2 s.csr.trap := by
  simp only [jumpOut, ht, if_true, hd.debugCsr, hd.progbufActive, Option.any_none, DecodedOp.jump]
  apply jumpComb_congr
  intro hj
  apply aluOut_taken hm h ht
  cases halu : i.op.aluCmd with
  | false => simp [isPipelinedShift, halu]
  | true =>
    have hbr : i.op.branchCmd = false := (hw.alu halu).2.2.1
    have hjr : i.op.jumprCmd = true := by simpa [hbr] using hj
    exact not_shift_of_jump hw (by simp [hjr])

theorem aluOut_shift (h : s.alu.Quiet) (ht : s.taken c i = true)
    (hs : isPipelinedShift c i = true) : (s.aluOut c i).valid = false := by
  obtain ⟨hm, hen⟩ := isPipelinedShift_iff.1 hs
  rw [aluOut, hm, aluInput_taken ht]
  exact h.valid_shift hen

theorem aluOut_noAlu (hm : c.shifterMode ≠ .behavioral) (h : s.alu.Quiet)
    (ha : i.op.aluCmd = false) :
    (s.aluOut c i).valid = false := by
  have hen : (s.aluInput c i).en = false := by simp [aluInput, DecodedOp.aluInput, ha]
  have hshift : (s.aluInput c i).shiftEn = false := by simp [AluInput.shiftEn, hen]
  rw [aluOut, h.out_eq hm fun _ => hshift]
  simp [AluState.out, AluState.shiftValid, hshift, hen]

theorem csrOutput_noCsr (ha : i.op.csrCmd = false) : (s.csrOutput c i).valid = false := by
  simp [csrOutput, Csr.out, csrInput, DecodedOp.csrInput, ha]

/-- The result mux of the three-stage pipeline does not take this instruction for the load
whose `load_pending` is still set. -/
def OwnResult (c : CoreConfig) (s : Execute) (i : ExecuteInput) : Prop :=
  c.pipelineLength = .three → s.loadPending = true → i.op.rdAdr ≠ 0 →
    (i.op.aluCmd && !i.op.jumprCmd && !isPipelinedShift c i ||
      i.op.csrCmd && (i.op.csr c i.op1 s.csr).valid) = false

/-- An instruction with a one-cycle result retires when it is taken. -/
theorem retires_taken (hc : Qualified c) (h : s.InPhase c owes .none) (hw : i.op.WellFormed)
    (hd : NoDebug i) (ht : s.taken c i = true) (hown : OwnResult c s i) :
    s.retires c i = regWrite i.op.rdAdr
      (if isPipelinedShift c i then none else i.op.result c i.op1 i.op2 s.csr none) := by
  obtain ⟨halu, hls, -, hsp, -⟩ := h
  have hrd : s.rdAdrO c i = i.op.rdAdr := by simp [rdAdrO, ht]
  have hwrite : s.ls.writeO c = false := hls.writeO hc.registered
  have hjump : (s.jumpOut c i).jumpWe = (i.op.jumpCmd || i.op.jumprCmd) := by
    rw [jumpOut_taken hc.shifter halu hw hd ht, DecodedOp.jump_jumpWe hw]
  unfold retires
  rw [hrd]
  by_cases h0 : i.op.rdAdr = 0
  · simp [regWrite, h0]
  congr 1
  have hlp (hp : c.pipelineLength = .three)
      (hone : (i.op.aluCmd && !i.op.jumprCmd && !isPipelinedShift c i ||
        i.op.csrCmd && (i.op.csr c i.op1 s.csr).valid) = true) : s.loadPending = false := by
    by_contra hl
    rw [hown hp (by simpa using hl) h0] at hone
    exact Bool.false_ne_true hone
  cases hj : i.op.jumpCmd || i.op.jumprCmd with
  | true =>
    have hns : isPipelinedShift c i = false := not_shift_of_jump hw hj
    have hdata : s.retireData c i = i.op.nextIp := by
      unfold retireData
      cases c.pipelineLength <;>
        simp [resultO, Writeback.capture, Writeback.data, hjump, hj]
    simp [regWeO, hjump, hj, hns, hdata, DecodedOp.result]
  | false =>
    cases ha : i.op.aluCmd with
    | true =>
      have hcsr : (s.csrOutput c i).valid = false := csrOutput_noCsr (hw.alu ha).2.2.2.2.1
      cases hs : isPipelinedShift c i with
      | true => simp [regWeO, hjump, hj, hwrite, hcsr, aluOut_shift halu ht hs]
      | false =>
        have halu' : s.aluOut c i = i.op.alu i.op1 i.op2 := aluOut_taken hc.shifter halu ht hs
        have hdata : s.retireData c i = (i.op.alu i.op1 i.op2).res := by
          unfold retireData
          cases hp : c.pipelineLength with
          | three =>
            have hjr : i.op.jumprCmd = false := (Bool.or_eq_false_iff.1 hj).2
            have hl : s.loadPending = false := hlp hp (by simp [ha, hjr, hs])
            simp [resultO, hjump, hj, hl, ha, halu']
          | four =>
            simp [Writeback.capture, Writeback.data, hjump, hj, hwrite, halu',
              DecodedOp.alu_valid ha]
        simp [regWeO, halu', DecodedOp.alu_valid ha, hdata, DecodedOp.result, hj, ha]
    | false =>
      have hs : isPipelinedShift c i = false := by simp [isPipelinedShift, ha]
      have halu' : (s.aluOut c i).valid = false := aluOut_noAlu hc.shifter halu ha
      have hcsr : s.csrOutput c i = i.op.csr c i.op1 s.csr := csrOutput_taken hd ht
      cases hcc : i.op.csrCmd with
      | false =>
        have hcv : (s.csrOutput c i).valid = false := csrOutput_noCsr hcc
        simp [regWeO, halu', hwrite, hcv, hjump, hj, hs, DecodedOp.result, ha, hcc]
      | true =>
        cases hv : (i.op.csr c i.op1 s.csr).valid with
        | false =>
          simp [regWeO, halu', hwrite, hcsr, hv, hjump, hj, hs, DecodedOp.result, ha, hcc]
        | true =>
          have hdata : s.retireData c i = (i.op.csr c i.op1 s.csr).result := by
            unfold retireData
            cases hp : c.pipelineLength with
            | three =>
              have hl : s.loadPending = false := hlp hp (by simp [hcc, hv])
              simp [resultO, hjump, hj, hl, hsp, ha, hcc, hcsr]
            | four =>
              simp [Writeback.capture, Writeback.data, hjump, hj, hwrite, halu', hcsr, hv]
          simp [regWeO, hcsr, hv, hdata, hs, DecodedOp.result, hj, ha, hcc]

/-- Without an instruction to take, Execute retires what it has computed. -/
theorem retires_idle (hc : Qualified c) {p : Pending} (h : s.InPhase c owes p)
    (ht : s.taken c i = false) : s.retires c i = regWrite s.rdAdrReg p.value := by
  have hrd : s.rdAdrO c i = s.rdAdrReg := by simp [rdAdrO, ht]
  have hcsr : (s.csrOutput c i).valid = false := csrOutput_idle ht
  obtain ⟨-, hjump⟩ := jumpOut_idle ht
  unfold retires
  rw [hrd]
  congr 1
  cases p with
  | none =>
    obtain ⟨halu, hls, -⟩ := h
    simp [regWeO, aluOut_idle hc.shifter halu ht, hls.writeO hc.registered, hcsr, hjump,
      Pending.value]
  | shift res =>
    obtain ⟨hm, -, hready, hres, hls, -, hsp, hlp⟩ := h
    have hvalid : (s.aluOut c i).valid = true := by
      simp [aluOut, AluState.out, AluState.shiftValid, hm, hready]
    have hout : (s.aluOut c i).res = res := by
      rw [aluOut, hm]
      exact hres _
    have hwrite : s.ls.writeO c = false := hls.writeO hc.registered
    have hdata : s.retireData c i = res := by
      unfold retireData
      cases c.pipelineLength with
      | three => simp [resultO, hjump, hlp, hsp, hout]
      | four => simp [Writeback.capture, Writeback.data, hjump, hwrite, hvalid, hout]
    simp [regWeO, hvalid, hdata, Pending.value]
  | access l =>
    obtain ⟨halu, hls, -⟩ := h
    simp [regWeO, aluOut_idle hc.shifter halu ht, hls.writeO hc.registered, hcsr, hjump,
      Pending.value]
  | done store value =>
    obtain ⟨halu, hls, -, hsp, hlp⟩ := h
    have hvalid : (s.aluOut c i).valid = false := aluOut_idle hc.shifter halu ht
    have hwrite : s.ls.writeO c = !store := hls.writeO hc.registered
    cases store with
    | true => simp [regWeO, hvalid, hwrite, hcsr, hjump, Pending.value]
    | false =>
      have hls' : s.ls.resultO c i.dbus = value := by
        simp [LoadStore.resultO, hc.registered, hls.value]
      have hdata : s.retireData c i = value := by
        unfold retireData
        cases c.pipelineLength with
        | three => simp [resultO, hjump, hlp, hls']
        | four => simp [Writeback.capture, Writeback.data, hjump, hwrite, hvalid, hls']
      simp [regWeO, hwrite, hdata, Pending.value]

end Outputs

section Steps
variable (hc : Qualified c)
include hc

omit hc in
theorem no_answer_of_busEn (hb : s.ls.busEn = false) (ho : owes = false)
    (hok : AnswersAccepted owes s.ls.request i.dbus) :
    i.dbus.answers = false ∧ nextOwes owes s.ls.request i.dbus = false := by
  have hans : i.dbus.answers = false := by
    by_contra hr
    rcases hok.1 (by simpa using hr) with ho' | ⟨hb', -⟩
    · simp [ho] at ho'
    · simp [LoadStore.request, hb] at hb'
  exact ⟨hans, by simp [nextOwes, hans, ho, LoadStore.request, hb]⟩

omit hc in
theorem no_answer (h : s.ls.Idle c) (ho : owes = false)
    (hok : AnswersAccepted owes s.ls.request i.dbus) :
    i.dbus.answers = false ∧ nextOwes owes s.ls.request i.dbus = false :=
  no_answer_of_busEn h.busEn ho hok

omit hc in
theorem aluStep_idle (h : s.alu.Quiet) (ht : s.taken c i = false) : (s.step c i).alu.Quiet :=
  h.step fun _ => by simp [aluInput, DecodedOp.aluInput, AluInput.shiftEn, ht]

/-- Without an instruction to take, what is in progress goes on by itself. -/
theorem step_idle {p : Pending} (h : s.InPhase c owes p) (ht : s.taken c i = false)
    (hok : AnswersAccepted owes s.ls.request i.dbus) :
    (s.step c i).InPhase c (nextOwes owes s.ls.request i.dbus) (p.next c i.dbus) := by
  have hen : (s.lsInput c i).en = false := by simp [lsInput, DecodedOp.lsInput, ht]
  have hinv : (s.step c i).ls.pipeInvalidOp = s.ls.pipeInvalidOp := by
    simp [step, LoadStore.step, hen]
  have hload : (s.step c i).loadPending = (s.loadPending && !s.ls.validO c i.dbus) := by
    simp [step, ht]
  have hshift : (s.step c i).shiftPending = (s.shiftPending && !(s.aluOut c i).valid) := by
    simp [step, ht]
  cases p with
  | none =>
    obtain ⟨halu, hls, ho, hsp, hlp⟩ := h
    obtain ⟨-, ho'⟩ := no_answer hls ho hok
    refine ⟨aluStep_idle halu ht, hls.step_idle hen, ho', by simp [hshift, hsp], ?_⟩
    intro hl
    rw [hinv]
    apply hlp
    simp only [hload, Bool.and_eq_true] at hl
    exact hl.1
  | shift res =>
    obtain ⟨hm, -, hready, -, hls, ho, -, hlp⟩ := h
    obtain ⟨-, ho'⟩ := no_answer hls ho hok
    have hvalid : (s.aluOut c i).valid = true := by
      simp [aluOut, AluState.out, AluState.shiftValid, hm, hready]
    have hquiet : (s.step c i).alu.Quiet := by
      simp only [step, hm]
      apply AluState.step_quiet_of_idle
      simp [aluInput, DecodedOp.aluInput, AluInput.shiftEn, ht]
    exact ⟨hquiet, hls.step_idle hen, ho', by simp [hshift, hvalid], by simp [hload, hlp]⟩
  | access l =>
    obtain ⟨halu, hls, hsp, hlp⟩ := h
    have halu' : (s.step c i).alu.Quiet := aluStep_idle halu ht
    cases hr : i.dbus.answers with
    | false =>
      simp only [Pending.next, hr, Bool.false_eq_true, if_false]
      refine ⟨halu', hls.step_wait hc.registered hr, by simp [hshift, hsp], ?_⟩
      cases hst : l.store with
      | true => simp [hload, hlp, hst]
      | false => simp [hload, hlp, hst, hls.validO_load hc.registered hst]
    | true =>
      have ho' : nextOwes owes s.ls.request i.dbus = false := by simp [nextOwes, hr]
      simp only [Pending.next, hr, if_true]
      split_ifs with hend
      · have hend' : l.invalidOp = true ∨ l.store = true ∧ c.memWriteEarlyTerm = true := by
          simpa using hend
        refine ⟨halu', hls.step_idle hc.registered hok hr hend', ho', by simp [hshift, hsp], ?_⟩
        intro hl
        have hst : l.store = false := by simp_all
        rw [hinv, hls.invalidOp]
        simpa [hst] using hend
      · simp only [Bool.or_eq_true, not_or, Bool.not_eq_true] at hend
        refine ⟨halu', hls.step_done hc.registered hok hr hend.1 hend.2, ho',
          by simp [hshift, hsp], ?_⟩
        cases hst : l.store with
        | true => simp [hload, hlp, hst]
        | false => simp [hload, hlp, hst, hls.validO_load hc.registered hst]
  | done store value =>
    obtain ⟨halu, hls, ho, hsp, hlp⟩ := h
    have hans : i.dbus.answers = false ∧ nextOwes owes s.ls.request i.dbus = false :=
      no_answer_of_busEn hls.busEn ho hok
    refine ⟨aluStep_idle halu ht, hls.step_idle hc.registered, hans.2, by simp [hshift, hsp], ?_⟩
    simp [hload, hls.validO hc.registered]

/-- The instruction that is taken becomes what is in progress. -/
theorem step_taken (h : s.InPhase c owes .none) (hw : i.op.WellFormed) (ht : s.taken c i = true)
    (hok : AnswersAccepted owes s.ls.request i.dbus)
    (hmis : (i.op.loadCmd || i.op.storeCmd) = true → (i.op.ls i.op1 i.op2).misalign = false) :
    (s.step c i).InPhase c (nextOwes owes s.ls.request i.dbus) (nextPending c i) := by
  obtain ⟨halu, hls, ho, hsp, -⟩ := h
  obtain ⟨-, ho'⟩ := no_answer hls ho hok
  have hload : (s.step c i).loadPending = i.op.loadCmd := by simp [step, ht]
  have hshift : (s.step c i).shiftPending = isPipelinedShift c i := by simp [step, ht]
  have hlsi : s.lsInput c i = i.op.ls i.op1 i.op2 := by simp [lsInput, ht, DecodedOp.ls]
  have hstep : (s.step c i).ls = s.ls.step c i.dbus (i.op.ls i.op1 i.op2) := by
    simp [step, hlsi]
  unfold nextPending
  cases hmem : i.op.loadCmd || i.op.storeCmd with
  | true =>
    have hac : i.op.aluCmd = false := by
      by_contra ha
      have hcls := hw.alu (by simpa using ha)
      simp [hcls] at hmem
    have hns : isPipelinedShift c i = false := by simp [isPipelinedShift, hac]
    have hquiet : (s.step c i).alu.Quiet := by
      apply halu.step
      intro _
      simp [aluInput, DecodedOp.aluInput, AluInput.shiftEn, hac]
    have hen : (i.op.ls i.op1 i.op2).en = true := by
      simpa [DecodedOp.ls, DecodedOp.lsInput, Bool.or_comm] using hmem
    have hacc : (s.step c i).ls.Access (i.op.ls i.op1 i.op2) false := by
      rw [hstep]
      exact hls.step_issue hc.registered hen (hmis hmem)
    have hlp : i.op.loadCmd = !i.op.storeCmd := by
      cases hl : i.op.loadCmd with
      | true => simp [(hw.load hl).1]
      | false => simpa [hl] using hmem
    exact ⟨hquiet, ho' ▸ hacc, by simp [hshift, hns], by simp [hload, hlp, DecodedOp.ls,
      DecodedOp.lsInput]⟩
  | false =>
    have hen : (i.op.ls i.op1 i.op2).en = false := by
      simpa [DecodedOp.ls, DecodedOp.lsInput, Bool.or_comm] using hmem
    have hidle : (s.step c i).ls.Idle c := by
      rw [hstep]
      exact hls.step_idle hen
    have hlp : (s.step c i).loadPending = false := by
      rw [hload]
      exact (Bool.or_eq_false_iff.1 hmem).1
    cases hs : isPipelinedShift c i with
    | false =>
      have hquiet : (s.step c i).alu.Quiet := by
        apply halu.step
        intro hm
        rw [aluInput_taken ht]
        by_contra hse
        have : isPipelinedShift c i = true := isPipelinedShift_iff.2 ⟨hm, by simpa using hse⟩
        simp [hs] at this
      exact ⟨hquiet, hidle, ho', by simp [hshift, hs], by simp [hlp]⟩
    | true =>
      obtain ⟨hm, hse⟩ := isPipelinedShift_iff.1 hs
      have halu' : (s.step c i).alu = s.alu.step .pipelined (i.op.aluInput true i.op1 i.op2) := by
        simp [step, hm, aluInput_taken ht]
      refine ⟨hm, ?_, ?_, ?_, hidle, ho', by simp [hshift, hs], hlp⟩
      · rw [halu']
        exact (AluState.step_shift (j := i.op.aluInput true 0 0) halu hse).1
      · rw [halu']
        exact (AluState.step_shift (j := i.op.aluInput true 0 0) halu hse).2.1
      · intro j
        rw [halu']
        exact (AluState.step_shift halu hse).2.2

omit hc in
theorem not_shift_of_mem (hw : i.op.WellFormed)
    (hmem : (i.op.loadCmd || i.op.storeCmd) = true) : isPipelinedShift c i = false := by
  have hac : i.op.aluCmd = false := by
    by_contra ha
    have hcls := hw.alu (by simpa using ha)
    simp [hcls] at hmem
  simp [isPipelinedShift, hac]

omit hc in
/-- A result is retired at once, or is what the next cycle has in progress. -/
theorem nextPending_value (hw : i.op.WellFormed) (csr : Csr) :
    (nextPending c i).value =
      if isPipelinedShift c i then i.op.result c i.op1 i.op2 csr none else none := by
  unfold nextPending
  cases hmem : i.op.loadCmd || i.op.storeCmd with
  | true => simp [Pending.value, not_shift_of_mem hw hmem]
  | false =>
    cases hs : isPipelinedShift c i with
    | false => simp [Pending.value]
    | true =>
      have ha : i.op.aluCmd = true := by
        by_contra ha
        simp [isPipelinedShift, ha] at hs
      have hj : (i.op.jumpCmd || i.op.jumprCmd) = false := by
        by_contra hj
        rw [Bool.not_eq_false] at hj
        have hns : isPipelinedShift c i = false := not_shift_of_jump hw hj
        simp [hns] at hs
      simp [Pending.value, DecodedOp.result, hj, ha]

end Steps
end Execute
end BonfireCore
