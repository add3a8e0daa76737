import BonfireCore.Clocked
import BonfireCore.RegisterWrite

/-! The write enable of the register file against the instructions that complete. -/
namespace BonfireCore

/-- The instruction Execute is still at work on, and the register it is to write. -/
inductive Working
  | none
  | shift (rd : BitVec 5)
  | access (rd : Option (BitVec 5))
  | answered (rd : Option (BitVec 5))
  deriving DecidableEq, Repr

namespace Working
variable (c : CoreConfig)

/-- A load the unit cannot serve, or a store, has no register to write. -/
def begun (i : ExecuteInput) : Working :=
  if i.op.loadCmd || i.op.storeCmd then
    .access (if i.op.storeCmd || (i.op.ls i.op1 i.op2).misalign || (i.op.ls i.op1 i.op2).invalidOp
      then Option.none else some i.op.rdAdr)
  else if Execute.isPipelinedShift c i then .shift i.op.rdAdr
  else .none

/-- One cycle, in which no instruction is taken. -/
def next (r : DbusResponse 32) : Working → Working
  | .access rd =>
    if r.answers then if c.registeredReadStage then .answered rd else .none else .access rd
  | _ => .none

/-- The register of the instruction that completes in this cycle by itself. -/
def finished (r : DbusResponse 32) : Working → List (BitVec 5)
  | .none => []
  | .shift rd => [rd]
  | .access rd => if !c.registeredReadStage && r.answers then rd.toList else []
  | .answered rd => rd.toList

end Working

/-- The instruction completes in the cycle that takes it. -/
def Execute.promptly (c : CoreConfig) (s : Execute) (i : ExecuteInput) : Bool :=
  i.op.jumpCmd || i.op.jumprCmd || i.op.aluCmd && !isPipelinedShift c i ||
    i.op.csrCmd && !(s.csrOutput c i).invalidOp

/-- A backend with what it is at work on, the registers of the instructions that completed in
the cycle before, and the answer the data bus owes. -/
structure Watched where
  backend : Backend := {}
  working : Working := .none
  completed : List (BitVec 5) := []
  owes : Bool := false

namespace Watched
variable (c : CoreConfig) (w : Watched) (i : BackendInput)

def completes : List (BitVec 5) :=
  w.working.finished c i.dbus ++
    if w.backend.taken c i && w.backend.execute.promptly c (w.backend.executeInput c i) then
      [w.backend.decode.op.rdAdr]
    else []

def step : Watched where
  backend := w.backend.step c i
  working :=
    if w.backend.taken c i then .begun c (w.backend.executeInput c i)
    else w.working.next c i.dbus
  completed := w.completes c i
  owes := nextOwes w.owes w.backend.execute.ls.request i.dbus

def machine : Clocked Watched BackendInput where
  init := {}
  step := step c

/-- The register the write enable is on for. -/
def strobed (p : WritePort) : List (BitVec 5) := if p.we then [p.wa] else []

/-- The write enable is on exactly for the instructions that complete, with four stages for
those that did so in the cycle before. -/
def Exact : Prop :=
  strobed (w.backend.writePort c i) =
    match c.pipelineLength with
    | .three => w.completes c i
    | .four => w.completed

/-- The data bus answers the requests it has accepted. -/
def BusOk : Prop := AnswersAccepted w.owes w.backend.execute.ls.request i.dbus

end Watched
/-- A misaligned access is never put on the bus, and so never answered. -/
structure LoadStore.Stuck (s : LoadStore) : Prop where
  outstanding : s.outstanding = true
  busEn : s.busEn = false
  validReg : s.validReg = false

namespace Working
variable {c : CoreConfig}

/-- Where Execute stands with what it is at work on. -/
def Shown (c : CoreConfig) (s : Execute) (owes : Bool) : Working → Prop
  | .none => s.alu.Quiet ∧ s.ls.Idle c ∧ owes = false
  | .shift rd => c.shifterMode = .pipelined ∧ s.alu.busyO = true ∧ s.alu.readyO = true ∧
      s.ls.Idle c ∧ owes = false ∧ s.rdAdrReg = rd
  | .access rd => s.alu.Quiet ∧
      ((∃ l, s.ls.Access l owes ∧
        rd = if l.store || l.invalidOp then Option.none else some s.rdAdrReg) ∨
        s.ls.Stuck ∧ owes = false ∧ rd = Option.none)
  | .answered rd => s.alu.Quiet ∧ owes = false ∧
      ((∃ store value, s.ls.Done c store value ∧
        rd = if store then Option.none else some s.rdAdrReg) ∨ s.ls.Idle c ∧ rd = Option.none)

variable {s : Execute} {i : ExecuteInput} {owes : Bool} {w : Working}

theorem jumpComb_jumpWe {op : DecodedOp} (hw : op.WellFormed) (alu : AluOutput) (trap : TrapCsr)
    (ebreakm progbufActive : Bool) :
    (jumpComb op alu trap ebreakm progbufActive).jumpWe = (op.jumpCmd || op.jumprCmd) := by
  unfold jumpComb
  cases hb : op.branchCmd with
  | true =>
    have hj : op.jumpCmd = false := by
      by_contra hj
      simp [(hw.jump (by simpa using hj)).1] at hb
    have hr : op.jumprCmd = false := by
      by_contra hr
      simp [(hw.alu (hw.jumpr (by simpa using hr)).1).2.2.1] at hb
    cases branchTaken op.funct3 alu <;> simp [hj, hr]
  | false =>
    cases hj : op.jumpCmd with
    | true => simp
    | false =>
      cases hr : op.jumprCmd with
      | true => simp
      | false =>
        simp only [Bool.or_self]
        split_ifs <;> first | rfl | simp_all

section Cycle
variable (hc : Execute.Qualified c)
include hc

/-- The instruction is taken where nothing is in progress. -/
theorem Shown.of_taken (h : w.Shown c s owes) (ht : s.taken c i = true) :
    s.alu.Quiet ∧ s.ls.Idle c ∧ owes = false ∧ w.finished c i.dbus = [] := by
  have hbusy : s.busy c i = false := by
    simp only [Execute.taken, Bool.and_eq_true, Bool.not_eq_true'] at ht
    exact ht.2
  simp only [Execute.busy, Bool.or_eq_false_iff] at hbusy
  obtain ⟨⟨⟨halu, hls⟩, -⟩, -⟩ := hbusy
  cases w with
  | none => exact ⟨h.1, h.2.1, h.2.2, rfl⟩
  | shift rd => simp [h.2.1] at halu
  | access rd =>
    rcases h.2 with ⟨l, hl, -⟩ | ⟨hst, -⟩
    · simp [hl.busyO hc.registered] at hls
    · simp [LoadStore.busyO, hc.registered, LoadStore.busy, hst.outstanding] at hls
  | answered rd =>
    obtain ⟨hq, ho, ⟨store, value, hdone, -⟩ | ⟨hidle, rfl⟩⟩ := h
    · simp [hdone.busyO hc.registered] at hls
    · exact ⟨hq, hidle, ho, rfl⟩

theorem writePort_we : (s.writePort c i).we = s.regWeO c i := by
  cases hp : c.pipelineLength with
  | three => simp [Execute.writePort_three hp]
  | four =>
    have hvalid (h : s.ls.writeO c = true) : s.ls.validO c i.dbus = true :=
      LoadStore.validO_of_writeO hc.registered h
    cases hwr : s.ls.writeO c with
    | false =>
      simp only [Execute.writePort_four hp, Execute.validO, Execute.regWeO, hwr]
      cases (s.aluOut c i).valid <;> cases (s.csrOutput c i).valid <;>
        cases (s.jumpOut c i).jumpWe <;> simp
    | true => simp [Execute.writePort_four hp, Execute.validO, Execute.regWeO, hwr, hvalid hwr]

/-- With an instruction to take, the strobe is its own. -/
theorem Shown.strobed_taken (h : w.Shown c s owes) (hw : i.op.WellFormed)
    (ht : s.taken c i = true) :
    Watched.strobed (s.writePort c i) =
      w.finished c i.dbus ++ if s.promptly c i then [i.op.rdAdr] else [] := by
  obtain ⟨hq, hidle, -, hfin⟩ := h.of_taken hc ht
  have hjump : (s.jumpOut c i).jumpWe = (i.op.jumpCmd || i.op.jumprCmd) := by
    rw [Execute.jumpOut, if_pos ht, jumpComb_jumpWe hw]
  have hcsr : (s.csrOutput c i).valid = (i.op.csrCmd && !(s.csrOutput c i).invalidOp) := by
    have hen : (s.csrInput c i).en = i.op.csrCmd := by
      simp [Execute.csrInput, DecodedOp.csrInput, ht]
    simp only [Execute.csrOutput, Csr.out, hen]
    cases i.op.csrCmd <;> simp
  have halu : (s.aluOut c i).valid = (i.op.aluCmd && !Execute.isPipelinedShift c i) := by
    cases ha : i.op.aluCmd with
    | false => simp [Execute.aluOut_noAlu hc.shifter hq ha]
    | true =>
      cases hs : Execute.isPipelinedShift c i with
      | true => simp [Execute.aluOut_shift hq ht hs]
      | false => simp [Execute.aluOut_taken hc.shifter hq ht hs, DecodedOp.alu_valid ha]
  have hwe : s.regWeO c i = s.promptly c i := by
    simp only [Execute.regWeO, Execute.promptly, halu, hidle.writeO hc.registered, hcsr, hjump]
    cases i.op.jumpCmd <;> cases i.op.jumprCmd <;> simp
  rw [Watched.strobed, writePort_we hc, hwe, Execute.writePort_wa, Execute.rdAdrO, if_pos ht, hfin,
    List.nil_append]

/-- Without one, it is that of the instruction in progress. -/
theorem Shown.strobed_idle (h : w.Shown c s owes) (ht : s.taken c i = false) :
    Watched.strobed (s.writePort c i) = w.finished c i.dbus := by
  have hcsr : (s.csrOutput c i).valid = false := Execute.csrOutput_idle ht
  obtain ⟨-, hjump⟩ := Execute.jumpOut_idle ht
  rw [Watched.strobed, writePort_we hc, Execute.writePort_wa, Execute.rdAdrO, ht,
    if_neg Bool.false_ne_true, Execute.regWeO, hcsr, hjump]
  cases w with
  | none =>
    simp [Execute.aluOut_idle hc.shifter h.1 ht, h.2.1.writeO hc.registered, finished]
  | shift rd =>
    obtain ⟨hm, -, hready, hidle, -, hrd⟩ := h
    have hvalid : (s.aluOut c i).valid = true := by
      simp [Execute.aluOut, AluState.out, AluState.shiftValid, hm, hready]
    simp [hvalid, hrd, finished]
  | access rd =>
    obtain ⟨hq, ⟨l, hl, -⟩ | ⟨hst, -⟩⟩ := h
    · simp [Execute.aluOut_idle hc.shifter hq ht, hl.writeO hc.registered, finished, hc.registered]
    · have hwr : s.ls.writeO c = false := by
        simp [LoadStore.writeO, hc.registered, hst.validReg]
      simp [Execute.aluOut_idle hc.shifter hq ht, hwr, finished, hc.registered]
  | answered rd =>
    obtain ⟨hq, -, ⟨store, value, hdone, rfl⟩ | ⟨hidle, rfl⟩⟩ := h
    · cases store <;>
        simp [Execute.aluOut_idle hc.shifter hq ht, hdone.writeO hc.registered, finished]
    · simp [Execute.aluOut_idle hc.shifter hq ht, hidle.writeO hc.registered, finished]

variable (hok : AnswersAccepted owes s.ls.request i.dbus)
include hok

omit hc in
theorem stuck_step (h : s.ls.Stuck) (ho : owes = false) (ht : s.taken c i = false) :
    (s.step c i).ls.Stuck ∧ i.dbus.answers = false ∧ nextOwes owes s.ls.request i.dbus = false := by
  obtain ⟨hans, ho'⟩ := Execute.no_answer_of_busEn h.busEn ho hok
  have hen : (s.lsInput c i).en = false := by simp [Execute.lsInput, DecodedOp.lsInput, ht]
  have hconf : s.ls.confirm i.dbus = false := by
    rw [LoadStore.confirm, show (i.dbus.ack || i.dbus.error) = false from hans]
    rfl
  refine ⟨⟨?_, ?_, ?_⟩, hans, ho'⟩
  · simp [Execute.step, LoadStore.step, hen, hconf, h.outstanding]
  · simp [Execute.step, LoadStore.step, hen, h.busEn]
  · simp [Execute.step, LoadStore.step, LoadStore.validComb, hconf]

theorem Shown.step_idle (h : w.Shown c s owes) (ht : s.taken c i = false) :
    (w.next c i.dbus).Shown c (s.step c i) (nextOwes owes s.ls.request i.dbus) := by
  have hen : (s.lsInput c i).en = false := by simp [Execute.lsInput, DecodedOp.lsInput, ht]
  have hrd : (s.step c i).rdAdrReg = s.rdAdrReg := by simp [Execute.step, ht]
  cases w with
  | none =>
    obtain ⟨hq, hidle, ho⟩ := h
    exact ⟨Execute.aluStep_idle hq ht, hidle.step_idle hen, (Execute.no_answer hidle ho hok).2⟩
  | shift rd =>
    obtain ⟨hm, -, hready, hidle, ho, -⟩ := h
    have hquiet : (s.step c i).alu.Quiet := by
      simp only [Execute.step, hm]
      apply AluState.step_quiet_of_idle
      simp [Execute.aluInput, DecodedOp.aluInput, AluInput.shiftEn, ht]
    exact ⟨hquiet, hidle.step_idle hen, (Execute.no_answer hidle ho hok).2⟩
  | access rd =>
    obtain ⟨hq, hacc⟩ := h
    have hq' : (s.step c i).alu.Quiet := Execute.aluStep_idle hq ht
    rcases hacc with ⟨l, hl, rfl⟩ | ⟨hst, ho, rfl⟩
    · cases hr : i.dbus.answers with
      | false =>
        simp only [next, hr, Bool.false_eq_true, if_false]
        exact ⟨hq', .inl ⟨l, hl.step_wait hc.registered hr, by rw [hrd]⟩⟩
      | true =>
        have ho' : nextOwes owes s.ls.request i.dbus = false := by simp [nextOwes, hr]
        simp only [next, hr, hc.registered, if_true]
        refine ⟨hq', ho', ?_⟩
        cases hend : l.invalidOp || l.store && c.memWriteEarlyTerm with
        | true =>
          have hend' : l.invalidOp = true ∨ l.store = true ∧ c.memWriteEarlyTerm = true := by
            simpa using hend
          refine .inr ⟨hl.step_idle hc.registered hok hr hend', if_pos ?_⟩
          rcases hend' with h1 | ⟨h1, -⟩ <;> simp [h1]
        | false =>
          obtain ⟨hinv, hearly⟩ := Bool.or_eq_false_iff.1 hend
          refine .inl ⟨l.store, _, hl.step_done hc.registered hok hr hinv hearly, ?_⟩
          rw [hrd, hinv, Bool.or_false]
    · obtain ⟨hst', hans, ho'⟩ := stuck_step hok hst ho ht
      simp only [next, hans, Bool.false_eq_true, if_false]
      exact ⟨hq', .inr ⟨hst', ho', rfl⟩⟩
  | answered rd =>
    obtain ⟨hq, ho, ⟨store, value, hdone, -⟩ | ⟨hidle, -⟩⟩ := h
    · exact ⟨Execute.aluStep_idle hq ht, hdone.step_idle hc.registered,
        (Execute.no_answer_of_busEn hdone.busEn ho hok).2⟩
    · exact ⟨Execute.aluStep_idle hq ht, hidle.step_idle hen,
        (Execute.no_answer hidle ho hok).2⟩

theorem Shown.step_taken (h : w.Shown c s owes) (hw : i.op.WellFormed) (ht : s.taken c i = true) :
    (Working.begun c i).Shown c (s.step c i) (nextOwes owes s.ls.request i.dbus) := by
  obtain ⟨hq, hidle, ho, -⟩ := h.of_taken hc ht
  obtain ⟨-, ho'⟩ := Execute.no_answer hidle ho hok
  have hrd : (s.step c i).rdAdrReg = i.op.rdAdr := by simp [Execute.step, ht]
  have hstep : (s.step c i).ls = s.ls.step c i.dbus (i.op.ls i.op1 i.op2) := by
    simp [Execute.step, Execute.lsInput, ht, DecodedOp.ls]
  have hquiet (hs : Execute.isPipelinedShift c i = false) : (s.step c i).alu.Quiet := by
    apply hq.step
    intro hm
    rw [Execute.aluInput_taken ht]
    by_contra hse
    have : Execute.isPipelinedShift c i = true :=
      Execute.isPipelinedShift_iff.2 ⟨hm, by simpa using hse⟩
    simp [hs] at this
  unfold begun
  cases hmem : i.op.loadCmd || i.op.storeCmd with
  | true =>
    have hen : (i.op.ls i.op1 i.op2).en = true := by
      simpa [DecodedOp.ls, DecodedOp.lsInput, Bool.or_comm] using hmem
    refine ⟨hquiet (Execute.not_shift_of_mem hw hmem), ?_⟩
    cases hmis : (i.op.ls i.op1 i.op2).misalign with
    | false =>
      refine .inl ⟨i.op.ls i.op1 i.op2, ?_, ?_⟩
      · rw [hstep, ho']
        exact hidle.step_issue hc.registered hen hmis
      · rw [hrd, Bool.or_false]
        rfl
    | true =>
      refine .inr ⟨?_, ho', by simp⟩
      have hb : s.ls.busyO c i.dbus = false := hidle.busyO hc.registered
      rw [hstep]
      constructor <;>
        simp [LoadStore.step, LoadStore.issue, hen, hmis, hb, LoadStore.validComb,
          LoadStore.confirm, hidle.outstanding, hidle.busEn]
  | false =>
    have hen : (i.op.ls i.op1 i.op2).en = false := by
      simpa [DecodedOp.ls, DecodedOp.lsInput, Bool.or_comm] using hmem
    have hidle' : (s.step c i).ls.Idle c := hstep ▸ hidle.step_idle hen
    cases hs : Execute.isPipelinedShift c i with
    | false => exact ⟨hquiet hs, hidle', ho'⟩
    | true =>
      obtain ⟨hm, hse⟩ := Execute.isPipelinedShift_iff.1 hs
      have halu : (s.step c i).alu = s.alu.step .pipelined (i.op.aluInput true i.op1 i.op2) := by
        simp [Execute.step, hm, Execute.aluInput_taken ht]
      obtain ⟨hbusy, hready, -⟩ := AluState.step_shift (j := i.op.aluInput true 0 0) hq hse
      exact ⟨hm, halu ▸ hbusy, halu ▸ hready, hidle', ho', hrd⟩

end Cycle
end Working
namespace Watched
variable {c : CoreConfig} {w : Watched} {i : BackendInput}

/-- With four stages the slot already holds the strobe of the next cycle. -/
structure Inv (c : CoreConfig) (w : Watched) : Prop where
  wellFormed : w.backend.decode.op.WellFormed
  shown : w.working.Shown c w.backend.execute w.owes
  slot : c.pipelineLength = .four → ∀ i, strobed (w.backend.writePort c i) = w.completed

theorem transferOp_wellFormed (d : DecodedOp) (transfer : RegisterTransfer) :
    (Decode.transferOp d transfer).WellFormed := by
  constructor <;> simp [Decode.transferOp, DecodedOp.usesRs1, DecodedOp.usesRs2]

theorem decode_wellFormed {d : Decode} (h : d.op.WellFormed) (stall kill : Bool) (i : DecodeInput)
    (transfer : RegisterTransfer) : (d.step stall kill i transfer).op.WellFormed := by
  have hclear (b f : Bool) : { d.op with invalidOpcode := b, fenceCmd := f }.WellFormed :=
    ⟨h.jumpr, h.alu, h.load, h.store, h.csr, h.jump, h.rs1Immediate, h.rs2Immediate⟩
  unfold Decode.step
  split_ifs
  · exact transferOp_wellFormed _ _
  · exact hclear _ _
  · exact h
  · exact DecodedOp.decodeWord_wellFormed _ _ _ _
  · exact hclear _ _

theorem inv_init (c : CoreConfig) : Inv c {} where
  wellFormed := by constructor <;> simp [DecodedOp.usesRs1, DecodedOp.usesRs2]
  shown := ⟨⟨rfl, rfl⟩, ⟨rfl, rfl, fun h => absurd h Bool.false_ne_true⟩, rfl⟩
  slot := fun hp i => by simp [Backend.writePort, hp, strobed]

/-- Execute's strobe is that of the instructions that complete. -/
theorem Inv.strobed_execute (hc : Execute.Qualified c) (h : Inv c w) :
    strobed (w.backend.execute.writePort c (w.backend.executeInput c i)) = w.completes c i := by
  unfold completes
  cases ht : w.backend.taken c i with
  | true => exact h.shown.strobed_taken hc h.wellFormed ht
  | false =>
    rw [h.shown.strobed_idle hc ht]
    simp [Backend.executeInput]

theorem Inv.exact (hc : Execute.Qualified c) (h : Inv c w) : w.Exact c i := by
  unfold Exact
  cases hp : c.pipelineLength with
  | three =>
    rw [Backend.writePort_three hp]
    exact h.strobed_execute hc
  | four => exact h.slot hp i

theorem inv_step (hc : Execute.Qualified c) (h : Inv c w) (hok : w.BusOk i) :
    Inv c (w.step c i) where
  wellFormed := decode_wellFormed h.wellFormed _ _ _ _
  shown := by
    show (if w.backend.taken c i then _ else _ : Working).Shown c _ _
    cases ht : w.backend.taken c i with
    | true => exact h.shown.step_taken hc hok h.wellFormed ht
    | false => exact h.shown.step_idle hc hok ht
  slot := fun hp j => by
    show strobed ((w.backend.step c i).writePort c j) = w.completes c i
    rw [Backend.writePort_four hp]
    exact h.strobed_execute hc

theorem busOk_silent (h : i.dbus = {}) : w.BusOk i := by
  rw [BusOk, h]
  exact ⟨fun h => absurd h Bool.false_ne_true, fun h => Bool.false_ne_true h.1⟩

theorem exact_run (hc : Execute.Qualified c) {is : List BackendInput}
    (h : (machine c).Along BusOk {} is) : (machine c).Along (Exact c) {} is :=
  h.mono (Inv c) (fun _ _ hs hok => inv_step hc hs hok) (fun _ _ hs _ => hs.exact hc) (inv_init c)

section Violations

def offer (word : Word) : BackendInput := { fetch := { en := true, word := word } }

/-- Without the registered read stage the strobe of the load/store unit is on after reset. -/
theorem not_exact_three (hreg : c.registeredReadStage = false) (hp : c.pipelineLength = .three) :
    ¬ (machine c).Along (Exact c) {} [{}] := by
  rintro ⟨h, -⟩
  simp [Exact, hp, strobed, completes, Working.finished, Backend.writePort, Execute.regWeO,
    LoadStore.writeO, hreg, Backend.taken, Execute.taken, Backend.executeInput] at h

def answer : BackendInput := { dbus := { ack := true } }

theorem double_completion (hreg : c.registeredReadStage = false) (hp : c.pipelineLength = .four) :
    ((machine c).run [offer 0x00002083, offer 0x00000113]).backend.execute.ls.request.en = true ∧
      strobed (((machine c).run [offer 0x00002083, offer 0x00000113, answer]).backend.writePort c
        {}) = [2] ∧
      ((machine c).run [offer 0x00002083, offer 0x00000113, answer]).completed = [1, 2] := by
  obtain ⟨mode, pred, bypass, early, reg, len, wb, rst, dbg, pb, nd, da, h1, h2, h3, h4⟩ := c
  subst hreg hp
  cases mode <;> cases bypass <;> cases wb <;> with_unfolding_all exact ⟨rfl, rfl, rfl⟩

/-- The cycle that answers a load takes the next instruction, and the slot keeps that one's
register: `lw x1, 0(x0)` and `addi x2, x0, 0`. -/
theorem not_exact_four (hreg : c.registeredReadStage = false) (hp : c.pipelineLength = .four) :
    ∃ is, (machine c).Along BusOk {} is ∧ ¬ (machine c).Along (Exact c) {} is := by
  obtain ⟨hen, hstrobed, hcompleted⟩ := double_completion hreg hp
  refine ⟨[offer 0x00002083, offer 0x00000113, answer, {}],
    ⟨busOk_silent rfl, busOk_silent rfl, ⟨fun _ => .inr ⟨hen, rfl⟩, fun h => ?_⟩, busOk_silent rfl,
      trivial⟩, ?_⟩
  · exact Bool.false_ne_true h.2
  · rintro ⟨-, -, -, h, -⟩
    rw [Exact, hp] at h
    have h12 : ([2] : List (BitVec 5)) = [1, 2] := hstrobed.symm.trans (h.trans hcompleted)
    exact absurd h12 (by decide)

theorem bne_decoded (c : CoreConfig) :
    ((machine c).run [offer 0x00001063]).backend.decode =
        ({} : Decode).step false false (offer 0x00001063).fetch {} ∧
      ((machine c).run [offer 0x00001063]).working = .none := by
  have hkill :
      ({} : Execute).kill c (({} : Backend).executeInput c (offer 0x00001063)) = false := by
    cases hb : c.jumpBypass <;>
      simp [Execute.kill, hb, Execute.taken, Backend.executeInput, offer]
  refine ⟨?_, ?_⟩
  · show ({} : Decode).step (({} : Backend).executeBusy c (offer 0x00001063))
      (({} : Execute).kill c (({} : Backend).executeInput c (offer 0x00001063)))
      (offer 0x00001063).fetch {} = _
    rw [hkill]
    rfl
  · rfl

theorem strobed_of_alu {s : Execute} {e : ExecuteInput} (h : (s.aluOut c e).valid = true) :
    strobed (s.writePort c e) ≠ [] := by
  cases hp : c.pipelineLength <;>
    simp [strobed, Execute.writePort, hp, Execute.regWeO, Execute.validO, h]

/-- The behavioral shifter is valid for every `funct3` of a shift: `bne x0, x0, 0`. -/
theorem not_exact_behavioral (hm : c.shifterMode = .behavioral) :
    ¬ (machine c).Along (Exact c) {} [offer 0x00001063, {}, {}] := by
  obtain ⟨hdecode, hworking⟩ := bne_decoded c
  rintro ⟨-, h1, h2, -⟩
  set w := (machine c).run [offer 0x00001063] with hw
  have hop : w.backend.decode.op = ({} : DecodedOp).decodeWord 0x00001063 0 0 := by
    rw [hdecode]
    rfl
  have halu : (w.backend.execute.aluOut c (w.backend.executeInput c {})).valid = true := by
    have h3 : w.backend.decode.op.funct3 = Funct3.SLL := by
      rw [hop]
      decide
    simp [Execute.aluOut, AluState.out, AluState.shiftValid, hm, AluInput.isShift, Execute.aluInput,
      DecodedOp.aluInput, Backend.executeInput, h3]
  have hwe : strobed (w.backend.execute.writePort c (w.backend.executeInput c {})) ≠ [] :=
    strobed_of_alu halu
  have hnone : w.completes c {} = [] := by
    have hprompt : w.backend.execute.promptly c (w.backend.executeInput c {}) = false := by
      simp only [Execute.promptly, Backend.executeInput, hop]
      rfl
    rw [completes, hworking, hprompt, Bool.and_false]
    rfl
  cases hp : c.pipelineLength with
  | three =>
    rw [Exact, hp] at h1
    have h1' : strobed (w.backend.writePort c {}) = w.completes c {} := h1
    rw [Backend.writePort_three hp, hnone] at h1'
    exact hwe h1'
  | four =>
    rw [Exact, hp] at h2
    have h2' : strobed ((w.backend.step c {}).writePort c {}) = w.completes c {} := h2
    rw [Backend.writePort_four hp, hnone] at h2'
    exact hwe h2'

end Violations

end Watched

/-- The write enable is on exactly for completing instructions, in every run, just when the read
stage is registered and the shifter is not the behavioral one. -/
theorem strobe_exact_iff (c : CoreConfig) :
    (∀ is, (Watched.machine c).Along Watched.BusOk {} is →
      (Watched.machine c).Along (Watched.Exact c) {} is) ↔
      c.registeredReadStage = true ∧ c.shifterMode ≠ .behavioral := by
  constructor
  · intro h
    cases hreg : c.registeredReadStage with
    | false =>
      cases hp : c.pipelineLength with
      | three =>
        exact absurd (h [{}] ⟨Watched.busOk_silent rfl, trivial⟩) (Watched.not_exact_three hreg hp)
      | four =>
        obtain ⟨is, hok, hno⟩ := Watched.not_exact_four hreg hp
        exact absurd (h is hok) hno
    | true =>
      refine ⟨rfl, fun hm => ?_⟩
      exact Watched.not_exact_behavioral hm (h _ ⟨Watched.busOk_silent rfl,
        Watched.busOk_silent rfl, Watched.busOk_silent rfl, trivial⟩)
  · rintro ⟨hreg, hm⟩ is h
    exact Watched.exact_run ⟨hreg, hm⟩ h

/-- After reset, with nothing to do and no registered read stage, the write enable is on. -/
theorem idle_strobe :
    (Watched.machine { registeredReadStage := false }).Along Watched.BusOk {} [{}] ∧
      ¬ (Watched.machine { registeredReadStage := false }).Along
        (Watched.Exact { registeredReadStage := false }) {} [{}] :=
  ⟨⟨Watched.busOk_silent rfl, trivial⟩, Watched.not_exact_three rfl rfl⟩

end BonfireCore
