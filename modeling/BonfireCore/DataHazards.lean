import BonfireCore.Retirement

/-! Data hazards are invisible: over any bus latency, legal instructions compute and retire
as if each had the machine to itself. -/
namespace BonfireCore
namespace Traced

variable {c : CoreConfig} {t : Traced} {i : BackendInput}

/-- A load or store the instruction set defines, at an aligned address. -/
structure LegalAccess (c : CoreConfig) (b : Backend) : Prop where
  load : b.decode.op.loadCmd = true → b.decode.op.funct3 ∈ [0, 1, 2, 4, 5]
  store : b.decode.op.storeCmd = true → b.decode.op.funct3 ∈ [0, 1, 2]
  aligned : Aligned c b

/-- A cycle of a legal stream: no fault, and a data bus that answers what it has accepted. -/
structure LegalStep (c : CoreConfig) (t : Traced) (i : BackendInput) : Prop where
  noDebug : i.debug = {}
  bus : AnswersAccepted t.owes t.backend.execute.ls.request i.dbus
  noError : i.dbus.error = false
  legal : t.backend.taken c i = true → LegalAccess c t.backend

instance : Decidable (Aligned c t.backend) := inferInstanceAs (Decidable (_ → _))

instance : Decidable (LegalAccess c t.backend) :=
  decidable_of_iff
    ((t.backend.decode.op.loadCmd = true → t.backend.decode.op.funct3 ∈ [0, 1, 2, 4, 5]) ∧
      (t.backend.decode.op.storeCmd = true → t.backend.decode.op.funct3 ∈ [0, 1, 2]) ∧
      Aligned c t.backend)
    ⟨fun h => ⟨h.1, h.2.1, h.2.2⟩, fun h => ⟨h.load, h.store, h.aligned⟩⟩

instance : Decidable (LegalStep c t i) :=
  decidable_of_iff
    (i.debug = {} ∧ AnswersAccepted t.owes t.backend.execute.ls.request i.dbus ∧
      i.dbus.error = false ∧ (t.backend.taken c i = true → LegalAccess c t.backend))
    ⟨fun h => ⟨h.1, h.2.1, h.2.2.1, h.2.2.2⟩, fun h => ⟨h.noDebug, h.bus, h.noError, h.legal⟩⟩

/-- Nothing is in progress in Execute or in the writeback slot. -/
def Drained (c : CoreConfig) (t : Traced) (i : BackendInput) : Prop :=
  t.backend.executeBusy c i = false ∧ (c.pipelineLength = .four → t.backend.wb.valid = false)

theorem LegalAccess.invalidOp (h : LegalAccess c t.backend) (x1 x2 : Word)
    (hmem : (t.backend.decode.op.loadCmd || t.backend.decode.op.storeCmd) = true)
    (hw : t.backend.decode.op.WellFormed) : (t.backend.decode.op.ls x1 x2).invalidOp = false := by
  have hls : (t.backend.decode.op.ls x1 x2).funct3 = t.backend.decode.op.funct3 ∧
      (t.backend.decode.op.ls x1 x2).store = t.backend.decode.op.storeCmd := ⟨rfl, rfl⟩
  rw [LsInput.invalidOp, LsInput.byteMode, LsInput.wordMode, LsInput.hwordMode, hls.1, hls.2]
  cases hl : t.backend.decode.op.loadCmd with
  | true =>
    have hs : t.backend.decode.op.storeCmd = false := (hw.load hl).1
    have hf := h.load hl
    rw [hs]
    revert hf
    generalize t.backend.decode.op.funct3 = f
    revert f
    decide
  | false =>
    have hs : t.backend.decode.op.storeCmd = true := by simpa [hl] using hmem
    have hf := h.store hs
    rw [hs]
    revert hf
    generalize t.backend.decode.op.funct3 = f
    revert f
    decide

/-- No operation the unit has seen was invalid. -/
def Clean (c : CoreConfig) (t : Traced) : Prop :=
  (∃ p, Inv c t p) ∧ t.backend.execute.ls.pipeInvalidOp = false

theorem Inv.decode_of_taken {p : Pending} (h : Inv c t p) (ht : t.backend.taken c i = true) :
    Decoded t.backend := by
  simp only [Backend.taken, Execute.taken, Bool.and_eq_true] at ht
  exact h.decode ht.1

theorem Inv.none_of_taken (hc : Execute.Qualified c) {p : Pending} (h : Inv c t p)
    (ht : t.backend.taken c i = true) : p = .none := by
  by_contra hp
  have hnot := h.phase.not_taken (i := t.backend.executeInput c i) hc hp
  rw [Backend.taken, hnot] at ht
  exact Bool.false_ne_true ht

theorem LegalStep.contained (hc : Execute.Qualified c) (h : Clean c t) (hok : LegalStep c t i) :
    Contained c t i where
  noDebug := hok.noDebug
  bus := hok.bus
  aligned := fun ht => (hok.legal ht).aligned
  own := by
    intro ht _ hl
    obtain ⟨⟨p, hp⟩, hclean⟩ := h
    obtain rfl := hp.none_of_taken hc ht
    have hinv := hp.phase.2.2.2.2 hl
    rw [hclean] at hinv
    exact absurd hinv Bool.false_ne_true
  load := fun _ herr => absurd (hok.noError.symm.trans herr) Bool.false_ne_true

theorem Clean.step (hc : Execute.Qualified c) (h : Clean c t) (hok : LegalStep c t i) :
    Clean c (t.step c i) := by
  refine ⟨inv_step hc h.1 (hok.contained hc h), ?_⟩
  obtain ⟨⟨p, hp⟩, hclean⟩ := h
  show (t.backend.execute.ls.step c i.dbus (t.backend.execute.lsInput c _)).pipeInvalidOp = false
  unfold LoadStore.step
  cases hen : (t.backend.execute.lsInput c (t.backend.executeInput c i)).en &&
      !t.backend.execute.ls.busyO c i.dbus with
  | false => simpa using hclean
  | true =>
    simp only [Bool.and_eq_true] at hen
    have hen' : ((t.backend.decode.op.storeCmd || t.backend.decode.op.loadCmd) &&
        t.backend.taken c i) = true := hen.1
    simp only [Bool.and_eq_true] at hen'
    obtain ⟨hmem, ht⟩ := hen'
    have hinv := (hok.legal ht).invalidOp (t.backend.op1 c) (t.backend.op2 c)
      (by rw [Bool.or_comm]; exact hmem) (hp.decode_of_taken ht).wellFormed
    have hls : t.backend.execute.lsInput c (t.backend.executeInput c i) =
        t.backend.decode.op.ls (t.backend.op1 c) (t.backend.op2 c) := by
      simp only [Execute.lsInput]
      rw [show t.backend.execute.taken c (t.backend.executeInput c i) = true from ht]
      rfl
    simp [LoadStore.issue, hls, hinv]

theorem Clean.run (hc : Execute.Qualified c) {is : List BackendInput}
    (h : (machine c).Along (LegalStep c) {} is) : Clean c ((machine c).run is) :=
  h.invariant (Clean c) (fun _ _ hs hok => hs.step hc hok) ⟨⟨.none, inv_init c⟩, rfl⟩

/-- What is not yet in the register file is in Execute or in the writeback slot. -/
theorem Inv.late {p : Pending} (h : Inv c t p) : ∃ late, Arch.writes c t.taken = late ++ t.writes ∧
    late.length ≤ 2 := by
  refine ⟨_, h.writes, ?_⟩
  rw [List.length_append, Option.length_toList, Option.length_toList]
  split_ifs <;> omega

theorem Inv.none_of_drained (hc : Execute.Qualified c) {p : Pending} (h : Inv c t p)
    (hd : Drained c t i) : p = .none := by
  by_contra hp
  have := h.phase.busy (i := t.backend.executeInput c i) hc hp
  rw [Drained, Backend.executeBusy, this] at hd
  exact Bool.false_ne_true hd.1.symm

theorem Inv.drained (hc : Execute.Qualified c) {p : Pending} (h : Inv c t p)
    (hd : Drained c t i) : t.backend.regfile.registers = (Arch.after c t.taken).regs := by
  obtain rfl := h.none_of_drained hc hd
  have hslot : slot c t.backend = none := by
    unfold slot
    rw [if_neg]
    rintro ⟨hfour, hv, -⟩
    rw [hd.2 hfour] at hv
    exact Bool.false_ne_true hv
  rw [after_regs, h.registers, h.writes, hslot]
  simp [Pending.value]

/-- Operands, results and their order are those of the stream executed one instruction at a
time, and once the pipeline has drained so is the register file. -/
theorem hazards_invisible (c : CoreConfig) (hregistered : c.registeredReadStage = true)
    (hshifter : c.shifterMode ≠ .behavioral) (is : List BackendInput)
    (hlegal : (machine c).Along (LegalStep c) {} is) :
    OperandsExact c ((machine c).run is).taken ∧
      (∃ late, Arch.writes c ((machine c).run is).taken = late ++ ((machine c).run is).writes ∧
        late.length ≤ 2) ∧
      ((machine c).run is).backend.regfile.registers =
        WriteLog.replay (fun _ => 0) ((machine c).run is).writes ∧
      ∀ i, Drained c ((machine c).run is) i →
        ((machine c).run is).backend.regfile.registers =
          (Arch.after c ((machine c).run is).taken).regs := by
  have hc : Execute.Qualified c := ⟨hregistered, hshifter⟩
  obtain ⟨⟨p, h⟩, -⟩ := Clean.run hc hlegal
  exact ⟨h.exact, h.late, h.registers, fun i => h.drained hc⟩

/-- `addi x1, x0, 4`, `add x2, x1, x1`, `lw x3, 0(x2)` and `addi x4, x3, 1` back to back in
the four-stage pipeline without the bypass; the load is answered in the second cycle. -/
def dependentRun : List BackendInput :=
  let offer (word ip : Word) : BackendInput :=
    { fetch := { en := true, word := word, currentIp := ip, nextIp := ip + 4 } }
  [offer 0x00400093 0, offer 0x00108133 4, offer 0x00012183 8, offer 0x00012183 8,
    offer 0x00118213 12, offer 0x00118213 12, {}, { dbus := { ack := true, dbRd := 41 } }, {}, {},
    {}, {}]

theorem hazards_invisible_dependent :
    (Arch.after { pipelineLength := .four } ((machine { pipelineLength := .four }).run
      dependentRun).taken).regs 4 = 42 ∧
    ((machine { pipelineLength := .four }).run dependentRun).backend.regfile.registers =
      (Arch.after { pipelineLength := .four } ((machine { pipelineLength := .four }).run
        dependentRun).taken).regs :=
  ⟨by decide +kernel,
    (hazards_invisible { pipelineLength := .four } rfl (by decide) dependentRun
      (by decide +kernel)).2.2.2 {} ⟨by decide +kernel, by decide +kernel⟩⟩

end Traced
end BonfireCore
