import BonfireCore.ExecutePhase

/-! The register writes of Execute, as the port of the register file shows them. -/
namespace BonfireCore

section Registers
variable {regs : BitVec 5 → Word} {w : WritePort} {rd : BitVec 5}

theorem writeReg_off (h : w.we = false) : RegFile.writeReg regs w = regs := by
  simp [RegFile.writeReg, h]

/-- The last write of a register counts. -/
theorem writeReg_writeReg (h : w.wa = rd) (v : Word) :
    RegFile.writeReg (RegFile.writeReg regs w) ⟨true, rd, v⟩ =
      RegFile.writeReg regs ⟨true, rd, v⟩ := by
  subst h
  by_cases h0 : w.wa = 0#5
  · simp [RegFile.writeReg, h0]
  · cases hw : w.we <;> simp [RegFile.writeReg, h0, hw]

theorem writeReg_zero (h : w.wa = 0) :
    RegFile.writeReg regs w = regs := by
  simp [RegFile.writeReg, h]

end Registers

namespace Execute

/-- The register write of a cycle; with four stages the writeback slot makes it a cycle later. -/
def writePort (c : CoreConfig) (s : Execute) (i : ExecuteInput) : WritePort :=
  match c.pipelineLength with
  | .three => { we := s.regWeO c i, wa := s.rdAdrO c i, wd := s.resultO c i }
  | .four =>
    { we := s.validO c i && s.regWeO c i
      wa := s.rdAdrO c i
      wd := (Writeback.capture c s i).data }

/-- The registers after a run of Execute. -/
def registers (c : CoreConfig) : Execute → List ExecuteInput → (BitVec 5 → Word) → BitVec 5 → Word
  | _, [], regs => regs
  | s, i :: is, regs => registers c (s.step c i) is (RegFile.writeReg regs (s.writePort c i))

variable {c : CoreConfig} {s : Execute} {i : ExecuteInput}

theorem writePort_three (hp : c.pipelineLength = .three) :
    s.writePort c i = ⟨s.regWeO c i, s.rdAdrO c i, s.resultO c i⟩ := by
  simp only [writePort, hp]

theorem writePort_four (hp : c.pipelineLength = .four) :
    s.writePort c i =
      ⟨s.validO c i && s.regWeO c i, s.rdAdrO c i, (Writeback.capture c s i).data⟩ := by
  simp only [writePort, hp]

theorem writePort_wa : (s.writePort c i).wa = s.rdAdrO c i := by
  cases hp : c.pipelineLength with
  | three => simp [writePort_three hp]
  | four => simp [writePort_four hp]

end Execute

theorem Backend.writePort_three {c : CoreConfig} (hp : c.pipelineLength = .three) (b : Backend)
    (i : BackendInput) : b.writePort c i = b.execute.writePort c (b.executeInput c i) := by
  simp only [Backend.writePort, Execute.writePort, hp]

theorem Backend.writePort_four {c : CoreConfig} (hp : c.pipelineLength = .four) (b : Backend)
    (i j : BackendInput) :
    (b.step c i).writePort c j = b.execute.writePort c (b.executeInput c i) := by
  simp only [Backend.writePort, Execute.writePort, Backend.step, hp, if_true]
  rfl

end BonfireCore
