import BonfireCore.ByteMemory
import BonfireCore.Retirement

/-! A program as the instruction set runs it: one instruction after the other over the
registers, the trap CSRs and a data memory. The cycle counter reads as zero. -/
namespace BonfireCore

open Rv32i (writeWord)

namespace CsrInput
variable (i : CsrInput)

def readsCycle : Bool :=
  i.priv = 0b11#2 && i.rw = 0b10#2 && (i.reg = CsrAdr.mcycle || i.reg = CsrAdr.mcycleh)

end CsrInput

namespace Csr
variable {c : CoreConfig} {trap : TrapCsr} {m k : BitVec 64} {d : Option DebugCsr} {i : CsrInput}

theorem select_mcycle (h : i.readsCycle = false) :
    (⟨trap, m⟩ : Csr).select c d i = (⟨trap, k⟩ : Csr).select c d i := by
  unfold select
  split_ifs
  all_goals first
    | rfl
    | simp_all [CsrInput.readsCycle]

theorem out_mcycle (h : i.readsCycle = false) :
    (⟨trap, m⟩ : Csr).out c d i = (⟨trap, k⟩ : Csr).out c d i := by
  unfold out
  rw [select_mcycle h]

/-- The trap CSRs do not depend on the cycle counter. -/
theorem step_trap_mcycle (u : TrapCsrUpdate) :
    ((⟨trap, m⟩ : Csr).step c d i u).trap = ((⟨trap, k⟩ : Csr).step c d i u).trap := by
  cases h : i.readsCycle with
  | false =>
    unfold step csrOut
    rw [select_mcycle (m := m) (k := k) h]
  | true =>
    have hwe (m : BitVec 64) : ((⟨trap, m⟩ : Csr).select c d i).csrWe = false := by
      simp only [CsrInput.readsCycle, Bool.and_eq_true, Bool.or_eq_true, decide_eq_true_eq] at h
      obtain ⟨⟨hpriv, hrw⟩, hreg⟩ := h
      rcases hreg with hreg | hreg <;>
        simp [select, hpriv, hrw, hreg, CsrAdr.mcycle, CsrAdr.mcycleh]
    simp [step, hwe]

end Csr

/-- The instruction puts the cycle counter into a register. -/
def DecodedOp.readsCycle (op : DecodedOp) : Bool :=
  op.csrCmd && op.rdAdr ≠ 0 && (op.csrInput true 0).readsCycle

theorem DecodedOp.Agrees.readsCycle_eq {a b : DecodedOp} (h : Agrees a b) :
    a.readsCycle = b.readsCycle := by
  obtain ⟨-, -, -, -, -, -, hcsr, -⟩ := h.classes
  unfold DecodedOp.readsCycle
  rw [hcsr, h.registers.2.2]
  cases hc : b.csrCmd with
  | false => simp
  | true =>
    have hp : a.privFunct12 = b.privFunct12 := h.privFunct12 (by simp [hcsr, hc])
    simp [CsrInput.readsCycle, CsrInput.priv, CsrInput.rw, CsrInput.reg, csrInput, hp]

/-- A load or store does not. -/
theorem DecodedOp.WellFormed.readsCycle_mem {op : DecodedOp} (h : op.WellFormed)
    (hmem : (op.loadCmd || op.storeCmd) = true) : op.readsCycle = false := by
  have hcsr : op.csrCmd = false := by
    rcases Bool.or_eq_true _ _ ▸ hmem with hl | hs
    · exact (h.load hl).2.2.2.1
    · exact (h.store hs).2.2.1
  simp [DecodedOp.readsCycle, hcsr]

namespace Arch
variable {c : CoreConfig} {a : Arch} {f : Fetched} {m k : BitVec 64} {x y : Option Word}

/-- Only a load depends on what the data bus answers. -/
theorem write_congr (hcycle : (op f).readsCycle = false)
    (hload : (op f).loadCmd = true → x = y) : a.write c f m x = a.write c f k y := by
  unfold write
  by_cases hrd : (op f).rdAdr = 0#5
  · simp [regWrite, hrd]
  congr 1
  unfold DecodedOp.result
  have hcsr (hc : (op f).csrCmd = true) :
      (op f).csr c (a.op1 f) ⟨a.trap, m⟩ = (op f).csr c (a.op1 f) ⟨a.trap, k⟩ := by
    refine Csr.out_mcycle ?_
    simp only [DecodedOp.readsCycle, hc, Bool.true_and, Bool.and_eq_false_iff,
      decide_eq_false_iff_not, not_not] at hcycle
    exact hcycle.resolve_left hrd
  cases hj : (op f).jumpCmd || (op f).jumprCmd with
  | true => rfl
  | false =>
    cases ha : (op f).aluCmd with
    | true => rfl
    | false =>
      cases hc : (op f).csrCmd with
      | true => simp [hcsr hc]
      | false =>
        cases hl : (op f).loadCmd with
        | true => simp [hload hl]
        | false => simp

theorem exec_congr (hcycle : (op f).readsCycle = false) (hload : (op f).loadCmd = true → x = y) :
    a.exec c f m x = a.exec c f k y := by
  unfold exec
  rw [write_congr (k := k) hcycle hload, Csr.step_trap_mcycle (k := k)]

end Arch

/-- What a program sees, with its data memory and the address it goes on at. -/
structure ProgramState where
  pc : Word
  arch : Arch := {}
  mem : BitVec 30 → Word

namespace ProgramState
variable (c : CoreConfig) (imem : Word → Word) (s : ProgramState)

def fetched : Fetched := ⟨imem s.pc, s.pc, s.pc + 4⟩

def op : DecodedOp := Arch.op (s.fetched imem)

def access : LsInput :=
  (s.op imem).ls (s.arch.op1 (s.fetched imem)) (s.arch.op2 (s.fetched imem))

/-- What the data memory answers. -/
def answer : Option Word :=
  if (s.op imem).loadCmd then some (s.mem ((s.access imem).adr.extractLsb' 2 30)) else none

/-- The register write of the next instruction. -/
def write : Option (BitVec 5 × Word) := s.arch.write c (s.fetched imem) 0 (s.answer imem)

/-- The write to the data memory. -/
def store : Option (DbusRequest 32) :=
  if (s.op imem).storeCmd then
    some { en := true, adr := (s.access imem).adr, we := (s.access imem).byteEnables,
           dbWr := (s.access imem).op2Shifted }
  else none

def step : ProgramState where
  pc := s.arch.nextPc (s.fetched imem)
  arch := s.arch.exec c (s.fetched imem) 0 (s.answer imem)
  mem :=
    match s.store imem with
    | some m => writeWord s.mem m.adr m.we m.dbWr
    | none => s.mem

/-- The state after so many instructions. -/
def after : ℕ → ProgramState
  | 0 => s
  | n + 1 => (after n).step c imem

/-- What the instructions did, the latest first. -/
def log {α : Type*} (observe : ProgramState → List α) : ℕ → List α
  | 0 => []
  | n + 1 => observe (s.after c imem n) ++ log observe n

def visited (s : ProgramState) : List (Word × Word) := [(s.pc, imem s.pc)]

variable {c imem s}

/-- A longer run only adds. -/
theorem log_suffix {α : Type*} (observe : ProgramState → List α) {m n : ℕ} (h : m ≤ n) :
    s.log c imem observe m <:+ s.log c imem observe n := by
  induction n with
  | zero => rw [Nat.le_zero.1 h]
  | succ n ih =>
    rcases Nat.le_succ_iff.1 h with h | rfl
    · exact (ih h).trans (List.suffix_append _ _)
    · exact List.suffix_rfl

end ProgramState

/-- The configuration with the jump bypass on or off. -/
def CoreConfig.setBypass (c : CoreConfig) (bypass : Bool) : CoreConfig :=
  { c with jumpBypass := bypass }

namespace ProgramState
variable (c : CoreConfig) (bypass : Bool) (imem : Word → Word) (s : ProgramState)

/-- The instruction set knows no bypass. -/
theorem step_setBypass : s.step (c.setBypass bypass) imem = s.step c imem := rfl

theorem after_setBypass (n : ℕ) : s.after (c.setBypass bypass) imem n = s.after c imem n := by
  induction n with
  | zero => rfl
  | succ n ih => rw [after, after, ih, step_setBypass]

theorem log_setBypass {α : Type*} (observe : ProgramState → List α) (n : ℕ) :
    s.log (c.setBypass bypass) imem observe n = s.log c imem observe n := by
  induction n with
  | zero => rfl
  | succ n ih => rw [log, log, ih, after_setBypass]

end ProgramState
end BonfireCore
