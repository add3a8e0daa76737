import BonfireCore.CoreConfig
import Mathlib.Logic.Function.Basic

/-! The register file: synchronous reads, and a bypass for a write to the address read. -/
namespace BonfireCore

structure RegFile where
  registers : BitVec 5 → Word := fun _ => 0
  readA : Word := 0
  readB : Word := 0
  wdataReg : Word := 0
  collisionA : Bool := false
  collisionB : Bool := false

structure WritePort where
  we : Bool
  wa : BitVec 5
  wd : Word
  deriving DecidableEq, Repr

namespace RegFile

def readReg (regs : BitVec 5 → Word) (ra : BitVec 5) : Word := if ra = 0 then 0 else regs ra

def writeReg (regs : BitVec 5 → Word) (w : WritePort) : BitVec 5 → Word :=
  if w.wa ≠ 0 && w.we then Function.update regs w.wa w.wd else regs

variable (s : RegFile)

def rdA : Word := if s.collisionA then s.wdataReg else s.readA
def rdB : Word := if s.collisionB then s.wdataReg else s.readB

def step (raA raB : BitVec 5) (w : WritePort) : RegFile where
  registers := writeReg s.registers w
  readA := readReg s.registers raA
  readB := readReg s.registers raB
  wdataReg := if w.we then w.wd else s.wdataReg
  collisionA := w.we && w.wa = raA && raA ≠ 0
  collisionB := w.we && w.wa = raB && raB ≠ 0

theorem readReg_writeReg (regs : BitVec 5 → Word) (w : WritePort) (ra : BitVec 5) :
    readReg (writeReg regs w) ra =
      if w.we && w.wa = ra && ra ≠ 0 then w.wd else readReg regs ra := by
  rcases w with ⟨we, wa, wd⟩
  by_cases h0 : ra = 0
  · simp [readReg, h0]
  · by_cases hwa : wa = ra
    · subst hwa
      cases we <;> simp_all [readReg, writeReg]
    · have hne : ra ≠ wa := fun h => hwa h.symm
      have hupd : writeReg regs ⟨we, wa, wd⟩ ra = regs ra := by
        unfold writeReg
        split
        · exact Function.update_of_ne hne _ _
        · rfl
      simp [readReg, hwa, hupd]

variable {s}

/-- What a port shows is the register as it is after the edge that sampled the address. -/
theorem step_rdA (raA raB : BitVec 5) (w : WritePort) :
    (s.step raA raB w).rdA = readReg (s.step raA raB w).registers raA := by
  show (if w.we && w.wa = raA && raA ≠ 0 then if w.we then w.wd else s.wdataReg
    else readReg s.registers raA) = readReg (writeReg s.registers w) raA
  rw [readReg_writeReg]
  cases w.we <;> simp

theorem step_rdB (raA raB : BitVec 5) (w : WritePort) :
    (s.step raA raB w).rdB = readReg (s.step raA raB w).registers raB := by
  simpa [step, rdA, rdB] using step_rdA (s := s) raB raA w

end RegFile
end BonfireCore
