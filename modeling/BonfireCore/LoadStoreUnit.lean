import BonfireCore.LoadStore

/-! The load/store unit with a pipeline of outstanding requests. -/
namespace BonfireCore

/-- `max_outstanding` cannot be larger than the latency of the unit. -/
structure LsuConfig extends CoreConfig where
  loadstoreOutstanding : ℕ := 1
  outstanding_range : 0 < loadstoreOutstanding ∧
    loadstoreOutstanding ≤ if registeredReadStage then 3 else 2 := by decide

namespace LsuConfig
variable (c : LsuConfig)

def maxPipeIndex : ℕ := c.loadstoreOutstanding - 1

/-- Writes complete with the answer of the bus, so their pipeline is a stage shorter. -/
def writePipeIndex : ℕ := if c.loadstoreOutstanding = 3 then 1 else c.loadstoreOutstanding - 1

def muxIndex : ℕ := if c.loadstoreOutstanding = 3 then 1 else c.maxPipeIndex

end LsuConfig

/-- One stage of the arrays `pipe_rd`, `pipe_adr_lo` and so on. -/
structure PipeEntry where
  rd : BitVec 5 := 0
  adrLo : BitVec 2 := 0
  byteMode : Bool := false
  hwordMode : Bool := false
  isUnsigned : Bool := false
  store : Bool := false
  misalign : Bool := false
  invalidOp : Bool := false
  deriving DecidableEq, Repr

/-- What `drive_bus` puts into the first stage. -/
def LsInput.entry (i : LsInput) : PipeEntry where
  rd := i.rd
  adrLo := i.adr.extractLsb' 0 2
  byteMode := i.byteMode
  hwordMode := i.hwordMode
  isUnsigned := i.funct3.getLsbD 2
  store := i.store
  misalign := i.misalign
  invalidOp := i.invalidOp

/-- Of `pipe` the stages below `max_outstanding` exist. -/
structure LoadStoreUnit where
  outstanding : ℕ := 0
  enR : Bool := false
  busEn : Bool := false
  adrO : Word := 0
  weO : BitVec 4 := 0
  dbWr : Word := 0
  pipe : ℕ → PipeEntry := fun _ => {}
  busErrorO : Bool := false
  invalidOpO : Bool := false
  misalignLoadO : Bool := false
  misalignStoreO : Bool := false
  validReg : Bool := false
  resultReg : Word := 0

namespace LoadStoreUnit
variable (c : LsuConfig) (s : LoadStoreUnit) (r : DbusResponse 32) (i : LsInput)

def confirm : Bool := (r.ack || r.error) && decide (0 < s.outstanding)

def capacityBusy : Bool :=
  decide (s.outstanding = c.loadstoreOutstanding) && !(!c.registeredReadStage && r.ack)

/-- With a single slot the stall of the bus is redundant. -/
def busy : Bool :=
  if c.loadstoreOutstanding = 1 then s.capacityBusy c r else r.stall || s.capacityBusy c r

def validComb : Bool :=
  s.confirm r && !((s.pipe c.maxPipeIndex).misalign || (s.pipe c.maxPipeIndex).invalidOp)

def rdmuxOut : Word :=
  let e := s.pipe c.muxIndex
  rdMux e.byteMode e.hwordMode e.isUnsigned e.adrLo r.dbRd

def earlyTerm : Bool := (s.pipe c.writePipeIndex).store && c.memWriteEarlyTerm

def validO : Bool :=
  if c.registeredReadStage then if s.earlyTerm c then s.validComb c r else s.validReg
  else s.validComb c r

def busyO : Bool :=
  if c.registeredReadStage then
    if s.earlyTerm c then s.busy c r else s.busy c r || s.validReg
  else s.busy c r

def writeO : Bool :=
  if c.registeredReadStage then if (s.pipe c.writePipeIndex).store then false else s.validReg
  else !(s.pipe c.writePipeIndex).store

def resultO : Word := if c.registeredReadStage then s.resultReg else s.rdmuxOut c r

def rdO : BitVec 5 := (s.pipe c.maxPipeIndex).rd

def request : DbusRequest 32 where
  en := s.busEn
  adr := s.adrO
  we := s.weO
  dbWr := s.dbWr

def taken : Bool := i.en && !s.busyO c r

/-- The condition under which `drive_bus` advances the pipeline. -/
def advance : Bool := (i.en || s.enR) && !s.busy c r

/-- `drive_bus`: a new operation. -/
def issue (s : LoadStoreUnit) : LoadStoreUnit :=
  if i.misalign then s
  else
    { s with
      adrO := i.adr
      busEn := true
      weO := if i.store then i.byteEnables else 0
      dbWr := if i.store then i.op2Shifted else s.dbWr }

def nextPipe : ℕ → PipeEntry
  | 0 => if s.taken c r i then i.entry else s.pipe 0
  | k + 1 =>
    if 1 < c.loadstoreOutstanding && s.advance c r i then s.pipe k else s.pipe (k + 1)

/-- The clocked processes. -/
def step : LoadStoreUnit :=
  let taken := s.taken c r i
  let last := s.pipe c.maxPipeIndex
  let t := { s with busEn := if r.stall then s.busEn else false }
  let t := if taken then issue i t else t
  { t with
    pipe := s.nextPipe c r i
    busErrorO := if s.confirm r then r.error else s.busErrorO
    invalidOpO := if s.confirm r then last.invalidOp else s.invalidOpO
    misalignLoadO := if s.confirm r then last.misalign && !last.store else s.misalignLoadO
    misalignStoreO := if s.confirm r then last.misalign && last.store else s.misalignStoreO
    enR :=
      if taken then true
      else if s.confirm r && decide (s.outstanding - 1 = 0) then false
      else s.enR
    outstanding :=
      if taken && !s.confirm r then s.outstanding + 1
      else if !taken && s.confirm r then s.outstanding - 1
      else s.outstanding
    resultReg := s.rdmuxOut c r
    validReg := s.validComb c r }

section Single
variable {c s r i}

/-- The unit with one slot, as it stands in the core. -/
def single (s : LoadStoreUnit) : LoadStore where
  outstanding := decide (s.outstanding = 1)
  busEn := s.busEn
  adrO := s.adrO
  weO := s.weO
  dbWr := s.dbWr
  pipeRd := (s.pipe 0).rd
  pipeAdrLo := (s.pipe 0).adrLo
  pipeByteMode := (s.pipe 0).byteMode
  pipeHwordMode := (s.pipe 0).hwordMode
  pipeUnsigned := (s.pipe 0).isUnsigned
  pipeStore := (s.pipe 0).store
  pipeMisalign := (s.pipe 0).misalign
  pipeInvalidOp := (s.pipe 0).invalidOp
  busErrorO := s.busErrorO
  invalidOpO := s.invalidOpO
  misalignLoadO := s.misalignLoadO
  misalignStoreO := s.misalignStoreO
  validReg := s.validReg
  resultReg := s.resultReg

section Outputs
variable (hc : c.loadstoreOutstanding = 1)
include hc

theorem single_indices : c.maxPipeIndex = 0 ∧ c.writePipeIndex = 0 ∧ c.muxIndex = 0 := by
  simp [LsuConfig.maxPipeIndex, LsuConfig.writePipeIndex, LsuConfig.muxIndex, hc]

omit hc in
theorem single_confirm (ho : s.outstanding ≤ 1) : s.single.confirm r = s.confirm r := by
  have h : s.outstanding = 1 ↔ 0 < s.outstanding := by omega
  simp [LoadStore.confirm, confirm, single, h]

theorem single_outputs (ho : s.outstanding ≤ 1) :
    s.single.validO c.toCoreConfig r = s.validO c r ∧
      s.single.busyO c.toCoreConfig r = s.busyO c r ∧
      s.single.writeO c.toCoreConfig = s.writeO c ∧
      s.single.resultO c.toCoreConfig r = s.resultO c r ∧ s.single.request = s.request := by
  obtain ⟨hmax, hwrite, hmux⟩ := single_indices hc
  have hcomb : s.single.validComb r = s.validComb c r := by
    rw [LoadStore.validComb, validComb, single_confirm ho, hmax]
    rfl
  have hbusy : s.single.busy c.toCoreConfig r = s.busy c r := by
    simp [LoadStore.busy, busy, capacityBusy, hc, single]
  have hearly : s.single.earlyTerm c.toCoreConfig = s.earlyTerm c := by
    rw [LoadStore.earlyTerm, earlyTerm, hwrite]
    rfl
  refine ⟨?_, ?_, ?_, ?_, rfl⟩
  · rw [LoadStore.validO, validO, hearly, hcomb]
    rfl
  · rw [LoadStore.busyO, busyO, hearly, hbusy]
    rfl
  · rw [LoadStore.writeO, writeO, hwrite]
    rfl
  · rw [LoadStore.resultO, resultO, LoadStore.rdmuxOut, rdmuxOut, hmux]
    rfl

/-- A slot that is taken is given back by the answer only. -/
theorem single_step (ho : s.outstanding ≤ 1) :
    (s.step c r i).single = s.single.step c.toCoreConfig r i ∧ (s.step c r i).outstanding ≤ 1 := by
  obtain ⟨hmax, hwrite, hmux⟩ := single_indices hc
  obtain ⟨-, hbusy, -⟩ := single_outputs (r := r) hc ho
  have hconf := single_confirm (r := r) ho
  have htaken : (i.en && !s.single.busyO c.toCoreConfig r) = s.taken c r i := by rw [hbusy, taken]
  have hfree : s.taken c r i = true → s.outstanding = 1 → s.confirm r = true := by
    intro ht h1
    have hb : s.busyO c r = false := by
      simp only [taken, Bool.and_eq_true, Bool.not_eq_true'] at ht
      exact ht.2
    have hcap : s.capacityBusy c r = false := by
      cases hreg : c.registeredReadStage <;> cases he : s.earlyTerm c <;>
        simp_all [busyO, busy]
    have hack : r.ack = true := by
      simp only [capacityBusy, h1, hc] at hcap
      revert hcap
      cases c.registeredReadStage <;> cases r.ack <;> simp
    simp [confirm, hack, h1]
  have hout : ((s.step c r i).outstanding = 1 ↔
      (if s.taken c r i && !s.confirm r then true
        else if !s.taken c r i && s.confirm r then false else decide (s.outstanding = 1)) = true) ∧
      (s.step c r i).outstanding ≤ 1 := by
    have hpos : s.confirm r = true → 0 < s.outstanding := by simp [confirm]
    cases ht : s.taken c r i <;> cases hf : s.confirm r <;> simp [step, ht, hf] <;> grind
  refine ⟨?_, hout.2⟩
  have houtb : decide ((s.step c r i).outstanding = 1) =
      (if s.taken c r i && !s.confirm r then true
        else if !s.taken c r i && s.confirm r then false else decide (s.outstanding = 1)) := by
    rw [Bool.eq_iff_iff, decide_eq_true_iff]
    exact hout.1
  have hcomb : s.single.validComb r = s.validComb c r := by
    rw [LoadStore.validComb, validComb, hconf, hmax]
    rfl
  have hmuxOut : s.single.rdmuxOut r = s.rdmuxOut c r := by
    rw [LoadStore.rdmuxOut, rdmuxOut, hmux]
    rfl
  rw [single, LoadStore.step, htaken, hconf, hcomb, hmuxOut, houtb]
  cases ht : s.taken c r i <;> cases hm : i.misalign <;>
    simp [step, issue, LoadStore.issue, nextPipe, ht, hm, hmax, single, LsInput.entry]

end Outputs

end Single

end LoadStoreUnit
end BonfireCore
