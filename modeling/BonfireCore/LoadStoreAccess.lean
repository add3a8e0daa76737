import BonfireCore.LoadStore

/-! One operation on its way through the load/store unit with the registered read stage:
idle, the access, and the cycle that delivers. -/
namespace BonfireCore.LoadStore

/-- No operation is in progress. After a store that was terminated early `validReg` lags. -/
structure Idle (c : CoreConfig) (s : LoadStore) : Prop where
  outstanding : s.outstanding = false
  busEn : s.busEn = false
  validReg : s.validReg = true → s.earlyTerm c = true

/-- The operation `l` has been issued; the bus has accepted the request once it `owes`. -/
structure Access (l : LsInput) (owes : Bool) (s : LoadStore) : Prop where
  outstanding : s.outstanding = true
  validReg : s.validReg = false
  busEn : s.busEn = !owes
  adr : s.adrO = l.adr
  we : s.weO = if l.store then l.byteEnables else 0
  dbWr : l.store = true → s.dbWr = l.op2Shifted
  mode : s.pipeByteMode = l.byteMode ∧ s.pipeHwordMode = l.hwordMode ∧
    s.pipeUnsigned = l.funct3.getLsbD 2 ∧ s.pipeAdrLo = l.adr.extractLsb' 0 2
  store : s.pipeStore = l.store
  misalign : s.pipeMisalign = false
  invalidOp : s.pipeInvalidOp = l.invalidOp

/-- The answer has been registered; this cycle retires the operation. -/
structure Done (c : CoreConfig) (store : Bool) (value : Word) (s : LoadStore) : Prop where
  outstanding : s.outstanding = false
  busEn : s.busEn = false
  validReg : s.validReg = true
  store : s.pipeStore = store
  early : s.earlyTerm c = false
  value : s.resultReg = value

variable {c : CoreConfig} {s : LoadStore} {r : DbusResponse 32} {l i : LsInput} {owes : Bool}

section Outputs
variable (hreg : c.registeredReadStage = true)
include hreg

theorem Idle.busyO (h : s.Idle c) : s.busyO c r = false := by
  have hv := h.validReg
  cases he : s.earlyTerm c with
  | true => simp [LoadStore.busyO, hreg, he, LoadStore.busy, h.outstanding]
  | false =>
    have : s.validReg = false := by simpa [he] using hv
    simp [LoadStore.busyO, hreg, he, LoadStore.busy, h.outstanding, this]

theorem Idle.validO (h : s.Idle c) : s.validO c r = false := by
  have hv := h.validReg
  cases he : s.earlyTerm c with
  | true => simp [LoadStore.validO, hreg, he, validComb, confirm, h.outstanding]
  | false => simpa [LoadStore.validO, hreg, he] using hv

theorem Idle.writeO (h : s.Idle c) : s.writeO c = false := by
  have hv := h.validReg
  cases hp : s.pipeStore with
  | true => simp [LoadStore.writeO, hreg, hp]
  | false => simpa [LoadStore.writeO, hreg, hp, earlyTerm] using hv

theorem Access.busyO (h : s.Access l owes) : s.busyO c r = true := by
  simp [LoadStore.busyO, hreg, LoadStore.busy, h.outstanding]

theorem Access.writeO (h : s.Access l owes) : s.writeO c = false := by
  simp [LoadStore.writeO, hreg, h.validReg]

theorem Access.validO_load (h : s.Access l owes) (hl : l.store = false) :
    s.validO c r = false := by
  simp [LoadStore.validO, hreg, earlyTerm, h.store, hl, h.validReg]

theorem Done.busyO {store : Bool} {value : Word} (h : s.Done c store value) :
    s.busyO c r = true := by
  simp [LoadStore.busyO, hreg, h.early, h.validReg]

theorem Done.validO {store : Bool} {value : Word} (h : s.Done c store value) :
    s.validO c r = true := by
  simp [LoadStore.validO, hreg, h.early, h.validReg]

theorem Done.writeO {store : Bool} {value : Word} (h : s.Done c store value) :
    s.writeO c = !store := by
  cases hs : store <;> simp [LoadStore.writeO, hreg, h.store, h.validReg, hs]

/-- A write needs the operation to be valid, too. -/
theorem validO_of_writeO (h : s.writeO c = true) : s.validO c r = true := by
  cases hp : s.pipeStore <;> simp_all [LoadStore.writeO, LoadStore.validO, earlyTerm]

end Outputs

theorem Idle.step_idle (h : s.Idle c) (hi : i.en = false) : (s.step c r i).Idle c where
  outstanding := by simp [step, hi, confirm, h.outstanding]
  busEn := by simp [step, hi, h.busEn]
  validReg := by simp [step, validComb, confirm, h.outstanding]

theorem Idle.step_issue (hreg : c.registeredReadStage = true) (h : s.Idle c)
    (hi : i.en = true) (hm : i.misalign = false) : (s.step c r i).Access i false := by
  have hb : s.busyO c r = false := h.busyO hreg
  constructor <;>
    simp +contextual [step, issue, hi, hm, hb, validComb, confirm, h.outstanding]

theorem Access.step_wait (hreg : c.registeredReadStage = true) (h : s.Access l owes)
    (hr : r.answers = false) : (s.step c r i).Access l (nextOwes owes s.request r) := by
  have hb : s.busyO c r = true := h.busyO hreg
  have hc : s.confirm r = false := by
    simp only [DbusResponse.answers] at hr
    simp [confirm, hr]
  have hen : (if r.stall then s.busEn else false) = !nextOwes owes s.request r := by
    cases owes <;> cases hs : r.stall <;> simp [nextOwes, hr, hs, request, h.busEn]
  exact
    { outstanding := by simp [step, hb, hc, h.outstanding]
      validReg := by simp [step, validComb, hc]
      busEn := by simpa [step, hb] using hen
      adr := by simp [step, hb, h.adr]
      we := by simp [step, hb, h.we]
      dbWr := fun hl => by simp [step, hb, h.dbWr hl]
      mode := by simp [step, hb, h.mode]
      store := by simp [step, hb, h.store]
      misalign := by simp [step, hb, h.misalign]
      invalidOp := by simp [step, hb, h.invalidOp] }

/-- The answer ends the access, whatever the operation was. -/
theorem Access.step_answer (hreg : c.registeredReadStage = true) (h : s.Access l owes)
    (hok : AnswersAccepted owes s.request r) (hr : r.answers = true) :
    (s.step c r i).outstanding = false ∧ (s.step c r i).busEn = false ∧
      (s.step c r i).validReg = !l.invalidOp ∧ (s.step c r i).pipeStore = l.store ∧
      (s.step c r i).resultReg = l.rdMux r.dbRd := by
  have hb : s.busyO c r = true := h.busyO hreg
  have hc : s.confirm r = true := by
    simp only [DbusResponse.answers] at hr
    simp [confirm, hr, h.outstanding]
  have hen : (if r.stall then s.busEn else false) = false := by
    rcases hok.1 hr with ho | ⟨-, hs⟩
    · simp [h.busEn, ho]
    · simp [hs]
  obtain ⟨hbyte, hhword, hunsigned, hadr⟩ := h.mode
  refine ⟨by simp [step, hb, hc], by simpa [step, hb] using hen, ?_, by simp [step, hb, h.store],
    ?_⟩
  · simp [step, validComb, hc, h.misalign, h.invalidOp]
  · simp [step, rdmuxOut, hbyte, hhword, hunsigned, hadr, LsInput.rdMux]

theorem Access.step_idle (hreg : c.registeredReadStage = true) (h : s.Access l owes)
    (hok : AnswersAccepted owes s.request r) (hr : r.answers = true)
    (hl : l.invalidOp = true ∨ l.store = true ∧ c.memWriteEarlyTerm = true) :
    (s.step c r i).Idle c := by
  obtain ⟨hout, hen, hvalid, hstore, -⟩ := h.step_answer (i := i) hreg hok hr
  refine ⟨hout, hen, fun hv => ?_⟩
  rcases hl with hl | ⟨hl, hearly⟩
  · simp [hvalid, hl] at hv
  · simp [earlyTerm, hstore, hl, hearly]

theorem Access.step_done (hreg : c.registeredReadStage = true) (h : s.Access l owes)
    (hok : AnswersAccepted owes s.request r) (hr : r.answers = true)
    (hl : l.invalidOp = false) (hearly : (l.store && c.memWriteEarlyTerm) = false) :
    (s.step c r i).Done c l.store (l.rdMux r.dbRd) := by
  obtain ⟨hout, hen, hvalid, hstore, hvalue⟩ := h.step_answer (i := i) hreg hok hr
  exact ⟨hout, hen, by simp [hvalid, hl], hstore, by simpa [earlyTerm, hstore] using hearly, hvalue⟩

theorem Done.step_idle (hreg : c.registeredReadStage = true) {store : Bool} {value : Word}
    (h : s.Done c store value) : (s.step c r i).Idle c := by
  have hb : s.busyO c r = true := h.busyO hreg
  constructor <;> simp [step, hb, validComb, confirm, h.outstanding, h.busEn]

section EitherSetting

/-- No operation is in progress, in either setting of the read stage. -/
structure Free (c : CoreConfig) (s : LoadStore) : Prop where
  outstanding : s.outstanding = false
  busEn : s.busEn = false
  validReg : c.registeredReadStage = true → s.validReg = true → s.earlyTerm c = true

/-- The unit serves `l`, wherever the bus is with the request. -/
structure Serving (c : CoreConfig) (l : LsInput) (s : LoadStore) : Prop where
  outstanding : s.outstanding = true
  validReg : c.registeredReadStage = true → s.validReg = false
  mode : s.pipeByteMode = l.byteMode ∧ s.pipeHwordMode = l.hwordMode ∧
    s.pipeUnsigned = l.funct3.getLsbD 2 ∧ s.pipeAdrLo = l.adr.extractLsb' 0 2
  store : s.pipeStore = l.store
  misalign : s.pipeMisalign = false
  invalidOp : s.pipeInvalidOp = l.invalidOp

/-- The request of `l`. -/
structure Driven (l : LsInput) (owes : Bool) (s : LoadStore) : Prop where
  busEn : s.busEn = !owes
  adr : s.adrO = l.adr
  we : s.weO = if l.store then l.byteEnables else 0
  dbWr : l.store = true → s.dbWr = l.op2Shifted

theorem Idle.free (h : s.Idle c) : s.Free c := ⟨h.outstanding, h.busEn, fun _ => h.validReg⟩

theorem Free.idle (h : s.Free c) (hreg : c.registeredReadStage = true) : s.Idle c :=
  ⟨h.outstanding, h.busEn, h.validReg hreg⟩

theorem Free.busyO (h : s.Free c) : s.busyO c r = false := by
  cases hreg : c.registeredReadStage with
  | true => exact (h.idle hreg).busyO hreg
  | false => simp [LoadStore.busyO, hreg, LoadStore.busy, h.outstanding]

theorem Free.validO (h : s.Free c) : s.validO c r = false := by
  cases hreg : c.registeredReadStage with
  | true => exact (h.idle hreg).validO hreg
  | false => simp [LoadStore.validO, hreg, validComb, confirm, h.outstanding]

theorem Free.step_free (h : s.Free c) (hi : i.en = false) : (s.step c r i).Free c where
  outstanding := by simp [step, hi, confirm, h.outstanding]
  busEn := by simp [step, hi, h.busEn]
  validReg := by simp [step, validComb, confirm, h.outstanding]

theorem Free.step_issue (h : s.Free c) (hi : i.en = true) (hm : i.misalign = false) :
    (s.step c r i).Serving c i ∧ (s.step c r i).Driven i false := by
  have hb : s.busyO c r = false := h.busyO
  constructor <;> constructor <;>
    simp +contextual [step, issue, hi, hm, hb, validComb, confirm, h.outstanding]

theorem Serving.confirm (h : s.Serving c l) : s.confirm r = r.answers := by
  simp [LoadStore.confirm, h.outstanding, DbusResponse.answers]

theorem Serving.busyO (h : s.Serving c l) :
    s.busyO c r = (c.registeredReadStage || !r.ack) := by
  cases hreg : c.registeredReadStage <;>
    simp [LoadStore.busyO, hreg, LoadStore.busy, h.outstanding]

theorem Serving.busyO_wait (h : s.Serving c l) (hr : r.answers = false) :
    s.busyO c r = true := by
  have hack : r.ack = false := by
    simp only [DbusResponse.answers, Bool.or_eq_false_iff] at hr
    exact hr.1
  simp [h.busyO, hack]

theorem Serving.validO_wait (h : s.Serving c l) (hr : r.answers = false) :
    s.validO c r = false := by
  have hv := h.validReg
  cases hreg : c.registeredReadStage <;> cases he : s.earlyTerm c <;>
    simp_all [LoadStore.validO, validComb, h.confirm]

theorem Serving.step_wait (h : s.Serving c l) (hr : r.answers = false) :
    (s.step c r i).Serving c l := by
  have hb : s.busyO c r = true := h.busyO_wait hr
  have hc : s.confirm r = false := h.confirm.trans hr
  constructor
  · simp [step, hb, hc, h.outstanding]
  · simp [step, validComb, hc]
  · simp [step, hb, h.mode]
  · simp [step, hb, h.store]
  · simp [step, hb, h.misalign]
  · simp [step, hb, h.invalidOp]

theorem Serving.rdmuxOut (h : s.Serving c l) : s.rdmuxOut r = l.rdMux r.dbRd := by
  obtain ⟨hbyte, hhword, hunsigned, hadr⟩ := h.mode
  simp [LoadStore.rdmuxOut, hbyte, hhword, hunsigned, hadr, LsInput.rdMux]

theorem Serving.validComb (h : s.Serving c l) (hr : r.answers = true) :
    s.validComb r = !l.invalidOp := by
  simp [LoadStore.validComb, h.confirm, hr, h.misalign, h.invalidOp]

/-- The answer with the registered read stage: the next cycle delivers. -/
theorem Serving.step_answer (h : s.Serving c l) (hreg : c.registeredReadStage = true)
    (hr : r.answers = true) :
    (s.step c r i).outstanding = false ∧ (s.step c r i).validReg = !l.invalidOp ∧
      (s.step c r i).pipeStore = l.store ∧ (s.step c r i).resultReg = l.rdMux r.dbRd := by
  have hb : s.busyO c r = true := by simp [h.busyO, hreg]
  refine ⟨?_, h.validComb hr, by simp [step, hb, h.store], h.rdmuxOut⟩
  simp [step, hb, h.confirm, hr]

/-- The answer without the registered read stage, and no operation behind it. -/
theorem Serving.step_free (h : s.Serving c l) (hreg : c.registeredReadStage = false)
    (hr : r.answers = true) (hen : (if r.stall then s.busEn else false) = false)
    (hi : i.en = false) : (s.step c r i).Free c where
  outstanding := by simp [step, hi, h.confirm, hr]
  busEn := by simpa [step, hi] using hen
  validReg := by simp [hreg]

/-- Without the registered read stage the next operation is taken with the answer. -/
theorem Serving.step_next (h : s.Serving c l) (hreg : c.registeredReadStage = false)
    (hr : r.ack = true) (hi : i.en = true) (hm : i.misalign = false) :
    (s.step c r i).Serving c i ∧ (s.step c r i).Driven i false := by
  have hb : s.busyO c r = false := by simp [h.busyO, hreg, hr]
  constructor <;> constructor <;>
    simp +contextual [step, issue, hi, hm, hb, hreg, LoadStore.confirm, hr, h.outstanding]

theorem Driven.step_wait (h : s.Driven l owes) (hb : s.busyO c r = true)
    (hr : r.answers = false) : (s.step c r i).Driven l (nextOwes owes s.request r) where
  busEn := by
    cases owes <;> cases hs : r.stall <;> simp [step, hb, nextOwes, hr, hs, request, h.busEn]
  adr := by simp [step, hb, h.adr]
  we := by simp [step, hb, h.we]
  dbWr := fun hl => by simp [step, hb, h.dbWr hl]

end EitherSetting

end BonfireCore.LoadStore
