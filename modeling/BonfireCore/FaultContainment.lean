import BonfireCore.DataHazards

/-! Faulting loads and stores. A fault stays with the operation as long as the step is not
one of those where the unit or the result mux lets it out. -/
namespace BonfireCore
namespace Traced

variable {c : CoreConfig} {t : Traced} {i : BackendInput}

/-- What a cycle must not bring for faults to be contained: a misaligned access, a store with
one of the reserved modes that still drive a byte enable, a load with the unsigned word mode
or with an error answer that has a destination, and, with three stages, a one-cycle result
while `load_pending` is left over from an invalid load. -/
structure ContainedStep (c : CoreConfig) (t : Traced) (i : BackendInput) : Prop where
  contained : Contained c t i
  store : t.backend.taken c i = true → t.backend.decode.op.storeCmd = true →
    t.backend.decode.op.funct3 ∉ [4, 5, 6]
  load : t.backend.taken c i = true → t.backend.decode.op.loadCmd = true →
    t.backend.decode.op.rdAdr ≠ 0 → t.backend.decode.op.funct3 ≠ 6

instance (c : CoreConfig) (e : Execute) (x : ExecuteInput) : Decidable (e.OwnResult c x) :=
  inferInstanceAs (Decidable (_ → _ → _ → _))

instance : Decidable (ContainedStep c t i) :=
  decidable_of_iff
    ((i.debug = {} ∧ AnswersAccepted t.owes t.backend.execute.ls.request i.dbus ∧
        (t.backend.taken c i = true → Aligned c t.backend) ∧
        (t.backend.taken c i = true →
          t.backend.execute.OwnResult c (t.backend.executeInput c i)) ∧
        (t.backend.execute.ls.outstanding = true → i.dbus.error = true →
          t.backend.execute.ls.pipeStore = false → t.backend.execute.ls.pipeInvalidOp = false →
          t.backend.execute.rdAdrReg = 0)) ∧
      (t.backend.taken c i = true → t.backend.decode.op.storeCmd = true →
        t.backend.decode.op.funct3 ∉ [4, 5, 6]) ∧
      (t.backend.taken c i = true → t.backend.decode.op.loadCmd = true →
        t.backend.decode.op.rdAdr ≠ 0 → t.backend.decode.op.funct3 ≠ 6))
    ⟨fun ⟨⟨h1, h2, h3, h4, h5⟩, hs, hl⟩ => ⟨⟨h1, h2, h3, h4, h5⟩, hs, hl⟩,
      fun ⟨⟨h1, h2, h3, h4, h5⟩, hs, hl⟩ => ⟨⟨h1, h2, h3, h4, h5⟩, hs, hl⟩⟩

/-- The operation is misaligned, invalid, or was answered with an error. -/
def Faulty (a : Arch) (u : Issued) : Prop :=
  let op := Arch.op u.fetched
  (op.loadCmd || op.storeCmd) = true ∧
    ((op.ls (a.op1 u.fetched) (a.op2 u.fetched)).misalign = true ∨
      op.loadCmd = true ∧ op.funct3 ∉ [0, 1, 2, 4, 5] ∨
      op.storeCmd = true ∧ op.funct3 ∉ [0, 1, 2] ∨ u.error = true)

/-- No faulty operation is among the writes of the stream. -/
def FaultsWriteNothing (c : CoreConfig) : List Issued → Prop
  | [] => True
  | u :: us =>
    (Faulty (Arch.after c us) u →
        (Arch.after c us).write c u.fetched u.mcycle u.answer = none) ∧
      FaultsWriteNothing c us

/-- The last operation is an aligned, valid store, and `m` is its request. -/
def IsStoreRequest (c : CoreConfig) (m : DbusRequest 32) : List Issued → Prop
  | [] => False
  | u :: us =>
    let op := Arch.op u.fetched
    let l := op.ls ((Arch.after c us).op1 u.fetched) ((Arch.after c us).op2 u.fetched)
    op.storeCmd = true ∧ op.funct3 ∈ [0, 1, 2] ∧ l.misalign = false ∧
      m.adr = l.adr ∧ m.we = l.byteEnables ∧ m.dbWr = l.op2Shifted

/-- What the log says of every operation the step condition has let through. -/
def Admitted (u : Issued) : Prop :=
  let op := Arch.op u.fetched
  (op.storeCmd = true → op.funct3 ∉ [4, 5, 6]) ∧
    (op.loadCmd = true → op.rdAdr ≠ 0 → op.funct3 ≠ 6) ∧
    (u.error = true → u.answer = none)

theorem mem_answered {r : DbusResponse 32} {ts : List Issued} {u : Issued}
    (hr : ¬ (r.ack ∧ r.error)) (h : ∀ u ∈ ts, Admitted u) (hu : u ∈ answered r ts) :
    Admitted u := by
  cases ts with
  | nil => exact absurd hu (by simp [answered])
  | cons v vs =>
    rcases List.mem_cons.1 hu with rfl | hu
    · obtain ⟨hs, hl, -⟩ := h v List.mem_cons_self
      refine ⟨hs, hl, fun he => ?_⟩
      have hack : r.ack = false := by
        by_contra hack
        exact hr ⟨by simpa using hack, he⟩
      simp [hack]
    · exact h u (List.mem_cons_of_mem _ hu)

theorem admitted_step {p : Pending} (h : Inv c t p) (hlog : ∀ u ∈ t.taken, Admitted u)
    (hok : ContainedStep c t i) : ∀ u ∈ (t.step c i).taken, Admitted u := by
  intro u hu
  cases ht : t.backend.taken c i with
  | true =>
    have htaken : (t.step c i).taken = issued c t.backend :: t.taken := by simp [step, ht]
    rw [htaken] at hu
    rcases List.mem_cons.1 hu with rfl | hu
    · have hag := (h.decode_of_taken ht).agrees (c := c)
      refine ⟨fun hs => ?_, fun hl hrd => ?_, fun he => absurd he Bool.false_ne_true⟩
      · rw [← hag.functs.1]
        exact hok.store ht (hag.classes.2.2.1.trans hs)
      · rw [← hag.functs.1]
        exact hok.load ht (hag.classes.2.1.trans hl) (by rwa [hag.registers.2.2])
    · exact hlog u hu
  | false =>
    have htaken : (t.step c i).taken =
        if t.backend.execute.ls.confirm i.dbus then answered i.dbus t.taken else t.taken := by
      simp [step, ht]
    rw [htaken] at hu
    split_ifs at hu
    · exact mem_answered hok.contained.bus.2 hlog hu
    · exact hlog u hu

theorem byteEnables_reserved (l : LsInput) (h : l.funct3.extractLsb' 0 2 = 3#2) :
    l.byteEnables = 0 := by
  simp [LsInput.byteEnables, LsInput.wordMode, LsInput.hwordMode, LsInput.byteMode, h]

/-- The reserved modes that no size bit belongs to. -/
theorem invalidOp_of_reserved (l : LsInput) (h : l.funct3 ∉ [0, 1, 2, 4, 5]) (h6 : l.funct3 ≠ 6) :
    l.invalidOp = true := by
  unfold LsInput.invalidOp LsInput.byteMode LsInput.wordMode LsInput.hwordMode
  revert h h6
  generalize l.funct3 = f
  cases l.store
  · revert f
    decide
  · revert f
    decide

theorem faulty_write {a : Arch} {u : Issued} (h : Admitted u) (hf : Faulty a u) :
    a.write c u.fetched u.mcycle u.answer = none := by
  obtain ⟨-, hload, herror⟩ := h
  obtain ⟨hmem, hf⟩ := hf
  have hw : (Arch.op u.fetched).WellFormed := DecodedOp.decodeWord_wellFormed _ _ _ _
  rw [Arch.write, DecodedOp.result_mem c hw hmem]
  cases hl : (Arch.op u.fetched).loadCmd with
  | false => simp
  | true =>
    rcases hf with hmis | ⟨-, hf3⟩ | ⟨hs, -⟩ | herr
    · simp [hmis]
    · by_cases h6 : (Arch.op u.fetched).funct3 = 6
      · have h0 : (Arch.op u.fetched).rdAdr = 0 := by
          by_contra h0
          exact hload hl h0 h6
        simp [regWrite, h0]
      · have hinv := invalidOp_of_reserved
          ((Arch.op u.fetched).ls (a.op1 u.fetched) (a.op2 u.fetched)) hf3 h6
        simp [hinv]
    · rw [(hw.load hl).1] at hs
      exact absurd hs Bool.false_ne_true
    · simp [herror herr]

theorem faults_write_nothing {ts : List Issued} (h : ∀ u ∈ ts, Admitted u) :
    FaultsWriteNothing c ts := by
  induction ts with
  | nil => trivial
  | cons u us ih =>
    exact ⟨faulty_write (h u List.mem_cons_self), ih fun v hv => h v (List.mem_cons_of_mem _ hv)⟩

/-- A write request is the one of the last store. -/
theorem Inv.store_request {p : Pending} (h : Inv c t p) (hlog : ∀ u ∈ t.taken, Admitted u)
    (hen : t.backend.execute.ls.request.en = true) (hwe : t.backend.execute.ls.request.we ≠ 0) :
    IsStoreRequest c t.backend.execute.ls.request t.taken := by
  have hbus : t.backend.execute.ls.busEn = true := hen
  cases p with
  | none => simp [h.phase.2.1.busEn] at hbus
  | shift res => simp [h.phase.2.2.2.2.1.busEn] at hbus
  | done store value => simp [h.phase.2.1.busEn] at hbus
  | access l =>
    obtain ⟨-, hls, -⟩ := h.phase
    have hacc := h.access l rfl
    cases hts : t.taken with
    | nil => rw [hts] at hacc; exact hacc.elim
    | cons u us =>
      rw [hts] at hacc
      obtain ⟨-, -, hsame, -⟩ := hacc
      have hwe' : t.backend.execute.ls.weO = if l.store then l.byteEnables else 0 := hls.we
      have hne : t.backend.execute.ls.weO ≠ 0 := hwe
      have hst : l.store = true := by
        by_contra hst
        rw [hwe', if_neg hst] at hne
        exact hne rfl
      rw [if_pos hst] at hwe'
      have hs : (Arch.op u.fetched).storeCmd = true := hsame.store ▸ hst
      have hno : (Arch.op u.fetched).funct3 ∉ [4, 5, 6] :=
        (hlog u (by rw [hts]; exact List.mem_cons_self)).1 hs
      have hsize : (Arch.op u.fetched).funct3.extractLsb' 0 2 ≠ 3#2 := by
        intro h3
        rw [← hsame.funct3] at h3
        exact hne (hwe'.trans (byteEnables_reserved l h3))
      have hf3 : (Arch.op u.fetched).funct3 ∈ [0, 1, 2] := by
        revert hno hsize
        generalize (Arch.op u.fetched).funct3 = f
        revert f
        decide
      refine ⟨hs, hf3, ?_, hls.adr.trans hsame.adr, hwe'.trans ?_, (hls.dbWr hst).trans ?_⟩
      · rw [← hsame.misalign]
        unfold LsInput.misalign LsInput.hwordMode LsInput.wordMode
        rw [hsame.funct3, hsame.adr]
        rfl
      · unfold LsInput.byteEnables LsInput.wordMode LsInput.hwordMode LsInput.byteMode
        rw [hsame.funct3, hsame.adr]
        rfl
      · unfold LsInput.op2Shifted
        rw [hsame.op2 hs, hsame.adr]
        rfl

/-- The unit holds an operation only while the bus has its request or owes its answer. -/
theorem Inv.outstanding {p : Pending} (h : Inv c t p)
    (hout : t.backend.execute.ls.outstanding = true) :
    t.backend.execute.ls.request.en = true ∨ t.owes = true := by
  cases p with
  | none => simp [h.phase.2.1.outstanding] at hout
  | shift res => simp [h.phase.2.2.2.2.1.outstanding] at hout
  | done store value => simp [h.phase.2.1.outstanding] at hout
  | access l =>
    have hen : t.backend.execute.ls.busEn = !t.owes := h.phase.2.1.busEn
    cases ho : t.owes with
    | true => exact .inr rfl
    | false => exact .inl (by rw [LoadStore.request, hen, ho]; rfl)

/-- The answer makes the unit ready, at once or after the cycle that delivers the result. -/
theorem Inv.ready (hc : Execute.Qualified c) {p : Pending} (h : Inv c t p)
    {j : BackendInput} (hi : Contained c t i) (hj : Contained c (t.step c i) j)
    (hout : t.backend.execute.ls.outstanding = true) (hr : i.dbus.answers = true) :
    (t.step c i).backend.execute.ls.busyO c j.dbus = false ∨
      ∀ r, ((t.step c i).step c j).backend.execute.ls.busyO c r = false := by
  cases p with
  | none => simp [h.phase.2.1.outstanding] at hout
  | shift res => simp [h.phase.2.2.2.2.1.outstanding] at hout
  | done store value => simp [h.phase.2.1.outstanding] at hout
  | access l =>
    have hnot : t.backend.taken c i = false :=
      h.phase.not_taken (i := t.backend.executeInput c i) hc (by simp)
    have h' := h.step_idle hc hi hnot
    simp only [Pending.next, hr, if_true] at h'
    split_ifs at h' with hend
    · exact .inl (h'.phase.2.1.busyO hc.registered)
    · have hnot' : (t.step c i).backend.taken c j = false :=
        h'.phase.not_taken (i := (t.step c i).backend.executeInput c j) hc (by simp)
      have h'' := h'.step_idle hc hj hnot'
      exact .inr fun r => h''.phase.2.1.busyO hc.registered

/-- In every run that stays clear of those steps faults are contained: the stream behaves as
if the faulty operations did nothing, only valid aligned stores write to the bus, and the
unit never waits for an answer that nobody owes. -/
theorem faults_contained (c : CoreConfig) (hregistered : c.registeredReadStage = true)
    (hshifter : c.shifterMode ≠ .behavioral) (is : List BackendInput)
    (h : (machine c).Along (ContainedStep c) {} is) :
    (OperandsExact c ((machine c).run is).taken ∧
      (∃ late, Arch.writes c ((machine c).run is).taken = late ++ ((machine c).run is).writes ∧
        late.length ≤ 2) ∧
      FaultsWriteNothing c ((machine c).run is).taken) ∧
    (((machine c).run is).backend.execute.ls.request.en = true →
      ((machine c).run is).backend.execute.ls.request.we ≠ 0 →
      IsStoreRequest c ((machine c).run is).backend.execute.ls.request
        ((machine c).run is).taken) ∧
    (((machine c).run is).backend.execute.ls.outstanding = true →
      (((machine c).run is).backend.execute.ls.request.en = true ∨
        ((machine c).run is).owes = true) ∧
      ∀ i j, ContainedStep c ((machine c).run is) i →
        ContainedStep c (((machine c).run is).step c i) j → i.dbus.answers = true →
        (((machine c).run is).step c i).backend.execute.ls.busyO c j.dbus = false ∨
          ∀ r, ((((machine c).run is).step c i).step c j).backend.execute.ls.busyO c r = false) := by
  have hc : Execute.Qualified c := ⟨hregistered, hshifter⟩
  obtain ⟨⟨p, hinv⟩, hlog⟩ := h.invariant
    (fun t => (∃ p, Inv c t p) ∧ ∀ u ∈ t.taken, Admitted u)
    (fun t i ht hok => ⟨inv_step hc ht.1 hok.contained,
      ht.1.elim fun p hp => admitted_step hp ht.2 hok⟩)
    ⟨⟨.none, inv_init c⟩, fun u hu => absurd hu List.not_mem_nil⟩
  refine ⟨⟨hinv.exact, hinv.late, faults_write_nothing hlog⟩, hinv.store_request hlog,
    fun hout => ⟨hinv.outstanding hout, fun i j hi hj hr => ?_⟩⟩
  exact hinv.ready hc hi.contained hj.contained hout hr

/-- A store of the reserved mode 3 that the bus answers with an error, then `addi x1, x0, 5`
and `add x2, x1, x1`. -/
def reservedStoreRun : List BackendInput :=
  let offer (word ip : Word) : BackendInput :=
    { fetch := { en := true, word := word, currentIp := ip, nextIp := ip + 4 } }
  [offer 0x00003023 0, offer 0x00500093 4, { dbus := { error := true } }, offer 0x00108133 8,
    {}]

theorem faults_contained_reservedStore :
    (Arch.writes {} ((machine {}).run reservedStoreRun).taken = [(2, 10), (1, 5)]) ∧
      FaultsWriteNothing {} ((machine {}).run reservedStoreRun).taken :=
  ⟨by decide +kernel, (faults_contained {} rfl (by decide) reservedStoreRun (by decide +kernel)).1.2.2⟩

/-- `lw x1, 1(x0)`: the unit counts an operation for which no request is ever made. -/
theorem misaligned_load_never_asks :
    let is : List BackendInput :=
      [{ fetch := { en := true, word := 0x00102083, currentIp := 0, nextIp := 4 } }, {}]
    (machine {}).Along (fun t i =>
        i.debug = {} ∧ AnswersAccepted t.owes t.backend.execute.ls.request i.dbus) {} is ∧
      ((machine {}).run is).backend.execute.ls.outstanding = true ∧
      ((machine {}).run is).backend.execute.ls.request.en = false ∧
      ((machine {}).run is).owes = false := by
  decide +kernel

end Traced
end BonfireCore
