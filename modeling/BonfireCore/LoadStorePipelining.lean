import BonfireCore.Clocked
import BonfireCore.LoadStoreUnit
import BonfireCore.ShiftPipeline

/-! What the pipeline of the load/store unit makes of the operations, with any number of
requests outstanding. -/
namespace BonfireCore

open ShiftPipeline

deriving instance DecidableEq for LsInput

section Specification

/-- The data of the latest store. -/
def storeData : List LsInput → Word
  | [] => 0
  | l :: ls => if l.store then l.op2Shifted else storeData ls

/-- The requests of the operations, the latest first. -/
def requestsOf : List LsInput → List (DbusRequest 32)
  | [] => []
  | l :: ls =>
    { en := true
      adr := l.adr
      we := if l.store then l.byteEnables else 0
      dbWr := storeData (l :: ls) } :: requestsOf ls

/-- The completion of an operation that is answered with `w`: the register write of a load. -/
def LsInput.completion (l : LsInput) (w : Word) : Option (BitVec 5 × Word) :=
  if l.store then none else some (l.rd, l.rdMux w)

end Specification

structure PipedInput where
  op : LsInput
  dbus : DbusResponse 32

/-- The unit, and what can be observed of it: the operations taken, each with the number of
times the pipeline has advanced since, the requests the bus has accepted, the data of its
answers and the completions, latest first. The bus has `owed` answers to give, and gave one
in the previous cycle if `answered`. -/
structure Piped where
  unit : LoadStoreUnit := {}
  items : List (LsInput × ℕ) := []
  owed : ℕ := 0
  requests : List (DbusRequest 32) := []
  answers : List Word := []
  answered : Bool := false
  completions : List (Option (BitVec 5 × Word)) := []

namespace Piped
variable (c : LsuConfig) (t : Piped) (i : PipedInput)

def ops : List LsInput := t.items.map Prod.fst

def taken : Bool := t.unit.taken c i.dbus i.op

def accepts : Bool := t.unit.busEn && !i.dbus.stall

def completion : Option (BitVec 5 × Word) :=
  if t.unit.writeO c then some (t.unit.rdO c, t.unit.resultO c i.dbus) else none

def step : Piped where
  unit := t.unit.step c i.dbus i.op
  items :=
    push (if t.taken c i then some i.op else none) (tick (t.unit.advance c i.dbus i.op) t.items)
  owed := t.owed + (t.accepts i).toNat - i.dbus.answers.toNat
  requests := if t.accepts i then t.unit.request :: t.requests else t.requests
  answers := if i.dbus.answers then i.dbus.dbRd :: t.answers else t.answers
  answered := i.dbus.answers
  completions :=
    if t.unit.validO c i.dbus then t.completion c i :: t.completions else t.completions

def machine : Clocked Piped PipedInput where
  init := {}
  step := step c

/-- Legal, aligned operations are offered; an answer comes at least a cycle after its request
was accepted, and in one way. -/
structure Ok : Prop where
  legal : i.op.en = true → i.op.misalign = false ∧ i.op.invalidOp = false
  owed : i.dbus.answers = true → 0 < t.owed
  one : ¬ (i.dbus.ack = true ∧ i.dbus.error = true)

/-- An answer finds its operation, the oldest outstanding one, where it is looked for: the
pipeline has advanced with it often enough, and with no younger one. With three slots the
operation is looked at once more after the edge: if the pipeline does not advance now it must
have advanced twice, and otherwise the youngest operation must be of the same kind. -/
def Timely : Prop :=
  i.dbus.answers = true →
    (∀ y ∈ t.items.take (t.unit.outstanding - 1), y.2 < c.muxIndex) ∧
      ∃ o ∈ t.items[t.unit.outstanding - 1]?, c.muxIndex ≤ o.2 ∧
        (c.loadstoreOutstanding = 3 →
          (t.unit.busy c i.dbus = true → 2 ≤ o.2) ∧
            (t.unit.busy c i.dbus = false → ∀ y ∈ t.items.head?, y.1.store = o.1.store))

instance : Decidable (t.Ok i) :=
  decidable_of_iff ((i.op.en = true → i.op.misalign = false ∧ i.op.invalidOp = false) ∧
    (i.dbus.answers = true → 0 < t.owed) ∧ ¬ (i.dbus.ack = true ∧ i.dbus.error = true))
    ⟨fun h => ⟨h.1, h.2.1, h.2.2⟩, fun h => ⟨h.legal, h.owed, h.one⟩⟩

instance : Decidable (t.Timely c i) := inferInstanceAs (Decidable (i.dbus.answers = true → _))

/-- The answer of the previous cycle is delivered in this one. -/
def late : Bool :=
  c.registeredReadStage && t.answered &&
    !((t.ops[t.unit.outstanding]?).any (·.store) && c.memWriteEarlyTerm)

/-- The requests are those of the operations in their order, and the slots are kept count of. -/
structure Counted : Prop where
  requests : t.requests = requestsOf (t.ops.drop t.unit.busEn.toNat)
  counted : t.answers.length + t.unit.outstanding = t.ops.length
  bounded : t.unit.outstanding ≤ c.loadstoreOutstanding

/-- The completions are those of the operations that are answered, in their order. -/
def Completed : Prop :=
  t.completions =
    (List.zipWith LsInput.completion (t.ops.drop t.unit.outstanding) t.answers).drop
      (t.late c).toNat

instance : Decidable (t.Completed c) := inferInstanceAs (Decidable (_ = _))

section Counting
variable {c t i}

structure Base (c : LsuConfig) (t : Piped) : Prop extends t.Counted c where
  enR : t.unit.enR = decide (0 < t.unit.outstanding)
  owed : t.owed + t.unit.busEn.toNat = t.unit.outstanding
  data : t.unit.dbWr = storeData t.ops
  driven : ∀ l ls, t.ops = l :: ls →
    t.unit.adrO = l.adr ∧ t.unit.weO = if l.store then l.byteEnables else 0
  legal : ∀ j, (t.unit.pipe j).misalign = false ∧ (t.unit.pipe j).invalidOp = false
  holds : Holds LsInput.entry c.loadstoreOutstanding t.items t.unit.pipe

theorem not_busy_of_taken (h : t.taken c i = true) :
    i.op.en = true ∧ t.unit.busy c i.dbus = false := by
  simp only [taken, LoadStoreUnit.taken, Bool.and_eq_true, Bool.not_eq_true'] at h
  refine ⟨h.1, ?_⟩
  have hb := h.2
  simp only [LoadStoreUnit.busyO] at hb
  split_ifs at hb <;> simp_all

theorem advance_of_taken (h : t.taken c i = true) : t.unit.advance c i.dbus i.op = true := by
  obtain ⟨hen, hb⟩ := not_busy_of_taken h
  simp [LoadStoreUnit.advance, hen, hb]

theorem Base.confirm (h : Base c t) (hok : t.Ok i) : t.unit.confirm i.dbus = i.dbus.answers := by
  have ho := h.owed
  have ha := hok.owed
  simp only [DbusResponse.answers] at ha ⊢
  cases hr : i.dbus.ack || i.dbus.error with
  | false => simp [LoadStoreUnit.confirm, hr]
  | true =>
    have hpos : 0 < t.unit.outstanding := by
      have := ha hr
      omega
    simp [LoadStoreUnit.confirm, hr, hpos]

/-- A slot is free for what is taken, or becomes free. -/
theorem Base.room (h : Base c t) (hok : t.Ok i) (ht : t.taken c i = true) :
    (t.unit.outstanding < c.loadstoreOutstanding ∨ i.dbus.answers = true) ∧
      (t.unit.busEn = true → i.dbus.stall = false) := by
  obtain ⟨-, hb⟩ := not_busy_of_taken ht
  have hbound := h.bounded
  have howed := h.owed
  have hcap : t.unit.capacityBusy c i.dbus = false := by
    simp only [LoadStoreUnit.busy] at hb
    split_ifs at hb <;> simp_all
  have hroom : t.unit.outstanding < c.loadstoreOutstanding ∨ i.dbus.answers = true := by
    by_cases ho : t.unit.outstanding = c.loadstoreOutstanding
    · right
      simp only [LoadStoreUnit.capacityBusy, ho, decide_true, Bool.true_and, Bool.not_eq_false',
        Bool.and_eq_true] at hcap
      simp [DbusResponse.answers, hcap.2]
    · omega
  refine ⟨hroom, fun hbus => ?_⟩
  by_cases h1 : c.loadstoreOutstanding = 1
  · exfalso
    rw [hbus, Bool.toNat_true] at howed
    rcases hroom with hlt | hans
    · omega
    · have := hok.owed hans
      omega
  · simp only [LoadStoreUnit.busy, h1, if_false, Bool.or_eq_false_iff] at hb
    exact hb.1

theorem step_busEn (hok : t.Ok i) :
    (t.step c i).unit.busEn = (t.taken c i || t.unit.busEn && i.dbus.stall) := by
  have hstep : (t.step c i).unit = t.unit.step c i.dbus i.op := rfl
  rw [hstep, LoadStoreUnit.step]
  cases ht : t.taken c i with
  | false =>
    rw [taken] at ht
    cases hs : i.dbus.stall <;> simp [ht]
  | true =>
    have hm := (hok.legal (not_busy_of_taken ht).1).1
    rw [taken] at ht
    simp [ht, LoadStoreUnit.issue, hm]

theorem Base.step_outstanding (h : Base c t) (hok : t.Ok i) :
    (t.step c i).unit.outstanding + i.dbus.answers.toNat =
      t.unit.outstanding + (t.taken c i).toNat := by
  have hconf := h.confirm hok
  have hpos : i.dbus.answers = true → 0 < t.unit.outstanding := by
    intro ha
    have := hok.owed ha
    have := h.owed
    omega
  have hstep : (t.step c i).unit = t.unit.step c i.dbus i.op := rfl
  rw [hstep, LoadStoreUnit.step, hconf, taken]
  cases ha : i.dbus.answers with
  | false => cases t.unit.taken c i.dbus i.op <;> simp
  | true =>
    have := hpos ha
    cases t.unit.taken c i.dbus i.op with
    | false =>
      simp
      omega
    | true => simp

theorem step_ops : (t.step c i).ops = if t.taken c i then i.op :: t.ops else t.ops := by
  cases ht : t.taken c i <;> simp [ops, step, ht]

/-- The newest request is on the bus as long as it is not accepted. -/
theorem Base.request (h : Base c t) (hb : t.unit.busEn = true) :
    ∃ l ls, t.ops = l :: ls ∧ requestsOf t.ops = t.unit.request :: requestsOf ls := by
  have hcount := h.counted
  have howed := h.owed
  rw [hb, Bool.toNat_true] at howed
  cases hops : t.ops with
  | nil =>
    rw [hops, List.length_nil] at hcount
    omega
  | cons l ls =>
    obtain ⟨hadr, hwe⟩ := h.driven l ls hops
    refine ⟨l, ls, rfl, ?_⟩
    rw [requestsOf, LoadStoreUnit.request, hb, hadr, hwe, h.data, hops]

theorem Base.step_requests (h : Base c t) (hok : t.Ok i) :
    (t.step c i).requests =
      requestsOf ((t.step c i).ops.drop (t.step c i).unit.busEn.toNat) := by
  have hreq := h.requests
  have hroom := h.room hok
  have hnew : (t.step c i).requests = if t.accepts i then t.unit.request :: t.requests
      else t.requests := rfl
  rw [step_busEn hok, step_ops, hnew, accepts]
  -- the request on the bus is the newest operation's, and is accepted before the next comes
  have hold : (if t.unit.busEn && !i.dbus.stall then t.unit.request :: t.requests
      else t.requests) = requestsOf (t.ops.drop (t.unit.busEn && i.dbus.stall).toNat) := by
    rw [hreq]
    cases hb : t.unit.busEn with
    | false => simp
    | true =>
      obtain ⟨l, ls, hops, hall⟩ := h.request hb
      cases hs : i.dbus.stall with
      | false =>
        rw [hops] at hall ⊢
        simp [hall]
      | true => simp
  rw [hold]
  cases ht : t.taken c i with
  | false => simp
  | true =>
    have hs : (t.unit.busEn && i.dbus.stall) = false := by
      cases hb : t.unit.busEn with
      | false => rfl
      | true => exact (hroom ht).2 hb
    simp [hs]

theorem Base.step_counted (h : Base c t) (hok : t.Ok i) : (t.step c i).Counted c where
  requests := h.step_requests hok
  counted := by
    have hcount := h.counted
    have hout := h.step_outstanding hok
    rw [step_ops]
    cases ht : t.taken c i <;> cases ha : i.dbus.answers <;> simp [step, ha, ht] at hout ⊢ <;>
      omega
  bounded := by
    have hbound := h.bounded
    have hout := h.step_outstanding hok
    cases ht : t.taken c i with
    | false =>
      rw [ht, Bool.toNat_false] at hout
      omega
    | true =>
      rw [ht, Bool.toNat_true] at hout
      rcases (h.room hok ht).1 with hlt | ha
      · omega
      · rw [ha, Bool.toNat_true] at hout
        omega

theorem Base.step_owed (h : Base c t) (hok : t.Ok i) :
    (t.step c i).owed + (t.step c i).unit.busEn.toNat = (t.step c i).unit.outstanding := by
  have howed := h.owed
  have hout := h.step_outstanding hok
  have hroom := h.room hok
  have hpos := hok.owed
  have hnew : (t.step c i).owed = t.owed + (t.accepts i).toNat - i.dbus.answers.toNat := rfl
  rw [step_busEn hok, hnew, accepts]
  cases ht : t.taken c i <;> cases hb : t.unit.busEn <;> cases hs : i.dbus.stall <;>
    cases ha : i.dbus.answers <;> simp_all <;> omega

theorem Base.step_enR (h : Base c t) (hok : t.Ok i) :
    (t.step c i).unit.enR = decide (0 < (t.step c i).unit.outstanding) := by
  have hconf := h.confirm hok
  have hen := h.enR
  have hout := h.step_outstanding hok
  have hstep : (t.step c i).unit.enR =
      if t.taken c i then true
      else if t.unit.confirm i.dbus && decide (t.unit.outstanding - 1 = 0) then false
      else t.unit.enR := rfl
  rw [hstep, hconf]
  cases ht : t.taken c i with
  | true =>
    have hpos : 0 < (t.step c i).unit.outstanding := by
      have ha : i.dbus.answers = true → 0 < t.unit.outstanding := by
        intro ha
        have := hok.owed ha
        have := h.owed
        omega
      cases hr : i.dbus.answers <;> simp_all
    simp [hpos]
  | false =>
    cases ha : i.dbus.answers with
    | false =>
      have hsame : (t.step c i).unit.outstanding = t.unit.outstanding := by
        simpa [ht, ha] using hout
      simp [hen, hsame]
    | true =>
      have hless : (t.step c i).unit.outstanding + 1 = t.unit.outstanding := by
        simpa [ht, ha] using hout
      have hiff : t.unit.outstanding - 1 = 0 ↔ ¬ 0 < (t.step c i).unit.outstanding := by omega
      by_cases hz : 0 < (t.step c i).unit.outstanding
      · have hpos : 0 < t.unit.outstanding := by omega
        simp [hiff, hz, hen, hpos]
      · simp [hiff, hz]

theorem Base.step_driven (h : Base c t) (hok : t.Ok i) :
    (t.step c i).unit.dbWr = storeData (t.step c i).ops ∧
      ∀ l ls, (t.step c i).ops = l :: ls → (t.step c i).unit.adrO = l.adr ∧
        (t.step c i).unit.weO = if l.store then l.byteEnables else 0 := by
  have hstep : (t.step c i).unit = t.unit.step c i.dbus i.op := rfl
  rw [step_ops, hstep]
  cases ht : t.taken c i with
  | false =>
    have ht' : t.unit.taken c i.dbus i.op = false := ht
    simpa [LoadStoreUnit.step, ht'] using ⟨h.data, h.driven⟩
  | true =>
    have hm := (hok.legal (not_busy_of_taken ht).1).1
    have ht' : t.unit.taken c i.dbus i.op = true := ht
    refine ⟨?_, fun l ls hl => ?_⟩
    · simp [LoadStoreUnit.step, ht', LoadStoreUnit.issue, hm, storeData, h.data]
    · obtain ⟨rfl, rfl⟩ := List.cons.inj hl
      simp [LoadStoreUnit.step, ht', LoadStoreUnit.issue, hm]

theorem Base.step (h : Base c t) (hok : t.Ok i) : Base c (t.step c i) := by
  have hpipe : (t.step c i).unit.pipe = t.unit.nextPipe c i.dbus i.op := rfl
  refine
    { h.step_counted hok with
      enR := h.step_enR hok
      owed := h.step_owed hok
      data := (h.step_driven hok).1
      driven := (h.step_driven hok).2
      legal := fun j => ?_
      holds := ?_ }
  · rw [hpipe]
    cases j with
    | zero =>
      rw [LoadStoreUnit.nextPipe]
      split
      · next ht =>
        exact hok.legal (not_busy_of_taken ht).1
      · exact h.legal 0
    | succ j =>
      rw [LoadStoreUnit.nextPipe]
      split
      · exact h.legal j
      · exact h.legal (j + 1)
  · refine h.holds.step (fun a ha => ?_) (fun hn => ?_) (fun hn => ?_) fun j hj => ?_
    · cases ht : t.taken c i with
      | false => simp [ht] at ha
      | true =>
        have ht' : t.unit.taken c i.dbus i.op = true := ht
        obtain rfl : i.op = a := by simpa [ht] using ha
        rw [hpipe, LoadStoreUnit.nextPipe, if_pos ht']
    · have ht' : t.unit.taken c i.dbus i.op = false := by
        by_contra ht
        have ht : t.taken c i = true := Bool.eq_true_of_not_eq_false ht
        simp [ht] at hn
      simp [hpipe, LoadStoreUnit.nextPipe, ht']
    · have ht : t.taken c i = true := by
        by_contra ht
        simp [ht] at hn
      exact advance_of_taken ht
    · have h1 : 1 < c.loadstoreOutstanding := by omega
      simp [hpipe, LoadStoreUnit.nextPipe, h1]

theorem base_init : Base c (machine c).init where
  requests := rfl
  counted := rfl
  bounded := Nat.zero_le _
  enR := rfl
  owed := rfl
  data := rfl
  driven _ _ h := by cases h
  legal _ := ⟨rfl, rfl⟩
  holds _ _ _ h := by cases h

end Counting

section Completing
variable {c t i}

/-- The completions that the answers call for. -/
def expected (t : Piped) : List (Option (BitVec 5 × Word)) :=
  List.zipWith LsInput.completion (t.ops.drop t.unit.outstanding) t.answers

/-- `l` is the operation answered last, with `w`, and the registers still show it. -/
structure Shows (c : LsuConfig) (t : Piped) (l : LsInput) (w : Word) : Prop where
  op : t.ops[t.unit.outstanding]? = some l
  data : ∃ rest, t.answers = w :: rest
  rd : (t.unit.pipe c.maxPipeIndex).rd = l.rd
  store : (t.unit.pipe c.writePipeIndex).store = l.store
  result : t.unit.resultReg = l.rdMux w

structure Deliver (c : LsuConfig) (t : Piped) : Prop where
  validReg : t.unit.validReg = t.answered
  last : c.registeredReadStage = true → t.answered = true → ∃ l w, t.Shows c l w
  completed : t.Completed c

theorem writePipeIndex_eq (c : LsuConfig) : c.writePipeIndex = c.muxIndex := by
  simp [LsuConfig.writePipeIndex, LsuConfig.muxIndex, LsuConfig.maxPipeIndex]

theorem muxIndex_lt (c : LsuConfig) : c.muxIndex < c.loadstoreOutstanding := by
  have h := c.outstanding_range.1
  unfold LsuConfig.muxIndex LsuConfig.maxPipeIndex
  split <;> omega

theorem muxIndex_eq (h : c.loadstoreOutstanding ≠ 3) : c.muxIndex = c.maxPipeIndex := by
  simp [LsuConfig.muxIndex, h]

theorem outstanding_le_three (c : LsuConfig) : c.loadstoreOutstanding ≤ 3 ∧
    (c.registeredReadStage = false → c.loadstoreOutstanding ≤ 2) := by
  have h := c.outstanding_range.2
  constructor
  · split at h <;> omega
  · intro hreg
    simpa [hreg] using h

theorem Base.validComb (h : Base c t) (hok : t.Ok i) :
    t.unit.validComb c i.dbus = i.dbus.answers := by
  obtain ⟨hm, hinv⟩ := h.legal c.maxPipeIndex
  simp [LoadStoreUnit.validComb, h.confirm hok, hm, hinv]

/-- The answered operation in the list, and what the read mux makes of the data. -/
theorem Base.answer (h : Base c t) (hok : t.Ok i) (ht : t.Timely c i)
    (ha : i.dbus.answers = true) :
    ∃ young o old, t.items = young ++ o :: old ∧ young.length + 1 = t.unit.outstanding ∧
      (∀ y ∈ young, y.2 < c.muxIndex) ∧ c.muxIndex ≤ o.2 ∧
      t.unit.pipe c.muxIndex = o.1.entry ∧ t.ops[t.unit.outstanding - 1]? = some o.1 ∧
      (c.loadstoreOutstanding = 3 → (t.unit.busy c i.dbus = true → 2 ≤ o.2) ∧
        (t.unit.busy c i.dbus = false → ∀ y ∈ t.items.head?, y.1.store = o.1.store)) := by
  obtain ⟨hyoung, o, ho, hold, hthree⟩ := ht ha
  obtain ⟨hlt, hget⟩ := List.getElem?_eq_some_iff.1 ho
  have hitems : t.items = t.items.take (t.unit.outstanding - 1) ++
      o :: t.items.drop (t.unit.outstanding - 1 + 1) := by
    rw [← hget, List.getElem_cons_drop hlt, List.take_append_drop]
  have hlen : (t.items.take (t.unit.outstanding - 1)).length + 1 = t.unit.outstanding := by
    have := hok.owed ha
    have := h.owed
    rw [List.length_take]
    omega
  refine ⟨_, o, _, hitems, hlen, hyoung, hold, ?_, ?_, hthree⟩
  · apply h.holds _ (muxIndex_lt c)
    rw [hitems]
    exact stage_append hyoung hold
  · rw [ops, List.getElem?_map, ho]
    rfl

theorem step_ops_drop (h : Base c t) (hok : t.Ok i) :
    (t.step c i).ops.drop (t.step c i).unit.outstanding =
      t.ops.drop (t.unit.outstanding - i.dbus.answers.toNat) ∧
    (t.step c i).ops[(t.step c i).unit.outstanding]? =
      t.ops[t.unit.outstanding - i.dbus.answers.toNat]? := by
  have hout := h.step_outstanding hok
  have hpos : i.dbus.answers = true → 0 < t.unit.outstanding := by
    intro ha
    have := hok.owed ha
    have := h.owed
    omega
  rw [step_ops]
  cases ht : t.taken c i with
  | false =>
    have hidx : (t.step c i).unit.outstanding = t.unit.outstanding - i.dbus.answers.toNat := by
      rw [ht, Bool.toNat_false] at hout
      omega
    simp [hidx]
  | true =>
    have hidx : (t.step c i).unit.outstanding = t.unit.outstanding - i.dbus.answers.toNat + 1 := by
      rw [ht, Bool.toNat_true] at hout
      cases ha : i.dbus.answers with
      | false =>
        rw [ha] at hout
        simpa using hout
      | true =>
        have := hpos ha
        rw [ha, Bool.toNat_true] at hout
        rw [Bool.toNat_true]
        omega
    simp [hidx]

theorem step_expected (h : Base c t) (hok : t.Ok i) {l : LsInput}
    (hl : i.dbus.answers = true → t.ops[t.unit.outstanding - 1]? = some l) :
    (t.step c i).expected =
      if i.dbus.answers then l.completion i.dbus.dbRd :: t.expected else t.expected := by
  have hans : (t.step c i).answers =
      if i.dbus.answers then i.dbus.dbRd :: t.answers else t.answers := rfl
  rw [expected, (step_ops_drop h hok).1, hans]
  cases ha : i.dbus.answers with
  | false => simp [expected]
  | true =>
    obtain ⟨hlt, hget⟩ := List.getElem?_eq_some_iff.1 (hl ha)
    have hpos : t.unit.outstanding - 1 + 1 = t.unit.outstanding := by
      have := hok.owed ha
      have := h.owed
      omega
    have hdrop : t.ops.drop (t.unit.outstanding - 1) = l :: t.ops.drop t.unit.outstanding := by
      rw [List.drop_eq_getElem_cons hlt, hget, hpos]
    simp [hdrop, expected]

theorem rdmuxOut_entry {l : LsInput} (hp : t.unit.pipe c.muxIndex = l.entry) :
    t.unit.rdmuxOut c i.dbus = l.rdMux i.dbus.dbRd := by
  simp [LoadStoreUnit.rdmuxOut, hp, LsInput.entry, LsInput.rdMux]

/-- With the registered read stage the answered operation is looked at once more. -/
theorem Base.shows (h : Base c t) (hok : t.Ok i) (ht : t.Timely c i)
    (hreg : c.registeredReadStage = true) (ha : i.dbus.answers = true) :
    ∃ l, t.ops[t.unit.outstanding - 1]? = some l ∧ t.unit.pipe c.muxIndex = l.entry ∧
      (t.step c i).Shows c l i.dbus.dbRd := by
  obtain ⟨young, o, old, hitems, hlen, hyoung, hold, hpipe, hop, hthree⟩ := h.answer hok ht ha
  have hnext := (h.step hok).holds
  have hen : t.unit.enR = true := by
    rw [h.enR, decide_eq_true_eq]
    omega
  have hadv : t.unit.advance c i.dbus i.op = !t.unit.busy c i.dbus := by
    simp [LoadStoreUnit.advance, hen]
  have hitems' : (t.step c i).items = push (if t.taken c i then some i.op else none)
      (tick (!t.unit.busy c i.dbus) t.items) := by
    rw [← hadv]
    rfl
  -- where the operation is after the edge
  have hstages : stage c.maxPipeIndex (t.step c i).items = some o.1 ∧
      ∃ y : LsInput, stage c.muxIndex (t.step c i).items = some y ∧ y.store = o.1.store := by
    rw [hitems']
    cases hb : t.unit.busy c i.dbus with
    | true =>
      have htk : t.taken c i = false := by
        by_contra htk
        simp [(not_busy_of_taken (Bool.eq_true_of_not_eq_false htk)).2] at hb
      have hmux : stage c.muxIndex t.items = some o.1 := by
        rw [hitems]
        exact stage_append hyoung hold
      have hmax : stage c.maxPipeIndex t.items = some o.1 := by
        by_cases h3 : c.loadstoreOutstanding = 3
        · have hage : 2 ≤ o.2 := (hthree h3).1 hb
          have hidx : c.maxPipeIndex = 2 ∧ c.muxIndex = 1 := by
            simp [LsuConfig.maxPipeIndex, LsuConfig.muxIndex, h3]
          rw [hidx.1, hitems]
          rw [hidx.2] at hyoung
          exact stage_append (fun y hy => Nat.lt_of_lt_of_le (hyoung y hy) (by decide)) hage
        · rwa [← muxIndex_eq h3]
      simp [htk, hmax, hmux]
    | false =>
      have hroom : t.unit.outstanding ≠ c.loadstoreOutstanding := by
        intro heq
        simp only [LoadStoreUnit.busy, LoadStoreUnit.capacityBusy, heq, hreg] at hb
        split_ifs at hb <;> simp_all
      have hbound := h.bounded
      by_cases h3 : c.loadstoreOutstanding = 3
      · have hidx : c.maxPipeIndex = 1 + 1 ∧ c.muxIndex = 0 + 1 := by
          simp [LsuConfig.maxPipeIndex, LsuConfig.muxIndex, h3]
        rw [hidx.2] at hyoung hold
        have hhead : ∀ y ∈ t.items.head?, y.1.store = o.1.store := (hthree h3).2 hb
        have hone : stage 1 t.items = some o.1 := by
          rw [hitems]
          exact stage_append hyoung hold
        obtain ⟨y, hy⟩ : ∃ y, t.items.head? = some y := by
          rw [hitems]
          cases young <;> simp
        refine ⟨?_, y.1, ?_, hhead y hy⟩
        · rw [hidx.1, stage_succ_push, Bool.not_false, stage_succ_tick, hone]
        · rw [hidx.2, stage_succ_push, Bool.not_false, stage_succ_tick, stage_zero, hy]
          rfl
      · -- only one operation is outstanding
        have hle := (outstanding_le_three c).1
        have hidx : c.maxPipeIndex = 0 + 1 ∧ c.muxIndex = 0 + 1 := by
          have hmax : c.maxPipeIndex = 1 := by
            unfold LsuConfig.maxPipeIndex
            omega
          exact ⟨hmax, (muxIndex_eq h3).trans hmax⟩
        have hnil : young = [] := List.length_eq_zero_iff.1 (by omega)
        have hone : stage (0 + 1) (push (if t.taken c i then some i.op else none)
            (tick (!false) t.items)) = some o.1 := by
          rw [stage_succ_push, Bool.not_false, stage_succ_tick, stage_zero, hitems, hnil]
          rfl
        rw [hidx.1, hidx.2]
        exact ⟨hone, o.1, hone, rfl⟩
  obtain ⟨hmax, y, hy, hstore⟩ := hstages
  have hmaxlt : c.maxPipeIndex < c.loadstoreOutstanding := by
    have hpos := c.outstanding_range.1
    unfold LsuConfig.maxPipeIndex
    omega
  have hdrop := (step_ops_drop h hok).2
  rw [ha, Bool.toNat_true, hop] at hdrop
  refine ⟨o.1, hop, hpipe, hdrop, ⟨t.answers, by simp [Piped.step, ha]⟩, ?_, ?_, ?_⟩
  · rw [hnext _ hmaxlt _ hmax]
    rfl
  · rw [writePipeIndex_eq, hnext _ (muxIndex_lt c) _ hy, LsInput.entry]
    exact hstore
  · exact rdmuxOut_entry hpipe

/-- What was answered in the previous cycle is completed in this one, if it is not yet. -/
theorem Shows.completion {l : LsInput} {w : Word} (h : t.Shows c l w)
    (hreg : c.registeredReadStage = true) (hv : t.unit.validReg = true) :
    t.completion c i = l.completion w ∧ t.expected = l.completion w :: t.expected.tail ∧
      t.late c = (t.answered && !(l.store && c.memWriteEarlyTerm)) := by
  obtain ⟨rest, hrest⟩ := h.data
  obtain ⟨hlt, hget⟩ := List.getElem?_eq_some_iff.1 h.op
  refine ⟨?_, ?_, by simp [late, hreg, h.op]⟩
  · cases hst : l.store <;>
      simp [Piped.completion, LoadStoreUnit.writeO, hreg, h.store, hst, hv, LsInput.completion,
        LoadStoreUnit.rdO, h.rd, LoadStoreUnit.resultO, h.result]
  · rw [expected, List.drop_eq_getElem_cons hlt, hget, hrest]
    simp

theorem step_completions (t : Piped) (i : PipedInput) : (t.step c i).completions =
    if t.unit.validO c i.dbus then t.completion c i :: t.completions else t.completions := rfl

/-- Without the registered read stage an operation completes with its answer. -/
theorem completed_unregistered (h : Base c t) (hd : t.Completed c) (hok : t.Ok i)
    (ht : t.Timely c i) (hreg : c.registeredReadStage = false) : (t.step c i).Completed c := by
  have hlate (u : Piped) : u.late c = false := by simp [late, hreg]
  have hexp : t.completions = t.expected := by
    have hc : t.completions = t.expected.drop (t.late c).toNat := hd
    simpa [hlate] using hc
  have hvalid : t.unit.validO c i.dbus = i.dbus.answers := by
    simp [LoadStoreUnit.validO, hreg, h.validComb hok]
  show (t.step c i).completions = (t.step c i).expected.drop ((t.step c i).late c).toNat
  rw [hlate, step_completions, hvalid, hexp]
  cases ha : i.dbus.answers with
  | false =>
    have hnext := step_expected h hok (l := i.op) (fun ha' => by simp [ha] at ha')
    simp [hnext, ha]
  | true =>
    obtain ⟨young, o, old, -, -, -, -, hpipe, hop, -⟩ := h.answer hok ht ha
    have hnext := step_expected h hok (l := o.1) fun _ => hop
    have hmax : c.maxPipeIndex = c.muxIndex := by
      refine (muxIndex_eq ?_).symm
      have := (outstanding_le_three c).2 hreg
      omega
    have hcomp : t.completion c i = o.1.completion i.dbus.dbRd := by
      have hmuxOut : t.unit.rdmuxOut c i.dbus = o.1.rdMux i.dbus.dbRd := rdmuxOut_entry hpipe
      cases hst : o.1.store <;>
        simp [Piped.completion, LoadStoreUnit.writeO, hreg, writePipeIndex_eq, hpipe,
          LsInput.entry, hst, LsInput.completion, LoadStoreUnit.rdO, hmax, LoadStoreUnit.resultO,
          hmuxOut]
    simp [hnext, ha, hcomp]

/-- With it, stores that end early complete with the answer and the others a cycle later. -/
theorem completed_registered (h : Base c t) (hd : Deliver c t) (hok : t.Ok i) (ht : t.Timely c i)
    (hreg : c.registeredReadStage = true) : (t.step c i).Completed c := by
  have hcomb := h.validComb hok
  have hc : t.completions = t.expected.drop (t.late c).toNat := hd.completed
  -- what this cycle completes of the previous answer
  have hprev : (if t.unit.earlyTerm c then t.completions
      else if t.answered then t.completion c i :: t.completions else t.completions) =
        t.expected := by
    cases hp : t.answered with
    | false =>
      have hl : t.late c = false := by simp [late, hp]
      rw [hl, Bool.toNat_false, List.drop_zero] at hc
      simp [hc]
    | true =>
      obtain ⟨l, w, hshow⟩ := hd.last hreg hp
      obtain ⟨hcomp, hexp, hl⟩ := hshow.completion (i := i) hreg (hd.validReg.trans hp)
      rw [hp, Bool.true_and] at hl
      have hearly : t.unit.earlyTerm c = (l.store && c.memWriteEarlyTerm) := by
        rw [LoadStoreUnit.earlyTerm, hshow.store]
      rw [hc, hl, hearly, hcomp]
      cases l.store && c.memWriteEarlyTerm with
      | true => simp
      | false =>
        simp only [Bool.false_eq_true, if_false, if_true, Bool.not_false, Bool.toNat_true]
        rw [List.drop_one]
        exact hexp.symm
  have hvalid : t.unit.validO c i.dbus =
      if t.unit.earlyTerm c then i.dbus.answers else t.answered := by
    simp [LoadStoreUnit.validO, hreg, hcomb, hd.validReg]
  show (t.step c i).completions = (t.step c i).expected.drop ((t.step c i).late c).toNat
  rw [step_completions, hvalid]
  cases ha : i.dbus.answers with
  | false =>
    have hnext := step_expected h hok (l := i.op) (fun ha' => by simp [ha] at ha')
    have hl : (t.step c i).late c = false := by simp [late, step, ha]
    rw [hnext, ha, hl, ← hprev]
    cases t.unit.earlyTerm c <;> simp
  | true =>
    obtain ⟨l, hop, hpipe, hshow⟩ := h.shows hok ht hreg ha
    have hnext := step_expected h hok (l := l) fun _ => hop
    have hearly : t.unit.earlyTerm c = (l.store && c.memWriteEarlyTerm) := by
      rw [LoadStoreUnit.earlyTerm, writePipeIndex_eq, hpipe, LsInput.entry]
    have hans : (t.step c i).answered = true := ha
    have hl : (t.step c i).late c = !(l.store && c.memWriteEarlyTerm) := by
      simp [late, hreg, hshow.op, hans]
    rw [hnext, ha, hl, ← hprev, hearly]
    cases he : l.store && c.memWriteEarlyTerm with
    | false => simp
    | true =>
      have hst : l.store = true := by
        rw [Bool.and_eq_true] at he
        exact he.1
      have hcomp : t.completion c i = l.completion i.dbus.dbRd := by
        simp [Piped.completion, LoadStoreUnit.writeO, hreg, writePipeIndex_eq, hpipe,
          LsInput.entry, hst, LsInput.completion]
      simp [hcomp]

theorem Deliver.step (h : Base c t) (hd : Deliver c t) (hok : t.Ok i) (ht : t.Timely c i) :
    Deliver c (t.step c i) where
  validReg := h.validComb hok
  last hreg ha := by
    obtain ⟨l, -, -, hshow⟩ := h.shows hok ht hreg ha
    exact ⟨l, i.dbus.dbRd, hshow⟩
  completed := by
    cases hreg : c.registeredReadStage with
    | false => exact completed_unregistered h hd.completed hok ht hreg
    | true => exact completed_registered h hd hok ht hreg

theorem deliver_init : Deliver c (machine c).init where
  validReg := rfl
  last _ h := by cases h
  completed := by simp [Completed, machine]

/-- One slot: every answer finds its operation. -/
theorem Base.timely_single (h : Base c t) (hc : c.loadstoreOutstanding = 1) (hok : t.Ok i) :
    t.Timely c i := by
  intro ha
  have hbound := h.bounded
  have hcount := h.counted
  have hpos : 0 < t.unit.outstanding := by
    have := hok.owed ha
    have := h.owed
    omega
  have hmux : c.muxIndex = 0 := by simp [LsuConfig.muxIndex, LsuConfig.maxPipeIndex, hc]
  cases hitems : t.items with
  | nil =>
    simp [ops, hitems] at hcount
    omega
  | cons o old =>
    have hone : t.unit.outstanding - 1 = 0 := by omega
    refine ⟨by simp [hone], o, by simp [hone], by simp [hmux], fun h3 => ?_⟩
    rw [hc] at h3
    cases h3

end Completing

section Runs
variable {c : LsuConfig} {is : List PipedInput}

/-- Nothing is on its way. -/
def Settled (c : LsuConfig) (t : Piped) : Prop := t.unit.busEn = false ∧ t.late c = false

instance (c : LsuConfig) (t : Piped) : Decidable (t.Settled c) :=
  inferInstanceAs (Decidable (_ ∧ _))

theorem counted_run (h : (machine c).Along Ok (machine c).init is) :
    Base c ((machine c).run is) :=
  h.invariant (Base c) (fun _ _ ht hok => ht.step hok) base_init

theorem completed_run (h : (machine c).Along Ok (machine c).init is)
    (ht : (machine c).Along (Timely c) (machine c).init is) :
    ((machine c).run is).Completed c := by
  have hinv := (h.and ht).invariant (fun t => Base c t ∧ Deliver c t)
    (fun _ _ hs hi => ⟨hs.1.step hi.1, hs.2.step hs.1 hi.1 hi.2⟩) ⟨base_init, deliver_init⟩
  exact hinv.2.completed

theorem timely_single (hc : c.loadstoreOutstanding = 1)
    (h : (machine c).Along Ok (machine c).init is) :
    (machine c).Along (Timely c) (machine c).init is :=
  h.mono (Base c) (fun _ _ ht hok => ht.step hok) (fun _ _ ht hok => ht.timely_single hc hok)
    base_init

/-- Where every answer finds its operation the pipeline changes only the timing: the slots are
kept count of, requests and completions follow the operations one by one, and they are the
ones of a unit with a single slot that is asked and answered the same. -/
theorem pipelining_transparent (c c1 : LsuConfig) (is js : List PipedInput)
    (hc1 : c1.loadstoreOutstanding = 1)
    (h : (machine c).Along Ok (machine c).init is)
    (ht : (machine c).Along (Timely c) (machine c).init is)
    (h1 : (machine c1).Along Ok (machine c1).init js) :
    ((machine c).run is).Counted c ∧ ((machine c).run is).Completed c ∧
      (((machine c).run is).Settled c → ((machine c1).run js).Settled c1 →
        ((machine c).run is).ops = ((machine c1).run js).ops →
        ((machine c).run is).answers = ((machine c1).run js).answers →
          ((machine c).run is).requests = ((machine c1).run js).requests ∧
            ((machine c).run is).completions = ((machine c1).run js).completions) := by
  have hbase := counted_run h
  have hbase1 := counted_run h1
  have hcomp := completed_run h ht
  have hcomp1 := completed_run h1 (timely_single hc1 h1)
  refine ⟨hbase.toCounted, hcomp, ?_⟩
  rintro ⟨hen, hlate⟩ ⟨hen1, hlate1⟩ hops hans
  have hout : ((machine c).run is).unit.outstanding = ((machine c1).run js).unit.outstanding := by
    have hcount := hbase.counted
    have hcount1 := hbase1.counted
    rw [hops, hans] at hcount
    omega
  constructor
  · rw [hbase.requests, hbase1.requests, hen, hen1, hops]
  · rw [hcomp, hcomp1, hlate, hlate1, hops, hans, hout]

end Runs

section Cases

/-- A load of the word at 0x100 into x1, one of its byte 1 into x2, and a store. -/
def lw : LsInput := ⟨false, 0b010, 0x100, 0, 0, 1, true⟩
def lb : LsInput := ⟨false, 0b000, 0x100, 0, 1, 2, true⟩
def sw : LsInput := ⟨true, 0b010, 0x100, 5, 4, 0, true⟩
def noOp : LsInput := { lw with en := false }

def twoUnregistered : LsuConfig :=
  { defaultConfig with registeredReadStage := false, loadstoreOutstanding := 2 }
def twoRegistered : LsuConfig := { defaultConfig with loadstoreOutstanding := 2 }
def threeRegistered : LsuConfig := { defaultConfig with loadstoreOutstanding := 3 }

/-- The first answer comes while the bus stalls, the second right after it. -/
def stalledAnswer : List PipedInput :=
  [⟨lw, {}⟩, ⟨lb, {}⟩, ⟨noOp, {}⟩, ⟨noOp, { ack := true, stall := true, dbRd := 0x1234 }⟩,
    ⟨noOp, { ack := true, dbRd := 0x1234 }⟩]

/-- Two answers in a row. -/
def twoAnswers : List PipedInput :=
  [⟨lw, {}⟩, ⟨lb, {}⟩, ⟨noOp, { ack := true, dbRd := 0x1234 }⟩,
    ⟨noOp, { ack := true, dbRd := 0x1234 }⟩, ⟨noOp, {}⟩]

/-- A store behind a load. -/
def loadThenStore : List PipedInput :=
  [⟨lw, {}⟩, ⟨sw, {}⟩, ⟨noOp, { ack := true, dbRd := 0x1234 }⟩, ⟨noOp, { ack := true }⟩,
    ⟨noOp, {}⟩]

/-- The second load completes as the first one, or loads a word, and the load before a store
is lost. -/
theorem pipelining_mixes :
    ((machine twoUnregistered).Along Ok (machine twoUnregistered).init stalledAnswer ∧
      ((machine twoUnregistered).run stalledAnswer).completions =
        [some (1, 0x1234), some (1, 0x1234)] ∧
      ¬ ((machine twoUnregistered).run stalledAnswer).Completed twoUnregistered) ∧
    ((machine twoRegistered).Along Ok (machine twoRegistered).init twoAnswers ∧
      ((machine twoRegistered).run twoAnswers).completions =
        [some (2, 0x1234), some (1, 0x1234)] ∧
      ¬ ((machine twoRegistered).run twoAnswers).Completed twoRegistered) ∧
    ((machine threeRegistered).Along Ok (machine threeRegistered).init loadThenStore ∧
      ((machine threeRegistered).run loadThenStore).completions = [none, none] ∧
      ¬ ((machine threeRegistered).run loadThenStore).Completed threeRegistered) := by
  refine ⟨⟨?_, ?_, ?_⟩, ⟨?_, ?_, ?_⟩, ?_, ?_, ?_⟩ <;> decide +kernel

/-- Two loads through three slots, and one by one through a single slot. -/
def twoLoads : List PipedInput :=
  [⟨lw, {}⟩, ⟨lb, {}⟩, ⟨noOp, { ack := true, dbRd := 0x1234 }⟩,
    ⟨noOp, { ack := true, dbRd := 0x1234 }⟩, ⟨noOp, {}⟩]

def twoLoadsApart : List PipedInput :=
  [⟨lw, {}⟩, ⟨noOp, {}⟩, ⟨noOp, { ack := true, dbRd := 0x1234 }⟩, ⟨noOp, {}⟩, ⟨lb, {}⟩,
    ⟨noOp, {}⟩, ⟨noOp, { ack := true, dbRd := 0x1234 }⟩, ⟨noOp, {}⟩]

theorem pipelining_transparent_loads :
    ((machine threeRegistered).run twoLoads).requests =
        ((machine {}).run twoLoadsApart).requests ∧
      ((machine threeRegistered).run twoLoads).completions =
        ((machine {}).run twoLoadsApart).completions ∧
      ((machine threeRegistered).run twoLoads).completions =
        [some (2, 0x12), some (1, 0x1234)] := by
  obtain ⟨-, -, hsame⟩ := pipelining_transparent threeRegistered {} twoLoads twoLoadsApart rfl
    (by decide +kernel) (by decide +kernel) (by decide +kernel)
  obtain ⟨hreq, hcomp⟩ := hsame (by decide +kernel) (by decide +kernel) (by decide +kernel)
    (by decide +kernel)
  exact ⟨hreq, hcomp, by decide +kernel⟩

end Cases
end Piped
end BonfireCore
