import BonfireCore.ByteMemory
import BonfireCore.Clocked
import BonfireCore.LoadStoreLanes

/-! The load/store unit with a word memory on its bus is a little-endian byte memory. -/
namespace BonfireCore

open Rv32i (Access LoadKind StoreKind Bytes bytesOf writeWord)

/-- The access that is asked for, if it is a legal one. -/
def LsInput.access (l : LsInput) : Option Access :=
  if l.store then (StoreKind.ofFunct3 l.funct3).map fun kind => .store kind l.adr l.op2
  else (LoadKind.ofFunct3 l.funct3).map fun kind => .load kind l.adr

theorem LsInput.asks_of_access {l : LsInput} {a : Access} (h : l.access = some a) : a.Asks l := by
  unfold access at h
  cases hs : l.store with
  | true =>
    simp only [hs, if_true, Option.map_eq_some_iff] at h
    obtain ⟨kind, hk, rfl⟩ := h
    have h3 : kind.funct3 = l.funct3 := by
      simpa using List.find?_some hk
    exact ⟨hs, h3.symm, rfl, rfl⟩
  | false =>
    simp only [hs, Bool.false_eq_true, if_false, Option.map_eq_some_iff] at h
    obtain ⟨kind, hk, rfl⟩ := h
    have h3 : kind.funct3 = l.funct3 := by
      simpa using List.find?_some hk
    exact ⟨hs, h3.symm, rfl⟩

/-- The operation offered in a cycle, and what the memory does: it may stall, and answer the
request it has accepted. `dbRd`: the read data where nothing is answered. -/
structure AttachedInput where
  op : LsInput
  stall : Bool
  ack : Bool
  dbRd : Word

/-- The unit with the memory, and what can be observed of them: the operations taken, the
requests the bus accepted and the completions, latest first. -/
structure Attached where
  unit : LoadStore := {}
  mem : BitVec 30 → Word
  pending : Option (DbusRequest 32) := none
  ops : List Access := []
  requests : List (DbusRequest 32) := []
  completions : List (Option Word) := []

namespace Attached
variable (c : CoreConfig) (t : Attached) (i : AttachedInput)

/-- A request comes in this cycle. -/
def accepts : Bool := t.pending.isNone && t.unit.request.en && !i.stall

/-- The request the memory works on. -/
def current : Option (DbusRequest 32) := if t.accepts i then some t.unit.request else t.pending

def response : DbusResponse 32 where
  ack := i.ack
  stall := i.stall
  dbRd :=
    match t.current i with
    | some m => if i.ack then t.mem (m.adr.extractLsb' 2 30) else i.dbRd
    | none => i.dbRd

def taken : Bool := i.op.en && !t.unit.busyO c (t.response i)

/-- What the unit hands over in a cycle in which it is valid. -/
def completion : Option Word :=
  if t.unit.writeO c then some (t.unit.resultO c (t.response i)) else none

def step : Attached where
  unit := t.unit.step c (t.response i) i.op
  mem :=
    match t.current i with
    | some m => if i.ack then writeWord t.mem m.adr m.we m.dbWr else t.mem
    | none => t.mem
  pending := if i.ack then none else t.current i
  ops := if t.taken c i then i.op.access.toList ++ t.ops else t.ops
  requests := if t.accepts i then t.unit.request :: t.requests else t.requests
  completions :=
    if t.unit.validO c (t.response i) then t.completion c i :: t.completions else t.completions

def machine (mem : BitVec 30 → Word) : Clocked Attached AttachedInput where
  init := { mem := mem }
  step := step c

/-- Only legal, aligned operations are offered, and only an accepted request is answered. -/
structure Ok : Prop where
  legal : i.op.en = true → ∃ a, i.op.access = some a ∧ a.Aligned
  answers : i.ack = true → (t.current i).isSome = true

instance : Decidable (t.Ok i) :=
  decidable_of_iff
    ((i.op.en = true → ∃ a ∈ i.op.access, a.Aligned) ∧ (i.ack = true → (t.current i).isSome = true))
    ⟨fun h => ⟨h.1, h.2⟩, fun h => ⟨h.legal, h.answers⟩⟩

/-- A request that is stalled is held, and no request meets one that is not answered. -/
def Held : Prop :=
  (t.unit.request.en = true → i.stall = true → (t.step c i).unit.request = t.unit.request) ∧
    (t.unit.request.en = true → t.pending = none)

/-- An operation has been taken and not yet completed. -/
def unfinished : Bool :=
  t.unit.outstanding || c.registeredReadStage && t.unit.validReg && !t.unit.earlyTerm c

def completes : Bool := t.unit.validO c (t.response i)

/-- An operation in progress is with the bus, and completes with the answer or right after. -/
structure Prompt : Prop where
  requested : t.unit.outstanding = true → t.unit.request.en = true ∨ t.pending.isSome = true
  completes : t.unfinished c = true → (t.unit.outstanding = true → i.ack = true) →
    t.completes c i = true ∨ ∀ j, (t.step c i).completes c j = true

/-- The logs and the memory as the operations make them, one after the other. -/
structure Faithful (mem : BitVec 30 → Word) : Prop where
  requests : List.Forall₂ Access.Requests t.requests (t.ops.drop t.unit.busEn.toNat)
  memory : bytesOf t.mem = Access.after (bytesOf mem) (t.ops.drop t.unit.outstanding.toNat)
  completions :
    t.completions = Access.results (bytesOf mem) (t.ops.drop (t.unfinished c).toNat)

section Invariant
variable {c t i} {mem : BitVec 30 → Word} {a : Access} {as : List Access} {l : LsInput}
  {owes : Bool}

/-- Nothing is in progress. -/
structure AtRest (c : CoreConfig) (mem : BitVec 30 → Word) (t : Attached) : Prop where
  free : t.unit.Free c
  pending : t.pending = none
  requests : List.Forall₂ Access.Requests t.requests t.ops
  memory : bytesOf t.mem = Access.after (bytesOf mem) t.ops
  completions : t.completions = Access.results (bytesOf mem) t.ops

/-- The operation `a`, which came as `l`, is in progress; the memory has its request once it
`owes` the answer. -/
structure InAccess (c : CoreConfig) (mem : BitVec 30 → Word) (a : Access) (as : List Access)
    (l : LsInput) (owes : Bool) (t : Attached) : Prop where
  ops : t.ops = a :: as
  asks : a.Asks l
  aligned : a.Aligned
  serving : t.unit.Serving c l
  driven : t.unit.Driven l owes
  pending : t.pending.isSome = owes
  requested : ∀ m, t.pending = some m → a.Requests m
  requests : List.Forall₂ Access.Requests t.requests (if owes then a :: as else as)
  memory : bytesOf t.mem = Access.after (bytesOf mem) as
  completions : t.completions = Access.results (bytesOf mem) as

/-- With the registered read stage: this cycle delivers what `a` returns. -/
structure Delivering (c : CoreConfig) (mem : BitVec 30 → Word) (a : Access) (as : List Access)
    (t : Attached) : Prop where
  registered : c.registeredReadStage = true
  ops : t.ops = a :: as
  done : ∃ store value, t.unit.Done c store value ∧
    a.read (Access.after (bytesOf mem) as) = if store then none else some value
  pending : t.pending = none
  requests : List.Forall₂ Access.Requests t.requests (a :: as)
  memory : bytesOf t.mem = Access.after (bytesOf mem) (a :: as)
  completions : t.completions = Access.results (bytesOf mem) as

def Inv (c : CoreConfig) (mem : BitVec 30 → Word) (t : Attached) : Prop :=
  t.AtRest c mem ∨ (∃ a as l owes, t.InAccess c mem a as l owes) ∨
    ∃ a as, t.Delivering c mem a as

theorem response_answers : (t.response i).answers = i.ack := by
  simp [DbusResponse.answers, response]

/-- Who answers for an aligned access: the memory takes its write and gives its value. -/
theorem answered {m : DbusRequest 32} {w : BitVec 30 → Word} (hm : a.Requests m)
    (hl : a.Asks l) (ha : a.Aligned) :
    bytesOf (writeWord w m.adr m.we m.dbWr) = a.write (bytesOf w) ∧
      a.read (bytesOf w) =
        if l.store then none else some (l.rdMux (w (m.adr.extractLsb' 2 30))) := by
  cases a with
  | load kind adr =>
    obtain ⟨-, hadr, hwe⟩ := hm
    obtain ⟨hst, h3, hla⟩ := hl
    obtain ⟨-, -, hval⟩ := load_value h3 hst (hla ▸ ha)
    have hkeep : writeWord w m.adr m.we m.dbWr = w := by
      rw [writeWord, hwe, byteMerge_zero, Function.update_eq_self]
    refine ⟨congrArg bytesOf hkeep, ?_⟩
    rw [Access.read_bytesOf w ha, hst, hval, hadr, hla]
    rfl
  | store kind adr data =>
    obtain ⟨-, hadr, hlanes⟩ := hm
    subst hadr
    refine ⟨Access.write_bytesOf w ha (fun k hk => (hlanes k hk).1) fun k hk => (hlanes k hk).2,
      ?_⟩
    rw [hl.1]
    rfl

theorem AtRest.current (h : t.AtRest c mem) : t.current i = none := by
  simp [Attached.current, accepts, LoadStore.request, h.free.busEn, h.pending]

theorem AtRest.no_ack (h : t.AtRest c mem) (hok : t.Ok i) : i.ack = false := by
  have ha := hok.answers
  rw [h.current] at ha
  simpa using ha

theorem AtRest.inv_step (h : t.AtRest c mem) (hok : t.Ok i) : Inv c mem (t.step c i) := by
  have hacc : t.accepts i = false := by simp [accepts, LoadStore.request, h.free.busEn]
  have hack : i.ack = false := h.no_ack hok
  have hpend : (t.step c i).pending = none := by simp [step, h.current]
  have hmem : (t.step c i).mem = t.mem := by simp [step, h.current]
  have hreq : (t.step c i).requests = t.requests := by simp [step, hacc]
  have hcomp : (t.step c i).completions = t.completions := by simp [step, h.free.validO]
  cases hi : i.op.en with
  | false =>
    have hops : (t.step c i).ops = t.ops := by simp [step, taken, hi]
    refine .inl ⟨h.free.step_free hi, hpend, ?_, ?_, ?_⟩
    · rw [hreq, hops]; exact h.requests
    · rw [hmem, hops]; exact h.memory
    · rw [hcomp, hops]; exact h.completions
  | true =>
    obtain ⟨a, ha, hal⟩ := hok.legal hi
    have hasks : a.Asks i.op := LsInput.asks_of_access ha
    have hops : (t.step c i).ops = a :: t.ops := by
      simp [step, taken, hi, h.free.busyO, ha]
    obtain ⟨hs, hd⟩ := h.free.step_issue (r := t.response i) hi (hasks.legal hal).1
    refine .inr (.inl ⟨a, t.ops, i.op, false, hops, hasks, hal, hs, hd, ?_, ?_, ?_, ?_, ?_⟩)
    · simp [hpend]
    · simp [hpend]
    · simp only [hreq, Bool.false_eq_true, if_false]; exact h.requests
    · rw [hmem]; exact h.memory
    · rw [hcomp]; exact h.completions

/-- Whatever the bus does, the request the memory works on is the one of the operation. -/
theorem InAccess.current (h : t.InAccess c mem a as l owes) :
    (t.current i).isSome = (owes || !i.stall) ∧
      (∀ m, t.current i = some m → a.Requests m) ∧
      List.Forall₂ Access.Requests (t.step c i).requests
        (if owes || !i.stall then a :: as else as) := by
  have hreq := h.requests
  have hp := h.pending
  cases owes with
  | true =>
    have hacc : t.accepts i = false := by
      cases hpend : t.pending <;> simp_all [accepts]
    refine ⟨by simp [Attached.current, hacc, hp], fun m hm => h.requested m ?_, ?_⟩
    · simpa [Attached.current, hacc] using hm
    · simpa [step, hacc] using hreq
  | false =>
    have hpend : t.pending = none := by simpa using hp
    have hacc : t.accepts i = !i.stall := by
      simp [accepts, LoadStore.request, h.driven.busEn, hpend]
    have hasks : a.Requests t.unit.request := h.asks.requests h.aligned h.driven
    cases hs : i.stall with
    | true =>
      refine ⟨by simp [Attached.current, hacc, hs, hpend], fun m hm => ?_, ?_⟩
      · simp [Attached.current, hacc, hs, hpend] at hm
      · simpa [step, hacc, hs] using hreq
    | false =>
      refine ⟨by simp [Attached.current, hacc, hs], fun m hm => ?_, ?_⟩
      · have : t.unit.request = m := by simpa [Attached.current, hacc, hs] using hm
        exact this ▸ hasks
      · simpa [step, hacc, hs] using ⟨hasks, hreq⟩

theorem InAccess.wait (h : t.InAccess c mem a as l owes) (hack : i.ack = false) :
    (t.step c i).InAccess c mem a as l (owes || !i.stall) := by
  obtain ⟨hcur, hreqd, hreq⟩ := h.current (i := i)
  have hr : (t.response i).answers = false := response_answers.trans hack
  have hb : t.unit.busyO c (t.response i) = true := h.serving.busyO_wait hr
  have howes : nextOwes owes t.unit.request (t.response i) = (owes || !i.stall) := by
    have hst : (t.response i).stall = i.stall := rfl
    cases owes <;> simp [nextOwes, hr, LoadStore.request, h.driven.busEn, hst]
  have hdrv := h.driven.step_wait (i := i.op) hb hr
  rw [howes] at hdrv
  have hpend : (t.step c i).pending = t.current i := by simp [step, hack]
  have hmem : (t.step c i).mem = t.mem := by
    simp only [step, hack]
    cases t.current i <;> rfl
  have hops : (t.step c i).ops = t.ops := by simp [step, taken, hb]
  have hcomp : (t.step c i).completions = t.completions := by
    simp [step, h.serving.validO_wait hr]
  refine ⟨hops.trans h.ops, h.asks, h.aligned, h.serving.step_wait hr, hdrv, ?_, ?_, hreq, ?_, ?_⟩
  · rw [hpend, hcur]
  · rw [hpend]; exact hreqd
  · rw [hmem]; exact h.memory
  · rw [hcomp]; exact h.completions

/-- The answer: the write is done, the value is on the bus, and the request is settled. -/
theorem InAccess.answer (h : t.InAccess c mem a as l owes) (hok : t.Ok i)
    (hack : i.ack = true) :
    (t.step c i).pending = none ∧
      bytesOf (t.step c i).mem = Access.after (bytesOf mem) (a :: as) ∧
      a.read (Access.after (bytesOf mem) as) =
        (if l.store then none else some (l.rdMux (t.response i).dbRd)) ∧
      List.Forall₂ Access.Requests (t.step c i).requests (a :: as) ∧
      (if (t.response i).stall then t.unit.busEn else false) = false := by
  obtain ⟨hcur, hreqd, hreq⟩ := h.current (i := i)
  have hsome : (t.current i).isSome = true := hok.answers hack
  obtain ⟨m, hm⟩ := Option.isSome_iff_exists.1 hsome
  obtain ⟨hwrite, hread⟩ := answered (w := t.mem) (hreqd m hm) h.asks h.aligned
  have hmem : (t.step c i).mem = writeWord t.mem m.adr m.we m.dbWr := by simp [step, hm, hack]
  have hrd : (t.response i).dbRd = t.mem (m.adr.extractLsb' 2 30) := by simp [response, hm, hack]
  rw [hcur] at hsome
  rw [hsome, if_pos rfl] at hreq
  refine ⟨by simp [step, hack], ?_, ?_, hreq, ?_⟩
  · rw [hmem, hwrite, h.memory]
    rfl
  · rw [← h.memory, hread, hrd]
  · have hst : (t.response i).stall = i.stall := rfl
    cases owes with
    | true => simp [h.driven.busEn]
    | false =>
      have : i.stall = false := by simpa using hsome
      simp [hst, this]

theorem InAccess.inv_answer_registered (h : t.InAccess c mem a as l owes) (hok : t.Ok i)
    (hreg : c.registeredReadStage = true) (hack : i.ack = true) :
    Inv c mem (t.step c i) := by
  obtain ⟨hpend, hmem, hread, hreq, hen⟩ := h.answer hok hack
  have hr : (t.response i).answers = true := response_answers.trans hack
  have hb : t.unit.busyO c (t.response i) = true := by simp [h.serving.busyO, hreg]
  have hinv : l.invalidOp = false := (h.asks.legal h.aligned).2
  have hops : (t.step c i).ops = a :: as := by simpa [step, taken, hb] using h.ops
  obtain ⟨hout, hvalid, hstore, hresult⟩ := h.serving.step_answer (i := i.op) hreg hr
  have hbus : (t.step c i).unit.busEn = false := by simpa [step, LoadStore.step, hb] using hen
  cases hearly : l.store && c.memWriteEarlyTerm with
  | true =>
    -- a store that ends with the answer itself
    obtain ⟨hst, hterm⟩ : l.store = true ∧ c.memWriteEarlyTerm = true := by simpa using hearly
    have hlate : (t.step c i).unit.earlyTerm c = true := by
      simp [LoadStore.earlyTerm, step, hstore, hst, hterm]
    have hcomp : (t.step c i).completions = none :: t.completions := by
      have hv : t.unit.validO c (t.response i) = true := by
        simp [LoadStore.validO, hreg, LoadStore.earlyTerm, h.serving.store, hst, hterm,
          h.serving.validComb hr, hinv]
      have hw : t.unit.writeO c = false := by
        simp [LoadStore.writeO, hreg, h.serving.store, hst]
      simp [step, hv, completion, hw]
    refine .inl ⟨⟨hout, hbus, fun _ _ => hlate⟩, hpend, ?_, ?_, ?_⟩
    · rw [hops]; exact hreq
    · rw [hops]; exact hmem
    · rw [hops, hcomp, h.completions, Access.results, hread, hst, if_pos rfl]
  | false =>
    have hterm : t.unit.earlyTerm c = false := by
      simpa [LoadStore.earlyTerm, h.serving.store] using hearly
    have hcomp : (t.step c i).completions = t.completions := by
      have hv : t.unit.validO c (t.response i) = false := by
        simp [LoadStore.validO, hreg, hterm, h.serving.validReg hreg]
      simp [step, hv]
    have hdone : (t.step c i).unit.Done c l.store (l.rdMux (t.response i).dbRd) := by
      refine ⟨hout, hbus, ?_, hstore, ?_, hresult⟩
      · exact hvalid.trans (by simp [hinv])
      · simpa [LoadStore.earlyTerm, step, hstore] using hearly
    refine .inr (.inr ⟨a, as, hreg, hops, ⟨_, _, hdone, hread⟩, hpend, hreq, hmem, ?_⟩)
    rw [hcomp]; exact h.completions

theorem InAccess.inv_answer_unregistered (h : t.InAccess c mem a as l owes) (hok : t.Ok i)
    (hreg : c.registeredReadStage = false) (hack : i.ack = true) :
    Inv c mem (t.step c i) := by
  obtain ⟨hpend, hmem, hread, hreq, hen⟩ := h.answer hok hack
  have hr : (t.response i).answers = true := response_answers.trans hack
  have hb : t.unit.busyO c (t.response i) = false := by simp [h.serving.busyO, hreg, response, hack]
  have hinv : l.invalidOp = false := (h.asks.legal h.aligned).2
  have hcomp : (t.step c i).completions = Access.results (bytesOf mem) (a :: as) := by
    have hv : t.unit.validO c (t.response i) = true := by
      simp [LoadStore.validO, hreg, h.serving.validComb hr, hinv]
    rw [Access.results, hread, ← h.completions]
    cases hst : l.store <;>
      simp [step, hv, completion, LoadStore.writeO, LoadStore.resultO, hreg, h.serving.store, hst,
        h.serving.rdmuxOut]
  cases hi : i.op.en with
  | false =>
    have hops : (t.step c i).ops = a :: as := by simpa [step, taken, hi] using h.ops
    refine .inl ⟨h.serving.step_free hreg hr hen hi, hpend, ?_, ?_, ?_⟩
    · rw [hops]; exact hreq
    · rw [hops]; exact hmem
    · rw [hops]; exact hcomp
  | true =>
    -- the next operation enters with the answer
    obtain ⟨b, hb', hal⟩ := hok.legal hi
    have hasks : b.Asks i.op := LsInput.asks_of_access hb'
    have hops : (t.step c i).ops = b :: a :: as := by
      simp [step, taken, hi, hb, hb', h.ops]
    obtain ⟨hs, hd⟩ := h.serving.step_next (r := t.response i) hreg hack hi (hasks.legal hal).1
    refine .inr (.inl ⟨b, a :: as, i.op, false, hops, hasks, hal, hs, hd, ?_, ?_, ?_, hmem, hcomp⟩)
    · simp [hpend]
    · simp [hpend]
    · simpa using hreq

theorem Delivering.current (h : t.Delivering c mem a as) : t.current i = none := by
  obtain ⟨store, value, hdone, -⟩ := h.done
  simp [Attached.current, accepts, LoadStore.request, hdone.busEn, h.pending]

theorem Delivering.inv_step (h : t.Delivering c mem a as) :
    Inv c mem (t.step c i) := by
  obtain ⟨store, value, hdone, hread⟩ := h.done
  have hreg := h.registered
  have hb : t.unit.busyO c (t.response i) = true := hdone.busyO hreg
  have hacc : t.accepts i = false := by simp [accepts, LoadStore.request, hdone.busEn]
  have hops : (t.step c i).ops = a :: as := by simpa [step, taken, hb] using h.ops
  have hcomp : (t.step c i).completions = Access.results (bytesOf mem) (a :: as) := by
    rw [Access.results, hread, ← h.completions]
    cases store <;>
      simp [step, hdone.validO hreg, completion, hdone.writeO hreg, LoadStore.resultO, hreg,
        hdone.value]
  refine .inl ⟨(hdone.step_idle hreg).free, by simp [step, h.current], ?_, ?_, ?_⟩
  · rw [hops]
    simpa [step, hacc] using h.requests
  · rw [hops]
    simpa [step, h.current] using h.memory
  · rw [hops]; exact hcomp

theorem inv_step (h : Inv c mem t) (hok : t.Ok i) : Inv c mem (t.step c i) := by
  obtain h | ⟨a, as, l, owes, h⟩ | ⟨a, as, h⟩ := h
  · exact h.inv_step hok
  · cases hack : i.ack with
    | false => exact .inr (.inl ⟨a, as, l, _, h.wait hack⟩)
    | true =>
      cases hreg : c.registeredReadStage with
      | true => exact h.inv_answer_registered hok hreg hack
      | false => exact h.inv_answer_unregistered hok hreg hack
  · exact h.inv_step

theorem inv_init : Inv c mem (machine c mem).init :=
  .inl ⟨⟨rfl, rfl, fun _ h => by cases h⟩, rfl, .nil, rfl, rfl⟩

theorem AtRest.unfinished (h : t.AtRest c mem) : t.unfinished c = false := by
  have hv := h.free.validReg
  cases hreg : c.registeredReadStage with
  | false => simp [Attached.unfinished, h.free.outstanding, hreg]
  | true =>
    cases hval : t.unit.validReg with
    | false => simp [Attached.unfinished, h.free.outstanding, hval]
    | true => simp [Attached.unfinished, h.free.outstanding, hv hreg hval]

theorem Delivering.unfinished (h : t.Delivering c mem a as) : t.unfinished c = true := by
  obtain ⟨store, value, hdone, -⟩ := h.done
  simp [Attached.unfinished, h.registered, hdone.validReg, hdone.early]

theorem Inv.faithful (h : Inv c mem t) : t.Faithful c mem := by
  obtain h | ⟨a, as, l, owes, h⟩ | ⟨a, as, h⟩ := h
  · have hu := h.unfinished
    refine ⟨?_, ?_, ?_⟩
    · simpa [h.free.busEn] using h.requests
    · simpa [h.free.outstanding] using h.memory
    · simpa [hu] using h.completions
  · have hu : t.unfinished c = true := by simp [Attached.unfinished, h.serving.outstanding]
    refine ⟨?_, ?_, ?_⟩
    · have hreq := h.requests
      rw [h.ops, h.driven.busEn]
      cases owes <;> simpa using hreq
    · simpa [h.ops, h.serving.outstanding] using h.memory
    · simpa [h.ops, hu] using h.completions
  · obtain ⟨store, value, hdone, -⟩ := h.done
    have hu := h.unfinished
    refine ⟨?_, ?_, ?_⟩
    · simpa [h.ops, hdone.busEn] using h.requests
    · simpa [h.ops, hdone.outstanding] using h.memory
    · simpa [h.ops, hu] using h.completions

theorem Inv.held (h : Inv c mem t) (hok : t.Ok i) : t.Held c i := by
  obtain h | ⟨a, as, l, owes, h⟩ | ⟨a, as, h⟩ := h
  · have hen : t.unit.request.en = false := h.free.busEn
    exact ⟨fun h' => absurd h' (by simp [hen]), fun h' => absurd h' (by simp [hen])⟩
  · have hp := h.pending
    cases owes with
    | true =>
      have hen : t.unit.request.en = false := h.driven.busEn
      exact ⟨fun h' => absurd h' (by simp [hen]), fun h' => absurd h' (by simp [hen])⟩
    | false =>
      refine ⟨fun _ hst => ?_, fun _ => by simpa using hp⟩
      have hack : i.ack = false := by
        have := hok.answers
        rw [(h.current (i := i)).1, hst] at this
        simpa using this
      have hb : t.unit.busyO c (t.response i) = true :=
        h.serving.busyO_wait (response_answers.trans hack)
      have hst' : (t.response i).stall = true := hst
      simp [step, LoadStore.step, LoadStore.request, hb, hst']
  · obtain ⟨store, value, hdone, -⟩ := h.done
    have hen : t.unit.request.en = false := hdone.busEn
    exact ⟨fun h' => absurd h' (by simp [hen]), fun h' => absurd h' (by simp [hen])⟩

theorem Inv.prompt (h : Inv c mem t) : t.Prompt c i := by
  obtain h | ⟨a, as, l, owes, h⟩ | ⟨a, as, h⟩ := h
  · exact ⟨fun h' => by simp [h.free.outstanding] at h', fun h' => by simp [h.unfinished] at h'⟩
  · refine ⟨fun _ => ?_, fun _ hans => ?_⟩
    · have hp := h.pending
      cases owes with
      | true => exact .inr hp
      | false => exact .inl h.driven.busEn
    · have hack : i.ack = true := hans h.serving.outstanding
      have hr : (t.response i).answers = true := response_answers.trans hack
      have hvalid : t.unit.validComb (t.response i) = true := by
        simp [h.serving.validComb hr, (h.asks.legal h.aligned).2]
      cases hreg : c.registeredReadStage with
      | false => exact .inl (by simp [Attached.completes, LoadStore.validO, hreg, hvalid])
      | true =>
        obtain ⟨-, hval, hstore, -⟩ := h.serving.step_answer (i := i.op) hreg hr
        cases he : t.unit.earlyTerm c with
        | true => exact .inl (by simp [Attached.completes, LoadStore.validO, hreg, he, hvalid])
        | false =>
          refine .inr fun j => ?_
          have he' : (t.step c i).unit.earlyTerm c = false := by
            simpa [LoadStore.earlyTerm, step, hstore, h.serving.store] using he
          have hval' : (t.step c i).unit.validReg = true :=
            hval.trans (by simp [(h.asks.legal h.aligned).2])
          simp [Attached.completes, LoadStore.validO, hreg, he', hval']
  · obtain ⟨store, value, hdone, -⟩ := h.done
    exact ⟨fun h' => by simp [hdone.outstanding] at h', fun _ _ => .inl (hdone.validO h.registered)⟩

end Invariant

/-- The load/store unit in front of a word memory is a byte memory: whatever is asked of it
and whenever the memory answers, each operation makes one request and one completion, and the
bytes and the values are the ones the operations leave one after the other. -/
theorem loadStore_byteMemory (c : CoreConfig) (mem : BitVec 30 → Word) (is : List AttachedInput)
    (h : (machine c mem).Along Ok (machine c mem).init is) :
    (machine c mem).Along (fun t i => t.Held c i ∧ t.Prompt c i) (machine c mem).init is ∧
      ((machine c mem).run is).Faithful c mem := by
  have hinv : ∀ t i, Inv c mem t → t.Ok i → Inv c mem ((machine c mem).step t i) :=
    fun _ _ ht hok => inv_step ht hok
  exact ⟨h.mono _ hinv (fun _ _ ht hok => ⟨ht.held hok, ht.prompt⟩) inv_init,
    (h.invariant _ hinv inv_init).faithful⟩
/-- The byte 0x8a is stored at 0x103 and the half word around it read back, signed. -/
def storeThenLoad : List AttachedInput :=
  let sb : LsInput := ⟨true, 0b000, 0x100, 0xffff8a, 3, 0, true⟩
  let lh : LsInput := ⟨false, 0b001, 0x104, 0, 0xffe, 0, true⟩
  let none : LsInput := ⟨false, 0, 0, 0, 0, 0, false⟩
  [⟨sb, false, false, 0⟩, ⟨lh, true, false, 0⟩, ⟨lh, false, true, 0⟩, ⟨lh, false, false, 0⟩,
    ⟨lh, false, false, 0⟩, ⟨none, false, false, 0⟩, ⟨none, false, true, 0⟩,
    ⟨none, false, false, 0⟩]

theorem loadStore_byteMemory_signed :
    (machine {} fun _ => 0x11223344).Along Ok (machine {} fun _ => 0x11223344).init
        storeThenLoad ∧
      ((machine {} fun _ => 0x11223344).run storeThenLoad).completions =
        [some 0xffff8a22, none] ∧
      ((machine {} fun _ => 0x11223344).run storeThenLoad).Faithful {} fun _ => 0x11223344 :=
  ⟨by decide +kernel, by decide +kernel,
    (loadStore_byteMemory {} (fun _ => 0x11223344) storeThenLoad (by decide +kernel)).2⟩

end Attached
end BonfireCore
