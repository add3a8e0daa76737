import BonfireCore.Dbus
import BonfireCore.DualportedRam

/-! The data bus on a port of the block RAM, with the other port in use. -/
namespace BonfireCore

variable {a xlen : ℕ}

/-- `dbusToRamPort`; in the read-only form `ackRd` drives `ack_i` itself. -/
structure DbusToRamPort where
  ackRd : Bool := false
  deriving DecidableEq, Repr

namespace DbusToRamPort
variable (readOnly : Bool) (p : DbusToRamPort) (dbus : DbusRequest xlen)

/-- A request of the read-only form is a read. -/
def we : Bool := !readOnly && decide (dbus.we ≠ 0)

/-- `comb_rd` and `comb_wr`. -/
def port : RamPort a xlen where
  en := dbus.en
  adrbus := dbus.adr.extractLsb' 2 a
  wren := dbus.we
  dbin := dbus.dbWr

def response (dbout : BitVec xlen) : DbusResponse xlen where
  ack := p.ackRd || we readOnly dbus && dbus.en
  dbRd := dbout

def step : DbusToRamPort where
  ackRd := dbus.en && !we readOnly dbus

end DbusToRamPort

/-- A request as the master sees it: a read is owed the word it asks for. -/
inductive RamRequest (xlen : ℕ)
  | read (word : BitVec xlen)
  | write
  deriving DecidableEq, Repr

/-- The port at work on port A of a RAM, with what has happened on the bus. -/
structure RamBench (a xlen : ℕ) where
  port : DbusToRamPort := {}
  ram : DualportedRam a xlen
  /-- The memory that the writes of both ports have left, in the order of their processes. -/
  memory : BitVec a → BitVec xlen
  /-- The read of the last cycle. -/
  owed : Option (RamRequest xlen) := none
  requests : List (RamRequest xlen) := []
  /-- `db_rd` in each cycle with `ack_i`. -/
  acks : List (BitVec xlen) := []

structure RamBenchInput (a xlen : ℕ) where
  dbus : DbusRequest xlen := {}
  other : RamPort a xlen := {}
  deriving DecidableEq, Repr

namespace RamBench
variable (r : RamPorts) (s : RamBench a xlen) (i : RamBenchInput a xlen)

def request : RamRequest xlen :=
  if DbusToRamPort.we r.readOnlyA i.dbus then .write
  else .read (s.memory (i.dbus.adr.extractLsb' 2 a))

def response : DbusResponse xlen := s.port.response r.readOnlyA i.dbus s.ram.dboutA

def busWrite (memory : BitVec a → BitVec xlen) : BitVec a → BitVec xlen :=
  let adr := i.dbus.adr.extractLsb' 2 a
  if i.dbus.en && DbusToRamPort.we r.readOnlyA i.dbus then
    Function.update memory adr (byteMerge i.dbus.we (memory adr) i.dbus.dbWr)
  else memory

def step : RamBench a xlen where
  port := .step r.readOnlyA i.dbus
  ram := s.ram.step r (DbusToRamPort.port i.dbus) i.other
  memory :=
    if r.aFirst then i.other.write r.readOnlyB (busWrite r i s.memory)
    else busWrite r i (i.other.write r.readOnlyB s.memory)
  owed := if i.dbus.en && !DbusToRamPort.we r.readOnlyA i.dbus then some (s.request r i) else none
  requests := if i.dbus.en then s.requests ++ [s.request r i] else s.requests
  acks := if (s.response r i).ack then s.acks ++ [(s.response r i).dbRd] else s.acks

def machine (image : List ℕ) : Clocked (RamBench a xlen) (RamBenchInput a xlen) where
  init := { ram := { ram := createRam a xlen image }, memory := createRam a xlen image }
  step s i := s.step r i

/-- What an acknowledge with `db_rd` means for a request. -/
def Answers (request : RamRequest xlen) (dbRd : BitVec xlen) : Prop :=
  ∀ word, request = .read word → dbRd = word

/-- The `k`-th acknowledge answers the `k`-th request; only a read of the last cycle still
waits for its own. -/
def Answered : Prop :=
  ∃ done, s.requests = done ++ s.owed.toList ∧ List.Forall₂ Answers done s.acks

/-- A write right behind a read. -/
def Collides : Prop :=
  s.owed.isSome = true ∧ i.dbus.en = true ∧ DbusToRamPort.we r.readOnlyA i.dbus = true

instance : Decidable (s.Collides r i) := inferInstanceAs (Decidable (_ ∧ _))

variable {r s i}

theorem port_write (memory : BitVec a → BitVec xlen) :
    (DbusToRamPort.port i.dbus).write r.readOnlyA memory = busWrite r i memory := by
  unfold RamPort.write busWrite DbusToRamPort.we
  by_cases hwe : i.dbus.we = 0
  · have hkeep (adr : BitVec a) : Function.update memory adr
        (byteMerge i.dbus.we (memory adr) i.dbus.dbWr) = memory := by
      rw [hwe, byteMerge_zero, Function.update_eq_self]
    simp only [DbusToRamPort.port, hkeep, ite_self]
  · have hdec : decide (i.dbus.we ≠ 0) = true := decide_eq_true hwe
    simp only [DbusToRamPort.port, hdec, Bool.and_true]
    rfl

/-- Between two edges. -/
structure Inv (s : RamBench a xlen) : Prop where
  memory : s.ram.ram = s.memory
  ackRd : s.port.ackRd = s.owed.isSome
  owed : ∀ q ∈ s.owed, Answers q s.ram.dboutA
  answered : s.Answered

theorem step_memory (h : s.Inv) : (s.step r i).ram.ram = (s.step r i).memory := by
  show (if _ then _ else _) = if _ then _ else _
  rw [port_write, port_write, h.memory]

/-- A read is on the output after the edge that asks for it. -/
theorem step_owed (h : s.Inv) : ∀ q ∈ (s.step r i).owed, Answers q (s.step r i).ram.dboutA := by
  intro q hq word hword
  have howed : (s.step r i).owed =
    if i.dbus.en && !DbusToRamPort.we r.readOnlyA i.dbus then some (s.request r i) else none := rfl
  rw [howed] at hq
  split_ifs at hq with hread
  · obtain ⟨hen, hwe⟩ := Bool.and_eq_true _ _ ▸ hread
    obtain rfl : s.request r i = q := Option.some.inj hq
    rw [request, if_neg (by simpa using hwe)] at hword
    obtain rfl := RamRequest.read.inj hword
    show (if i.dbus.en then _ else _) = _
    rw [hen, if_pos rfl, h.memory]
    rfl
  · contradiction

theorem step_ack (h : s.Inv) :
    (s.step r i).acks =
      if s.owed.isSome || DbusToRamPort.we r.readOnlyA i.dbus && i.dbus.en then
        s.acks ++ [s.ram.dboutA]
      else s.acks := by
  rw [← h.ackRd]
  rfl

theorem step_requests : (s.step r i).requests =
    s.requests ++ if i.dbus.en then [s.request r i] else [] := by
  show (if i.dbus.en then s.requests ++ [s.request r i] else s.requests) = _
  cases i.dbus.en <;> simp

theorem answered_step (h : s.Inv) (hno : ¬ s.Collides r i) : (s.step r i).Answered := by
  obtain ⟨done, hrequests, hdone⟩ := h.answered
  have hreq := step_requests (r := r) (s := s) (i := i)
  have hacks := step_ack (r := r) (i := i) h
  have howed : (s.step r i).owed =
    if i.dbus.en && !DbusToRamPort.we r.readOnlyA i.dbus then some (s.request r i) else none := rfl
  -- the requests that have their acknowledge before this cycle's own request counts
  have hbefore : ∃ before, s.requests = before ∧
      List.Forall₂ Answers before
        (if s.owed.isSome then s.acks ++ [s.ram.dboutA] else s.acks) := by
    refine ⟨_, rfl, ?_⟩
    cases ho : s.owed with
    | none => simpa [hrequests, ho] using hdone
    | some q =>
      rw [hrequests, ho]
      exact List.rel_append hdone (.cons (h.owed q ho) .nil)
  obtain ⟨before, rfl, hbefore⟩ := hbefore
  cases hen : i.dbus.en with
  | false =>
    refine ⟨s.requests, by simp [hreq, howed, hen], ?_⟩
    rwa [hacks, hen, Bool.and_false, Bool.or_false]
  | true =>
    cases hwe : DbusToRamPort.we r.readOnlyA i.dbus with
    | false =>
      refine ⟨s.requests, by simp [hreq, howed, hen, hwe], ?_⟩
      rwa [hacks, hwe, Bool.false_and, Bool.or_false]
    | true =>
      have hnone : s.owed = none := by
        cases ho : s.owed with
        | none => rfl
        | some q => exact absurd ⟨by rw [ho]; rfl, hen, hwe⟩ hno
      have hwrite : s.request r i = .write := by rw [request, if_pos hwe]
      refine ⟨s.requests ++ [.write], by simp [hreq, howed, hen, hwe, hwrite], ?_⟩
      rw [hnone] at hbefore
      rw [hacks, hnone, hwe, hen]
      exact List.rel_append hbefore (.cons (fun _ hw => by contradiction) .nil)

/-- Two requests share one acknowledge. -/
theorem not_answered_step (h : s.Inv) (hc : s.Collides r i) : ¬ (s.step r i).Answered := by
  obtain ⟨ho, hen, hwe⟩ := hc
  obtain ⟨done, hrequests, hdone⟩ := h.answered
  obtain ⟨q, hq⟩ := Option.isSome_iff_exists.1 ho
  have hreq := step_requests (r := r) (s := s) (i := i)
  have hacks := step_ack (r := r) (i := i) h
  have howed : (s.step r i).owed = none := by
    show (if i.dbus.en && !DbusToRamPort.we r.readOnlyA i.dbus then _ else _) = _
    rw [hwe, Bool.not_true, Bool.and_false, if_neg Bool.false_ne_true]
  rintro ⟨done', hrequests', hdone'⟩
  have hlen := hdone.length_eq
  have hlen' := hdone'.length_eq
  have hr := congrArg List.length hrequests
  have hr' := congrArg List.length hrequests'
  rw [hreq] at hr'
  rw [hacks] at hlen'
  simp [hq] at hr
  simp [hen, howed] at hr'
  simp [hq] at hlen'
  omega

theorem step_inv (h : s.Inv) (hno : ¬ s.Collides r i) : (s.step r i).Inv where
  memory := step_memory h
  ackRd := by
    show (i.dbus.en && !DbusToRamPort.we r.readOnlyA i.dbus) =
      (if _ then _ else _ : Option _).isSome
    cases i.dbus.en && !DbusToRamPort.we r.readOnlyA i.dbus <;> rfl
  owed := step_owed h
  answered := answered_step h hno

/-- Every request is acknowledged once and in order, and a read gets the word that all earlier
writes have left, in the runs in which no write comes right behind a read, and in no others. -/
theorem answered_run (r : RamPorts) (image : List ℕ) (is : List (RamBenchInput a xlen)) :
    (machine r image).Along (fun s i => (s.step r i).Answered) (machine r image).init is ↔
      (machine r image).Along (fun s i => ¬ s.Collides r i) (machine r image).init is := by
  have hinit : (machine r image : Clocked (RamBench a xlen) _).init.Inv :=
    ⟨rfl, rfl, by simp [machine], [], rfl, .nil⟩
  have hall : (machine r image).Along (fun _ _ => True) (machine r image).init is :=
    Clocked.along_of_inv (fun _ => True) (fun _ _ _ => trivial) (fun _ _ _ => trivial) trivial
  refine hall.congr_invariant Inv (fun s i hs _ hno => step_inv hs hno) (fun s i hs _ => ?_) hinit
  exact ⟨fun h hc => not_answered_step hs hc h, answered_step hs⟩

/-- A read and a store right behind it: the one acknowledge is for two requests. -/
theorem read_write_share : ¬ ∀ (r : RamPorts) (is : List (RamBenchInput 4 32)),
    (machine r []).Along (fun s i => (s.step r i).Answered) (machine r []).init is := by
  intro h
  have hrun := h {} [⟨⟨true, 0, 0, 0⟩, {}⟩, ⟨⟨true, 4, 0xf, 1⟩, {}⟩]
  obtain ⟨done, hrequests, hdone⟩ := hrun.2.1
  have hlen := hdone.length_eq
  have hr := congrArg List.length hrequests
  rw [List.length_append, hlen] at hr
  revert hr
  decide

end RamBench
end BonfireCore
