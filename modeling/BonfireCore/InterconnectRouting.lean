import BonfireCore.NestedInterconnect

/-! The course of each request through the interconnect: which ports take it, which slave
answers it, and what reaches the master. -/
namespace BonfireCore

variable {n xlen : ℕ}

/-- A request of the master and everything that happens on the bus until the next one. -/
structure Transaction (n xlen : ℕ) where
  request : DbusRequest xlen
  accepted : List (Fin n × DbusRequest xlen) := []
  answers : List (Fin n × BitVec xlen) := []
  acks : List (BitVec xlen) := []
  deriving DecidableEq, Repr

/-- An interconnect with the transactions so far, the last one first. -/
structure RoutedBus (n xlen : ℕ) where
  bench : InterconnectBench n xlen := {}
  log : List (Transaction n xlen) := []

namespace RoutedBus
variable (map : AddressMap n xlen)

/-- A slave takes the request it is shown unless it stalls; one that answers has taken it. -/
def taken (s : InterconnectBench n xlen) (c : DbusCycle n xlen) (j : Fin n) :
    Option (Fin n × DbusRequest xlen) :=
  let m := s.ic.toSlave map c.request j
  if m.en && (!(c.response j).stall || (c.response j).answers) then some (j, m) else none

def answered (c : DbusCycle n xlen) (j : Fin n) : Option (Fin n × BitVec xlen) :=
  if (c.response j).ack then some (j, (c.response j).dbRd) else none

def acked (s : InterconnectBench n xlen) (c : DbusCycle n xlen) : Option (BitVec xlen) :=
  if (s.response map c).ack then some (s.response map c).dbRd else none

/-- What one cycle adds to the transaction. -/
def record (s : InterconnectBench n xlen) (c : DbusCycle n xlen) (t : Transaction n xlen) :
    Transaction n xlen :=
  { t with
    accepted := t.accepted ++ (List.finRange n).filterMap (taken map s c)
    answers := t.answers ++ (List.finRange n).filterMap (answered c)
    acks := t.acks ++ (acked map s c).toList }

/-- The transactions with the one the master starts in this cycle. -/
def opened (s : RoutedBus n xlen) (c : DbusCycle n xlen) : List (Transaction n xlen) :=
  if s.bench.master = .idle ∧ c.request.en then { request := c.request } :: s.log else s.log

def step (s : RoutedBus n xlen) (c : DbusCycle n xlen) : RoutedBus n xlen where
  bench := s.bench.step map c
  log :=
    match s.opened c with
    | [] => []
    | t :: ts => record map s.bench c t :: ts

/-- A port with a request shows the last request of the master as it was issued, and is the
slot its address selects; the master is acknowledged only after a request. -/
def Presents (s : RoutedBus n xlen) (c : DbusCycle n xlen) : Prop :=
  (∀ j, (s.bench.ic.toSlave map c.request j).en →
    ∃ t ts, s.opened c = t :: ts ∧ Interconnect.sEn map t.request j ∧
      s.bench.ic.toSlave map c.request j = t.request) ∧
  ((s.bench.response map c).ack → s.opened c ≠ [])

/-- The transactions that are over. -/
def closed (s : RoutedBus n xlen) : List (Transaction n xlen) :=
  if s.bench.master = .idle then s.log else s.log.tail

/-- The transaction under way. -/
def current (s : RoutedBus n xlen) : Option (Transaction n xlen) :=
  if s.bench.master = .idle then none else s.log.head?

end RoutedBus

namespace Transaction
variable (map : AddressMap n xlen)

/-- The selected slot has taken the request once, unchanged, and its one acknowledge has
reached the master with its data; a request for no slot has reached none. -/
structure Routed (t : Transaction n xlen) : Prop where
  mapped : ∀ i, Interconnect.sEn map t.request i = true →
    ∃ d, t.accepted = [(i, t.request)] ∧ t.answers = [(i, d)] ∧ t.acks = [d]
  unmapped : (∀ i, Interconnect.sEn map t.request i = false) →
    t.accepted = [] ∧ t.answers = [] ∧ t.acks = []

/-- The same, up to now: the master has no acknowledge yet. -/
structure Underway (t : Transaction n xlen) : Prop where
  mapped : ∃ i, Interconnect.sEn map t.request i = true ∧
    (t.accepted = [] ∧ t.answers = [] ∨ t.accepted = [(i, t.request)] ∧ t.answers = [] ∨
      ∃ d, t.accepted = [(i, t.request)] ∧ t.answers = [(i, d)])
  acks : t.acks = []

end Transaction

def routedBus (map : AddressMap n xlen) : Clocked (RoutedBus n xlen) (DbusCycle n xlen) where
  init := {}
  step := RoutedBus.step map

theorem filterMap_finRange_none {α : Type*} {f : Fin n → Option α} (h : ∀ j, f j = none) :
    (List.finRange n).filterMap f = [] :=
  List.filterMap_eq_nil_iff.mpr fun j _ => h j

theorem filterMap_finRange_single {α : Type*} {f : Fin n → Option α} (i : Fin n)
    (h : ∀ j, j ≠ i → f j = none) : (List.finRange n).filterMap f = (f i).toList := by
  obtain ⟨front, back, hsplit⟩ := List.append_of_mem (List.mem_finRange i)
  have hnodup := List.nodup_finRange n
  rw [hsplit] at hnodup ⊢
  have hfront : front.filterMap f = [] := by
    refine List.filterMap_eq_nil_iff.mpr fun j hj => h j ?_
    rintro rfl
    exact (List.nodup_append.mp hnodup).2.2 j hj j (List.mem_cons_self ..) rfl
  have hback : back.filterMap f = [] := by
    refine List.filterMap_eq_nil_iff.mpr fun j hj => h j ?_
    rintro rfl
    exact (List.nodup_cons.mp (List.nodup_append.mp hnodup).2.1).1 hj
  rw [List.filterMap_append, hfront, List.nil_append, List.filterMap_cons, hback]
  cases f i <;> rfl

namespace RoutedBus
variable {map : AddressMap n xlen} {s : InterconnectBench n xlen} {c : DbusCycle n xlen}

theorem taken_off {j : Fin n} (h : (s.ic.toSlave map c.request j).en = false) :
    taken map s c j = none := by
  simp [taken, h]

theorem answered_off {j : Fin n} (h : (c.response j).answers = false) :
    answered c j = none := by
  have : (c.response j).ack = false ∧ (c.response j).error = false := by
    simpa [DbusResponse.answers] using h
  simp [answered, this]

/-- Slots but `i` have no request and owe nothing: the cycle is about `i` alone. -/
theorem record_single (hl : s.Legal map c) (i : Fin n) (t : Transaction n xlen)
    (hport : ∀ j, j ≠ i → (s.ic.toSlave map c.request j).en = false)
    (howes : ∀ j, j ≠ i → s.owes j = false) :
    record map s c t = { t with
      accepted := t.accepted ++ (taken map s c i).toList
      answers := t.answers ++ (answered c i).toList
      acks := t.acks ++ (acked map s c).toList } := by
  have hsilent : ∀ j, j ≠ i → (c.response j).answers = false := by
    intro j hj
    have h := hl.2 j
    rw [howes j hj] at h
    exact h.silent (hport j hj)
  simp only [record, filterMap_finRange_single i fun j hj => taken_off (hport j hj),
    filterMap_finRange_single i fun j hj => answered_off (hsilent j hj)]

/-- A cycle in which nothing happens. -/
theorem record_quiet (hl : s.Legal map c) (t : Transaction n xlen)
    (hport : ∀ j, (s.ic.toSlave map c.request j).en = false) (howes : ∀ j, s.owes j = false)
    (hack : (s.response map c).ack = false) : record map s c t = t := by
  have hsilent : ∀ j, (c.response j).answers = false := by
    intro j
    have h := hl.2 j
    rw [howes j] at h
    exact h.silent (hport j)
  simp [record, filterMap_finRange_none fun j => taken_off (hport j),
    filterMap_finRange_none fun j => answered_off (hsilent j), acked, hack]

/-- How far the register stage of slot `i` is with the transaction. -/
inductive Progress (i : Fin n) (slot : RegisteredSlot xlen) (t : Transaction n xlen) : Prop
  | request (state : slot.state = .request) (port : slot.toSlave = t.request)
    (accepted : t.accepted = []) (answers : t.answers = [])
  | waitResponse (state : slot.state = .waitResponse) (accepted : t.accepted = [(i, t.request)])
    (answers : t.answers = [])
  | response (state : slot.state = .response) (accepted : t.accepted = [(i, t.request)])
    (answers : t.answers = [(i, slot.dbRdR)])

/-- The log agrees with the phase of the interconnect. -/
inductive Tracks (map : AddressMap n xlen) (s : RoutedBus n xlen) : Prop
  | idle (master : s.bench.master = .idle) (routed : ∀ t ∈ s.log, t.Routed map)
  | held (m : DbusRequest xlen) (ts : List (Transaction n xlen))
    (master : s.bench.master = .holding m) (log : s.log = { request := m } :: ts)
    (routed : ∀ t ∈ ts, t.Routed map)
  | direct (i : Fin n) (t : Transaction n xlen) (ts : List (Transaction n xlen))
    (comb : map.registered i = false) (master : s.bench.master = .waiting)
    (target : s.bench.ic.sEnR = single i) (log : s.log = t :: ts)
    (sel : Interconnect.sEn map t.request = single i) (accepted : t.accepted = [(i, t.request)])
    (answers : t.answers = []) (acks : t.acks = []) (routed : ∀ t ∈ ts, t.Routed map)
  | staged (i : Fin n) (t : Transaction n xlen) (ts : List (Transaction n xlen))
    (reg : map.registered i = true) (master : s.bench.master = .waiting)
    (target : s.bench.ic.sEnR = single i) (log : s.log = t :: ts)
    (sel : Interconnect.sEn map t.request = single i) (acks : t.acks = [])
    (progress : Progress i (s.bench.ic.slot i) t) (routed : ∀ t ∈ ts, t.Routed map)

theorem Tracks.init (map : AddressMap n xlen) : Tracks map (routedBus map).init :=
  .idle rfl fun _ h => nomatch h

section Cycle
variable {b : RoutedBus n xlen} {i : Fin n} {t : Transaction n xlen}
  {ts : List (Transaction n xlen)}

theorem opened_new (hm : b.bench.master = .idle) (hen : c.request.en = true) :
    b.opened c = { request := c.request } :: b.log := by
  simp [opened, hm, hen]

theorem opened_old (hm : b.bench.master ≠ .idle) : b.opened c = b.log := by
  simp [opened, hm]

theorem step_log (map : AddressMap n xlen) (h : b.opened c = t :: ts) :
    (b.step map c).log = record map b.bench c t :: ts := by
  simp only [step, h]

/-- Only port `i` may carry a request, the one of the last transaction. -/
theorem presents_single (h : b.opened c = t :: ts)
    (hport : ∀ j, j ≠ i → (b.bench.ic.toSlave map c.request j).en = false)
    (hsel : Interconnect.sEn map t.request = single i)
    (hi : (b.bench.ic.toSlave map c.request i).en = true →
      b.bench.ic.toSlave map c.request i = t.request) : b.Presents map c := by
  refine ⟨fun j hj => ⟨t, ts, h, ?_⟩, fun _ => by simp [h]⟩
  by_cases hji : j = i
  · subst j
    exact ⟨by simp [hsel, single], hi hj⟩
  · rw [hport j hji] at hj
    cases hj

/-- The master connected straight to slot `i`, with a new request or one it holds. -/
theorem tracks_direct_request (hl : b.bench.Legal map c) (he : b.bench.ErrorFree c)
    (hcomb : map.registered i = false) (hsel : Interconnect.sEn map c.request = single i)
    (hstall : b.bench.ic.selectionStall map c.request = false)
    (hmux : b.bench.ic.muxSel map c.request = single i)
    (htarget : (b.step map c).bench.ic.sEnR = single i) (hslots : b.bench.ic.SlotsIdle)
    (howes : ∀ j, b.bench.owes j = false) (hmaster : b.bench.master ≠ .waiting)
    (hopen : b.opened c = { request := c.request } :: ts) (hts : ∀ t ∈ ts, t.Routed map) :
    Tracks map (b.step map c) ∧ b.Presents map c := by
  have hi : Interconnect.sEn map c.request i = true := by simp [hsel, single]
  have hen : c.request.en = true := (Bool.and_eq_true_iff.mp hi).2
  have hoff : ∀ j, j ≠ i → (b.bench.ic.toSlave map c.request j).en = false := by
    intro j hj
    exact Interconnect.toSlave_en_off (hslots j) (by simp [hsel, single, hj])
  have hport : b.bench.ic.toSlave map c.request i = c.request :=
    Interconnect.toSlave_direct hcomb hi hstall
  have hresp : b.bench.response map c = c.response i := by
    simp [InterconnectBench.response, Interconnect.toMaster_single hmux, Interconnect.muxSlave,
      hcomb, hstall]
  refine ⟨?_, presents_single hopen hoff hsel fun _ => hport⟩
  have hlog := step_log map hopen
  rw [record_single hl i _ hoff fun j _ => howes j] at hlog
  have hans : (c.response i).answers = (c.response i).ack := by
    simp [DbusResponse.answers, he i]
  have hnext : (b.step map c).bench.master = b.bench.master.next c.request (c.response i) :=
    hresp ▸ rfl
  cases hack : (c.response i).ack with
  | true =>
    refine .idle (hnext.trans (MasterPhase.next_of_answers (hans.trans hack))) ?_
    rw [hlog]
    refine List.forall_mem_cons.mpr ⟨⟨fun j hj => ⟨(c.response i).dbRd, ?_⟩, fun hnone => ?_⟩, hts⟩
    · have hji : j = i := by simpa [hsel, single] using hj
      simp [taken, answered, acked, hport, hen, hans, hresp, hack, hji]
    · have := hnone i
      rw [hi] at this
      cases this
  | false =>
    have hquiet : answered c i = none ∧ acked map b.bench c = none := by
      simp [answered, acked, hresp, hack]
    have hnext' : (b.step map c).bench.master =
        if (c.response i).stall then .holding c.request else .waiting := by
      rw [hnext]
      cases hm : b.bench.master with
      | waiting => exact absurd hm hmaster
      | idle | holding => simp [MasterPhase.next, hen, hans, hack]
    cases hst : (c.response i).stall with
    | true =>
      refine .held c.request ts (by simpa [hst] using hnext') (hlog.trans ?_) hts
      simp [taken, hst, hans, hack, hquiet]
    | false =>
      refine .direct i _ ts hcomb (by simpa [hst] using hnext') htarget hlog hsel ?_ ?_ ?_ hts
      · simp [taken, hport, hen, hst]
      · simp [hquiet]
      · simp [hquiet]

/-- The master waits for the answer of slot `i`. -/
theorem tracks_direct_wait (hl : b.bench.Legal map c) (he : b.bench.ErrorFree c)
    (hcomb : map.registered i = false) (hmaster : b.bench.master = .waiting)
    (hwait : InterconnectBench.Awaits map b.bench c i) (hslots : b.bench.ic.SlotsIdle)
    (howes : b.bench.owes = single i) (hlog : b.log = t :: ts)
    (hsel : Interconnect.sEn map t.request = single i)
    (haccepted : t.accepted = [(i, t.request)]) (hanswers : t.answers = []) (hacks : t.acks = [])
    (hts : ∀ t ∈ ts, t.Routed map) : Tracks map (b.step map c) ∧ b.Presents map c := by
  have hopen : b.opened c = t :: ts := (opened_old (by simp [hmaster])).trans hlog
  have hport : ∀ j, (b.bench.ic.toSlave map c.request j).en = false := fun j =>
    Interconnect.toSlave_en_off (hslots j) (hwait.off j)
  have hresp : b.bench.response map c = c.response i := by
    simp [InterconnectBench.response, Interconnect.toMaster_single hwait.mux,
      Interconnect.muxSlave, hcomb, hwait.stall]
  refine ⟨?_, presents_single hopen (fun j _ => hport j) hsel fun hi => ?_⟩
  · have hlog' := step_log map hopen
    rw [record_single hl i t (fun j _ => hport j) fun j hj => by simp [howes, single, hj],
      taken_off (hport i)] at hlog'
    have hans : (c.response i).answers = (c.response i).ack := by
      simp [DbusResponse.answers, he i]
    have hnext : (b.step map c).bench.master = b.bench.master.next c.request (c.response i) :=
      hresp ▸ rfl
    cases hack : (c.response i).ack with
    | true =>
      refine .idle (hnext.trans (MasterPhase.next_of_answers (hans.trans hack))) ?_
      rw [hlog']
      refine List.forall_mem_cons.mpr
        ⟨⟨fun j hj => ⟨(c.response i).dbRd, ?_⟩, fun hnone => ?_⟩, hts⟩
      · have hji : j = i := by simpa [hsel, single] using hj
        simp [answered, acked, hresp, hack, haccepted, hanswers, hacks, hji]
      · have := hnone i
        simp [hsel, single] at this
    | false =>
      refine .direct i _ ts hcomb ?_ hwait.target hlog' hsel ?_ ?_ ?_ hts
      · rw [hnext, hmaster]
        simp [MasterPhase.next, hans, hack]
      · simp [haccepted]
      · simp [hanswers, answered, hack]
      · simp [hacks, acked, hresp, hack]
  · rw [hport i] at hi
    cases hi

/-- The register stage of slot `i` takes a new request. -/
theorem tracks_staged_request (hl : b.bench.Legal map c) (hreg : map.registered i = true)
    (hsel : Interconnect.sEn map c.request = single i) (hmaster : b.bench.master = .idle)
    (hfree : b.bench.ic.busy = false) (hslots : b.bench.ic.SlotsIdle)
    (howes : ∀ j, b.bench.owes j = false) (hts : ∀ t ∈ b.log, t.Routed map) :
    Tracks map (b.step map c) ∧ b.Presents map c := by
  have hi : Interconnect.sEn map c.request i = true := by simp [hsel, single]
  have hen : c.request.en = true := (Bool.and_eq_true_iff.mp hi).2
  have hmux : b.bench.ic.muxSel map c.request = single i := by
    funext j
    simp [Interconnect.muxSel, hfree, hsel]
  have hstall : b.bench.ic.selectionStall map c.request = false := by
    simp [Interconnect.selectionStall, hfree]
  have hresp : b.bench.response map c = { dbRd := (b.bench.ic.slot i).dbRdR } := by
    simp [InterconnectBench.response, Interconnect.toMaster_single hmux, Interconnect.muxSlave,
      hreg, hstall, RegisteredSlot.toMaster, hslots i]
  have hport : ∀ j, (b.bench.ic.toSlave map c.request j).en = false := by
    intro j
    by_cases hj : j = i
    · subst j
      simp [Interconnect.toSlave, hreg, RegisteredSlot.toSlave, hslots i]
    · exact Interconnect.toSlave_en_off (hslots j) (by simp [hsel, single, hj])
  have hopen := opened_new hmaster hen
  have hlog := step_log map hopen
  rw [record_quiet hl _ hport howes (by simp [hresp])] at hlog
  obtain ⟨-, htarget⟩ := Interconnect.step_busy_of_free hfree hsel c.response
  have hslot : (b.step map c).bench.ic.slot i =
      { b.bench.ic.slot i with
        ackR := false, errorR := false, adrR := c.request.adr, dbWrR := c.request.dbWr,
        weR := c.request.we, state := .request } := by
    simp [step, InterconnectBench.step, Interconnect.step, hreg, hi, hstall, RegisteredSlot.next,
      hslots i]
  refine ⟨.staged i _ b.log hreg ?_ htarget hlog hsel rfl (.request ?_ ?_ rfl rfl) hts,
    presents_single hopen (fun j _ => hport j) hsel fun h => ?_⟩
  · simp [step, InterconnectBench.step, hmaster, MasterPhase.next, hresp, hen,
      DbusResponse.answers]
  · rw [hslot]
  · rw [hslot]
    simp [RegisteredSlot.toSlave, ← hen]
  · rw [hport i] at h
    cases h

/-- The register stage of slot `i` passes the request on and the answer back. -/
theorem tracks_staged_wait (hl : b.bench.Legal map c) (he : b.bench.ErrorFree c)
    (hreg : map.registered i = true) (hmaster : b.bench.master = .waiting)
    (hwait : InterconnectBench.Awaits map b.bench c i)
    (hslots : ∀ j, j ≠ i → (b.bench.ic.slot j).state = .idle)
    (howes : ∀ j, j ≠ i → b.bench.owes j = false)
    (howesi : (b.bench.ic.slot i).state = .response → b.bench.owes i = false)
    (hackR : (b.bench.ic.slot i).state = .response → (b.bench.ic.slot i).ackR = true)
    (hlog : b.log = t :: ts) (hsel : Interconnect.sEn map t.request = single i)
    (hacks : t.acks = []) (hprogress : Progress i (b.bench.ic.slot i) t)
    (hts : ∀ t ∈ ts, t.Routed map) : Tracks map (b.step map c) ∧ b.Presents map c := by
  have hopen : b.opened c = t :: ts := (opened_old (by simp [hmaster])).trans hlog
  have hoff : ∀ j, j ≠ i → (b.bench.ic.toSlave map c.request j).en = false := fun j hj =>
    Interconnect.toSlave_en_off (hslots j hj) (hwait.off j)
  have hport : b.bench.ic.toSlave map c.request i = (b.bench.ic.slot i).toSlave := by
    simp [Interconnect.toSlave, hreg]
  have hresp : b.bench.response map c = (b.bench.ic.slot i).toMaster := by
    simp [InterconnectBench.response, Interconnect.toMaster_single hwait.mux,
      Interconnect.muxSlave, hreg, hwait.stall]
  have hslot : (b.step map c).bench.ic.slot i =
      (b.bench.ic.slot i).next false c.request (c.response i) := by
    simp [step, InterconnectBench.step, Interconnect.step, hreg, hwait.off i]
  have hlog' := step_log map hopen
  rw [record_single hl i t hoff howes] at hlog'
  have hans : (c.response i).answers = (c.response i).ack := by
    simp [DbusResponse.answers, he i]
  have hstay (h : (b.bench.ic.slot i).state ≠ .response) :
      acked map b.bench c = none ∧ (b.step map c).bench.master = .waiting := by
    have hno : (b.bench.response map c).ack = false ∧ (b.bench.response map c).error = false := by
      simp [hresp, RegisteredSlot.toMaster, h]
    exact ⟨by simp [acked, hno], by
      simp [step, InterconnectBench.step, hmaster, MasterPhase.next, DbusResponse.answers, hno]⟩
  cases hprogress with
  | request state port accepted answers =>
    obtain ⟨hquiet, hmaster'⟩ := hstay (by simp [state])
    refine ⟨.staged i _ ts hreg hmaster' hwait.target hlog' hsel (by simp [hacks, hquiet]) ?_ hts,
      presents_single hopen hoff hsel fun _ => hport.trans port⟩
    have hen : t.request.en = true := by simp [← port, RegisteredSlot.toSlave, state]
    cases hack : (c.response i).ack with
    | true =>
      refine .response ?_ ?_ ?_
      · simp [hslot, RegisteredSlot.next, state, hack]
      · simp [accepted, taken, hport, hen, hans, hack, port]
      · simp [hslot, RegisteredSlot.next, state, answers, answered, hack]
    | false =>
      cases hst : (c.response i).stall with
      | true =>
        refine .request ?_ ?_ ?_ ?_
        · simp [hslot, RegisteredSlot.next, state, hack, he i, hst]
        · rw [hslot]
          simpa [RegisteredSlot.next, state, hack, he i, hst] using port
        · simp [accepted, taken, hst, hans, hack]
        · simp [answers, answered, hack]
      | false =>
        refine .waitResponse ?_ ?_ ?_
        · simp [hslot, RegisteredSlot.next, state, hack, he i, hst]
        · simp [accepted, taken, hport, hen, hst, port]
        · simp [answers, answered, hack]
  | waitResponse state accepted answers =>
    obtain ⟨hquiet, hmaster'⟩ := hstay (by simp [state])
    have hen : (b.bench.ic.toSlave map c.request i).en = false := by
      simp [hport, RegisteredSlot.toSlave, state]
    rw [taken_off hen] at hlog'
    refine ⟨.staged i _ ts hreg hmaster' hwait.target hlog' hsel (by simp [hacks, hquiet]) ?_ hts,
      presents_single hopen hoff hsel fun h => ?_⟩
    · cases hack : (c.response i).ack with
      | true =>
        refine .response ?_ (by simpa using accepted) ?_
        · simp [hslot, RegisteredSlot.next, state, hack]
        · simp [hslot, RegisteredSlot.next, state, answers, answered, hack]
      | false =>
        refine .waitResponse ?_ (by simpa using accepted) ?_
        · simp [hslot, RegisteredSlot.next, state, hack, he i]
        · simp [answers, answered, hack]
    · rw [hen] at h
      cases h
  | response state accepted answers =>
    have hen : (b.bench.ic.toSlave map c.request i).en = false := by
      simp [hport, RegisteredSlot.toSlave, state]
    have hsilent : (c.response i).answers = false := by
      have h := hl.2 i
      rw [howesi state] at h
      exact h.silent hen
    have hack : (b.bench.response map c).ack = true := by
      simp [hresp, RegisteredSlot.toMaster, state, hackR state]
    have hidle : (b.step map c).bench.master = .idle :=
      MasterPhase.next_of_answers (by simp [DbusResponse.answers, hack])
    rw [taken_off hen, answered_off hsilent] at hlog'
    refine ⟨.idle hidle ?_, presents_single hopen hoff hsel fun h => ?_⟩
    · rw [hlog']
      refine List.forall_mem_cons.mpr
        ⟨⟨fun j hj => ⟨(b.bench.ic.slot i).dbRdR, ?_⟩, fun hnone => ?_⟩, hts⟩
      · have hji : j = i := by simpa [hsel, single] using hj
        have hrd : (b.bench.response map c).dbRd = (b.bench.ic.slot i).dbRdR := by
          simp [hresp, RegisteredSlot.toMaster]
        simp [accepted, answers, hacks, acked, hack, hrd, hji]
      · have := hnone i
        simp [hsel, single] at this
    · rw [hen] at h
      cases h

end Cycle

theorem Tracks.step {b : RoutedBus n xlen} (h : Tracks map b)
    (hp : InterconnectBench.Phase map b.bench) (hl : b.bench.Legal map c)
    (he : b.bench.ErrorFree c) : Tracks map (b.step map c) ∧ b.Presents map c := by
  cases hp with
  | idle master busy slots owes =>
    have hrouted : ∀ t ∈ b.log, t.Routed map := by
      cases h with
      | idle _ routed => exact routed
      | held _ _ master' | direct _ _ _ _ master' | staged _ _ _ _ master' =>
        rw [master] at master'
        cases master'
    have hstall : b.bench.ic.selectionStall map c.request = false := by
      simp [Interconnect.selectionStall, busy]
    have hmux : b.bench.ic.muxSel map c.request = Interconnect.sEn map c.request := by
      funext j
      simp [Interconnect.muxSel, busy]
    rcases Interconnect.sEn_cases map c.request with ⟨i, hi⟩ | hnone
    · cases hreg : map.registered i with
      | true => exact tracks_staged_request hl hreg hi master busy slots owes hrouted
      | false =>
        have hen : c.request.en = true := by
          have : Interconnect.sEn map c.request i = true := by simp [hi, single]
          exact (Bool.and_eq_true_iff.mp this).2
        obtain ⟨-, htarget⟩ := Interconnect.step_busy_of_free busy hi c.response
        exact tracks_direct_request hl he hreg hi hstall (hmux.trans hi) htarget slots owes
          (by simp [master]) (opened_new master hen) hrouted
    · have hport : ∀ j, (b.bench.ic.toSlave map c.request j).en = false := fun j =>
        Interconnect.toSlave_en_off (slots j) (congrFun hnone j)
      have hresp : b.bench.response map c = { error := c.request.en } := by
        simp [InterconnectBench.response, Interconnect.toMaster_none (hmux.trans hnone), hstall]
      have hquiet (t : Transaction n xlen) : record map b.bench c t = t :=
        record_quiet hl t hport owes (by simp [hresp])
      refine ⟨?_, fun j hj => ?_, fun hack => ?_⟩
      · cases hen : c.request.en with
        | true =>
          refine .idle (MasterPhase.next_of_answers (by simp [hresp, hen, DbusResponse.answers])) ?_
          rw [step_log map (opened_new master hen), hquiet]
          refine List.forall_mem_cons.mpr ⟨⟨fun j hj => ?_, fun _ => ⟨rfl, rfl, rfl⟩⟩, hrouted⟩
          simp [hnone] at hj
        | false =>
          refine .idle ?_ ?_
          · simp [RoutedBus.step, InterconnectBench.step, master, MasterPhase.next, hen]
          · have hopen : b.opened c = b.log := by simp [opened, hen]
            simp only [RoutedBus.step, hopen]
            cases hb : b.log with
            | nil => exact fun _ h => absurd h List.not_mem_nil
            | cons t ts => simpa [hquiet, hb] using hrouted
      · rw [hport j] at hj
        cases hj
      · simp [hresp] at hack
  | held i m comb sel master busy target slots owes =>
    cases h with
    | idle master' | direct _ _ _ _ master' | staged _ _ _ _ master' =>
      rw [master] at master'
      cases master'
    | held m' ts master' log routed =>
      have hm : c.request = m := by simpa [MasterPhase.Allows, master] using hl.1
      have hm' : m = m' := by simpa [master] using master'
      subst hm'
      subst hm
      have hstall : b.bench.ic.selectionStall map c.request = false := by
        simp [Interconnect.selectionStall, sel, target]
      have hmux : b.bench.ic.muxSel map c.request = single i := by
        funext j
        simp [Interconnect.muxSel, busy, target]
      obtain ⟨-, htarget⟩ := Interconnect.step_busy_of_busy map c.request busy c.response
      exact tracks_direct_request hl he comb sel hstall hmux (htarget.trans target) slots owes
        (by simp [master]) ((opened_old (by simp [master])).trans log) routed
  | direct i comb master busy target slots owes =>
    cases h with
    | idle master' | held _ _ master' =>
      rw [master] at master'
      cases master'
    | direct i' t ts _ _ target' log sel accepted answers acks routed =>
      obtain rfl := single_injective (target.symm.trans target')
      exact tracks_direct_wait hl he comb master (InterconnectBench.awaits hl master busy target)
        slots owes log sel accepted answers acks routed
    | staged i' _ _ reg _ target' =>
      obtain rfl := single_injective (target.symm.trans target')
      rw [comb] at reg
      cases reg
  | staged i reg master busy target slots stage =>
    cases h with
    | idle master' | held _ _ master' =>
      rw [master] at master'
      cases master'
    | direct i' _ _ comb _ target' =>
      obtain rfl := single_injective (target.symm.trans target')
      rw [comb] at reg
      cases reg
    | staged i' t ts _ _ target' log sel acks progress routed =>
      obtain rfl := single_injective (target.symm.trans target')
      refine tracks_staged_wait hl he reg master (InterconnectBench.awaits hl master busy target)
        slots ?_ ?_ ?_ log sel acks progress routed
      · intro j hj
        cases stage with
        | request _ owes | response _ owes => exact owes j
        | waitResponse _ owes => simp [owes, single, hj]
      · intro hstate
        cases stage with
        | request state | waitResponse state =>
          rw [hstate] at state
          cases state
        | response _ owes => exact owes i
      · intro hstate
        cases stage with
        | request state | waitResponse state =>
          rw [hstate] at state
          cases state
        | response _ _ ack => exact ack

theorem Tracks.closed {b : RoutedBus n xlen} (h : Tracks map b)
    (hp : InterconnectBench.Phase map b.bench) :
    (∀ t ∈ b.closed, t.Routed map) ∧ ∀ t ∈ b.current, t.Underway map := by
  cases h with
  | idle master routed => simpa [RoutedBus.closed, current, master] using routed
  | held m ts master log routed =>
    refine ⟨by simpa [RoutedBus.closed, master, log] using routed, fun t ht => ?_⟩
    obtain rfl : t = { request := m } := by simpa [current, master, log, eq_comm] using ht
    cases hp with
    | idle master' | direct _ _ master' | staged _ _ master' =>
      rw [master] at master'
      cases master'
    | held i m' comb sel master' =>
      have hm : m = m' := by simpa [master] using master'
      exact ⟨⟨i, by simp [hm, sel, single], .inl ⟨rfl, rfl⟩⟩, rfl⟩
  | direct i t ts comb master target log sel accepted answers acks routed =>
    refine ⟨by simpa [RoutedBus.closed, master, log] using routed, fun t' ht => ?_⟩
    obtain rfl : t' = t := by simpa [current, master, log, eq_comm] using ht
    exact ⟨⟨i, by simp [sel, single], .inr (.inl ⟨accepted, answers⟩)⟩, acks⟩
  | staged i t ts reg master target log sel acks progress routed =>
    refine ⟨by simpa [RoutedBus.closed, master, log] using routed, fun t' ht => ?_⟩
    obtain rfl : t' = t := by simpa [current, master, log, eq_comm] using ht
    refine ⟨⟨i, by simp [sel, single], ?_⟩, acks⟩
    cases progress with
    | request _ _ accepted answers => exact .inl ⟨accepted, answers⟩
    | waitResponse _ accepted answers => exact .inr (.inl ⟨accepted, answers⟩)
    | response _ accepted answers => exact .inr (.inr ⟨_, accepted, answers⟩)

end RoutedBus

/-- What the bus makes of the master's requests over a run: no port ever shows anything but
the open request, at the slot of its address; each request that is over went to that slot
once and brought back one answer; one still open has waited at most two cycles for anything
but its slave. -/
structure Routes (map : AddressMap n xlen) (cs : List (DbusCycle n xlen)) : Prop where
  presents : (routedBus map).Along (RoutedBus.Presents map) (routedBus map).init cs
  routed : ∀ t ∈ ((routedBus map).run cs).closed, t.Routed map
  underway : ∀ t ∈ ((routedBus map).run cs).current, t.Underway map
  prompt : ((routedBus map).run cs).bench.age ≤ 2

theorem interconnect_routes {map : AddressMap n xlen} {cs : List (DbusCycle n xlen)}
    (hl : (interconnect map).Along (InterconnectBench.Legal map) (interconnect map).init cs)
    (he : (interconnect map).Along InterconnectBench.ErrorFree (interconnect map).init cs) :
    Routes map cs := by
  have hboth := (Clocked.along_comap (M := routedBus map) (N := interconnect map)
    (P := fun s c => s.Legal map c ∧ s.ErrorFree c) (s := (routedBus map).init) RoutedBus.bench
    fun _ _ => rfl).mp (hl.and he)
  have hstep (b : RoutedBus n xlen) (c : DbusCycle n xlen)
      (h : RoutedBus.Tracks map b ∧ InterconnectBench.Phase map b.bench)
      (hok : b.bench.Legal map c ∧ b.bench.ErrorFree c) :
      RoutedBus.Tracks map (b.step map c) ∧ InterconnectBench.Phase map (b.step map c).bench :=
    ⟨(h.1.step h.2 hok.1 hok.2).1, h.2.step hok.1 hok.2⟩
  have hinit : RoutedBus.Tracks map (routedBus map).init ∧
      InterconnectBench.Phase map (routedBus map).init.bench :=
    ⟨.init map, .init map⟩
  have hend := hboth.invariant
    (fun b => RoutedBus.Tracks map b ∧ InterconnectBench.Phase map b.bench) hstep hinit
  obtain ⟨hclosed, hcurrent⟩ := hend.1.closed hend.2
  exact ⟨hboth.mono
    (fun b => RoutedBus.Tracks map b ∧ InterconnectBench.Phase map b.bench) hstep
    (fun b c h hok => (h.1.step h.2 hok.1 hok.2).2) hinit, hclosed,
    hcurrent, hend.2.age_le⟩

theorem interconnect_routes_soc : Routes soc errorFreeRun :=
  interconnect_routes (by decide) (by decide)

end BonfireCore
