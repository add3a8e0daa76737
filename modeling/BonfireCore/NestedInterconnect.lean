import BonfireCore.InterconnectReady
import Mathlib.Data.Fin.VecNotation

/-! A second interconnect as slave `k` of the first, as the native I/O bus hangs behind the
extended core. -/
namespace BonfireCore

variable {n m xlen : ℕ}

/-- One cycle: the master, the slaves of the outer interconnect (the answer given for slot
`k` is not used) and the slaves of the nested one. -/
structure NestedCycle (n m xlen : ℕ) where
  request : DbusRequest xlen := {}
  response : Fin n → DbusResponse xlen := fun _ => {}
  inner : Fin m → DbusResponse xlen := fun _ => {}

structure NestedMap (n m xlen : ℕ) where
  outer : AddressMap n xlen
  inner : AddressMap m xlen
  k : Fin n

structure NestedBench (n m xlen : ℕ) where
  outer : InterconnectBench n xlen := {}
  inner : InterconnectBench m xlen := {}

namespace NestedBench
variable (map : NestedMap n m xlen)

def innerCycle (s : NestedBench n m xlen) (c : NestedCycle n m xlen) : DbusCycle m xlen where
  request := s.outer.ic.toSlave map.outer c.request map.k
  response := c.inner

def outerCycle (s : NestedBench n m xlen) (c : NestedCycle n m xlen) : DbusCycle n xlen where
  request := c.request
  response := fun j =>
    if j = map.k then s.inner.response map.inner (s.innerCycle map c) else c.response j

def step (s : NestedBench n m xlen) (c : NestedCycle n m xlen) : NestedBench n m xlen where
  outer := s.outer.step map.outer (s.outerCycle map c)
  inner := s.inner.step map.inner (s.innerCycle map c)

/-- The master holds its request; each slave but the nested interconnect, which is the one of
the source, answers each accepted request once. -/
def Legal (s : NestedBench n m xlen) (c : NestedCycle n m xlen) : Prop :=
  s.outer.master.Allows c.request ∧
    (∀ j, j ≠ map.k →
      SlaveAllows (s.outer.owes j) (s.outer.ic.toSlave map.outer c.request j) (c.response j)) ∧
    ∀ j, SlaveAllows (s.inner.owes j)
      (s.inner.ic.toSlave map.inner (s.innerCycle map c).request j) (c.inner j)

instance (s : NestedBench n m xlen) (c : NestedCycle n m xlen) : Decidable (s.Legal map c) :=
  inferInstanceAs (Decidable (_ ∧ _ ∧ _))

/-- No slave answers with an error, and no request for slot `k` misses every nested slot. -/
def ErrorFree (_ : NestedBench n m xlen) (c : NestedCycle n m xlen) : Prop :=
  (∀ j, j ≠ map.k → (c.response j).error = false) ∧ (∀ j, (c.inner j).error = false) ∧
    (Interconnect.sEn map.outer c.request map.k → ∃ j, Interconnect.sEn map.inner c.request j)

instance (s : NestedBench n m xlen) (c : NestedCycle n m xlen) : Decidable (s.ErrorFree map c) :=
  inferInstanceAs (Decidable (_ ∧ _ ∧ _))

/-- Both interconnects answer as they should, and after an answer to the master the nested
one is ready too. -/
def Answers (s : NestedBench n m xlen) (c : NestedCycle n m xlen) : Prop :=
  s.outer.Answers map.outer (s.outerCycle map c) ∧
    s.inner.Answers map.inner (s.innerCycle map c) ∧
    ((s.outer.response map.outer (s.outerCycle map c)).answers →
      InterconnectBench.Ready map.inner (s.step map c).inner.ic)

def Accounted (s : NestedBench n m xlen) : Prop := s.outer.Accounted ∧ s.inner.Accounted

/-- The nested interconnect as its slot sees it. -/
structure Link (map : NestedMap n m xlen) (s : NestedBench n m xlen) : Prop where
  outer : InterconnectBench.Phase map.outer s.outer
  inner : InterconnectBench.Phase map.inner s.inner
  waits : s.outer.owes map.k = decide (s.inner.master = .waiting)
  holds : ∀ r, s.inner.master = .holding r →
    (map.outer.registered map.k = true ∧ (s.outer.ic.slot map.k).state = .request ∧
      (s.outer.ic.slot map.k).toSlave = r) ∨
    (map.outer.registered map.k = false ∧ s.outer.master = .holding r ∧
      Interconnect.sEn map.outer r map.k = true)
  mapped : map.outer.registered map.k = true → (s.outer.ic.slot map.k).state = .request →
    ∃ j, (map.inner.adrmask j).selects (s.outer.ic.slot map.k).adrR = true

variable {map} {s : NestedBench n m xlen} {c : NestedCycle n m xlen}

/-- A port that carries a request carries the master's or the one in the stage. -/
theorem port_cases (hen : (s.outer.ic.toSlave map.outer c.request map.k).en = true) :
    (map.outer.registered map.k = true ∧ (s.outer.ic.slot map.k).state = .request ∧
      s.outer.ic.toSlave map.outer c.request map.k = (s.outer.ic.slot map.k).toSlave) ∨
    (map.outer.registered map.k = false ∧
      Interconnect.sEn map.outer c.request map.k = true ∧
      s.outer.ic.selectionStall map.outer c.request = false ∧
      s.outer.ic.toSlave map.outer c.request map.k = c.request) := by
  cases hreg : map.outer.registered map.k with
  | true =>
    have hport : s.outer.ic.toSlave map.outer c.request map.k =
        (s.outer.ic.slot map.k).toSlave := by
      simp [Interconnect.toSlave, hreg]
    rw [hport] at hen
    exact .inl ⟨rfl, by simpa [RegisteredSlot.toSlave] using hen, hport⟩
  | false =>
    have hboth : Interconnect.sEn map.outer c.request map.k = true ∧
        s.outer.ic.selectionStall map.outer c.request = false := by
      simpa [Interconnect.toSlave, hreg] using hen
    exact .inr ⟨rfl, hboth.1, hboth.2, Interconnect.toSlave_direct hreg hboth.1 hboth.2⟩

/-- The slot keeps to the master's side of the bus protocol. -/
theorem Link.allows (h : Link map s) (hm : s.outer.master.Allows c.request) :
    s.inner.master.Allows (s.innerCycle map c).request := by
  cases hi : s.inner.master with
  | idle => trivial
  | waiting =>
    have howes : s.outer.owes map.k = true := by simp [h.waits, hi]
    change (s.outer.ic.toSlave map.outer c.request map.k).en = false
    cases h.outer with
    | idle _ _ _ owes | held _ _ _ _ _ _ _ _ owes =>
      rw [owes] at howes
      cases howes
    | direct i comb master busy target slots owes =>
      have hen : c.request.en = false := by simpa [MasterPhase.Allows, master] using hm
      exact Interconnect.toSlave_en_off (slots _) (by simp [Interconnect.sEn, hen])
    | staged i reg master busy target slots stage =>
      cases stage with
      | request _ owes | response _ owes =>
        rw [owes] at howes
        cases howes
      | waitResponse state owes =>
        have hk : map.k = i := by simpa [owes, single] using howes
        simp [Interconnect.toSlave, hk, reg, RegisteredSlot.toSlave, state]
  | holding r =>
    change s.outer.ic.toSlave map.outer c.request map.k = r
    rcases h.holds r hi with ⟨hreg, -, hr⟩ | ⟨hcomb, hmaster, hsel⟩
    · simp [Interconnect.toSlave, hreg, hr]
    · have hreq : c.request = r := by simpa [MasterPhase.Allows, hmaster] using hm
      subst hreq
      refine Interconnect.toSlave_direct hcomb hsel ?_
      cases h.outer with
      | held i r' _ _ master _ target =>
        have : Interconnect.sEn map.outer c.request = s.outer.ic.sEnR := by
          rw [hmaster] at master
          cases master
          rw [target]
          assumption
        simp [Interconnect.selectionStall, this]
      | idle master | direct _ _ master | staged _ _ master =>
        rw [hmaster] at master
        cases master

theorem Link.innerLegal (h : Link map s) (hl : s.Legal map c) :
    s.inner.Legal map.inner (s.innerCycle map c) :=
  ⟨h.allows hl.1, hl.2.2⟩

/-- What reaches the nested interconnect is mapped there. -/
theorem Link.port_mapped (h : Link map s) (he : s.ErrorFree map c)
    (hen : (s.innerCycle map c).request.en = true) :
    ∃ j, Interconnect.sEn map.inner (s.innerCycle map c).request j = true := by
  have hport : (s.innerCycle map c).request = s.outer.ic.toSlave map.outer c.request map.k := rfl
  rw [hport] at hen ⊢
  rcases port_cases hen with ⟨hreg, hstate, heq⟩ | ⟨-, hsel, -, heq⟩
  · obtain ⟨j, hj⟩ := h.mapped hreg hstate
    exact ⟨j, by simp [heq, Interconnect.sEn, RegisteredSlot.toSlave, hj, hstate]⟩
  · rw [heq]
    exact he.2.2 hsel

theorem Link.outerLegal (h : Link map s) (hl : s.Legal map c) (he : s.ErrorFree map c) :
    s.outer.Legal map.outer (s.outerCycle map c) ∧
      s.outer.ErrorFree (s.outerCycle map c) := by
  obtain ⟨hallow, herr⟩ := h.inner.answer (h.innerLegal hl) he.2.1
  constructor
  · refine ⟨hl.1, fun j => ?_⟩
    by_cases hj : j = map.k
    · subst j
      simp only [outerCycle, if_true, h.waits]
      exact hallow
    · simp only [outerCycle, hj, if_false]
      exact hl.2.1 j hj
  · intro j
    by_cases hj : j = map.k
    · subst j
      simp only [outerCycle, if_true]
      exact herr (h.port_mapped he)
    · simp only [outerCycle, hj, if_false]
      exact he.1 j hj

theorem MasterPhase.next_holding {p : MasterPhase xlen} {m r : DbusRequest xlen}
    {a : DbusResponse xlen} (h : p.next m a = .holding r) :
    r = m ∧ m.en = true ∧ a.answers = false ∧ a.stall = true ∧ p ≠ .waiting := by
  cases p <;> cases hen : m.en <;> cases ha : a.answers <;> cases hs : a.stall <;>
    simp_all [MasterPhase.next]

/-- A slot that cannot accept the nested interconnect's stall yet keeps its request. -/
theorem holds_step (hm : s.outer.master.Allows c.request) {r : DbusRequest xlen}
    (hr : (s.step map c).inner.master = .holding r) :
    (map.outer.registered map.k = true ∧
      ((s.step map c).outer.ic.slot map.k).state = .request ∧
      ((s.step map c).outer.ic.slot map.k).toSlave = r) ∨
    (map.outer.registered map.k = false ∧ (s.step map c).outer.master = .holding r ∧
      Interconnect.sEn map.outer r map.k = true) := by
  obtain ⟨rfl, hen, hans, hstall, -⟩ := MasterPhase.next_holding hr
  have hnone : (s.inner.response map.inner (s.innerCycle map c)).ack = false ∧
      (s.inner.response map.inner (s.innerCycle map c)).error = false := by
    simpa [DbusResponse.answers] using hans
  change (s.outer.ic.toSlave map.outer c.request map.k).en = true at hen
  have hport : (s.innerCycle map c).request =
    s.outer.ic.toSlave map.outer c.request map.k := rfl
  rw [hport]
  change (s.inner.response map.inner (s.innerCycle map c)).stall = true at hstall
  rcases port_cases hen with ⟨hreg, hstate, heq⟩ | ⟨hcomb, hsel, hsst, heq⟩
  · have hkeep : (s.step map c).outer.ic.slot map.k = s.outer.ic.slot map.k := by
      simp [step, InterconnectBench.step, Interconnect.step, hreg, RegisteredSlot.next, hstate,
        outerCycle, hnone, hstall]
    exact .inl ⟨hreg, by rw [hkeep, hstate], by rw [hkeep, heq]⟩
  · refine .inr ⟨hcomb, ?_, by rw [heq]; exact hsel⟩
    have hreq : c.request.en = true := (Bool.and_eq_true_iff.mp hsel).2
    have hmux : s.outer.ic.muxSel map.outer c.request = single map.k := by
      funext j
      have hone := Interconnect.sEn_eq_single hsel
      cases hb : s.outer.ic.busy with
      | false => simp [Interconnect.muxSel, hb, hone]
      | true =>
        have : Interconnect.sEn map.outer c.request = s.outer.ic.sEnR := by
          simpa [Interconnect.selectionStall, hb, hreq] using hsst
        simp [Interconnect.muxSel, hb, ← this, hone]
    have hresp : s.outer.response map.outer (s.outerCycle map c) =
        s.inner.response map.inner (s.innerCycle map c) := by
      have hcon := Interconnect.toMaster_single (r := (s.outerCycle map c).response) hmux
      refine hcon.trans ?_
      simp [outerCycle, Interconnect.muxSlave, hcomb, hsst]
    have hwait : s.outer.master ≠ .waiting := by
      intro hw
      simp [hw, MasterPhase.Allows, hreq] at hm
    rw [heq]
    simp only [step, InterconnectBench.step, hresp]
    cases hm : s.outer.master with
    | waiting => exact absurd hm hwait
    | idle | holding => simp [MasterPhase.next, outerCycle, hreq, hans, hstall]

theorem Link.step (h : Link map s) (hl : s.Legal map c) (he : s.ErrorFree map c) :
    Link map (s.step map c) := by
  obtain ⟨hol, hoe⟩ := h.outerLegal hl he
  refine ⟨h.outer.step hol hoe, h.inner.step (h.innerLegal hl) he.2.1, ?_,
    fun r hr => holds_step hl.1 hr, ?_⟩
  · have hnext := MasterPhase.next_waiting_iff (h.allows hl.1)
      (s.inner.response map.inner (s.innerCycle map c))
    rw [← h.waits] at hnext
    have howes : (s.step map c).outer.owes map.k =
        nextOwes (s.outer.owes map.k) (s.innerCycle map c).request
          (s.inner.response map.inner (s.innerCycle map c)) := by
      simp [NestedBench.step, InterconnectBench.step, outerCycle, innerCycle]
    rw [howes, Bool.eq_iff_iff, decide_eq_true_iff]
    exact hnext.symm
  · intro hreg hstate
    have hslot : (s.step map c).outer.ic.slot map.k =
        (s.outer.ic.slot map.k).next (Interconnect.sEn map.outer c.request map.k &&
          !s.outer.ic.selectionStall map.outer c.request) c.request
          ((s.outerCycle map c).response map.k) := by
      simp [NestedBench.step, InterconnectBench.step, Interconnect.step, hreg, outerCycle]
    rw [hslot] at hstate ⊢
    generalize (s.outerCycle map c).response map.k = r at hstate ⊢
    cases hs : (s.outer.ic.slot map.k).state with
    | idle =>
      cases htake : (Interconnect.sEn map.outer c.request map.k &&
          !s.outer.ic.selectionStall map.outer c.request) with
      | false => simp [RegisteredSlot.next, hs, htake] at hstate
      | true =>
        obtain ⟨hsel, -⟩ := Bool.and_eq_true_iff.mp htake
        obtain ⟨j, hj⟩ := he.2.2 hsel
        exact ⟨j, by simpa [RegisteredSlot.next, hs] using (Bool.and_eq_true_iff.mp hj).1⟩
    | request =>
      obtain ⟨j, hj⟩ := h.mapped hreg hs
      refine ⟨j, ?_⟩
      simp only [RegisteredSlot.next, hs]
      split_ifs <;> exact hj
    | waitResponse =>
      simp only [RegisteredSlot.next, hs] at hstate
      split_ifs at hstate
      rw [hs] at hstate
      cases hstate
    | response => simp [RegisteredSlot.next, hs] at hstate

theorem Link.init (map : NestedMap n m xlen) : Link map {} where
  outer := InterconnectBench.Phase.init map.outer
  inner := InterconnectBench.Phase.init map.inner
  waits := rfl
  holds := by
    intro r hr
    cases hr
  mapped := by
    intro _ hstate
    cases hstate

/-- Nothing is on its way inside once the master has its answer. -/
theorem Link.inner_ready (h : Link map s) (hm : s.outer.master = .idle)  :
    InterconnectBench.Ready map.inner s.inner.ic := by
  have hidle : s.inner.master = .idle := by
    cases h.outer with
    | idle _ _ slots owes =>
      cases hi : s.inner.master with
      | idle => rfl
      | waiting =>
        have hw := h.waits
        simp [owes, hi] at hw
      | holding r =>
        rcases h.holds r hi with ⟨-, hstate, -⟩ | ⟨-, hmaster, -⟩
        · rw [slots] at hstate
          cases hstate
        · rw [hm] at hmaster
          cases hmaster
    | held _ _ _ _ master | direct _ _ master | staged _ _ master =>
      rw [hm] at master
      cases master
  exact h.inner.ready hidle

theorem Link.answers (h : Link map s) (hl : s.Legal map c) (he : s.ErrorFree map c) :
    s.Answers map c := by
  obtain ⟨hol, hoe⟩ := h.outerLegal hl he
  refine ⟨h.outer.answers hol hoe, h.inner.answers (h.innerLegal hl) he.2.1, fun ha => ?_⟩
  exact (h.step hl he).inner_ready (MasterPhase.next_of_answers ha)

theorem Accounted.step (hc : s.Accounted) (h : Link map s) (hl : s.Legal map c)
    (he : s.ErrorFree map c) : (s.step map c).Accounted := by
  obtain ⟨hol, hoe⟩ := h.outerLegal hl he
  exact ⟨hc.1.step h.outer hol hoe, hc.2.step h.inner (h.innerLegal hl) he.2.1⟩

end NestedBench

def nested (map : NestedMap n m xlen) :
    Clocked (NestedBench n m xlen) (NestedCycle n m xlen) where
  init := {}
  step := NestedBench.step map

/-- `Serves` for both levels. -/
def NestedServes (map : NestedMap n m xlen) (cs : List (NestedCycle n m xlen)) : Prop :=
  (nested map).Along (NestedBench.Answers map) (nested map).init cs ∧
    ((nested map).run cs).Accounted

/-- **Responses leave the interconnect ready**, alone and nested, in every run without slave
errors and without requests that only the nested interconnect fails to decode. -/
theorem interconnect_ready_after_response (n m xlen : ℕ) :
    (∀ (map : AddressMap n xlen) (cs : List (DbusCycle n xlen)),
      (interconnect map).Along (InterconnectBench.Legal map) (interconnect map).init cs →
      (interconnect map).Along InterconnectBench.ErrorFree (interconnect map).init cs →
      Serves map cs) ∧
    (∀ (map : NestedMap n m xlen) (cs : List (NestedCycle n m xlen)),
      (nested map).Along (NestedBench.Legal map) (nested map).init cs →
      (nested map).Along (NestedBench.ErrorFree map) (nested map).init cs →
      NestedServes map cs) := by
  refine ⟨fun map cs hl he => errorFree_serves hl he, fun map cs hl he => ?_⟩
  have hboth := hl.and he
  refine ⟨hboth.mono (NestedBench.Link map) (fun s c h hok => h.step hok.1 hok.2)
    (fun s c h hok => h.answers hok.1 hok.2) (NestedBench.Link.init map), ?_⟩
  exact (hboth.invariant (fun s => NestedBench.Link map s ∧ s.Accounted)
    (fun s c h hok => ⟨h.1.step hok.1 hok.2, h.2.step h.1 hok.1 hok.2⟩)
    ⟨NestedBench.Link.init map, ⟨rfl, Nat.zero_le 2⟩, rfl, Nat.zero_le 2⟩).2

/-- The address map of the extended core with a register stage on the data bus port. -/
def soc : AddressMap 3 32 where
  adrmask := ![⟨32, 28, 0xc⟩, ⟨32, 28, 0x8⟩, ⟨32, 28, 0x4⟩]
  registered := ![false, true, false]
  valid := by decide
  disjoint := by decide

/-- The native I/O bus behind slot 1: LED and UART. -/
def socNested : NestedMap 3 2 32 where
  outer := soc
  inner :=
    { adrmask := ![⟨32, 16, 0x8000⟩, ⟨32, 16, 0x8001⟩]
      registered := ![false, false]
      valid := by decide
      disjoint := by decide }
  k := 1

def readAt (adr : BitVec 32) : DbusRequest 32 := { en := true, adr }

/-- An unmapped read, a stalled one of the block RAM, and one through the register stage. -/
def errorFreeRun : List (DbusCycle 3 32) :=
  [{ request := readAt 0 },
    { request := readAt 0xc0000000, response := ![{ stall := true }, {}, {}] },
    { request := readAt 0xc0000000, response := ![{ ack := true }, {}, {}] },
    { request := readAt 0x80000000 },
    { response := ![{}, { ack := true, dbRd := 5 }, {}] }, {}]

def errorFreeNested : List (NestedCycle 3 2 32) :=
  [{ request := readAt 0x80010000 }, { inner := ![{}, { ack := true, dbRd := 7 }] }, {},
    { request := readAt 0x40000000, response := ![{}, {}, { ack := true }] }]

theorem interconnect_ready_after_response_soc :
    Serves soc errorFreeRun ∧ NestedServes socNested errorFreeNested :=
  ⟨(interconnect_ready_after_response 3 2 32).1 soc errorFreeRun (by decide) (by decide),
    (interconnect_ready_after_response 3 2 32).2 socNested errorFreeNested (by decide) (by decide)⟩

/-- The block RAM slot answers with an error; then the Wishbone slot is addressed. -/
def errorRun : List (DbusCycle 3 32) :=
  [{ request := readAt 0xc0000000, response := ![{ error := true }, {}, {}] },
    { request := readAt 0x40000000 }]

/-- A read that maps to the native I/O bus and misses both of its slaves. -/
def nestedMiss : List (NestedCycle 3 2 32) :=
  [{ request := readAt 0x80020000 }, {}, {}, { request := readAt 0x40000000 }]

/-- `busy` outlives an error, of a slave as well as of a nested decode. -/
theorem error_leaves_busy :
    ((interconnect soc).Along (InterconnectBench.Legal soc) (interconnect soc).init errorRun ∧
      ¬ Serves soc errorRun) ∧
    ((nested socNested).Along (NestedBench.Legal socNested) (nested socNested).init nestedMiss ∧
      ¬ NestedServes socNested nestedMiss) := by
  refine ⟨⟨by decide, fun h => ?_⟩, ⟨by decide, fun h => ?_⟩⟩
  · have hready := (h.1.1 (by decide)).2.2
    have hheld : (((interconnect soc).run (errorRun.take 1)).ic.selectionStall soc
        (readAt 0x40000000)) = true := by decide
    cases (hready (readAt 0x40000000)).1.symm.trans hheld
  · have hready := (h.1.2.2.1.1 (by decide)).2.2
    have hheld : (((nested socNested).run (nestedMiss.take 3)).outer.ic.selectionStall soc
        (readAt 0x40000000)) = true := by decide
    cases (hready (readAt 0x40000000)).1.symm.trans hheld

end BonfireCore
