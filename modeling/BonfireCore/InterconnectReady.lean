import BonfireCore.Interconnect
import Mathlib.Data.Nat.Bitwise
import Mathlib.Tactic.SplitIfs

/-! Every acknowledge leaves the interconnect ready. A slave error does not: `busy` is
cleared by `ack` alone, and the next request to another slot is held for ever. -/
namespace BonfireCore

namespace AdrMask
variable {xlen : ℕ}

theorem testBit_baseAddress {a : AdrMask} (ha : a.Valid xlen) {adr : BitVec xlen}
    (h : a.selects adr) (j : ℕ) :
    a.baseAddress.testBit j = (decide (a.lower ≤ j ∧ j < a.upper) && adr.getLsbD j) := by
  have hmask : a.mask = (adr.extractLsb' a.lower (a.upper - a.lower)).toNat := by
    simpa [selects] using (beq_iff_eq.mp h).symm
  have hlt := ha.lower_lt
  rw [baseAddress, Nat.testBit_shiftLeft, hmask, BitVec.testBit_toNat, BitVec.getLsbD_extractLsb']
  by_cases hlo : a.lower ≤ j
  · by_cases hup : j < a.upper
    · have h1 : j - a.lower < a.upper - a.lower := by omega
      have h2 : a.lower + (j - a.lower) = j := by omega
      simp [hlo, hup, h1, h2]
    · have h1 : ¬ j - a.lower < a.upper - a.lower := by omega
      simp [hlo, hup, h1]
  · simp [hlo]

theorem testBit_addressMask {a : AdrMask} (ha : a.Valid xlen) (j : ℕ) :
    (a.addressMask xlen).testBit j = decide (a.lower ≤ j ∧ j < a.upper) := by
  have hlt := ha.lower_lt
  have hle := ha.upper_le
  have hones (n i : ℕ) : (1 <<< n - 1).testBit i = decide (i < n) := by
    rw [Nat.one_shiftLeft, Nat.testBit_two_pow_sub_one]
  rw [addressMask, Nat.testBit_and, Nat.testBit_shiftLeft, hones, hones]
  by_cases hlo : a.lower ≤ j
  · by_cases hup : j < a.upper
    · have h1 : j - a.lower < a.upper - a.lower := by omega
      have h2 : j < xlen := by omega
      simp [hlo, hup, h1, h2]
    · have h1 : ¬ j - a.lower < a.upper - a.lower := by omega
      simp [hlo, hup, h1]
  · simp [hlo]

/-- Two masks that select one address overlap in the sense of the source. -/
theorem overlap_of_selects {a b : AdrMask} (ha : a.Valid xlen) (hb : b.Valid xlen)
    {adr : BitVec xlen} (hsa : a.selects adr) (hsb : b.selects adr) :
    a.overlap xlen b = true := by
  have hones (n i : ℕ) : (1 <<< n - 1).testBit i = decide (i < n) := by
    rw [Nat.one_shiftLeft, Nat.testBit_two_pow_sub_one]
  unfold overlap
  apply beq_iff_eq.mpr
  apply Nat.eq_of_testBit_eq
  intro k
  simp only [Nat.testBit_and, Nat.testBit_shiftRight, hones, testBit_baseAddress ha hsa,
    testBit_baseAddress hb hsb, testBit_addressMask ha, testBit_addressMask hb]
  generalize min a.lower b.lower + k = j
  cases decide (a.lower ≤ j ∧ j < a.upper) <;> cases decide (b.lower ≤ j ∧ j < b.upper) <;>
    simp

end AdrMask

variable {n xlen : ℕ}

/-- The one-hot slot vector. -/
def single (i : Fin n) : Fin n → Bool := fun j => decide (j = i)

theorem single_injective {i j : Fin n} (h : single i = single j) : i = j := by
  simpa [single] using congrFun h i

namespace Interconnect
variable {map : AddressMap n xlen}

theorem sEn_eq_single {m : DbusRequest xlen} {i : Fin n} (h : sEn map m i = true) :
    sEn map m = single i := by
  obtain ⟨hi, hen⟩ := Bool.and_eq_true_iff.mp h
  funext j
  by_cases hj : j = i
  · subst j
    simp [single, h]
  · have hnot : (map.adrmask j).selects m.adr = false := by
      cases hs : (map.adrmask j).selects m.adr with
      | false => rfl
      | true =>
        have hov := AdrMask.overlap_of_selects (map.valid j) (map.valid i) hs hi
        rw [map.disjoint j i hj] at hov
        cases hov
    simp [single, sEn, hnot, hj]

theorem sEn_cases (map : AddressMap n xlen) (m : DbusRequest xlen) :
    (∃ i, sEn map m = single i) ∨ sEn map m = fun _ => false := by
  by_cases h : ∃ i, sEn map m i = true
  · obtain ⟨i, hi⟩ := h
    exact .inl ⟨i, sEn_eq_single hi⟩
  · refine .inr (funext fun i => ?_)
    by_contra hi
    exact h ⟨i, by simpa using hi⟩

theorem sEn_idle {m : DbusRequest xlen} (h : m.en = false) : sEn map m = fun _ => false := by
  funext i
  simp [sEn, h]

theorem foldl_muxStep_none {sel : Fin n → Bool} {mux : Fin n → DbusResponse xlen}
    {l : List (Fin n)} (acc : Bool × DbusResponse xlen) (h : ∀ i ∈ l, sel i = false) :
    l.foldl (muxStep sel mux) acc = acc := by
  induction l generalizing acc with
  | nil => rfl
  | cons i l ih =>
    have hi : muxStep sel mux acc i = acc := by simp [muxStep, h i]
    rw [List.foldl_cons, hi]
    exact ih acc fun j hj => h j (List.mem_cons_of_mem i hj)

theorem foldl_muxStep_single (i : Fin n) (mux : Fin n → DbusResponse xlen)
    (acc : Bool × DbusResponse xlen) :
    (List.finRange n).foldl (muxStep (single i) mux) acc =
      (true, { mux i with stall := acc.2.stall || (mux i).stall }) := by
  obtain ⟨front, back, hsplit⟩ := List.append_of_mem (List.mem_finRange i)
  have hnodup := List.nodup_finRange n
  rw [hsplit] at hnodup ⊢
  have hfront : ∀ j ∈ front, single i j = false := by
    intro j hj
    have : j ≠ i := by
      rintro rfl
      exact (List.nodup_append.mp hnodup).2.2 j hj j (List.mem_cons_self ..) rfl
    simp [single, this]
  have hback : ∀ j ∈ back, single i j = false := by
    intro j hj
    have : j ≠ i := by
      rintro rfl
      exact (List.nodup_cons.mp (List.nodup_append.mp hnodup).2.1).1 hj
    simp [single, this]
  rw [List.foldl_append, foldl_muxStep_none acc hfront, List.foldl_cons]
  have hi : muxStep (single i) mux acc i =
      (true, { mux i with stall := acc.2.stall || (mux i).stall }) := by
    simp [muxStep, single]
  rw [hi, foldl_muxStep_none _ hback]

/-- With one slot selected the master is connected to it. -/
theorem toMaster_single {s : Interconnect n xlen} {m : DbusRequest xlen}
    {r : Fin n → DbusResponse xlen} {i : Fin n} (h : s.muxSel map m = single i) :
    s.toMaster map m r = { s.muxSlave map r i with
      stall := s.selectionStall map m || (s.muxSlave map r i).stall } := by
  simp only [toMaster, h, foldl_muxStep_single, Bool.not_true, Bool.false_eq_true, if_false]

/-- With none selected a request is an error. -/
theorem toMaster_none {s : Interconnect n xlen} {m : DbusRequest xlen}
    {r : Fin n → DbusResponse xlen} (h : s.muxSel map m = fun _ => false) :
    s.toMaster map m r = { error := m.en, stall := s.selectionStall map m } := by
  rw [toMaster, h, foldl_muxStep_none _ fun _ _ => rfl]
  rfl

end Interconnect

/-- One cycle of the bus around an interconnect. -/
structure DbusCycle (n xlen : ℕ) where
  request : DbusRequest xlen := {}
  response : Fin n → DbusResponse xlen := fun _ => {}

/-- An interconnect with its master and slaves watched: the master's phase, the answers the
slaves owe, the requests and responses so far, and for how many cycles the open request has
waited without its slave withholding an answer. -/
structure InterconnectBench (n xlen : ℕ) where
  ic : Interconnect n xlen := {}
  master : MasterPhase xlen := .idle
  owes : Fin n → Bool := fun _ => false
  requests : ℕ := 0
  responses : ℕ := 0
  age : ℕ := 0

namespace InterconnectBench
variable (map : AddressMap n xlen)

def response (s : InterconnectBench n xlen) (c : DbusCycle n xlen) : DbusResponse xlen :=
  s.ic.toMaster map c.request c.response

/-- A slave that has the request, or still owes its answer, does not answer now. -/
def Withheld (s : InterconnectBench n xlen) (c : DbusCycle n xlen) : Prop :=
  ∃ j, ((s.ic.toSlave map c.request j).en ∨ s.owes j) ∧ (c.response j).answers = false

instance (s : InterconnectBench n xlen) (c : DbusCycle n xlen) : Decidable (s.Withheld map c) :=
  inferInstanceAs (Decidable (∃ _, _))

def step (s : InterconnectBench n xlen) (c : DbusCycle n xlen) : InterconnectBench n xlen :=
  let r := s.response map c
  { ic := s.ic.step map c.request c.response
    master := s.master.next c.request r
    owes := fun j => nextOwes (s.owes j) (s.ic.toSlave map c.request j) (c.response j)
    requests := if s.master = .idle ∧ c.request.en then s.requests + 1 else s.requests
    responses := if r.answers then s.responses + 1 else s.responses
    age :=
      if r.answers then 0
      else if s.master.isOpen c.request ∧ ¬ s.Withheld map c then s.age + 1
      else s.age }

/-- The master holds its request, and each slave answers each accepted request once. -/
def Legal (s : InterconnectBench n xlen) (c : DbusCycle n xlen) : Prop :=
  s.master.Allows c.request ∧
    ∀ j, SlaveAllows (s.owes j) (s.ic.toSlave map c.request j) (c.response j)

instance (s : InterconnectBench n xlen) (c : DbusCycle n xlen) : Decidable (s.Legal map c) :=
  inferInstanceAs (Decidable (_ ∧ _))

/-- No slave answers with an error. -/
def ErrorFree (_ : InterconnectBench n xlen) (c : DbusCycle n xlen) : Prop :=
  ∀ j, (c.response j).error = false

instance (s : InterconnectBench n xlen) (c : DbusCycle n xlen) : Decidable (s.ErrorFree c) :=
  inferInstanceAs (Decidable (∀ _, _))

/-- A request arrives at slot `j`: in the same cycle, or in the next one behind a register
stage. -/
def Reaches (ic : Interconnect n xlen) (m : DbusRequest xlen) (j : Fin n) : Prop :=
  if map.registered j then
    ∀ r m', (ic.step map m r).toSlave map m' j = m
  else ic.toSlave map m j = m

/-- A new request to any slot goes through. -/
def Ready (ic : Interconnect n xlen) : Prop :=
  ∀ m : DbusRequest xlen, ic.selectionStall map m = false ∧
    ∀ j, Interconnect.sEn map m j = true → Reaches map ic m j

/-- Only an open request is answered, in one way, and the next one goes through. -/
def Answers (s : InterconnectBench n xlen) (c : DbusCycle n xlen) : Prop :=
  let r := s.response map c
  r.answers → s.master.isOpen c.request ∧ ¬ (r.ack ∧ r.error) ∧ Ready map (s.step map c).ic

/-- Every request so far has one response, but for one that is open; that one has waited at
most two cycles for anything but its slave. -/
def Accounted (s : InterconnectBench n xlen) : Prop :=
  s.requests = s.responses + (if s.master = .idle then 0 else 1) ∧ s.age ≤ 2

end InterconnectBench

def interconnect (map : AddressMap n xlen) :
    Clocked (InterconnectBench n xlen) (DbusCycle n xlen) where
  init := {}
  step := InterconnectBench.step map

theorem SlaveAllows.silent {m : DbusRequest xlen} {r : DbusResponse xlen}
    (h : SlaveAllows false m r) (hm : m.en = false) : r.answers = false := by
  cases hr : r.answers with
  | false => rfl
  | true =>
    rcases h.1 hr with hen | howes
    · rw [hm] at hen
      cases hen
    · cases howes

theorem SlaveAllows.nextOwes_silent {m : DbusRequest xlen} {r : DbusResponse xlen}
    (h : SlaveAllows false m r) (hm : m.en = false) : nextOwes false m r = false := by
  simp [nextOwes, h.silent hm, hm]

theorem MasterPhase.next_of_answers {p : MasterPhase xlen} {m : DbusRequest xlen}
    {r : DbusResponse xlen} (h : r.answers = true) : p.next m r = .idle := by
  cases p <;> simp [next, h]

theorem RegisteredSlot.next_idle {s : RegisteredSlot xlen} (h : s.state = .idle)
    (m : DbusRequest xlen) (r : DbusResponse xlen) : (s.next false m r).state = .idle := by
  simp [next, h]

namespace Interconnect
variable {map : AddressMap n xlen} {s : Interconnect n xlen} {m : DbusRequest xlen}

def SlotsIdle (s : Interconnect n xlen) : Prop := ∀ j, (s.slot j).state = .idle

/-- No port carries a request while the stages are idle and the master is off the bus. -/
theorem toSlave_en_off {j : Fin n} (hj : (s.slot j).state = .idle)
    (hm : sEn map m j = false) : (s.toSlave map m j).en = false := by
  unfold toSlave
  split_ifs <;> simp [RegisteredSlot.toSlave, hj, hm]

theorem slot_step_off {j : Fin n} (hj : (s.slot j).state = .idle) (hm : sEn map m j = false)
    (r : Fin n → DbusResponse xlen) : ((s.step map m r).slot j).state = .idle := by
  by_cases hreg : map.registered j
  · simp only [step, hreg, if_true, hm, Bool.false_and]
    exact RegisteredSlot.next_idle hj _ _
  · simp [step, hreg, hj]

theorem toSlave_direct {i : Fin n} (hreg : map.registered i = false)
    (hm : sEn map m i = true) (hstall : s.selectionStall map m = false) :
    s.toSlave map m i = m := by
  have hen : m.en = true := (Bool.and_eq_true_iff.mp hm).2
  cases m
  simp_all [toSlave]

theorem slot_step_direct {i : Fin n} (hreg : map.registered i = false)
    (r : Fin n → DbusResponse xlen) : (s.step map m r).slot i = s.slot i := by
  simp [step, hreg]

theorem step_busy_of_busy (map : AddressMap n xlen) (m : DbusRequest xlen) (h : s.busy = true) (r : Fin n → DbusResponse xlen) :
    (s.step map m r).busy = !(s.toMaster map m r).ack ∧ (s.step map m r).sEnR = s.sEnR := by
  simp [step, h]

theorem step_busy_of_free {i : Fin n} (h : s.busy = false) (hm : sEn map m = single i)
    (r : Fin n → DbusResponse xlen) :
    (s.step map m r).busy = !(s.toMaster map m r).ack ∧ (s.step map m r).sEnR = single i := by
  have hex : ∃ j, single i j = true := ⟨i, by simp [single]⟩
  simp [step, h, hex, hm]

theorem step_busy_of_none (h : s.busy = false) (hm : sEn map m = fun _ => false)
    (r : Fin n → DbusResponse xlen) : (s.step map m r).busy = false := by
  simp [step, h, hm]

/-- A free interconnect with idle stages takes any request. -/
theorem ready (hbusy : s.busy = false) (hslots : s.SlotsIdle) :
    InterconnectBench.Ready map s := by
  intro m
  have hstall : s.selectionStall map m = false := by simp [selectionStall, hbusy]
  refine ⟨hstall, fun j hj => ?_⟩
  unfold InterconnectBench.Reaches
  split_ifs with hreg
  · intro r m'
    have hen : m.en = true := (Bool.and_eq_true_iff.mp hj).2
    cases m
    simp_all [toSlave, step, RegisteredSlot.next, RegisteredSlot.toSlave, hslots j]
  · exact toSlave_direct (by simpa using hreg) hj hstall

end Interconnect

namespace InterconnectBench
variable {map : AddressMap n xlen}

/-- How far the register stage of slot `i` is with the open request. -/
inductive Staged (s : InterconnectBench n xlen) (i : Fin n) : Prop
  | request (state : (s.ic.slot i).state = .request) (owes : ∀ j, s.owes j = false)
    (age : s.age ≤ 1)
  | waitResponse (state : (s.ic.slot i).state = .waitResponse) (owes : s.owes = single i)
    (age : s.age ≤ 1)
  | response (state : (s.ic.slot i).state = .response) (owes : ∀ j, s.owes j = false)
    (ack : (s.ic.slot i).ackR = true) (error : (s.ic.slot i).errorR = false) (age : s.age ≤ 2)

/-- The interconnect, its master and its slaves between two cycles of an error-free run. -/
inductive Phase (map : AddressMap n xlen) (s : InterconnectBench n xlen) : Prop
  | idle (master : s.master = .idle) (busy : s.ic.busy = false) (slots : s.ic.SlotsIdle)
    (owes : ∀ j, s.owes j = false) (age : s.age = 0)
  | held (i : Fin n) (m : DbusRequest xlen) (comb : map.registered i = false)
    (sel : Interconnect.sEn map m = single i) (master : s.master = .holding m)
    (busy : s.ic.busy = true) (target : s.ic.sEnR = single i) (slots : s.ic.SlotsIdle)
    (owes : ∀ j, s.owes j = false) (age : s.age = 0)
  | direct (i : Fin n) (comb : map.registered i = false) (master : s.master = .waiting)
    (busy : s.ic.busy = true) (target : s.ic.sEnR = single i) (slots : s.ic.SlotsIdle)
    (owes : s.owes = single i) (age : s.age = 0)
  | staged (i : Fin n) (reg : map.registered i = true) (master : s.master = .waiting)
    (busy : s.ic.busy = true) (target : s.ic.sEnR = single i)
    (slots : ∀ j, j ≠ i → (s.ic.slot j).state = .idle) (stage : Staged s i)

theorem Phase.init (map : AddressMap n xlen) : Phase map (interconnect map).init :=
  .idle rfl rfl (fun _ => rfl) (fun _ => rfl) rfl

theorem Phase.ready {s : InterconnectBench n xlen} (h : Phase map s) (hm : s.master = .idle) :
    Ready map s.ic := by
  cases h with
  | idle _ busy slots => exact Interconnect.ready busy slots
  | held _ _ _ _ master | direct _ _ master | staged _ _ master =>
    rw [master] at hm
    cases hm

theorem Phase.age_le {s : InterconnectBench n xlen} (h : Phase map s) : s.age ≤ 2 := by
  cases h with
  | idle _ _ _ _ age | held _ _ _ _ _ _ _ _ _ age | direct _ _ _ _ _ _ _ age => omega
  | staged _ _ _ _ _ _ stage => cases stage <;> omega

variable {s : InterconnectBench n xlen} {c : DbusCycle n xlen}

theorem step_age_of_answers (h : (s.response map c).answers = true) :
    (s.step map c).age = 0 := by
  simp [step, h]

theorem step_age_of_withheld (h : s.Withheld map c) (hage : s.age = 0) :
    (s.step map c).age = 0 := by
  simp only [step, h, not_true, and_false, if_false, hage, ite_self]

theorem step_age_le (map : AddressMap n xlen) (s : InterconnectBench n xlen) (c : DbusCycle n xlen) :
    (s.step map c).age ≤ s.age + 1 := by
  simp only [step]
  split_ifs <;> omega

/-- A port without a request whose slave owes nothing stays quiet. -/
theorem step_owes_off (hl : s.Legal map c) {j : Fin n} (howes : s.owes j = false)
    (hen : (s.ic.toSlave map c.request j).en = false) : (s.step map c).owes j = false := by
  have h := hl.2 j
  rw [howes] at h
  simp only [step, howes]
  exact h.nextOwes_silent hen

/-- The master connected straight to slot `i`, with a new request or one it holds. -/
theorem phase_direct_request {i : Fin n} (hl : s.Legal map c) (he : s.ErrorFree c)
    (hcomb : map.registered i = false) (hsel : Interconnect.sEn map c.request = single i)
    (hstall : s.ic.selectionStall map c.request = false)
    (hmux : s.ic.muxSel map c.request = single i)
    (hbusy : (s.step map c).ic.busy = !(s.response map c).ack)
    (htarget : (s.step map c).ic.sEnR = single i) (hslots : s.ic.SlotsIdle)
    (howes : ∀ j, s.owes j = false) (hage : s.age = 0) (hmaster : s.master ≠ .waiting) :
    Phase map (s.step map c) := by
  have hi : Interconnect.sEn map c.request i = true := by simp [hsel, single]
  have hen : c.request.en = true := (Bool.and_eq_true_iff.mp hi).2
  have hoff : ∀ j, j ≠ i → Interconnect.sEn map c.request j = false := by
    intro j hj
    simp [hsel, single, hj]
  have hport : s.ic.toSlave map c.request i = c.request :=
    Interconnect.toSlave_direct hcomb hi hstall
  have hresp : s.response map c = c.response i := by
    simp [response, Interconnect.toMaster_single hmux, Interconnect.muxSlave, hcomb, hstall]
  have hslots' : (s.step map c).ic.SlotsIdle := by
    intro j
    by_cases hj : j = i
    · subst j
      exact (congrArg RegisteredSlot.state (Interconnect.slot_step_direct hcomb _)).trans (hslots i)
    · exact Interconnect.slot_step_off (hslots j) (hoff j hj) _
  have howes' : ∀ j, j ≠ i → (s.step map c).owes j = false := by
    intro j hj
    exact step_owes_off hl (howes j) (Interconnect.toSlave_en_off (hslots j) (hoff j hj))
  have howesi : (s.step map c).owes i =
      (!(c.response i).answers && !(c.response i).stall) := by
    simp [step, nextOwes, howes i, hport, hen]
  have hack : (c.response i).answers = (c.response i).ack := by
    simp [DbusResponse.answers, he i]
  cases hans : (c.response i).answers with
  | true =>
    rw [hans] at howesi hack
    rw [hresp, ← hack] at hbusy
    refine .idle (MasterPhase.next_of_answers (hresp ▸ hans)) hbusy hslots' ?_
      (step_age_of_answers (hresp ▸ hans))
    intro j
    by_cases hj : j = i
    · exact hj ▸ howesi
    · exact howes' j hj
  | false =>
    have hwithheld : s.Withheld map c := ⟨i, .inl (by rw [hport, hen]), hans⟩
    have hage' := step_age_of_withheld hwithheld hage
    have hnext : (s.step map c).master =
        if (c.response i).stall then .holding c.request else .waiting := by
      have : (s.step map c).master = s.master.next c.request (c.response i) := hresp ▸ rfl
      rw [this]
      cases hm : s.master with
      | waiting => exact absurd hm hmaster
      | idle | holding => simp [MasterPhase.next, hen, hans]
    rw [hans] at howesi hack
    rw [hresp, ← hack] at hbusy
    cases hst : (c.response i).stall with
    | true =>
      rw [hst] at hnext howesi
      refine .held i c.request hcomb hsel hnext hbusy htarget hslots' ?_ hage'
      intro j
      by_cases hj : j = i
      · exact hj ▸ howesi
      · exact howes' j hj
    | false =>
      rw [hst] at hnext howesi
      refine .direct i hcomb hnext hbusy htarget hslots' ?_ hage'
      funext j
      by_cases hj : j = i
      · simpa [single, hj] using howesi
      · simpa [single, hj] using howes' j hj

/-- The register stage of slot `i` takes a new request. -/
theorem phase_staged_request {i : Fin n} (hl : s.Legal map c) (hreg : map.registered i = true)
    (hsel : Interconnect.sEn map c.request = single i) (hmaster : s.master = .idle)
    (hfree : s.ic.busy = false) (hslots : s.ic.SlotsIdle) (howes : ∀ j, s.owes j = false)
    (hage : s.age = 0) : Phase map (s.step map c) := by
  have hi : Interconnect.sEn map c.request i = true := by simp [hsel, single]
  have hen : c.request.en = true := (Bool.and_eq_true_iff.mp hi).2
  have hoff : ∀ j, j ≠ i → Interconnect.sEn map c.request j = false := by
    intro j hj
    simp [hsel, single, hj]
  have hmux : s.ic.muxSel map c.request = single i := by
    funext j
    simp [Interconnect.muxSel, hfree, hsel]
  have hstall : s.ic.selectionStall map c.request = false := by
    simp [Interconnect.selectionStall, hfree]
  have hresp : s.response map c = { dbRd := (s.ic.slot i).dbRdR } := by
    simp [response, Interconnect.toMaster_single hmux, Interconnect.muxSlave, hreg, hstall,
      RegisteredSlot.toMaster, hslots i]
  obtain ⟨hbusy, htarget⟩ := Interconnect.step_busy_of_free hfree hsel c.response
  have hwait : (s.step map c).master = .waiting := by
    simp [step, hmaster, MasterPhase.next, hresp, hen, DbusResponse.answers]
  have hack : (s.response map c).ack = false := by simp [hresp]
  refine .staged i hreg hwait (hbusy.trans ?_) htarget ?_ (.request ?_ ?_ ?_)
  · exact congrArg not hack
  · intro j hj
    exact Interconnect.slot_step_off (hslots j) (hoff j hj) _
  · simp [step, Interconnect.step, hreg, hi, hstall, RegisteredSlot.next, hslots i]
  · intro j
    refine step_owes_off hl (howes j) ?_
    by_cases hj : j = i
    · subst j
      simp [Interconnect.toSlave, hreg, RegisteredSlot.toSlave, hslots i]
    · exact Interconnect.toSlave_en_off (hslots j) (hoff j hj)
  · have := step_age_le map s c
    omega

/-- The master waits for slot `i` and drives nothing. -/
structure Awaits (map : AddressMap n xlen) (s : InterconnectBench n xlen)
    (c : DbusCycle n xlen) (i : Fin n) : Prop where
  off : ∀ j, Interconnect.sEn map c.request j = false
  stall : s.ic.selectionStall map c.request = false
  mux : s.ic.muxSel map c.request = single i
  busy : (s.step map c).ic.busy = !(s.response map c).ack
  target : (s.step map c).ic.sEnR = single i

theorem awaits (hl : s.Legal map c) {i : Fin n} (master : s.master = .waiting)
    (busy : s.ic.busy = true) (target : s.ic.sEnR = single i) : Awaits map s c i := by
  have hen : c.request.en = false := by simpa [MasterPhase.Allows, master] using hl.1
  obtain ⟨h1, h2⟩ := Interconnect.step_busy_of_busy map c.request busy c.response
  refine ⟨fun j => by simp [Interconnect.sEn, hen], ?_, ?_, h1, h2.trans target⟩
  · simp [Interconnect.selectionStall, hen]
  · funext j
    simp [Interconnect.muxSel, busy, target]

theorem phase_direct_wait {i : Fin n} (hl : s.Legal map c) (he : s.ErrorFree c)
    (hcomb : map.registered i = false) (hmaster : s.master = .waiting)
    (hbusy : s.ic.busy = true) (htarget : s.ic.sEnR = single i) (hslots : s.ic.SlotsIdle)
    (howes : s.owes = single i) (hage : s.age = 0) : Phase map (s.step map c) := by
  obtain ⟨off, hstall, hmux, hbusy', htarget'⟩ := awaits hl hmaster hbusy htarget
  have hresp : s.response map c = c.response i := by
    simp [response, Interconnect.toMaster_single hmux, Interconnect.muxSlave, hcomb, hstall]
  have hslots' : (s.step map c).ic.SlotsIdle := fun j =>
    Interconnect.slot_step_off (hslots j) (off j) _
  have hport : ∀ j, (s.ic.toSlave map c.request j).en = false := fun j =>
    Interconnect.toSlave_en_off (hslots j) (off j)
  have howes' : ∀ j, j ≠ i → (s.step map c).owes j = false := by
    intro j hj
    exact step_owes_off hl (by simp [howes, single, hj]) (hport j)
  have howesi : (s.step map c).owes i = !(c.response i).answers := by
    simp [step, nextOwes, howes, single, hport i]
  have hack : (c.response i).answers = (c.response i).ack := by
    simp [DbusResponse.answers, he i]
  cases hans : (c.response i).answers with
  | true =>
    rw [hans] at howesi hack
    rw [hresp, ← hack] at hbusy'
    refine .idle (MasterPhase.next_of_answers (hresp ▸ hans)) hbusy' hslots' ?_
      (step_age_of_answers (hresp ▸ hans))
    intro j
    by_cases hj : j = i
    · exact hj ▸ howesi
    · exact howes' j hj
  | false =>
    have hwithheld : s.Withheld map c := ⟨i, .inr (by simp [howes, single]), hans⟩
    have hnext : (s.step map c).master = .waiting := by
      have : (s.step map c).master = s.master.next c.request (c.response i) := hresp ▸ rfl
      rw [this, hmaster]
      simp [MasterPhase.next, hans]
    rw [hans] at howesi hack
    rw [hresp, ← hack] at hbusy'
    refine .direct i hcomb hnext hbusy' htarget' hslots' ?_ (step_age_of_withheld hwithheld hage)
    funext j
    by_cases hj : j = i
    · simpa [single, hj] using howesi
    · simpa [single, hj] using howes' j hj

theorem phase_staged_wait {i : Fin n} (hl : s.Legal map c) (he : s.ErrorFree c)
    (hreg : map.registered i = true) (hmaster : s.master = .waiting)
    (hbusy : s.ic.busy = true) (htarget : s.ic.sEnR = single i)
    (hslots : ∀ j, j ≠ i → (s.ic.slot j).state = .idle) (hstage : Staged s i) :
    Phase map (s.step map c) := by
  obtain ⟨off, hstall, hmux, hbusy', htarget'⟩ := awaits hl hmaster hbusy htarget
  have hresp : s.response map c =
      { (s.ic.slot i).toMaster with stall := (s.ic.slot i).toMaster.stall } := by
    simp [response, Interconnect.toMaster_single hmux, Interconnect.muxSlave, hreg, hstall]
  have hslots' : ∀ j, j ≠ i → ((s.step map c).ic.slot j).state = .idle := fun j hj =>
    Interconnect.slot_step_off (hslots j hj) (off j) _
  have hslot : (s.step map c).ic.slot i = (s.ic.slot i).next false c.request (c.response i) := by
    simp [step, Interconnect.step, hreg, off i]
  have howes' : ∀ j, j ≠ i → s.owes j = false → (s.step map c).owes j = false := by
    intro j hj hoj
    exact step_owes_off hl hoj (Interconnect.toSlave_en_off (hslots j hj) (off j))
  have hport : s.ic.toSlave map c.request i = (s.ic.slot i).toSlave := by
    simp [Interconnect.toSlave, hreg]
  have hlegal := hl.2 i
  rw [hport] at hlegal
  have howesi : (s.step map c).owes i =
      nextOwes (s.owes i) (s.ic.slot i).toSlave (c.response i) := hport ▸ rfl
  -- while the stage has no answer the master waits on
  have hwait (hquiet : (s.ic.slot i).state ≠ .response) :
      (s.step map c).master = .waiting ∧ (s.step map c).ic.busy = true ∧
        (¬ s.Withheld map c → (s.step map c).age = s.age + 1) ∧
        (s.Withheld map c → (s.step map c).age = s.age) := by
    have hno : (s.response map c).ack = false ∧ (s.response map c).error = false := by
      simp [hresp, RegisteredSlot.toMaster, hquiet]
    have hnone : (s.response map c).answers = false := by simp [DbusResponse.answers, hno]
    refine ⟨?_, by rw [hbusy', hno.1]; rfl, fun hw => ?_, fun hw => ?_⟩
    · simp [step, hmaster, MasterPhase.next, hnone]
    · simp [step, hnone, hmaster, MasterPhase.isOpen, hw]
    · simp [step, hnone, hw]
  have hwithheld (hport : (s.ic.slot i).state = .request ∨ s.owes i = true)
      (hans : (c.response i).answers = false) : s.Withheld map c := by
    refine ⟨i, ?_, hans⟩
    rcases hport with h | h
    · exact .inl (by simp [Interconnect.toSlave, hreg, RegisteredSlot.toSlave, h])
    · exact .inr h
  -- an answer moves on to the response state with nothing owed any more
  have hanswer (hstate : (s.ic.slot i).state = .request ∨ (s.ic.slot i).state = .waitResponse)
      (hans : (c.response i).answers = true) (howes : ∀ j, j ≠ i → s.owes j = false)
      (hage : s.age ≤ 1) : Phase map (s.step map c) := by
    have hack : (c.response i).ack = true := by
      simpa [DbusResponse.answers, he i] using hans
    have hquiet : (s.ic.slot i).state ≠ .response := by
      rcases hstate with h | h <;> simp [h]
    have hnext : (s.step map c).ic.slot i =
        { s.ic.slot i with ackR := true, errorR := false, dbRdR := (c.response i).dbRd,
                           state := .response } := by
      rw [hslot]
      rcases hstate with h | h <;> simp [RegisteredSlot.next, h, hack, he i]
    obtain ⟨hm, hb, -, -⟩ := hwait hquiet
    refine .staged i hreg hm hb htarget' hslots' (.response ?_ ?_ ?_ ?_ ?_)
    · rw [hnext]
    · intro j
      by_cases hj : j = i
      · subst j
        simp [howesi, nextOwes, hans]
      · exact howes' j hj (howes j hj)
    · rw [hnext]
    · rw [hnext]
    · have := step_age_le map s c
      omega
  cases hstage with
  | request state howes hage =>
    cases hans : (c.response i).answers with
    | true => exact hanswer (.inl state) hans (fun j _ => howes j) hage
    | false =>
      obtain ⟨hm, hb, -, hkeep⟩ := hwait (by simp [state])
      have hage' := hkeep (hwithheld (.inl state) hans)
      have hnone : (c.response i).ack = false ∧ (c.response i).error = false := by
        simpa [DbusResponse.answers] using hans
      cases hst : (c.response i).stall with
      | true =>
        refine .staged i hreg hm hb htarget' hslots' (.request ?_ ?_ (by omega))
        · rw [hslot]
          simp [RegisteredSlot.next, state, hnone, hst]
        · intro j
          by_cases hj : j = i
          · subst j
            simp [howesi, nextOwes, hans, howes, hst]
          · exact howes' j hj (howes j)
      | false =>
        refine .staged i hreg hm hb htarget' hslots' (.waitResponse ?_ ?_ (by omega))
        · rw [hslot]
          simp [RegisteredSlot.next, state, hnone, hst]
        · funext j
          by_cases hj : j = i
          · subst j
            simp [howesi, nextOwes, hans, hst, RegisteredSlot.toSlave, state, single]
          · simpa [single, hj] using howes' j hj (howes j)
  | waitResponse state howes hage =>
    have hothers : ∀ j, j ≠ i → s.owes j = false := by
      intro j hj
      simp [howes, single, hj]
    cases hans : (c.response i).answers with
    | true => exact hanswer (.inr state) hans hothers hage
    | false =>
      obtain ⟨hm, hb, -, hkeep⟩ := hwait (by simp [state])
      have hage' := hkeep (hwithheld (.inr (by simp [howes, single])) hans)
      have hnone : (c.response i).ack = false ∧ (c.response i).error = false := by
        simpa [DbusResponse.answers] using hans
      refine .staged i hreg hm hb htarget' hslots' (.waitResponse ?_ ?_ (by omega))
      · rw [hslot]
        simp [RegisteredSlot.next, state, hnone]
      · funext j
        by_cases hj : j = i
        · subst j
          simp [howesi, nextOwes, hans, howes, single]
        · simpa [single, hj] using howes' j hj (hothers j hj)
  | response state howes hack herr hage =>
    have hans : (s.response map c).answers = true ∧ (s.response map c).ack = true := by
      simp [hresp, DbusResponse.answers, RegisteredSlot.toMaster, state, hack]
    have hquiet : (c.response i).answers = false := by
      rw [howes i] at hlegal
      exact hlegal.silent (by simp [RegisteredSlot.toSlave, state])
    refine .idle (MasterPhase.next_of_answers hans.1) (by rw [hbusy', hans.2]; rfl) ?_ ?_
      (step_age_of_answers hans.1)
    · intro j
      by_cases hj : j = i
      · subst j
        rw [hslot]
        simp [RegisteredSlot.next, state]
      · exact hslots' j hj
    · intro j
      by_cases hj : j = i
      · subst j
        simp [howesi, nextOwes, hquiet, howes, RegisteredSlot.toSlave, state]
      · exact howes' j hj (howes j)

theorem Phase.step (h : Phase map s) (hl : s.Legal map c) (he : s.ErrorFree c) :
    Phase map (s.step map c) := by
  cases h with
  | idle master busy slots owes age =>
    have hstall : s.ic.selectionStall map c.request = false := by
      simp [Interconnect.selectionStall, busy]
    have hmux : s.ic.muxSel map c.request = Interconnect.sEn map c.request := by
      funext j
      simp [Interconnect.muxSel, busy]
    rcases Interconnect.sEn_cases map c.request with ⟨i, hi⟩ | hnone
    · cases hreg : map.registered i with
      | true => exact phase_staged_request hl hreg hi master busy slots owes age
      | false =>
        obtain ⟨hb, ht⟩ := Interconnect.step_busy_of_free busy hi c.response
        exact phase_direct_request hl he hreg hi hstall (hmux.trans hi) hb ht slots owes age
          (by simp [master])
    · have hresp : s.response map c = { error := c.request.en } := by
        simp [response, Interconnect.toMaster_none (hmux.trans hnone), hstall]
      have hoff (j : Fin n) : Interconnect.sEn map c.request j = false := congrFun hnone j
      refine .idle ?_ (Interconnect.step_busy_of_none busy hnone _) ?_ ?_ ?_
      · cases hen : c.request.en <;>
          simp [InterconnectBench.step, master, MasterPhase.next, hresp, hen, DbusResponse.answers]
      · exact fun j => Interconnect.slot_step_off (slots j) (hoff j) _
      · exact fun j => step_owes_off hl (owes j) (Interconnect.toSlave_en_off (slots j) (hoff j))
      · cases hen : c.request.en <;>
          simp [InterconnectBench.step, master, MasterPhase.isOpen, hresp, hen,
            DbusResponse.answers, age]
  | held i m comb sel master busy target slots owes age =>
    have hm : c.request = m := by simpa [MasterPhase.Allows, master] using hl.1
    subst hm
    have hstall : s.ic.selectionStall map c.request = false := by
      simp [Interconnect.selectionStall, sel, target]
    have hmux : s.ic.muxSel map c.request = single i := by
      funext j
      simp [Interconnect.muxSel, busy, target]
    obtain ⟨hb, ht⟩ := Interconnect.step_busy_of_busy map c.request busy c.response
    exact phase_direct_request hl he comb sel hstall hmux hb (ht.trans target) slots owes age
      (by simp [master])
  | direct i comb master busy target slots owes age =>
    exact phase_direct_wait hl he comb master busy target slots owes age
  | staged i reg master busy target slots stage =>
    exact phase_staged_wait hl he reg master busy target slots stage

/-- Towards its master the interconnect is a slave that answers only an open request. -/
theorem Phase.answer (h : Phase map s) (hl : s.Legal map c) (he : s.ErrorFree c) :
    SlaveAllows (decide (s.master = .waiting)) c.request (s.response map c) ∧
      ((c.request.en → ∃ i, Interconnect.sEn map c.request i = true) →
        (s.response map c).error = false) := by
  cases h with
  | idle master busy slots owes age =>
    have hstall : s.ic.selectionStall map c.request = false := by
      simp [Interconnect.selectionStall, busy]
    have hmux : s.ic.muxSel map c.request = Interconnect.sEn map c.request := by
      funext j
      simp [Interconnect.muxSel, busy]
    rcases Interconnect.sEn_cases map c.request with ⟨i, hi⟩ | hnone
    · have hsel : Interconnect.sEn map c.request i = true := by simp [hi, single]
      have hen : c.request.en = true := (Bool.and_eq_true_iff.mp hsel).2
      have herr : (s.response map c).error = false := by
        cases hreg : map.registered i <;>
          simp [response, Interconnect.toMaster_single (hmux.trans hi), Interconnect.muxSlave,
            hreg, he i, RegisteredSlot.toMaster, slots i]
      exact ⟨⟨fun _ => .inl hen, by simp [herr]⟩, fun _ => herr⟩
    · have hresp : s.response map c = { error := c.request.en } := by
        simp [response, Interconnect.toMaster_none (hmux.trans hnone), hstall]
      rw [hresp]
      refine ⟨⟨fun ha => .inl (by simpa [DbusResponse.answers] using ha), by simp⟩, fun hsel => ?_⟩
      cases hen : c.request.en with
      | false => rfl
      | true =>
        obtain ⟨i, hi⟩ := hsel hen
        simp [hnone] at hi
  | held i m comb sel master busy target slots owes age =>
    have hm : c.request = m := by simpa [MasterPhase.Allows, master] using hl.1
    subst hm
    have hmux : s.ic.muxSel map c.request = single i := by
      funext j
      simp [Interconnect.muxSel, busy, target]
    have hen : c.request.en = true := by
      have hi : Interconnect.sEn map c.request i = true := by simp [sel, single]
      exact (Bool.and_eq_true_iff.mp hi).2
    have herr : (s.response map c).error = false := by
      simp [response, Interconnect.toMaster_single hmux, Interconnect.muxSlave, comb, he i]
    exact ⟨⟨fun _ => .inl hen, by simp [herr]⟩, fun _ => herr⟩
  | direct i comb master busy target slots owes age =>
    have hmux := (awaits hl master busy target).mux
    have herr : (s.response map c).error = false := by
      simp [response, Interconnect.toMaster_single hmux, Interconnect.muxSlave, comb, he i]
    exact ⟨⟨fun _ => .inr (by simp [master]), by simp [herr]⟩, fun _ => herr⟩
  | staged i reg master busy target slots stage =>
    have hmux := (awaits hl master busy target).mux
    have herr : (s.response map c).error = false := by
      have : (s.ic.slot i).toMaster.error = false := by
        cases stage <;> simp [RegisteredSlot.toMaster, *]
      simp [response, Interconnect.toMaster_single hmux, Interconnect.muxSlave, reg, this]
    exact ⟨⟨fun _ => .inr (by simp [master]), by simp [herr]⟩, fun _ => herr⟩

theorem Phase.answers (h : Phase map s) (hl : s.Legal map c) (he : s.ErrorFree c) :
    s.Answers map c := by
  intro ha
  obtain ⟨⟨hopen, hone⟩, -⟩ := h.answer hl he
  refine ⟨?_, hone, (h.step hl he).ready (MasterPhase.next_of_answers ha)⟩
  cases hm : s.master with
  | waiting => rfl
  | idle | holding => simpa [hm, MasterPhase.isOpen] using hopen ha

theorem Accounted.step (h : s.Accounted) (hp : Phase map s) (hl : s.Legal map c)
    (he : s.ErrorFree c) : (s.step map c).Accounted := by
  refine ⟨?_, (hp.step hl he).age_le⟩
  have hcount := h.1
  have hopen := (hp.answers hl he)
  cases ha : (s.response map c).answers with
  | true =>
    have hnext : s.master.next c.request (s.response map c) = .idle :=
      MasterPhase.next_of_answers ha
    have hopen : s.master.isOpen c.request = true := (hopen ha).1
    cases hm : s.master with
    | idle =>
      have hen : c.request.en = true := by simpa [hm, MasterPhase.isOpen] using hopen
      rw [hm] at hnext
      simp [hnext, InterconnectBench.step, ha, hm, hen] at hcount ⊢
      omega
    | holding | waiting =>
      rw [hm] at hnext
      simp [hnext, InterconnectBench.step, ha, hm] at hcount ⊢
      omega
  | false =>
    cases hm : s.master with
    | idle =>
      cases hen : c.request.en <;> cases hst : (s.response map c).stall <;>
        simp [InterconnectBench.step, MasterPhase.next, ha, hm, hen, hst] at hcount ⊢ <;> omega
    | holding m =>
      have hm' : c.request = m := by simpa [MasterPhase.Allows, hm] using hl.1
      have hen : c.request.en = true := by
        cases hp with
        | held i m' comb sel master =>
          have hi : Interconnect.sEn map m' i = true := by simp [sel, single]
          rw [master] at hm
          cases hm
          exact hm' ▸ (Bool.and_eq_true_iff.mp hi).2
        | idle master | direct _ _ master | staged _ _ master =>
          rw [master] at hm
          cases hm
      cases hst : (s.response map c).stall <;>
        simp [InterconnectBench.step, MasterPhase.next, ha, hm, hen, hst] at hcount ⊢ <;> omega
    | waiting =>
      simp [InterconnectBench.step, MasterPhase.next, ha, hm] at hcount ⊢
      omega

/-- A slave error has been passed on, and the interconnect still waits for slot `i`. -/
structure Blocked (map : AddressMap n xlen) (i : Fin n) (s : InterconnectBench n xlen) :
    Prop where
  comb : map.registered i = false
  busy : s.ic.busy = true
  target : s.ic.sEnR = single i
  slots : s.ic.SlotsIdle
  owes : ∀ j, s.owes j = false

theorem Blocked.of_error {i : Fin n} (h : Phase map s) (hm : s.master = .idle)
    (hl : s.Legal map c) (hcomb : map.registered i = false)
    (hsel : Interconnect.sEn map c.request i = true) (herr : (c.response i).error = true) :
    Blocked map i (s.step map c) := by
  cases h with
  | idle master busy slots owes =>
    have hone := Interconnect.sEn_eq_single hsel
    have hstall : s.ic.selectionStall map c.request = false := by
      simp [Interconnect.selectionStall, busy]
    have hmux : s.ic.muxSel map c.request = single i := by
      funext j
      simp [Interconnect.muxSel, busy, hone]
    have hack : (s.response map c).ack = false := by
      have : (c.response i).ack = false := by simpa [herr] using (hl.2 i).2
      simp [response, Interconnect.toMaster_single hmux, Interconnect.muxSlave, hcomb, this]
    have hoff : ∀ j, j ≠ i → Interconnect.sEn map c.request j = false := by
      intro j hj
      simp [hone, single, hj]
    obtain ⟨hb, ht⟩ := Interconnect.step_busy_of_free busy hone c.response
    refine ⟨hcomb, hb.trans (congrArg not hack), ht, fun j => ?_, fun j => ?_⟩
    · by_cases hj : j = i
      · subst j
        exact (congrArg RegisteredSlot.state (Interconnect.slot_step_direct hcomb _)).trans
          (slots i)
      · exact Interconnect.slot_step_off (slots j) (hoff j hj) _
    · by_cases hj : j = i
      · subst j
        simp [InterconnectBench.step, nextOwes, DbusResponse.answers, herr]
      · exact step_owes_off hl (owes j) (Interconnect.toSlave_en_off (slots j) (hoff j hj))
  | held _ _ _ _ master | direct _ _ master | staged _ _ master =>
    rw [hm] at master
    cases master

/-- No request for anything but slot `i` is ever answered again. -/
theorem Blocked.step {i : Fin n} (h : Blocked map i s) (hl : s.Legal map c)
    (hsel : Interconnect.sEn map c.request i = false) :
    Blocked map i (s.step map c) ∧ (s.response map c).answers = false := by
  have hmux : s.ic.muxSel map c.request = single i := by
    funext j
    simp [Interconnect.muxSel, h.busy, h.target]
  have hheld : ∀ j, (s.ic.toSlave map c.request j).en = false := by
    intro j
    cases hj : Interconnect.sEn map c.request j with
    | false => exact Interconnect.toSlave_en_off (h.slots j) hj
    | true =>
      have hen : c.request.en = true := (Bool.and_eq_true_iff.mp hj).2
      have hne : Interconnect.sEn map c.request ≠ s.ic.sEnR := by
        intro heq
        simp [heq, h.target, single] at hsel
      cases hreg : map.registered j <;>
        simp [Interconnect.toSlave, hreg, Interconnect.selectionStall, h.busy, hen, hne,
          RegisteredSlot.toSlave, h.slots j]
  have hstall (j : Fin n) : Interconnect.sEn map c.request j = true →
      s.ic.selectionStall map c.request = true := by
    intro hj
    have hen : c.request.en = true := (Bool.and_eq_true_iff.mp hj).2
    have hne : Interconnect.sEn map c.request ≠ s.ic.sEnR := by
      intro heq
      simp [heq, h.target, single] at hsel
    simp [Interconnect.selectionStall, h.busy, hen, hne]
  have hquiet : (c.response i).answers = false := by
    have hi := hl.2 i
    rw [h.owes i] at hi
    exact hi.silent (hheld i)
  have hresp : (s.response map c).answers = false := by
    have : (c.response i).ack = false ∧ (c.response i).error = false := by
      simpa [DbusResponse.answers] using hquiet
    simp [response, Interconnect.toMaster_single hmux, Interconnect.muxSlave, h.comb,
      DbusResponse.answers, this]
  have hack : (s.response map c).ack = false := by
    have : (s.response map c).ack = false ∧ (s.response map c).error = false := by
      simpa [DbusResponse.answers] using hresp
    exact this.1
  obtain ⟨hb, ht⟩ :=
    Interconnect.step_busy_of_busy map c.request h.busy c.response
  refine ⟨⟨h.comb, hb.trans (congrArg not hack), ht.trans h.target, fun j => ?_, fun j => ?_⟩,
    hresp⟩
  · cases hj : Interconnect.sEn map c.request j with
    | false => exact Interconnect.slot_step_off (h.slots j) hj _
    | true =>
      cases hreg : map.registered j with
      | false => exact (congrArg RegisteredSlot.state
          (Interconnect.slot_step_direct hreg _)).trans (h.slots j)
      | true =>
        have hslot : (s.step map c).ic.slot j =
            (s.ic.slot j).next false c.request (c.response j) := by
          simp [InterconnectBench.step, Interconnect.step, hreg, hstall j hj]
        rw [hslot]
        exact RegisteredSlot.next_idle (h.slots j) _ _
  · exact step_owes_off hl (h.owes j) (hheld j)

end InterconnectBench

/-- What an interconnect owes its master over a run: only open requests are answered, each
exactly once, and every answer leaves it ready. -/
def Serves (map : AddressMap n xlen) (cs : List (DbusCycle n xlen)) : Prop :=
  (interconnect map).Along (InterconnectBench.Answers map) (interconnect map).init cs ∧
    ((interconnect map).run cs).Accounted

theorem errorFree_serves {map : AddressMap n xlen} {cs : List (DbusCycle n xlen)}
    (hl : (interconnect map).Along (InterconnectBench.Legal map) (interconnect map).init cs)
    (he : (interconnect map).Along InterconnectBench.ErrorFree (interconnect map).init cs) :
    Serves map cs := by
  have hboth := hl.and he
  refine ⟨hboth.mono (InterconnectBench.Phase map) (fun s c h hok => h.step hok.1 hok.2)
    (fun s c h hok => h.answers hok.1 hok.2) (InterconnectBench.Phase.init map), ?_⟩
  exact (hboth.invariant (fun s => InterconnectBench.Phase map s ∧ s.Accounted)
    (fun s c h hok => ⟨h.1.step hok.1 hok.2, h.2.step h.1 hok.1 hok.2⟩)
    ⟨InterconnectBench.Phase.init map, rfl, Nat.zero_le 2⟩).2

theorem InterconnectBench.Blocked.along {map : AddressMap n xlen} {i : Fin n}
    {s : InterconnectBench n xlen} {ds : List (DbusCycle n xlen)} (h : Blocked map i s)
    (hl : (interconnect map).Along (InterconnectBench.Legal map) s ds)
    (hlater : ∀ d ∈ ds, Interconnect.sEn map d.request i = false) :
    (interconnect map).Along (fun s d => (s.response map d).answers = false) s ds := by
  induction ds generalizing s with
  | nil => trivial
  | cons d ds ih =>
    obtain ⟨hblocked, hsilent⟩ := h.step hl.1 (hlater d (List.mem_cons_self ..))
    exact ⟨hsilent, ih hblocked hl.2 fun e he => hlater e (List.mem_cons_of_mem d he)⟩

/-- After an error from slot `i` every later request to another slot, or to none, waits for
ever. -/
theorem blocked_after_error {map : AddressMap n xlen} {i : Fin n} {cs ds : List (DbusCycle n xlen)}
    {c : DbusCycle n xlen}
    (hl : (interconnect map).Along (InterconnectBench.Legal map) (interconnect map).init
      (cs ++ c :: ds))
    (he : (interconnect map).Along InterconnectBench.ErrorFree (interconnect map).init cs)
    (hidle : ((interconnect map).run cs).master = .idle) (hcomb : map.registered i = false)
    (hsel : Interconnect.sEn map c.request i = true) (herr : (c.response i).error = true)
    (hlater : ∀ d ∈ ds, Interconnect.sEn map d.request i = false) :
    (interconnect map).Along (fun s d => (s.response map d).answers = false)
      ((interconnect map).run (cs ++ [c])) ds := by
  obtain ⟨hfirst, hrest⟩ := Clocked.along_append.mp hl
  have hphase := (hfirst.and he).invariant (InterconnectBench.Phase map)
    (fun s d h hok => h.step hok.1 hok.2) (InterconnectBench.Phase.init map)
  have hblocked := InterconnectBench.Blocked.of_error hphase hidle hrest.1 hcomb hsel herr
  have hrun : (interconnect map).run (cs ++ [c]) =
      ((interconnect map).run cs).step map c := by
    rw [Clocked.run, Clocked.runFrom_append]
    rfl
  rw [hrun]
  exact hblocked.along hrest.2 hlater

end BonfireCore
