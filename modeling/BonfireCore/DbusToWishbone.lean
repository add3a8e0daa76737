import BonfireCore.Dbus

/-! The bridge from the data bus to a non-pipelined Wishbone master, between a master that
holds its request while it is stalled and a slave that ends each cycle with one answer. -/
namespace BonfireCore

structure WishboneConfig where
  adrHigh : ℕ := 32
  adrLow : ℕ := 2
  errorSupported : Bool := false
  deriving DecidableEq, Repr

/-- What a Wishbone cycle carries. -/
structure WbFields (xlen : ℕ) (cfg : WishboneConfig) where
  adr : BitVec (cfg.adrHigh - cfg.adrLow)
  we : Bool
  sel : BitVec (xlen / 8)
  db : BitVec xlen
  deriving DecidableEq, Repr

structure WishboneOut (xlen : ℕ) (cfg : WishboneConfig) extends WbFields xlen cfg where
  cyc : Bool
  stb : Bool
  deriving DecidableEq, Repr

/-- The signals of the slave. -/
structure WishboneIn (xlen : ℕ) where
  ack : Bool := false
  err : Bool := false
  db : BitVec xlen := 0
  deriving DecidableEq, Repr

/-- How a request ends. -/
inductive WbAnswer (xlen : ℕ)
  | ack (db : BitVec xlen)
  | err
  deriving DecidableEq, Repr

variable {xlen : ℕ}

def WishboneIn.answer (w : WishboneIn xlen) : Option (WbAnswer xlen) :=
  if w.ack then some (.ack w.db) else if w.err then some .err else none

def DbusResponse.answer (r : DbusResponse xlen) : Option (WbAnswer xlen) :=
  if r.ack then some (.ack r.dbRd) else if r.error then some .err else none

/-- `DbusToWishbone`; `cycR` is its only register. -/
structure DbusToWishbone where
  cycR : Bool := false
  deriving DecidableEq, Repr

namespace DbusToWishbone
variable (cfg : WishboneConfig) (b : DbusToWishbone) (dbus : DbusRequest xlen)
  (wb : WishboneIn xlen)

/-- `we_proc`, and the wiring of address and data. -/
def fields : WbFields xlen cfg where
  adr := dbus.adr.extractLsb' cfg.adrLow (cfg.adrHigh - cfg.adrLow)
  we := dbus.we ≠ 0
  sel := if dbus.we ≠ 0 then dbus.we else 0xf
  db := dbus.dbWr

def cycO : Bool := b.cycR || dbus.en

/-- `wb_standard` and `wb_connect`. -/
def out : WishboneOut xlen cfg :=
  { fields cfg dbus with
    we := (fields cfg dbus).we && b.cycO dbus
    cyc := b.cycO dbus
    stb := b.cycO dbus }

def response : DbusResponse xlen where
  ack := wb.ack
  error := cfg.errorSupported && wb.err
  stall := b.cycO dbus && !wb.ack
  dbRd := wb.db

def step : DbusToWishbone where
  cycR := if wb.ack then false else dbus.en

end DbusToWishbone

/-- The bridge at work, with what has happened on its two sides. -/
structure Bridge (xlen : ℕ) (cfg : WishboneConfig) where
  bridge : DbusToWishbone := {}
  /-- The request that was stalled, which the master repeats. -/
  held : Option (DbusRequest xlen) := none
  /-- The Wishbone cycle that has begun and not ended. -/
  current : Option (WbFields xlen cfg) := none
  requests : List (DbusRequest xlen) := []
  cycles : List (WbFields xlen cfg × WbAnswer xlen) := []
  responses : List (WbAnswer xlen) := []
  deriving DecidableEq, Repr

structure BridgeInput (xlen : ℕ) where
  dbus : DbusRequest xlen := {}
  wb : WishboneIn xlen := {}
  deriving DecidableEq, Repr

namespace Bridge
variable {cfg : WishboneConfig} (s : Bridge xlen cfg) (i : BridgeInput xlen)

def out : WishboneOut xlen cfg := s.bridge.out cfg i.dbus

def response : DbusResponse xlen := s.bridge.response cfg i.dbus i.wb

/-- The answer that ends a Wishbone cycle in this clock. -/
def ends : Option (WbAnswer xlen) :=
  if (s.out i).cyc && (s.out i).stb then i.wb.answer else none

def step : Bridge xlen cfg where
  bridge := .step i.dbus i.wb
  held := if i.dbus.en && (s.response i).stall then some i.dbus else none
  current :=
    if (s.out i).cyc && (s.out i).stb && (s.ends i).isNone then some (s.out i).toWbFields else none
  requests := if i.dbus.en && s.held.isNone then s.requests ++ [i.dbus] else s.requests
  cycles := s.cycles ++ ((s.ends i).map ((s.out i).toWbFields, ·)).toList
  responses := s.responses ++ (s.response i).answer.toList

def machine (xlen : ℕ) (cfg : WishboneConfig) :
    Clocked (Bridge xlen cfg) (BridgeInput xlen) where
  init := {}
  step := step

/-- The rules of both sides: a stalled request is held, and the slave answers an open cycle
only, in one way, with an error only where there is a line for it. -/
structure Allowed : Prop where
  master : ∀ r ∈ s.held, i.dbus = r
  open_ : (i.wb.ack || i.wb.err) = true → (s.out i).cyc = true ∧ (s.out i).stb = true
  single : ¬ (i.wb.ack = true ∧ i.wb.err = true)
  line : i.wb.err = true → cfg.errorSupported = true

/-- Each request has had its one Wishbone cycle, with its own address, data and lanes, and the
answer of that cycle, but for the last one, which the master holds as long as the cycle is
open. -/
structure Matched : Prop where
  cycles : s.requests.map (DbusToWishbone.fields cfg) = s.cycles.map (·.1) ++ s.current.toList
  responses : s.responses = s.cycles.map (·.2)
  released : s.held.map (DbusToWishbone.fields cfg) = s.current

/-- A cycle that has begun stays as it is until it ends, and everything is matched after the
clock. -/
structure Serves : Prop where
  stable : ∀ f ∈ s.current,
    (s.out i).cyc = true ∧ (s.out i).stb = true ∧ (s.out i).toWbFields = f
  matched : (s.step i).Matched

/-- An answer on the error line. -/
def EndsByError : Prop := i.wb.err = true

instance : Decidable (s.Allowed i) :=
  decidable_of_iff ((∀ r ∈ s.held, i.dbus = r) ∧
    ((i.wb.ack || i.wb.err) = true → (s.out i).cyc = true ∧ (s.out i).stb = true) ∧
    ¬ (i.wb.ack = true ∧ i.wb.err = true) ∧ (i.wb.err = true → cfg.errorSupported = true))
    ⟨fun ⟨h1, h2, h3, h4⟩ => ⟨h1, h2, h3, h4⟩, fun ⟨h1, h2, h3, h4⟩ => ⟨h1, h2, h3, h4⟩⟩

variable {s i}

/-- Between two clocks. -/
structure Inv (s : Bridge xlen cfg) : Prop where
  matched : s.Matched
  cycR : s.bridge.cycR = s.held.isSome
  en : ∀ r ∈ s.held, r.en = true

theorem out_of_en (h : i.dbus.en = true) :
    (s.out i).cyc = true ∧ (s.out i).stb = true ∧
      (s.out i).toWbFields = DbusToWishbone.fields cfg i.dbus := by
  have hcyc : s.bridge.cycO i.dbus = true := by simp [DbusToWishbone.cycO, h]
  refine ⟨hcyc, hcyc, ?_⟩
  show ({ DbusToWishbone.fields cfg i.dbus with
    we := (DbusToWishbone.fields cfg i.dbus).we && s.bridge.cycO i.dbus } : WbFields xlen cfg) = _
  rw [hcyc, Bool.and_true]

/-- A clock without a request. -/
theorem step_idle (hs : s.Inv) (ha : s.Allowed i) (h : i.dbus.en = false) :
    (i.wb.ack || i.wb.err) = false ∧ s.held = none ∧
      s.step i = { s with bridge := {}, held := none, current := none } := by
  have hheld : s.held = none := by
    cases hr : s.held with
    | none => rfl
    | some r =>
      have hen := hs.en r hr
      rw [← ha.master r hr, h] at hen
      contradiction
  have hcyc : s.bridge.cycO i.dbus = false := by
    simp [DbusToWishbone.cycO, hs.cycR, hheld, h]
  have hno : (i.wb.ack || i.wb.err) = false := by
    cases hw : (i.wb.ack || i.wb.err) with
    | false => rfl
    | true => exact absurd (ha.open_ hw).1 (by rw [show (s.out i).cyc = _ from hcyc]; simp)
  obtain ⟨hack, herr⟩ := Bool.or_eq_false_iff.1 hno
  refine ⟨hno, hheld, ?_⟩
  simp [step, ends, out, response, DbusToWishbone.out, DbusToWishbone.response,
    DbusToWishbone.step, DbusResponse.answer, hcyc, h, hack, herr]

/-- With a request, new or repeated, the Wishbone cycle of that request is open. -/
theorem step_fields (hs : s.Inv) (ha : s.Allowed i) (h : i.dbus.en = true) :
    (s.step i).requests.map (DbusToWishbone.fields cfg) =
        s.cycles.map (·.1) ++ [DbusToWishbone.fields cfg i.dbus] ∧
      s.ends i = i.wb.answer ∧
      (s.step i).held = (if i.wb.ack then none else some i.dbus) ∧
      (s.step i).current =
        (if i.wb.answer.isNone then some (DbusToWishbone.fields cfg i.dbus) else none) ∧
      (s.step i).cycles =
        s.cycles ++ (i.wb.answer.map (DbusToWishbone.fields cfg i.dbus, ·)).toList := by
  obtain ⟨hcyc, hstb, hfields⟩ := out_of_en (s := s) h
  have hends : s.ends i = i.wb.answer := by simp [ends, hcyc, hstb]
  refine ⟨?_, hends, ?_, ?_, ?_⟩
  · have hcycles := hs.matched.cycles
    rw [← hs.matched.released] at hcycles
    cases hheld : s.held with
    | none =>
      rw [hheld] at hcycles
      simpa [step, h, hheld] using hcycles
    | some r =>
      rw [hheld] at hcycles
      rw [← ha.master r hheld] at hcycles
      simpa [step, h, hheld] using hcycles
  · have hcyc' : s.bridge.cycO i.dbus = true := hcyc
    simp only [step, response, DbusToWishbone.response, hcyc', h]
    cases i.wb.ack <;> rfl
  · simp only [step, hends, hcyc, hstb, hfields, Bool.true_and]
  · simp only [step, hends, hfields]

theorem step_responses (ha : s.Allowed i) :
    (s.step i).responses = s.responses ++ i.wb.answer.toList := by
  have hanswer : (s.response i).answer = i.wb.answer := by
    have herr : (cfg.errorSupported && i.wb.err) = i.wb.err := by
      cases herr : i.wb.err with
      | false => rw [Bool.and_false]
      | true => rw [ha.line herr, Bool.true_and]
    simp only [response, DbusToWishbone.response, DbusResponse.answer, WishboneIn.answer, herr]
  rw [← hanswer]
  rfl

/-- A clock with a request that is not ended by an error. -/
theorem step_request (hs : s.Inv) (ha : s.Allowed i) (h : i.dbus.en = true)
    (herr : i.wb.err = false) : (s.step i).Inv := by
  obtain ⟨hreq, -, hheld, hcurrent, hcycles⟩ := step_fields hs ha h
  have hresp := step_responses ha
  rw [hs.matched.responses] at hresp
  have hcycR : (s.step i).bridge.cycR = if i.wb.ack then false else i.dbus.en := rfl
  rw [h] at hcycR
  cases hack : i.wb.ack with
  | true =>
    have hanswer : i.wb.answer = some (.ack i.wb.db) := by simp [WishboneIn.answer, hack]
    rw [hanswer] at hcurrent hcycles hresp
    rw [hack, if_pos rfl] at hheld hcycR
    refine ⟨⟨?_, ?_, ?_⟩, ?_, ?_⟩
    · rw [hreq, hcycles, hcurrent]
      simp
    · rw [hresp, hcycles]
      simp
    · rw [hheld, hcurrent]
      rfl
    · rw [hcycR, hheld]
      rfl
    · simp [hheld]
  | false =>
    have hanswer : i.wb.answer = none := by simp [WishboneIn.answer, hack, herr]
    rw [hanswer] at hcurrent hcycles hresp
    rw [hack, if_neg Bool.false_ne_true] at hheld hcycR
    refine ⟨⟨?_, ?_, ?_⟩, ?_, ?_⟩
    · rw [hreq, hcycles, hcurrent]
      simp
    · rw [hresp, hcycles]
      simp
    · rw [hheld, hcurrent]
      rfl
    · rw [hcycR, hheld]
      rfl
    · simp [hheld, h]

theorem step_inv (hs : s.Inv) (ha : s.Allowed i) (herr : ¬ EndsByError i) : (s.step i).Inv := by
  cases h : i.dbus.en with
  | true => exact step_request hs ha h (Bool.eq_false_iff.2 herr)
  | false =>
    obtain ⟨-, hheld, hstep⟩ := step_idle hs ha h
    have hcurrent : s.current = none := by
      rw [← hs.matched.released, hheld]
      rfl
    rw [hstep]
    exact ⟨⟨by rw [hs.matched.cycles, hcurrent], hs.matched.responses, rfl⟩, rfl, by simp⟩

/-- An error ends the Wishbone cycle and leaves the master stalled. -/
theorem step_error (hs : s.Inv) (ha : s.Allowed i) (herr : i.wb.err = true) :
    ¬ (s.step i).Matched := by
  have hack : i.wb.ack = false := Bool.eq_false_iff.2 fun hack => ha.single ⟨hack, herr⟩
  have hen : i.dbus.en = true := by
    cases h : i.dbus.en with
    | true => rfl
    | false =>
      have hno := (step_idle hs ha h).1
      rw [herr, Bool.or_true] at hno
      contradiction
  have hanswer : i.wb.answer = some .err := by simp [WishboneIn.answer, hack, herr]
  obtain ⟨-, -, hheld, hcurrent, -⟩ := step_fields hs ha hen
  rw [hanswer] at hcurrent
  rw [hack] at hheld
  intro hm
  have hreleased := hm.released
  rw [hheld, hcurrent] at hreleased
  simp at hreleased

theorem stable (hs : s.Inv) (ha : s.Allowed i) : ∀ f ∈ s.current,
    (s.out i).cyc = true ∧ (s.out i).stb = true ∧ (s.out i).toWbFields = f := by
  intro f hf
  have hreleased := hs.matched.released
  rw [show s.current = some f from hf] at hreleased
  obtain ⟨r, hr, hfr⟩ := Option.map_eq_some_iff.1 hreleased
  have hen : i.dbus.en = true := by
    rw [ha.master r hr]
    exact hs.en r hr
  obtain ⟨hcyc, hstb, hfields⟩ := out_of_en (s := s) hen
  exact ⟨hcyc, hstb, by rw [hfields, ha.master r hr, hfr]⟩

theorem serves_iff (hs : s.Inv) (ha : s.Allowed i) : s.Serves i ↔ ¬ EndsByError i := by
  constructor
  · intro h herr
    exact step_error hs ha herr h.matched
  · intro h
    exact ⟨stable hs ha, (step_inv hs ha h).matched⟩

/-- Every request gets exactly one Wishbone cycle and one answer, whatever the master asks and
however long the slave waits, as long as no cycle ends by an error; an error never is the end. -/
theorem serves {is : List (BridgeInput xlen)} (h : (machine xlen cfg).Along Allowed {} is) :
    (machine xlen cfg).Along Serves {} is ↔
      (machine xlen cfg).Along (fun _ i => ¬ EndsByError i) {} is :=
  h.congr_invariant Inv (fun _ _ hs ha => step_inv hs ha) (fun _ _ hs ha => serves_iff hs ha)
    ⟨⟨rfl, rfl, rfl⟩, rfl, by simp⟩

/-- A read with a wait state, and a store right behind it that is answered at once. -/
theorem serves_back_to_back : (machine 32 {}).Along Serves {}
    [⟨⟨true, 0x100, 0, 0⟩, {}⟩, ⟨⟨true, 0x100, 0, 0⟩, ⟨true, false, 7⟩⟩,
      ⟨⟨true, 0x104, 3, 9⟩, ⟨true, false, 0⟩⟩, {}] :=
  (serves (by decide)).2 (by simp [Clocked.Along, EndsByError])

/-- A read that is ended by an error and then, still held, runs again. -/
theorem error_repeats : ¬ ∀ (cfg : WishboneConfig) (is : List (BridgeInput 32)),
    (machine 32 cfg).Along Allowed {} is → (machine 32 cfg).Along Serves {} is := by
  intro h
  have hrun := h { errorSupported := true }
    [⟨⟨true, 0x100, 0, 0⟩, ⟨false, true, 0⟩⟩, ⟨⟨true, 0x100, 0, 0⟩, ⟨true, false, 7⟩⟩] (by decide)
  have hcycles := hrun.2.1.matched.cycles
  revert hcycles
  decide

end Bridge
end BonfireCore
