import BonfireCore.Dbus
import Mathlib.Data.List.FinRange
import Mathlib.Data.Fintype.Basic

/-! The single-master interconnect: address decode, the remembered target, and the optional
register stage of each slot. -/
namespace BonfireCore

structure AdrMask where
  upper : ℕ
  lower : ℕ
  mask : ℕ
  deriving DecidableEq, Repr

namespace AdrMask

def baseAddress (a : AdrMask) : ℕ := a.mask <<< a.lower

def addressMask (xlen : ℕ) (a : AdrMask) : ℕ :=
  (((1 <<< (a.upper - a.lower)) - 1) <<< a.lower) &&& ((1 <<< xlen) - 1)

/-- The decoder's test `adr[upper:lower] == mask`. -/
def selects {xlen : ℕ} (a : AdrMask) (adr : BitVec xlen) : Bool :=
  (adr.extractLsb' a.lower (a.upper - a.lower)).toNat == a.mask

/-- `_validate_adrmask`. -/
structure Valid (xlen : ℕ) (a : AdrMask) : Prop where
  lower_lt : a.lower < a.upper
  upper_le : a.upper ≤ xlen
  mask_lt : a.mask < 2 ^ (a.upper - a.lower)

instance (xlen : ℕ) (a : AdrMask) : Decidable (a.Valid xlen) :=
  decidable_of_iff (a.lower < a.upper ∧ a.upper ≤ xlen ∧ a.mask < 2 ^ (a.upper - a.lower))
    ⟨fun h => ⟨h.1, h.2.1, h.2.2⟩, fun h => ⟨h.lower_lt, h.upper_le, h.mask_lt⟩⟩

/-- `_adrmasks_overlap`. -/
def overlap (xlen : ℕ) (a b : AdrMask) : Bool :=
  let commonLower := min a.lower b.lower
  let commonUpper := max a.upper b.upper
  let width := commonUpper - commonLower
  let aValue := (a.baseAddress >>> commonLower) &&& ((1 <<< width) - 1)
  let bValue := (b.baseAddress >>> commonLower) &&& ((1 <<< width) - 1)
  let aMask := a.addressMask xlen >>> commonLower
  let bMask := b.addressMask xlen >>> commonLower
  (aValue &&& bMask) == (bValue &&& aMask)

end AdrMask

/-- The active slots of a validated map. -/
structure AddressMap (n xlen : ℕ) where
  adrmask : Fin n → AdrMask
  registered : Fin n → Bool
  valid : ∀ i, (adrmask i).Valid xlen
  disjoint : ∀ i j, i ≠ j → (adrmask i).overlap xlen (adrmask j) = false

inductive SlotState
  | idle | request | waitResponse | response
  deriving DecidableEq, Repr

/-- The register stage of a registered slot. -/
structure RegisteredSlot (xlen : ℕ) where
  state : SlotState := .idle
  adrR : BitVec xlen := 0
  dbWrR : BitVec xlen := 0
  weR : BitVec (xlen / 8) := 0
  ackR : Bool := false
  errorR : Bool := false
  dbRdR : BitVec xlen := 0
  deriving DecidableEq, Repr

namespace RegisteredSlot
variable {xlen : ℕ}

/-- `registered_seq`; `take`: the slot is selected and not held by the selection stall. -/
def next (take : Bool) (m : DbusRequest xlen) (r : DbusResponse xlen)
    (s : RegisteredSlot xlen) : RegisteredSlot xlen :=
  match s.state with
  | .idle =>
    let s := { s with ackR := false, errorR := false }
    if take then
      { s with adrR := m.adr, dbWrR := m.dbWr, weR := m.we, state := .request }
    else s
  | .request =>
    if r.ack || r.error then
      { s with ackR := r.ack, errorR := r.error, dbRdR := r.dbRd, state := .response }
    else if !r.stall then { s with state := .waitResponse }
    else s
  | .waitResponse =>
    if r.ack || r.error then
      { s with ackR := r.ack, errorR := r.error, dbRdR := r.dbRd, state := .response }
    else s
  | .response => { s with state := .idle }

/-- What the stage drives to its slave. -/
def toSlave (s : RegisteredSlot xlen) : DbusRequest xlen where
  en := s.state = .request
  adr := s.adrR
  dbWr := s.dbWrR
  we := s.weR

/-- What the stage answers to the interconnect. -/
def toMaster (s : RegisteredSlot xlen) : DbusResponse xlen where
  ack := s.state = .response && s.ackR
  error := s.state = .response && s.errorR
  stall := s.state ≠ .idle
  dbRd := s.dbRdR

end RegisteredSlot

structure Interconnect (n xlen : ℕ) where
  busy : Bool := false
  sEnR : Fin n → Bool := fun _ => false
  slot : Fin n → RegisteredSlot xlen := fun _ => {}

namespace Interconnect
variable {n xlen : ℕ} (map : AddressMap n xlen)

def sEn (m : DbusRequest xlen) (i : Fin n) : Bool := (map.adrmask i).selects m.adr && m.en

def selectionStall (s : Interconnect n xlen) (m : DbusRequest xlen) : Bool :=
  s.busy && m.en && decide (sEn map m ≠ s.sEnR)

def muxSel (s : Interconnect n xlen) (m : DbusRequest xlen) (i : Fin n) : Bool :=
  if s.busy then s.sEnR i else sEn map m i

def toSlave (s : Interconnect n xlen) (m : DbusRequest xlen) (i : Fin n) : DbusRequest xlen :=
  if map.registered i then (s.slot i).toSlave
  else { m with en := sEn map m i && !s.selectionStall map m }

def muxSlave (s : Interconnect n xlen) (r : Fin n → DbusResponse xlen) (i : Fin n) :
    DbusResponse xlen :=
  if map.registered i then (s.slot i).toMaster else r i

/-- The loop of `master_inputs`: whether a slot was selected, and the answer so far. -/
def muxStep (sel : Fin n → Bool) (mux : Fin n → DbusResponse xlen)
    (acc : Bool × DbusResponse xlen) (i : Fin n) : Bool × DbusResponse xlen :=
  if sel i then (true, { mux i with stall := acc.2.stall || (mux i).stall }) else acc

/-- `master_inputs`. -/
def toMaster (s : Interconnect n xlen) (m : DbusRequest xlen) (r : Fin n → DbusResponse xlen) :
    DbusResponse xlen :=
  let (selected, out) := (List.finRange n).foldl (muxStep (s.muxSel map m) (s.muxSlave map r))
    (false, { stall := s.selectionStall map m })
  if !selected then { out with error := m.en } else out

def step (s : Interconnect n xlen) (m : DbusRequest xlen) (r : Fin n → DbusResponse xlen) :
    Interconnect n xlen :=
  let ack := (s.toMaster map m r).ack
  { busy := if s.busy then !ack else decide (∃ i, sEn map m i = true) && !ack
    sEnR := if s.busy then s.sEnR else sEn map m
    slot := fun i =>
      if map.registered i then
        (s.slot i).next (sEn map m i && !s.selectionStall map m) m (r i)
      else s.slot i }

end Interconnect
end BonfireCore
