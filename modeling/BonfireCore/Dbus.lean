import BonfireCore.Clocked
import Mathlib.Data.BitVec

/-! The data bus seen from either side: what a master that holds its request and a slave
that answers each accepted request once may do in a cycle. -/
namespace BonfireCore

/-- The signals a master drives. -/
structure DbusRequest (xlen : ℕ) where
  en : Bool := false
  adr : BitVec xlen := 0
  we : BitVec (xlen / 8) := 0
  dbWr : BitVec xlen := 0
  deriving DecidableEq, Repr

/-- The signals a slave drives. -/
structure DbusResponse (xlen : ℕ) where
  ack : Bool := false
  error : Bool := false
  stall : Bool := false
  dbRd : BitVec xlen := 0
  deriving DecidableEq, Repr

variable {xlen : ℕ}

def DbusResponse.answers (r : DbusResponse xlen) : Bool := r.ack || r.error

/-- Where a master stands with its single request. -/
inductive MasterPhase (xlen : ℕ)
  | idle
  | holding (request : DbusRequest xlen)
  | waiting
  deriving DecidableEq, Repr

namespace MasterPhase

def next (p : MasterPhase xlen) (m : DbusRequest xlen) (r : DbusResponse xlen) :
    MasterPhase xlen :=
  match p with
  | waiting => if r.answers then idle else waiting
  | _ =>
    if !m.en then idle
    else if r.answers then idle
    else if r.stall then holding m
    else waiting

/-- The request is held until it is accepted or answered; the next one comes later. -/
def Allows (p : MasterPhase xlen) (m : DbusRequest xlen) : Prop :=
  match p with
  | idle => True
  | holding request => m = request
  | waiting => m.en = false

instance (p : MasterPhase xlen) (m : DbusRequest xlen) : Decidable (p.Allows m) :=
  match p with
  | idle => inferInstanceAs (Decidable True)
  | holding request => inferInstanceAs (Decidable (m = request))
  | waiting => inferInstanceAs (Decidable (m.en = false))

/-- A request is open in this cycle. -/
def isOpen (p : MasterPhase xlen) (m : DbusRequest xlen) : Bool :=
  match p with
  | waiting => true
  | _ => m.en

end MasterPhase

/-- A slave answers only what it is asked or owes, and in one way. -/
def SlaveAllows (owes : Bool) (m : DbusRequest xlen) (r : DbusResponse xlen) : Prop :=
  (r.answers → m.en ∨ owes) ∧ ¬ (r.ack ∧ r.error)

instance (owes : Bool) (m : DbusRequest xlen) (r : DbusResponse xlen) :
    Decidable (SlaveAllows owes m r) :=
  inferInstanceAs (Decidable (_ ∧ _))

/-- A slave that answers an accepted request only, in the same cycle or later. -/
def AnswersAccepted (owes : Bool) (m : DbusRequest xlen) (r : DbusResponse xlen) : Prop :=
  (r.answers → owes = true ∨ m.en = true ∧ r.stall = false) ∧ ¬ (r.ack ∧ r.error)

instance (owes : Bool) (m : DbusRequest xlen) (r : DbusResponse xlen) :
    Decidable (AnswersAccepted owes m r) :=
  inferInstanceAs (Decidable (_ ∧ _))

/-- An accepted request is owed an answer. -/
def nextOwes (owes : Bool) (m : DbusRequest xlen) (r : DbusResponse xlen) : Bool :=
  if r.answers then false else owes || m.en && !r.stall

theorem MasterPhase.next_waiting_iff {p : MasterPhase xlen} {m : DbusRequest xlen}
    (h : p.Allows m) (r : DbusResponse xlen) :
    (p.next m r = .waiting) ↔ nextOwes (decide (p = .waiting)) m r = true := by
  cases p with
  | waiting => cases hr : r.answers <;> simp [next, nextOwes, hr]
  | idle | holding =>
    cases hm : m.en <;> cases hr : r.answers <;> cases hs : r.stall <;>
      simp [next, nextOwes, hm, hr, hs]

end BonfireCore
