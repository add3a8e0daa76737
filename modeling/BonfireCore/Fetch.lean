import BonfireCore.CoreConfig
import BonfireCore.Decode
import BonfireCore.Dbus

/-! The instruction fetch unit: a two-entry buffer, one address in flight, and the latch
that ends a redirect. -/
namespace BonfireCore

structure Fetch where
  ip : Word := 0
  busy : Bool := false
  valid : Bool := false
  jumpTaken : Bool := false
  run : Bool := false
  currentWord0 : Word := 0
  currentWord1 : Word := 0
  currentIp0 : Word := 0
  currentIp1 : Word := 0
  currentIp2 : Word := 0
  outstanding : Bool := false
  deriving DecidableEq, Repr

structure FetchInput where
  stall : Bool := false
  jump : Bool := false
  jumpDest : Word := 0
  ibus : DbusResponse 32 := {}
  deriving DecidableEq, Repr

namespace Fetch

def reset (c : CoreConfig) : Fetch := { ip := c.resetAddress }

variable (s : Fetch)

/-- `fetchBundle`, what Decode is offered. -/
def bundle : DecodeInput where
  en := s.valid
  word := s.currentWord0
  currentIp := s.currentIp0
  nextIp := s.currentIp0 + 4

def redirectPending : Bool := s.jumpTaken && !s.valid

variable (i : FetchInput)

def newJump : Bool := i.jump && !s.jumpTaken

def en : Bool := !s.busy && s.run && !i.stall && !s.newJump i

def request : DbusRequest 32 where
  en := s.en i
  adr := s.ip

/-- `fetch_proc` without a redirect in this cycle. `ip` is a bounded `intbv`: in the simulator
`ip + 4` raises behind 0xfffffffc, where the converted register wraps as it does here. -/
def advance : Fetch :=
  let free := !(i.ibus.stall || s.busy || i.stall)
  let t :=
    { s with
      currentIp2 := if free then s.ip else s.currentIp2
      ip := if free then s.ip + 4 else s.ip }
  if i.stall then
    if i.ibus.ack then
      { t with currentWord1 := i.ibus.dbRd, currentIp1 := s.currentIp2, busy := true }
    else t
  else if s.busy then
    { t with
      currentWord0 := s.currentWord1
      currentIp0 := s.currentIp1
      valid := true
      busy := false }
  else if i.ibus.ack && !s.newJump i then
    { t with currentWord0 := i.ibus.dbRd, currentIp0 := s.currentIp2, valid := true }
  else { t with valid := false }

def step : Fetch :=
  let t :=
    if !s.run then { s with run := true }
    else
      let t := { s with jumpTaken := s.jumpTaken && !(s.valid || i.stall && !i.jump) }
      if (!s.outstanding || i.ibus.ack) && s.newJump i then
        { t with ip := i.jumpDest, jumpTaken := true, valid := false, busy := false }
      else { s.advance i with jumpTaken := t.jumpTaken }
  { t with
    outstanding :=
      if s.en i && !i.ibus.ack then true
      else if !s.en i && i.ibus.ack then false
      else s.outstanding }

end Fetch
end BonfireCore
