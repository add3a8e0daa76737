import BonfireCore.Backend
import BonfireCore.Fetch
import BonfireCore.Clocked

/-! The core without a debug module. -/
namespace BonfireCore

structure Core where
  fetch : Fetch
  backend : Backend := {}

structure CoreInput where
  ibus : DbusResponse 32 := {}
  dbus : DbusResponse 32 := {}
  deriving DecidableEq, Repr

namespace Core
variable (c : CoreConfig)

def reset : Core where
  fetch := Fetch.reset c

variable (s : Core) (i : CoreInput)

def backendInput : BackendInput where
  fetch := s.fetch.bundle
  dbus := i.dbus

def fetchInput : FetchInput where
  stall := s.backend.busyO c (s.backendInput i)
  jump := s.backend.jumpO c (s.backendInput i)
  jumpDest := s.backend.jumpDestO c (s.backendInput i)
  ibus := i.ibus

def ibusRequest : DbusRequest 32 := s.fetch.request (s.fetchInput c i)

def dbusRequest : DbusRequest 32 := s.backend.execute.ls.request

/-- Execute takes an instruction in this cycle. -/
def taken : Bool := s.backend.taken c (s.backendInput i)

def step : Core where
  fetch := s.fetch.step (s.fetchInput c i)
  backend := s.backend.step c (s.backendInput i)

def machine : Clocked Core CoreInput where
  init := reset c
  step := step c

end Core
end BonfireCore
