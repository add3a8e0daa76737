import BonfireCore.HostScan

/-! OpenOCD's remote_bitbang: the server at the pins of the native frontend, with one character a
command, and the probe's client of it. -/
namespace BonfireCore.DmiTransport

variable {abits : ℕ}

/-- What a session meets: the clock edges on which the server polls before each command, what the
DMI target drives on each edge, and `sysclk_settle_cycles`. -/
structure Surroundings where
  polls : ℕ → ℕ := fun _ => 0
  dbo : ℕ → BitVec 32 := fun _ => 0
  settle : ℕ := 3

/-- The server with its pins and the frontend behind them; `edges` and `commands` count what has
passed. -/
structure RemoteBitbang (abits : ℕ) where
  sys : JtagSystem abits := {}
  tck : Bool := false
  tms : Bool := true
  tdi : Bool := false
  trstn : Bool := true
  tdo : Bool := false
  edges : ℕ := 0
  commands : ℕ := 0

/-- `_is_pin_write`. -/
def isPinWrite (command : Char) : Bool := '0' ≤ command && command ≤ '7'

/-- `_is_reset_write`. -/
def isResetWrite (command : Char) : Bool := 'r' ≤ command && command ≤ 'u'

namespace RemoteBitbang
variable (env : Surroundings)

/-- A rising edge of the core clock. -/
def coreEdge (p : RemoteBitbang abits) : RemoteBitbang abits :=
  { p with
    sys := p.sys.step { core := true, dbo := env.dbo p.edges, trstn := p.trstn }
    edges := p.edges + 1 }

def waitSysclk : ℕ → RemoteBitbang abits → RemoteBitbang abits
  | 0, p => p
  | n + 1, p => waitSysclk n (p.coreEdge env)

def setPins (tck tms tdi : Bool) (p : RemoteBitbang abits) : RemoteBitbang abits :=
  { p with
    sys := if tck && !p.tck then p.sys.step { tck := true, tms, tdi, trstn := p.trstn } else p.sys
    tdo := if p.tck && !tck then p.sys.dtm.tdoSelect false p.trstn else p.tdo
    tck, tms, tdi }

/-- The server polls on each edge until a command is there. -/
def receive (p : RemoteBitbang abits) : RemoteBitbang abits :=
  { p.waitSysclk env (env.polls p.commands) with commands := p.commands + 1 }

/-- What the server sends back for a command. -/
def server (command : Char) (p : RemoteBitbang abits) : List Char × RemoteBitbang abits :=
  let p := p.receive env
  if isPinWrite command then
    let value := command.toNat - '0'.toNat
    ([], (p.setPins (value.testBit 2) (value.testBit 1) (value.testBit 0)).waitSysclk env
      env.settle)
  else if command = 'R' then ([if p.tdo then '1' else '0'], p)
  else if isResetWrite command then
    let value := command.toNat - 'r'.toNat
    ([], waitSysclk env env.settle { p with trstn := !value.testBit 1 })
  else if command = 'Q' then ([], p)
  else ([], p.waitSysclk env 1)

/-- The character for the pins. -/
def pins (tck tms tdi : Bool) : Char :=
  Char.ofNat ('0'.toNat + ((if tck then 4 else 0) ||| (if tms then 2 else 0) |||
    (if tdi then 1 else 0)))

def writePins (tck tms tdi : Bool) (p : RemoteBitbang abits) : RemoteBitbang abits :=
  (p.server env (pins tck tms tdi)).2

/-- `none` when the server sends anything but a digit for the bit. -/
def readTdo (p : RemoteBitbang abits) : Option (Bool × RemoteBitbang abits) :=
  let (data, p) := p.server env 'R'
  if data = ['1'] then some (true, p) else if data = ['0'] then some (false, p) else none

def cycle (tms tdi : Bool) (p : RemoteBitbang abits) : Option (Bool × RemoteBitbang abits) := do
  let (tdo, p) ← (p.writePins env false tms tdi).readTdo env
  return (tdo, (p.writePins env true tms tdi).writePins env false tms tdi)

def cycles : List (Bool × Bool) → RemoteBitbang abits → Option (List Bool × RemoteBitbang abits)
  | [], p => some ([], p)
  | (tms, tdi) :: cs, p => do
    let (tdo, p) ← p.cycle env tms tdi
    let (tdos, p) ← cycles cs p
    return (tdo :: tdos, p)

def resetTap (p : RemoteBitbang abits) : Option (RemoteBitbang abits) := do
  let (_, p) ← p.cycles env (List.replicate 6 (true, false))
  let (_, p) ← p.cycle env false false
  return p

def scanDr (value width : ℕ) (p : RemoteBitbang abits) : Option (ℕ × RemoteBitbang abits) := do
  let (_, p) ← p.cycle env true false
  let (_, p) ← p.cycle env false false
  let (_, p) ← p.cycle env false false
  let (tdos, p) ← p.cycles env (JtagHost.shifts (JtagHost.bitsLsbFirst value width))
  let (_, p) ← p.cycle env true false
  let (_, p) ← p.cycle env false false
  return (JtagHost.collect tdos, p)

/-- The server as a data register scan has it, just before the edge that captures. -/
def captureDr (p : RemoteBitbang abits) : Option (RemoteBitbang abits) := do
  let (_, p) ← p.cycle env true false
  let (_, p) ← p.cycle env false false
  let (_, p) ← (p.writePins env false false false).readTdo env
  return p.receive env

def scanIr (value width : ℕ) (p : RemoteBitbang abits) : Option (ℕ × RemoteBitbang abits) := do
  let (_, p) ← p.cycle env true false
  let (_, p) ← p.cycle env true false
  let (_, p) ← p.cycle env false false
  let (_, p) ← p.cycle env false false
  let (tdos, p) ← p.cycles env (JtagHost.shifts (JtagHost.bitsLsbFirst value width))
  let (_, p) ← p.cycle env true false
  let (_, p) ← p.cycle env false false
  return (JtagHost.collect tdos, p)

end RemoteBitbang

namespace Surroundings
variable (env : Surroundings)

/-- What the target drives on the `n` edges from the edge `e` on. -/
def dbos (e n : ℕ) : List (BitVec 32) := (List.range n).map fun j => env.dbo (e + j)

/-- The core edges of the client's cycle that starts on the edge `e` with the command `c`. -/
def clock (e c : ℕ) : CycleClock :=
  let low := env.polls c + env.settle + env.polls (c + 1) + env.polls (c + 2)
  let high := env.settle + env.polls (c + 3)
  { low := env.dbos e low, high := env.dbos (e + low) high,
    settle := env.dbos (e + low + high) env.settle }

/-- Where the next cycle starts. -/
def advance (start : ℕ × ℕ) : ℕ × ℕ :=
  let (e, c) := start
  (e + (env.polls c + env.settle + env.polls (c + 1) + env.polls (c + 2)) +
    (env.settle + env.polls (c + 3)) + env.settle, c + 4)

theorem dbos_add (e m n : ℕ) : env.dbos e (m + n) = env.dbos e m ++ env.dbos (e + m) n := by
  rw [dbos, List.range_add, List.map_append, List.map_map]
  simp only [dbos, Function.comp_def, Nat.add_assoc]

theorem length_dbos (e n : ℕ) : (env.dbos e n).length = n := by
  rw [dbos, List.length_map, List.length_range]

end Surroundings

namespace JtagHost

theorem coreEdges_append (s : JtagHost abits) (as bs : List (BitVec 32)) :
    (s.coreEdges as).coreEdges bs = s.coreEdges (as ++ bs) := List.foldl_append.symm

theorem coreEdges_cycles (s : JtagHost abits) (dbos : List (BitVec 32)) :
    (s.coreEdges dbos).cycles = s.cycles := by
  induction dbos generalizing s with
  | nil => rfl
  | cons dbo dbos ih => exact ih (s.tick { core := true, dbo })

end JtagHost

namespace RemoteBitbang

/-- The pins stand at `s`, with the clock at `tck` and the reset released, on the edge `e` and
before the command `c`. -/
structure Stands (tck : Bool) (e c : ℕ) (p : RemoteBitbang abits) (s : JtagHost abits) : Prop where
  sys : p.sys = s.sys
  tdo : p.tdo = s.tdo
  tck : p.tck = tck
  released : p.trstn = true
  edges : p.edges = e
  commands : p.commands = c

section Commands
variable (env : Surroundings) {p : RemoteBitbang abits} {s : JtagHost abits} {level : Bool}
  {e c : ℕ}

theorem Stands.wait (h : p.Stands level e c s) (n : ℕ) :
    (p.waitSysclk env n).Stands level (e + n) c (s.coreEdges (env.dbos e n)) := by
  induction n generalizing p s e with
  | zero => exact h
  | succ n ih =>
    have hdbos : env.dbos e (n + 1) = env.dbo e :: env.dbos (e + 1) n := by
      rw [Nat.add_comm, env.dbos_add]
      rfl
    have hedge : (p.coreEdge env).Stands level (e + 1) c
        (s.tick { core := true, dbo := env.dbo e }) := by
      refine ⟨?_, h.tdo, h.tck, h.released, congrArg (· + 1) h.edges, h.commands⟩
      show p.sys.step _ = s.sys.step _
      rw [h.sys, h.released, h.edges]
    have hrest := ih hedge
    rw [Nat.add_right_comm] at hrest
    rw [hdbos]
    exact hrest

theorem Stands.receive (h : p.Stands level e c s) :
    (p.receive env).Stands level (e + env.polls c) (c + 1)
      (s.coreEdges (env.dbos e (env.polls c))) := by
  have hwait := h.wait env (env.polls c)
  rw [RemoteBitbang.receive, h.commands]
  exact ⟨hwait.sys, hwait.tdo, hwait.tck, hwait.released, hwait.edges, rfl⟩

theorem Stands.setPins_low (h : p.Stands false e c s) (tms tdi : Bool) :
    (p.setPins false tms tdi).Stands false e c s := by
  refine ⟨h.sys, ?_, rfl, h.released, h.edges, h.commands⟩
  rw [← h.tdo, setPins, h.tck]
  rfl

theorem Stands.setPins_rise (h : p.Stands false e c s) (tms tdi : Bool) :
    (p.setPins true tms tdi).Stands true e c (s.tick { tck := true, tms, tdi }) := by
  refine ⟨?_, ?_, rfl, h.released, h.edges, h.commands⟩
  · rw [setPins, h.tck, h.released, h.sys]
    rfl
  · rw [setPins, h.tck]
    exact h.tdo

theorem Stands.setPins_fall (h : p.Stands true e c s) (tms tdi : Bool) :
    (p.setPins false tms tdi).Stands false e c s.fall := by
  refine ⟨?_, ?_, rfl, h.released, h.edges, h.commands⟩
  · rw [setPins, h.tck]
    exact h.sys
  · rw [setPins, h.tck, h.released, h.sys]
    rfl

theorem isPinWrite_pins (tck tms tdi : Bool) : isPinWrite (pins tck tms tdi) = true ∧
    ((pins tck tms tdi).toNat - '0'.toNat).testBit 2 = tck ∧
    ((pins tck tms tdi).toNat - '0'.toNat).testBit 1 = tms ∧
    ((pins tck tms tdi).toNat - '0'.toNat).testBit 0 = tdi := by
  revert tck tms tdi
  decide

theorem writePins_eq (tck tms tdi : Bool) : p.writePins env tck tms tdi =
    ((p.receive env).setPins tck tms tdi).waitSysclk env env.settle := by
  obtain ⟨hpin, htck, htms, htdi⟩ := isPinWrite_pins tck tms tdi
  rw [writePins, server, if_pos hpin]
  dsimp only
  rw [htck, htms, htdi]

theorem Stands.readTdo (h : p.Stands level e c s) : ∃ p', p.readTdo env = some (s.tdo, p') ∧
    p'.Stands level (e + env.polls c) (c + 1) (s.coreEdges (env.dbos e (env.polls c))) := by
  have hreceive := h.receive env
  have hserver : p.server env 'R' = ([if s.tdo then '1' else '0'], p.receive env) := by
    rw [server, if_neg (by decide), if_pos rfl, hreceive.tdo, JtagHost.coreEdges_tdo]
  refine ⟨p.receive env, ?_, hreceive⟩
  rw [RemoteBitbang.readTdo, hserver]
  cases s.tdo <;> rfl

/-- The first half of a cycle: the server is about to raise the clock. -/
theorem Stands.low (h : p.Stands false e c s) (tms tdi : Bool) :
    ∃ p', (p.writePins env false tms tdi).readTdo env = some (s.tdo, p') ∧
      (p'.receive env).Stands false (e + (env.clock e c).low.length) (c + 3)
        (s.lowered (env.clock e c)) := by
  have hlow : (p.writePins env false tms tdi).Stands false _ _ _ :=
    writePins_eq env false tms tdi ▸ ((h.receive env).setPins_low tms tdi).wait env env.settle
  obtain ⟨p', hread, hsent⟩ := hlow.readTdo env
  have hraise := hsent.receive env
  refine ⟨p', by rw [hread, JtagHost.coreEdges_tdo, JtagHost.coreEdges_tdo], ?_⟩
  simp only [JtagHost.coreEdges_append, ← env.dbos_add, Nat.add_assoc, Nat.reduceAdd] at hraise
  simp only [JtagHost.lowered, Surroundings.clock, env.length_dbos, Nat.add_assoc]
  exact hraise

/-- A cycle of the client is one of the host at the pins. -/
theorem Stands.cycle (h : p.Stands false e c s) (tms tdi : Bool) :
    ∃ p', p.cycle env tms tdi = some (s.tdo, p') ∧
      p'.Stands false (env.advance (e, c)).1 (env.advance (e, c)).2
        (s.cycle (env.clock e c) tms tdi) := by
  obtain ⟨p₁, hread, hlow⟩ := h.low env tms tdi
  have hrise : (p₁.writePins env true tms tdi).Stands true _ _ _ :=
    writePins_eq env true tms tdi ▸ (hlow.setPins_rise tms tdi).wait env env.settle
  have hfall : ((p₁.writePins env true tms tdi).writePins env false tms tdi).Stands false _ _ _ :=
    writePins_eq env false tms tdi ▸
      ((hrise.receive env).setPins_fall tms tdi).wait env env.settle
  refine ⟨(p₁.writePins env true tms tdi).writePins env false tms tdi, ?_, ?_⟩
  · rw [RemoteBitbang.cycle, hread]
    rfl
  · simp only [JtagHost.coreEdges_append, Surroundings.clock, env.length_dbos, Nat.add_assoc,
      Nat.reduceAdd] at hfall
    simp only [Surroundings.advance, Surroundings.clock, Nat.add_assoc,
      env.dbos_add _ env.settle (env.polls (c + 3))]
    exact ⟨hfall.sys, hfall.tdo, hfall.tck, hfall.released, hfall.edges, hfall.commands⟩

end Commands

/-- The core edges of the cycles from `start` on. -/
def clocks (env : Surroundings) (start : ℕ × ℕ) (n : ℕ) : CycleClock :=
  env.clock (env.advance^[n] start).1 (env.advance^[n] start).2

/-- The server goes on as the host at the pins whose cycles have the core edges `ks`. -/
structure Follows (env : Surroundings) (ks : ℕ → CycleClock) (p : RemoteBitbang abits)
    (s : JtagHost abits) : Prop where
  stands : p.Stands false p.edges p.commands s
  ahead : ∀ n, ks (s.cycles + n) = clocks env (p.edges, p.commands) n

section Calls
variable {env : Surroundings} {ks : ℕ → CycleClock} {p : RemoteBitbang abits} {s : JtagHost abits}
  (h : p.Follows env ks s)
include h

theorem Follows.cycle (tms tdi : Bool) : ∃ p', p.cycle env tms tdi = some (s.tdo, p') ∧
    p'.Follows env ks (s.jtagCycle ks tms tdi) := by
  have hclock : ks s.cycles = env.clock p.edges p.commands := h.ahead 0
  obtain ⟨p', hcycle, hstands⟩ := h.stands.cycle env tms tdi
  have hstart : (p'.edges, p'.commands) = env.advance (p.edges, p.commands) :=
    Prod.ext hstands.edges hstands.commands
  refine ⟨p', hcycle, ?_, fun n => ?_⟩
  · rw [JtagHost.jtagCycle, hclock]
    exact ⟨hstands.sys, hstands.tdo, hstands.tck, hstands.released, rfl, rfl⟩
  · have hcycles : (s.jtagCycle ks tms tdi).cycles = s.cycles + 1 := by
      rw [JtagHost.jtagCycle, JtagHost.cycle]
      dsimp only
      rw [JtagHost.coreEdges_cycles]
      show (JtagHost.coreEdges _ _).cycles + 1 = _
      rw [JtagHost.coreEdges_cycles]
      show (JtagHost.coreEdges _ _).cycles + 1 = _
      rw [JtagHost.coreEdges_cycles]
    rw [hcycles, Nat.add_assoc, Nat.add_comm 1 n, h.ahead, hstart, clocks, clocks,
      Function.iterate_succ_apply]

theorem Follows.cycles (cs : List (Bool × Bool)) :
    ∃ p', p.cycles env cs = some ((s.jtagCycles ks cs).1, p') ∧
      p'.Follows env ks (s.jtagCycles ks cs).2 := by
  induction cs generalizing p s with
  | nil => exact ⟨p, rfl, h⟩
  | cons c cs ih =>
    obtain ⟨tms, tdi⟩ := c
    obtain ⟨p₁, hcycle, h₁⟩ := h.cycle tms tdi
    obtain ⟨p₂, hcycles, h₂⟩ := ih h₁
    refine ⟨p₂, ?_, h₂⟩
    simp only [RemoteBitbang.cycles, hcycle, hcycles, Option.bind_eq_bind, Option.bind_some]
    rfl

theorem Follows.resetTap : ∃ p', p.resetTap env = some p' ∧
    p'.Follows env ks (s.resetTap ks) := by
  obtain ⟨p₁, hcycles, h₁⟩ := h.cycles (List.replicate 6 (true, false))
  obtain ⟨p₂, hcycle, h₂⟩ := h₁.cycle false false
  refine ⟨p₂, ?_, h₂⟩
  simp only [RemoteBitbang.resetTap, hcycles, hcycle, Option.bind_eq_bind, Option.bind_some]
  rfl

theorem Follows.scanDr (value width : ℕ) :
    ∃ p', p.scanDr env value width = some ((s.scanDr ks value width).1, p') ∧
      p'.Follows env ks (s.scanDr ks value width).2 := by
  obtain ⟨p₁, hselect, h₁⟩ := h.cycle true false
  obtain ⟨p₂, hcapture, h₂⟩ := h₁.cycle false false
  obtain ⟨p₃, hshift, h₃⟩ := h₂.cycle false false
  obtain ⟨p₄, hbits, h₄⟩ := h₃.cycles (JtagHost.shifts (JtagHost.bitsLsbFirst value width))
  obtain ⟨p₅, hupdate, h₅⟩ := h₄.cycle true false
  obtain ⟨p₆, hidle, h₆⟩ := h₅.cycle false false
  refine ⟨p₆, ?_, h₆⟩
  simp only [RemoteBitbang.scanDr, hselect, hcapture, hshift, hbits, hupdate, hidle,
    Option.bind_eq_bind, Option.bind_some]
  rfl

theorem Follows.captureDr : ∃ p', p.captureDr env = some p' ∧
    p'.sys = ((s.toCapture ks).lowered (ks (s.toCapture ks).cycles)).sys := by
  obtain ⟨p₁, hselect, h₁⟩ := h.cycle true false
  obtain ⟨p₂, hcapture, h₂⟩ := h₁.cycle false false
  obtain ⟨p₃, hread, hlow⟩ := h₂.stands.low env false false
  have hclock : ks (s.toCapture ks).cycles = env.clock p₂.edges p₂.commands := h₂.ahead 0
  refine ⟨p₃.receive env, ?_, ?_⟩
  · simp only [RemoteBitbang.captureDr, hselect, hcapture, hread, Option.bind_eq_bind,
      Option.bind_some]
    rfl
  · rw [hclock]
    exact hlow.sys

theorem Follows.scanIr (value width : ℕ) :
    ∃ p', p.scanIr env value width = some ((s.scanIr ks value width).1, p') ∧
      p'.Follows env ks (s.scanIr ks value width).2 := by
  obtain ⟨p₁, hselect, h₁⟩ := h.cycle true false
  obtain ⟨p₂, hselect', h₂⟩ := h₁.cycle true false
  obtain ⟨p₃, hcapture, h₃⟩ := h₂.cycle false false
  obtain ⟨p₄, hshift, h₄⟩ := h₃.cycle false false
  obtain ⟨p₅, hbits, h₅⟩ := h₄.cycles (JtagHost.shifts (JtagHost.bitsLsbFirst value width))
  obtain ⟨p₆, hupdate, h₆⟩ := h₅.cycle true false
  obtain ⟨p₇, hidle, h₇⟩ := h₆.cycle false false
  refine ⟨p₇, ?_, h₇⟩
  simp only [RemoteBitbang.scanIr, hselect, hselect', hcapture, hshift, hbits, hupdate, hidle,
    Option.bind_eq_bind, Option.bind_some]
  rfl

end Calls

/-- Scans in a row, with what each of them reads. -/
def scans (env : Surroundings) : List (Column × ℕ × ℕ) → RemoteBitbang abits →
    Option (List ℕ × RemoteBitbang abits)
  | [], p => some ([], p)
  | (column, value, width) :: rest, p => do
    let (r, p) ← match column with
      | .ir => p.scanIr env value width
      | .dr => p.scanDr env value width
    let (rs, p) ← scans env rest p
    return (r :: rs, p)

end RemoteBitbang

/-- A register with `v` in it before the bits of a scan: what the scan shifts out. -/
def shiftedOut {w : ℕ} (v : BitVec w) (value width : ℕ) : ℕ :=
  (v.toNat ||| value <<< w) % 2 ^ width

/-- And what it leaves there. -/
def leftIn {w : ℕ} (v : BitVec w) (value width : ℕ) : BitVec w :=
  BitVec.ofNat w ((v.toNat ||| (value % 2 ^ width) <<< w) >>> width)

/-- What a data register scan reads under an instruction: the register that it selects holds what
it captures of the system `q`, and the scan shifts that out. -/
def drReads (instruction : BitVec 5) (q : JtagSystem abits) (value width : ℕ) : ℕ :=
  let pend := pending q.dtm.scan q.bridge
  if instruction = JTAG_INSTR_IDCODE then shiftedOut JTAG_IDCODE value width
  else if instruction = JTAG_INSTR_BYPASS then shiftedOut (0 : BitVec 1) value width
  else if instruction = JTAG_INSTR_DTMCS then shiftedOut (captureDtmcs abits pend) value width
  else if instruction = JTAG_INSTR_DMI then
    shiftedOut (captureDmi pend q.bridge.responsePayload) value width
  else 0

/-- The one TAP as the client sees it: each instruction scan reads `1` and then its own bits, and
leaves the instruction for the scans after it; each data register scan reads what its register
captures. -/
def ChainReads (env : Surroundings) :
    BitVec 5 → List (Column × ℕ × ℕ) → RemoteBitbang abits → List ℕ → Prop
  | _, [], _, rs => rs = []
  | _, (.ir, value, width) :: scans, p, rs => ∃ p' rest,
    p.scanIr env value width = some (shiftedOut (0x01 : BitVec 5) value width, p') ∧
      rs = shiftedOut (0x01 : BitVec 5) value width :: rest ∧
      ChainReads env (leftIn (0x01 : BitVec 5) value width) scans p' rest
  | instruction, (.dr, value, width) :: scans, p, rs => ∃ q p' rest,
    p.captureDr env = some q ∧
      p.scanDr env value width = some (drReads instruction q.sys value width, p') ∧
      rs = drReads instruction q.sys value width :: rest ∧
      ChainReads env instruction scans p' rest

section Chain
variable {ks : ℕ → CycleClock} {s : JtagHost abits} {instruction : BitVec 5}
  (hks : ∀ n, (ks n).Settles)
include hks

/-- A scan of a register reads what it captured, and then its own bits. -/
theorem JtagHost.At.scanDr_reads {w : ℕ} (R : ScanReg abits w) (hc : R.column = .dr)
    (value : ℕ) {width : ℕ} (hw : 0 < width) (h : s.At .runTestIdle R.instruction) :
    (s.scanDr ks value width).1 =
        shiftedOut (JtagHost.capturedAt R ks (s.toCapture ks)) value width ∧
      (s.scanDr ks value width).2.At .runTestIdle R.instruction := by
  obtain ⟨s₁, s₂, rfl, -, hupdate, -, -, hrun⟩ := h.scanDr hks R hc value hw
  rw [hrun]
  exact ⟨JtagHost.stream_value _ value width,
    hupdate.cycle false (by decide) (fun _ => rfl) false⟩

theorem JtagHost.At.scanDr_chain (value : ℕ) {width : ℕ} (hw : 0 < width)
    (h : s.At .runTestIdle instruction) :
    (s.scanDr ks value width).1 = drReads instruction
        ((s.toCapture ks).lowered (ks (s.toCapture ks).cycles)).sys value width ∧
      (s.scanDr ks value width).2.At .runTestIdle instruction := by
  unfold drReads
  split_ifs with hidcode hbypass hdtmcs hdmi
  · subst hidcode
    exact h.scanDr_reads hks (ScanReg.idcode abits) rfl value hw
  · subst hbypass
    exact h.scanDr_reads hks (ScanReg.bypass abits) rfl value hw
  · subst hdtmcs
    exact h.scanDr_reads hks (ScanReg.dtmcs abits) rfl value hw
  · subst hdmi
    exact h.scanDr_reads hks (ScanReg.dmi abits) rfl value hw
  · refine h.scanDr_none hks value hw fun s hs => ?_
    rw [hs.linked.tdo]
    simp [JtagDtm.tdoSelect, hs.state, hs.instruction, hidcode, hbypass, hdtmcs, hdmi]

end Chain

namespace RemoteBitbang
section Session
variable {env : Surroundings} {ks : ℕ → CycleClock} {p : RemoteBitbang abits} {s : JtagHost abits}
  {instruction : BitVec 5}

theorem Follows.scans (hks : ∀ n, (ks n).Settles) (calls : List (Column × ℕ × ℕ))
    (hwidth : ∀ call ∈ calls, 0 < call.2.2) (h : p.Follows env ks s)
    (hat : s.At .runTestIdle instruction) :
    ∃ rs p', p.scans env calls = some (rs, p') ∧ ChainReads env instruction calls p rs := by
  induction calls generalizing p s instruction with
  | nil => exact ⟨[], p, rfl, rfl⟩
  | cons call calls ih =>
    obtain ⟨column, value, width⟩ := call
    have hw : 0 < width := hwidth _ List.mem_cons_self
    have hrestw : ∀ call ∈ calls, 0 < call.2.2 := fun call hcall =>
      hwidth call (List.mem_cons_of_mem _ hcall)
    cases column with
    | ir =>
      obtain ⟨p₁, hscan, h₁⟩ := h.scanIr value width
      obtain ⟨hread, hat', -⟩ := hat.scanIr hks value hw
      rw [JtagHost.scanned_value] at hat'
      rw [hread, JtagHost.stream_value] at hscan
      obtain ⟨rs, p₂, hrest, hreads⟩ := ih hrestw h₁ hat'
      refine ⟨_ :: rs, p₂, ?_, p₁, rs, hscan, rfl, hreads⟩
      simp only [RemoteBitbang.scans, hscan, hrest, Option.bind_eq_bind, Option.bind_some]
      rfl
    | dr =>
      obtain ⟨p₁, hscan, h₁⟩ := h.scanDr value width
      obtain ⟨q, hcapture, hq⟩ := h.captureDr
      obtain ⟨hread, hat'⟩ := hat.scanDr_chain hks value hw
      rw [← hq] at hread
      rw [hread] at hscan
      obtain ⟨rs, p₂, hrest, hreads⟩ := ih hrestw h₁ hat'
      refine ⟨_ :: rs, p₂, ?_, q, p₁, rs, hcapture, hscan, rfl, hreads⟩
      simp only [RemoteBitbang.scans, hscan, hrest, Option.bind_eq_bind, Option.bind_some]
      rfl

/-- Once it has reset the TAP, from any state of it, the client reads what one TAP in the chain
holds: the five bits of the instruction register and, behind the instruction that it left there,
the data registers with what they captured. -/
theorem scans_read (env : Surroundings) (hsettle : 3 ≤ env.settle) (p : RemoteBitbang abits)
    (htck : p.tck = false) (htrst : p.trstn = true) (calls : List (Column × ℕ × ℕ))
    (hwidth : ∀ call ∈ calls, 0 < call.2.2) :
    ∃ p' rs p'', p.resetTap env = some p' ∧ p'.scans env calls = some (rs, p'') ∧
      ChainReads env JTAG_INSTR_IDCODE calls p' rs := by
  let s : JtagHost abits := { sys := p.sys, dmi := { link := p.sys.watched.link }, tdo := p.tdo }
  have hks : ∀ n, (clocks env (p.edges, p.commands) n).Settles := fun n =>
    hsettle.trans (env.length_dbos _ _).ge
  have hfollows : p.Follows env (clocks env (p.edges, p.commands)) s :=
    ⟨⟨rfl, rfl, htck, htrst, rfl, rfl⟩, fun n => congrArg _ (Nat.zero_add n)⟩
  obtain ⟨p', hreset, hfollows'⟩ := hfollows.resetTap
  obtain ⟨rs, p'', hscans, hreads⟩ := hfollows'.scans hks calls hwidth (JtagHost.resetTap_at rfl)
  exact ⟨p', rs, p'', hreset, hscans, hreads⟩

/-- The two long probes of OpenOCD, after which the TAP is in bypass, and a scan of the DMI
register. -/
theorem scans_read_probe :
    let calls : List (Column × ℕ × ℕ) := [(.dr, 2 ^ 672 - 1, 672), (.ir, 2 ^ 487 - 1, 487),
      (.dr, 5, 4), (.ir, 0x11, 5), (.dr, 0, 41)]
    ∃ (p' : RemoteBitbang 7) (rs : List ℕ) (p'' : RemoteBitbang 7),
      resetTap {} ({} : RemoteBitbang 7) = some p' ∧ p'.scans {} calls = some (rs, p'') ∧
        ChainReads {} JTAG_INSTR_IDCODE calls p' rs :=
  scans_read {} le_rfl {} rfl rfl _ (by decide)

end Session
end RemoteBitbang

end BonfireCore.DmiTransport
