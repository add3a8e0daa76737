import BonfireCore.DataRegister
import BonfireCore.DmiExchange

/-! The debugger at the pins of the native frontend: one `TCK` cycle, and the scans of the
instruction register and of a data register. The core clock runs on between the edges. -/
namespace BonfireCore.DmiTransport

variable {abits : ℕ}

/-- The core edges around one `TCK` cycle, each with what the DMI target drives there; `settle`
are those that the host waits for after the falling edge. -/
structure CycleClock where
  low : List (BitVec 32) := []
  rise : Option (BitVec 32) := none
  high : List (BitVec 32) := []
  settle : List (BitVec 32) := []
  deriving DecidableEq, Repr

/-- The frontend with its bridge, the log of its requests, the bit on `TDO`, and how many `TCK`
cycles the host has made. -/
structure JtagHost (abits : ℕ) where
  sys : JtagSystem abits := {}
  dmi : Observed abits := {}
  tdo : Bool := false
  cycles : ℕ := 0

namespace JtagHost

def tick (t : JtagTick) (s : JtagHost abits) : JtagHost abits :=
  { s with
    sys := s.sys.step t
    dmi := s.dmi.step ((s.sys.scanTick t).tick s.sys.watched) }

def coreEdges (dbos : List (BitVec 32)) (s : JtagHost abits) : JtagHost abits :=
  dbos.foldl (fun s dbo => s.tick { core := true, dbo }) s

/-- `tdo_select` at the falling edge. -/
def fall (s : JtagHost abits) : JtagHost abits :=
  { s with tdo := s.sys.dtm.tdoSelect false true }

/-- The rising edge. -/
def rise (k : CycleClock) (tms tdi : Bool) (s : JtagHost abits) : JtagHost abits :=
  s.tick { tck := true, tms, tdi, core := k.rise.isSome, dbo := k.rise.getD 0 }

def cycle (k : CycleClock) (tms tdi : Bool) (s : JtagHost abits) : JtagHost abits :=
  let s := (s.coreEdges k.low).rise k tms tdi
  let s := ((s.coreEdges k.high).fall).coreEdges k.settle
  { s with cycles := s.cycles + 1 }

section Api
variable (clocks : ℕ → CycleClock)

/-- `jtag_cycle`; `last_tdo` is the bit on `TDO` before it. -/
def jtagCycle (tms tdi : Bool) (s : JtagHost abits) : JtagHost abits :=
  s.cycle (clocks s.cycles) tms tdi

/-- Cycles in a row, with the bits seen before each of them. -/
def jtagCycles : List (Bool × Bool) → JtagHost abits → List Bool × JtagHost abits
  | [], s => ([], s)
  | (tms, tdi) :: cs, s =>
    let (tdos, s') := jtagCycles cs (s.jtagCycle clocks tms tdi)
    (s.tdo :: tdos, s')

/-- `_bits_lsb_first`. -/
def bitsLsbFirst (value width : ℕ) : List Bool := (List.range width).map value.testBit

/-- `TMS` is high with the last bit. -/
def shifts (bits : List Bool) : List (Bool × Bool) :=
  bits.zipIdx.map fun bit => (bit.2 == bits.length - 1, bit.1)

/-- `result |= last_tdo << index`. -/
def collect (tdos : List Bool) : ℕ :=
  tdos.zipIdx.foldl (fun result tdo => result ||| tdo.1.toNat <<< tdo.2) 0

def resetTap (s : JtagHost abits) : JtagHost abits :=
  (jtagCycles clocks (List.replicate 6 (true, false)) s).2.jtagCycle clocks false false

def scanIr (value width : ℕ) (s : JtagHost abits) : ℕ × JtagHost abits :=
  let s := ((s.jtagCycle clocks true false).jtagCycle clocks true false)
  let s := (s.jtagCycle clocks false false).jtagCycle clocks false false
  let (tdos, s) := jtagCycles clocks (shifts (bitsLsbFirst value width)) s
  (collect tdos, (s.jtagCycle clocks true false).jtagCycle clocks false false)

def scanDr (value width : ℕ) (s : JtagHost abits) : ℕ × JtagHost abits :=
  let s := s.jtagCycle clocks true false
  let s := (s.jtagCycle clocks false false).jtagCycle clocks false false
  let (tdos, s) := jtagCycles clocks (shifts (bitsLsbFirst value width)) s
  (collect tdos, (s.jtagCycle clocks true false).jtagCycle clocks false false)

def idle (cycles : ℕ) (s : JtagHost abits) : JtagHost abits :=
  (jtagCycles clocks (List.replicate cycles (false, false)) s).2

end Api

end JtagHost

namespace JtagSystem

/-- The frontend's step seen from the bridge, with the TAP reset released. -/
theorem link_step (s : JtagSystem abits) {t : JtagTick} (ht : t.trstn = true) :
    (s.step t).watched.link = s.watched.link.step ((s.scanTick t).tick s.watched) := by
  rw [watched_step]
  have hresetn : (s.scanTick t).resetn = true := ht
  have hclear : (s.scanTick t).change ≠ .clear := by
    simp only [scanTick, ht, Bool.not_true, Bool.and_false, Bool.false_eq_true, if_false]
    split_ifs <;> exact fun h => by cases h
  cases hc : (s.scanTick t).change with
  | clear => exact absurd hc hclear
  | keep | update | hardreset =>
    simp [Watched.step, Link.step, ScanTick.tick, hc, ScanChange.tick, ScanChange.apply,
      ScanSide.change, hresetn]

/-- The frontend asks for something in this state. -/
def Asks (d : JtagDtm abits) : Prop :=
  d.tapState = .updateDr ∧
    (d.instruction = JTAG_INSTR_DMI ∨
      d.instruction = JTAG_INSTR_DTMCS ∧ d.dtmcsShiftReg.getLsbD 17 = true)

/-- Unless it asks for something the bridge sees the clocks only. -/
theorem tick_still (s : JtagSystem abits) {t : JtagTick} (ht : t.trstn = true)
    (ha : t.tck = true → ¬ Asks s.dtm) : (s.scanTick t).tick s.watched =
      { scanEdge := t.tck, coreEdge := t.core, dbo := t.dbo } := by
  have hc : (s.scanTick t).change = .keep := by
    simp only [scanTick, ht, Bool.not_true, Bool.and_false, Bool.false_eq_true, if_false]
    cases htck : t.tck with
    | false => simp [update, htck]
    | true =>
      have hno := ha htck
      unfold Asks at hno
      have hup : s.update t = false := by
        simp only [update, htck, ht, Bool.true_and, Bool.and_eq_false_iff, decide_eq_false_iff_not]
        tauto
      rw [hup, if_neg Bool.false_ne_true, if_neg]
      simp only [Bool.true_and, Bool.and_eq_true, decide_eq_true_eq]
      tauto
  rw [ScanTick.tick, hc]
  rfl

/-- Update-DR of the DMI register. -/
theorem tick_update (s : JtagSystem abits) {t : JtagTick} (ht : t.trstn = true)
    (htck : t.tck = true) (hs : s.dtm.tapState = .updateDr)
    (hi : s.dtm.instruction = JTAG_INSTR_DMI) : (s.scanTick t).tick s.watched =
      { scanEdge := true, coreEdge := t.core, dbo := t.dbo,
        payload := some s.dtm.dmiShiftReg, flip := true } := by
  have hup : s.update t = true := by simp [update, htck, ht, hs, hi]
  have hc : (s.scanTick t).change = .update s.dtm.dmiShiftReg := by
    simp [scanTick, ht, hup]
  rw [ScanTick.tick, hc]
  simp [ScanChange.tick, scanTick, htck]

end JtagSystem

/-- Core edges, as the bridge sees them. -/
def coreTicks (dbos : List (BitVec 32)) : List (Tick abits) :=
  dbos.map fun dbo => { coreEdge := true, dbo }

namespace CycleClock

/-- The rising `TCK` edge. -/
def riseTick (k : CycleClock) : Tick abits where
  scanEdge := true
  coreEdge := k.rise.isSome
  dbo := k.rise.getD 0

/-- The cycle of a frontend that asks for nothing. -/
def ticks (k : CycleClock) : List (Tick abits) :=
  coreTicks k.low ++ k.riseTick :: (coreTicks k.high ++ coreTicks k.settle)

/-- What `wait_sysclk` sees to. -/
def Settles (k : CycleClock) : Prop := 3 ≤ k.settle.length

end CycleClock

section Ticks

theorem coreTicks_still (dbos : List (BitVec 32)) :
    ∀ t ∈ (coreTicks dbos : List (Tick abits)), t.Still := by
  intro t ht
  obtain ⟨dbo, -, rfl⟩ := List.mem_map.1 ht
  exact ⟨rfl, rfl, rfl⟩

theorem count_coreTicks (dbos : List (BitVec 32)) :
    (coreTicks dbos : List (Tick abits)).countP (·.coreEdge) = dbos.length := by
  have hall : ∀ t ∈ (coreTicks dbos : List (Tick abits)), t.coreEdge = true := by
    intro t ht
    obtain ⟨dbo, -, rfl⟩ := List.mem_map.1 ht
    rfl
  rw [List.countP_eq_length.2 hall, coreTicks, List.length_map]

theorem CycleClock.ticks_still (k : CycleClock) : ∀ t ∈ (k.ticks : List (Tick abits)), t.Still := by
  simp only [ticks, List.mem_append, List.mem_cons]
  rintro t (h | rfl | h | h)
  · exact coreTicks_still _ t h
  · exact ⟨rfl, rfl, rfl⟩
  · exact coreTicks_still _ t h
  · exact coreTicks_still _ t h

theorem CycleClock.count_core (k : CycleClock) :
    k.settle.length ≤ (k.ticks : List (Tick abits)).countP (·.coreEdge) := by
  simp only [ticks, List.countP_append, List.countP_cons, count_coreTicks]
  omega

theorem CycleClock.count_scan (k : CycleClock) :
    1 ≤ (k.ticks : List (Tick abits)).countP (·.scanEdge) := by
  simp only [ticks, List.countP_append, List.countP_cons, riseTick, if_true]
  omega

end Ticks

namespace JtagHost

/-- The log is that of the frontend, and `TDO` shows what it selects. -/
structure Linked (s : JtagHost abits) : Prop where
  link : s.dmi.link = s.sys.watched.link
  tdo : s.tdo = s.sys.dtm.tdoSelect false true

/-- Just before the rising edge of a cycle. -/
def lowered (k : CycleClock) (s : JtagHost abits) : JtagHost abits := s.coreEdges k.low

section Cycle
variable {s : JtagHost abits} {k : CycleClock} {tms tdi : Bool}

theorem coreEdges_dtm (dbos : List (BitVec 32)) : (s.coreEdges dbos).sys.dtm = s.sys.dtm := by
  induction dbos generalizing s with
  | nil => rfl
  | cons dbo dbos ih => exact (ih (s := s.tick { core := true, dbo })).trans rfl

theorem coreEdges_tdo (dbos : List (BitVec 32)) : (s.coreEdges dbos).tdo = s.tdo := by
  induction dbos generalizing s with
  | nil => rfl
  | cons dbo dbos ih => exact (ih (s := s.tick { core := true, dbo })).trans rfl

theorem coreEdges_dmi (dbos : List (BitVec 32)) :
    (s.coreEdges dbos).dmi = (observed abits).runFrom s.dmi (coreTicks dbos) := by
  induction dbos generalizing s with
  | nil => rfl
  | cons dbo dbos ih =>
    have hstill := s.sys.tick_still (t := { core := true, dbo }) rfl
      fun h => absurd h Bool.false_ne_true
    have hstep : (s.tick { core := true, dbo }).dmi = s.dmi.step { coreEdge := true, dbo } :=
      congrArg s.dmi.step hstill
    refine (ih (s := s.tick { core := true, dbo })).trans ?_
    rw [hstep]
    rfl

/-- An instant with the TAP reset released. -/
theorem tick_link {t : JtagTick} (ht : t.trstn = true) (h : s.dmi.link = s.sys.watched.link) :
    (s.tick t).dmi.link = (s.tick t).sys.watched.link := by
  show s.dmi.link.step _ = (s.sys.step t).watched.link
  rw [s.sys.link_step ht, h]

theorem coreEdges_link (dbos : List (BitVec 32)) (h : s.dmi.link = s.sys.watched.link) :
    (s.coreEdges dbos).dmi.link = (s.coreEdges dbos).sys.watched.link := by
  induction dbos generalizing s with
  | nil => exact h
  | cons dbo dbos ih => exact ih (s := s.tick { core := true, dbo }) (tick_link rfl h)

/-- The rising edge does what `tap_actions` does, with what the bridge shows there. -/
theorem cycle_dtm : (s.cycle k tms tdi).sys.dtm = s.sys.dtm.tapActions false true tms tdi
    (s.lowered k).sys.watched.link.pending (s.lowered k).sys.bridge.responsePayload := by
  have hlow : (s.lowered k).sys.dtm = s.sys.dtm := coreEdges_dtm k.low
  rw [← hlow]
  exact (coreEdges_dtm k.settle).trans (coreEdges_dtm k.high)

theorem cycle_linked (h : s.dmi.link = s.sys.watched.link) : (s.cycle k tms tdi).Linked where
  link := coreEdges_link k.settle (coreEdges_link k.high
    (tick_link rfl (coreEdges_link k.low h)))
  tdo := by
    have hdtm : (s.cycle k tms tdi).sys.dtm =
        (((s.lowered k).rise k tms tdi).coreEdges k.high).sys.dtm := coreEdges_dtm k.settle
    rw [hdtm]
    exact coreEdges_tdo k.settle

/-- The log behind a cycle, given what the rising edge adds. -/
theorem cycle_dmi {t : Tick abits} (hrise : ((s.lowered k).rise k tms tdi).dmi =
    (s.lowered k).dmi.step t) : (s.cycle k tms tdi).dmi = (observed abits).runFrom
      (((observed abits).runFrom s.dmi (coreTicks k.low)).step t)
      (coreTicks k.high ++ coreTicks k.settle) := by
  have hhigh : (((s.lowered k).rise k tms tdi).coreEdges k.high).dmi =
      (observed abits).runFrom ((s.lowered k).dmi.step t) (coreTicks k.high) := by
    rw [coreEdges_dmi, hrise]
  have hsettle : (s.cycle k tms tdi).dmi = (observed abits).runFrom
      (((s.lowered k).rise k tms tdi).coreEdges k.high).dmi (coreTicks k.settle) :=
    coreEdges_dmi k.settle
  rw [hsettle, hhigh, lowered, coreEdges_dmi, Clocked.runFrom_append]

/-- The log behind a cycle that asks for nothing. -/
theorem cycle_still (ha : ¬ JtagSystem.Asks s.sys.dtm) :
    (s.cycle k tms tdi).dmi = (observed abits).runFrom s.dmi k.ticks := by
  rw [CycleClock.ticks, Clocked.runFrom_append, Clocked.runFrom_cons]
  refine cycle_dmi (congrArg (s.lowered k).dmi.step ((s.lowered k).sys.tick_still rfl fun _ => ?_))
  rwa [show (s.lowered k).sys.dtm = s.sys.dtm from coreEdges_dtm k.low]

/-- And behind one that updates the DMI register. -/
theorem cycle_update (hs : s.sys.dtm.tapState = .updateDr)
    (hi : s.sys.dtm.instruction = JTAG_INSTR_DMI) :
    (s.cycle k tms tdi).dmi = (observed abits).runFrom
      (((observed abits).runFrom s.dmi (coreTicks k.low)).step
        { (k.riseTick : Tick abits) with payload := some s.sys.dtm.dmiShiftReg, flip := true })
      (coreTicks k.high ++ coreTicks k.settle) := by
  have hlow : (s.lowered k).sys.dtm = s.sys.dtm := coreEdges_dtm k.low
  refine cycle_dmi (congrArg (s.lowered k).dmi.step ?_)
  rw [← hlow] at hs hi ⊢
  exact (s.lowered k).sys.tick_update rfl rfl hs hi

end Cycle

/-- `n` cycles in which the frontend asks for nothing lead from `s` to `s'`. -/
structure Passes (n : ℕ) (s s' : JtagHost abits) : Prop where
  linked : s'.Linked
  cycles : StillCycles n s.dmi s'.dmi

theorem Passes.refl {s : JtagHost abits} (h : s.Linked) : Passes 0 s s := ⟨h, rfl⟩

theorem Passes.trans {m n : ℕ} {s s' s'' : JtagHost abits} (h : Passes m s s')
    (h' : Passes n s' s'') : Passes (m + n) s s'' :=
  ⟨h'.linked, h.cycles.trans h'.cycles⟩

/-- Where the TAP is. -/
structure At (state : TapState) (instruction : BitVec 5) (s : JtagHost abits) : Prop where
  linked : s.Linked
  state : s.sys.dtm.tapState = state
  instruction : s.sys.dtm.instruction = instruction

section Path
variable {clocks : ℕ → CycleClock} {s : JtagHost abits} {state : TapState}
  {instruction : BitVec 5} (tms : Bool)

theorem tapActions_instruction {d : JtagDtm abits} (tms tdi pend : Bool)
    (response : DmiPayload abits) (hir : d.tapState ≠ .updateIr)
    (hreset : d.tapState = .testLogicReset → tms = false) :
    (d.tapActions false true tms tdi pend response).instruction = d.instruction := by
  have hactions : (d.irActions tms tdi).instruction = d.instruction := by
    unfold JtagDtm.irActions
    split_ifs with h <;> first | rfl | exact absurd (hreset h.1) (by simp [h.2])
  rw [JtagDtm.tapActions, Bool.not_true, Bool.or_false, if_neg Bool.false_ne_true]
  refine Eq.trans ?_ hactions
  show (JtagDtm.drActions tdi pend response d (d.irActions tms tdi)).instruction = _
  unfold JtagDtm.drActions
  split_ifs <;> rfl

variable (hclocks : ∀ n, (clocks n).Settles)

include hclocks in
theorem still_passes (h : s.Linked) (ha : ¬ JtagSystem.Asks s.sys.dtm) (tdi : Bool) :
    Passes 1 s (s.jtagCycle clocks tms tdi) := by
  have hk : 3 ≤ (clocks s.cycles).settle.length := hclocks s.cycles
  have hcount : _ ≤ ((clocks s.cycles).ticks : List (Tick abits)).countP _ :=
    (clocks s.cycles).count_core
  exact ⟨cycle_linked h.link, (clocks s.cycles).ticks, ⟨(clocks s.cycles).ticks_still,
    hk.trans hcount, (clocks s.cycles).count_scan⟩, cycle_still ha⟩

variable (h : s.At state instruction)
  (hir : state ≠ .updateIr) (hreset : state = .testLogicReset → tms = false)
include h hir hreset

theorem At.cycle (tdi : Bool) : (s.jtagCycle clocks tms tdi).At
    (state.transition false true tms) instruction := by
  have hdtm : (s.jtagCycle clocks tms tdi).sys.dtm = _ := cycle_dtm
  refine ⟨cycle_linked h.linked.link, ?_, ?_⟩
  · rw [hdtm, ← h.state]
    rfl
  · rw [hdtm, ← h.instruction]
    exact tapActions_instruction _ _ _ _ (by rwa [h.state]) (by rwa [h.state])

omit hir hreset in
include hclocks in
theorem At.passes (tdi : Bool) (hdr : state ≠ .updateDr) :
    Passes 1 s (s.jtagCycle clocks tms tdi) :=
  still_passes tms hclocks h.linked (fun ha => hdr (h.state.symm.trans ha.1)) tdi

include hclocks in
theorem At.move (tdi : Bool) (hdr : state ≠ .updateDr) :
    (s.jtagCycle clocks tms tdi).At (state.transition false true tms) instruction ∧
      Passes 1 s (s.jtagCycle clocks tms tdi) :=
  ⟨h.cycle tms hir hreset tdi, h.passes tms hclocks tdi hdr⟩

end Path

end JtagHost

end BonfireCore.DmiTransport
