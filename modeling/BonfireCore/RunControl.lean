import BonfireCore.Resume

/-! Run control over whole sessions: what the core takes of the program and of the Program Buffer
against what the debugger has asked for. -/
namespace BonfireCore

/-- What happens in a cycle: a word of the program or of the Program Buffer is taken, the debugger
asks for a resume, the hart sees a halt request, or is released from it before it has halted; it
meets an EBREAK, halts, saves dpc with a cause, or resumes, perhaps for one step. -/
structure RunEvent where
  word : Bool
  progbuf : Bool
  asks : Bool
  stops : Bool
  released : Bool
  ebreak : Bool
  halts : Bool
  saved : Option (BitVec 3)
  resumes : Option Bool

/-- Run control for the debugger: a hart that runs, for a single step or until a halt is asked
for, with the words of the program it has taken since its last resume. -/
structure RunControl where
  halted : Bool := false
  stepping : Bool := false
  stopped : Bool := false
  taken : ℕ := 0
  asked : ℕ := 0
  resumed : ℕ := 0

namespace RunControl
variable (r : RunControl) (e : RunEvent)

def step : RunControl where
  halted := if e.resumes.isSome then false else r.halted || e.halts
  stepping := e.resumes.getD r.stepping
  stopped := !e.resumes.isSome && !e.released && (r.stopped || e.stops)
  taken := if e.resumes.isSome then 0 else r.taken + e.word.toNat
  asked := r.asked + e.asks.toNat
  resumed := r.resumed + e.resumes.isSome.toNat

/-- What may happen: no word of the program once a halt is asked for, and one for a step; the
Program Buffer in a halted hart only; a resume for each that is asked for; dpc and cause are
saved where the hart halts. -/
structure Permits : Prop where
  word : e.word = true → r.halted = false ∧ r.stopped = false ∧ e.stops = false ∧
    (r.stepping = true → r.taken = 0)
  progbuf : e.progbuf = true → r.halted = true ∧ e.resumes = none
  resumes : e.resumes.isSome = true → r.halted = true ∧ r.resumed < r.asked
  halts : e.halts = true → r.halted = false
  saved : e.saved.isSome = e.halts
  cause : ∀ cause ∈ e.saved, e.ebreak = true ∧ cause = 1 ∨ e.ebreak = false ∧
    (cause = 3 ∧ r.stopped = true ∨ cause = 4 ∧ r.stepping = true ∧ r.taken = 1)

variable {r e}

theorem step_of_none (h : e.resumes = none) : r.step e =
    { halted := r.halted || e.halts
      stepping := r.stepping
      stopped := !e.released && (r.stopped || e.stops)
      taken := r.taken + e.word.toNat
      asked := r.asked + e.asks.toNat
      resumed := r.resumed } := by
  simp [step, h]

theorem step_of_some {one : Bool} (h : e.resumes = some one) : r.step e =
    { stepping := one
      asked := r.asked + e.asks.toNat
      resumed := r.resumed + 1 } := by
  simp [step, h]

end RunControl

namespace HartDebug
variable {s : HartDebug} {h : HartControl} {csr : DebugCsr} {e : DebugPipelineEvents}

/-- Nothing is saved or acknowledged. -/
def quiet (s : HartDebug) : HartDebug :=
  { s with
    reqAck := false
    redirectValid := false
    update := { s.update with weDpc := false, weCause := false } }

theorem step_running (hs : s.state = .running) : s.step h csr e =
    if e.ebreak then s.quiet.halt e.ebreakPc 1
    else if h.haltreq then { s.quiet with state := .haltPending } else s.quiet := by
  simp [step, quiet, hs]

theorem step_haltPending (hs : s.state = .haltPending) : s.step h csr e =
    if !h.dmactive then { s.quiet with state := .running }
    else if e.ebreak then s.quiet.halt e.ebreakPc 1
    else if e.pipelineEmpty then { s.quiet.halt e.nextPc 3 with reqAck := true } else s.quiet := by
  simp [step, quiet, hs]

theorem step_stepIssue (hs : s.state = .stepIssue) : s.step h csr e =
    if e.ebreak then s.quiet.halt e.ebreakPc 1
    else if e.instructionAccepted then { s.quiet with state := .stepWait } else s.quiet := by
  simp [step, quiet, hs]

theorem step_stepWait (hs : s.state = .stepWait) : s.step h csr e =
    if e.ebreak then s.quiet.halt e.ebreakPc 1
    else if e.instructionComplete then s.quiet.halt e.nextPc 4 else s.quiet := by
  simp [step, quiet, hs]

end HartDebug

/-- The system with its run control. -/
structure RunWatch (c : CoreConfig) where
  sys : DebugSystem c
  control : RunControl := {}

namespace RunWatch
variable {c : CoreConfig} (w : RunWatch c) (i : DebugSystemInput c)

def hart : HartDebug := w.sys.core.hart

def nextHart : HartDebug := (w.sys.step i).core.hart

def event : RunEvent where
  word := (w.sys.core.events c (w.sys.coreInput i)).instructionAccepted
  progbuf := (w.sys.core.progbufCompletion c (w.sys.coreInput i)).accepted
  asks := w.sys.debug.dm.dmactive &&
    w.sys.debug.dm.resumes w.sys.debug.cmd (w.sys.dmInput i).hart i.access
  stops := w.hart.state = .running && w.sys.debug.dm.haltreq
  released := w.hart.state = .haltPending && !w.sys.debug.dm.dmactive
  ebreak := (w.sys.core.events c (w.sys.coreInput i)).ebreak
  halts := w.hart.state ≠ .halted && (w.nextHart i).state = .halted
  saved :=
    if (w.nextHart i).update.weDpc && (w.nextHart i).update.weCause then
      some (w.nextHart i).update.cause
    else none
  resumes :=
    if w.hart.state = .halted && (w.nextHart i).state ≠ .halted then some w.sys.core.csr.step
    else none

def step : RunWatch c where
  sys := w.sys.step i
  control := w.control.step (w.event i)

def machine (c : CoreConfig) : Clocked (RunWatch c) (DebugSystemInput c) where
  init := { sys := DebugSystem.reset c }
  step := step

/-- Run control in each state of the hart. -/
def Stands (r : RunControl) : HartDebugState → Prop
  | .running => r.halted = false ∧ r.stepping = false ∧ r.stopped = false
  | .haltPending => r.halted = false ∧ r.stepping = false ∧ r.stopped = true
  | .halted => r.halted = true ∧ (r.stepping = true → r.taken ≤ 1)
  | .stepIssue => r.halted = false ∧ r.stepping = true ∧ r.stopped = false ∧ r.taken = 0
  | .stepWait => r.halted = false ∧ r.stepping = true ∧ r.stopped = false ∧ r.taken = 1

/-- A request that no resume has answered yet. -/
def outstanding : Bool := w.sys.debug.dm.resumereq && !w.hart.redirectValid

structure Inv : Prop where
  handshake : w.sys.Handshake
  stands : Stands w.control w.hart.state
  requests : w.control.resumed + w.outstanding.toNat ≤ w.control.asked

variable {w i}

theorem inv_init : (machine c).init.Inv where
  handshake := DebugSystem.handshake_reset
  stands := ⟨rfl, rfl, rfl⟩
  requests := Nat.le_refl 0

/-- A request that a halted hart sees has not been answered. -/
theorem Inv.asked_of_request (h : w.Inv) (hv : w.hart.redirectValid = false)
    (hreq : w.sys.debug.dm.resumereq = true) : w.control.resumed < w.control.asked := by
  have hcount := h.requests
  rw [outstanding, hreq, hv] at hcount
  exact hcount

theorem Inv.redirect_off (h : w.Inv) (hs : w.hart.state = .halted) :
    w.hart.redirectValid = false := by
  by_contra hv
  exact (h.handshake.redirect (Bool.eq_true_of_not_eq_false hv)).1 hs

/-- A word of the program is taken where the hart may fetch. -/
theorem allowFetch_of_word (hw : (w.event i).word = true) :
    w.hart.state = .running ∧ w.sys.debug.dm.haltreq = false ∨ w.hart.state = .stepIssue := by
  have hallow : w.hart.allowFetch w.sys.control = true :=
    (DebugCore.accepted_of_normal (s := w.sys.core) hw).2.2.1
  have hreq : w.sys.control.haltreq = w.sys.debug.dm.haltreq := rfl
  unfold HartDebug.allowFetch at hallow
  rw [hreq] at hallow
  cases hs : w.hart.state <;> simp_all

/-- A word of the Program Buffer is that of a command, in a halted hart. -/
theorem halted_of_progbuf (h : w.Inv) (hp : (w.event i).progbuf = true) :
    w.hart.state = .halted ∧ w.sys.debug.busy = true := by
  have hissuing : w.sys.debug.cmd.issuing = true := by
    have hsource : DebugCore.progbufSource (w.sys.coreInput i) = true :=
      (Bool.and_eq_true _ _ ▸ hp : _ ∧ _).2
    exact (Bool.and_eq_true _ _ ▸ hsource : _ ∧ _).1
  constructor
  · by_contra hs
    have hoff : w.sys.debug.cmd.issuing = false := h.handshake.not_issuing (i := i) hs
    rw [hoff] at hissuing
    exact Bool.false_ne_true hissuing
  · have hcmd : w.sys.debug.cmd.state ≠ .none := by
      intro hnone
      simp [AbstractCommand.issuing, hnone] at hissuing
    simp [DmState.busy, DebugModule.commandBusy, hcmd]

theorem nextHart_eq : w.nextHart i = w.hart.step w.sys.control w.sys.core.csr
    (w.sys.core.events c (w.sys.coreInput i)) := DebugSystem.step_hart

/-- A halted hart is resumed where it sees a request. -/
theorem resumes_eq (hs : w.hart.state = .halted) : (w.event i).resumes =
    if w.sys.debug.dm.resumereq then some w.sys.core.csr.step else none := by
  have hstate : (w.nextHart i).state ≠ .halted ↔ w.sys.debug.dm.resumereq = true := by
    rw [nextHart_eq]
    cases hr : w.sys.debug.dm.resumereq with
    | true =>
      rw [HartDebug.step_resume hs (h := w.sys.control) hr, HartDebug.resume]
      cases w.sys.core.csr.step <;> simp
    | false => simp [HartDebug.step_halted hs (h := w.sys.control) hr, hs]
  simp [event, hs, hstate]

theorem resumes_none (hs : w.hart.state ≠ .halted) : (w.event i).resumes = none := by
  simp [event, hs]

/-- What the hart saves where it halts. -/
theorem saved_eq (hs : w.hart.state ≠ .halted) :
    (w.event i).saved.isSome = (w.event i).halts ∧
      ∀ cause ∈ (w.event i).saved, (w.event i).ebreak = true ∧ cause = 1 ∨
        (w.event i).ebreak = false ∧ (cause = 3 ∧ w.hart.state = .haltPending ∨
          cause = 4 ∧ w.hart.state = .stepWait) := by
  have hnext := nextHart_eq (w := w) (i := i)
  cases hst : w.hart.state with
  | running =>
    rw [HartDebug.step_running hst] at hnext
    split_ifs at hnext with hebreak <;>
      simp [event, hnext, hst, HartDebug.halt, HartDebug.quiet, hebreak]
  | haltPending =>
    rw [HartDebug.step_haltPending hst] at hnext
    split_ifs at hnext with hactive hebreak
    · simp [event, hnext, hst, HartDebug.quiet]
    all_goals simp [event, hnext, hst, HartDebug.halt, HartDebug.quiet, hebreak]
  | halted => exact absurd hst hs
  | stepIssue =>
    rw [HartDebug.step_stepIssue hst] at hnext
    split_ifs at hnext with hebreak <;>
      simp [event, hnext, hst, HartDebug.halt, HartDebug.quiet, hebreak]
  | stepWait =>
    rw [HartDebug.step_stepWait hst] at hnext
    split_ifs at hnext with hebreak <;>
      simp [event, hnext, hst, HartDebug.halt, HartDebug.quiet, hebreak]

/-- A halted hart saves nothing. -/
theorem saved_none (hs : w.hart.state = .halted) :
    (w.event i).saved = none ∧ (w.event i).halts = false := by
  have hnext := nextHart_eq (w := w) (i := i)
  cases hr : w.sys.debug.dm.resumereq with
  | true =>
    rw [HartDebug.step_resume hs (h := w.sys.control) hr, HartDebug.resume] at hnext
    simp [event, hnext, hs]
  | false =>
    rw [HartDebug.step_halted hs (h := w.sys.control) hr] at hnext
    simp [event, hnext, hs]

theorem Inv.permits (h : w.Inv) : w.control.Permits (w.event i) := by
  have hstands := h.stands
  constructor
  · intro hw
    rcases allowFetch_of_word hw with ⟨hs, hreq⟩ | hs
    · rw [hs] at hstands
      obtain ⟨hhalted, hstepping, hstopped⟩ := hstands
      refine ⟨hhalted, hstopped, ?_, fun hstep => ?_⟩
      · simp [event, hreq]
      · exact absurd (hstepping.symm.trans hstep) Bool.false_ne_true
    · rw [hs] at hstands
      obtain ⟨hhalted, -, hstopped, htaken⟩ := hstands
      refine ⟨hhalted, hstopped, ?_, fun _ => htaken⟩
      simp [event, hs]
  · intro hp
    obtain ⟨hs, hbusy⟩ := halted_of_progbuf h hp
    have hreq : w.sys.debug.dm.resumereq = false := by
      by_contra hr
      have hfree := (h.handshake.ready hs (Bool.eq_true_of_not_eq_false hr)).2.1
      exact Bool.false_ne_true (hfree.symm.trans hbusy)
    rw [hs] at hstands
    refine ⟨hstands.1, ?_⟩
    rw [resumes_eq hs, hreq, if_neg Bool.false_ne_true]
  · intro hr
    by_cases hs : w.hart.state = .halted
    · rw [resumes_eq hs] at hr
      have hreq : w.sys.debug.dm.resumereq = true := by
        by_contra hoff
        rw [if_neg hoff] at hr
        exact Bool.false_ne_true hr
      rw [hs] at hstands
      exact ⟨hstands.1, h.asked_of_request (h.redirect_off hs) hreq⟩
    · rw [resumes_none hs] at hr
      exact absurd hr Bool.false_ne_true
  · intro hh
    have hs : w.hart.state ≠ .halted := of_decide_eq_true (Bool.and_eq_true _ _ ▸ hh : _ ∧ _).1
    cases hst : w.hart.state with
    | halted => exact absurd hst hs
    | running | haltPending | stepIssue | stepWait =>
      rw [hst] at hstands
      exact hstands.1
  · by_cases hs : w.hart.state = .halted
    · obtain ⟨hsaved, hhalts⟩ := saved_none (i := i) hs
      rw [hsaved, hhalts]
      rfl
    · exact (saved_eq hs).1
  · intro cause hcause
    by_cases hs : w.hart.state = .halted
    · rw [(saved_none (i := i) hs).1] at hcause
      exact absurd hcause (Option.not_mem_none cause)
    · rcases (saved_eq hs).2 cause hcause with hone | ⟨hnone, ⟨hthree, hst⟩ | ⟨hfour, hst⟩⟩
      · exact .inl hone
      · rw [hst] at hstands
        exact .inr ⟨hnone, .inl ⟨hthree, hstands.2.2⟩⟩
      · rw [hst] at hstands
        exact .inr ⟨hnone, .inr ⟨hfour, hstands.2.1, hstands.2.2.2⟩⟩

/-- Outside a halt only the states that hart control goes through differ. -/
theorem control_eq (hs : w.hart.state ≠ .halted) : w.control.step (w.event i) =
    { halted := w.control.halted || decide ((w.nextHart i).state = .halted)
      stepping := w.control.stepping
      stopped := !(w.event i).released && (w.control.stopped || (w.event i).stops)
      taken := w.control.taken + (w.event i).word.toNat
      asked := w.control.asked + (w.event i).asks.toNat
      resumed := w.control.resumed } := by
  have hhalts : (w.event i).halts = decide ((w.nextHart i).state = .halted) := by
    simp [event, hs]
  rw [RunControl.step_of_none (resumes_none hs), hhalts]

theorem word_off (hs : w.hart.state ≠ .running) (hs' : w.hart.state ≠ .stepIssue) :
    (w.event i).word = false := by
  by_contra hw
  rcases allowFetch_of_word (Bool.eq_true_of_not_eq_false hw) with ⟨hst, -⟩ | hst
  · exact hs hst
  · exact hs' hst

/-- Where the hart stands after a cycle. -/
theorem Inv.stands_step (h : w.Inv) :
    Stands (w.control.step (w.event i)) (w.nextHart i).state := by
  have hstands := h.stands
  have hnext := nextHart_eq (w := w) (i := i)
  cases hst : w.hart.state with
  | running =>
    rw [hst] at hstands
    obtain ⟨hhalted, hstepping, hstopped⟩ := hstands
    have hstops : (w.event i).stops = w.sys.debug.dm.haltreq := by simp [event, hst]
    have hreleased : (w.event i).released = false := by simp [event, hst]
    rw [HartDebug.step_running hst] at hnext
    rw [control_eq (by simp [hst]), hreleased, hstops]
    split_ifs at hnext with hebreak hreq
    · simp [hnext, Stands, HartDebug.halt, hstepping]
    · have hreq : w.sys.debug.dm.haltreq = true := hreq
      simp [hnext, Stands, hhalted, hstepping, hreq]
    · have hreq : w.sys.debug.dm.haltreq = false := Bool.eq_false_iff.2 hreq
      simp [hnext, hst, Stands, HartDebug.quiet, hhalted, hstepping, hstopped, hreq]
  | haltPending =>
    rw [hst] at hstands
    obtain ⟨hhalted, hstepping, hstopped⟩ := hstands
    have hreleased : (w.event i).released = !w.sys.control.dmactive := by
      simp [event, hst, DebugSystem.control]
    rw [HartDebug.step_haltPending hst] at hnext
    rw [control_eq (by simp [hst]), hreleased]
    split_ifs at hnext with hoff hebreak hempty
    · simp [hnext, Stands, hhalted, hstepping, hoff]
    · simp [hnext, Stands, HartDebug.halt, hstepping]
    · simp [hnext, Stands, HartDebug.halt, hstepping]
    · simp [hnext, hst, Stands, HartDebug.quiet, hhalted, hstepping, hstopped, hoff]
  | halted =>
    rw [hst] at hstands
    obtain ⟨hhalted, htaken⟩ := hstands
    have hresumes := resumes_eq (i := i) hst
    cases hr : w.sys.debug.dm.resumereq with
    | true =>
      rw [HartDebug.step_resume hst (h := w.sys.control) hr, HartDebug.resume] at hnext
      rw [hr, if_pos rfl] at hresumes
      rw [RunControl.step_of_some hresumes]
      cases hone : w.sys.core.csr.step <;> simp [hnext, hone, Stands]
    | false =>
      rw [HartDebug.step_halted hst (h := w.sys.control) hr] at hnext
      rw [hr, if_neg Bool.false_ne_true] at hresumes
      rw [RunControl.step_of_none hresumes,
        word_off (by simp [hst]) (by simp [hst])]
      simpa [hnext, hst, Stands, hhalted] using htaken
  | stepIssue =>
    rw [hst] at hstands
    obtain ⟨hhalted, hstepping, hstopped, htaken⟩ := hstands
    have hstops : (w.event i).stops = false := by simp [event, hst]
    have hle := Bool.toNat_le (w.event i).word
    rw [HartDebug.step_stepIssue hst] at hnext
    rw [control_eq (by simp [hst]), hstops]
    split_ifs at hnext with hebreak haccepted
    · simp [hnext, Stands, HartDebug.halt, htaken, hle]
    · have hword : (w.event i).word = true := haccepted
      simp [hnext, Stands, hhalted, hstepping, hstopped, htaken, hword]
    · have hword : (w.event i).word = false := Bool.eq_false_iff.2 haccepted
      simp [hnext, hst, Stands, HartDebug.quiet, hhalted, hstepping, hstopped, htaken, hword]
  | stepWait =>
    rw [hst] at hstands
    obtain ⟨hhalted, hstepping, hstopped, htaken⟩ := hstands
    have hstops : (w.event i).stops = false := by simp [event, hst]
    have hword := word_off (w := w) (i := i) (by simp [hst]) (by simp [hst])
    rw [HartDebug.step_stepWait hst] at hnext
    rw [control_eq (by simp [hst]), hstops, hword]
    split_ifs at hnext
    · simp [hnext, Stands, HartDebug.halt, htaken]
    · simp [hnext, Stands, HartDebug.halt, htaken]
    · simp [hnext, hst, Stands, HartDebug.quiet, hhalted, hstepping, hstopped, htaken]

theorem Inv.requests_step (h : w.Inv) : (w.step i).control.resumed +
    (w.step i).outstanding.toNat ≤ (w.step i).control.asked := by
  have hcount := h.requests
  have hasked : (w.step i).control.asked = w.control.asked + (w.event i).asks.toNat := rfl
  by_cases htaken : w.hart.state = .halted ∧ w.sys.debug.dm.resumereq = true
  · obtain ⟨hs, hreq⟩ := htaken
    have hresumes := resumes_eq (i := i) hs
    rw [hreq, if_pos rfl] at hresumes
    have hresumed : (w.step i).control.resumed = w.control.resumed + 1 := by
      show (w.control.step (w.event i)).resumed = _
      rw [RunControl.step_of_some hresumes]
    have hvalid : (w.step i).hart.redirectValid = true :=
      DebugSystem.redirect_iff.2 ⟨hs, hreq⟩
    have hlt := h.asked_of_request (h.redirect_off hs) hreq
    rw [outstanding, hvalid, hresumed, hasked, Bool.not_true, Bool.and_false, Bool.toNat_false]
    omega
  · have hnone : (w.event i).resumes = none := by
      by_cases hs : w.hart.state = .halted
      · rw [resumes_eq hs, if_neg fun hreq => htaken ⟨hs, hreq⟩]
      · exact resumes_none hs
    have hresumed : (w.step i).control.resumed = w.control.resumed := by
      show (w.control.step (w.event i)).resumed = _
      rw [RunControl.step_of_none hnone]
    rw [hresumed, hasked]
    cases hout : (w.step i).outstanding with
    | false =>
      rw [Bool.toNat_false]
      omega
    | true =>
      have hreq : (w.sys.step i).debug.dm.resumereq = true :=
        (Bool.and_eq_true _ _ ▸ hout : _ ∧ _).1
      obtain ⟨hactive, ⟨hasks, -⟩ | ⟨hold, hack⟩⟩ := DebugModule.step_resumereq hreq
      · have hasks : (w.event i).asks = true := by
          show (_ && _) = true
          rw [hactive, Bool.true_and]
          exact hasks
        rw [hasks, Bool.toNat_true]
        omega
      · have hvalid : w.hart.redirectValid = false := by
          by_contra hv
          have hset := (h.handshake.redirect (Bool.eq_true_of_not_eq_false hv)).2.2
          exact Bool.false_ne_true (hack.symm.trans hset)
        have hlt := h.asked_of_request hvalid hold
        rw [Bool.toNat_true]
        omega

theorem Inv.step (h : w.Inv) : (w.step i).Inv :=
  ⟨h.handshake.step, h.stands_step, h.requests_step⟩

/-- A step takes one word at most. -/
theorem Inv.taken_le (h : w.Inv) (hstepping : w.control.stepping = true) :
    w.control.taken ≤ 1 := by
  have hstands := h.stands
  cases hst : w.hart.state <;> rw [hst] at hstands <;> simp_all [Stands]

/-- The hart is halted where run control says so. -/
theorem Inv.halted_eq (h : w.Inv) : w.control.halted = w.sys.halted := by
  have hstands := h.stands
  have hhalted : w.sys.halted = decide (w.hart.state = .halted) := rfl
  rw [hhalted]
  cases hst : w.hart.state <;> rw [hst] at hstands <;> simp_all [Stands]

/-- Over any session, whatever the debugger asks for and the buses answer. -/
theorem run_controlled (c : CoreConfig) (is : List (DebugSystemInput c)) :
    (machine c).Along (fun w i => w.control.Permits (w.event i)) (machine c).init is ∧
      ((machine c).run is).control.halted = ((machine c).run is).sys.halted ∧
      (((machine c).run is).control.stepping = true → ((machine c).run is).control.taken ≤ 1) ∧
      ((machine c).run is).control.resumed ≤ ((machine c).run is).control.asked := by
  have hall : (machine c).Along (fun _ _ => True) (machine c).init is :=
    Clocked.along_of_inv (fun _ => True) (fun _ _ _ => trivial) (fun _ _ _ => trivial) trivial
  have hinv : ((machine c).run is).Inv :=
    hall.invariant Inv (fun _ _ h _ => h.step) inv_init
  exact ⟨Clocked.along_of_inv Inv (fun _ _ h => h.step) (fun _ _ h => h.permits) inv_init,
    hinv.halted_eq, hinv.taken_le, (Nat.le_add_right _ _).trans hinv.requests⟩

end RunWatch
end BonfireCore
