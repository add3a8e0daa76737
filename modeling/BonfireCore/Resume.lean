import BonfireCore.DebugSystem
import BonfireCore.FetchRestart

/-! The first instruction after a resume. Hart control redirects Fetch for one cycle; whatever
Fetch, Decode and Execute keep from before the halt has to give way to it. -/
namespace BonfireCore

namespace Execute
variable (c : CoreConfig) (s : Execute) (i : ExecuteInput)

/-- The jump Execute asks for from the next cycle on, until it takes another instruction. -/
def holdsJump : Bool := if s.taken c i then (s.jumpOut c i).jump else s.jumpR

def heldDest : Word := if s.taken c i then (s.jumpOut c i).jumpDest else s.jumpDestR

end Execute

/-- The system, with what its instruction bus owes, the age of the words in Fetch, and the start
that is awaited after a resume. -/
structure ResumeWatch (c : CoreConfig) where
  sys : DebugSystem c
  owed : Option Owed := none
  tags : Fetch.Tags := {}
  resumed : Option Awaited := none

/-- A cycle, and what the instruction memory holds in it. -/
structure ResumeInput (c : CoreConfig) where
  sys : DebugSystemInput c := {}
  mem : Word → Word

namespace ResumeWatch
variable {c : CoreConfig} (w : ResumeWatch c) (i : ResumeInput c)

def hart : HartDebug := w.sys.core.hart

def fetch : Fetch := w.sys.core.fetch

def coreInput : DebugCoreInput := w.sys.coreInput i.sys

def fetchInput : FetchInput := w.sys.core.fetchInput c (w.coreInput i)

/-- Decode takes an instruction of the program. -/
def accepts : Bool := (w.sys.core.events c (w.coreInput i)).instructionAccepted

/-- A reset of the core ends what the bus owes, and no resume is awaited after it. -/
def step : ResumeWatch c :=
  if w.sys.coreReset i.sys then { sys := w.sys.step i.sys }
  else
    { sys := w.sys.step i.sys
      owed := stepOwed i.mem w.owed (w.fetch.request (w.fetchInput i)) i.sys.ibus
        w.hart.redirectValid
      tags := w.tags.step w.owed w.fetch (w.fetchInput i) w.hart.redirectValid
      resumed :=
        if w.sys.halted && w.sys.debug.dm.resumereq then some { pc := w.sys.core.csr.dpc ++ 0#2 }
        else if w.accepts i then none
        else w.resumed.map fun r => { r with words := i.mem r.pc :: r.words } }

def machine (c : CoreConfig) : Clocked (ResumeWatch c) (ResumeInput c) where
  init := { sys := DebugSystem.reset c }
  step := step

/-- The redirect reaches Fetch, or finds it where it leads to; and a jump that Execute still
asks for leads there too. -/
structure Heard : Prop where
  target : w.sys.core.backend.execute.holdsJump c (w.sys.core.executeInput c (w.coreInput i)) =
    true → w.sys.core.backend.execute.heldDest c (w.sys.core.executeInput c (w.coreInput i)) =
      w.hart.redirectPc
  fetch : w.fetch.redirects (w.fetchInput i) = true ∨ w.fetch.StandsAt w.hart.redirectPc ∨
    w.fetch.Waits ∧ w.owed.isSome = true ∧
      w.sys.core.backend.execute.holdsJump c (w.sys.core.executeInput c (w.coreInput i)) = true

/-- What a cycle may bring: a bus that answers in order and later, and a redirect that is heard
with no register transfer requested. -/
structure Allowed : Prop where
  bus : ReadsInOrder i.mem w.owed (w.fetch.request (w.fetchInput i)) i.sys.ibus
  command : w.hart.redirectValid = true → w.sys.debug.dm.pendingTransfer = false
  heard : w.hart.redirectValid = true → w.sys.coreReset i.sys = false → w.Heard i

instance : Decidable (w.Heard i) :=
  decidable_of_iff (_ ∧ _) ⟨fun h => ⟨h.1, h.2⟩, fun h => ⟨h.target, h.fetch⟩⟩

instance : Decidable (w.Allowed i) :=
  decidable_of_iff (_ ∧ (_ → _) ∧ (_ → _ → _))
    ⟨fun h => ⟨h.1, h.2.1, h.2.2⟩, fun h => ⟨h.bus, h.command, h.heard⟩⟩

/-- What the debugger relies on. -/
structure Restarts : Prop where
  redirect : w.hart.state = .halted → w.sys.debug.dm.resumereq = true →
    w.hart.update.weDpc = false ∧ (w.step i).hart.redirectValid = true ∧
      (w.step i).hart.redirectPc = w.sys.core.csr.dpc ++ 0#2
  ack : w.hart.redirectValid = true → w.sys.debug.dm.dmactive = true →
    (w.step i).sys.debug.dm.resumeack = true
  first : w.accepts i = true → ∀ r, w.resumed = some r →
    w.fetch.currentIp0 = r.pc ∧ w.fetch.currentWord0 ∈ r.words
  fresh : w.accepts i = true → w.tags.word0 = true ∧ w.sys.control.transfer.valid = false

end ResumeWatch

namespace Execute
variable {c : CoreConfig} {s : Execute} {i : ExecuteInput}

theorem step_jumpR : (s.step c i).jumpR = s.holdsJump c i := rfl

theorem step_jumpDestR : (s.step c i).jumpDestR = s.heldDest c i := rfl

end Execute

namespace Backend
variable {c : CoreConfig} {s : Backend} {i : BackendInput}

/-- With nothing in Decode, Execute asks for the jump it holds. -/
theorem jump_of_empty (h : s.decode.valid = false) :
    s.taken c i = false ∧ s.busyO c i = false ∧ s.jumpO c i = s.execute.jumpR ∧
      s.jumpDestO c i = s.execute.jumpDestR := by
  have ht : s.execute.taken c (s.executeInput c i) = false := by
    simp [Execute.taken, executeInput, h]
  refine ⟨ht, by simp [busyO, Decode.busy, h], ?_, ?_⟩
  · simp [jumpO, Execute.jumpO, ht]
  · simp [jumpDestO, Execute.jumpDestO, ht]

end Backend

namespace DebugSystem
variable {c : CoreConfig} {s : DebugSystem c} {i : DebugSystemInput c}

/-- A running hart is offered no Program Buffer word. -/
theorem Handshake.not_issuing (h : s.Handshake) (hh : s.core.hart.state ≠ .halted) :
    (s.coreInput i).control.progbufValid = false := by
  show s.debug.cmd.issuing = false
  simp [AbstractCommand.issuing, h.command hh]

theorem transfer_off (h : s.debug.dm.pendingTransfer = false) :
    s.control.transfer.valid = false := by
  simp only [DebugModule.pendingTransfer, Bool.and_eq_false_iff] at h
  rcases h with h | h <;> simp [control, DebugModule.commandRequest, h]

theorem step_core (hr : s.coreReset i = false) :
    (s.step i).core = s.core.step c (s.coreInput i) := by
  simp [step, hr]

end DebugSystem

namespace DebugCore
variable {c : CoreConfig} {s : DebugCore} {i : DebugCoreInput}

/-- What Decode accepts of the program comes from Fetch, while the hart may fetch. -/
theorem accepted_of_normal (h : (s.events c i).instructionAccepted = true) :
    i.control.progbufValid = false ∧ s.fetch.valid = true ∧
      s.hart.allowFetch i.control = true ∧ s.hart.redirectValid = false := by
  simp only [events, accepted, sourceValid, progbufSource, Bool.and_eq_true,
    Bool.not_eq_true'] at h
  obtain ⟨⟨hs, -⟩, hp⟩ := h
  cases hpv : i.control.progbufValid with
  | true => simp_all
  | false =>
    rw [hpv] at hs
    simp only [Bool.false_eq_true, if_false, Bool.and_eq_true, Bool.not_eq_true'] at hs
    exact ⟨rfl, hs.1.1.1, hs.1.1.2, hs.2⟩

theorem allowFetch_not_halted {h : HartControl} (ha : s.hart.allowFetch h = true) :
    s.hart.state ≠ .halted := by
  intro hh
  simp [HartDebug.allowFetch, hh] at ha

theorem step_jumpR : (s.step c i).backend.execute.jumpR =
    s.backend.execute.holdsJump c (s.executeInput c i) := rfl

theorem step_jumpDestR : (s.step c i).backend.execute.jumpDestR =
    s.backend.execute.heldDest c (s.executeInput c i) := rfl

/-- Decode is empty after a cycle in which it accepts nothing and is offered no transfer. -/
theorem step_decode_empty (ht : i.control.transfer.valid = false)
    (hs : s.flush c i = true ∨ s.backend.decode.valid = false ∧ s.sourceValid i = false) :
    (s.step c i).backend.decode.valid = false := by
  show (s.backend.decode.step _ _ (s.source i) i.control.transfer).valid = false
  unfold Decode.step
  rw [ht, Bool.false_and, if_neg Bool.false_ne_true]
  rcases hs with hf | ⟨hd, hsource⟩
  · have hkill : s.backend.execute.kill c
        (s.backend.executeInput c (s.backendInput c i)) = true := by
      simp [Execute.kill, Backend.executeInput, backendInput, hf]
    rw [if_pos hkill]
  · split_ifs
    · rfl
    · exact hd
    · simp_all [source]
    · rfl

section Empty
variable (hp : i.control.progbufValid = false) (hv : s.hart.redirectValid = false)
  (hd : s.backend.decode.valid = false)
include hp hv hd

/-- With an empty Decode, Fetch sees the jump that Execute holds, and stalls where the hart may
not fetch. -/
theorem fetchInput_of_empty : s.fetchInput c i =
    { stall := !s.hart.allowFetch i.control
      jump := s.backend.execute.jumpR
      jumpDest := s.backend.execute.jumpDestR
      ibus := i.ibus } := by
  obtain ⟨-, hbusy, hjump, hdest⟩ :=
    Backend.jump_of_empty (s := s.backend) (c := c) (i := s.unflushed i) hd
  simp [fetchInput, busyO, executeJump, executeJumpDest, hbusy, hjump, hdest, hp, hv]

theorem accepted_of_empty : (s.events c i).instructionAccepted = s.sourceValid i ∧
    s.sourceValid i =
      (s.fetch.valid && s.hart.allowFetch i.control && !s.fetch.redirectPending) := by
  obtain ⟨-, hbusy, -⟩ :=
    Backend.jump_of_empty (s := s.backend) (c := c) (i := s.unflushed i) hd
  constructor
  · simp [events, accepted, busyO, hbusy, progbufSource, hp]
  · simp [sourceValid, hp, hv]

end Empty

/-- In the cycle of the redirect Fetch is told to jump, and Decode is emptied. -/
theorem fetchInput_of_redirect (hv : s.hart.redirectValid = true) :
    s.fetchInput c i =
      { stall := true, jump := true, jumpDest := s.hart.redirectPc, ibus := i.ibus } := by
  simp [fetchInput, hv]

end DebugCore

namespace ResumeWatch
variable {c : CoreConfig} {w : ResumeWatch c} {i : ResumeInput c}

/-- Decode is empty, and the jump that Execute holds leads to `pc`, where Fetch has gone. -/
structure Quiet (pc : Word) (s : DebugCore) : Prop where
  decode : s.backend.decode.valid = false
  jump : s.backend.execute.jumpR = true →
    s.backend.execute.jumpDestR = pc ∧ (s.fetch.jumpTaken = true ∨ s.fetch.valid = true)

/-- Where a running hart is on its way to the awaited word: Fetch leads to it, or still waits
for an old answer before it follows the jump that Execute holds. -/
inductive Settled (w : ResumeWatch c) : Prop
  | leads (fresh : w.fetch.Fresh w.owed w.tags)
      (awaits : ∀ r, w.resumed = some r →
        w.fetch.Leads r w.owed ∧ Quiet r.pc w.sys.core)
  | waits (pc : Word) (target : ∀ r, w.resumed = some r → r.pc = pc) (waits : w.fetch.Waits)
      (decode : w.sys.core.backend.decode.valid = false)
      (jump : w.sys.core.backend.execute.jumpR = true)
      (dest : w.sys.core.backend.execute.jumpDestR = pc)

structure Inv (w : ResumeWatch c) : Prop where
  handshake : w.sys.Handshake
  ledger : w.fetch.Ledger w.owed
  start : w.fetch.run = false →
    w.sys.core.backend.execute.jumpR = false ∧ w.sys.core.backend.decode.valid = false
  command : w.hart.state ≠ .halted → w.hart.redirectValid = false →
    w.sys.debug.dm.pendingTransfer = false
  target : w.hart.redirectValid = true → ∀ r, w.resumed = some r → r.pc = w.hart.redirectPc
  settled : w.hart.state ≠ .halted → w.hart.redirectValid = false → w.Settled

theorem settled_of_empty {pc : Word} (htarget : ∀ r, w.resumed = some r → r.pc = pc)
    (howed : w.owed = none) (hvalid : w.fetch.valid = false) (hbusy : w.fetch.busy = false)
    (hip : w.fetch.ip = pc) (hd : w.sys.core.backend.decode.valid = false)
    (hj : w.sys.core.backend.execute.jumpR = true →
      w.sys.core.backend.execute.jumpDestR = pc ∧ w.fetch.jumpTaken = true) : w.Settled := by
  refine .leads (.of_empty howed hvalid hbusy) fun r hres => ?_
  rw [htarget r hres]
  refine ⟨.of_empty hvalid hbusy
    (fun o ho => absurd (ho.symm.trans howed) (Option.some_ne_none o)) fun _ => ?_, hd, fun h => ?_⟩
  · exact hip.trans (htarget r hres).symm
  · exact ⟨(hj h).1, .inl (hj h).2⟩

theorem settled_reset (hr : w.sys.coreReset i.sys = true) : (w.step i).Settled := by
  have hstep : w.step i = { sys := w.sys.step i.sys } := by simp [step, hr]
  have hfetch : (w.sys.step i.sys).core.fetch = Fetch.reset c := by
    simp [DebugSystem.step, hr, DebugCore.resetStep]
  rw [hstep]
  refine .leads ?_ nofun
  show Fetch.Fresh none _ (w.sys.step i.sys).core.fetch
  rw [hfetch]
  exact .of_empty rfl rfl rfl

section NoReset
variable (hr : w.sys.coreReset i.sys = false)
include hr

theorem step_sys : (w.step i).sys.core = w.sys.core.step c (w.coreInput i) := by
  have hsys : (w.step i).sys = w.sys.step i.sys := by simp [step, hr]
  rw [hsys]
  exact DebugSystem.step_core hr

theorem step_fetch : (w.step i).fetch = w.fetch.step (w.fetchInput i) :=
  congrArg DebugCore.fetch (step_sys hr)

theorem step_owed : (w.step i).owed =
    stepOwed i.mem w.owed (w.fetch.request (w.fetchInput i)) (w.fetchInput i).ibus
      w.hart.redirectValid := by
  simp only [step, hr, Bool.false_eq_true, if_false]
  rfl

theorem step_tags : (w.step i).tags =
    w.tags.step w.owed w.fetch (w.fetchInput i) w.hart.redirectValid := by
  simp [step, hr]

theorem step_resumed (hh : w.hart.state ≠ .halted) : (w.step i).resumed =
    if w.accepts i then none
    else w.resumed.map fun r => { r with words := i.mem r.pc :: r.words } := by
  have hhalted : w.sys.halted = false := by
    rw [DebugSystem.halted, decide_eq_false_iff_not]
    exact hh
  simp [step, hr, hhalted]

variable (hinv : w.Inv) (hh : w.hart.state ≠ .halted)
include hinv hh

/-- On the way to the awaited word. -/
theorem settled_step_leads (hv : w.hart.redirectValid = false)
    (hbus : ReadsInOrder i.mem w.owed (w.fetch.request (w.fetchInput i)) i.sys.ibus)
    (hfresh : w.fetch.Fresh w.owed w.tags)
    (hawaits : ∀ r, w.resumed = some r → w.fetch.Leads r w.owed ∧ Quiet r.pc w.sys.core) :
    (w.step i).Settled := by
  have hbus' : ReadsInOrder i.mem w.owed (w.fetch.request (w.fetchInput i))
    (w.fetchInput i).ibus := hbus
  refine .leads ?_ fun r' hr' => ?_
  · rw [step_fetch hr, step_owed hr, step_tags hr, hv]
    exact hfresh.step hinv.ledger hbus'
  · rw [step_resumed hr hh] at hr'
    cases hacc : w.accepts i with
    | true => simp [hacc] at hr'
    | false =>
      simp only [hacc, Bool.false_eq_true, if_false, Option.map_eq_some_iff] at hr'
      obtain ⟨r, hres, rfl⟩ := hr'
      obtain ⟨hleads, hquiet⟩ := hawaits r hres
      have hp := hinv.handshake.not_issuing (i := i.sys) hh
      obtain ⟨haccept, hsource⟩ :=
        DebugCore.accepted_of_empty (c := c) (i := w.coreInput i) hp hv hquiet.decode
      have hin : w.fetchInput i = _ :=
        DebugCore.fetchInput_of_empty (c := c) (i := w.coreInput i) hp hv hquiet.decode
      have hnone : w.sys.core.sourceValid (w.coreInput i) = false := haccept.symm.trans hacc
      have hstall (hvalid : w.fetch.valid = true) : (w.fetchInput i).stall = true := by
        have hoff := hsource.symm.trans hnone
        rw [show w.sys.core.fetch.valid = true from hvalid] at hoff
        rw [hin]
        simpa [Fetch.redirectPending, show w.sys.core.fetch.valid = true from hvalid] using hoff
      have hjump (hj : (w.fetchInput i).jump = true) :
          (w.fetchInput i).jumpDest = r.pc ∧ (w.fetch.jumpTaken = true ∨ w.fetch.valid = true) := by
        rw [hin] at hj ⊢
        exact hquiet.jump hj
      have htaken : w.sys.core.backend.execute.taken c
          (w.sys.core.executeInput c (w.coreInput i)) = false :=
        (Backend.jump_of_empty (c := c) (i := w.sys.core.unflushed (w.coreInput i))
          hquiet.decode).1
      refine ⟨?_, ?_, fun hj => ?_⟩
      · rw [step_fetch hr, step_owed hr]
        refine hleads.step hinv.ledger hbus' (fun hred => ?_) (fun hvalid _ => ?_) hstall _
        · simp only [Fetch.redirects, Fetch.newJump, Bool.and_eq_true] at hred
          exact (hjump hred.2.1).1
        · by_contra hnew
          simp only [Fetch.newJump, Bool.not_eq_false, Bool.and_eq_true, Bool.not_eq_true'] at hnew
          rcases (hjump hnew.1).2 with ht | ht
          · exact Bool.false_ne_true (hnew.2.symm.trans ht)
          · exact Bool.false_ne_true (hvalid.symm.trans ht)
      · rw [step_sys hr]
        exact DebugCore.step_decode_empty
          (DebugSystem.transfer_off (hinv.command hh hv)) (.inr ⟨hquiet.decode, hnone⟩)
      · rw [step_sys hr] at hj ⊢
        rw [DebugCore.step_jumpR, Execute.holdsJump, htaken, if_neg Bool.false_ne_true] at hj
        rw [DebugCore.step_jumpDestR, Execute.heldDest, htaken, if_neg Bool.false_ne_true]
        obtain ⟨hdest, hwhere⟩ := hquiet.jump hj
        have hjump' : (w.fetchInput i).jump = true := by
          rw [hin]
          exact hj
        exact ⟨hdest, Fetch.jumped_step hinv.ledger hjump' hwhere hstall⟩

/-- An old answer comes, and Fetch follows the jump, or it does not come. -/
theorem settled_step_waits (hv : w.hart.redirectValid = false) {pc : Word}
    (htarget : ∀ r, w.resumed = some r → r.pc = pc) (hwaits : w.fetch.Waits)
    (hd : w.sys.core.backend.decode.valid = false)
    (hj : w.sys.core.backend.execute.jumpR = true)
    (hdest : w.sys.core.backend.execute.jumpDestR = pc) : (w.step i).Settled := by
  have hp := hinv.handshake.not_issuing (i := i.sys) hh
  obtain ⟨haccept, hsource⟩ := DebugCore.accepted_of_empty (c := c) (i := w.coreInput i) hp hv hd
  have hin : w.fetchInput i = _ :=
    DebugCore.fetchInput_of_empty (c := c) (i := w.coreInput i) hp hv hd
  have hnone : w.sys.core.sourceValid (w.coreInput i) = false := by
    rw [hsource, show w.sys.core.fetch.valid = false from hwaits.valid]
    rfl
  have hacc : w.accepts i = false := haccept.trans hnone
  have htaken : w.sys.core.backend.execute.taken c
      (w.sys.core.executeInput c (w.coreInput i)) = false :=
    (Backend.jump_of_empty (c := c) (i := w.sys.core.unflushed (w.coreInput i)) hd).1
  have hdecode : (w.step i).sys.core.backend.decode.valid = false := by
    rw [step_sys hr]
    exact DebugCore.step_decode_empty
      (DebugSystem.transfer_off (hinv.command hh hv)) (.inr ⟨hd, hnone⟩)
  have hjump : (w.step i).sys.core.backend.execute.jumpR = true := by
    rw [step_sys hr, DebugCore.step_jumpR, Execute.holdsJump, htaken, if_neg Bool.false_ne_true]
    exact hj
  have hheld : (w.step i).sys.core.backend.execute.jumpDestR = pc := by
    rw [step_sys hr, DebugCore.step_jumpDestR, Execute.heldDest, htaken,
      if_neg Bool.false_ne_true]
    exact hdest
  have htarget' : ∀ r, (w.step i).resumed = some r → r.pc = pc := by
    intro r' hr'
    rw [step_resumed hr hh, hacc, if_neg Bool.false_ne_true, Option.map_eq_some_iff] at hr'
    obtain ⟨r, hres, rfl⟩ := hr'
    exact htarget r hres
  have hnew : w.fetch.newJump (w.fetchInput i) = true := by
    rw [hin]
    simp [Fetch.newJump, hj, hwaits.jumpTaken]
  cases hred : w.fetch.redirects (w.fetchInput i) with
  | true =>
    have hfetch : (w.step i).fetch = _ := (step_fetch hr).trans (Fetch.redirect_step hred)
    have howed : (w.step i).owed = none := (step_owed hr).trans (hinv.ledger.redirected hred _)
    refine settled_of_empty htarget' howed ?_ ?_ ?_ hdecode fun _ => ⟨hheld, ?_⟩ <;> rw [hfetch]
    rw [hin]
    exact hdest
  | false =>
    refine .waits pc htarget' ?_ hdecode hjump hheld
    rw [step_fetch hr]
    exact Fetch.waits_step hwaits.run hnew hred hinv.ledger.buffered fun _ => hwaits.valid

/-- A redirect that is heard leaves nothing of before the halt in the way. -/
theorem settled_redirect (hv : w.hart.redirectValid = true)
    (hnew : w.sys.debug.dm.pendingTransfer = false)
    (hbus : ReadsInOrder i.mem w.owed (w.fetch.request (w.fetchInput i)) i.sys.ibus)
    (hheard : w.Heard i) : (w.step i).Settled := by
  have hbus' : ReadsInOrder i.mem w.owed (w.fetch.request (w.fetchInput i))
    (w.fetchInput i).ibus := hbus
  have hin : w.fetchInput i = _ :=
    DebugCore.fetchInput_of_redirect (c := c) (i := w.coreInput i) hv
  have hacc : w.accepts i = false := by
    by_contra hacc
    have hoff := (DebugCore.accepted_of_normal (Bool.eq_true_of_not_eq_false hacc)).2.2.2
    exact Bool.false_ne_true (hoff.symm.trans hv)
  have hdecode : (w.step i).sys.core.backend.decode.valid = false := by
    rw [step_sys hr]
    refine DebugCore.step_decode_empty (DebugSystem.transfer_off hnew) (.inl ?_)
    simp [DebugCore.flush, show w.sys.core.hart.redirectValid = true from hv]
  have htarget : ∀ r, (w.step i).resumed = some r → r.pc = w.hart.redirectPc := by
    intro r' hr'
    rw [step_resumed hr hh, hacc, if_neg Bool.false_ne_true, Option.map_eq_some_iff] at hr'
    obtain ⟨r, hres, rfl⟩ := hr'
    exact hinv.target hv r hres
  have hjumpR : (w.step i).sys.core.backend.execute.jumpR =
      w.sys.core.backend.execute.holdsJump c (w.sys.core.executeInput c (w.coreInput i)) := by
    rw [step_sys hr, DebugCore.step_jumpR]
  have hdest : (w.step i).sys.core.backend.execute.jumpR = true →
      (w.step i).sys.core.backend.execute.jumpDestR = w.hart.redirectPc := by
    intro hj
    rw [hjumpR] at hj
    rw [step_sys hr, DebugCore.step_jumpDestR]
    exact hheard.target hj
  cases hred : w.fetch.redirects (w.fetchInput i) with
  | true =>
    have hfetch : (w.step i).fetch = _ := (step_fetch hr).trans (Fetch.redirect_step hred)
    have howed : (w.step i).owed = none := (step_owed hr).trans (hinv.ledger.redirected hred _)
    refine settled_of_empty htarget howed ?_ ?_ ?_ hdecode fun hj => ⟨hdest hj, ?_⟩ <;> rw [hfetch]
    rw [hin]
    rfl
  | false =>
    rcases hheard.fetch with hred' | hstands | ⟨hwaits, -, hholds⟩
    · exact absurd (hred.symm.trans hred') Bool.false_ne_true
    · have hs : (w.fetchInput i).stall = true := by rw [hin]
      have hj : (w.fetchInput i).jump = true := by rw [hin]
      obtain ⟨howed, hvalid, hbusy, hip, htaken⟩ :=
        hstands.step hinv.ledger hbus' hs hj hred w.hart.redirectValid
      rw [← step_fetch hr] at hvalid hbusy hip htaken
      refine settled_of_empty htarget ((step_owed hr).trans howed) hvalid hbusy hip hdecode
        fun hj => ⟨hdest hj, htaken ?_⟩
      by_contra hrun
      obtain ⟨hjr, hd⟩ := hinv.start (by simpa using hrun)
      have hoff := (Backend.jump_of_empty (c := c) (i := w.sys.core.unflushed (w.coreInput i)) hd).1
      have hhold : w.sys.core.backend.execute.holdsJump c
          (w.sys.core.executeInput c (w.coreInput i)) = false := by
        rw [Execute.holdsJump, show w.sys.core.backend.execute.taken c
          (w.sys.core.executeInput c (w.coreInput i)) = false from hoff, if_neg Bool.false_ne_true]
        exact hjr
      exact Bool.false_ne_true (hhold.symm.trans (hjumpR.symm.trans hj))
    · have hnewj : w.fetch.newJump (w.fetchInput i) = true := by
        rw [hin]
        simp [Fetch.newJump, hwaits.jumpTaken]
      have hj : (w.step i).sys.core.backend.execute.jumpR = true := hjumpR.trans hholds
      refine .waits _ htarget ?_ hdecode hj (hdest hj)
      rw [step_fetch hr]
      exact Fetch.waits_step hwaits.run hnewj hred hinv.ledger.buffered fun _ => hwaits.valid

end NoReset

theorem inv_init : (machine c).init.Inv where
  handshake := DebugSystem.handshake_reset
  ledger := ⟨fun h => absurd h Bool.false_ne_true, fun h => absurd h Bool.false_ne_true,
    fun _ => ⟨rfl, rfl, rfl⟩⟩
  start _ := ⟨rfl, rfl⟩
  command _ _ := rfl
  target h := absurd h Bool.false_ne_true
  settled _ _ := .leads (.of_empty rfl rfl rfl) nofun

theorem step_system (w : ResumeWatch c) (i : ResumeInput c) :
    (w.step i).sys = w.sys.step i.sys := by
  unfold step
  split_ifs <;> rfl

theorem step_hart : (w.step i).hart = (w.sys.step i.sys).core.hart :=
  congrArg (fun s : DebugSystem c => s.core.hart) (step_system w i)

/-- A hart that leaves the halt does so in the cycle before a redirect. -/
theorem was_running (hh : (w.step i).hart.state ≠ .halted)
    (hv : (w.step i).hart.redirectValid = false) : w.hart.state ≠ .halted := by
  intro hhalt
  have hhalt : w.sys.core.hart.state = .halted := hhalt
  rw [step_hart] at hh hv
  have hr : w.sys.debug.dm.resumereq = false := by
    by_contra hr
    have hval := DebugSystem.redirect_iff (i := i.sys).2 ⟨hhalt, by simpa using hr⟩
    exact Bool.false_ne_true (hv.symm.trans hval)
  rw [DebugSystem.step_hart, HartDebug.step_halted hhalt (h := w.sys.control) hr] at hh
  exact hh hhalt

theorem ledger_step (hinv : w.Inv) (h : w.Allowed i) : (w.step i).fetch.Ledger (w.step i).owed := by
  cases hr : w.sys.coreReset i.sys with
  | true =>
    have hfetch : (w.step i).fetch = Fetch.reset c := by
      rw [fetch, step_system]
      simp [DebugSystem.step, hr, DebugCore.resetStep]
    rw [hfetch]
    have howed : (w.step i).owed = none := by simp [step, hr]
    rw [howed]
    exact inv_init.ledger
  | false =>
    rw [step_fetch hr, step_owed hr]
    exact hinv.ledger.step h.bus _

theorem start_step (hrun : (w.step i).fetch.run = false) :
    (w.step i).sys.core.backend.execute.jumpR = false ∧
      (w.step i).sys.core.backend.decode.valid = false := by
  cases hr : w.sys.coreReset i.sys with
  | true =>
    rw [step_system]
    simp [DebugSystem.step, hr, DebugCore.resetStep]
  | false =>
    rw [step_fetch hr, Fetch.step_run] at hrun
    cases hrun

theorem Inv.no_command (hinv : w.Inv) (h : w.Allowed i) (hh : w.hart.state ≠ .halted) :
    w.sys.debug.dm.pendingTransfer = false := by
  cases hv : w.hart.redirectValid with
  | true => exact h.command hv
  | false => exact hinv.command hh hv

/-- Hart control redirects to the dpc that was there when it left the halt. -/
theorem target_step (hv : (w.step i).hart.redirectValid = true) (r : Awaited)
    (hres : (w.step i).resumed = some r) : r.pc = (w.step i).hart.redirectPc := by
  rw [step_hart] at hv ⊢
  obtain ⟨hh, hreq⟩ := DebugSystem.redirect_iff.1 hv
  rw [DebugSystem.step_resumed hh hreq]
  have hhalted : w.sys.halted = true := decide_eq_true hh
  simp only [step, hhalted, hreq, Bool.and_self, if_true] at hres
  split_ifs at hres
  rw [← Option.some.inj hres]
  rfl

theorem settled_step (hinv : w.Inv) (h : w.Allowed i) (hh : w.hart.state ≠ .halted) :
    (w.step i).Settled := by
  cases hr : w.sys.coreReset i.sys with
  | true => exact settled_reset hr
  | false =>
    cases hv : w.hart.redirectValid with
    | true => exact settled_redirect hr hinv hh hv (h.command hv) h.bus (h.heard hv hr)
    | false =>
      cases hinv.settled hh hv with
      | leads fresh awaits => exact settled_step_leads hr hinv hh hv h.bus fresh awaits
      | waits pc target waits decode jump dest =>
        exact settled_step_waits hr hinv hh hv target waits decode jump dest

theorem Inv.step (hinv : w.Inv) (h : w.Allowed i) : (w.step i).Inv where
  handshake := step_system w i ▸ hinv.handshake.step
  ledger := ledger_step hinv h
  start := start_step
  command hh hv := by
    have hrun := was_running hh hv
    rw [step_system]
    exact DebugModule.step_running (decide_eq_false hrun) (hinv.no_command h hrun)
  target := target_step
  settled hh hv := settled_step hinv h (was_running hh hv)

theorem Inv.restarts (hinv : w.Inv) (i : ResumeInput c) : w.Restarts i where
  redirect hh hreq := by
    rw [step_hart, DebugSystem.step_resumed hh hreq]
    exact ⟨(hinv.handshake.ready hh hreq).2.2.2, rfl, rfl⟩
  ack hv hd := by
    obtain ⟨hh, hreq, hack⟩ := hinv.handshake.redirect hv
    rw [step_system]
    exact DebugModule.step_resumeack hd hreq hack (decide_eq_false hh)
  first hacc r hres := by
    obtain ⟨-, hvalid, hallow, hv⟩ := DebugCore.accepted_of_normal hacc
    cases hinv.settled (DebugCore.allowFetch_not_halted hallow) hv with
    | leads fresh awaits => exact (awaits r hres).1.offered hvalid
    | waits pc target waits => exact absurd (waits.valid.symm.trans hvalid) Bool.false_ne_true
  fresh hacc := by
    obtain ⟨-, hvalid, hallow, hv⟩ := DebugCore.accepted_of_normal hacc
    have hh := DebugCore.allowFetch_not_halted hallow
    refine ⟨?_, DebugSystem.transfer_off (hinv.command hh hv)⟩
    cases hinv.settled hh hv with
    | leads fresh awaits => exact fresh.offered hvalid
    | waits pc target waits => exact absurd (waits.valid.symm.trans hvalid) Bool.false_ne_true

/-- The first instruction after every resume is the one at dpc, and nothing that was fetched
before the resume is executed, in a run in which every redirect is heard. -/
theorem resume_restarts (is : List (ResumeInput c))
    (h : (machine c).Along Allowed (machine c).init is) :
    (machine c).Along Restarts (machine c).init is :=
  h.mono Inv (fun _ _ => Inv.step) (fun _ i hinv _ => hinv.restarts i) inv_init

section Runs

def writeDmi (adr : ℕ) (dbi : Word) : DmiAccess defaultConfig :=
  { en := true, we := true, adr := BitVec.ofNat _ adr, dbi := dbi }

/-- A cycle over a memory of NOPs. -/
def nopCycle (access : DmiAccess defaultConfig) (ibus : DbusResponse 32) :
    ResumeInput defaultConfig :=
  { sys := { access := access, ibus := ibus }, mem := fun _ => 0x13 }

def answered : DbusResponse 32 := { ack := true, dbRd := 0x13 }

def stalled : DbusResponse 32 := { stall := true }

/-- The debugger halts, puts 16 into dpc and resumes; the bus answers at once until the halt. -/
def haltedRun (access : DmiAccess defaultConfig → ResumeInput defaultConfig) :
    List (ResumeInput defaultConfig) :=
  [nopCycle (writeDmi Dmi.DMCONTROL 1) {}, nopCycle {} {}, nopCycle {} answered,
    nopCycle (writeDmi Dmi.DMCONTROL 0x80000001) stalled,
    access (writeDmi Dmi.PROGBUF0 0x7b185073), nopCycle (writeDmi Dmi.PROGBUF1 0x100073) stalled,
    nopCycle {} stalled, nopCycle {} stalled, nopCycle (writeDmi Dmi.COMMAND 0x40000) stalled] ++
    List.replicate 7 (nopCycle {} stalled) ++
    [nopCycle (writeDmi Dmi.DMCONTROL 0x40000001) stalled, nopCycle {} stalled, nopCycle {} stalled]

/-- With the last request answered during the halt. -/
theorem resume_restarts_answered : (machine defaultConfig).Along Restarts
    (machine defaultConfig).init
    (haltedRun (fun access => nopCycle access { answered with stall := true }) ++
      [nopCycle {} {}, nopCycle {} answered, nopCycle {} answered]) :=
  resume_restarts _ (by decide +kernel)

/-- With the last request unanswered until after the resume, the redirect to 16 is lost, and the
NOP at 4, requested before the halt, is executed. -/
theorem resume_unheard :
    let is := haltedRun (fun access => nopCycle access stalled) ++ [nopCycle {} answered]
    let w := (machine defaultConfig).run is
    (machine defaultConfig).Along
      (fun w i => ReadsInOrder i.mem w.owed (w.fetch.request (w.fetchInput i)) i.sys.ibus)
      (machine defaultConfig).init is ∧
    w.sys.debug.dm.resumeack = true ∧ w.accepts (nopCycle {} answered) = true ∧
      w.resumed.map (·.pc) = some 16 ∧ w.fetch.currentIp0 = 4 ∧ w.tags.word0 = false ∧
      ¬ w.Restarts (nopCycle {} answered) := by
  intro is w
  have hacc : w.accepts (nopCycle {} answered) = true := by decide +kernel
  have hold : w.tags.word0 = false := by decide +kernel
  refine ⟨by decide +kernel, by decide +kernel, hacc, by decide +kernel, by decide +kernel, hold,
    fun h => ?_⟩
  exact Bool.false_ne_true (hold.symm.trans (h.fresh hacc).1)

end Runs

end ResumeWatch

end BonfireCore
