import BonfireCore.CommandProtocol
import BonfireCore.DebugCore

/-! The core behind its Debug Module: the DMI on one side, the two buses on the other. -/
namespace BonfireCore

/-- The Debug Module with its command controller, and the core. -/
structure DebugSystem (c : CoreConfig) where
  debug : DmState c := {}
  core : DebugCore

structure DebugSystemInput (c : CoreConfig) where
  access : DmiAccess c := {}
  ibus : DbusResponse 32 := {}
  dbus : DbusResponse 32 := {}
  sysReset : Bool := false
  deriving DecidableEq

namespace DebugCore

/-- The trap CSRs that are reset; the others keep their values. -/
def resetTrap (t : TrapCsr) : TrapCsr := { t with mtvec := 0, mie := false, mpie := false }

/-- An edge with the reset asserted. Hart control, the pipeline adapter and the register file
have none. -/
def resetStep (c : CoreConfig) (s : DebugCore) (i : DebugCoreInput) : DebugCore where
  fetch := Fetch.reset c
  backend :=
    { execute := { csr := { trap := resetTrap s.backend.execute.csr.trap } }
      regfile := (s.step c i).backend.regfile }
  hart := (s.step c i).hart
  adapter := (s.step c i).adapter
  csr := { dpc := c.resetAddress.extractLsb' 2 30 }

end DebugCore

namespace DebugSystem
variable {c : CoreConfig} (s : DebugSystem c) (i : DebugSystemInput c)

def halted : Bool := s.core.hart.state = .halted

/-- `core_reset`: the system reset, or `ndmreset`. -/
def coreReset : Bool := i.sysReset || s.debug.dm.ndmresetO

/-- What the Debug Module asks of the hart. -/
def control : HartControl where
  dmactive := s.debug.dm.dmactive
  haltreq := s.debug.dm.haltreq
  resumereq := s.debug.dm.resumereq
  transfer :=
    { valid := s.debug.dm.commandRequest s.debug.cmd.state && s.debug.dm.transfer
      write := s.debug.dm.write
      regno := s.debug.dm.regno
      writeData := s.debug.dm.dataRegs 0 }
  progbufValid := s.debug.cmd.issuing
  progbufWord := s.debug.cmd.issueWord s.debug.dm

def coreInput : DebugCoreInput where
  ibus := i.ibus
  dbus := i.dbus
  control := s.control

def dmInput : DmInput c where
  access := i.access
  hart := { halted := s.halted, reqAck := s.core.hart.reqAck, reset := s.coreReset i }
  progbuf := s.core.progbufCompletion c (s.coreInput i)

def step : DebugSystem c where
  debug := s.debug.step (s.dmInput i)
  core :=
    if s.coreReset i then s.core.resetStep c (s.coreInput i) else s.core.step c (s.coreInput i)

def reset (c : CoreConfig) : DebugSystem c where
  core := DebugCore.reset c

end DebugSystem

namespace HartDebug
variable {s : HartDebug} {h : HartControl} {csr : DebugCsr} {e : DebugPipelineEvents}

/-- The resume of a halted hart. -/
def resume (s : HartDebug) (csr : DebugCsr) : HartDebug :=
  { s with
    state := if csr.step then .stepIssue else .running
    reqAck := true
    redirectValid := true
    redirectPc := csr.dpc ++ 0#2
    update := { s.update with weDpc := false, weCause := false } }

theorem step_resume (hh : s.state = .halted) (hr : h.resumereq = true) :
    s.step h csr e = s.resume csr := by
  simp [step, resume, hh, hr]

/-- A halted hart waits for a resume request and nothing else. -/
theorem step_halted (hh : s.state = .halted) (hr : h.resumereq = false) :
    s.step h csr e =
      { s with
        reqAck := false
        redirectValid := false
        update := { s.update with weDpc := false, weCause := false } } := by
  simp [step, hh, hr]

/-- Elsewhere no resume is taken, and an acknowledgement is that of a halt, which saves the pc. -/
theorem step_active (hh : s.state ≠ .halted) :
    (s.step h csr e).redirectValid = false ∧
      ((s.step h csr e).reqAck = true → (s.step h csr e).state = .halted ∧
        (s.step h csr e).update.weDpc = true) := by
  unfold step
  cases hst : s.state <;> simp_all <;> split_ifs <;> simp_all [halt]

end HartDebug

namespace DebugModule
variable {c : CoreConfig} {d new : DebugModule c} {state : AbstractState} {halted auto : Bool}

/-- The module's side of a resume. -/
structure Resumption where
  dmactive : Bool
  resumereq : Bool
  resumeack : Bool

def resumption (d : DebugModule c) : Resumption := ⟨d.dmactive, d.resumereq, d.resumeack⟩

theorem touch_resumption : (d.touch state halted auto new).resumption = new.resumption := by
  unfold touch
  split_ifs <;> rfl

theorem read_resumption (adr : ℕ) :
    (d.read state halted adr new).resumption = new.resumption := by
  unfold read
  split_ifs <;> first | rfl | exact touch_resumption

/-- Only a write to `dmcontrol` makes a request. -/
theorem writeReg_resumption {adr : ℕ} (dbi : Word) (h : adr ≠ Dmi.DMCONTROL) :
    (d.writeReg state halted adr dbi new).resumption = new.resumption := by
  unfold writeReg
  rw [if_neg h]
  split_ifs
  · exact touch_resumption
  · exact touch_resumption
  · unfold guardedWrite
    split_ifs <;> rfl
  · unfold guardedWrite
    split_ifs <;> rfl
  · unfold writeCommand setCommand
    split_ifs <;> rfl
  · exact touch_resumption
  · exact touch_resumption
  · exact touch_resumption
  · exact touch_resumption
  · rfl

theorem lifecycle_resumption (cmd : AbstractCommand) (hart : HartStatus) :
    (d.lifecycle cmd hart).resumption =
      { dmactive := d.dmactive
        resumereq := d.resumereq && !hart.reqAck
        resumeack := d.resumeack || hart.reqAck && d.resumereq } := by
  -- what a command comes to is told in the other registers
  have hcmd (new : DebugModule c) : (if cmd.state = .regvalid then
      { new with dataRegs := Function.update new.dataRegs 0 cmd.result }
    else if cmd.state = .taken then { new with abstractCommandNew := false }
    else if cmd.state = .failed then
      { new with
        cmderr :=
          if d.cmderr = Cmderr.NONE then
            if d.abstractBusyError then Cmderr.BUSY else Cmderr.EXCEPTION
          else d.cmderr
        abstractBusyError := false }
    else if !d.commandBusy cmd.state && d.abstractBusyError then
      { new with
        cmderr := if d.cmderr = Cmderr.NONE then Cmderr.BUSY else d.cmderr
        abstractBusyError := false }
    else new).resumption = new.resumption := by
    split_ifs <;> rfl
  refine (hcmd _).trans ?_
  unfold resumption
  cases hart.reset <;> cases hart.reqAck <;> simp [Bool.or_comm]

/-- `resumereq` in a write to `dmcontrol` that keeps the module active and `haltreq` clear. -/
def asksResume (dbi : Word) : Bool := dbi.getLsbD 0 && !dbi.getLsbD 31 && dbi.getLsbD 30

theorem writeDmcontrol_resumption (dbi : Word) :
    (d.writeDmcontrol state halted dbi new).resumption =
      if dbi.getLsbD 0 = false then { new.resumption with dmactive := false }
      else if d.commandBusy state = false ∧ halted = true ∧ asksResume dbi = true then
        ⟨new.dmactive, true, false⟩
      else new.resumption := by
  unfold writeDmcontrol resumption asksResume
  cases d.commandBusy state <;> cases halted <;> cases dbi.getLsbD 0 <;> cases dbi.getLsbD 31 <;>
    cases dbi.getLsbD 30 <;> cases dbi.getLsbD 28 <;> rfl

section Edge
variable {cmd : AbstractCommand} {hart : HartStatus} {a : DmiAccess c}

/-- What an edge does to a request and its acknowledgement. -/
theorem step_resumption (hd : d.dmactive = true) :
    (d.step cmd hart a).resumption =
      if a.writes Dmi.DMCONTROL = true then
        (d.writeDmcontrol cmd.state hart.halted a.dbi (d.lifecycle cmd hart)).resumption
      else (d.lifecycle cmd hart).resumption := by
  unfold step DmiAccess.writes
  rw [if_neg (by simp [hd])]
  cases a.en with
  | false => rfl
  | true =>
    cases a.we with
    | false => exact read_resumption a.adr.toNat
    | true =>
      by_cases hadr : a.adr.toNat = Dmi.DMCONTROL
      · simp [hadr, writeReg]
      · simp only [hadr, decide_false, Bool.and_false]
        exact writeReg_resumption a.dbi hadr

/-- The request is made in this cycle. -/
def resumes (d : DebugModule c) (cmd : AbstractCommand) (hart : HartStatus) (a : DmiAccess c) :
    Bool :=
  a.writes Dmi.DMCONTROL && !d.commandBusy cmd.state && hart.halted && asksResume a.dbi

theorem step_resumption_eq (hd : d.dmactive = true) (cmd : AbstractCommand) (hart : HartStatus)
    (a : DmiAccess c) :
    (d.step cmd hart a).resumption =
      if d.resumes cmd hart a = true then ⟨true, true, false⟩
      else
        { dmactive := !(a.writes Dmi.DMCONTROL && !a.dbi.getLsbD 0)
          resumereq := d.resumereq && !hart.reqAck
          resumeack := d.resumeack || hart.reqAck && d.resumereq } := by
  have hl := lifecycle_resumption (d := d) cmd hart
  rw [step_resumption hd, writeDmcontrol_resumption, hl, show (d.lifecycle cmd hart).dmactive =
    d.dmactive from congrArg Resumption.dmactive hl, hd]
  unfold resumes
  cases hw : a.writes Dmi.DMCONTROL <;> cases h0 : a.dbi.getLsbD 0 <;>
    cases d.commandBusy cmd.state <;> cases hart.halted <;> cases ha : asksResume a.dbi <;>
    simp_all [asksResume]

/-- A request after an edge was made in this cycle, or is not acknowledged yet. -/
theorem step_resumereq (h : (d.step cmd hart a).resumereq = true) :
    d.dmactive = true ∧
      (d.resumes cmd hart a = true ∧ (d.step cmd hart a).dmactive = true ∨
        d.resumereq = true ∧ hart.reqAck = false) := by
  cases hd : d.dmactive with
  | false => simp [step, hd, inactive] at h
  | true =>
    have hs := step_resumption_eq hd cmd hart a
    refine ⟨rfl, ?_⟩
    split_ifs at hs with hreq
    · exact .inl ⟨hreq, congrArg Resumption.dmactive hs⟩
    · have hr : (d.step cmd hart a).resumereq = (d.resumereq && !hart.reqAck) :=
        congrArg Resumption.resumereq hs
      right
      simpa [h] using hr

/-- A request stays until it is acknowledged. -/
theorem step_resumereq_kept (hd : d.dmactive = true) (hr : d.resumereq = true)
    (ha : hart.reqAck = false) : (d.step cmd hart a).resumereq = true := by
  have hs := congrArg Resumption.resumereq
    (step_resumption_eq hd cmd hart a)
  refine hs.trans ?_
  split_ifs <;> simp [hr, ha]

/-- The acknowledgement of a request, by a hart that runs. -/
theorem step_resumeack (hd : d.dmactive = true) (hr : d.resumereq = true)
    (ha : hart.reqAck = true) (hh : hart.halted = false) :
    (d.step cmd hart a).resumeack = true := by
  have hs := congrArg Resumption.resumeack
    (step_resumption_eq hd cmd hart a)
  rw [if_neg (by simp [resumes, hh])] at hs
  exact hs.trans (by simp [hr, ha])

/-- No command is in progress when a resume is requested, and none starts with it. -/
theorem resumes_idle (hd : d.dmactive = true) (hreq : d.resumes cmd hart a = true)
    (p : ProgbufCompletion) :
    (d.step cmd hart a).commandBusy (cmd.step d hart.halted p).state = false := by
  simp only [resumes, Bool.and_eq_true, Bool.not_eq_true', commandBusy, Bool.or_eq_false_iff,
    decide_eq_false_iff_not, not_not] at hreq
  obtain ⟨⟨⟨hw, hnew, hstate⟩, -⟩, -⟩ := hreq
  simp only [DmiAccess.writes, Bool.and_eq_true, decide_eq_true_eq] at hw
  obtain ⟨⟨hen, hwe⟩, hadr⟩ := hw
  have hcmd : (cmd.step d hart.halted p).state = .none := by
    simp only [AbstractCommand.step, hd, hstate, commandRequest, hnew]
    simp [hstate]
  have hold : (d.lifecycle cmd hart).abstractCommandNew = false := by
    unfold lifecycle
    rw [if_neg (by simp [hstate]), if_neg (by simp [hstate]), if_neg (by simp [hstate])]
    split_ifs <;> exact hnew
  have hkeep : (d.step cmd hart a).abstractCommandNew = false := by
    unfold step
    rw [if_neg (by simp [hd]), if_neg (by simp [hen]), if_pos hwe, writeReg, if_pos hadr]
    unfold writeDmcontrol
    dsimp only
    split_ifs <;> exact hold
  simp [commandBusy, hkeep, hcmd]

/-- A register transfer that is requested. -/
def pendingTransfer (d : DebugModule c) : Bool := d.abstractCommandNew && d.transfer

/-- No transfer is requested while the hart runs. -/
theorem touch_running : (d.touch state false auto new).pendingTransfer =
    new.pendingTransfer := by
  unfold touch
  by_cases hbusy : d.commandBusy state = true
  · simp only [hbusy, if_true]
    split_ifs <;> rfl
  · have hstart : d.commandStartError state false ≠ Cmderr.NONE := by
      simp [commandStartError, hbusy, Cmderr.HART_RUNNING, Cmderr.NONE]
    simp only [hbusy, hstart, ne_eq, not_false_eq_true, if_true]
    split_ifs <;> rfl

theorem read_running (adr : ℕ) :
    (d.read state false adr new).pendingTransfer = new.pendingTransfer := by
  unfold read
  split_ifs <;> first | rfl | exact touch_running

theorem writeDmcontrol_transfer (dbi : Word) :
    (d.writeDmcontrol state halted dbi new).pendingTransfer = new.pendingTransfer := by
  unfold writeDmcontrol
  dsimp only
  split_ifs <;> rfl

theorem writeReg_running (adr : ℕ) (dbi : Word) :
    (d.writeReg state false adr dbi new).pendingTransfer = new.pendingTransfer := by
  unfold writeReg
  split_ifs
  · exact writeDmcontrol_transfer dbi
  · exact touch_running
  · exact touch_running
  · unfold guardedWrite
    split_ifs <;> rfl
  · unfold guardedWrite
    split_ifs <;> rfl
  · unfold writeCommand
    split_ifs <;> first | rfl | contradiction
  · exact touch_running
  · exact touch_running
  · exact touch_running
  · exact touch_running
  · rfl

theorem step_running (hh : hart.halted = false) (h : d.pendingTransfer = false) :
    (d.step cmd hart a).pendingTransfer = false := by
  have hlife : (d.lifecycle cmd hart).pendingTransfer = false := by
    unfold lifecycle
    dsimp only
    split_ifs <;> first | exact h | simp [pendingTransfer]
  unfold step
  rw [hh]
  split_ifs
  · rfl
  · exact hlife
  · exact (writeReg_running _ _).trans hlife
  · exact (read_running _).trans hlife

end Edge

end DebugModule

namespace DebugSystem
variable {c : CoreConfig} {s : DebugSystem c} {i : DebugSystemInput c}

theorem step_hart : (s.step i).core.hart =
    s.core.hart.step s.control s.core.csr (s.core.events c (s.coreInput i)) := by
  unfold step
  split_ifs <;> rfl

/-- The Debug Module and hart control agree on what is going on. -/
structure Handshake (s : DebugSystem c) : Prop where
  command : s.core.hart.state ≠ .halted → s.debug.cmd.state = .none
  request : s.debug.dm.resumereq = true → s.core.hart.redirectValid = true ∨
    s.core.hart.state = .halted ∧ s.debug.dm.dmactive = true ∧ s.debug.busy = false ∧
      s.core.hart.reqAck = false ∧ s.core.hart.update.weDpc = false
  redirect : s.core.hart.redirectValid = true → s.core.hart.state ≠ .halted ∧
    s.debug.dm.resumereq = true ∧ s.core.hart.reqAck = true

theorem handshake_reset : (reset c).Handshake where
  command _ := rfl
  request h := absurd h Bool.false_ne_true
  redirect h := absurd h Bool.false_ne_true

/-- A resume is taken where a halted hart sees the request. -/
theorem redirect_iff : (s.step i).core.hart.redirectValid = true ↔
    s.core.hart.state = .halted ∧ s.debug.dm.resumereq = true := by
  rw [step_hart]
  by_cases hh : s.core.hart.state = .halted
  · cases hr : s.debug.dm.resumereq with
    | true => simp [HartDebug.step_resume hh (h := s.control) hr, HartDebug.resume, hh]
    | false => simp [HartDebug.step_halted hh (h := s.control) hr]
  · simp [(HartDebug.step_active hh).1, hh]

theorem step_resumed (hh : s.core.hart.state = .halted) (hr : s.debug.dm.resumereq = true) :
    (s.step i).core.hart = s.core.hart.resume s.core.csr := by
  rw [step_hart, HartDebug.step_resume hh hr]

/-- A request that a halted hart sees is made with no command in progress. -/
theorem Handshake.ready (h : s.Handshake) (hh : s.core.hart.state = .halted)
    (hr : s.debug.dm.resumereq = true) :
    s.debug.dm.dmactive = true ∧ s.debug.busy = false ∧ s.core.hart.reqAck = false ∧
      s.core.hart.update.weDpc = false := by
  rcases h.request hr with hv | ⟨-, hrest⟩
  · exact absurd hh (h.redirect hv).1
  · exact hrest

theorem Handshake.step (h : s.Handshake) : (s.step i).Handshake := by
  constructor
  · intro hrun
    show (s.debug.cmd.step s.debug.dm s.halted _).state = .none
    by_cases hh : s.core.hart.state = .halted
    · have hr : s.debug.dm.resumereq = true := by
        by_contra hr
        rw [step_hart, HartDebug.step_halted hh (h := s.control) (Bool.eq_false_iff.2 hr)] at hrun
        exact hrun hh
      obtain ⟨hd, hbusy, -, -⟩ := h.ready hh hr
      simp only [DmState.busy, DebugModule.commandBusy, Bool.or_eq_false_iff,
        decide_eq_false_iff_not, not_not] at hbusy
      simp [AbstractCommand.step, hd, hbusy.2, DebugModule.commandRequest, hbusy.1]
    · simp only [AbstractCommand.step, halted, hh, decide_false, Bool.not_false, if_true]
      split_ifs
      · rfl
      · exact h.command hh
  · intro hreq
    obtain ⟨hd, ⟨hresumes, hd'⟩ | ⟨hr, hack⟩⟩ := DebugModule.step_resumereq hreq
    · have hh : s.core.hart.state = .halted := by
        simp only [DebugModule.resumes, Bool.and_eq_true] at hresumes
        exact of_decide_eq_true hresumes.1.2
      cases hr : s.debug.dm.resumereq with
      | true => exact .inl (redirect_iff.2 ⟨hh, hr⟩)
      | false =>
        have hstep := step_hart (s := s) (i := i)
        rw [HartDebug.step_halted hh (h := s.control) hr] at hstep
        rw [hstep]
        exact .inr ⟨hh, hd', DebugModule.resumes_idle hd hresumes _, rfl, rfl⟩
    · rcases h.request hr with hv | ⟨hh, -⟩
      · exact absurd (hack.symm.trans (h.redirect hv).2.2) Bool.false_ne_true
      · exact .inl (redirect_iff.2 ⟨hh, hr⟩)
  · intro hval
    obtain ⟨hh, hr⟩ := redirect_iff.1 hval
    obtain ⟨hd, -, hack, -⟩ := h.ready hh hr
    have hkept : (s.step i).debug.dm.resumereq = true :=
      DebugModule.step_resumereq_kept hd hr hack
    rw [step_resumed hh hr]
    refine ⟨?_, hkept, rfl⟩
    unfold HartDebug.resume
    dsimp only
    split_ifs <;> simp

end DebugSystem
end BonfireCore
