import BonfireCore.CommandProtocol

/-! Autoexec against a second write of `command`. Autoexec starts the stored fields again,
a command write checks its value first; the two agree where the fields are those of an
accepted value and no conflict waits to be reported. -/
namespace BonfireCore

/-- What a command does, as seen from the hart and from the debugger. A transfer's data is
`data0`. -/
structure CommandObs where
  transfer : Option (Bool × BitVec 5)
  issue : Option (Word × Bool)
  data0 : Word
  cmderr : BitVec 3
  deriving DecidableEq, Repr

namespace DebugModule
variable {c : CoreConfig} (d : DebugModule c)

def clearAutoexec : DebugModule c :=
  { d with abstractAutoData := 0, abstractAutoProgbuf := 0 }

def restoreAutoexec (new : DebugModule c) : DebugModule c :=
  { new with
    abstractAutoData := d.abstractAutoData
    abstractAutoProgbuf := d.abstractAutoProgbuf }

end DebugModule

namespace DmState
variable {c : CoreConfig}

def machine (c : CoreConfig) : Clocked (DmState c) (DmInput c) where
  init := {}
  step := step

def observe (s : DmState c) : CommandObs where
  transfer :=
    if s.dm.commandRequest s.cmd.state && s.dm.transfer then some (s.dm.write, s.dm.regno)
    else none
  issue :=
    if s.cmd.issuing then some (s.cmd.issueWord s.dm, s.cmd.issueLast c) else none
  data0 := s.dm.dataRegs 0
  cmderr := s.dm.cmderr

def commandWrite (hart : HartStatus) (value : Word) : DmInput c where
  access := { en := true, we := true, adr := BitVec.ofNat _ Dmi.COMMAND, dbi := value }
  hart := hart

/-- The access with the autoexec bits clear, and then `command` written with `value`. -/
def rewrite (s : DmState c) (i : DmInput c) (value : Word) : DmState c :=
  let accessed := { s with dm := s.dm.clearAutoexec }.step i
  { accessed with dm := s.dm.restoreAutoexec accessed.dm }.step (commandWrite i.hart value)

end DmState

/-- The module and the value last written to `command` while `cmderr` was 0. -/
structure CommandHistory (c : CoreConfig) where
  s : DmState c := {}
  command : Word := 0

namespace CommandHistory
variable {c : CoreConfig}

def step (w : CommandHistory c) (i : DmInput c) : CommandHistory c where
  s := w.s.step i
  command :=
    if !w.s.dm.dmactive then 0
    else if i.access.writes Dmi.COMMAND && w.s.dm.cmderr = 0 then i.access.dbi
    else w.command

def machine (c : CoreConfig) : Clocked (CommandHistory c) (DmInput c) where
  init := {}
  step := step

end CommandHistory

namespace DebugModule
variable {c : CoreConfig} (d new : DebugModule c) (state : AbstractState) (halted : Bool)

/-- `value` is accepted, and the stored fields ask for what it asks for. -/
def Repeats (value : Word) : Prop :=
  value.extractLsb' 24 8 = 0#8 ∧ supported value = true ∧ d.postexec = value.getLsbD 18 ∧
    d.transfer = value.getLsbD 17 ∧
    (d.transfer = true → d.write = value.getLsbD 16 ∧ d.regno = value.extractLsb' 0 5)

instance (value : Word) : Decidable (d.Repeats value) :=
  inferInstanceAs (Decidable (_ ∧ _ ∧ _ ∧ _ ∧ (_ → _ ∧ _)))

/-- The registers a command or a later access can depend on: without the read data, and
without the transfer's fields where there is no transfer. -/
def visible : DebugModule c :=
  { d with
    dbo := 0
    aarsize := 0
    aarpostincrement := false
    write := d.transfer && d.write
    regno := if d.transfer then d.regno else 0 }

variable {d new state halted} {d' new' : DebugModule c}

theorem touch_visible {auto : Bool} :
    (d.touch state halted auto new).visible = d.visible.touch state halted auto new.visible := by
  have hbusy : d.visible.commandBusy state = d.commandBusy state := rfl
  have herr : d.visible.cmderr = d.cmderr := rfl
  have hstart : d.visible.commandStartError state halted = d.commandStartError state halted := rfl
  simp only [touch, hbusy, herr, hstart]
  split_ifs <;> rfl

theorem lifecycle_visible {cmd : AbstractCommand} {hart : HartStatus} :
    (d.lifecycle cmd hart).visible = d.visible.lifecycle cmd hart := by
  have hbusy : d.visible.commandBusy cmd.state = d.commandBusy cmd.state := rfl
  have hflag : d.visible.abstractBusyError = d.abstractBusyError := rfl
  have herr : d.visible.cmderr = d.cmderr := rfl
  simp only [lifecycle, hbusy, hflag, herr]
  split_ifs <;> rfl

section Congr
variable (hd : d.visible = d'.visible) (h : new.visible = new'.visible)
include hd

theorem commandBusy_congr : d.commandBusy state = d'.commandBusy state :=
  (congrArg (fun x => x.commandBusy state) hd :)

theorem cmderr_congr : d.cmderr = d'.cmderr := (congrArg (fun x => x.cmderr) hd :)

theorem autoexec_congr :
    d.abstractAutoData = d'.abstractAutoData ∧ d.abstractAutoProgbuf = d'.abstractAutoProgbuf :=
  ⟨(congrArg (fun x => x.abstractAutoData) hd :),
    (congrArg (fun x => x.abstractAutoProgbuf) hd :)⟩

include h

theorem touch_congr {auto : Bool} :
    (d.touch state halted auto new).visible = (d'.touch state halted auto new').visible := by
  rw [touch_visible, touch_visible, hd, h]

theorem read_congr {adr : ℕ} :
    (d.read state halted adr new).visible = (d'.read state halted adr new').visible := by
  obtain ⟨hdata, hprog⟩ := autoexec_congr hd
  unfold read
  rw [hdata, hprog]
  split_ifs
  · exact h
  · exact h
  · exact h
  · exact h
  -- the data read is not visible
  · refine touch_congr hd ?_
    exact h
  · refine touch_congr hd ?_
    exact h
  · refine touch_congr hd ?_
    exact h
  · exact h
  · exact h

theorem guardedWrite_congr {f f' : DebugModule c → DebugModule c}
    (hf : (f new).visible = (f' new').visible) :
    (d.guardedWrite state f new).visible = (d'.guardedWrite state f' new').visible := by
  have hbusy : d.commandBusy state = d'.commandBusy state := commandBusy_congr hd
  have herr : d.cmderr = d'.cmderr := cmderr_congr hd
  simp only [guardedWrite, hbusy, herr]
  split_ifs
  · exact (congrArg (fun x => { x with abstractBusyError := true }) h :)
  · exact h
  · exact hf

theorem writeCommand_congr {dbi : Word} :
    (d.writeCommand state halted dbi new).visible =
      (d'.writeCommand state halted dbi new').visible := by
  have hbusy : d.commandBusy state = d'.commandBusy state := commandBusy_congr hd
  have herr : d.cmderr = d'.cmderr := cmderr_congr hd
  simp only [writeCommand, hbusy, herr]
  split_ifs
  · exact (congrArg (fun x => { x with abstractBusyError := true }) h :)
  · exact (congrArg (fun x => { x with cmderr := Cmderr.HART_RUNNING }) h :)
  · exact (congrArg (fun x => ({ setCommand dbi x with abstractCommandNew := true }).visible) h :)
  · exact (congrArg
      (fun x => ({ setCommand dbi x with cmderr := Cmderr.NOT_SUPPORTED }).visible) h :)
  · exact (congrArg (fun x => { x with cmderr := Cmderr.NOT_SUPPORTED }) h :)
  · exact h

theorem writeDmcontrol_congr {dbi : Word} :
    (d.writeDmcontrol state halted dbi new).visible =
      (d'.writeDmcontrol state halted dbi new').visible := by
  have hbusy : d.commandBusy state = d'.commandBusy state := commandBusy_congr hd
  have hcommute (x y : DebugModule c) :
      (x.writeDmcontrol state halted dbi y).visible =
        x.writeDmcontrol state halted dbi y.visible := by
    unfold writeDmcontrol
    split_ifs <;> rfl
  rw [hcommute, hcommute, h]
  simp only [writeDmcontrol, hbusy]

theorem writeReg_congr {adr : ℕ} {dbi : Word} :
    (d.writeReg state halted adr dbi new).visible =
      (d'.writeReg state halted adr dbi new').visible := by
  obtain ⟨hdata, hprog⟩ := autoexec_congr hd
  have hbusy : d.commandBusy state = d'.commandBusy state := commandBusy_congr hd
  have herr : d.cmderr = d'.cmderr := cmderr_congr hd
  unfold writeReg
  rw [hdata, hprog, hbusy, herr]
  split_ifs
  · exact writeDmcontrol_congr hd h
  · exact touch_congr hd h
  · exact touch_congr hd
      (congrArg
        (fun x => { x with dataRegs := Function.update x.dataRegs (adr - Dmi.DATA0) dbi }) h :)
  · exact guardedWrite_congr hd h
      (congrArg (fun x => { x with cmderr := d'.cmderr &&& ~~~dbi.extractLsb' 8 3 }) h :)
  · exact guardedWrite_congr hd h
      (congrArg
        (fun x =>
          { x with
            abstractAutoData := dbi.extractLsb' 0 c.numdata
            abstractAutoProgbuf := dbi.extractLsb' 16 c.progbufSize }) h :)
  · exact writeCommand_congr hd h
  · exact touch_congr hd h
  · exact touch_congr hd (congrArg (fun x => { x with progbuf0 := dbi }) h :)
  · exact touch_congr hd h
  · exact touch_congr hd (congrArg (fun x => { x with progbuf1 := dbi }) h :)
  · exact h

end Congr

theorem step_congr {cmd : AbstractCommand} {hart : HartStatus} {a : DmiAccess c}
    (hd : d.visible = d'.visible) : (d.step cmd hart a).visible = (d'.step cmd hart a).visible := by
  have hactive : d.dmactive = d'.dmactive := (congrArg (fun x => x.dmactive) hd :)
  have hlife : (d.lifecycle cmd hart).visible = (d'.lifecycle cmd hart).visible := by
    rw [lifecycle_visible, lifecycle_visible, hd]
  simp only [step, hactive]
  split_ifs
  · exact (congrArg (fun x => (x.inactive a).visible) hd :)
  · exact hlife
  · exact writeReg_congr hd hlife
  · exact read_congr hd hlife

end DebugModule

namespace AbstractCommand
variable {c : CoreConfig} {d d' : DebugModule c} {cmd : AbstractCommand}

theorem step_congr {halted : Bool} {p : ProgbufCompletion} (hd : d.visible = d'.visible) :
    cmd.step d halted p = cmd.step d' halted p := by
  have hvisible (d : DebugModule c) : cmd.step d halted p = cmd.step d.visible halted p := by
    have hwrite : (d.transfer && !d.write) = (d.visible.transfer && !d.visible.write) := by
      simp only [DebugModule.visible]
      cases d.transfer <;> rfl
    simp only [step]
    rw [hwrite]
    rfl
  rw [hvisible d, hvisible d', hd]

end AbstractCommand

namespace DmState
variable {c : CoreConfig} {s t : DmState c} {i : DmInput c}

def visible (s : DmState c) : DmState c := { s with dm := s.dm.visible }

theorem visible_eq (hdm : s.dm.visible = t.dm.visible) (hcmd : s.cmd = t.cmd) :
    s.visible = t.visible := by
  rw [visible, visible, hdm, hcmd]

theorem step_visible (h : s.visible = t.visible) : (s.step i).visible = (t.step i).visible := by
  have hdm : s.dm.visible = t.dm.visible := (congrArg (fun x => x.dm) h :)
  have hcmd : s.cmd = t.cmd := (congrArg (fun x => x.cmd) h :)
  refine visible_eq ?_ ?_
  · simp only [step, hcmd]
    exact DebugModule.step_congr hdm
  · simp only [step, hcmd]
    exact AbstractCommand.step_congr hdm

theorem observe_visible (s : DmState c) : s.observe = s.visible.observe := by
  have hreq : s.visible.dm.commandRequest s.visible.cmd.state = s.dm.commandRequest s.cmd.state :=
    rfl
  simp only [observe, hreq, CommandObs.mk.injEq]
  refine ⟨?_, rfl, rfl, rfl⟩
  show _ = if (_ && s.dm.transfer) = true then
    some (s.dm.transfer && s.dm.write, if s.dm.transfer = true then s.dm.regno else 0) else none
  cases s.dm.transfer <;> simp

/-- States that agree in the visible registers behave alike, whatever follows. -/
theorem observe_runFrom (h : s.visible = t.visible) (js : List (DmInput c)) :
    ((machine c).runFrom s js).observe = ((machine c).runFrom t js).observe := by
  induction js generalizing s t with
  | nil => exact (observe_visible s).trans ((congrArg observe h).trans (observe_visible t).symm)
  | cons j js ih => exact ih (step_visible h)

end DmState

namespace DmiAccess
variable {c : CoreConfig} (a : DmiAccess c)

/-- The register write of an access to a data or Program Buffer register. -/
def stored (new : DebugModule c) : DebugModule c :=
  if !a.we then new
  else if DebugModule.isDataReg (c := c) a.adr.toNat then
    { new with dataRegs := Function.update new.dataRegs (a.adr.toNat - Dmi.DATA0) a.dbi }
  else if a.adr.toNat = Dmi.PROGBUF0 then { new with progbuf0 := a.dbi }
  else { new with progbuf1 := a.dbi }

end DmiAccess

namespace DebugModule
variable {c : CoreConfig} {d new new' : DebugModule c} {state : AbstractState} {halted auto : Bool}
variable {cmd : AbstractCommand} {hart : HartStatus} {a : DmiAccess c}

theorem touch_dbo (w : Word) :
    (d.touch state halted auto { new with dbo := w }).visible =
      (d.touch state halted auto new).visible := by
  rw [touch_visible, touch_visible]
  rfl

theorem read_touches (hwe : a.we = false) (ht : a.readTouches d = some auto) :
    (d.read state halted a.adr.toNat new).visible =
      (d.touch state halted auto (a.stored new)).visible := by
  simp only [DmiAccess.readTouches] at ht
  simp only [DmiAccess.stored, hwe, Bool.not_false, if_true]
  split_ifs at ht with h1 h2 h3 h4
  all_goals
    obtain rfl := Option.some.inj ht
    simp only [not_or] at h1
    simp only [read, h1.1, h1.2.1, h1.2.2.1, h1.2.2.2, if_false]
  · rw [if_pos h2]
    exact touch_dbo _
  · rw [if_neg h2, if_pos h3]
    exact touch_dbo _
  · rw [if_neg h2, if_neg h3, if_pos h4]
    exact touch_dbo _

theorem write_touches (hidle : d.commandBusy state = false) (hwe : a.we = true)
    (ht : a.writeTouches d = some auto) :
    d.writeReg state halted a.adr.toNat a.dbi new = d.touch state halted auto (a.stored new) := by
  simp only [DmiAccess.writeTouches] at ht
  simp only [DmiAccess.stored, hwe, Bool.not_true, Bool.false_eq_true, if_false]
  split_ifs at ht with h1 h2 h3 h4 h5
  all_goals obtain rfl := Option.some.inj ht
  · simp only [writeReg, h1, h2, hidle, if_true, if_false, Bool.false_eq_true]
  · simp only [not_or] at h3
    simp only [writeReg, h1, h2, h3.1, h3.2.1, h3.2.2, hidle, if_false, Bool.false_eq_true]
    rw [if_pos h4, if_pos h4]
  · simp only [not_or] at h3
    simp only [writeReg, h1, h2, h3.1, h3.2.1, h3.2.2, h4, hidle, if_false, Bool.false_eq_true]
    rw [if_pos h5]

theorem step_touches (hactive : d.dmactive = true) (hidle : d.commandBusy cmd.state = false)
    (ht : a.touches d = some auto) :
    (d.step cmd hart a).visible =
      (d.touch cmd.state hart.halted auto (a.stored (d.lifecycle cmd hart))).visible := by
  cases hen : a.en with
  | false => simp [DmiAccess.touches, hen] at ht
  | true =>
    simp only [DmiAccess.touches, hen, Bool.not_true, Bool.false_eq_true, if_false] at ht
    simp only [step, hactive, hen, Bool.not_true, Bool.false_eq_true, if_false]
    cases hwe : a.we with
    | true =>
      rw [hwe, if_pos rfl] at ht
      exact congrArg visible (write_touches hidle hwe ht)
    | false =>
      rw [hwe, if_neg (by decide)] at ht
      exact read_touches hwe ht

theorem touch_dataRegs : (d.touch state halted auto new).dataRegs = new.dataRegs := by
  unfold touch
  split_ifs <;> rfl

theorem lifecycle_dataRegs (h : cmd.state ≠ .regvalid) :
    (d.lifecycle cmd hart).dataRegs = d.dataRegs := by
  simp only [lifecycle, h, if_false]
  split_ifs <;> rfl

theorem stored_eq (a : DmiAccess c) (new : DebugModule c) :
    ∃ r p q, a.stored new = { new with dataRegs := r, progbuf0 := p, progbuf1 := q } := by
  unfold DmiAccess.stored
  split_ifs
  · exact ⟨_, _, _, rfl⟩
  · exact ⟨_, _, _, rfl⟩
  · exact ⟨_, _, _, rfl⟩
  · exact ⟨_, _, _, rfl⟩

section Idle
variable (hidle : d.commandBusy cmd.state = false)
include hidle

theorem stored_idle (a : DmiAccess c) (hart : HartStatus) :
    (a.stored (d.lifecycle cmd hart)).commandBusy cmd.state = false ∧
      (a.stored (d.lifecycle cmd hart)).dmactive = d.dmactive ∧
      (a.stored (d.lifecycle cmd hart)).cmderr =
        if d.abstractBusyError && d.cmderr = 0 then Cmderr.BUSY else d.cmderr := by
  obtain ⟨r, p, q, h⟩ := stored_eq a (d.lifecycle cmd hart)
  rw [h, lifecycle_eq hart hidle]
  exact ⟨hidle, rfl, rfl⟩

/-- A second cycle of the hart at rest changes nothing more. -/
theorem lifecycle_stored :
    ((a.stored (d.lifecycle cmd hart)).lifecycle cmd hart).visible =
      (a.stored (d.lifecycle cmd hart)).visible := by
  rw [lifecycle_eq hart (stored_idle hidle _ _).1]
  obtain ⟨r, p, q, h⟩ := stored_eq a (d.lifecycle cmd hart)
  rw [h, lifecycle_eq hart hidle]
  obtain ⟨_, reqAck, reset⟩ := hart
  cases reset <;> cases reqAck <;> simp [visible]

theorem restore_stored :
    d.restoreAutoexec (a.stored (d.clearAutoexec.lifecycle cmd hart)) =
      a.stored (d.lifecycle cmd hart) := by
  have hcommute (new : DebugModule c) :
      d.restoreAutoexec (a.stored new) = a.stored (d.restoreAutoexec new) := by
    unfold DmiAccess.stored
    split_ifs <;> rfl
  rw [hcommute, lifecycle_eq hart hidle, lifecycle_eq hart (d := d.clearAutoexec) hidle]
  rfl

end Idle

theorem clearAutoexec_touches (ht : a.touches d = some auto) :
    a.touches d.clearAutoexec = some false := by
  have hbit {w : ℕ} (j : ℕ) : (0 : BitVec w).getLsbD j = false := BitVec.getLsbD_zero
  unfold DmiAccess.touches DmiAccess.readTouches DmiAccess.writeTouches at *
  simp only [clearAutoexec, hbit] at *
  split_ifs at ht ⊢ <;> rfl

theorem start_congr (h : new.visible = new'.visible) :
    ({ new with abstractCommandNew := true } : DebugModule c).visible =
      ({ new' with abstractCommandNew := true } : DebugModule c).visible :=
  (congrArg (fun x => { x with abstractCommandNew := true }) h :)

theorem setCommand_visible {value : Word} (h : d.Repeats value) :
    (setCommand value d).visible = d.visible := by
  obtain ⟨-, -, hpost, htransfer, hfields⟩ := h
  have hwrite : (value.getLsbD 17 && value.getLsbD 16) = (d.transfer && d.write) := by
    rw [htransfer]
    cases hv : value.getLsbD 17 with
    | false => rfl
    | true => rw [(hfields (htransfer.trans hv)).1]
  have hregno : (if value.getLsbD 17 then value.extractLsb' 0 5 else 0) =
      if d.transfer then d.regno else 0 := by
    rw [htransfer]
    cases hv : value.getLsbD 17 with
    | false => rfl
    | true => rw [(hfields (htransfer.trans hv)).2]
  simp only [visible, setCommand, mk.injEq, true_and, and_true]
  exact ⟨hpost.symm, htransfer.symm, hwrite, hregno⟩

section WriteCommand
variable {value : Word}

theorem writeCommand_reported (herr : d.cmderr ≠ Cmderr.NONE) :
    d.writeCommand state halted value new = new :=
  if_neg herr

variable (hidle : d.commandBusy state = false) (herr : d.cmderr = Cmderr.NONE)
include hidle herr

theorem writeCommand_running :
    d.writeCommand state false value new = { new with cmderr := Cmderr.HART_RUNNING } := by
  rw [writeCommand, if_pos herr, hidle]
  rfl

theorem writeCommand_accepted (htype : value.extractLsb' 24 8 = 0#8)
    (hsup : supported value = true) :
    d.writeCommand state true value new =
      { setCommand value new with abstractCommandNew := true } := by
  rw [writeCommand, if_pos herr, hidle, if_neg (by decide), if_neg (by decide), if_pos htype]
  exact if_pos hsup

theorem writeCommand_rejected (h : ¬(value.extractLsb' 24 8 = 0#8 ∧ supported value = true)) :
    (d.writeCommand state true value new).cmderr = Cmderr.NOT_SUPPORTED := by
  rw [writeCommand, if_pos herr, hidle, if_neg (by decide), if_neg (by decide)]
  split_ifs with htype hsup
  · exact absurd ⟨htype, hsup⟩ h
  · rfl
  · rfl

end WriteCommand

theorem adr_toNat {adr : ℕ} (h : adr < 2 ^ 7) : (BitVec.ofNat c.dmiAdrWidth adr).toNat = adr := by
  rw [BitVec.toNat_ofNat]
  exact Nat.mod_eq_of_lt (lt_of_lt_of_le h (Nat.pow_le_pow_right (by decide) c.dmiAdrWidth_range.1))

/-- A write of `command` reaches `writeCommand`. -/
theorem writeReg_command {value : Word} :
    d.writeReg state halted (BitVec.ofNat c.dmiAdrWidth Dmi.COMMAND).toNat value new =
      d.writeCommand state halted value new := by
  have hdata : ¬isDataReg (c := c) Dmi.COMMAND = true := fun h =>
    absurd (isDataReg_lt h) (by decide)
  rw [adr_toNat (by decide), writeReg, if_neg (by decide), if_neg hdata, if_neg (by decide),
    if_neg (by decide), if_pos rfl]

end DebugModule

namespace DmState
variable {c : CoreConfig} {s : DmState c} {i : DmInput c} {value : Word}

/-- The registers after the access, nothing started. -/
def accessed (s : DmState c) (i : DmInput c) : DebugModule c :=
  i.access.stored (s.dm.lifecycle s.cmd i.hart)

theorem cmd_step_idle (hidle : s.busy = false) (hactive : s.dm.dmactive = true) :
    (s.step i).cmd = s.cmd := by
  obtain ⟨hnew, hnone⟩ : s.dm.abstractCommandNew = false ∧ s.cmd.state = .none := by
    simpa [busy, DebugModule.commandBusy] using hidle
  simp only [step, AbstractCommand.step, hactive, hnone, DebugModule.commandRequest, hnew]
  split_ifs <;> first | rfl | contradiction

section Touch
variable (hactive : s.dm.dmactive = true) (hidle : s.busy = false)
include hactive hidle

theorem step_touches (ht : i.access.touches s.dm = some true) :
    (s.step i).visible =
      { dm := (s.dm.touch s.cmd.state i.hart.halted true (s.accessed i)).visible, cmd := s.cmd } :=
  visible_eq (t := { dm := _, cmd := s.cmd }) (DebugModule.step_touches hactive hidle ht)
    (cmd_step_idle hidle hactive)

/-- The access without autoexec. -/
theorem step_clear (ht : i.access.touches s.dm = some true) :
    let t := { s with dm := s.dm.clearAutoexec }.step i
    (s.dm.restoreAutoexec t.dm).visible = (s.accessed i).visible ∧ t.cmd = s.cmd := by
  have htouch : (s.dm.clearAutoexec.step s.cmd i.hart i.access).visible = _ :=
    DebugModule.step_touches hactive hidle (DebugModule.clearAutoexec_touches ht)
  have hplain (new : DebugModule c) :
      s.dm.clearAutoexec.touch s.cmd.state i.hart.halted false new = new := by
    have hb : s.dm.clearAutoexec.commandBusy s.cmd.state = false := hidle
    simp [DebugModule.touch, hb]
  rw [hplain] at htouch
  refine ⟨?_, cmd_step_idle (s := { s with dm := s.dm.clearAutoexec }) hidle hactive⟩
  rw [accessed, ← DebugModule.restore_stored hidle]
  exact (congrArg s.dm.restoreAutoexec htouch :)

theorem rewrite_visible (ht : i.access.touches s.dm = some true) :
    (s.rewrite i value).visible =
      { dm := ((s.accessed i).writeCommand s.cmd.state i.hart.halted value (s.accessed i)).visible
        cmd := s.cmd } := by
  obtain ⟨hdm, hcmd⟩ := step_clear hactive hidle ht
  obtain ⟨hbusy, hact, -⟩ := DebugModule.stored_idle hidle i.access i.hart
  have hcongr : (s.rewrite i value).visible =
      (({ dm := s.accessed i, cmd := s.cmd } : DmState c).step
        (commandWrite i.hart value)).visible :=
    step_visible (visible_eq hdm hcmd)
  rw [hcongr]
  refine visible_eq
    (t :=
      { dm := (s.accessed i).writeCommand s.cmd.state i.hart.halted value (s.accessed i)
        cmd := s.cmd })
    ?_ (cmd_step_idle hbusy (hact.trans hactive))
  simp only [step, DebugModule.step, commandWrite, accessed, hact, hactive, Bool.not_true,
    Bool.false_eq_true, if_false, if_true, DebugModule.writeReg_command]
  exact DebugModule.writeCommand_congr rfl (DebugModule.lifecycle_stored hidle)

end Touch
/-- Autoexec does in `s` what a write of `value` would do. -/
def Faithful (s : DmState c) (i : DmInput c) (value : Word) : Prop :=
  s.dm.cmderr ≠ 0 ∨
    s.dm.abstractBusyError = false ∧ (i.hart.halted = false ∨ s.dm.Repeats value)

instance : Decidable (s.Faithful i value) :=
  inferInstanceAs (Decidable (_ ∨ _ ∧ (_ ∨ _)))

section Outcomes
variable (hidle : s.busy = false)
include hidle

theorem accessed_fields :
    (s.accessed i).commandBusy s.cmd.state = false ∧ (s.accessed i).dmactive = s.dm.dmactive ∧
      (s.accessed i).abstractBusyError = false ∧
      (s.accessed i).cmderr =
        (if s.dm.abstractBusyError && s.dm.cmderr = 0 then Cmderr.BUSY else s.dm.cmderr) ∧
      (s.accessed i).postexec = s.dm.postexec ∧ (s.accessed i).transfer = s.dm.transfer ∧
      (s.accessed i).write = s.dm.write ∧ (s.accessed i).regno = s.dm.regno := by
  obtain ⟨r, p, q, h⟩ := DebugModule.stored_eq i.access (s.dm.lifecycle s.cmd i.hart)
  rw [accessed, h, DebugModule.lifecycle_eq i.hart hidle]
  exact ⟨hidle, rfl, rfl, rfl, rfl, rfl, rfl, rfl⟩

theorem touch_reported {new : DebugModule c} {auto halted : Bool} (herr : s.dm.cmderr ≠ 0) :
    s.dm.touch s.cmd.state halted auto new = new := by
  have hb : s.dm.commandBusy s.cmd.state = false := hidle
  have herr' : ¬s.dm.cmderr = Cmderr.NONE := herr
  simp [DebugModule.touch, hb, herr']

theorem touch_running {new : DebugModule c} (herr : s.dm.cmderr = 0) :
    s.dm.touch s.cmd.state false true new = { new with cmderr := Cmderr.HART_RUNNING } := by
  have hb : s.dm.commandBusy s.cmd.state = false := hidle
  have herr' : s.dm.cmderr = Cmderr.NONE := herr
  simp [DebugModule.touch, DebugModule.commandStartError, hb, herr', Cmderr.NONE,
    Cmderr.HART_RUNNING]

theorem touch_halted {new : DebugModule c} (herr : s.dm.cmderr = 0) :
    s.dm.touch s.cmd.state true true new = { new with abstractCommandNew := true } := by
  have hb : s.dm.commandBusy s.cmd.state = false := hidle
  have herr' : s.dm.cmderr = Cmderr.NONE := herr
  simp [DebugModule.touch, DebugModule.commandStartError, hb, herr']

end Outcomes

theorem Faithful.visible_eq (h : s.Faithful i value) (hidle : s.busy = false) :
    (s.dm.touch s.cmd.state i.hart.halted true (s.accessed i)).visible =
      ((s.accessed i).writeCommand s.cmd.state i.hart.halted value (s.accessed i)).visible := by
  obtain ⟨hb, -, -, he, hpost, htransfer, hwrite, hregno⟩ := accessed_fields (i := i) hidle
  by_cases herr : s.dm.cmderr = 0
  · obtain ⟨hflag, hrest⟩ := h.resolve_left (fun h => h herr)
    have he' : (s.accessed i).cmderr = 0 := by rw [he, hflag, herr]; rfl
    cases hh : i.hart.halted with
    | false => rw [touch_running hidle herr, DebugModule.writeCommand_running hb he']
    | true =>
      have hrep := hrest.resolve_left (by simp [hh])
      have hrep' : (s.accessed i).Repeats value := by
        unfold DebugModule.Repeats
        rwa [hpost, htransfer, hwrite, hregno]
      rw [touch_halted hidle herr, DebugModule.writeCommand_accepted hb he' hrep.1 hrep.2.1]
      exact DebugModule.start_congr (DebugModule.setCommand_visible hrep').symm
  · rw [touch_reported hidle herr, DebugModule.writeCommand_reported]
    rw [he, decide_eq_false herr, Bool.and_false, if_neg (by decide)]
    exact herr

/-- A cycle without an access, the hart halted. -/
def quiet : DmInput c where
  hart := { halted := true }

theorem quiet_step {t : DmState c} (hactive : t.dm.dmactive = true) :
    (t.step quiet).dm.dmactive = true ∧ (t.step quiet).dm.transfer = t.dm.transfer ∧
      (t.step quiet).dm.write = t.dm.write ∧ (t.step quiet).dm.postexec = t.dm.postexec := by
  simp only [step, DebugModule.step, quiet, hactive, Bool.not_true, Bool.not_false, if_true,
    Bool.false_eq_true, if_false]
  unfold DebugModule.lifecycle
  split_ifs <;> exact ⟨hactive, rfl, rfl, rfl⟩

theorem quiet_run_two {t : DmState c} (hactive : t.dm.dmactive = true)
    (hnew : t.dm.abstractCommandNew = true) (hnone : t.cmd.state = .none) :
    ((t.step quiet).step quiet).cmd.state =
      if t.dm.transfer && !t.dm.write then .regvalid
      else if t.dm.postexec then .exec else .none := by
  obtain ⟨h1, ht1, hw1, hp1⟩ := quiet_step hactive
  have hs1 : (t.step quiet).cmd.state = .taken := by
    simp [step, AbstractCommand.step, quiet, hactive, hnone, hnew, DebugModule.commandRequest]
  have hcmd : ((t.step quiet).step quiet).cmd =
      (t.step quiet).cmd.step (t.step quiet).dm true {} := rfl
  rw [hcmd]
  simp only [AbstractCommand.step, h1, hs1, ht1, hw1, Bool.not_true, Bool.false_eq_true, if_false]
  split_ifs with hread hexec
  · rfl
  · simp [AbstractCommand.afterTransfer, hp1, hexec]
  · simp [AbstractCommand.afterTransfer, hp1, hexec]

/-- A started command reaches its Program Buffer, if it has one to run. -/
theorem quiet_run {t : DmState c} (hactive : t.dm.dmactive = true)
    (hnew : t.dm.abstractCommandNew = true) (hnone : t.cmd.state = .none) :
    ((machine c).runFrom t
      (.replicate (if t.dm.transfer && !t.dm.write then 3 else 2) quiet)).cmd.state =
        if t.dm.postexec then .exec else .none := by
  have htwo := quiet_run_two hactive hnew hnone
  obtain ⟨h1, ht1, hw1, hp1⟩ := quiet_step hactive
  obtain ⟨h2, ht2, hw2, hp2⟩ := quiet_step h1
  cases hread : t.dm.transfer && !t.dm.write with
  | false =>
    rw [hread, if_neg (by decide)] at htwo
    exact htwo
  | true =>
    rw [hread, if_pos rfl] at htwo
    have hcmd : (((t.step quiet).step quiet).step quiet).cmd =
        ((t.step quiet).step quiet).cmd.step ((t.step quiet).step quiet).dm true {} := rfl
    show (((t.step quiet).step quiet).step quiet).cmd.state = _
    rw [hcmd]
    simp only [AbstractCommand.step, h2, htwo, AbstractCommand.afterTransfer, hp2, hp1,
      Bool.not_true, Bool.false_eq_true, if_false]

/-- Both runs, after the two ways to start, are seen the same for ever. -/
def Alike (s t : DmState c) : Prop :=
  ∀ js, ((machine c).runFrom s js).observe = ((machine c).runFrom t js).observe

theorem Alike.of_visible {t : DmState c} (h : s.visible = t.visible) : Alike s t :=
  observe_runFrom h

theorem Alike.trans_visible {s' t t' : DmState c} (h : Alike s t) (hs : s.visible = s'.visible)
    (ht : t.visible = t'.visible) : Alike s' t' := fun js =>
  (observe_runFrom hs js).symm.trans ((h js).trans (observe_runFrom ht js))

def data0Write (value : Word) : DmInput c where
  access := { en := true, we := true, adr := BitVec.ofNat _ Dmi.DATA0, dbi := value }

/-- A started command keeps `data0` from the debugger. -/
theorem data0_busy (value : Word) {d : DebugModule c} {cmd : AbstractCommand}
    (hactive : d.dmactive = true) (hnone : cmd.state = .none) (hnew : d.abstractCommandNew = true) :
    (({ dm := d, cmd := cmd } : DmState c).step (data0Write value)).dm.dataRegs 0 =
      d.dataRegs 0 := by
  have hbusy : d.commandBusy cmd.state = true := by simp [DebugModule.commandBusy, hnew]
  have hdata : (d.step cmd {} (data0Write value).access).dataRegs =
      (d.step cmd {} {}).dataRegs :=
    congrArg DebugModule.Guarded.dataRegs (DebugModule.step_guarded hactive hbusy)
  have hlife : (d.step cmd {} {}).dataRegs = d.dataRegs := by
    simp only [DebugModule.step, hactive, Bool.not_true, Bool.not_false, Bool.false_eq_true,
      if_false, if_true]
    exact DebugModule.lifecycle_dataRegs (by simp [hnone])
  exact congrFun (hdata.trans hlife) 0

theorem data0_idle {d : DebugModule c} {cmd : AbstractCommand} (hactive : d.dmactive = true)
    (hidle : d.commandBusy cmd.state = false) :
    (({ dm := d, cmd := cmd } : DmState c).step (data0Write value)).dm.dataRegs 0 = value := by
  have hadr : (data0Write (c := c) value).access.adr.toNat = Dmi.DATA0 :=
    DebugModule.adr_toNat (by decide)
  have hreg : DebugModule.isDataReg (c := c) Dmi.DATA0 = true := by
    simpa [DebugModule.isDataReg] using
      Nat.le_sub_one_of_lt (Nat.lt_add_of_pos_right c.numdata_range.1)
  have ht : (data0Write value).access.touches d = some (d.abstractAutoData.getLsbD 0) := by
    simp only [DmiAccess.touches, DmiAccess.writeTouches, hadr, hreg]
    rfl
  have hvisible : (d.step cmd {} _).visible = _ := DebugModule.step_touches hactive hidle ht
  refine (congrArg (fun x => x.dataRegs 0) hvisible :).trans ?_
  show (d.touch cmd.state false _ _).dataRegs 0 = value
  rw [DebugModule.touch_dataRegs, DmiAccess.stored, hadr, hreg]
  show (Function.update (d.lifecycle cmd {}).dataRegs 0 value : ℕ → Word) 0 = value
  exact Function.update_self ..

/-- A command was started one edge ago. -/
structure Started (t : DmState c) : Prop where
  active : t.dm.dmactive = true
  new : t.dm.abstractCommandNew = true
  idle : t.cmd.state = .none

theorem Started.transfer_eq {t : DmState c} (h : t.Started) :
    t.observe.transfer = if t.dm.transfer then some (t.dm.write, t.dm.regno) else none := by
  have hreq : t.dm.commandRequest t.cmd.state = true := by
    simp [DebugModule.commandRequest, h.new, h.idle]
  simp only [observe, hreq, Bool.true_and]

/-- Started commands that are seen alike ask for the same. -/
theorem Alike.fields {t u : DmState c} (h : Alike t u) (ht : t.Started) (hu : u.Started) :
    t.dm.transfer = u.dm.transfer ∧ t.dm.postexec = u.dm.postexec ∧
      (t.dm.transfer = true → t.dm.write = u.dm.write ∧ t.dm.regno = u.dm.regno) := by
  have hobs : t.observe.transfer = u.observe.transfer := congrArg CommandObs.transfer (h [])
  rw [ht.transfer_eq, hu.transfer_eq] at hobs
  have hsame : t.dm.transfer = u.dm.transfer ∧
      (t.dm.transfer = true → t.dm.write = u.dm.write ∧ t.dm.regno = u.dm.regno) := by
    cases htt : t.dm.transfer <;> cases hut : u.dm.transfer <;> simp [htt, hut] at hobs ⊢
    exact hobs
  have hread : (t.dm.transfer && !t.dm.write) = (u.dm.transfer && !u.dm.write) := by
    cases htt : t.dm.transfer with
    | false => rw [← hsame.1, htt]; rfl
    | true => rw [← hsame.1, (hsame.2 htt).1, htt]
  have hissue := congrArg CommandObs.issue
    (h (.replicate (if t.dm.transfer && !t.dm.write then 3 else 2) quiet))
  have hrun := quiet_run ht.active ht.new ht.idle
  have hrun' := quiet_run hu.active hu.new hu.idle
  rw [← hread] at hrun'
  refine ⟨hsame.1, ?_, hsame.2⟩
  simp only [observe, AbstractCommand.issuing, hrun, hrun'] at hissue
  cases htp : t.dm.postexec <;> cases hup : u.dm.postexec <;> simp [htp, hup] at hissue ⊢

/-- Where autoexec is not faithful, some continuation tells the two apart. -/
theorem Faithful.of_alike (hactive : s.dm.dmactive = true) (hidle : s.busy = false)
    (h : Alike { dm := s.dm.touch s.cmd.state i.hart.halted true (s.accessed i), cmd := s.cmd }
      { dm := (s.accessed i).writeCommand s.cmd.state i.hart.halted value (s.accessed i)
        cmd := s.cmd }) : s.Faithful i value := by
  obtain ⟨hb, hact, -, he, hpost, htransfer, hwrite, hregno⟩ := accessed_fields (i := i) hidle
  obtain ⟨hnew, hnone⟩ : s.dm.abstractCommandNew = false ∧ s.cmd.state = .none := by
    simpa [busy, DebugModule.commandBusy] using hidle
  by_contra hnot
  obtain ⟨herr, hrest⟩ := not_or.mp hnot
  rw [not_not] at herr
  cases hflag : s.dm.abstractBusyError with
  | true =>
    have hbusyerr : (s.accessed i).cmderr = Cmderr.BUSY := by rw [he, hflag, herr]; rfl
    rw [DebugModule.writeCommand_reported (by rw [hbusyerr]; decide)] at h
    cases hh : i.hart.halted with
    | false =>
      rw [hh, touch_running hidle herr] at h
      have hcmderr : Cmderr.HART_RUNNING = (s.accessed i).cmderr :=
        congrArg CommandObs.cmderr (h [])
      exact absurd (hcmderr.trans hbusyerr) (by decide)
    | true =>
      -- the started command keeps `data0` from the debugger, who reaches it otherwise
      rw [hh, touch_halted hidle herr] at h
      have hdata := congrArg CommandObs.data0 (h [data0Write (~~~(s.accessed i).dataRegs 0)])
      have hbusy := data0_busy (~~~(s.accessed i).dataRegs 0)
        (d := { s.accessed i with abstractCommandNew := true }) (hact.trans hactive) hnone rfl
      have hsame : (s.accessed i).dataRegs 0 = ~~~(s.accessed i).dataRegs 0 :=
        hbusy.symm.trans (hdata.trans (data0_idle (hact.trans hactive) hb))
      exact absurd (congrArg (·.getLsbD 0) hsame) (by simp)
  | false =>
    have hzero : (s.accessed i).cmderr = Cmderr.NONE := by rw [he, hflag, herr]; rfl
    obtain ⟨hh, hrep⟩ : i.hart.halted = true ∧ ¬s.dm.Repeats value := by
      simpa [hflag] using hrest
    rw [hh, touch_halted hidle herr] at h
    by_cases haccept : value.extractLsb' 24 8 = 0#8 ∧ DebugModule.supported value = true
    · rw [DebugModule.writeCommand_accepted hb hzero haccept.1 haccept.2] at h
      obtain ⟨ht, hp, hfields⟩ := h.fields ⟨hact.trans hactive, rfl, hnone⟩
        ⟨hact.trans hactive, rfl, hnone⟩
      refine hrep ⟨haccept.1, haccept.2, hpost.symm.trans hp, htransfer.symm.trans ht, ?_⟩
      intro htr
      obtain ⟨hw, hr⟩ := hfields (htransfer.trans htr)
      exact ⟨hwrite.symm.trans hw, hregno.symm.trans hr⟩
    · have hcmderr : (s.accessed i).cmderr = _ := congrArg CommandObs.cmderr (h [])
      rw [hzero] at hcmderr
      exact absurd (hcmderr.trans (DebugModule.writeCommand_rejected hb hzero haccept)) (by decide)

end DmState
/-- From every state the module reaches, an access with its autoexec bit set goes on as the
access without it and a write of the last `command` value would, exactly where `cmderr`
stops both, or no conflict waits to be reported and either the hart runs or the stored
fields are those of an accepted value. -/
theorem autoexec_repeats_iff {c : CoreConfig} (is : List (DmInput c)) (i : DmInput c)
    (hactive : ((CommandHistory.machine c).run is).s.dm.dmactive = true)
    (hidle : ((CommandHistory.machine c).run is).s.busy = false)
    (htouch : i.access.touches ((CommandHistory.machine c).run is).s.dm = some true) :
    (∀ js,
        ((DmState.machine c).runFrom (((CommandHistory.machine c).run is).s.step i) js).observe =
          ((DmState.machine c).runFrom
            (((CommandHistory.machine c).run is).s.rewrite i
              ((CommandHistory.machine c).run is).command) js).observe) ↔
      ((CommandHistory.machine c).run is).s.Faithful i
        ((CommandHistory.machine c).run is).command := by
  generalize (CommandHistory.machine c).run is = w at *
  have hstep := DmState.step_touches hactive hidle htouch
  have hwrite : (w.s.rewrite i w.command).visible = _ :=
    DmState.rewrite_visible hactive hidle htouch
  constructor
  · intro h
    exact DmState.Faithful.of_alike hactive hidle (DmState.Alike.trans_visible h hstep hwrite)
  · intro h
    exact DmState.Alike.of_visible (hstep.trans ((congrArg (DmState.mk · w.s.cmd)
      (h.visible_eq hidle)).trans hwrite.symm))

namespace CommandHistory
open CommandWatch (dmiWrite)

/-- `command` written with `value`, any error cleared, and `autoexecdata0` set. -/
def armed (value : Word) : List (DmInput defaultConfig) :=
  [dmiWrite Dmi.DMCONTROL 1, dmiWrite Dmi.COMMAND value, DmState.quiet, DmState.quiet,
    DmState.quiet, dmiWrite Dmi.ABSTRACTCS 0x700, dmiWrite Dmi.ABSTRACTAUTO 1]

def readData0 : DmInput defaultConfig where
  access := { en := true, adr := BitVec.ofNat _ Dmi.DATA0 }
  hart := { halted := true }

end CommandHistory

/-- After an accepted read of `x1`. -/
theorem autoexec_repeats_accepted :
    ((CommandHistory.machine defaultConfig).run (CommandHistory.armed 0x221001)).s.dm.dmactive =
        true ∧
      ∀ js, ((DmState.machine defaultConfig).runFrom
          (((CommandHistory.machine defaultConfig).run (CommandHistory.armed 0x221001)).s.step
            CommandHistory.readData0) js).observe =
        ((DmState.machine defaultConfig).runFrom
          (((CommandHistory.machine defaultConfig).run (CommandHistory.armed 0x221001)).s.rewrite
            CommandHistory.readData0
            ((CommandHistory.machine defaultConfig).run (CommandHistory.armed 0x221001)).command)
          js).observe :=
  ⟨by decide +kernel, (autoexec_repeats_iff (CommandHistory.armed 0x221001)
    CommandHistory.readData0 (by decide +kernel) (by decide +kernel)
    (by decide +kernel)).mpr (by decide +kernel)⟩

/-- A rejected 64-bit read of `x1` leaves its fields behind, and autoexec runs them. -/
theorem autoexec_runs_rejected :
    ¬∀ (is : List (DmInput defaultConfig)) (i : DmInput defaultConfig),
      ((CommandHistory.machine defaultConfig).run is).s.dm.dmactive = true →
      ((CommandHistory.machine defaultConfig).run is).s.busy = false →
      i.access.touches ((CommandHistory.machine defaultConfig).run is).s.dm = some true →
      ∀ js,
        ((DmState.machine defaultConfig).runFrom
            (((CommandHistory.machine defaultConfig).run is).s.step i) js).observe =
          ((DmState.machine defaultConfig).runFrom
            (((CommandHistory.machine defaultConfig).run is).s.rewrite i
              ((CommandHistory.machine defaultConfig).run is).command) js).observe := by
  intro h
  have hnow := h (CommandHistory.armed 0x321001) CommandHistory.readData0 (by decide +kernel)
    (by decide +kernel) (by decide +kernel) []
  exact absurd (congrArg CommandObs.cmderr hnow) (by decide +kernel)

end BonfireCore
