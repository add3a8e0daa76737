import BonfireCore.Clocked
import BonfireCore.DebugModule

/-! The busy and `cmderr` protocol of abstract commands. A conflict with a busy command is
published one cycle after the command has ended; an access in that cycle gets in between. -/
namespace BonfireCore

/-- The Debug Module and the abstract-command controller. -/
structure DmState (c : CoreConfig) where
  dm : DebugModule c := {}
  cmd : AbstractCommand := {}

/-- One cycle: a DMI access, the hart and the pipeline as they please. -/
structure DmInput (c : CoreConfig) where
  access : DmiAccess c := {}
  hart : HartStatus := {}
  progbuf : ProgbufCompletion := {}

namespace DmState
variable {c : CoreConfig}

def step (s : DmState c) (i : DmInput c) : DmState c where
  dm := s.dm.step s.cmd i.hart i.access
  cmd := s.cmd.step s.dm i.hart.halted i.progbuf

def busy (s : DmState c) : Bool := s.dm.commandBusy s.cmd.state

end DmState

namespace DmiAccess
variable {c : CoreConfig} (a : DmiAccess c)

/-- The access reads a data or Program Buffer register; `none` for any other register,
otherwise its autoexec bit. -/
def readTouches (d : DebugModule c) : Option Bool :=
  let adr := a.adr.toNat
  if adr = Dmi.DMSTATUS ∨ adr = Dmi.DMCONTROL ∨ adr = Dmi.HARTINFO ∨ adr = Dmi.ABSTRACTAUTO then
    none
  else if adr = Dmi.PROGBUF0 then some (d.abstractAutoProgbuf.getLsbD 0)
  else if c.progbufSize = 2 ∧ adr = Dmi.PROGBUF1 then some (d.abstractAutoProgbuf.getLsbD 1)
  else if DebugModule.isDataReg (c := c) adr then
    some (d.abstractAutoData.getLsbD (adr - Dmi.DATA0))
  else none

def writeTouches (d : DebugModule c) : Option Bool :=
  let adr := a.adr.toNat
  if adr = Dmi.DMCONTROL then none
  else if DebugModule.isDataReg (c := c) adr then
    some (d.abstractAutoData.getLsbD (adr - Dmi.DATA0))
  else if adr = Dmi.ABSTRACTCS ∨ adr = Dmi.ABSTRACTAUTO ∨ adr = Dmi.COMMAND then none
  else if adr = Dmi.PROGBUF0 then some (d.abstractAutoProgbuf.getLsbD 0)
  else if c.progbufSize = 2 ∧ adr = Dmi.PROGBUF1 then some (d.abstractAutoProgbuf.getLsbD 1)
  else none

/-- The autoexec bit of the data or Program Buffer register accessed. -/
def touches (d : DebugModule c) : Option Bool :=
  if !a.en then none else if a.we then a.writeTouches d else a.readTouches d

/-- A write to the register at `adr`, which no data register hides. -/
def writes (adr : ℕ) : Bool := a.en && a.we && a.adr.toNat = adr

/-- The accesses that conflict with a busy command. -/
def isGuarded (d : DebugModule c) : Bool :=
  (a.touches d).isSome || a.writes Dmi.ABSTRACTCS || a.writes Dmi.ABSTRACTAUTO ||
    a.writes Dmi.COMMAND

/-- The access would start a command, if none is busy and `cmderr` is 0. -/
def requests (d : DebugModule c) : Bool :=
  a.touches d = some true ||
    a.writes Dmi.COMMAND && a.dbi.extractLsb' 24 8 = 0#8 && DebugModule.supported a.dbi

end DmiAccess

namespace DebugModule
variable {c : CoreConfig} {d new : DebugModule c} {state : AbstractState} {halted : Bool}

/-- What an access does to the protocol's registers. -/
inductive Outcome (d : DebugModule c) (state : AbstractState) (halted : Bool) (a : DmiAccess c)
    (new r : DebugModule c) : Prop
  | conflict (hbusy : d.commandBusy state = true) (hnone : d.cmderr = 0)
      (hguard : a.isGuarded d = true) (hflag : r.abstractBusyError = true)
      (herr : r.cmderr = new.cmderr) (hnew : r.abstractCommandNew = new.abstractCommandNew)
  | clear (hbusy : d.commandBusy state = false) (hw : a.writes Dmi.ABSTRACTCS = true)
      (hflag : r.abstractBusyError = new.abstractBusyError)
      (herr : r.cmderr = d.cmderr &&& ~~~a.dbi.extractLsb' 8 3)
      (hnew : r.abstractCommandNew = new.abstractCommandNew)
  | reject (hbusy : d.commandBusy state = false) (hnone : d.cmderr = 0)
      (hflag : r.abstractBusyError = new.abstractBusyError) (herr : r.cmderr ≠ 0)
      (hnew : r.abstractCommandNew = new.abstractCommandNew)
  | start (hbusy : d.commandBusy state = false) (hnone : d.cmderr = 0) (hhalted : halted = true)
      (hreq : a.requests d = true) (hflag : r.abstractBusyError = new.abstractBusyError)
      (herr : r.cmderr = new.cmderr) (hnew : r.abstractCommandNew = true)
  | keep (hno : d.commandBusy state = true → d.cmderr = 0 → a.isGuarded d = false)
      (hw : d.commandBusy state = false → a.writes Dmi.ABSTRACTCS = false)
      (hflag : r.abstractBusyError = new.abstractBusyError) (herr : r.cmderr = new.cmderr)
      (hnew : r.abstractCommandNew = new.abstractCommandNew)

theorem touch_outcome {a : DmiAccess c} {auto : Bool} {new' : DebugModule c}
    (ht : a.touches d = some auto) (hw : a.writes Dmi.ABSTRACTCS = false)
    (hsame : new'.abstractBusyError = new.abstractBusyError ∧ new'.cmderr = new.cmderr ∧
      new'.abstractCommandNew = new.abstractCommandNew) :
    Outcome d state halted a new (d.touch state halted auto new') := by
  obtain ⟨hflag, herr, hnew⟩ := hsame
  unfold touch
  cases hb : d.commandBusy state with
  | true =>
    simp only [if_true]
    split_ifs with h0
    · exact .conflict hb h0 (by simp [DmiAccess.isGuarded, ht]) rfl herr hnew
    · exact .keep (fun _ h => absurd h h0) (fun h => absurd (hb.symm.trans h) (by decide)) hflag
        herr hnew
  | false =>
    simp only [Bool.false_eq_true, if_false]
    split_ifs with hauto hstart
    · simp only [Bool.and_eq_true, decide_eq_true_eq] at hauto
      exact .reject hb hauto.2 hflag hstart hnew
    · simp only [Bool.and_eq_true, decide_eq_true_eq] at hauto
      have hhalted : halted = true := by
        by_contra hh
        simp [commandStartError, hb, hh, Cmderr.HART_RUNNING, Cmderr.NONE] at hstart
      exact .start hb hauto.2 hhalted (by simp [DmiAccess.requests, ht, hauto.1]) hflag herr rfl
    · exact .keep (fun h => absurd (hb.symm.trans h) (by decide)) (fun _ => hw) hflag herr hnew

theorem read_outcome {a : DmiAccess c} (hen : a.en = true) (hwe : a.we = false) :
    Outcome d state halted a new (d.read state halted a.adr.toNat new) := by
  have hw (adr : ℕ) : a.writes adr = false := by simp [DmiAccess.writes, hwe]
  have ht : a.touches d = a.readTouches d := by simp [DmiAccess.touches, hen, hwe]
  have hkeep (h : a.readTouches d = none) {r : DebugModule c}
      (hflag : r.abstractBusyError = new.abstractBusyError) (herr : r.cmderr = new.cmderr)
      (hnew : r.abstractCommandNew = new.abstractCommandNew) : Outcome d state halted a new r :=
    .keep (fun _ _ => by simp [DmiAccess.isGuarded, ht, h, hw]) (fun _ => hw _) hflag herr hnew
  unfold DmiAccess.readTouches at ht hkeep
  unfold read
  split_ifs with h1 h2 h3 h4 h5 h6 h7 h8
  · exact hkeep (if_pos (.inl h1)) rfl rfl rfl
  · exact hkeep (if_pos (.inr (.inl h2))) rfl rfl rfl
  · exact hkeep (if_pos (.inr (.inr (.inl h3)))) rfl rfl rfl
  · exact hkeep (if_pos (.inr (.inr (.inr h4)))) rfl rfl rfl
  all_goals simp only [h1, h2, h3, h4, or_self, if_false] at ht hkeep
  · exact touch_outcome (ht.trans (if_pos h5)) (hw _) ⟨rfl, rfl, rfl⟩
  · exact touch_outcome (ht.trans ((if_neg h5).trans (if_pos h6))) (hw _) ⟨rfl, rfl, rfl⟩
  · exact touch_outcome (ht.trans ((if_neg h5).trans ((if_neg h6).trans (if_pos h7)))) (hw _)
      ⟨rfl, rfl, rfl⟩
  · exact hkeep ((if_neg h5).trans ((if_neg h6).trans (if_neg h7))) rfl rfl rfl
  · exact hkeep ((if_neg h5).trans ((if_neg h6).trans (if_neg h7))) rfl rfl rfl

theorem guardedWrite_outcome {a : DmiAccess c} {f : DebugModule c → DebugModule c}
    (hguard : a.isGuarded d = true) (hw : a.writes Dmi.ABSTRACTCS = false)
    (hsame : (f new).abstractBusyError = new.abstractBusyError ∧ (f new).cmderr = new.cmderr ∧
      (f new).abstractCommandNew = new.abstractCommandNew) :
    Outcome d state halted a new (d.guardedWrite state f new) := by
  obtain ⟨hflag, herr, hnew⟩ := hsame
  unfold guardedWrite
  cases hb : d.commandBusy state with
  | true =>
    simp only [if_true]
    split_ifs with h0
    · exact .conflict hb h0 hguard rfl rfl rfl
    · exact .keep (fun _ h => absurd h h0) (fun _ => hw) rfl rfl rfl
  | false =>
    exact .keep (fun h => absurd (hb.symm.trans h) (by decide)) (fun _ => hw) hflag herr hnew

theorem writeAbstractcs_outcome {a : DmiAccess c} (hw : a.writes Dmi.ABSTRACTCS = true) :
    Outcome d state halted a new
      (d.guardedWrite state
        (fun new => { new with cmderr := d.cmderr &&& ~~~a.dbi.extractLsb' 8 3 }) new) := by
  unfold guardedWrite
  cases hb : d.commandBusy state with
  | true =>
    simp only [if_true]
    split_ifs with h0
    · exact .conflict hb h0 (by simp [DmiAccess.isGuarded, hw]) rfl rfl rfl
    · exact .keep (fun _ h => absurd h h0) (fun h => absurd (hb.symm.trans h) (by decide)) rfl
        rfl rfl
  | false => exact .clear hb hw rfl rfl rfl

theorem writeCommand_outcome {a : DmiAccess c} (hcmd : a.writes Dmi.COMMAND = true)
    (hw : a.writes Dmi.ABSTRACTCS = false) :
    Outcome d state halted a new (d.writeCommand state halted a.dbi new) := by
  unfold writeCommand
  split_ifs with h0 hb hh htype hs
  · exact .conflict hb h0 (by simp [DmiAccess.isGuarded, hcmd]) rfl rfl rfl
  · exact .reject (by simpa using hb) h0 rfl (by simp [Cmderr.HART_RUNNING]) rfl
  · exact .start (by simpa using hb) h0 (by simpa using hh)
      (by simp [DmiAccess.requests, hcmd, htype, hs]) rfl rfl rfl
  · exact .reject (by simpa using hb) h0 rfl (by simp [Cmderr.NOT_SUPPORTED]) rfl
  · exact .reject (by simpa using hb) h0 rfl (by simp [Cmderr.NOT_SUPPORTED]) rfl
  · exact .keep (fun _ h => absurd h h0) (fun _ => hw) rfl rfl rfl

theorem isDataReg_lt {adr : ℕ} (h : isDataReg (c := c) adr = true) : adr < Dmi.ABSTRACTCS := by
  have := c.numdata_range
  obtain ⟨-, h⟩ : _ ∧ _ := by simpa [isDataReg] using h
  simp only [Dmi.ABSTRACTCS, Dmi.DATA0] at h ⊢
  omega

theorem writeDmcontrol_keeps {dbi : Word} :
    (d.writeDmcontrol state halted dbi new).abstractBusyError = new.abstractBusyError ∧
      (d.writeDmcontrol state halted dbi new).cmderr = new.cmderr ∧
      (d.writeDmcontrol state halted dbi new).abstractCommandNew = new.abstractCommandNew := by
  unfold writeDmcontrol
  split_ifs <;> exact ⟨rfl, rfl, rfl⟩

theorem write_outcome {a : DmiAccess c} (hen : a.en = true) (hwe : a.we = true) :
    Outcome d state halted a new (d.writeReg state halted a.adr.toNat a.dbi new) := by
  have hwr (adr : ℕ) : a.writes adr = decide (a.adr.toNat = adr) := by
    simp [DmiAccess.writes, hen, hwe]
  have hother {adr adr' : ℕ} (h : a.adr.toNat = adr) (hne : adr ≠ adr') :
      a.writes adr' = false := by
    rw [hwr, h, decide_eq_false hne]
  have ht : a.touches d = a.writeTouches d := by simp [DmiAccess.touches, hen, hwe]
  unfold DmiAccess.writeTouches at ht
  unfold writeReg
  by_cases h1 : a.adr.toNat = Dmi.DMCONTROL
  · rw [if_pos h1] at ht ⊢
    obtain ⟨hflag, herr, hnew⟩ : _ ∧ _ ∧ _ := writeDmcontrol_keeps
    exact .keep
      (fun _ _ => by simp [DmiAccess.isGuarded, ht, hwr, h1, Dmi.DMCONTROL, Dmi.ABSTRACTCS,
        Dmi.ABSTRACTAUTO, Dmi.COMMAND])
      (fun _ => hother h1 (by decide)) hflag herr hnew
  rw [if_neg h1] at ht ⊢
  by_cases h2 : isDataReg (c := c) a.adr.toNat = true
  · rw [if_pos h2] at ht ⊢
    exact touch_outcome ht (by simpa [hwr] using (isDataReg_lt h2).ne)
      (by split_ifs <;> exact ⟨rfl, rfl, rfl⟩)
  rw [if_neg h2] at ht ⊢
  by_cases h3 : a.adr.toNat = Dmi.ABSTRACTCS
  · rw [if_pos h3]
    exact writeAbstractcs_outcome (by simp [hwr, h3])
  rw [if_neg h3]
  by_cases h4 : a.adr.toNat = Dmi.ABSTRACTAUTO
  · rw [if_pos h4]
    exact guardedWrite_outcome (by simp [DmiAccess.isGuarded, hwr, h4])
      (hother h4 (by decide)) ⟨rfl, rfl, rfl⟩
  rw [if_neg h4]
  by_cases h5 : a.adr.toNat = Dmi.COMMAND
  · rw [if_pos h5]
    exact writeCommand_outcome (by simp [hwr, h5]) (hother h5 (by decide))
  rw [if_neg h5]
  simp only [h3, h4, h5, or_self, if_false] at ht
  by_cases h6 : a.adr.toNat = Dmi.PROGBUF0
  · rw [if_pos h6] at ht ⊢
    exact touch_outcome ht (hother h6 (by decide)) (by split_ifs <;> exact ⟨rfl, rfl, rfl⟩)
  rw [if_neg h6] at ht ⊢
  by_cases h7 : c.progbufSize = 2 ∧ a.adr.toNat = Dmi.PROGBUF1
  · rw [if_pos h7] at ht ⊢
    exact touch_outcome ht (hother h7.2 (by decide)) (by split_ifs <;> exact ⟨rfl, rfl, rfl⟩)
  rw [if_neg h7] at ht ⊢
  exact .keep (fun _ _ => by simp [DmiAccess.isGuarded, ht, hwr, h3, h4, h5])
    (fun _ => by simp [hwr, h3]) rfl rfl rfl

theorem step_outcome (cmd : AbstractCommand) (hart : HartStatus) (a : DmiAccess c)
    (hactive : d.dmactive = true) :
    Outcome d cmd.state hart.halted a (d.lifecycle cmd hart) (d.step cmd hart a) := by
  simp only [step, hactive, Bool.not_true, Bool.false_eq_true, if_false]
  cases hen : a.en with
  | false =>
    have ht : a.touches d = none := by simp [DmiAccess.touches, hen]
    have hw (adr : ℕ) : a.writes adr = false := by simp [DmiAccess.writes, hen]
    exact .keep (fun _ _ => by simp [DmiAccess.isGuarded, ht, hw]) (fun _ => hw _) rfl rfl rfl
  | true =>
    cases hwe : a.we with
    | false => exact read_outcome hen hwe
    | true => exact write_outcome hen hwe

section Lifecycle
variable {cmd : AbstractCommand} (hart : HartStatus)

/-- The lifecycle of an idle cycle. -/
theorem lifecycle_eq (hidle : d.commandBusy cmd.state = false) :
    d.lifecycle cmd hart =
      { d with
        dbo := 0
        ndmresetO := d.ndmreset
        havereset := hart.reset || d.havereset
        resumeack := if hart.reqAck then d.resumereq || d.resumeack else d.resumeack
        resumereq := !hart.reqAck && d.resumereq
        cmderr := if d.abstractBusyError && d.cmderr = 0 then Cmderr.BUSY else d.cmderr
        abstractBusyError := false } := by
  obtain ⟨-, hnone⟩ : _ ∧ cmd.state = .none := by simpa [commandBusy] using hidle
  obtain ⟨_, reqAck, reset⟩ := hart
  rw [hnone] at hidle
  by_cases h0 : d.cmderr = 0#3 <;> cases hflag : d.abstractBusyError <;> cases reset <;>
    cases reqAck <;> simp [lifecycle, hidle, hnone, hflag, h0, Cmderr.NONE]

/-- An idle cycle publishes a remembered conflict. -/
theorem lifecycle_idle (hidle : d.commandBusy cmd.state = false) :
    (d.lifecycle cmd hart).abstractBusyError = false ∧
      (d.lifecycle cmd hart).abstractCommandNew = false ∧
      (d.lifecycle cmd hart).cmderr =
        if d.abstractBusyError && d.cmderr = 0 then Cmderr.BUSY else d.cmderr := by
  obtain ⟨hnew, -⟩ : d.abstractCommandNew = false ∧ _ := by simpa [commandBusy] using hidle
  rw [lifecycle_eq hart hidle]
  exact ⟨rfl, hnew, rfl⟩

/-- A busy cycle leaves the conflict remembered, unless the command has just failed. -/
theorem lifecycle_busy (hbusy : d.commandBusy cmd.state = true) :
    (d.lifecycle cmd hart).cmderr ≠ 0 ∨
      (d.lifecycle cmd hart).abstractBusyError = d.abstractBusyError ∧
        (d.lifecycle cmd hart).cmderr = d.cmderr := by
  by_cases hfailed : cmd.state = .failed
  · refine .inl ?_
    simp only [lifecycle, hfailed, reduceCtorEq, if_false, if_true]
    split_ifs with h0
    · decide
    · decide
    · exact h0
  · refine .inr ?_
    obtain ⟨_, reqAck, reset⟩ := hart
    simp only [lifecycle, hfailed, hbusy, if_false, Bool.not_true, Bool.false_and,
      Bool.false_eq_true]
    cases reset <;> cases reqAck <;> split_ifs <;> exact ⟨rfl, rfl⟩

end Lifecycle

/-- The registers a busy command protects from the debugger. -/
structure Guarded (c : CoreConfig) where
  dataRegs : ℕ → Word
  progbuf0 : Word
  progbuf1 : Word
  abstractAutoData : BitVec c.numdata
  abstractAutoProgbuf : BitVec c.progbufSize
  aarsize : BitVec 3
  aarpostincrement : Bool
  postexec : Bool
  transfer : Bool
  write : Bool
  regno : BitVec 5
  cmderr : BitVec 3

def guarded (d : DebugModule c) : Guarded c where
  dataRegs := d.dataRegs
  progbuf0 := d.progbuf0
  progbuf1 := d.progbuf1
  abstractAutoData := d.abstractAutoData
  abstractAutoProgbuf := d.abstractAutoProgbuf
  aarsize := d.aarsize
  aarpostincrement := d.aarpostincrement
  postexec := d.postexec
  transfer := d.transfer
  write := d.write
  regno := d.regno
  cmderr := d.cmderr

section Busy
variable (hbusy : d.commandBusy state = true)
include hbusy

theorem touch_guarded {auto : Bool} : (d.touch state halted auto new).guarded = new.guarded := by
  simp only [touch, hbusy, if_true]
  split_ifs <;> rfl

theorem guardedWrite_guarded {f : DebugModule c → DebugModule c} :
    (d.guardedWrite state f new).guarded = new.guarded := by
  simp only [guardedWrite, hbusy, if_true]
  split_ifs <;> rfl

theorem read_guarded {adr : ℕ} : (d.read state halted adr new).guarded = new.guarded := by
  unfold read
  split_ifs
  all_goals first | rfl | exact touch_guarded hbusy

theorem writeReg_guarded {adr : ℕ} {dbi : Word} :
    (d.writeReg state halted adr dbi new).guarded = new.guarded := by
  unfold writeReg writeCommand writeDmcontrol
  simp only [hbusy, if_true]
  split_ifs
  all_goals first | rfl | exact touch_guarded hbusy | exact guardedWrite_guarded hbusy

end Busy

/-- No access during a command changes what the command works on, or `cmderr`. -/
theorem step_guarded {cmd : AbstractCommand} {hart : HartStatus} {a : DmiAccess c}
    (hactive : d.dmactive = true) (hbusy : d.commandBusy cmd.state = true) :
    (d.step cmd hart a).guarded = (d.step cmd hart {}).guarded := by
  simp only [step, hactive, Bool.not_true, Bool.false_eq_true, if_false, Bool.not_false, if_true]
  split_ifs
  · rfl
  · exact writeReg_guarded hbusy
  · exact read_guarded hbusy

end DebugModule
/-- The module under watch. `owed`: a conflict was made and its report has not been cleared;
`idle`: no command was busy one cycle ago. -/
structure CommandWatch (c : CoreConfig) where
  s : DmState c := {}
  owed : Bool := false
  idle : Bool := false

namespace CommandWatch
variable {c : CoreConfig} (w : CommandWatch c) (i : DmInput c)

/-- A guarded access in a busy cycle, `cmderr` being 0. -/
def conflicts : Bool := w.s.busy && w.s.dm.cmderr = 0 && i.access.isGuarded w.s.dm

/-- `cmderr` is written back to 0. -/
def clears : Bool :=
  !w.s.busy && w.s.dm.cmderr ≠ 0 && i.access.writes Dmi.ABSTRACTCS &&
    w.s.dm.cmderr &&& ~~~i.access.dbi.extractLsb' 8 3 = 0

/-- A command starts. -/
def starts : Bool := !w.s.busy && (w.s.step i).dm.abstractCommandNew

def step : CommandWatch c where
  s := w.s.step i
  owed := w.s.dm.dmactive && (w.conflicts i || w.owed && !w.clears i)
  idle := !w.s.busy

def machine (c : CoreConfig) : Clocked (CommandWatch c) (DmInput c) where
  init := {}
  step := step

/-- The busy and `cmderr` protocol in one cycle. -/
structure Obeys : Prop where
  guarded : w.s.busy = true →
    (w.s.step i).dm.guarded = (w.s.step { i with access := {} }).dm.guarded
  reported : w.owed = true → w.s.busy = false → w.idle = true → w.s.dm.cmderr ≠ 0
  start : w.starts i = true → w.s.dm.cmderr = 0 ∧ w.owed = false

/-- In the cycle that publishes a conflict no access writes `abstractcs` or starts a command. -/
def Undisturbed : Prop :=
  w.s.dm.dmactive = true → w.s.busy = false → w.s.dm.abstractBusyError = true →
    w.s.dm.cmderr = 0 →
    i.access.writes Dmi.ABSTRACTCS = false ∧
      (i.access.requests w.s.dm && i.hart.halted) = false

/-- A conflict stays remembered until it is in `cmderr`. -/
structure Remembered : Prop where
  owed : w.owed = true → w.s.dm.abstractBusyError = true ∨ w.s.dm.cmderr ≠ 0
  idle : w.idle = true → w.s.dm.abstractBusyError = false

variable {w i}

theorem step_inactive (h : w.s.dm.dmactive = false) :
    (w.step i).owed = false ∧ (w.step i).s.dm.abstractBusyError = false := by
  simp [step, DmState.step, DebugModule.step, h, DebugModule.inactive]

theorem conflicts_of_busy (hidle : w.s.busy = false) : w.conflicts i = false := by
  simp [conflicts, hidle]

/-- An idle cycle: the conflict is published, or the report cleared. -/
theorem remembered_idle (hinv : w.Remembered) (hactive : w.s.dm.dmactive = true)
    (hok : w.Undisturbed i) (hidle : w.s.busy = false) : (w.step i).Remembered := by
  obtain ⟨hflag, -, herr⟩ := DebugModule.lifecycle_idle i.hart hidle
  have howed (h : (w.step i).owed = true) : w.owed = true ∧ w.clears i = false := by
    simpa [step, hactive, conflicts_of_busy hidle] using h
  -- the lifecycle alone reports whatever is remembered
  have hreport (h : (w.step i).owed = true) :
      (w.s.dm.lifecycle w.s.cmd i.hart).cmderr ≠ 0 := by
    rw [herr]
    split_ifs with hp
    · decide
    · rcases hinv.owed (howed h).1 with hf | he
      · exact fun he => hp (by simp [hf, he])
      · exact he
  obtain ⟨hb, -, -, -, -, -⟩ | ⟨-, hw, hf, he, -⟩ | ⟨-, -, hf, he, -⟩ | ⟨-, -, -, -, hf, he, -⟩ |
      ⟨-, -, hf, he, -⟩ := DebugModule.step_outcome w.s.cmd i.hart i.access hactive
  · exact absurd (hidle.symm.trans hb) (by decide)
  · refine ⟨fun h => .inr ?_, fun _ => hf.trans hflag⟩
    obtain ⟨ho, hc⟩ := howed h
    have hne : w.s.dm.cmderr ≠ 0 := by
      rcases hinv.owed ho with hfl | hne
      · intro h0
        exact absurd (hw.symm.trans (hok hactive hidle hfl h0).1) (by decide)
      · exact hne
    show (w.s.dm.step w.s.cmd i.hart i.access).cmderr ≠ 0
    rw [he]
    have hne' : ¬w.s.dm.cmderr = 0#3 := hne
    simpa [clears, hidle, hne', hw] using hc
  · exact ⟨fun _ => .inr he, fun _ => hf.trans hflag⟩
  · exact ⟨fun h => .inr (he ▸ hreport h), fun _ => hf.trans hflag⟩
  · exact ⟨fun h => .inr (he ▸ hreport h), fun _ => hf.trans hflag⟩

/-- A busy cycle: a conflict is remembered, and `cmderr` only rises. -/
theorem remembered_busy (hinv : w.Remembered) (hactive : w.s.dm.dmactive = true)
    (hbusy : w.s.busy = true) : (w.step i).Remembered := by
  refine ⟨fun h => ?_, fun h => by simp [step, hbusy] at h⟩
  have hlife := DebugModule.lifecycle_busy i.hart hbusy
  have hkeep (hold : w.s.dm.abstractBusyError = true ∨ w.s.dm.cmderr ≠ 0)
      {r : DebugModule c}
      (hf : r.abstractBusyError = (w.s.dm.lifecycle w.s.cmd i.hart).abstractBusyError)
      (he : r.cmderr = (w.s.dm.lifecycle w.s.cmd i.hart).cmderr) :
      r.abstractBusyError = true ∨ r.cmderr ≠ 0 := by
    rw [hf, he]
    rcases hlife with hne | ⟨hf', he'⟩
    · exact .inr hne
    · rwa [hf', he']
  obtain ⟨-, -, -, hf, -, -⟩ | ⟨hb, -, -, -, -⟩ | ⟨hb, -, -, -, -⟩ | ⟨hb, -, -, -, -, -, -⟩ |
      ⟨hno, -, hf, he, -⟩ := DebugModule.step_outcome w.s.cmd i.hart i.access hactive
  · exact .inl hf
  · exact absurd (hbusy.symm.trans hb) (by decide)
  · exact absurd (hbusy.symm.trans hb) (by decide)
  · exact absurd (hbusy.symm.trans hb) (by decide)
  · refine hkeep ?_ hf he
    have hconf : w.conflicts i = false := by
      by_cases h0 : w.s.dm.cmderr = 0
      · simp [conflicts, hno hbusy h0]
      · rw [conflicts, decide_eq_false h0, Bool.and_false, Bool.false_and]
    simp only [step, hactive, hconf, Bool.false_or, Bool.true_and, Bool.and_eq_true] at h
    exact hinv.owed h.1

theorem remembered_step (hinv : w.Remembered) (hok : w.Undisturbed i) :
    (w.step i).Remembered := by
  cases hactive : w.s.dm.dmactive with
  | false =>
    obtain ⟨howed, hflag⟩ := step_inactive (i := i) hactive
    exact ⟨fun h => absurd (howed.symm.trans h) (by decide), fun _ => hflag⟩
  | true =>
    cases hbusy : w.s.busy with
    | false => exact remembered_idle hinv hactive hok hbusy
    | true => exact remembered_busy hinv hactive hbusy

/-- A command starts only where an access requests one, with nothing left to report. -/
theorem start_clean (hinv : w.Remembered) (hactive : w.s.dm.dmactive = true)
    (hok : w.Undisturbed i) (h : w.starts i = true) : w.s.dm.cmderr = 0 ∧ w.owed = false := by
  obtain ⟨hidle, hnew⟩ : w.s.busy = false ∧ (w.s.step i).dm.abstractCommandNew = true := by
    simpa [starts] using h
  obtain ⟨-, hlife, -⟩ := DebugModule.lifecycle_idle i.hart hidle
  have hno {r : Bool} (hr : r = (w.s.dm.lifecycle w.s.cmd i.hart).abstractCommandNew)
      (ht : r = true) : False := absurd (hr.symm.trans ht) (by simp [hlife])
  obtain ⟨hb, -, -, -, -, -⟩ | ⟨-, -, -, -, hr⟩ | ⟨-, -, -, -, hr⟩ |
      ⟨-, hnone, hhalted, hreq, -, -, -⟩ | ⟨-, -, -, -, hr⟩ :=
    DebugModule.step_outcome w.s.cmd i.hart i.access hactive
  · exact absurd (hidle.symm.trans hb) (by decide)
  · exact (hno hr hnew).elim
  · exact (hno hr hnew).elim
  · refine ⟨hnone, ?_⟩
    by_contra howed
    rw [Bool.not_eq_false] at howed
    rcases hinv.owed howed with hflag | hne
    · have hdist := (hok hactive hidle hflag hnone).2
      rw [hreq, hhalted] at hdist
      cases hdist
    · exact hne hnone
  · exact (hno hr hnew).elim

theorem obeys_step (hinv : w.Remembered) (hactive : w.s.dm.dmactive = true)
    (hok : w.Undisturbed i) : w.Obeys i where
  guarded hbusy := (DebugModule.step_guarded hactive hbusy)
  reported howed _ hidle := by
    rcases hinv.owed howed with hflag | hne
    · exact absurd (hflag.symm.trans (hinv.idle hidle)) (by decide)
    · exact hne
  start := start_clean hinv hactive hok

end CommandWatch

/-- If no access gets in between the end of a command and the report of a conflict with it,
the protocol is kept in every cycle of the run. -/
theorem busy_protocol {c : CoreConfig} (is : List (DmInput c))
    (h : (CommandWatch.machine c).Along CommandWatch.Undisturbed {} is) :
    (CommandWatch.machine c).Along (fun w i => w.s.dm.dmactive = true → w.Obeys i) {} is :=
  h.mono CommandWatch.Remembered (fun _ _ => CommandWatch.remembered_step)
    (fun _ _ hinv hok hactive => CommandWatch.obeys_step hinv hactive hok)
    ⟨nofun, nofun⟩

namespace CommandWatch

def dmiWrite {c : CoreConfig} (adr : ℕ) (dbi : Word) : DmInput c where
  access := { en := true, we := true, adr := BitVec.ofNat _ adr, dbi := dbi }
  hart := { halted := true }

/-- `command` is written again while the command it started is busy. -/
def overlapping : List (DmInput defaultConfig) :=
  [dmiWrite Dmi.DMCONTROL 1, dmiWrite Dmi.COMMAND 0, dmiWrite Dmi.COMMAND 0,
    { hart := { halted := true } }]

instance {c : CoreConfig} (w : CommandWatch c) (i : DmInput c) : Decidable (w.Undisturbed i) :=
  inferInstanceAs (Decidable (_ → _ → _ → _ → _ ∧ _))

end CommandWatch

/-- A busy command is disturbed, and the conflict stays reported until it is cleared. -/
theorem busy_protocol_reported :
    (CommandWatch.machine defaultConfig).Along
        (fun w i => w.s.dm.dmactive = true → w.Obeys i) {}
        (CommandWatch.overlapping ++
          [{}, CommandWatch.dmiWrite Dmi.COMMAND 0, CommandWatch.dmiWrite Dmi.ABSTRACTCS 0x700,
            CommandWatch.dmiWrite Dmi.COMMAND 0]) :=
  busy_protocol _ (by decide +kernel)

/-- The same run with a command write in the cycle before the report: the command starts. -/
theorem unreported_conflict_starts :
    ¬∀ is : List (DmInput defaultConfig),
      (CommandWatch.machine defaultConfig).Along
        (fun w i => w.s.dm.dmactive = true → w.Obeys i) {} is := by
  intro h
  have hrun := h (CommandWatch.overlapping ++ [CommandWatch.dmiWrite Dmi.COMMAND 0])
  rw [Clocked.along_append] at hrun
  have hstart := (hrun.2.1 (by decide +kernel)).start (by decide +kernel)
  exact absurd hstart.2 (by decide +kernel)

end BonfireCore
