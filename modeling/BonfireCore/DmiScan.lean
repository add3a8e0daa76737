import BonfireCore.DmiDelivery
import BonfireCore.Ecp5Jtagg

/-! Both frontends in front of the bridge. Neither gates Update-DR with `pending_o`: a DMI
scan that was told busy disturbs the request in flight as soon as it is finished. The
requests stay intact in exactly the runs without such an update. -/
namespace BonfireCore.DmiTransport

variable {abits : ℕ}

/-- What one scan-clock edge does to the registers in front of the bridge. -/
inductive ScanChange (abits : ℕ)
  | keep
  | update (payload : DmiPayload abits)
  | hardreset
  | clear

def ScanChange.apply (scan : ScanSide abits) : ScanChange abits → ScanSide abits
  | keep => scan
  | update payload =>
    { scan with requestPayload := payload, requestToggle := !scan.requestToggle }
  | hardreset => { scan with dtmhardresetToggle := !scan.dtmhardresetToggle }
  | clear => {}

/-- The instant as the bridge sees it. -/
def ScanChange.tick (scan : ScanSide abits) (scanEdge coreEdge : Bool) (dbo : BitVec 32) :
    ScanChange abits → Tick abits
  | keep => { scanEdge, coreEdge, dbo }
  | update payload => { scanEdge, coreEdge, dbo, payload := some payload, flip := true }
  | hardreset => { scanEdge, coreEdge, dbo, hardreset := true }
  | clear =>
    { scanEdge, coreEdge, dbo, payload := some 0, hardreset := scan.dtmhardresetToggle }

/-- A frontend wired to the bridge. `edge`: the scan clock rises; `resetn`: the TAP reset
line, released; `change`: what the frontend does to its request registers; `capture`: a DMI
capture takes place. -/
structure ScanTick (abits : ℕ) where
  edge : Bool
  resetn : Bool
  core : Bool
  dbo : BitVec 32
  change : ScanChange abits
  capture : Bool

/-- The link with one more bit: the last DMI capture of the scan in progress was busy. -/
structure Watched (abits : ℕ) where
  link : Link abits := {}
  toldBusy : Bool := false

def ScanChange.isUpdate : ScanChange abits → Bool
  | update _ => true
  | _ => false

def ScanChange.isClear : ScanChange abits → Bool
  | clear => true
  | _ => false

def Watched.step (w : Watched abits) (t : ScanTick abits) : Watched abits :=
  { link :=
      { scan := t.change.apply w.link.scan
        bridge := w.link.bridge.edges t.resetn t.edge t.core w.link.scan t.dbo }
    toldBusy :=
      if t.capture then w.link.pending
      else if t.change.isUpdate || t.change.isClear then false
      else w.toldBusy }

/-- An update that a busy scan must not make. -/
def Disturbs (w : Watched abits) (t : ScanTick abits) : Prop :=
  t.change.isUpdate ∧ (w.link.pending ∨ w.toldBusy)

/-- The update leaves the request registers as they were. -/
def RequestKept (w : Watched abits) (t : ScanTick abits) : Prop :=
  t.change.isUpdate → w.link.pending ∨ w.toldBusy →
    (w.step t).link.scan.requestPayload = w.link.scan.requestPayload ∧
      (w.step t).link.scan.requestToggle = w.link.scan.requestToggle

/-- The TAP reset clears the request registers, which the core clock domain does not see;
it is harmless while nothing is pending and the toggle is low. -/
def ResetIdle (w : Watched abits) (t : ScanTick abits) : Prop :=
  t.resetn = false ∨ t.change.isClear → w.link.pending = false ∧
    w.link.scan.requestToggle = false

theorem requestKept_iff (w : Watched abits) (t : ScanTick abits) :
    RequestKept w t ↔ ¬ Disturbs w t := by
  unfold RequestKept Disturbs
  constructor
  · rintro h ⟨hu, hb⟩
    obtain ⟨payload, hc⟩ : ∃ payload, t.change = .update payload := by
      cases hc : t.change <;> simp_all [ScanChange.isUpdate]
    have := (h hu hb).2
    simp [Watched.step, ScanChange.apply, hc] at this
  · intro h hu hb
    exact absurd ⟨hu, hb⟩ h

/-- A state of the link that some log explains. -/
def Explained (s : Link abits) : Prop := ∃ o : Observed abits, Inv o ∧ o.link = s

theorem Explained.step {s : Link abits} {t : Tick abits} (h : Explained s) (ht : t.Polite s) :
    Explained (s.step t) := by
  obtain ⟨o, ho, rfl⟩ := h
  exact ⟨o.step t, ho.step ht, rfl⟩

theorem Explained.idle {s : Link abits} (h : Explained s) (hp : s.pending = false) :
    Idle s.scan.requestToggle s.bridge := by
  obtain ⟨o, ho, rfl⟩ := h
  cases ho with
  | idle idle => exact idle
  | «open» _ _ _ phase => simp [Link.pending, DmiTransport.pending, phase.pending] at hp

/-- With the response toggle low everywhere a reset edge of the scan clock is an ordinary one. -/
theorem Idle.edges_resetn {b : DmiCdcBridge abits} (h : Idle false b) (resetn scanEdge core : Bool)
    (scan : ScanSide abits) (dbo : BitVec 32) :
    b.edges resetn scanEdge core scan dbo = b.edges true scanEdge core scan dbo := by
  cases resetn <;>
    simp [DmiCdcBridge.edges, responseSynchronizer, h.responseToggle, h.responseToggleMeta]

/-- The condition on a scan instant: no update of a busy scan, no reset in mid-request. -/
def Undisturbed (w : Watched abits) (t : ScanTick abits) : Prop :=
  ¬ Disturbs w t ∧ ResetIdle w t

instance (w : Watched abits) (t : ScanTick abits) : Decidable (Undisturbed w t) :=
  inferInstanceAs (Decidable (¬ (_ ∧ (_ ∨ _)) ∧ (_ ∨ _ → _ ∧ _)))

def watched (abits : ℕ) : Clocked (Watched abits) (ScanTick abits) where
  init := {}
  step := Watched.step

def ScanTick.tick (w : Watched abits) (t : ScanTick abits) : Tick abits :=
  t.change.tick w.link.scan t.edge t.core t.dbo

/-- Undisturbed, the frontend is a polite scan side of the bridge. -/
theorem Undisturbed.simulates {w : Watched abits} {t : ScanTick abits} (hw : Explained w.link)
    (h : Undisturbed w t) :
    (t.tick w).Polite w.link ∧ (w.step t).link = w.link.step (t.tick w) := by
  obtain ⟨hupd, hreset⟩ := h
  have hbridge : w.link.bridge.edges t.resetn t.edge t.core w.link.scan t.dbo =
      w.link.bridge.edges true t.edge t.core w.link.scan t.dbo := by
    cases hr : t.resetn with
    | true => rfl
    | false =>
      obtain ⟨hp, hq⟩ := hreset (.inl hr)
      have hidle := hw.idle hp
      rw [hq] at hidle
      exact hidle.edges_resetn ..
  cases hc : t.change with
  | keep =>
    simp [ScanTick.tick, hc, ScanChange.tick, Tick.Polite, Watched.step, Link.step, hbridge,
      ScanChange.apply, ScanSide.change]
  | update payload =>
    have hp : w.link.pending = false := by
      by_contra hp
      exact hupd ⟨by simp [hc, ScanChange.isUpdate], .inl (by simpa using hp)⟩
    simp [ScanTick.tick, hc, ScanChange.tick, Tick.Polite, Watched.step, Link.step, hbridge,
      ScanChange.apply, ScanSide.change, hp]
  | hardreset =>
    simp [ScanTick.tick, hc, ScanChange.tick, Tick.Polite, Watched.step, Link.step, hbridge,
      ScanChange.apply, ScanSide.change]
  | clear =>
    obtain ⟨hp, hq⟩ := hreset (.inr (by simp [hc, ScanChange.isClear]))
    simp [ScanTick.tick, hc, ScanChange.tick, Tick.Polite, Watched.step, Link.step, hbridge,
      ScanChange.apply, ScanSide.change, hp, hq]

/-- The log of the requests a run of scan instants makes. -/
def scanLog (ts : List (ScanTick abits)) : Observed abits :=
  (observed abits).run ((watched abits).labels (fun w t => t.tick w) {} ts)

theorem watched_delivers {ts : List (ScanTick abits)}
    (h : (watched abits).Along Undisturbed (watched abits).init ts) :
    (scanLog ts).link = ((watched abits).run ts).link ∧ ∀ tr ∈ (scanLog ts).log,
      tr.Delivered ∧ (tr.response.isSome ∨ ((watched abits).run ts).link.pending = true ∧
        (scanLog ts).log.head? = some tr) := by
  obtain ⟨hpolite, hrun⟩ := h.simulates (N := link abits) Watched.link
    (fun w t => t.tick w) Tick.Polite Explained (fun _ _ => Explained.step)
    (fun _ _ => Undisturbed.simulates) ⟨{}, Inv.init, rfl⟩
  have hinv : Inv (scanLog ts) := Inv.init.run hpolite
  have hlink : (scanLog ts).link = ((watched abits).run ts).link :=
    (observed_runFrom_link _ _).trans hrun.symm
  refine ⟨hlink, fun tr htr => ⟨hinv.delivered tr htr, ?_⟩⟩
  rw [← hlink]
  exact hinv.finished htr

/-- One instant of the native frontend: a rising `tck_i` edge, a core edge, or both. -/
structure JtagTick where
  tck : Bool := false
  tms : Bool := false
  tdi : Bool := false
  trstn : Bool := true
  core : Bool := false
  dbo : BitVec 32 := 0

structure JtagSystem (abits : ℕ) where
  dtm : JtagDtm abits := {}
  bridge : DmiCdcBridge abits := {}
  toldBusy : Bool := false

namespace JtagSystem

def watched (s : JtagSystem abits) : Watched abits :=
  ⟨⟨s.dtm.scan, s.bridge⟩, s.toldBusy⟩

/-- Capture-DR of the DMI register. -/
def capture (s : JtagSystem abits) (t : JtagTick) : Bool :=
  t.tck && t.trstn && s.dtm.tapState = .captureDr && s.dtm.instruction = JTAG_INSTR_DMI

/-- Update-DR of the DMI register. -/
def update (s : JtagSystem abits) (t : JtagTick) : Bool :=
  t.tck && t.trstn && s.dtm.tapState = .updateDr && s.dtm.instruction = JTAG_INSTR_DMI

def step (s : JtagSystem abits) (t : JtagTick) : JtagSystem abits :=
  { dtm :=
      if t.tck then
        s.dtm.tapActions false t.trstn t.tms t.tdi (pending s.dtm.scan s.bridge)
          s.bridge.responsePayload
      else s.dtm
    bridge := s.bridge.edges t.trstn t.tck t.core s.dtm.scan t.dbo
    toldBusy :=
      if s.capture t then pending s.dtm.scan s.bridge
      else if s.update t || t.tck && !t.trstn then false
      else s.toldBusy }

/-- The instant as the request registers see it. -/
def scanTick (s : JtagSystem abits) (t : JtagTick) : ScanTick abits where
  edge := t.tck
  resetn := t.trstn
  core := t.core
  dbo := t.dbo
  capture := s.capture t
  change :=
    if t.tck && !t.trstn then .clear
    else if s.update t then .update s.dtm.dmiShiftReg
    else if t.tck && s.dtm.tapState = .updateDr && s.dtm.instruction = JTAG_INSTR_DTMCS &&
      s.dtm.dtmcsShiftReg.getLsbD 17 then .hardreset
    else .keep

end JtagSystem

def jtag (abits : ℕ) : Clocked (JtagSystem abits) JtagTick where
  init := {}
  step := JtagSystem.step

theorem JtagDtm.irActions_scan (tms tdi : Bool) (d : JtagDtm abits) :
    (d.irActions tms tdi).scan = d.scan := by
  unfold irActions
  split_ifs <;> rfl

/-- What a rising `tck_i` edge does to the request registers. -/
theorem JtagDtm.tapActions_scan (tms tdi pend : Bool) (response : DmiPayload abits)
    (d : JtagDtm abits) :
    (d.tapActions false true tms tdi pend response).scan =
      if d.tapState = .updateDr ∧ d.instruction = JTAG_INSTR_DMI then
        (ScanChange.update d.dmiShiftReg).apply d.scan
      else if d.tapState = .updateDr ∧ d.instruction = JTAG_INSTR_DTMCS ∧
          d.dtmcsShiftReg.getLsbD 17 then
        ScanChange.hardreset.apply d.scan
      else d.scan := by
  have he := irActions_scan tms tdi d
  simp only [tapActions, drActions, Bool.not_true, Bool.or_false, Bool.false_eq_true, if_false]
  split_ifs <;> simp_all [ScanChange.apply]

theorem JtagSystem.watched_step (s : JtagSystem abits) (t : JtagTick) :
    (s.step t).watched = s.watched.step (s.scanTick t) := by
  have hscan : (s.step t).dtm.scan = (s.scanTick t).change.apply s.dtm.scan := by
    cases htck : t.tck with
    | false => simp [step, scanTick, update, htck, ScanChange.apply]
    | true =>
      cases hrst : t.trstn with
      | false => simp [step, scanTick, htck, hrst, JtagDtm.tapActions, ScanChange.apply]
      | true =>
        have hne : JTAG_INSTR_DTMCS ≠ JTAG_INSTR_DMI := by decide
        simp only [step, scanTick, update, htck, hrst, if_true, JtagDtm.tapActions_scan]
        by_cases hu : s.dtm.tapState = .updateDr <;>
          by_cases hd : s.dtm.instruction = JTAG_INSTR_DMI <;>
          by_cases hc : s.dtm.instruction = JTAG_INSTR_DTMCS <;>
          cases h17 : s.dtm.dtmcsShiftReg.getLsbD 17 <;>
          simp_all [ScanChange.apply]
  have hbusy : (s.step t).toldBusy = (s.watched.step (s.scanTick t)).toldBusy := by
    have hchange : ((s.scanTick t).change.isUpdate || (s.scanTick t).change.isClear) =
        (s.update t || t.tck && !t.trstn) := by
      cases hclear : (t.tck && !t.trstn) <;> cases hupdate : s.update t <;>
        simp only [scanTick, hclear, hupdate] <;>
        first
          | rfl
          | (simp only [Bool.false_eq_true, if_false]; split <;> rfl)
    simp only [Watched.step, hchange]
    rfl
  simp only [watched, Watched.step] at *
  rw [hscan, hbusy]
  rfl

inductive JtckEdge
  | none | rise | fall
  deriving DecidableEq, Repr

/-- One instant of the ECP5 frontend: a `JTCK` edge, a core edge, or both. -/
structure Ecp5Tick where
  jtck : JtckEdge := .none
  jtagg : Ecp5JtaggInput := {}
  core : Bool := false
  dbo : BitVec 32 := 0

structure Ecp5System (abits : ℕ) where
  client : Ecp5JtaggClient abits := {}
  bridge : DmiCdcBridge abits := {}
  toldBusy : Bool := false

namespace Ecp5System

def watched (s : Ecp5System abits) : Watched abits :=
  ⟨⟨s.client.scan, s.bridge⟩, s.toldBusy⟩

/-- Capture of the ER1 register. -/
def capture (_ : Ecp5System abits) (t : Ecp5Tick) : Bool :=
  t.jtck = .fall && t.jtagg.jrstn && t.jtagg.jce1 && !t.jtagg.jshift

/-- Update of the ER1 register. -/
def update (s : Ecp5System abits) (t : Ecp5Tick) : Bool :=
  t.jtck = .fall && t.jtagg.jrstn && !(t.jtagg.jce1 && !t.jtagg.jshift) &&
    !(t.jtagg.jce2 && !t.jtagg.jshift) && !(t.jtagg.jshift || s.client.jshiftD) &&
    t.jtagg.jupdate && s.client.activeEr1

def step (s : Ecp5System abits) (t : Ecp5Tick) : Ecp5System abits :=
  { client :=
      if t.jtck = .fall then
        s.client.jtagClockDomain false t.jtagg (pending s.client.scan s.bridge)
          s.bridge.responsePayload
      else s.client
    bridge := s.bridge.edges t.jtagg.jrstn (t.jtck = .rise) t.core s.client.scan t.dbo
    toldBusy :=
      if s.capture t then pending s.client.scan s.bridge
      else if s.update t || decide (t.jtck = .fall) && !t.jtagg.jrstn then false
      else s.toldBusy }

/-- The instant as the request registers see it. -/
def scanTick (s : Ecp5System abits) (t : Ecp5Tick) : ScanTick abits where
  edge := t.jtck = .rise
  resetn := t.jtagg.jrstn
  core := t.core
  dbo := t.dbo
  capture := s.capture t
  change :=
    if t.jtck = .fall ∧ !t.jtagg.jrstn then .clear
    else if s.update t then .update s.client.dmiShiftReg
    else if t.jtck = .fall ∧ !(t.jtagg.jce1 && !t.jtagg.jshift) ∧
      !(t.jtagg.jce2 && !t.jtagg.jshift) ∧ !(t.jtagg.jshift || s.client.jshiftD) ∧
      t.jtagg.jupdate ∧ s.client.activeEr2 ∧ s.client.dtmcsShiftReg.getLsbD 17 then .hardreset
    else .keep

end Ecp5System

def ecp5 (abits : ℕ) : Clocked (Ecp5System abits) Ecp5Tick where
  init := {}
  step := Ecp5System.step

theorem Ecp5System.watched_step (s : Ecp5System abits) (t : Ecp5Tick) :
    (s.step t).watched = s.watched.step (s.scanTick t) := by
  have hscan : (s.step t).client.scan = (s.scanTick t).change.apply s.client.scan := by
    by_cases hfall : t.jtck = .fall
    · simp only [step, scanTick, update, Ecp5JtaggClient.jtagClockDomain, hfall, if_true]
      split_ifs <;> simp_all [ScanChange.apply]
    · simp [step, scanTick, update, hfall, ScanChange.apply]
  have hbusy : (s.step t).toldBusy = (s.watched.step (s.scanTick t)).toldBusy := by
    have hchange : ((s.scanTick t).change.isUpdate || (s.scanTick t).change.isClear) =
        (s.update t || decide (t.jtck = .fall) && !t.jtagg.jrstn) := by
      simp only [scanTick]
      split_ifs <;> simp_all [ScanChange.isUpdate, ScanChange.isClear]
    simp only [Watched.step, hchange]
    rfl
  simp only [watched, Watched.step] at *
  rw [hscan, hbusy]
  rfl

/-- A DMI update while a request is pending, or at the end of a scan told busy. -/
def JtagSystem.Disturbs (s : JtagSystem abits) (t : JtagTick) : Prop :=
  s.update t ∧ (pending s.dtm.scan s.bridge ∨ s.toldBusy)

/-- Such an update leaves the request registers as they are. -/
def JtagSystem.Kept (s : JtagSystem abits) (t : JtagTick) : Prop :=
  s.Disturbs t → (s.step t).dtm.scan.requestPayload = s.dtm.scan.requestPayload ∧
    (s.step t).dtm.scan.requestToggle = s.dtm.scan.requestToggle

instance (s : JtagSystem abits) (t : JtagTick) : Decidable (s.Disturbs t) :=
  inferInstanceAs (Decidable (_ ∧ _))

instance (s : JtagSystem abits) (t : JtagTick) : Decidable (s.Kept t) :=
  inferInstanceAs (Decidable (_ → _))

def Ecp5System.Disturbs (s : Ecp5System abits) (t : Ecp5Tick) : Prop :=
  s.update t ∧ (pending s.client.scan s.bridge ∨ s.toldBusy)

def Ecp5System.Kept (s : Ecp5System abits) (t : Ecp5Tick) : Prop :=
  s.Disturbs t → (s.step t).client.scan.requestPayload = s.client.scan.requestPayload ∧
    (s.step t).client.scan.requestToggle = s.client.scan.requestToggle

theorem JtagSystem.isUpdate_scanTick (s : JtagSystem abits) (t : JtagTick) :
    (s.scanTick t).change.isUpdate = s.update t := by
  cases hclear : (t.tck && !t.trstn) with
  | true =>
    have hu : s.update t = false := by simp_all [update]
    simp [scanTick, hclear, hu, ScanChange.isUpdate]
  | false =>
    cases hupdate : s.update t <;> simp only [scanTick, hclear, hupdate]
    · simp only [Bool.false_eq_true, if_false]
      split <;> rfl
    · rfl

theorem Ecp5System.isUpdate_scanTick (s : Ecp5System abits) (t : Ecp5Tick) :
    (s.scanTick t).change.isUpdate = s.update t := by
  cases hupdate : s.update t with
  | true =>
    have hclear : ¬ (t.jtck = .fall ∧ !t.jtagg.jrstn) := by
      rintro ⟨-, hrst⟩
      simp_all [update]
    simp only [scanTick, hupdate, if_neg hclear]
    rfl
  | false =>
    simp only [scanTick, hupdate, Bool.false_eq_true, if_false]
    split_ifs <;> rfl

theorem JtagSystem.kept_iff (s : JtagSystem abits) (t : JtagTick) :
    s.Kept t ↔ ¬ s.Disturbs t := by
  have h := requestKept_iff s.watched (s.scanTick t)
  unfold RequestKept DmiTransport.Disturbs at h
  rw [isUpdate_scanTick, ← watched_step] at h
  unfold Kept Disturbs
  rw [and_imp]
  exact h

theorem Ecp5System.kept_iff (s : Ecp5System abits) (t : Ecp5Tick) :
    s.Kept t ↔ ¬ s.Disturbs t := by
  have h := requestKept_iff s.watched (s.scanTick t)
  unfold RequestKept DmiTransport.Disturbs at h
  rw [isUpdate_scanTick, ← watched_step] at h
  unfold Kept Disturbs
  rw [and_imp]
  exact h

/-- Every request of the run is delivered once with its own response, the latest one
possibly still pending. -/
def AllDelivered (s : Link abits) (ts : List (ScanTick abits)) : Prop :=
  (scanLog ts).link = s ∧ ∀ tr ∈ (scanLog ts).log,
    tr.Delivered ∧ (tr.response.isSome ∨ s.pending = true ∧ (scanLog ts).log.head? = some tr)

/-- **Busy scans.** Neither frontend gates Update-DR: the request registers survive busy scans
in exactly the runs in which no scan told busy is finished by an update. In those runs, with
the TAP reset only between requests, every request completes with its own response. -/
theorem busy_scans_harmless_iff (abits : ℕ) :
    (∀ is : List JtagTick,
      ((jtag abits).Along JtagSystem.Kept (jtag abits).init is ↔
        (jtag abits).Along (fun s t => ¬ s.Disturbs t) (jtag abits).init is) ∧
      ((jtag abits).Along (fun s t => Undisturbed s.watched (s.scanTick t)) (jtag abits).init is →
        AllDelivered ((jtag abits).run is).watched.link
          ((jtag abits).labels JtagSystem.scanTick (jtag abits).init is))) ∧
    (∀ is : List Ecp5Tick,
      ((ecp5 abits).Along Ecp5System.Kept (ecp5 abits).init is ↔
        (ecp5 abits).Along (fun s t => ¬ s.Disturbs t) (ecp5 abits).init is) ∧
      ((ecp5 abits).Along (fun s t => Undisturbed s.watched (s.scanTick t)) (ecp5 abits).init is →
        AllDelivered ((ecp5 abits).run is).watched.link
          ((ecp5 abits).labels Ecp5System.scanTick (ecp5 abits).init is))) := by
  constructor
  · intro is
    refine ⟨Clocked.along_congr fun s t => s.kept_iff t, fun h => ?_⟩
    have hrun := Clocked.runFrom_labels (M := jtag abits) (N := watched abits)
      JtagSystem.watched_step (jtag abits).init is
    have halong := (Clocked.along_labels (M := jtag abits) (N := watched abits)
      (P := Undisturbed) JtagSystem.watched_step).mpr h
    have hdone := watched_delivers halong
    rw [Clocked.run, hrun]
    exact hdone
  · intro is
    refine ⟨Clocked.along_congr fun s t => s.kept_iff t, fun h => ?_⟩
    have hrun := Clocked.runFrom_labels (M := ecp5 abits) (N := watched abits)
      Ecp5System.watched_step (ecp5 abits).init is
    have halong := (Clocked.along_labels (M := ecp5 abits) (N := watched abits)
      (P := Undisturbed) Ecp5System.watched_step).mpr h
    have hdone := watched_delivers halong
    rw [Clocked.run, hrun]
    exact hdone

/-- TCK edges from reset: the DMI instruction is shifted in, then two empty DMI scans follow
without a single core clock edge between them. -/
def twoScans : List JtagTick :=
  [⟨true, false, false, true, false, 0⟩, ⟨true, true, false, true, false, 0⟩,
    ⟨true, true, false, true, false, 0⟩, ⟨true, false, false, true, false, 0⟩,
    ⟨true, false, false, true, false, 0⟩,
    -- 0x11, least significant bit first
    ⟨true, false, true, true, false, 0⟩, ⟨true, false, false, true, false, 0⟩,
    ⟨true, false, false, true, false, 0⟩, ⟨true, false, false, true, false, 0⟩,
    ⟨true, true, true, true, false, 0⟩,
    ⟨true, true, false, true, false, 0⟩, ⟨true, true, false, true, false, 0⟩,
    -- Select-DR, Capture-DR, Exit1-DR, Update-DR, twice
    ⟨true, false, false, true, false, 0⟩, ⟨true, true, false, true, false, 0⟩,
    ⟨true, true, false, true, false, 0⟩, ⟨true, true, false, true, false, 0⟩,
    ⟨true, false, false, true, false, 0⟩, ⟨true, true, false, true, false, 0⟩,
    ⟨true, true, false, true, false, 0⟩, ⟨true, true, false, true, false, 0⟩]

/-- The same scans with nine cycles of both clocks between them. -/
def twoScansApart : List JtagTick :=
  twoScans.take 15 ++ List.replicate 9 ⟨true, false, false, true, true, 0⟩ ++ twoScans.drop 15

/-- Two updates of the ER1 register, with the core clock running. -/
def twoUpdates : List Ecp5Tick :=
  let scan : List Ecp5Tick := [⟨.fall, { jce1 := true }, true, 0⟩, ⟨.rise, {}, true, 0⟩,
    ⟨.fall, { jupdate := true }, true, 0⟩]
  let wait := (List.replicate 8 [⟨.rise, {}, true, 0⟩, ⟨.fall, {}, true, 0⟩]).flatten
  scan ++ wait ++ scan

theorem busy_scans_harmless_apart :
    AllDelivered ((jtag 7).run twoScansApart).watched.link
        ((jtag 7).labels JtagSystem.scanTick (jtag 7).init twoScansApart) ∧
      AllDelivered ((ecp5 7).run twoUpdates).watched.link
        ((ecp5 7).labels Ecp5System.scanTick (ecp5 7).init twoUpdates) :=
  ⟨((busy_scans_harmless_iff 7).1 twoScansApart).2 (by decide +kernel),
    ((busy_scans_harmless_iff 7).2 twoUpdates).2 (by decide +kernel)⟩

/-- The second scan is told busy, and its update takes the request back before the core
has seen it. -/
theorem busy_scan_cancels_request :
    ¬ (jtag 7).Along JtagSystem.Kept (jtag 7).init twoScans ∧
    ((jtag 7).run (twoScans.take 19)).watched.link.pending = true ∧
    ((jtag 7).run (twoScans.take 19)).toldBusy = true ∧
    ((jtag 7).run twoScans).watched.link.pending = false ∧
    ((jtag 7).run twoScans).bridge.requestToggleMeta = false := by
  decide

end BonfireCore.DmiTransport
