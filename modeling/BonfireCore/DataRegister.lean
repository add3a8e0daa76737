import BonfireCore.DmiScan
import Mathlib.Data.List.GetD

/-! What a JTAG data register holds after bits were shifted through it, and the native
frontend's two data registers against that. -/
namespace BonfireCore.DmiTransport

/-- What passes through a register: the captured value and then the bits shifted in, least
significant bit first. -/
def stream {w : ℕ} (captured : BitVec w) (bits : List Bool) : BitVec (bits.length + w) :=
  BitVec.ofBoolListLE bits ++ captured

/-- The last `w` bits of the stream. -/
def scanned {w : ℕ} (captured : BitVec w) (bits : List Bool) : BitVec w :=
  (stream captured bits).extractLsb' bits.length w

section Scanned
variable {w : ℕ} (captured : BitVec w) (bits : List Bool)

theorem getLsbD_stream (j : ℕ) :
    (stream captured bits).getLsbD j =
      if j < w then captured.getLsbD j else bits.getD (j - w) false := by
  rw [stream, BitVec.getLsbD_append, BitVec.getLsbD_ofBoolListLE]

theorem getLsbD_scanned {j : ℕ} (h : j < w) :
    (scanned captured bits).getLsbD j = (stream captured bits).getLsbD (bits.length + j) := by
  rw [scanned, BitVec.getLsbD_extractLsb', decide_eq_true h, Bool.true_and]

@[simp] theorem scanned_nil : scanned captured [] = captured := by
  apply BitVec.eq_of_getLsbD_eq
  intro j h
  rw [getLsbD_scanned _ _ h, getLsbD_stream, List.length_nil, Nat.zero_add, if_pos h]

/-- Bits still to come do not change the stream. -/
theorem stream_append {bit : Bool} {j : ℕ} (h : j < w + bits.length) :
    (stream captured (bits ++ [bit])).getLsbD j = (stream captured bits).getLsbD j := by
  rw [getLsbD_stream, getLsbD_stream]
  split_ifs with hw
  · rfl
  · exact List.getD_append _ _ _ _ (by omega)

theorem stream_last {bit : Bool} :
    (stream captured (bits ++ [bit])).getLsbD (w + bits.length) = bit := by
  rw [getLsbD_stream, if_neg (by omega), Nat.add_sub_cancel_left]
  simp

theorem shiftIn_scanned {tdi : Bool} :
    shiftIn tdi (scanned captured bits) = scanned captured (bits ++ [tdi]) := by
  apply BitVec.eq_of_getLsbD_eq
  intro j h
  have hlen : (bits ++ [tdi]).length = bits.length + 1 := List.length_append
  rw [getLsbD_scanned _ _ h, shiftIn, getLsbD_setSlice, getLsbD_setSlice,
    BitVec.getLsbD_extractLsb']
  by_cases hlast : j = w - 1
  · have hidx : (bits ++ [tdi]).length + j = w + bits.length := by omega
    have hin : ¬(0 ≤ j ∧ j < 0 + (w - 1)) := by omega
    have htop : w - 1 ≤ j ∧ j < w - 1 + 1 := by omega
    rw [hidx, stream_last, decide_eq_true h, if_neg hin, if_pos htop, hlast]
    simp
  · have hlt : 1 + j < w := by omega
    have hin : 0 ≤ j ∧ j < 0 + (w - 1) := by omega
    have hidx : (bits ++ [tdi]).length + j = bits.length + (1 + j) := by omega
    have hsub : j - 0 < w - 1 := by omega
    rw [hidx, stream_append _ _ (by omega), ← getLsbD_scanned _ _ hlt, decide_eq_true h,
      if_pos hin, decide_eq_true hsub, Nat.sub_zero, Bool.true_and, Bool.true_and]

/-- A register filled with new bits does not depend on what was in it. -/
theorem scanned_full {l : List Bool} (h : w ≤ bits.length) :
    scanned captured (l ++ bits) = scanned captured bits := by
  apply BitVec.eq_of_getLsbD_eq
  intro j hj
  have hlen : (l ++ bits).length = l.length + bits.length := List.length_append
  have hidx : (l ++ bits).length + j - w - l.length = bits.length + j - w := by omega
  rw [getLsbD_scanned _ _ hj, getLsbD_scanned _ _ hj, getLsbD_stream, getLsbD_stream,
    if_neg (by omega), if_neg (by omega), List.getD_append_right _ _ _ _ (by omega), hidx]

end Scanned
/-- The data register an instruction selects. -/
inductive DrSelect
  | dmi | dtmcs | other
  deriving DecidableEq, Repr

variable {abits : ℕ}

/-- A data-register scan: the values captured and the `TDI` bits sampled in Shift-DR. -/
structure DrScan (abits : ℕ) where
  dmi : DmiPayload abits := 0
  dtmcs : BitVec 32 := 0
  bits : List Bool := []
  deriving DecidableEq, Repr

namespace DrScan

def capture (pending : Bool) (response : DmiPayload abits) : DrScan abits where
  dmi := captureDmi pending response
  dtmcs := captureDtmcs abits pending

def sample (d : DrScan abits) (tdi : Bool) : DrScan abits := { d with bits := d.bits ++ [tdi] }

/-- The request made in `state`. -/
def request (d : DrScan abits) (select : DrSelect) (state : TapState) :
    Option (DmiPayload abits) :=
  if state = .updateDr ∧ select = .dmi then some (scanned d.dmi d.bits) else none

def hardreset (d : DrScan abits) (select : DrSelect) (state : TapState) : Bool :=
  state = .updateDr && select = .dtmcs && (scanned d.dtmcs d.bits).getLsbD 17

/-- The bit to be seen on `TDO`. -/
def shown (d : DrScan abits) (select : DrSelect) (state : TapState) : Option Bool :=
  if state ≠ .shiftDr then none
  else
    match select with
    | .dmi => some ((stream d.dmi d.bits).getLsbD d.bits.length)
    | .dtmcs => some ((stream d.dtmcs d.bits).getLsbD d.bits.length)
    | .other => none

end DrScan

/-- The request a frontend makes in changing its request registers from `old` to `new`. -/
def ScanSide.issued (old new : ScanSide abits) : Option (DmiPayload abits) :=
  if new.requestToggle = old.requestToggle then none else some new.requestPayload

def ScanSide.hardresetIssued (old new : ScanSide abits) : Bool :=
  new.dtmhardresetToggle != old.dtmhardresetToggle

/-- One `TCK` cycle; `pending` and `response` are the bridge's outputs where a frontend
captures. -/
structure ScanCycle (abits : ℕ) where
  tms : Bool := false
  tdi : Bool := false
  pending : Bool := false
  response : DmiPayload abits := 0

/-- The native frontend and the scan it has been given. -/
structure JtagScan (abits : ℕ) where
  dtm : JtagDtm abits := {}
  dr : DrScan abits := {}

def JtagDtm.selected (d : JtagDtm abits) : DrSelect :=
  if d.instruction = JTAG_INSTR_DMI then .dmi
  else if d.instruction = JTAG_INSTR_DTMCS then .dtmcs
  else .other

namespace JtagScan

def step (s : JtagScan abits) (i : ScanCycle abits) : JtagScan abits where
  dtm := s.dtm.tapActions false true i.tms i.tdi i.pending i.response
  dr :=
    if s.dtm.tapState = .captureDr then .capture i.pending i.response
    else if s.dtm.tapState = .shiftDr then s.dr.sample i.tdi
    else s.dr

def machine (abits : ℕ) : Clocked (JtagScan abits) (ScanCycle abits) where
  init := {}
  step := step

/-- The cycle does to the request registers, and shows on `TDO`, what the scan asks for. -/
def Conforms (s : JtagScan abits) (i : ScanCycle abits) : Prop :=
  s.dtm.scan.issued (s.step i).dtm.scan = s.dr.request s.dtm.selected s.dtm.tapState ∧
    s.dtm.scan.hardresetIssued (s.step i).dtm.scan =
      s.dr.hardreset s.dtm.selected s.dtm.tapState ∧
    ∀ bit ∈ (s.step i).dr.shown (s.step i).dtm.selected (s.step i).dtm.tapState,
      (s.step i).dtm.tdoSelect false true = bit

/-- The selected register holds the scan. -/
def Holds (s : JtagScan abits) : Prop :=
  s.dtm.tapState.inScan = true →
    (s.dtm.selected = .dmi → s.dtm.dmiShiftReg = scanned s.dr.dmi s.dr.bits) ∧
      (s.dtm.selected = .dtmcs → s.dtm.dtmcsShiftReg = scanned s.dr.dtmcs s.dr.bits)

variable {s : JtagScan abits} {i : ScanCycle abits}

theorem selected_dmi {d : JtagDtm abits} : d.selected = .dmi ↔ d.instruction = JTAG_INSTR_DMI := by
  unfold JtagDtm.selected
  split_ifs with h h' <;> simp [h]

theorem selected_dtmcs {d : JtagDtm abits} :
    d.selected = .dtmcs ↔ d.instruction = JTAG_INSTR_DTMCS := by
  unfold JtagDtm.selected
  split_ifs with h h' <;> simp_all [JTAG_INSTR_DMI, JTAG_INSTR_DTMCS]

section DrActions
variable {d : JtagDtm abits} (tms tdi pending : Bool) (response : DmiPayload abits)

theorem irActions_scan (h : d.tapState = .captureDr ∨ d.tapState.inScan = true) :
    d.irActions tms tdi = d := by
  cases hs : d.tapState <;> simp [hs, TapState.inScan] at h <;> simp [JtagDtm.irActions, hs]

theorem drActions_capture (h : d.tapState = .captureDr) :
    let d' := d.drActions tdi pending response d
    d'.instruction = d.instruction ∧
      (d.instruction = JTAG_INSTR_DMI → d'.dmiShiftReg = captureDmi pending response) ∧
      (d.instruction = JTAG_INSTR_DTMCS → d'.dtmcsShiftReg = captureDtmcs abits pending) := by
  simp only [JtagDtm.drActions, h, if_true]
  refine ⟨?_, fun hi => ?_, fun hi => ?_⟩
  · split_ifs <;> rfl
  · simp [hi, JTAG_INSTR_DMI, JTAG_INSTR_IDCODE, JTAG_INSTR_BYPASS]
  · simp [hi, JTAG_INSTR_DTMCS, JTAG_INSTR_DMI, JTAG_INSTR_IDCODE, JTAG_INSTR_BYPASS]

theorem drActions_shift (h : d.tapState = .shiftDr) :
    let d' := d.drActions tdi pending response d
    d'.instruction = d.instruction ∧
      (d.instruction = JTAG_INSTR_DMI → d'.dmiShiftReg = shiftIn tdi d.dmiShiftReg) ∧
      (d.instruction = JTAG_INSTR_DTMCS → d'.dtmcsShiftReg = shiftIn tdi d.dtmcsShiftReg) := by
  simp only [JtagDtm.drActions, h, if_true, if_false, reduceCtorEq]
  refine ⟨?_, fun hi => ?_, fun hi => ?_⟩
  · split_ifs <;> rfl
  · simp [hi, JTAG_INSTR_DMI, JTAG_INSTR_IDCODE, JTAG_INSTR_BYPASS]
  · simp [hi, JTAG_INSTR_DTMCS, JTAG_INSTR_DMI, JTAG_INSTR_IDCODE, JTAG_INSTR_BYPASS]

theorem drActions_rest (hcapture : d.tapState ≠ .captureDr) (hshift : d.tapState ≠ .shiftDr) :
    let d' := d.drActions tdi pending response d
    d'.instruction = d.instruction ∧ d'.dmiShiftReg = d.dmiShiftReg ∧
      d'.dtmcsShiftReg = d.dtmcsShiftReg := by
  simp only [JtagDtm.drActions, hcapture, hshift, if_false]
  split_ifs <;> exact ⟨rfl, rfl, rfl⟩

end DrActions

/-- Only a scan leads into the states of one. -/
theorem inScan_transition {t : TapState} {tms : Bool}
    (h : (t.transition false true tms).inScan = true) : t = .captureDr ∨ t.inScan = true := by
  cases t <;> cases tms <;> first | exact absurd h (by decide) | decide

theorem step_fields (s : JtagScan abits) (i : ScanCycle abits) :
    (s.step i).dtm.tapState = s.dtm.tapState.transition false true i.tms ∧
      (s.step i).dtm.instruction =
        (s.dtm.drActions i.tdi i.pending i.response (s.dtm.irActions i.tms i.tdi)).instruction ∧
      (s.step i).dtm.dmiShiftReg =
        (s.dtm.drActions i.tdi i.pending i.response (s.dtm.irActions i.tms i.tdi)).dmiShiftReg ∧
      (s.step i).dtm.dtmcsShiftReg =
        (s.dtm.drActions i.tdi i.pending i.response (s.dtm.irActions i.tms i.tdi)).dtmcsShiftReg :=
  ⟨rfl, rfl, rfl, rfl⟩

theorem holds_step (h : s.Holds) : (s.step i).Holds := by
  obtain ⟨htap, hinstr, hdmi, hdtmcs⟩ := step_fields s i
  intro hscan
  simp only [Holds, selected_dmi, selected_dtmcs] at h ⊢
  rw [htap] at hscan
  have hfrom := inScan_transition hscan
  rw [irActions_scan _ _ hfrom] at hinstr hdmi hdtmcs
  rw [hinstr, hdmi, hdtmcs]
  by_cases hcapture : s.dtm.tapState = .captureDr
  · obtain ⟨hi, h1, h2⟩ := drActions_capture i.tdi i.pending i.response hcapture
    rw [hi, step, if_pos hcapture]
    exact ⟨fun hsel => (h1 hsel).trans (scanned_nil _).symm,
      fun hsel => (h2 hsel).trans (scanned_nil _).symm⟩
  have hin := hfrom.resolve_left hcapture
  obtain ⟨hd, ht⟩ := h hin
  by_cases hshift : s.dtm.tapState = .shiftDr
  · obtain ⟨hi, h1, h2⟩ := drActions_shift i.tdi i.pending i.response hshift
    rw [hi, step, if_neg hcapture, if_pos hshift]
    exact ⟨fun hsel => by rw [h1 hsel, hd hsel, shiftIn_scanned]; rfl,
      fun hsel => by rw [h2 hsel, ht hsel, shiftIn_scanned]; rfl⟩
  · obtain ⟨hi, h1, h2⟩ := drActions_rest i.tdi i.pending i.response hcapture hshift
    rw [hi, h1, h2, step, if_neg hcapture, if_neg hshift]
    exact ⟨hd, ht⟩

theorem tdoSelect_shift {d : JtagDtm abits} (h : d.tapState = .shiftDr) :
    (d.instruction = JTAG_INSTR_DMI → d.tdoSelect false true = d.dmiShiftReg.getLsbD 0) ∧
      (d.instruction = JTAG_INSTR_DTMCS → d.tdoSelect false true = d.dtmcsShiftReg.getLsbD 0) := by
  refine ⟨fun hi => ?_, fun hi => ?_⟩
  · simp [JtagDtm.tdoSelect, h, hi, JTAG_INSTR_DMI, JTAG_INSTR_IDCODE, JTAG_INSTR_BYPASS]
  · simp [JtagDtm.tdoSelect, h, hi, JTAG_INSTR_DTMCS, JTAG_INSTR_DMI, JTAG_INSTR_IDCODE,
      JTAG_INSTR_BYPASS]

theorem shown_conforms (h : s.Holds) {bit : Bool}
    (hbit : bit ∈ s.dr.shown s.dtm.selected s.dtm.tapState) :
    s.dtm.tdoSelect false true = bit := by
  unfold DrScan.shown at hbit
  split_ifs at hbit with hs
  · cases hbit
  rw [not_not] at hs
  obtain ⟨hd, ht⟩ := h (by rw [hs]; rfl)
  obtain ⟨hdmi, hdtmcs⟩ := tdoSelect_shift hs
  cases hsel : s.dtm.selected with
  | dmi =>
    rw [hsel] at hbit
    rw [hdmi (selected_dmi.mp hsel), hd hsel, getLsbD_scanned _ _ (by omega)]
    exact Option.some.inj hbit
  | dtmcs =>
    rw [hsel] at hbit
    rw [hdtmcs (selected_dtmcs.mp hsel), ht hsel, getLsbD_scanned _ _ (by omega)]
    exact Option.some.inj hbit
  | other =>
    rw [hsel] at hbit
    cases hbit

theorem conforms_step (h : s.Holds) : s.Conforms i := by
  have hscan : (s.step i).dtm.scan = _ :=
    JtagDtm.tapActions_scan i.tms i.tdi i.pending i.response s.dtm
  simp only [← selected_dmi, ← selected_dtmcs] at hscan
  refine ⟨?_, ?_, fun bit hbit => shown_conforms (holds_step h) hbit⟩ <;> rw [hscan]
  · by_cases hu : s.dtm.tapState = .updateDr
    · obtain ⟨hd, -⟩ := h (by rw [hu]; rfl)
      by_cases hsel : s.dtm.selected = .dmi
      · simp [DrScan.request, ScanSide.issued, ScanChange.apply, hu, hsel, hd hsel]
      · simp only [DrScan.request, hu, hsel, and_false, true_and, if_false]
        split_ifs <;> simp [ScanSide.issued, ScanChange.apply]
    · simp [DrScan.request, ScanSide.issued, hu]
  · by_cases hu : s.dtm.tapState = .updateDr
    · obtain ⟨-, ht⟩ := h (by rw [hu]; rfl)
      cases hsel : s.dtm.selected with
      | dmi => simp [DrScan.hardreset, ScanSide.hardresetIssued, ScanChange.apply, hu]
      | dtmcs =>
        rw [ht hsel, DrScan.hardreset]
        cases (scanned s.dr.dtmcs s.dr.bits).getLsbD 17 <;>
          simp [ScanSide.hardresetIssued, ScanChange.apply, hu]
      | other => simp [DrScan.hardreset, ScanSide.hardresetIssued, hu]
    · simp [DrScan.hardreset, ScanSide.hardresetIssued, hu]

/-- The native frontend does what its scans ask for, whatever `TMS` and `TDI` do. -/
theorem conforms (is : List (ScanCycle abits)) : (machine abits).Along Conforms {} is :=
  Clocked.along_of_inv Holds (fun _ _ => holds_step) (fun _ _ => conforms_step) nofun

end JtagScan
end BonfireCore.DmiTransport
