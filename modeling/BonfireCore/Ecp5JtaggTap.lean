import BonfireCore.DataRegister

/-! The ECP5 TAP emulator in front of the JTAGG client. The client shifts once more than
the TAP spends edges in Shift-DR: the bit on `TDI` as Shift-DR is entered goes in too. A
scan of exactly the register's length pushes it out again. -/
namespace BonfireCore.DmiTransport

def ECP5_JTAGG_IR_ER1 : BitVec 8 := 0x32
def ECP5_JTAGG_IR_ER2 : BitVec 8 := 0x38
def ECP5_JTAG_INSTR_IDCODE : BitVec 8 := 0x01

structure Ecp5JtaggTap where
  tapState : TapState := .testLogicReset
  instruction : BitVec 8 := ECP5_JTAG_INSTR_IDCODE
  irShift : BitVec 8 := 0
  idcodeShift : BitVec 32 := 0
  bypass : Bool := false
  jtdi : Bool := false
  deriving DecidableEq, Repr

namespace Ecp5JtaggTap

def irActions (tms tdi : Bool) (t : Ecp5JtaggTap) : Ecp5JtaggTap :=
  let e := if t.tapState = .testLogicReset ∧ tms then
      { t with instruction := ECP5_JTAG_INSTR_IDCODE } else t
  if t.tapState = .captureIr then { e with irShift := 0x01 }
  else if t.tapState = .shiftIr then { e with irShift := shiftIn tdi t.irShift }
  else if t.tapState = .updateIr then { e with instruction := t.irShift }
  else e

/-- The registers of the emulator itself: `t` before the edge, `e` with the instruction
part done. -/
def drActions (idcode : BitVec 32) (tdi : Bool) (t e : Ecp5JtaggTap) : Ecp5JtaggTap :=
  if t.tapState = .captureDr then
    if t.instruction = ECP5_JTAG_INSTR_IDCODE then { e with idcodeShift := idcode }
    else { e with bypass := false }
  else if t.tapState = .shiftDr then
    if t.instruction = ECP5_JTAG_INSTR_IDCODE then
      { e with idcodeShift := shiftIn tdi t.idcodeShift }
    else if t.instruction ≠ ECP5_JTAGG_IR_ER1 ∧ t.instruction ≠ ECP5_JTAGG_IR_ER2 then
      { e with bypass := tdi }
    else e
  else e

/-- Rising edge of `tck_i`: register actions, TAP state and the registered `TDI`. -/
def actions (idcode : BitVec 32) (reset trstn tms tdi : Bool) (t : Ecp5JtaggTap) :
    Ecp5JtaggTap :=
  let e := if reset || !trstn then {} else drActions idcode tdi t (t.irActions tms tdi)
  { e with tapState := t.tapState.transition reset trstn tms, jtdi := tdi }

def jtaggDrive (trstn : Bool) (t : Ecp5JtaggTap) : Ecp5JtaggInput where
  jtdi := t.jtdi
  jshift := t.tapState = .shiftDr
  jupdate := t.tapState = .updateDr
  jrstn := trstn && t.tapState ≠ .testLogicReset
  jce1 := t.instruction = ECP5_JTAGG_IR_ER1 && (t.tapState = .captureDr || t.tapState = .shiftDr)
  jce2 := t.instruction = ECP5_JTAGG_IR_ER2 && (t.tapState = .captureDr || t.tapState = .shiftDr)
  jrt1 := t.instruction = ECP5_JTAGG_IR_ER1 && t.tapState = .runTestIdle
  jrt2 := t.instruction = ECP5_JTAGG_IR_ER2 && t.tapState = .runTestIdle

/-- Falling edge of `tck_i`: the bit shown on `tdo_o`. -/
def tdoSelect (reset trstn jtdo1 jtdo2 : Bool) (t : Ecp5JtaggTap) : Bool :=
  if reset || !trstn then false
  else if t.tapState = .shiftIr then t.irShift.getLsbD 0
  else if t.tapState = .shiftDr then
    if t.instruction = ECP5_JTAG_INSTR_IDCODE then t.idcodeShift.getLsbD 0
    else if t.instruction = ECP5_JTAGG_IR_ER1 then jtdo1
    else if t.instruction = ECP5_JTAGG_IR_ER2 then jtdo2
    else t.bypass
  else false

def selected (t : Ecp5JtaggTap) : DrSelect :=
  if t.instruction = ECP5_JTAGG_IR_ER1 then .dmi
  else if t.instruction = ECP5_JTAGG_IR_ER2 then .dtmcs
  else .other

end Ecp5JtaggTap

/-- The emulator, the client it drives and the scan they have been given. -/
structure Ecp5Scan (abits : ℕ) where
  tap : Ecp5JtaggTap := {}
  client : Ecp5JtaggClient abits := {}
  dr : DrScan abits := {}

namespace Ecp5Scan
variable {abits : ℕ} (idcode : BitVec 32) (s : Ecp5Scan abits) (i : ScanCycle abits)

/-- The emulator after the rising edge. -/
def tapNext : Ecp5JtaggTap := s.tap.actions idcode false true i.tms i.tdi

/-- The client after the falling edge. -/
def clientNext : Ecp5JtaggClient abits :=
  s.client.jtagClockDomain false ((s.tapNext idcode i).jtaggDrive true) i.pending i.response

def step : Ecp5Scan abits where
  tap := s.tapNext idcode i
  client := s.clientNext idcode i
  dr :=
    if (s.tapNext idcode i).tapState = .captureDr then .capture i.pending i.response
    else if s.tap.tapState = .shiftDr then s.dr.sample i.tdi
    else s.dr

/-- `TDO` is taken before the client shifts. -/
def tdo : Bool :=
  (s.tapNext idcode i).tdoSelect false true s.client.jtdo1 s.client.jtdo2

def machine (abits : ℕ) (idcode : BitVec 32) : Clocked (Ecp5Scan abits) (ScanCycle abits) where
  init := {}
  step := step idcode

/-- The cycle does to the request registers, and shows on `TDO`, what the scan asks for. -/
def Conforms : Prop :=
  let s' := s.step idcode i
  s.client.scan.issued s'.client.scan = s'.dr.request s'.tap.selected s'.tap.tapState ∧
    s.client.scan.hardresetIssued s'.client.scan =
      s'.dr.hardreset s'.tap.selected s'.tap.tapState ∧
    ∀ bit ∈ s'.dr.shown s'.tap.selected s'.tap.tapState, s.tdo idcode i = bit

/-- A scan of a register of `width` bits goes through Shift-DR at most once, and then for
`width` edges. -/
def Whole (width : ℕ) : Prop :=
  (s.tap.tapState = .exit2Dr → i.tms = true) ∧
    (s.tap.tapState = .shiftDr → i.tms = false → s.dr.bits.length + 1 < width) ∧
    (s.tap.tapState.transition false true i.tms = .updateDr →
      s.dr.bits.length = 0 ∨ s.dr.bits.length = width)

/-- Whole scans only; Update-DR of another register finds neither data register left active with
something to do; and Test-Logic-Reset, in which the client is reset, finds both toggles clear. -/
def Orderly : Prop :=
  (s.tap.selected = .dmi → s.Whole i (abits + 34)) ∧ (s.tap.selected = .dtmcs → s.Whole i 32) ∧
    (s.tap.selected = .other → s.tap.tapState.transition false true i.tms = .updateDr →
      s.client.activeEr1 = false ∧
        (s.client.activeEr2 && s.client.dtmcsShiftReg.getLsbD 17) = false) ∧
    (s.tap.tapState.transition false true i.tms = .testLogicReset →
      s.client.scan.requestToggle = false ∧ s.client.scan.dtmhardresetToggle = false)

instance (width : ℕ) : Decidable (s.Whole i width) :=
  inferInstanceAs (Decidable ((_ → _) ∧ (_ → _ → _) ∧ (_ → _ ∨ _)))

instance : Decidable (s.Orderly i) :=
  inferInstanceAs (Decidable ((_ → _) ∧ (_ → _) ∧ (_ → _ → _ ∧ _) ∧ (_ → _ ∧ _)))

end Ecp5Scan

/-- A register that has taken in one bit more than the scan. -/
def Slid {w : ℕ} (reg captured : BitVec w) (bits : List Bool) : Prop :=
  ∃ bit, reg = scanned captured (bit :: bits)

/-- A register in the course of an orderly scan. -/
def Carries {w : ℕ} (reg captured : BitVec w) (bits : List Bool) : TapState → Prop
  | .captureDr => bits = [] ∧ reg = captured
  | .shiftDr => bits.length < w ∧ Slid reg captured bits
  | .exit1Dr | .pauseDr | .exit2Dr =>
    bits.length ≤ w ∧ (bits = [] ∧ reg = captured ∨ bits ≠ [] ∧ Slid reg captured bits)
  | .updateDr => reg = scanned captured bits
  | _ => True

section Carries
variable {w : ℕ} {reg captured : BitVec w} {bits : List Bool}

theorem Slid.shiftIn {tdi : Bool} (h : Slid reg captured bits) :
    Slid (shiftIn tdi reg) captured (bits ++ [tdi]) := by
  obtain ⟨bit, rfl⟩ := h
  exact ⟨bit, shiftIn_scanned _ _⟩

/-- The extra bit is gone once the register is full. -/
theorem Slid.full (h : Slid reg captured bits) (hlen : bits.length = w) :
    reg = scanned captured bits := by
  obtain ⟨bit, rfl⟩ := h
  exact scanned_full (l := [bit]) captured bits hlen.ge

/-- Until then it is not yet to be seen. -/
theorem Slid.shown {tdi : Bool} (h : Slid reg captured bits) (hlen : bits.length + 1 < w) :
    reg.getLsbD 0 = (stream captured (bits ++ [tdi])).getLsbD (bits ++ [tdi]).length := by
  obtain ⟨bit, rfl⟩ := h
  have hlen' : (bits ++ [tdi]).length = bits.length + 1 := List.length_append
  rw [getLsbD_scanned _ _ (by omega), getLsbD_stream, getLsbD_stream, hlen', List.length_cons,
    Nat.add_zero, if_pos hlen, if_pos hlen]

theorem Carries.update {t : TapState} (h : Carries reg captured bits t)
    (ht : t = .exit1Dr ∨ t = .exit2Dr) (hlen : bits.length = 0 ∨ bits.length = w) :
    reg = scanned captured bits := by
  have hcases : bits.length ≤ w ∧
      (bits = [] ∧ reg = captured ∨ bits ≠ [] ∧ Slid reg captured bits) := by
    rcases ht with rfl | rfl <;> exact h
  rcases hcases.2 with ⟨rfl, rfl⟩ | ⟨hne, hslid⟩
  · exact (scanned_nil _).symm
  · exact hslid.full (hlen.resolve_left (mt List.length_eq_zero_iff.mp hne))

end Carries

namespace Ecp5JtaggClient
variable {abits : ℕ} {c : Ecp5JtaggClient abits} {i : Ecp5JtaggInput} {pending : Bool}
variable {response : DmiPayload abits}

theorem clock_jshiftD (hrst : i.jrstn = true) :
    (c.jtagClockDomain false i pending response).jshiftD = i.jshift := by
  simp only [jtagClockDomain, hrst, Bool.not_true, Bool.or_self, Bool.false_eq_true, if_false]
  split_ifs <;> rfl

/-- Only Update-DR touches the request registers. -/
theorem clock_scan (hrst : i.jrstn = true) (hupdate : i.jupdate = false) :
    (c.jtagClockDomain false i pending response).scan = c.scan := by
  simp only [jtagClockDomain, hrst, hupdate, Bool.not_true, Bool.or_self, Bool.false_eq_true,
    if_false]
  split_ifs <;> rfl

section Capture
variable (hrst : i.jrstn = true) (hshift : i.jshift = false)
include hrst hshift

theorem clock_capture1 (hce : i.jce1 = true) :
    let c' := c.jtagClockDomain false i pending response
    c'.dmiShiftReg = captureDmi pending response ∧ c'.activeEr1 = true := by
  simp [jtagClockDomain, hrst, hshift, hce]

theorem clock_capture2 (hce1 : i.jce1 = false) (hce : i.jce2 = true) :
    let c' := c.jtagClockDomain false i pending response
    c'.dtmcsShiftReg = captureDtmcs abits pending ∧ c'.activeEr1 = false ∧ c'.activeEr2 = true := by
  simp [jtagClockDomain, hrst, hshift, hce1, hce]

end Capture

section Shift
variable (hrst : i.jrstn = true) (hce2 : (i.jce2 && !i.jshift) = false)
variable (hshift : (i.jshift || c.jshiftD) = true)
include hrst hce2 hshift

theorem clock_shift1 (hce1 : (i.jce1 && !i.jshift) = false) (hact : c.activeEr1 = true) :
    let c' := c.jtagClockDomain false i pending response
    c'.dmiShiftReg = shiftIn i.jtdi c.dmiShiftReg ∧ c'.activeEr1 = true := by
  simp [jtagClockDomain, hrst, hce1, hce2, hshift, hact]

theorem clock_shift2 (hce : i.jce1 = false) (hno : c.activeEr1 = false)
    (hact : c.activeEr2 = true) :
    let c' := c.jtagClockDomain false i pending response
    c'.dtmcsShiftReg = shiftIn i.jtdi c.dtmcsShiftReg ∧ c'.activeEr1 = false ∧
      c'.activeEr2 = true := by
  simp [jtagClockDomain, hrst, hce, hce2, hshift, hno, hact]

end Shift

/-- The falling edge while no register is captured or shifted. -/
theorem clock_rest (hrst : i.jrstn = true) (hce1 : i.jce1 = false) (hce2 : i.jce2 = false)
    (hshift : i.jshift = false) (hd : c.jshiftD = false) (hrt1 : i.jrt1 = false)
    (hrt2 : i.jrt2 = false) :
    c.jtagClockDomain false i pending response =
      { c with
        jshiftD := false
        scan :=
          if i.jupdate then
            if c.activeEr1 then (ScanChange.update c.dmiShiftReg).apply c.scan
            else if c.activeEr2 && c.dtmcsShiftReg.getLsbD 17 then
              ScanChange.hardreset.apply c.scan
            else c.scan
          else c.scan } := by
  simp only [jtagClockDomain, hrst, hce1, hce2, hshift, hd, hrt1, hrt2, Bool.not_true,
    Bool.or_self, Bool.false_and, Bool.false_eq_true, if_false]
  split_ifs <;> rfl

end Ecp5JtaggClient
namespace Ecp5Scan
variable {abits : ℕ} {idcode : BitVec 32} {s : Ecp5Scan abits} {i : ScanCycle abits}

/-- In Capture-DR and after it the selected register is the active one. -/
def inRegister (t : TapState) : Bool := t = .captureDr || t.inScan

/-- What an orderly run keeps. -/
structure Tracks (s : Ecp5Scan abits) : Prop where
  jshiftD : s.client.jshiftD = decide (s.tap.tapState = .shiftDr)
  dmi : s.tap.selected = .dmi →
    Carries s.client.dmiShiftReg s.dr.dmi s.dr.bits s.tap.tapState ∧
      (inRegister s.tap.tapState = true → s.client.activeEr1 = true)
  dtmcs : s.tap.selected = .dtmcs →
    Carries s.client.dtmcsShiftReg s.dr.dtmcs s.dr.bits s.tap.tapState ∧
      (inRegister s.tap.tapState = true →
        s.client.activeEr1 = false ∧ s.client.activeEr2 = true)

section Tap
variable {t : TapState} {tms : Bool}

theorem transition_shiftDr (h : t.transition false true tms = .shiftDr) :
    tms = false ∧ (t = .captureDr ∨ t = .shiftDr ∨ t = .exit2Dr) := by
  cases t <;> cases tms <;> first | exact absurd h (by decide) | decide

theorem transition_exit1Dr (h : t.transition false true tms = .exit1Dr) :
    t = .captureDr ∨ t = .shiftDr := by
  cases t <;> cases tms <;> first | exact absurd h (by decide) | decide

theorem transition_pauseDr (h : t.transition false true tms = .pauseDr) :
    t = .exit1Dr ∨ t = .pauseDr := by
  cases t <;> cases tms <;> first | exact absurd h (by decide) | decide

theorem transition_exit2Dr (h : t.transition false true tms = .exit2Dr) : t = .pauseDr := by
  cases t <;> cases tms <;> first | rfl | exact absurd h (by decide)

theorem transition_updateDr (h : t.transition false true tms = .updateDr) :
    t = .exit1Dr ∨ t = .exit2Dr := by
  cases t <;> cases tms <;> first | exact absurd h (by decide) | decide

end Tap

theorem tapNext_selected (hreset : s.tap.tapState ≠ .testLogicReset)
    (hir : s.tap.tapState ≠ .updateIr) :
    (s.tapNext idcode i).selected = s.tap.selected := by
  have hinstr : (s.tapNext idcode i).instruction = s.tap.instruction := by
    simp only [tapNext, Ecp5JtaggTap.actions, Ecp5JtaggTap.drActions, Ecp5JtaggTap.irActions,
      hreset, hir, Bool.not_true, Bool.or_self, Bool.false_eq_true, false_and, if_false]
    split_ifs <;> rfl
  rw [Ecp5JtaggTap.selected, hinstr]
  rfl

theorem selected_dmi {t : Ecp5JtaggTap} :
    t.selected = .dmi ↔ t.instruction = ECP5_JTAGG_IR_ER1 := by
  unfold Ecp5JtaggTap.selected
  split_ifs with h h' <;> simp [h]

theorem selected_dtmcs {t : Ecp5JtaggTap} :
    t.selected = .dtmcs ↔ t.instruction = ECP5_JTAGG_IR_ER2 := by
  unfold Ecp5JtaggTap.selected
  split_ifs with h h' <;> simp_all [ECP5_JTAGG_IR_ER1, ECP5_JTAGG_IR_ER2]

/-- The client in reset. -/
theorem clientNext_reset (h : (s.tapNext idcode i).tapState = .testLogicReset) :
    s.clientNext idcode i = {} := by
  simp [clientNext, Ecp5JtaggClient.jtagClockDomain, Ecp5JtaggTap.jtaggDrive, h]

theorem clientNext_jshiftD :
    (s.clientNext idcode i).jshiftD = decide ((s.tapNext idcode i).tapState = .shiftDr) := by
  by_cases h : (s.tapNext idcode i).tapState = .testLogicReset
  · rw [clientNext_reset h, h]
    rfl
  · exact Ecp5JtaggClient.clock_jshiftD (by simp [Ecp5JtaggTap.jtaggDrive, h])

/-- The signals in a state that neither captures nor shifts, nor idles. -/
theorem clientNext_rest (hd : s.client.jshiftD = false)
    (h : (s.tapNext idcode i).tapState.inScan = true)
    (hne : (s.tapNext idcode i).tapState ≠ .shiftDr) :
    s.clientNext idcode i =
      { s.client with
        jshiftD := false
        scan :=
          if (s.tapNext idcode i).tapState = .updateDr then
            if s.client.activeEr1 then
              (ScanChange.update s.client.dmiShiftReg).apply s.client.scan
            else if s.client.activeEr2 && s.client.dtmcsShiftReg.getLsbD 17 then
              ScanChange.hardreset.apply s.client.scan
            else s.client.scan
          else s.client.scan } := by
  have hstate : (s.tapNext idcode i).tapState ≠ .testLogicReset ∧
      (s.tapNext idcode i).tapState ≠ .captureDr ∧
      (s.tapNext idcode i).tapState ≠ .runTestIdle := by
    refine ⟨?_, ?_, ?_⟩ <;> intro he <;> rw [he] at h <;> cases h
  obtain ⟨h1, h2, h3⟩ := hstate
  rw [clientNext, Ecp5JtaggClient.clock_rest] <;>
    simp [Ecp5JtaggTap.jtaggDrive, h1, h2, h3, hne, hd]

/-- One cycle of a whole scan. -/
theorem Carries.next {w : ℕ} {reg captured : BitVec w} (hw : 0 < w)
    (h : Carries reg captured s.dr.bits s.tap.tapState) (hwhole : s.Whole i w)
    (hscan : (s.tap.tapState.transition false true i.tms).inScan = true) :
    Carries
      (if s.tap.tapState.transition false true i.tms = .shiftDr ∨ s.tap.tapState = .shiftDr then
        shiftIn i.tdi reg else reg)
      captured (if s.tap.tapState = .shiftDr then s.dr.bits ++ [i.tdi] else s.dr.bits)
      (s.tap.tapState.transition false true i.tms) := by
  obtain ⟨hexit2, hshift, hupdate⟩ := hwhole
  generalize ht' : s.tap.tapState.transition false true i.tms = t' at *
  generalize s.tap.tapState = t at *
  cases t' <;> simp only [TapState.inScan, Bool.false_eq_true] at hscan
  case shiftDr =>
    obtain ⟨htms, rfl | rfl | rfl⟩ := transition_shiftDr ht'
    · obtain ⟨hbits, rfl⟩ := h
      have hslid : shiftIn i.tdi reg = scanned reg [i.tdi] := by
        rw [← scanned_nil reg, shiftIn_scanned, List.nil_append, scanned_nil]
      simpa [Carries, hbits, hw] using ⟨i.tdi, hslid⟩
    · have hlen := hshift rfl htms
      simpa [Carries, hlen] using h.2.shiftIn
    · exact absurd (htms.symm.trans (hexit2 rfl)) (by decide)
  case exit1Dr =>
    rcases transition_exit1Dr ht' with rfl | rfl
    · obtain ⟨hbits, hreg⟩ := h
      exact ⟨by simp [hbits], .inl ⟨hbits, hreg⟩⟩
    · have hlen : s.dr.bits.length < w := h.1
      refine ⟨?_, .inr ⟨?_, ?_⟩⟩
      · simpa using Nat.succ_le_of_lt hlen
      · simp
      · simpa using h.2.shiftIn
  case pauseDr =>
    rcases transition_pauseDr ht' with rfl | rfl <;> exact h
  case exit2Dr =>
    rw [transition_exit2Dr ht'] at h ⊢
    exact h
  case updateDr =>
    have hreg := h.update (transition_updateDr ht') (hupdate rfl)
    rcases transition_updateDr ht' with rfl | rfl <;> exact hreg

section Registers
variable (hd : s.client.jshiftD = decide (s.tap.tapState = .shiftDr))
variable (hscan : (s.tapNext idcode i).tapState.inScan = true)
include hd hscan

/-- What the client does to the active register. -/
theorem clientNext_dmi (hsel : (s.tapNext idcode i).selected = .dmi)
    (hact : s.client.activeEr1 = true) :
    (s.clientNext idcode i).dmiShiftReg =
        (if (s.tapNext idcode i).tapState = .shiftDr ∨ s.tap.tapState = .shiftDr then
          shiftIn i.tdi s.client.dmiShiftReg else s.client.dmiShiftReg) ∧
      (s.clientNext idcode i).activeEr1 = true := by
  have hinstr := selected_dmi.mp hsel
  have hreset : (s.tapNext idcode i).tapState ≠ .testLogicReset := by
    intro he; rw [he] at hscan; cases hscan
  have hcapture : (s.tapNext idcode i).tapState ≠ .captureDr := by
    intro he; rw [he] at hscan; cases hscan
  by_cases hshift : (s.tapNext idcode i).tapState = .shiftDr ∨ s.tap.tapState = .shiftDr
  · rw [if_pos hshift]
    refine Ecp5JtaggClient.clock_shift1 ?_ ?_ ?_ ?_ hact <;>
      simp [Ecp5JtaggTap.jtaggDrive, hreset, hcapture, hinstr, ECP5_JTAGG_IR_ER1,
        ECP5_JTAGG_IR_ER2, hd, hshift]
  · rw [not_or] at hshift
    rw [if_neg (not_or.mpr hshift),
      clientNext_rest (hd.trans (decide_eq_false hshift.2)) hscan hshift.1]
    exact ⟨rfl, hact⟩

theorem clientNext_dtmcs (hsel : (s.tapNext idcode i).selected = .dtmcs)
    (hno : s.client.activeEr1 = false) (hact : s.client.activeEr2 = true) :
    (s.clientNext idcode i).dtmcsShiftReg =
        (if (s.tapNext idcode i).tapState = .shiftDr ∨ s.tap.tapState = .shiftDr then
          shiftIn i.tdi s.client.dtmcsShiftReg else s.client.dtmcsShiftReg) ∧
      (s.clientNext idcode i).activeEr1 = false ∧ (s.clientNext idcode i).activeEr2 = true := by
  have hinstr := selected_dtmcs.mp hsel
  have hreset : (s.tapNext idcode i).tapState ≠ .testLogicReset := by
    intro he; rw [he] at hscan; cases hscan
  have hcapture : (s.tapNext idcode i).tapState ≠ .captureDr := by
    intro he; rw [he] at hscan; cases hscan
  by_cases hshift : (s.tapNext idcode i).tapState = .shiftDr ∨ s.tap.tapState = .shiftDr
  · rw [if_pos hshift]
    refine Ecp5JtaggClient.clock_shift2 ?_ ?_ ?_ ?_ hno hact <;>
      simp [Ecp5JtaggTap.jtaggDrive, hreset, hcapture, hinstr, ECP5_JTAGG_IR_ER1,
        ECP5_JTAGG_IR_ER2, hd, hshift]
  · rw [not_or] at hshift
    rw [if_neg (not_or.mpr hshift),
      clientNext_rest (hd.trans (decide_eq_false hshift.2)) hscan hshift.1]
    exact ⟨rfl, hno, hact⟩

end Registers

theorem carries_outside {w : ℕ} {reg captured : BitVec w} {bits : List Bool} {t : TapState}
    (h : inRegister t = false) : Carries reg captured bits t := by
  cases t <;> trivial

/-- A cycle within a scan starts in one, or in its capture. -/
theorem within_scan (h : (s.tapNext idcode i).tapState.inScan = true) :
    inRegister s.tap.tapState = true ∧ (s.tapNext idcode i).selected = s.tap.selected ∧
      (s.step idcode i).dr.dmi = s.dr.dmi ∧ (s.step idcode i).dr.dtmcs = s.dr.dtmcs ∧
      (s.step idcode i).dr.bits =
        if s.tap.tapState = .shiftDr then s.dr.bits ++ [i.tdi] else s.dr.bits := by
  have hfrom := JtagScan.inScan_transition h
  have hstay : s.tap.tapState ≠ .testLogicReset ∧ s.tap.tapState ≠ .updateIr := by
    constructor <;> intro he <;> rw [he] at hfrom <;> rcases hfrom with hf | hf <;> cases hf
  have hcapture : (s.tapNext idcode i).tapState ≠ .captureDr := by
    intro he; rw [he] at h; cases h
  refine ⟨by simpa [inRegister] using hfrom, tapNext_selected hstay.1 hstay.2, ?_⟩
  rw [step, if_neg hcapture]
  split_ifs <;> exact ⟨rfl, rfl, rfl⟩

theorem tracks_capture (h : (s.tapNext idcode i).tapState = .captureDr) :
    (s.step idcode i).Tracks := by
  have hdr : (s.step idcode i).dr = .capture i.pending i.response := if_pos h
  refine ⟨clientNext_jshiftD, fun hsel => ?_, fun hsel => ?_⟩
  · have hinstr := selected_dmi.mp hsel
    change (s.tapNext idcode i).instruction = _ at hinstr
    obtain ⟨hreg, hact⟩ : (s.clientNext idcode i).dmiShiftReg = _ ∧ _ :=
      Ecp5JtaggClient.clock_capture1 (by simp [Ecp5JtaggTap.jtaggDrive, h])
        (by simp [Ecp5JtaggTap.jtaggDrive, h]) (by simp [Ecp5JtaggTap.jtaggDrive, h, hinstr])
    refine ⟨?_, fun _ => hact⟩
    show Carries _ _ _ (s.tapNext idcode i).tapState
    rw [h, hdr]
    exact ⟨rfl, hreg⟩
  · have hinstr := selected_dtmcs.mp hsel
    change (s.tapNext idcode i).instruction = _ at hinstr
    obtain ⟨hreg, hact⟩ : (s.clientNext idcode i).dtmcsShiftReg = _ ∧ _ :=
      Ecp5JtaggClient.clock_capture2 (by simp [Ecp5JtaggTap.jtaggDrive, h])
        (by simp [Ecp5JtaggTap.jtaggDrive, h])
        (by simp [Ecp5JtaggTap.jtaggDrive, hinstr, ECP5_JTAGG_IR_ER1, ECP5_JTAGG_IR_ER2])
        (by simp [Ecp5JtaggTap.jtaggDrive, h, hinstr])
    refine ⟨?_, fun _ => hact⟩
    show Carries _ _ _ (s.tapNext idcode i).tapState
    rw [h, hdr]
    exact ⟨rfl, hreg⟩

theorem tracks_scan (h : s.Tracks) (hok : s.Orderly i)
    (hscan : (s.tapNext idcode i).tapState.inScan = true) : (s.step idcode i).Tracks := by
  obtain ⟨hin, hselected, hdmi, hdtmcs, hbits⟩ := within_scan hscan
  refine ⟨clientNext_jshiftD, fun hsel => ?_, fun hsel => ?_⟩
  · change (s.tapNext idcode i).selected = _ at hsel
    obtain ⟨hcarries, hact⟩ := h.dmi (hselected.symm.trans hsel)
    obtain ⟨hreg, hact'⟩ := clientNext_dmi h.jshiftD hscan hsel (hact hin)
    refine ⟨?_, fun _ => hact'⟩
    have hnext := Carries.next (by omega) hcarries (hok.1 (hselected.symm.trans hsel)) hscan
    rw [hdmi, hbits]
    show Carries (s.clientNext idcode i).dmiShiftReg _ _ _
    rw [hreg]
    exact hnext
  · change (s.tapNext idcode i).selected = _ at hsel
    obtain ⟨hcarries, hact⟩ := h.dtmcs (hselected.symm.trans hsel)
    obtain ⟨hreg, hact'⟩ := clientNext_dtmcs h.jshiftD hscan hsel (hact hin).1 (hact hin).2
    refine ⟨?_, fun _ => hact'⟩
    have hnext := Carries.next (by omega) hcarries (hok.2.1 (hselected.symm.trans hsel)) hscan
    rw [hdtmcs, hbits]
    show Carries (s.clientNext idcode i).dtmcsShiftReg _ _ _
    rw [hreg]
    exact hnext

theorem tracks_step (h : s.Tracks) (hok : s.Orderly i) : (s.step idcode i).Tracks := by
  by_cases hcapture : (s.tapNext idcode i).tapState = .captureDr
  · exact tracks_capture hcapture
  cases hscan : (s.tapNext idcode i).tapState.inScan with
  | true => exact tracks_scan h hok hscan
  | false =>
    have hout : inRegister (s.tapNext idcode i).tapState = false := by
      simp [inRegister, hcapture, hscan]
    exact ⟨clientNext_jshiftD,
      fun _ => ⟨carries_outside hout, fun hin => absurd (hout.symm.trans hin) (by decide)⟩,
      fun _ => ⟨carries_outside hout, fun hin => absurd (hout.symm.trans hin) (by decide)⟩⟩

/-- Outside Update-DR the request registers stay, and the reset leaves their toggles. -/
theorem clientNext_scan (hok : s.Orderly i)
    (hupdate : (s.tapNext idcode i).tapState ≠ .updateDr) :
    (s.clientNext idcode i).scan.requestToggle = s.client.scan.requestToggle ∧
      (s.clientNext idcode i).scan.dtmhardresetToggle = s.client.scan.dtmhardresetToggle := by
  by_cases hreset : (s.tapNext idcode i).tapState = .testLogicReset
  · obtain ⟨hrequest, hhard⟩ := hok.2.2.2 hreset
    rw [clientNext_reset hreset, hrequest, hhard]
    exact ⟨rfl, rfl⟩
  · have hstay : (s.clientNext idcode i).scan = s.client.scan :=
      Ecp5JtaggClient.clock_scan (by simp [Ecp5JtaggTap.jtaggDrive, hreset])
        (by simp [Ecp5JtaggTap.jtaggDrive, hupdate])
    rw [hstay]
    exact ⟨rfl, rfl⟩

/-- The bit on `TDO` as a whole scan enters or stays in Shift-DR. -/
theorem Carries.shown {w : ℕ} {reg captured : BitVec w} {bits' : List Bool} (hw : 0 < w)
    (h : Carries reg captured s.dr.bits s.tap.tapState) (hwhole : s.Whole i w)
    (hshift : (s.tapNext idcode i).tapState = .shiftDr)
    (hbits : bits' = if s.tap.tapState = .shiftDr then s.dr.bits ++ [i.tdi] else s.dr.bits) :
    reg.getLsbD 0 = (stream captured bits').getLsbD bits'.length := by
  obtain ⟨hexit2, hstay, -⟩ := hwhole
  obtain ⟨htms, ht | ht | ht⟩ := transition_shiftDr hshift
  · rw [ht] at h hbits
    obtain ⟨hnil, rfl⟩ := h
    obtain rfl : bits' = [] := hbits.trans hnil
    rw [getLsbD_stream]
    exact (if_pos hw).symm
  · have hlen := hstay ht htms
    rw [ht] at h
    rw [if_pos ht] at hbits
    subst hbits
    exact h.2.shown hlen
  · exact absurd (htms.symm.trans (hexit2 ht)) (by decide)

theorem shown_conforms (h : s.Tracks) (hok : s.Orderly i) {bit : Bool}
    (hbit : bit ∈ (s.step idcode i).dr.shown (s.tapNext idcode i).selected
      (s.tapNext idcode i).tapState) : s.tdo idcode i = bit := by
  unfold DrScan.shown at hbit
  split_ifs at hbit with hshift
  · cases hbit
  rw [not_not] at hshift
  have hscan : (s.tapNext idcode i).tapState.inScan = true := by rw [hshift]; rfl
  obtain ⟨hin, hselected, hdmi, hdtmcs, hbits⟩ := within_scan hscan
  cases hsel : (s.tapNext idcode i).selected with
  | dmi =>
    have hinstr := selected_dmi.mp hsel
    have htdo : s.tdo idcode i = s.client.dmiShiftReg.getLsbD 0 := by
      simp [tdo, Ecp5JtaggTap.tdoSelect, hshift, hinstr, ECP5_JTAGG_IR_ER1,
        ECP5_JTAG_INSTR_IDCODE, Ecp5JtaggClient.jtdo1]
    have hsel' := hselected.symm.trans hsel
    rw [hsel, hdmi] at hbit
    rw [htdo, Carries.shown (by omega) (h.dmi hsel').1 (hok.1 hsel') hshift hbits]
    exact Option.some.inj hbit
  | dtmcs =>
    have hinstr := selected_dtmcs.mp hsel
    have htdo : s.tdo idcode i = s.client.dtmcsShiftReg.getLsbD 0 := by
      simp [tdo, Ecp5JtaggTap.tdoSelect, hshift, hinstr, ECP5_JTAGG_IR_ER1, ECP5_JTAGG_IR_ER2,
        ECP5_JTAG_INSTR_IDCODE, Ecp5JtaggClient.jtdo2]
    have hsel' := hselected.symm.trans hsel
    rw [hsel, hdtmcs] at hbit
    rw [htdo, Carries.shown (by omega) (h.dtmcs hsel').1 (hok.2.1 hsel') hshift hbits]
    exact Option.some.inj hbit
  | other =>
    rw [hsel] at hbit
    cases hbit

theorem update_conforms (h : s.Tracks) (hok : s.Orderly i)
    (hupdate : (s.tapNext idcode i).tapState = .updateDr) :
    s.client.scan.issued (s.clientNext idcode i).scan =
        (s.step idcode i).dr.request (s.tapNext idcode i).selected .updateDr ∧
      s.client.scan.hardresetIssued (s.clientNext idcode i).scan =
        (s.step idcode i).dr.hardreset (s.tapNext idcode i).selected .updateDr := by
  have hscan : (s.tapNext idcode i).tapState.inScan = true := by rw [hupdate]; rfl
  obtain ⟨hin, hselected, hdmi, hdtmcs, hbits⟩ := within_scan hscan
  have hfrom := transition_updateDr hupdate
  have hshift : s.tap.tapState ≠ .shiftDr := by
    intro he; rw [he] at hfrom; rcases hfrom with hf | hf <;> cases hf
  rw [if_neg hshift] at hbits
  rw [clientNext_rest (h.jshiftD.trans (decide_eq_false hshift)) hscan (by simp [hupdate]),
    DrScan.request, DrScan.hardreset, hdmi, hdtmcs, hbits, hselected]
  cases hsel : s.tap.selected with
  | dmi =>
    obtain ⟨hcarries, hact⟩ := h.dmi hsel
    have hreg := hcarries.update hfrom ((hok.1 hsel).2.2 hupdate)
    simp [hupdate, hact hin, hreg, ScanSide.issued, ScanSide.hardresetIssued, ScanChange.apply]
  | dtmcs =>
    obtain ⟨hcarries, hact⟩ := h.dtmcs hsel
    have hreg := hcarries.update hfrom ((hok.2.1 hsel).2.2 hupdate)
    rw [(hact hin).1, (hact hin).2, hreg, if_pos hupdate]
    cases (scanned s.dr.dtmcs s.dr.bits).getLsbD 17 <;>
      simp [ScanSide.issued, ScanSide.hardresetIssued, ScanChange.apply]
  | other =>
    obtain ⟨h1, h2⟩ := hok.2.2.1 hsel hupdate
    rw [h1, h2]
    simp [ScanSide.issued, ScanSide.hardresetIssued]

theorem conforms_step (h : s.Tracks) (hok : s.Orderly i) : s.Conforms idcode i := by
  rw [Conforms, ← and_assoc]
  refine ⟨?_, fun bit hbit => shown_conforms h hok hbit⟩
  by_cases hupdate : (s.tapNext idcode i).tapState = .updateDr
  · obtain ⟨hrequest, hhard⟩ := update_conforms h hok hupdate
    rw [← hupdate] at hrequest hhard
    exact ⟨hrequest, hhard⟩
  · obtain ⟨hrequest, hhard⟩ := clientNext_scan hok hupdate
    have hstate : (s.step idcode i).tap.tapState ≠ .updateDr := hupdate
    simp only [ScanSide.issued, ScanSide.hardresetIssued, DrScan.request, DrScan.hardreset, hstate]
    show (if (s.clientNext idcode i).scan.requestToggle = _ then _ else _) = _ ∧
      ((s.clientNext idcode i).scan.dtmhardresetToggle != _) = _
    rw [hrequest, hhard]
    simp

theorem tracks_init : ({} : Ecp5Scan abits).Tracks := by
  have hother : ({} : Ecp5JtaggTap).selected = .other := by decide
  exact ⟨rfl, fun hsel => absurd (hother.symm.trans hsel) (by decide),
    fun hsel => absurd (hother.symm.trans hsel) (by decide)⟩

end Ecp5Scan

/-- The native frontend does what its scans ask for whatever `TMS` and `TDI` do, and the ECP5
frontend along orderly runs. -/
theorem data_registers_conform (abits : ℕ) (idcode : BitVec 32) :
    (∀ is, (JtagScan.machine abits).Along JtagScan.Conforms {} is) ∧
      ∀ is, (Ecp5Scan.machine abits idcode).Along Ecp5Scan.Orderly {} is →
        (Ecp5Scan.machine abits idcode).Along (Ecp5Scan.Conforms idcode) {} is :=
  ⟨JtagScan.conforms, fun _ h =>
    h.mono Ecp5Scan.Tracks (fun _ _ => Ecp5Scan.tracks_step) (fun _ _ => Ecp5Scan.conforms_step)
      Ecp5Scan.tracks_init⟩

section Runs

def go (tms : Bool) : ScanCycle 7 := { tms := tms }

def bitCycle (tms tdi : Bool) : ScanCycle 7 := { tms := tms, tdi := tdi }

/-- The bits of a scan, the last one on the way out. -/
def scanBits : List Bool → List (ScanCycle 7)
  | [] => []
  | [bit] => [bitCycle true bit]
  | bit :: bits => bitCycle false bit :: scanBits bits

/-- ER1 selected out of reset. -/
def selectEr1 : List (ScanCycle 7) :=
  [go false, go true, go true, go false, go false] ++
    scanBits [false, true, false, false, true, true, false, false] ++ [go true, go false]

/-- A DR scan up to Exit1-DR; `TDI` is high as Shift-DR is entered. -/
def scanEr1 (bits : List Bool) : List (ScanCycle 7) :=
  [go true, go false, bitCycle false true] ++ scanBits bits

end Runs

/-- Two scans of all 41 bits, after which Test-Logic-Reset finds the toggle where it was. -/
theorem data_registers_conform_whole :
    (Ecp5Scan.machine 7 0x41111043).Along (Ecp5Scan.Conforms 0x41111043) {}
      (selectEr1 ++ scanEr1 (List.replicate 41 true) ++ [go true, go false] ++
        scanEr1 (List.replicate 41 false) ++ [go true, go true, go true, go true]) :=
  (data_registers_conform 7 0x41111043).2 _ (by decide +kernel)

/-- A scan of one bit: the request holds the bit of the edge into Shift-DR as well. -/
theorem short_scan_takes_extra_bit :
    ¬∀ is : List (ScanCycle 7),
      (Ecp5Scan.machine 7 0x41111043).Along (Ecp5Scan.Conforms 0x41111043) {} is := by
  intro h
  have hrun := h (selectEr1 ++ scanEr1 [false] ++ [go true])
  rw [Clocked.along_append] at hrun
  exact absurd hrun.2.1.1 (by decide +kernel)

end BonfireCore.DmiTransport
