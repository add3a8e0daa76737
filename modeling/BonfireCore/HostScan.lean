import BonfireCore.JtagHost

/-! Scans at the pins: the host reads what the register captured, followed by what it shifted in
itself, and the last of those bits are what it leaves in the register. -/
namespace BonfireCore.DmiTransport

variable {abits : ℕ}

/-- The two columns of the TAP. -/
inductive Column
  | dr | ir
  deriving DecidableEq, Repr

namespace Column

@[simp] def capture : Column → TapState
  | dr => .captureDr
  | ir => .captureIr

@[simp] def shift : Column → TapState
  | dr => .shiftDr
  | ir => .shiftIr

@[simp] def exit1 : Column → TapState
  | dr => .exit1Dr
  | ir => .exit1Ir

@[simp] def update : Column → TapState
  | dr => .updateDr
  | ir => .updateIr

end Column

namespace JtagHost
section Column
variable {clocks : ℕ → CycleClock} {s : JtagHost abits} {instruction : BitVec 5} (c : Column)
  (tdi : Bool) (hclocks : ∀ n, (clocks n).Settles)
include hclocks

theorem At.capture_shift (h : s.At c.capture instruction) :
    (s.jtagCycle clocks false tdi).At c.shift instruction ∧
      Passes 1 s (s.jtagCycle clocks false tdi) := by
  cases c <;> exact h.move false hclocks (by decide) (by decide) tdi (by decide)

theorem At.shift_shift (h : s.At c.shift instruction) :
    (s.jtagCycle clocks false tdi).At c.shift instruction ∧
      Passes 1 s (s.jtagCycle clocks false tdi) := by
  cases c <;> exact h.move false hclocks (by decide) (by decide) tdi (by decide)

theorem At.shift_exit1 (h : s.At c.shift instruction) :
    (s.jtagCycle clocks true tdi).At c.exit1 instruction ∧
      Passes 1 s (s.jtagCycle clocks true tdi) := by
  cases c <;> exact h.move true hclocks (by decide) (by decide) tdi (by decide)

theorem At.exit1_update (h : s.At c.exit1 instruction) :
    (s.jtagCycle clocks true tdi).At c.update instruction ∧
      Passes 1 s (s.jtagCycle clocks true tdi) := by
  cases c <;> exact h.move true hclocks (by decide) (by decide) tdi (by decide)

end Column
end JtagHost

/-- A register of a column, and the instruction with which it stands between `TDI` and `TDO`. -/
structure ScanReg (abits w : ℕ) where
  pos : 0 < w
  column : Column
  instruction : BitVec 5
  get : JtagDtm abits → BitVec w
  captured : Bool → DmiPayload abits → BitVec w
  capture : ∀ (d : JtagDtm abits) tms tdi pend response, d.instruction = instruction →
    d.tapState = column.capture →
      get (d.tapActions false true tms tdi pend response) = captured pend response
  shift : ∀ (d : JtagDtm abits) tms tdi pend response, d.instruction = instruction →
    d.tapState = column.shift →
      get (d.tapActions false true tms tdi pend response) = shiftIn tdi (get d)
  keep : ∀ (d : JtagDtm abits) tms tdi pend response, d.tapState ≠ column.capture →
    d.tapState ≠ column.shift → get (d.tapActions false true tms tdi pend response) = get d
  shown : ∀ d : JtagDtm abits, d.instruction = instruction → d.tapState = column.shift →
    d.tdoSelect false true = (get d).getLsbD 0

namespace ScanReg
variable {d : JtagDtm abits} {tms tdi pend : Bool} {response : DmiPayload abits}

theorem tapActions_dr (hs : d.tapState = .captureDr ∨ d.tapState = .shiftDr) :
    d.tapActions false true tms tdi pend response =
      { d.drActions tdi pend response d with
        tapState := d.tapState.transition false true tms } := by
  rw [JtagDtm.tapActions, Bool.not_true, Bool.or_false, if_neg Bool.false_ne_true,
    JtagScan.irActions_scan tms tdi (hs.imp id fun h => by rw [h]; rfl)]

/-- Elsewhere the data registers stay. -/
theorem tapActions_keep (hc : d.tapState ≠ .captureDr) (hs : d.tapState ≠ .shiftDr) :
    let d' := d.tapActions false true tms tdi pend response
    d'.idcodeShift = d.idcodeShift ∧ d'.bypass = d.bypass ∧ d'.dmiShiftReg = d.dmiShiftReg ∧
      d'.dtmcsShiftReg = d.dtmcsShiftReg := by
  have hir : (d.irActions tms tdi).idcodeShift = d.idcodeShift ∧
      (d.irActions tms tdi).bypass = d.bypass ∧
      (d.irActions tms tdi).dmiShiftReg = d.dmiShiftReg ∧
      (d.irActions tms tdi).dtmcsShiftReg = d.dtmcsShiftReg := by
    unfold JtagDtm.irActions
    split_ifs <;> exact ⟨rfl, rfl, rfl, rfl⟩
  simp only [JtagDtm.tapActions, JtagDtm.drActions, hc, hs, Bool.not_true, Bool.or_false,
    Bool.false_eq_true, if_false]
  split_ifs <;> exact hir

theorem tapActions_irShift : (d.tapActions false true tms tdi pend response).irShift =
    if d.tapState = .captureIr then 0x01
    else if d.tapState = .shiftIr then shiftIn tdi d.irShift
    else d.irShift := by
  have hir : (d.irActions tms tdi).irShift = if d.tapState = .captureIr then 0x01
      else if d.tapState = .shiftIr then shiftIn tdi d.irShift
      else d.irShift := by
    unfold JtagDtm.irActions
    split_ifs <;> rfl
  rw [← hir]
  simp only [JtagDtm.tapActions, JtagDtm.drActions, Bool.not_true, Bool.or_false,
    Bool.false_eq_true, if_false]
  split_ifs <;> rfl

variable (abits)

def dmi : ScanReg abits (abits + 34) where
  pos := by omega
  column := .dr
  instruction := JTAG_INSTR_DMI
  get d := d.dmiShiftReg
  captured := captureDmi
  capture _ _ _ _ _ hi hs := by
    rw [tapActions_dr (.inl hs)]
    exact (JtagScan.drActions_capture _ _ _ hs).2.1 hi
  shift _ _ _ _ _ hi hs := by
    rw [tapActions_dr (.inr hs)]
    exact (JtagScan.drActions_shift _ _ _ hs).2.1 hi
  keep _ _ _ _ _ hc hs := (tapActions_keep hc hs).2.2.1
  shown _ hi hs := (JtagScan.tdoSelect_shift hs).1 hi

def dtmcs : ScanReg abits 32 where
  pos := by decide
  column := .dr
  instruction := JTAG_INSTR_DTMCS
  get d := d.dtmcsShiftReg
  captured pend _ := captureDtmcs abits pend
  capture _ _ _ _ _ hi hs := by
    rw [tapActions_dr (.inl hs)]
    exact (JtagScan.drActions_capture _ _ _ hs).2.2 hi
  shift _ _ _ _ _ hi hs := by
    rw [tapActions_dr (.inr hs)]
    exact (JtagScan.drActions_shift _ _ _ hs).2.2 hi
  keep _ _ _ _ _ hc hs := (tapActions_keep hc hs).2.2.2
  shown _ hi hs := (JtagScan.tdoSelect_shift hs).2 hi

def idcode : ScanReg abits 32 where
  pos := by decide
  column := .dr
  instruction := JTAG_INSTR_IDCODE
  get d := d.idcodeShift
  captured _ _ := JTAG_IDCODE
  capture _ _ _ _ _ hi hs := by
    rw [tapActions_dr (.inl hs)]
    simp [JtagDtm.drActions, hs, hi]
  shift _ _ _ _ _ hi hs := by
    rw [tapActions_dr (.inr hs)]
    simp [JtagDtm.drActions, hs, hi, JTAG_INSTR_IDCODE, JTAG_INSTR_BYPASS]
  keep _ _ _ _ _ hc hs := (tapActions_keep hc hs).1
  shown _ hi hs := by
    simp [JtagDtm.tdoSelect, hs, hi, JTAG_INSTR_IDCODE, JTAG_INSTR_BYPASS]

def bypass : ScanReg abits 1 where
  pos := Nat.one_pos
  column := .dr
  instruction := JTAG_INSTR_BYPASS
  get d := BitVec.ofBool d.bypass
  captured _ _ := 0
  capture _ _ _ _ _ hi hs := by
    rw [tapActions_dr (.inl hs)]
    simp [JtagDtm.drActions, hs, hi, JTAG_INSTR_IDCODE, JTAG_INSTR_BYPASS]
  shift d _ tdi _ _ hi hs := by
    rw [tapActions_dr (.inr hs)]
    simp only [JtagDtm.drActions, hs, hi, if_true]
    cases tdi <;> cases d.bypass <;> rfl
  keep _ _ _ _ _ hc hs := congrArg BitVec.ofBool (tapActions_keep hc hs).2.1
  shown _ hi hs := by
    simp [JtagDtm.tdoSelect, hs, hi]

/-- The instruction register, whatever the instruction is. -/
def ir (instruction : BitVec 5) : ScanReg abits 5 where
  pos := by decide
  column := .ir
  instruction
  get d := d.irShift
  captured _ _ := 0x01
  capture _ _ _ _ _ _ hs := tapActions_irShift.trans (if_pos hs)
  shift _ _ _ _ _ _ hs := tapActions_irShift.trans
    ((if_neg (by rw [hs]; decide)).trans (if_pos hs))
  keep _ _ _ _ _ hc hs := tapActions_irShift.trans ((if_neg hc).trans (if_neg hs))
  shown d _ hs := by
    have hs : d.tapState = .shiftIr := hs
    rw [JtagDtm.tdoSelect, Bool.not_true, Bool.or_false, if_neg Bool.false_ne_true, if_pos hs]

end ScanReg

namespace JtagHost

section Bits
variable {w : ℕ} (captured : BitVec w) (bits : List Bool)

theorem stream_more (more : List Bool) {j : ℕ} (h : j < w + bits.length) :
    (stream captured (bits ++ more)).getLsbD j = (stream captured bits).getLsbD j := by
  rw [getLsbD_stream, getLsbD_stream]
  split_ifs
  · rfl
  · exact List.getD_append _ _ _ _ (by omega)

theorem testBit_collect (tdos : List Bool) (j : ℕ) :
    (collect tdos).testBit j = tdos.getD j false := by
  have hfold (tdos : List Bool) (index result : ℕ) :
      ((tdos.zipIdx index).foldl (fun result tdo => result ||| tdo.1.toNat <<< tdo.2)
        result).testBit j =
      (result.testBit j || decide (index ≤ j) && tdos.getD (j - index) false) := by
    induction tdos generalizing index result with
    | nil => simp
    | cons tdo tdos ih =>
      rw [List.zipIdx_cons, List.foldl_cons, ih, Nat.testBit_or, Nat.testBit_shiftLeft,
        Bool.or_assoc]
      congr 1
      rcases Nat.lt_trichotomy j index with hj | rfl | hj
      · simp [hj.not_ge, show ¬ index + 1 ≤ j by omega]
      · cases tdo <;> simp
      · obtain ⟨m, rfl⟩ : ∃ m, j = index + 1 + m := ⟨j - (index + 1), by omega⟩
        have hbit : tdo.toNat.testBit (m + 1) = false := by
          cases tdo <;> simp [Nat.testBit_succ]
        simp [show index + 1 + m - index = m + 1 by omega, show index ≤ index + 1 + m by omega,
          hbit]
  rw [collect, hfold]
  simp

/-- The bits of a number through a register of its width are the number. -/
theorem scanned_bitsLsbFirst (value : ℕ) :
    scanned captured (bitsLsbFirst value w) = BitVec.ofNat w value := by
  apply BitVec.eq_of_getLsbD_eq
  intro j hj
  have hlen : (bitsLsbFirst value w).length = w := by simp [bitsLsbFirst]
  rw [getLsbD_scanned _ _ hj, getLsbD_stream, if_neg (by omega), hlen, Nat.add_sub_cancel_left,
    BitVec.getLsbD_ofNat, decide_eq_true hj, Bool.true_and]
  simp [bitsLsbFirst, hj]

/-- A scan shifts out what the register captured, and behind it what it shifts in. -/
theorem stream_value (value width : ℕ) :
    (stream captured (bitsLsbFirst value width)).toNat % 2 ^ width =
      (captured.toNat ||| value <<< w) % 2 ^ width := by
  apply Nat.eq_of_testBit_eq
  intro j
  rw [Nat.testBit_mod_two_pow, Nat.testBit_mod_two_pow, BitVec.testBit_toNat, getLsbD_stream,
    Nat.testBit_or, Nat.testBit_shiftLeft, BitVec.testBit_toNat]
  by_cases hj : j < width
  · by_cases hw : j < w
    · simp [hw, hw.not_ge]
    · have hlt : j - w < width := by omega
      simp [hw, not_lt.1 hw, bitsLsbFirst, hlt]
  · simp [hj]

/-- And leaves the last of them in the register. -/
theorem scanned_value (value width : ℕ) : scanned captured (bitsLsbFirst value width) =
    BitVec.ofNat w ((captured.toNat ||| (value % 2 ^ width) <<< w) >>> width) := by
  have hlen : (bitsLsbFirst value width).length = width := by simp [bitsLsbFirst]
  apply BitVec.eq_of_getLsbD_eq
  intro j hj
  rw [getLsbD_scanned _ _ hj, getLsbD_stream, hlen, BitVec.getLsbD_ofNat, Nat.testBit_shiftRight,
    Nat.testBit_or, Nat.testBit_shiftLeft, BitVec.testBit_toNat, Nat.testBit_mod_two_pow,
    decide_eq_true hj, Bool.true_and]
  by_cases hw : width + j < w
  · simp [hw, hw.not_ge]
  · have hlt : width + j - w < width := by omega
    simp [hw, not_lt.1 hw, bitsLsbFirst, hlt]

theorem shifts_concat (bit : Bool) :
    shifts (bits ++ [bit]) = bits.map (fun bit => (false, bit)) ++ [(true, bit)] := by
  have hlen : (bits ++ [bit]).length - 1 = bits.length := by simp
  rw [shifts, hlen, List.zipIdx_append, List.map_append]
  congr 1
  · have hmap : bits.zipIdx.map (fun x => (x.2 == bits.length, x.1)) =
        bits.zipIdx.map ((fun bit => (false, bit)) ∘ Prod.fst) := by
      refine List.map_congr_left fun x hx => ?_
      have hlt : x.2 < bits.length := by
        have hmem := List.snd_lt_add_of_mem_zipIdx hx
        omega
      show (x.2 == bits.length, x.1) = (false, x.1)
      rw [beq_eq_false_iff_ne.2 hlt.ne]
    refine hmap.trans ?_
    rw [← List.map_map, List.zipIdx_map_fst]
  · simp

end Bits

section Scan
variable {clocks : ℕ → CycleClock} {w : ℕ} {s : JtagHost abits}

theorem jtagCycles_append (as bs : List (Bool × Bool)) :
    jtagCycles clocks (as ++ bs) s =
      ((jtagCycles clocks as s).1 ++ (jtagCycles clocks bs (jtagCycles clocks as s).2).1,
        (jtagCycles clocks bs (jtagCycles clocks as s).2).2) := by
  induction as generalizing s with
  | nil => rfl
  | cons a as ih =>
    obtain ⟨tms, tdi⟩ := a
    simp only [List.cons_append, jtagCycles, ih]

variable (R : ScanReg abits w) (hclocks : ∀ n, (clocks n).Settles) {v : BitVec w}
include hclocks

omit hclocks in
theorem tdo_shift {pre : List Bool} (h : s.At R.column.shift R.instruction)
    (hget : R.get s.sys.dtm = scanned v pre) :
    s.tdo = (stream v pre).getLsbD pre.length := by
  rw [h.linked.tdo, R.shown _ h.instruction h.state, hget, getLsbD_scanned _ _ R.pos, Nat.add_zero]

/-- A shift that stays in Shift-DR. -/
theorem shift_run (pre bits : List Bool) (h : s.At R.column.shift R.instruction)
    (hget : R.get s.sys.dtm = scanned v pre) :
    let r := jtagCycles clocks (bits.map fun bit => (false, bit)) s
    (∀ j < bits.length, r.1.getD j false = (stream v (pre ++ bits)).getLsbD (pre.length + j)) ∧
      r.1.length = bits.length ∧ r.2.At R.column.shift R.instruction ∧ Passes bits.length s r.2 ∧
      R.get r.2.sys.dtm = scanned v (pre ++ bits) := by
  induction bits generalizing s pre with
  | nil =>
    exact ⟨fun _ h => absurd h (Nat.not_lt_zero _), rfl, h, .refl h.linked, by
      rw [List.append_nil]
      exact hget⟩
  | cons bit bits ih =>
    obtain ⟨hat, hpass⟩ := h.shift_shift R.column bit hclocks
    have hdtm : (s.jtagCycle clocks false bit).sys.dtm = _ := cycle_dtm
    have hget' : R.get (s.jtagCycle clocks false bit).sys.dtm = scanned v (pre ++ [bit]) := by
      rw [hdtm, R.shift _ _ _ _ _ h.instruction h.state, hget, shiftIn_scanned]
    obtain ⟨htdos, hlen, hat', hpass', hend⟩ := ih (pre ++ [bit]) hat hget'
    have hlist : pre ++ [bit] ++ bits = pre ++ bit :: bits := by simp
    rw [hlist] at htdos hend
    refine ⟨fun j hj => ?_, congrArg (· + 1) hlen, hat', ?_, hend⟩
    · cases j with
      | zero =>
        show s.tdo = _
        rw [tdo_shift R h hget, Nat.add_zero, stream_more _ _ _ (by have := R.pos; omega)]
      | succ j =>
        have hidx : (pre ++ [bit]).length + j = pre.length + (j + 1) := by
          rw [List.length_append, List.length_singleton]
          omega
        exact (htdos j (Nat.lt_of_succ_lt_succ hj)).trans (congrArg _ hidx)
    · rw [List.length_cons, Nat.add_comm]
      exact hpass.trans hpass'

omit hclocks in
theorem bitsLsbFirst_succ (value n : ℕ) :
    bitsLsbFirst value (n + 1) = bitsLsbFirst value n ++ [value.testBit n] := by
  rw [bitsLsbFirst, List.range_succ, List.map_append]
  rfl

omit hclocks in
theorem length_bitsLsbFirst (value n : ℕ) : (bitsLsbFirst value n).length = n := by
  rw [bitsLsbFirst, List.length_map, List.length_range]

/-- The bits of a scan, the last with `TMS` high. -/
theorem shift_all (value n : ℕ) (h : s.At R.column.shift R.instruction)
    (hget : R.get s.sys.dtm = v) :
    let bits := bitsLsbFirst value (n + 1)
    let r := jtagCycles clocks (shifts bits) s
    collect r.1 = (stream v bits).toNat % 2 ^ (n + 1) ∧ r.2.At R.column.exit1 R.instruction ∧
      Passes (n + 1) s r.2 ∧ R.get r.2.sys.dtm = scanned v bits := by
  dsimp only
  rw [bitsLsbFirst_succ]
  set init := bitsLsbFirst value n with hinit
  have hlen : init.length = n := length_bitsLsbFirst value n
  set r := jtagCycles clocks (init.map fun bit => (false, bit)) s with hr
  obtain ⟨htdos, hcount, hat, hpass, hend⟩ := shift_run R hclocks (v := v) [] init h
    (hget.trans (scanned_nil v).symm)
  rw [← hr] at htdos hcount hat hpass hend
  rw [List.nil_append] at htdos hend
  obtain ⟨hat', hpass'⟩ := hat.shift_exit1 R.column (value.testBit n) hclocks
  have htdo := tdo_shift R hat hend
  have hrun : jtagCycles clocks (shifts (init ++ [value.testBit n])) s =
      (r.1 ++ [r.2.tdo], r.2.jtagCycle clocks true (value.testBit n)) := by
    rw [shifts_concat, jtagCycles_append]
    rfl
  rw [hrun]
  refine ⟨?_, hat', ?_, ?_⟩
  · apply Nat.eq_of_testBit_eq
    intro j
    rw [testBit_collect, Nat.testBit_mod_two_pow]
    show _ = (decide (j < n + 1) && (stream v (init ++ [value.testBit n])).getLsbD j)
    have hpos := R.pos
    rcases Nat.lt_trichotomy j n with hj | rfl | hj
    · rw [List.getD_append _ _ _ _ (by omega), htdos j (by omega), decide_eq_true (by omega),
        Bool.true_and, stream_more _ _ _ (by omega), List.length_nil, Nat.zero_add]
    · rw [List.getD_append_right _ _ _ _ (by omega), hcount, hlen, Nat.sub_self,
        decide_eq_true (by omega), Bool.true_and, stream_more _ _ _ (by omega), List.getD_cons_zero,
        htdo]
      exact congrArg _ hlen
    · rw [List.getD_eq_default _ _ (by simp; omega), decide_eq_false (by omega), Bool.false_and]
  · rw [hlen] at hpass
    exact hpass.trans hpass'
  · have hdtm : (r.2.jtagCycle clocks true (value.testBit n)).sys.dtm = _ := cycle_dtm
    rw [hdtm, R.shift _ _ _ _ _ hat.instruction hat.state, hend, shiftIn_scanned]

/-- From Run-Test/Idle to Capture-DR. -/
def toCapture (clocks : ℕ → CycleClock) (s : JtagHost abits) : JtagHost abits :=
  (s.jtagCycle clocks true false).jtagCycle clocks false false

/-- What a scan captures when the TAP is in its capture state. -/
def capturedAt (R : ScanReg abits w) (clocks : ℕ → CycleClock) (s : JtagHost abits) : BitVec w :=
  R.captured (s.lowered (clocks s.cycles)).sys.watched.link.pending
    (s.lowered (clocks s.cycles)).sys.bridge.responsePayload

/-- The part that both columns share, from the capture state to the update state. -/
def scanBits (clocks : ℕ → CycleClock) (value width : ℕ) (s : JtagHost abits) :
    ℕ × JtagHost abits :=
  let (tdos, s) :=
    jtagCycles clocks (shifts (bitsLsbFirst value width)) (s.jtagCycle clocks false false)
  (collect tdos, s.jtagCycle clocks true false)

theorem scan_bits (value : ℕ) {width : ℕ} (hw : 0 < width)
    (h : s.At R.column.capture R.instruction) :
    let r := scanBits clocks value width s
    r.1 = (stream (capturedAt R clocks s) (bitsLsbFirst value width)).toNat % 2 ^ width ∧
      r.2.At R.column.update R.instruction ∧ Passes (width + 2) s r.2 ∧
      R.get r.2.sys.dtm = scanned (capturedAt R clocks s) (bitsLsbFirst value width) := by
  obtain ⟨n, rfl⟩ : ∃ n, width = n + 1 := ⟨width - 1, by omega⟩
  obtain ⟨hshift, hpass₁⟩ := h.capture_shift R.column false hclocks
  have hdtm : (s.jtagCycle clocks false false).sys.dtm = _ := cycle_dtm
  have hget : R.get (s.jtagCycle clocks false false).sys.dtm = capturedAt R clocks s := by
    rw [hdtm, R.capture _ _ _ _ _ h.instruction h.state]
    rfl
  obtain ⟨hresult, hexit, hpass₂, hend⟩ := shift_all R hclocks value n hshift hget
  obtain ⟨hupdate, hpass₃⟩ := hexit.exit1_update R.column false hclocks
  refine ⟨hresult, hupdate, ?_, ?_⟩
  · have hall := (hpass₁.trans hpass₂).trans hpass₃
    have hsum : 1 + (n + 1) + 1 = n + 1 + 2 := by omega
    exact hsum ▸ hall
  · rw [← hend]
    exact (congrArg R.get cycle_dtm).trans (R.keep _ _ _ _ _
      (by rw [hexit.state]; cases R.column <;> decide)
      (by rw [hexit.state]; cases R.column <;> decide))

end Scan

section Walk
variable {clocks : ℕ → CycleClock} {s : JtagHost abits} {instruction : BitVec 5} {width : ℕ}
  (hclocks : ∀ n, (clocks n).Settles)
include hclocks

theorem At.idle (n : ℕ) (h : s.At .runTestIdle instruction) :
    (s.idle clocks n).At .runTestIdle instruction ∧ Passes n s (s.idle clocks n) := by
  induction n generalizing s with
  | zero => exact ⟨h, .refl h.linked⟩
  | succ n ih =>
    obtain ⟨hat, hpass⟩ := h.move false hclocks (by decide) (by decide) false (by decide)
    obtain ⟨hat', hpass'⟩ := ih hat
    have hall := hpass.trans hpass'
    rw [Nat.add_comm 1 n] at hall
    exact ⟨hat', hall⟩

/-- A data register scan up to Update-DR. -/
theorem At.scanDr {w : ℕ} (R : ScanReg abits w) (hc : R.column = .dr) (value : ℕ)
    (hw : 0 < width) (h : s.At .runTestIdle R.instruction) : ∃ s₁ s₂ : JtagHost abits,
      s₁ = s.toCapture clocks ∧ Passes 2 s s₁ ∧ s₂.At .updateDr R.instruction ∧
      Passes (width + 2) s₁ s₂ ∧
      R.get s₂.sys.dtm = scanned (capturedAt R clocks s₁) (bitsLsbFirst value width) ∧
      s.scanDr clocks value width =
        ((stream (capturedAt R clocks s₁) (bitsLsbFirst value width)).toNat % 2 ^ width,
          s₂.jtagCycle clocks false false) := by
  obtain ⟨hselect, hpass⟩ := h.move true hclocks (by decide) (by decide) false (by decide)
  obtain ⟨hcapture, hpass'⟩ := hselect.move false hclocks (by decide) (by decide) false
    (by decide)
  have hcapture : ((s.jtagCycle clocks true false).jtagCycle clocks false false).At
      R.column.capture R.instruction := by
    rw [hc]
    exact hcapture
  obtain ⟨hresult, hupdate, hbits, hend⟩ := scan_bits R hclocks value hw hcapture
  rw [hc] at hupdate
  exact ⟨_, _, rfl, hpass.trans hpass', hupdate, hbits, hend, hresult ▸ rfl⟩

omit hclocks in
theorem scanDr_eq (value width : ℕ) : s.scanDr clocks value width =
      let r := jtagCycles clocks (shifts (bitsLsbFirst value width))
        (((s.jtagCycle clocks true false).jtagCycle clocks false false).jtagCycle clocks
          false false)
      (collect r.1, (r.2.jtagCycle clocks true false).jtagCycle clocks false false) := rfl

/-- A scan with an instruction that selects no register. -/
theorem At.scanDr_none (value : ℕ) (hw : 0 < width) (h : s.At .runTestIdle instruction)
    (hi : ∀ s : JtagHost abits, s.At .shiftDr instruction → s.tdo = false) :
    (s.scanDr clocks value width).1 = 0 ∧
      (s.scanDr clocks value width).2.At .runTestIdle instruction := by
  have hbits (bits : List Bool) : ∀ s : JtagHost abits, s.At .shiftDr instruction →
      let r := jtagCycles clocks (bits.map fun bit => (false, bit)) s
      r.1 = List.replicate bits.length false ∧ r.2.At .shiftDr instruction := by
    induction bits with
    | nil => exact fun s h => ⟨rfl, h⟩
    | cons bit bits ih =>
      intro s h
      obtain ⟨htdos, hat⟩ := ih _ (h.shift_shift .dr bit hclocks).1
      exact ⟨congrArg₂ List.cons (hi s h) htdos, hat⟩
  obtain ⟨n, rfl⟩ : ∃ n, width = n + 1 := ⟨width - 1, by omega⟩
  have hselect := (h.move true hclocks (by decide) (by decide) false (by decide)).1
  have hcapture := (hselect.move false hclocks (by decide) (by decide) false (by decide)).1
  have hshift := (hcapture.capture_shift .dr false hclocks).1
  set shifting := ((s.jtagCycle clocks true false).jtagCycle clocks false false).jtagCycle clocks
    false false
  obtain ⟨htdos, hat⟩ := hbits (bitsLsbFirst value n) _ hshift
  set shifted := (jtagCycles clocks ((bitsLsbFirst value n).map fun bit => (false, bit)) shifting).2
    with hshifted
  have hexit := (hat.shift_exit1 .dr (value.testBit n) hclocks).1
  have hupdate := (hexit.exit1_update .dr false hclocks).1
  have hrun : jtagCycles clocks (shifts (bitsLsbFirst value (n + 1))) shifting =
      (List.replicate (bitsLsbFirst value n).length false ++ [shifted.tdo],
        shifted.jtagCycle clocks true (value.testBit n)) := by
    rw [bitsLsbFirst_succ, shifts_concat, jtagCycles_append, htdos, ← hshifted]
    rfl
  rw [scanDr_eq, hrun, hi _ hat]
  refine ⟨Nat.eq_of_testBit_eq fun j => ?_,
    hupdate.cycle false (by decide) (fun _ => rfl) false⟩
  rw [testBit_collect, ← List.replicate_succ', Nat.zero_testBit]
  simp

/-- Update-IR. -/
theorem At.update_ir (h : s.At .updateIr instruction) :
    (s.jtagCycle clocks false false).At .runTestIdle s.sys.dtm.irShift ∧
      Passes 1 s (s.jtagCycle clocks false false) := by
  have hdtm : (s.jtagCycle clocks false false).sys.dtm = _ := cycle_dtm
  refine ⟨⟨cycle_linked h.linked.link, ?_, ?_⟩, h.passes false hclocks false (by decide)⟩
  · rw [hdtm, ← show TapState.updateIr.transition false true false = .runTestIdle from rfl,
      ← h.state]
    rfl
  · rw [hdtm]
    simp [JtagDtm.tapActions, JtagDtm.drActions, JtagDtm.irActions, h.state]

theorem At.scanIr (value : ℕ) (hw : 0 < width) (h : s.At .runTestIdle instruction) :
    let r := s.scanIr clocks value width
    r.1 = (stream (0x01 : BitVec 5) (bitsLsbFirst value width)).toNat % 2 ^ width ∧
      r.2.At .runTestIdle (scanned (0x01 : BitVec 5) (bitsLsbFirst value width)) ∧
      Passes (width + 6) s r.2 := by
  obtain ⟨hdr, hpass₁⟩ := h.move true hclocks (by decide) (by decide) false (by decide)
  obtain ⟨hir, hpass₂⟩ := hdr.move true hclocks (by decide) (by decide) false (by decide)
  obtain ⟨hcapture, hpass₃⟩ := hir.move false hclocks (by decide) (by decide) false (by decide)
  obtain ⟨hresult, hupdate, hbits, hend⟩ :=
    scan_bits (ScanReg.ir abits instruction) hclocks value hw hcapture
  obtain ⟨hidle, hpass₄⟩ := hupdate.update_ir hclocks
  have hall := (((hpass₁.trans hpass₂).trans hpass₃).trans hbits).trans hpass₄
  have hsum : 1 + 1 + 1 + (width + 2) + 1 = width + 6 := by omega
  refine ⟨hresult, ?_, hsum ▸ hall⟩
  exact (show _ = scanned (0x01 : BitVec 5) (bitsLsbFirst value width) from hend) ▸ hidle

/-- `set_ir`. -/
theorem At.setIr (value : BitVec 5) (h : s.At .runTestIdle instruction) :
    (s.scanIr clocks value.toNat 5).2.At .runTestIdle value ∧
      Passes 11 s (s.scanIr clocks value.toNat 5).2 := by
  obtain ⟨-, hat, hpass⟩ := h.scanIr hclocks value.toNat (by decide : 0 < 5)
  rw [scanned_bitsLsbFirst, BitVec.ofNat_toNat, BitVec.setWidth_eq] at hat
  exact ⟨hat, hpass⟩

end Walk

section Reset
variable {clocks : ℕ → CycleClock} {s : JtagHost abits}

theorem reset_cycle (h : s.dmi.link = s.sys.watched.link)
    (hs : s.sys.dtm.tapState = .testLogicReset) :
    (s.jtagCycle clocks true false).At .testLogicReset JTAG_INSTR_IDCODE := by
  have hdtm : (s.jtagCycle clocks true false).sys.dtm = _ := cycle_dtm
  refine ⟨cycle_linked h, ?_, ?_⟩
  · rw [hdtm, ← show TapState.testLogicReset.transition false true true = .testLogicReset from rfl,
      ← hs]
    rfl
  · rw [hdtm]
    simp [JtagDtm.tapActions, JtagDtm.drActions, JtagDtm.irActions, hs]

/-- Six cycles with `TMS` high and one with `TMS` low, from any state of the TAP. -/
theorem resetTap_at (h : s.dmi.link = s.sys.watched.link) :
    (s.resetTap clocks).At .runTestIdle JTAG_INSTR_IDCODE := by
  have hstate (s : JtagHost abits) : (s.jtagCycle clocks true false).sys.dtm.tapState =
      s.sys.dtm.tapState.transition false true true := congrArg JtagDtm.tapState cycle_dtm
  have hfive : ∀ state : TapState, ((((state.transition false true true).transition false true
      true).transition false true true).transition false true true).transition false true true =
        .testLogicReset := by
    intro state
    cases state <;> rfl
  refine (reset_cycle ?_ ?_).cycle false (by decide) (fun _ => rfl) false
  · exact (cycle_linked (cycle_linked (cycle_linked (cycle_linked
      (cycle_linked h).link).link).link).link).link
  · rw [hstate, hstate, hstate, hstate, hstate, hfive]

/-- From power on it asks for nothing. -/
theorem At.resetTap (hclocks : ∀ n, (clocks n).Settles)
    (h : s.At .testLogicReset JTAG_INSTR_IDCODE) : Passes 7 s (s.resetTap clocks) := by
  have hold (n : ℕ) : ∀ s : JtagHost abits, s.At .testLogicReset JTAG_INSTR_IDCODE →
      (jtagCycles clocks (List.replicate n (true, false)) s).2.At .testLogicReset
        JTAG_INSTR_IDCODE ∧
      Passes n s (jtagCycles clocks (List.replicate n (true, false)) s).2 := by
    induction n with
    | zero => exact fun s h => ⟨h, .refl h.linked⟩
    | succ n ih =>
      intro s h
      obtain ⟨hat, hpass⟩ := ih _ (reset_cycle h.linked.link h.state)
      have hall := (h.passes true hclocks false (by decide)).trans hpass
      rw [Nat.add_comm 1 n] at hall
      exact ⟨hat, hall⟩
  obtain ⟨hat, hpass⟩ := hold 6 s h
  exact hpass.trans (hat.passes false hclocks false (by decide))

end Reset

end JtagHost

end BonfireCore.DmiTransport
