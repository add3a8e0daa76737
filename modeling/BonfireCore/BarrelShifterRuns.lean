import BonfireCore.BarrelShifter

/-! Runs of the pipelined shifter in both directions: the data it answers rightly, and the
shifter inside the ALU. -/
namespace BonfireCore.BarrelShifter

variable {l : ℕ}

section Run
variable {w s : ℕ}

namespace Input
variable (i : Input l w)

def Fits : Prop := BarrelShifter.Fits i.tempIn i.fill i.shift

/-- What the shifter is for. -/
def result : BitVec l :=
  if i.right then FillShift.right i.d i.fill i.shift.toNat
  else FillShift.left i.d i.fill i.shift.toNat

/-- The way back from the left shift of `tempIn`. -/
theorem result_eq :
    i.result = if i.right then reverse (FillShift.left i.tempIn i.fill i.shift.toNat)
      else FillShift.left i.tempIn i.fill i.shift.toNat := by
  unfold result tempIn reverse
  cases i.right with
  | true => exact (FillShift.reverse_left _ _ _).symm
  | false => rfl

end Input

theorem reverse_injective : Function.Injective (reverse (l := l)) :=
  Function.LeftInverse.injective fun _ => BitVec.reverse_reverse_eq

/-- The registers hold a shift that is half done and will not raise. -/
def Staged (st : State l w s) : Prop :=
  ∃ (d : BitVec l) (fill : Bool) (amount : BitVec w), Fits d fill amount ∧
    leftShiftComb d (fun k => (amount.extractLsb' 0 s).getLsbD k) fill s 0 = some st.stageReg ∧
    st.shift1 = amount.extractLsb' s (w - s) ∧ st.fillR = fill

variable {st : State l w s} {i : Input l w}

theorem staged_init : Staged ({} : State l w s) := by
  refine ⟨0, false, 0, Or.inr (Or.inl rfl), ?_, ?_, rfl⟩
  · rw [← Nat.zero_add s]
    exact leftShiftComb_of_false fun k _ => by simp
  · simp

/-- The answer to `i`, when `j` follows it: of the same cycle without a pipeline stage. -/
def State.answer (st : State l w s) (i j : Input l w) : Option (Output l) :=
  if s = 0 then st.out i else (st.cycle i).bind fun st' => st'.out j

theorem Staged.tempOut (hl : 2 ^ w ≤ l) (hs : s ≤ w) (hs0 : s ≠ 0) (hst : Staged st)
    (i : Input l w) : ∃ temp, st.tempOut i = some temp := by
  obtain ⟨d, fill, amount, hfits, hreg, hshift, hfill⟩ := hst
  have hcascade := (cascade_eq_some_iff hl hs).2 hfits
  refine ⟨FillShift.left d fill amount.toNat, ?_⟩
  rw [cascade, hreg] at hcascade
  rw [State.tempOut, if_neg hs0, hshift, hfill]
  exact hcascade

theorem Staged.out (hl : 2 ^ w ≤ l) (hs : s ≤ w) (hst : Staged st) (hi : i.Fits) :
    ∃ o, st.out i = some o := by
  by_cases hs0 : s = 0
  · have htemp : st.tempOut i = some (FillShift.left i.tempIn i.fill i.shift.toNat) := by
      rw [State.tempOut, if_pos hs0]
      exact (leftShiftComb_eq_some_iff hl).2 hi
    simp [State.out, htemp]
  · obtain ⟨temp, htemp⟩ := hst.tempOut hl hs hs0 i
    simp [State.out, htemp]

theorem Staged.step (hl : 2 ^ w ≤ l) (hs : s ≤ w) (hst : Staged st) (hi : i.Fits) :
    ∃ st', st.step i = some st' ∧ Staged st' := by
  by_cases hs0 : s = 0
  · exact ⟨st, by simp [State.step, hs0], hst⟩
  · have hcascade := (cascade_eq_some_iff hl hs).2 hi
    rw [cascade, Option.bind_eq_some_iff] at hcascade
    obtain ⟨stage0, hstage0, -⟩ := hcascade
    refine ⟨st.shifterPipe i stage0, ?_, ?_⟩
    · rw [State.step, if_neg hs0, Input.stage0Out, hstage0, Option.map_some]
    unfold State.shifterPipe
    cases i.reset with
    | true => exact staged_init
    | false =>
      cases i.en with
      | true => exact ⟨i.tempIn, i.fill, i.shift, hi, hstage0, rfl, rfl⟩
      | false => exact hst

theorem Staged.cycle (hl : 2 ^ w ≤ l) (hs : s ≤ w) (hst : Staged st) (hi : i.Fits) :
    ∃ st', st.cycle i = some st' ∧ Staged st' := by
  obtain ⟨o, ho⟩ := hst.out hl hs hi
  obtain ⟨st', hstep, hst'⟩ := hst.step hl hs hi
  exact ⟨st', by rw [State.cycle, ho]; exact hstep, hst'⟩

/-- Cycles whose data fits never raise. -/
theorem Staged.cycles (hl : 2 ^ w ≤ l) (hs : s ≤ w) {inputs : List (Input l w)}
    (hst : Staged st) (hfits : ∀ i ∈ inputs, i.Fits) :
    ∃ st', inputs.foldlM State.cycle st = some st' ∧ Staged st' := by
  induction inputs generalizing st with
  | nil => exact ⟨st, rfl, hst⟩
  | cons i inputs ih =>
    obtain ⟨next, hcycle, hnext⟩ := hst.cycle hl hs (hfits i (by simp))
    obtain ⟨st', hrun, hst'⟩ := ih hnext fun j hj => hfits j (by simp [hj])
    exact ⟨st', by rw [List.foldlM_cons, hcycle]; exact hrun, hst'⟩

/-- A stage behind the last power needs a register of no bits. -/
theorem elaborate_eq (hw : 1 ≤ w) : elaborate l w s = if s < w then some {} else none := by
  have hiff : (s ≤ w ∧ (s = 0 ∨ 0 < w - s)) ↔ s < w := by omega
  simp only [elaborate, hiff]

theorem run_staged (hw : 1 ≤ w) (hl : 2 ^ w ≤ l) (hs : s < w) {inputs : List (Input l w)}
    (hfits : ∀ i ∈ inputs, i.Fits) : ∃ st, run s inputs = some st ∧ Staged st := by
  obtain ⟨st, hrun, hst⟩ := staged_init.cycles hl hs.le hfits
  exact ⟨st, by rw [run, elaborate_eq hw, if_pos hs]; exact hrun, hst⟩

/-- An enabled cycle is answered with what the cascade makes of its data. -/
theorem Staged.answer_eq (hl : 2 ^ w ≤ l) (hs : s ≤ w) (hst : Staged st)
    (hreset : i.reset = false) (hen : i.en = true) (j : Input l w) :
    st.answer i j = (cascade s i.tempIn i.shift i.fill).map fun temp =>
      { d := if i.right then reverse temp else temp, ready := true } := by
  by_cases hs0 : s = 0
  · simp only [State.answer, State.out, State.tempOut, State.right, State.ready, if_pos hs0,
      cascade_eq hs, hen]
  · obtain ⟨temp, htemp⟩ := hst.tempOut hl hs hs0 i
    simp only [State.answer, State.cycle, State.out, htemp, State.step, if_neg hs0, cascade,
      Option.map_some, Option.bind_some, Option.bind_map, Option.map_bind]
    congr 1
    funext stage0
    simp [State.shifterPipe, State.tempOut, State.right, State.ready, hs0, hreset, hen]

theorem State.readyO_of_step {st' : State l w s} (hs0 : s ≠ 0) (hreset : i.reset = false)
    (h : st.step i = some st') : st'.readyO = i.en := by
  rw [State.step, if_neg hs0, Option.map_eq_some_iff] at h
  obtain ⟨stage0, -, rfl⟩ := h
  simp [State.shifterPipe, hreset]

/-- The cycle that answers `i` shows the shifted word once its signals have settled, and is ready
if and only if `i` was enabled. -/
def Delivers (st : State l w s) (i : Input l w) : Prop :=
  i.reset = false → ∀ j, ∃ o, st.answer i j = some o ∧ o.ready = i.en ∧
    (i.en = true ∨ s = 0 → o.d = i.result)

theorem Staged.delivers (hl : 2 ^ w ≤ l) (hs : s ≤ w) (hst : Staged st) (hi : i.Fits) :
    Delivers st i := by
  intro hreset j
  by_cases hs0 : s = 0
  · refine ⟨{ d := i.result, ready := i.en }, ?_, rfl, fun _ => rfl⟩
    simp only [State.answer, State.out, State.tempOut, State.right, State.ready, if_pos hs0,
      (leftShiftComb_eq_some_iff hl).2 hi, Option.map_some, i.result_eq]
  · cases hen : i.en with
    | true =>
      refine ⟨{ d := i.result, ready := true }, ?_, rfl, fun _ => rfl⟩
      rw [hst.answer_eq hl hs hreset hen, (cascade_eq_some_iff hl hs).2 hi, Option.map_some,
        i.result_eq]
    | false =>
      obtain ⟨o, ho⟩ := hst.out hl hs hi
      obtain ⟨st', hstep, hst'⟩ := hst.step hl hs hi
      obtain ⟨temp, htemp⟩ := hst'.tempOut hl hs hs0 j
      refine ⟨{ d := if st'.right j then reverse temp else temp, ready := st'.ready j },
        ?_, ?_, fun h => absurd h (by simp [hs0])⟩
      · rw [State.answer, if_neg hs0, State.cycle, ho, Option.bind_some, hstep, Option.bind_some,
          State.out, htemp, Option.map_some]
      · rw [State.ready, if_neg hs0, State.readyO_of_step hs0 hreset hstep, hen]

/-- A shift that is answered rightly once fits: it left nothing out of the low 32 bits. -/
theorem Staged.fits (hl : 2 ^ w ≤ l) (hs : s ≤ w) (hst : Staged st) (hreset : i.reset = false)
    (hen : i.en = true) (h : Delivers st i) : i.Fits := by
  obtain ⟨o, hanswer, -, hd⟩ := h hreset i
  rw [hst.answer_eq hl hs hreset hen, Option.map_eq_some_iff] at hanswer
  obtain ⟨temp, hcascade, rfl⟩ := hanswer
  have hresult := hd (Or.inl hen)
  rw [i.result_eq] at hresult
  have htemp : temp = FillShift.left i.tempIn i.fill i.shift.toNat := by
    cases hright : i.right with
    | true => exact reverse_injective (by simpa [hright] using hresult)
    | false => simpa [hright] using hresult
  rw [htemp] at hcascade
  exact (cascade_eq_some_iff hl hs).1 hcascade

variable (l w s) in
/-- The promise of the library at one data length, amount width and pipeline stage. -/
structure Works : Prop where
  cascade : ∀ (d : BitVec l) (amount : BitVec w) (fill : Bool),
    cascade s d amount fill = some (FillShift.left d fill amount.toNat)
  delivers : ∀ (inputs : List (Input l w)) (i : Input l w),
    ∃ st : State l w s, run s inputs = some st ∧ Delivers st i

theorem works_iff (hw : 1 ≤ w) (hl : 2 ^ w ≤ l) (hs : s ≤ w) :
    Works l w s ↔ l ≤ 32 ∧ s < w := by
  constructor
  · intro h
    refine ⟨(fits_all_iff hw).1 fun d fill amount => ?_, ?_⟩
    · exact (cascade_eq_some_iff hl hs).1 (h.cascade d amount fill)
    · obtain ⟨st, hrun, -⟩ := h.delivers [] ⟨false, 0, 0, false, false, false⟩
      by_contra hlt
      rw [run, elaborate_eq hw, if_neg hlt] at hrun
      cases hrun
  · rintro ⟨hl32, hlt⟩
    refine ⟨fun d amount fill => (cascade_eq_some_iff hl hs).2 (Or.inl hl32), fun inputs i => ?_⟩
    have hfits : ∀ i ∈ inputs, i.Fits := fun _ _ => Or.inl hl32
    obtain ⟨st, hrun, hst⟩ := run_staged hw hl hlt hfits
    exact ⟨st, hrun, hst.delivers hl hs (Or.inl hl32)⟩

/-- The shifter shifts right with the fill bit, and so arithmetically with the sign, on just
the data that keeps within 32 bits and with a stage below the last power. Of a run it tells what
the ports show in each cycle when the combinational signals have settled. -/
theorem shift_pipelined_exact (hw : 1 ≤ w) (hl : 2 ^ w ≤ l) (hs : s ≤ w) :
    (Works l w s ↔ l ≤ 32 ∧ s < w) ∧
      (∀ (d : BitVec l) (amount : BitVec w) (fill : Bool),
        cascade s d amount fill = some (FillShift.left d fill amount.toNat) ↔
          Fits d fill amount) ∧
      (∀ inputs : List (Input l w), (∀ i ∈ inputs, i.Fits) →
        (s < w ↔ ∃ st : State l w s, run s inputs = some st) ∧
        ∀ st : State l w s, run s inputs = some st → ∀ i : Input l w,
          (i.Fits → Delivers st i) ∧
          (i.en = true → i.reset = false → Delivers st i → i.Fits)) ∧
      ∀ (d : BitVec l) (n : ℕ), FillShift.right d d.msb n = d.sshiftRight n := by
  refine ⟨works_iff hw hl hs, fun d amount fill => cascade_eq_some_iff hl hs,
    fun inputs hfits => ?_, FillShift.right_msb⟩
  have hlt : ∀ st : State l w s, run s inputs = some st → s < w := by
    intro st hrun
    by_contra hlt
    rw [run, elaborate_eq hw, if_neg hlt] at hrun
    cases hrun
  refine ⟨⟨fun h => ?_, fun ⟨st, hrun⟩ => hlt st hrun⟩, fun st hrun i => ?_⟩
  · obtain ⟨st, hrun, -⟩ := run_staged hw hl h hfits
    exact ⟨st, hrun⟩
  · obtain ⟨st', hrun', hst⟩ := run_staged hw hl (hlt st hrun) hfits
    rw [hrun, Option.some.injEq] at hrun'
    subst hrun'
    exact ⟨hst.delivers hl hs, fun hen hreset => hst.fits hl hs hreset hen⟩

end Run

theorem shift_pipelined_exact_word :
    Works 32 5 3 ∧ ¬ Works 64 6 3 ∧ Fits 0xffff#64 false 16#6 := by
  refine ⟨?_, ?_, ?_⟩
  · exact (shift_pipelined_exact (by decide) (by decide) (by decide)).1.2 (by decide)
  · exact fun h =>
      absurd ((shift_pipelined_exact (by decide) (by decide) (by decide)).1.1 h).1 (by decide)
  · exact ((shift_pipelined_exact (s := 2) (by decide) (by decide) (by decide)).2.1
      0xffff#64 16#6 false).1 (by decide)

/-- A bit that passes bit 31 of a wide word raises, one above it stays where it is, and an
admitted stage behind the last power cannot be built. -/
theorem shift_pipelined_wide :
    cascade 3 0x80000000#64 1#6 false ≠ some (FillShift.left 0x80000000#64 false 1) ∧
      cascade 3 0x80000000#64 1#6 false = none ∧
      cascade 3 0x8000000000000000#64 1#6 false = some 0x8000000000000000#64 ∧
      FillShift.left 0x8000000000000000#64 false 1 = 0 ∧
      elaborate 32 5 5 = none := by
  decide

/-! ### The shifter of the ALU -/

theorem leftShiftComb_word (d : Word) (shift : ℕ → Bool) (fill : Bool) (low n : ℕ)
    (hhigh : low + n ≤ 5) :
    leftShiftComb d shift fill (low + n) low =
      some (BonfireCore.leftShiftComb d shift fill (low + n) low) := by
  induction n with
  | zero => simp [BonfireCore.leftShiftComb]
  | succ n ih =>
    have hpow : 2 ^ (low + n) < 32 := by
      calc 2 ^ (low + n) < 2 ^ 5 := Nat.pow_lt_pow_right (by omega) (by omega)
        _ = 32 := rfl
    rw [leftShiftComb_succ, ih (by omega), Option.bind_some]
    unfold BonfireCore.leftShiftComb
    rw [Nat.add_sub_cancel_left, Nat.add_sub_cancel_left, List.range_succ, List.foldl_append,
      List.foldl_cons, List.foldl_nil]
    cases shift n with
    | true => exact shiftStage_left hpow (BitVec.isLt _) (BitVec.isLt _)
    | false => rfl

end BonfireCore.BarrelShifter

namespace BonfireCore

namespace AluInput
variable (i : AluInput)

/-- What the ALU puts on the ports of its shifter. -/
def shifter : BarrelShifter.Input 32 5 where
  reset := false
  d := i.op1
  shift := i.op2.extractLsb' 0 5
  right := i.shiftRight
  fill := i.fillV
  en := i.shiftEn

end AluInput

namespace AluState
variable (s : AluState) (i : AluInput)

def shifter : BarrelShifter.State 32 5 3 where
  shift1 := s.shift1
  fillR := s.fillR
  stageReg := s.stageReg
  readyO := s.readyO
  rightR := s.rightR

theorem shifter_out : s.shifter.out i.shifter =
    some { d := s.shifterOut .pipelined i, ready := s.shiftValid .pipelined i } := by
  have htemp : s.shifter.tempOut i.shifter =
      some (leftShiftComb s.stageReg (fun k => s.shift1.getLsbD k) s.fillR 5 3) :=
    BarrelShifter.leftShiftComb_word _ _ _ 3 2 (by decide)
  rw [BarrelShifter.State.out, htemp]
  rfl

theorem shifter_step : s.shifter.step i.shifter = some (s.step .pipelined i).shifter := by
  have hlow : BarrelShifter.leftShiftComb i.tempIn
      (fun k => ((i.op2.extractLsb' 0 5).extractLsb' 0 3).getLsbD k) i.fillV (0 + 3) 0 =
        BarrelShifter.leftShiftComb i.tempIn (fun k => i.op2.getLsbD k) i.fillV (0 + 3) 0 := by
    apply BarrelShifter.leftShiftComb_congr
    intro k hk
    simp [hk]
  have hstage0 : i.shifter.stage0Out 3 =
      some (leftShiftComb i.tempIn (fun k => i.op2.getLsbD k) i.fillV 3 0) :=
    hlow.trans (BarrelShifter.leftShiftComb_word _ _ _ 0 3 (by decide))
  have hshift1 : (i.op2.extractLsb' 0 5).extractLsb' 3 2 = i.op2.extractLsb' 3 2 := by
    apply BitVec.eq_of_getLsbD_eq
    intro k hk
    simp [hk]
  rw [BarrelShifter.State.step, if_neg (by decide), hstage0, Option.map_some]
  cases hen : i.shiftEn with
  | true =>
    simp [BarrelShifter.State.shifterPipe, step, shifter, AluInput.shifter, hshift1, hen]
  | false => simp [BarrelShifter.State.shifterPipe, step, shifter, AluInput.shifter, hen]

end AluState
end BonfireCore
