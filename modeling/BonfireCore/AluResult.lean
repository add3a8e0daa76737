import BonfireCore.Alu
import BonfireCore.BitArith
import BonfireCore.Clocked
import BonfireCore.FillShift
import BonfireCore.Rv32i

/-! The ALU computes the RV32I operations, in every shifter mode and over every sequence of
operations. -/
namespace BonfireCore

open Rv32i (AluOp)

section Shifts

theorem leftShiftComb_eq (d : Word) (shift : ℕ → Bool) (fill : Bool) (high low : ℕ) :
    leftShiftComb d shift fill high low =
      FillShift.left d fill (FillShift.chosen shift low (high - low)) := by
  rw [leftShiftComb]
  induction high - low with
  | zero => exact (FillShift.left_zero d fill).symm
  | succ k ih =>
    rw [List.range_succ, List.foldl_append, ih, FillShift.chosen_succ, ← FillShift.left_add]
    simp only [List.foldl_cons, List.foldl_nil]
    cases shift k with
    | true => rfl
    | false => exact (FillShift.left_zero _ fill).symm

theorem chosen_amount (v : Word) :
    FillShift.chosen (fun k => v.getLsbD k) 0 5 = (v.extractLsb' 0 5).toNat := by
  rw [FillShift.chosen_getLsbD, BitVec.extractLsb'_toNat, Nat.shiftRight_zero]

theorem reverse_left (d : Word) (n : ℕ) :
    reverse (FillShift.left (reverse d) false n) = d >>> n :=
  (FillShift.reverse_left d false n).trans (FillShift.right_false d n)

theorem reverse_left_sign (d : Word) (n : ℕ) :
    reverse (FillShift.left (reverse d) (d.getLsbD 31) n) = d.sshiftRight n := by
  have hmsb : d.msb = d.getLsbD 31 := by simp [BitVec.msb_eq_getLsbD_last]
  rw [← hmsb]
  exact (FillShift.reverse_left d d.msb n).trans (FillShift.right_msb d n)

end Shifts

theorem funct3_cases (f : BitVec 3) :
    f = Funct3.ADD_SUB ∨ f = Funct3.SLL ∨ f = Funct3.SLT ∨ f = Funct3.SLTU ∨ f = Funct3.XOR ∨
      f = Funct3.SRL_SRA ∨ f = Funct3.OR ∨ f = Funct3.AND := by
  revert f
  decide

namespace AluInput
variable (i : AluInput)

/-- The RV32I operation that is selected. -/
def operation : AluOp :=
  if i.funct3 = Funct3.ADD_SUB then if i.funct7_6 then .sub else .add
  else if i.funct3 = Funct3.SLL then .sll
  else if i.funct3 = Funct3.SLT then .slt
  else if i.funct3 = Funct3.SLTU then .sltu
  else if i.funct3 = Funct3.XOR then .xor
  else if i.funct3 = Funct3.SRL_SRA then if i.funct7_6 then .sra else .srl
  else if i.funct3 = Funct3.OR then .or
  else .and

def result : Word := i.operation.eval i.op1 i.op2

variable {i}

theorem adder_toNat_of_subtract (h : i.subtract = true) :
    i.adder.toNat = 2 ^ 32 + i.op1.toNat - i.op2.toNat := by
  have h1 := i.op1.isLt
  have h2 := i.op2.isLt
  simp only [adder, h, if_true, BitVec.toNat_add, BitVec.toNat_setWidth, BitVec.toNat_not,
    BitVec.toNat_ofBool, Bool.toNat_true]
  omega

theorem flagUge_eq (h : i.subtract = true) : i.flagUge = !i.op1.ult i.op2 := by
  have h1 := i.op1.isLt
  have h2 := i.op2.isLt
  rw [flagUge, BitVec.getLsbD, adder_toNat_of_subtract h, Nat.testBit_eq_decide_div_mod_eq,
    BitVec.ult, ← decide_not, decide_eq_decide]
  omega

/-- The signed comparison from the two signs and the carry. -/
theorem flagGe_eq (h : i.subtract = true) : i.flagGe = !i.op1.slt i.op2 := by
  have hm1 : i.op1.msb = i.op1.getLsbD 31 := by simp [BitVec.msb_eq_getLsbD_last]
  have hm2 : i.op2.msb = i.op2.getLsbD 31 := by simp [BitVec.msb_eq_getLsbD_last]
  have huge : i.adder.getLsbD 32 = !i.op1.ult i.op2 := flagUge_eq h
  have hult (h : i.op1.getLsbD 31 ≠ i.op2.getLsbD 31) :
      i.op1.ult i.op2 = i.op2.getLsbD 31 := by
    rw [← hm1, ← hm2] at h
    rw [BitVec.ult_eq_msb_of_msb_neq h, hm2]
  rw [BitVec.slt_eq_ult, hm1, hm2, flagGe, huge]
  generalize i.op1.getLsbD 31 = s1 at hult ⊢
  generalize i.op2.getLsbD 31 = s2 at hult ⊢
  generalize i.op1.ult i.op2 = lt at hult ⊢
  cases s1 <;> cases s2 <;> simp_all

theorem adder_add (h : i.subtract = false) : i.adder.setWidth 32 = i.op1 + i.op2 := by
  apply BitVec.eq_of_toNat_eq
  simp [adder, h]

theorem adder_sub (h : i.subtract = true) : i.adder.setWidth 32 = i.op1 - i.op2 := by
  apply BitVec.eq_of_toNat_eq
  rw [BitVec.toNat_setWidth, adder_toNat_of_subtract h, BitVec.toNat_sub]
  omega

theorem isShift_iff : i.isShift = true ↔ i.funct3 = Funct3.SLL ∨ i.funct3 = Funct3.SRL_SRA := by
  simp [isShift]

theorem shiftComb_eq (h : i.isShift = true) : i.shiftComb = i.result := by
  have hcomb (d : Word) : leftShiftComb d (fun k => i.op2.getLsbD k) i.fillV 5 0 =
      FillShift.left d i.fillV (i.op2.extractLsb' 0 5).toNat := by
    rw [leftShiftComb_eq, chosen_amount]
  rw [shiftComb, hcomb]
  rcases isShift_iff.1 h with hf | hf
  · have hr : i.shiftRight = false := by simp [shiftRight, hf, Funct3.SLL, Funct3.SRL_SRA]
    simp [hr, tempIn, fillV, FillShift.left, result, operation, hf, Funct3.SLL, Funct3.ADD_SUB,
      AluOp.eval]
  · have hr : i.shiftRight = true := by simp [shiftRight, hf]
    cases h7 : i.funct7_6 with
    | false =>
      have hfill : i.fillV = false := by simp [fillV, h7]
      rw [tempIn, hr, hfill, if_pos rfl, if_pos rfl, reverse_left]
      simp [result, operation, hf, h7, Funct3.SLL, Funct3.ADD_SUB, Funct3.SLT, Funct3.SLTU,
        Funct3.XOR, Funct3.SRL_SRA, AluOp.eval]
    | true =>
      have hfill : i.fillV = i.op1.getLsbD 31 := by simp [fillV, hr, h7]
      rw [tempIn, hr, hfill, if_pos rfl, if_pos rfl, reverse_left_sign]
      simp [result, operation, hf, h7, Funct3.SLL, Funct3.ADD_SUB, Funct3.SLT, Funct3.SLTU,
        Funct3.XOR, Funct3.SRL_SRA, AluOp.eval]

theorem shiftBehavioral_eq (h : i.isShift = true) : i.shiftBehavioral = i.result := by
  rcases isShift_iff.1 h with hf | hf
  · simp [shiftBehavioral, result, operation, hf, Funct3.SLL, Funct3.ADD_SUB, AluOp.eval]
  · cases h7 : i.funct7_6 <;>
      simp [shiftBehavioral, result, operation, hf, h7, Funct3.SLL, Funct3.ADD_SUB, Funct3.SLT,
        Funct3.SLTU, Funct3.XOR, Funct3.SRL_SRA, AluOp.eval]

/-- Every other operation, where the adder is told of an addition. -/
theorem logic_eq (h : i.isShift = false) (hen : i.en = true) : i.logic = i.result := by
  have hsub : i.subtract = !(i.funct3 = Funct3.ADD_SUB && !i.funct7_6) := by
    simp [subtract, hen]
  rcases funct3_cases i.funct3 with hf | hf | hf | hf | hf | hf | hf | hf
  · cases h7 : i.funct7_6 with
    | false =>
      have hadd : i.adder.setWidth 32 = i.op1 + i.op2 := adder_add (by simp [hsub, hf, h7])
      simpa [logic, result, operation, hf, h7, AluOp.eval] using hadd
    | true =>
      have hadd : i.adder.setWidth 32 = i.op1 - i.op2 := adder_sub (by simp [hsub, h7])
      simpa [logic, result, operation, hf, h7, AluOp.eval] using hadd
  · simp [isShift, hf] at h
  · have hge : i.flagGe = !i.op1.slt i.op2 := flagGe_eq (by simp [hsub, hf, Funct3.SLT,
      Funct3.ADD_SUB])
    cases hlt : i.op1.slt i.op2 <;>
      simp [logic, result, operation, hf, AluOp.eval, hge, hlt] <;> rfl
  · have hge : i.flagUge = !i.op1.ult i.op2 := flagUge_eq (by simp [hsub, hf, Funct3.SLTU,
      Funct3.ADD_SUB])
    cases hlt : i.op1.ult i.op2 <;>
      simp [logic, result, operation, hf, AluOp.eval, hge, hlt] <;> rfl
  · simp [logic, result, operation, hf, AluOp.eval]; rfl
  · simp [isShift, hf] at h
  · simp [logic, result, operation, hf, AluOp.eval]; rfl
  · simp [logic, result, operation, hf, AluOp.eval]; rfl

end AluInput

namespace AluState
variable (mode : ShifterMode)

def machine : Clocked AluState AluInput where
  init := {}
  step s i := s.step mode i

/-- What the ALU delivers in a cycle. -/
def delivered (s : AluState) (i : AluInput) : Option Word :=
  if (s.out mode i).valid then some (s.out mode i).res else none

end AluState

namespace AluInput
variable (mode : ShifterMode)

/-- The operation delivers in the cycle after it is enabled. -/
def late (i : AluInput) : Bool := mode = .pipelined && i.shiftEn

def lateOp (i : AluInput) : Option AluInput := if i.late mode then some i else none

def promptOp (i : AluInput) : Option AluInput := if i.en && !i.late mode then some i else none

/-- The operation whose result is due in each cycle, after a cycle that left `pending`. -/
def due : Option AluInput → List AluInput → List (Option AluInput)
  | _, [] => []
  | pending, i :: is => (pending <|> i.promptOp mode) :: due (i.lateOp mode) is

/-- The operation that is still to deliver at the end. -/
def undelivered : Option AluInput → List AluInput → Option AluInput
  | pending, [] => pending
  | _, i :: is => undelivered (i.lateOp mode) is

end AluInput

namespace AluState
variable {mode : ShifterMode} {s : AluState} {i : AluInput}

theorem out_comb_res (hen : i.en = true) : (({} : AluState).out .comb i).res = i.result := by
  cases hs : i.isShift with
  | true => simp [out, shiftValid, AluInput.shiftEn, hs, hen, shifterOut, AluInput.shiftComb_eq hs]
  | false => simp [out, shiftValid, AluInput.shiftEn, hs, AluInput.logic_eq hs hen]

theorem out_comb_valid : (({} : AluState).out .comb i).valid = i.en := by
  cases hs : i.isShift <;> simp [out, shiftValid, AluInput.shiftEn, hs]

theorem out_behavioral_res (hen : i.en = true) : (s.out .behavioral i).res = i.result := by
  cases hs : i.isShift with
  | true => simp [out, shiftValid, hs, shifterOut, AluInput.shiftBehavioral_eq hs]
  | false => simp [out, shiftValid, hs, AluInput.logic_eq hs hen]

/-- The registers hold the shift `pending`, or nothing. -/
def Holds (mode : ShifterMode) (s : AluState) : Option AluInput → Prop
  | none => s.Quiet
  | some k => mode = .pipelined ∧ s.busyO = true ∧ s.readyO = true ∧
      ∀ j, (s.out .pipelined j).res = k.result

/-- No operation comes on top of a pending one. -/
theorem Holds.due_toList {pending : Option AluInput} (h : s.Holds mode pending)
    (hi : i.en = true → s.busyO = false) :
    (pending <|> i.promptOp mode).toList ++ (i.lateOp mode).toList =
      pending.toList ++ [i].filter (·.en) := by
  cases pending with
  | none =>
    have hshift : i.shiftEn = true → i.en = true := fun h => (Bool.and_eq_true _ _ ▸ h).2
    cases hen : i.en with
    | false =>
      have hs : i.shiftEn = false := by simp [AluInput.shiftEn, hen]
      simp [AluInput.promptOp, AluInput.lateOp, AluInput.late, hen, hs]
    | true => cases hl : i.late mode <;> simp [AluInput.promptOp, AluInput.lateOp, hen, hl]
  | some k =>
    have hen : i.en = false := by
      by_contra hen
      exact Bool.false_ne_true ((hi (by simpa using hen)).symm.trans h.2.1)
    have hs : i.shiftEn = false := by simp [AluInput.shiftEn, hen]
    simp [AluInput.lateOp, AluInput.late, hen, hs]

theorem holds_step (hm : mode ≠ .behavioral) {pending : Option AluInput}
    (h : s.Holds mode pending) (hi : i.en = true → s.busyO = false) :
    (s.step mode i).Holds mode (i.lateOp mode) := by
  cases pending with
  | none =>
    by_cases hl : i.late mode = true
    · obtain ⟨hmode, hen⟩ : mode = .pipelined ∧ i.shiftEn = true := by
        simpa [AluInput.late] using hl
      subst hmode
      have hres : (({} : AluState).out .comb i).res = i.result :=
        out_comb_res (Bool.and_eq_true _ _ ▸ hen).2
      rw [AluInput.lateOp, if_pos hl]
      refine ⟨rfl, (step_shift (j := i) h hen).1, (step_shift (j := i) h hen).2.1, fun j => ?_⟩
      exact (step_shift h hen).2.2.trans hres
    · rw [AluInput.lateOp, if_neg hl]
      exact h.step fun hmode => by simpa [AluInput.late, hmode] using hl
  | some k =>
    obtain ⟨rfl, hbusy, -⟩ := h
    have hen : i.en = false := by
      by_contra hen
      rw [hi (by simpa using hen)] at hbusy
      exact Bool.false_ne_true hbusy
    have hshift : i.shiftEn = false := by simp [AluInput.shiftEn, hen]
    simp only [AluInput.lateOp, AluInput.late, hshift, Bool.and_false, Bool.false_eq_true, if_false]
    exact step_quiet_of_idle hshift

theorem holds_delivered (hm : mode ≠ .behavioral) {pending : Option AluInput}
    (h : s.Holds mode pending) :
    s.delivered mode i = (pending <|> i.promptOp mode).map AluInput.result := by
  cases pending with
  | none =>
    by_cases hl : i.late mode = true
    · obtain ⟨rfl, hen⟩ : mode = .pipelined ∧ i.shiftEn = true := by
        simpa [AluInput.late] using hl
      simp [delivered, h.valid_shift hen, AluInput.promptOp, hl]
    · have hout : s.out mode i = ({} : AluState).out .comb i :=
        h.out_eq hm fun hmode => by simpa [AluInput.late, hmode] using hl
      rw [delivered, hout, out_comb_valid]
      cases hen : i.en with
      | false => simp [AluInput.promptOp, hen]
      | true =>
        rw [out_comb_res hen]
        simp [AluInput.promptOp, hen, hl]
  | some k =>
    obtain ⟨rfl, -, hready, hres⟩ := h
    have hvalid : (s.out .pipelined i).valid = true := by simp [out, shiftValid, hready]
    rw [delivered, if_pos hvalid, hres]
    rfl

/-- The run, from registers that hold `pending`. -/
theorem labels_delivered (hm : mode ≠ .behavioral) {pending : Option AluInput}
    (hs : s.Holds mode pending) {is : List AluInput}
    (h : (machine mode).Along (fun s i => i.en = true → s.busyO = false) s is) :
    (machine mode).labels (delivered mode) s is =
      (AluInput.due mode pending is).map (Option.map AluInput.result) := by
  induction is generalizing s pending with
  | nil => rfl
  | cons i is ih =>
    rw [Clocked.labels, AluInput.due, List.map_cons, holds_delivered hm hs]
    exact congrArg _ (ih (holds_step hm hs h.1) h.2)

theorem due_enabled (hm : mode ≠ .behavioral) {pending : Option AluInput}
    (hs : s.Holds mode pending) {is : List AluInput}
    (h : (machine mode).Along (fun s i => i.en = true → s.busyO = false) s is) :
    (AluInput.due mode pending is).reduceOption ++ (AluInput.undelivered mode pending is).toList =
      pending.toList ++ is.filter (·.en) := by
  induction is generalizing s pending with
  | nil =>
    rw [AluInput.due, AluInput.undelivered, List.filter_nil, List.append_nil]
    rfl
  | cons i is ih =>
    have hcons (x : Option AluInput) (xs : List (Option AluInput)) :
        (x :: xs).reduceOption = x.toList ++ xs.reduceOption := by cases x <;> rfl
    rw [AluInput.due, AluInput.undelivered, hcons, List.append_assoc,
      ih (holds_step hm hs h.1) h.2, ← List.append_assoc, hs.due_toList h.1, List.append_assoc,
      ← List.filter_append, List.singleton_append]

/-- Every enabled operation delivers once, in its own cycle or as a pipelined shift in the
next, and nothing else does; what is delivered is the RV32I result, which the behavioral
mode shows as well. -/
theorem alu_delivers (hm : mode ≠ .behavioral) {is : List AluInput}
    (h : (machine mode).Along (fun s i => i.en = true → s.busyO = false) {} is) :
    (machine mode).labels (delivered mode) {} is =
        (AluInput.due mode none is).map (Option.map AluInput.result) ∧
      (AluInput.due mode none is).reduceOption ++ (AluInput.undelivered mode none is).toList =
        is.filter (·.en) ∧
      ∀ i ∈ is, i.en = true → ∀ s : AluState, (s.out .behavioral i).res = i.result := by
  have hs : ({} : AluState).Holds mode none := ⟨rfl, rfl⟩
  exact ⟨labels_delivered hm hs h, due_enabled hm hs h, fun i _ hen s => out_behavioral_res hen⟩

theorem alu_delivers_shift_add :
    (machine .pipelined).labels (delivered .pipelined) {}
        [⟨1, false, 3, 2, true⟩, ⟨0, false, 9, 9, false⟩, ⟨0, false, 3, 4, true⟩] =
      [none, some 12, some 7] :=
  (alu_delivers (by decide) (by decide)).1.trans (by decide)

end AluState
end BonfireCore
