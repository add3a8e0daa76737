import BonfireCore.BitArith
import BonfireCore.Divider

/-! The divider divides. A division is followed cycle by cycle: while bit `k` of the dividend
is tried the adder holds the trial difference, and the two result registers follow behind. -/
namespace BonfireCore

open LongDivision (trial remainder quotient)

namespace Complementor

/-- The two halves and the carry between them. -/
theorem dO_step (compl : Bool) (d : Word) :
    (step compl d).dO = if compl then -d else d := by
  have hd : (step compl d).dO =
      (if compl then ~~~d else d) + (BitVec.ofBool compl).setWidth 32 := by
    simp only [dO, step]
    generalize (if compl then ~~~d else d) = x
    have hx := x.isLt
    have hb : compl.toNat < 2 := by cases compl <;> decide
    have hcarry : ((x.toNat % 65536 + compl.toNat) / 65536 % 2 == 1).toNat =
        (x.toNat % 65536 + compl.toNat) / 65536 := by
      have h : (x.toNat % 65536 + compl.toNat) / 65536 = 0 ∨
          (x.toNat % 65536 + compl.toNat) / 65536 = 1 := by omega
      rcases h with h | h <;> rw [h] <;> rfl
    have hlow : (x.toNat % 65536 + compl.toNat) % 131072 = x.toNat % 65536 + compl.toNat :=
      Nat.mod_eq_of_lt (by omega)
    apply BitVec.eq_of_toNat_eq
    rw [toNat_append_eq]
    simp [BitVec.getLsbD, Nat.testBit, hlow, Nat.shiftRight_eq_div_pow]
    omega
  rw [hd]
  cases compl
  · simp
  · simp [BitVec.neg_eq_not_add]

end Complementor

/-- DIV, DIVU, REM and REMU. -/
def mDivide (signed rem : Bool) (op1 op2 : Word) : Word :=
  match rem, signed with
  | false, true => if op2 = 0 then -1 else BitVec.ofInt 32 (op1.toInt.tdiv op2.toInt)
  | false, false => if op2 = 0 then -1 else BitVec.ofNat 32 (op1.toNat / op2.toNat)
  | true, true => if op2 = 0 then op1 else BitVec.ofInt 32 (op1.toInt.tmod op2.toInt)
  | true, false => if op2 = 0 then op1 else BitVec.ofNat 32 (op1.toNat % op2.toNat)

namespace DividerInput
variable (i : DividerInput)

/-- The magnitude of an operand. -/
def magnitude (op : Word) : ℕ := if Divider.negative i op then (-op).toNat else op.toNat

/-- The divisor as the adder sees it: sign-extended, not complemented. -/
def divisor : BitVec 33 := BitVec.ofBool (Divider.negative i i.op2) ++ i.op2

def dividendAbs : ℕ := i.magnitude i.op1
def divisorAbs : ℕ := i.magnitude i.op2

def trial (k : ℕ) : ℕ := LongDivision.trial 32 i.dividendAbs i.divisorAbs k
def remainder (k : ℕ) : ℕ := LongDivision.remainder 32 i.dividendAbs i.divisorAbs k
def quotient (k : ℕ) : ℕ := LongDivision.quotient 32 i.dividendAbs i.divisorAbs k

variable {i}

theorem magnitude_lt (op : Word) : i.magnitude op < 2 ^ 32 := by
  unfold magnitude
  split_ifs
  · exact (-op).isLt
  · exact op.isLt

theorem divisor_toNat :
    i.divisor.toNat = (Divider.negative i i.op2).toNat * 2 ^ 32 + i.op2.toNat :=
  (toNat_append_eq (BitVec.ofBool _) i.op2).trans (by rw [BitVec.toNat_ofBool])

theorem divisor_getLsbD : i.divisor.getLsbD 32 = Divider.negative i i.op2 := by
  have hlt := i.op2.isLt
  rw [BitVec.getLsbD, divisor_toNat, Nat.testBit, Nat.one_and_eq_mod_two,
    Nat.shiftRight_eq_div_pow]
  have hdiv : ((Divider.negative i i.op2).toNat * 2 ^ 32 + i.op2.toNat) / 2 ^ 32 =
      (Divider.negative i i.op2).toNat := by omega
  rw [hdiv]
  cases Divider.negative i i.op2 <;> rfl

theorem divisor_extractLsb' : i.divisor.extractLsb' 0 32 = i.op2 := by
  have hlt := i.op2.isLt
  apply BitVec.eq_of_toNat_eq
  rw [BitVec.extractLsb'_toNat, divisor_toNat, Nat.shiftRight_zero]
  omega

/-- Adding the divisor's sign away leaves its magnitude. -/
theorem ofNat_divisorAbs :
    BitVec.ofNat 33 i.divisorAbs =
      if i.divisor.getLsbD 32 then -i.divisor else i.divisor := by
  have hlt := i.op2.isLt
  rw [divisor_getLsbD, divisorAbs, magnitude]
  apply BitVec.eq_of_toNat_eq
  have hdiv := i.divisor_toNat
  cases h : Divider.negative i i.op2 with
  | false =>
    simp only [h, Bool.toNat_false] at hdiv
    simp only [BitVec.toNat_ofNat, hdiv, Bool.false_eq_true, if_false]
    omega
  | true =>
    have hpos : 0 < i.op2.toNat := by
      have hmsb : i.op2.getLsbD 31 = true := by
        simp only [Divider.negative, Bool.and_eq_true] at h
        exact h.1
      by_contra h0
      have h0 : i.op2 = 0 := BitVec.eq_of_toNat_eq (by simpa using h0)
      simp [h0] at hmsb
    simp only [h, Bool.toNat_true] at hdiv
    simp only [if_true, BitVec.toNat_neg, BitVec.toNat_ofNat, hdiv]
    omega

theorem quotient_lt {k : ℕ} (hk : k ≤ 32) : i.quotient k < 2 ^ k := by
  have hs : LongDivision.scanned 32 i.dividendAbs k < 2 ^ k :=
    LongDivision.scanned_lt (magnitude_lt _) hk
  have hpos : 0 < 2 ^ k := Nat.two_pow_pos k
  unfold quotient LongDivision.quotient
  split_ifs
  · omega
  · exact (Nat.div_le_self _ _).trans_lt hs

/-- The bit that leaves the shift register is the one brought down next. -/
theorem shifted_getLsbD {k : ℕ} (hk : k + 1 < 32) :
    (BitVec.ofNat 32 (i.dividendAbs * 2 ^ (k + 1) + i.quotient k)).getLsbD 31 =
      decide (LongDivision.nextBit 32 i.dividendAbs (k + 1) = 1) := by
  have hq : i.quotient k < 2 ^ (k + 1) :=
    (quotient_lt (by omega)).trans (Nat.pow_lt_pow_right (by decide) (by omega))
  have hj : 31 = k + 1 + (30 - k) := by omega
  have hw : 32 - (k + 1 + 1) = 30 - k := by omega
  rw [BitVec.getLsbD_ofNat, Nat.mul_comm, Nat.testBit_two_pow_mul_add _ hq, LongDivision.nextBit,
    LongDivision.scanned, hw]
  have h31 : ¬ 31 < k + 1 := by omega
  have hsub : 31 - (k + 1) = 30 - k := by omega
  simp [h31, hsub, Nat.testBit_eq_decide_div_mod_eq]

end DividerInput

namespace Divider

theorem sumVal_eq (s : Divider) :
    s.sumVal =
      if s.sumSubtract then s.partialRemainder - s.divisor
      else s.partialRemainder + s.divisor := by
  unfold sumVal addend
  cases s.sumSubtract with
  | false => simp
  | true => simp [BitVec.sub_eq_add_neg, BitVec.neg_eq_not_add, BitVec.add_assoc]

/-- The registers while bit `k` of the dividend is tried; the results are complete at 32. -/
structure Dividing (i : DividerInput) (k : ℕ) (s : Divider) : Prop where
  fsmCe : s.fsmCe = false
  wantRemainder : s.wantRemainder = i.rem
  invRes : s.invRes = inverts i
  divisor : s.divisor = i.divisor
  cnt : s.cnt = (if i.rem then 34 else 33) - k
  sum : k < 32 → s.sumVal = BitVec.ofInt 33 (i.trial k - i.divisorAbs)
  dividend : k ≤ 32 → s.dividend = BitVec.ofNat 32 (i.dividendAbs * 2 ^ (k + 1) + i.quotient k)
  restored : 1 ≤ k → k ≤ 32 → s.restored = BitVec.ofNat 32 (i.remainder k)
  remainderPos : k = 33 → s.remainderPos = BitVec.ofNat 32 (i.remainder 32)

variable {s : Divider} {i w : DividerInput} {k : ℕ}

theorem Dividing.sumPositive (h : Dividing i k s) (hk : k < 32) :
    s.sumPositive = decide (i.divisorAbs ≤ i.trial k) := by
  have hd : i.divisorAbs < 2 ^ 32 := DividerInput.magnitude_lt _
  have ht : i.trial k < 2 ^ 32 + i.divisorAbs :=
    LongDivision.trial_le (DividerInput.magnitude_lt _) hd hk
  have hsign : s.sumVal.getLsbD 32 = decide ((i.trial k : ℤ) - i.divisorAbs < 0) := by
    rw [h.sum hk]
    exact getLsbD_ofInt_top (by omega) (by omega)
  rw [Divider.sumPositive, hsign]
  by_cases hle : i.divisorAbs ≤ i.trial k
  · have hn : ¬ (i.trial k : ℤ) - i.divisorAbs < 0 := by omega
    simp [hle, hn]
  · have hn : (i.trial k : ℤ) - i.divisorAbs < 0 := by omega
    simp [hle, hn]

/-- Adding or subtracting, by the sign of the divisor, is one subtraction or addition of its
magnitude. -/
theorem addend_abs (v : BitVec 33) (positive : Bool) :
    (if positive ^^ i.divisor.getLsbD 32 then v - i.divisor else v + i.divisor) =
      if positive then v - BitVec.ofNat 33 i.divisorAbs
      else v + BitVec.ofNat 33 i.divisorAbs := by
  rw [DividerInput.ofNat_divisorAbs]
  cases positive <;> cases i.divisor.getLsbD 32 <;> simp [BitVec.sub_eq_add_neg]

theorem ofBool_nextBit (n k : ℕ) :
    (BitVec.ofBool (decide (LongDivision.nextBit 32 n k = 1))).setWidth 33 =
      BitVec.ofInt 33 (LongDivision.nextBit 32 n k) := by
  have hlt : LongDivision.nextBit 32 n k < 2 := LongDivision.nextBit_lt
  have h01 : LongDivision.nextBit 32 n k = 0 ∨ LongDivision.nextBit 32 n k = 1 := by omega
  rcases h01 with h01 | h01 <;> rw [h01] <;> rfl

theorem Dividing.step_sum (h : Dividing i k s) (hw : w.ce = false) (hk : k + 1 < 32) :
    (s.step w).sumVal = BitVec.ofInt 33 (i.trial (k + 1) - i.divisorAbs) := by
  have hb : (BitVec.ofBool (s.dividend.getLsbD 31)).setWidth 33 =
      BitVec.ofInt 33 (LongDivision.nextBit 32 i.dividendAbs (k + 1)) := by
    rw [h.dividend (by omega), DividerInput.shifted_getLsbD hk, ofBool_nextBit]
  have htrial : i.trial (k + 1) =
      2 * i.remainder (k + 1) + LongDivision.nextBit 32 i.dividendAbs (k + 1) := rfl
  have hrem : i.remainder (k + 1) =
      if i.divisorAbs ≤ i.trial k then i.trial k - i.divisorAbs else i.trial k :=
    LongDivision.remainder_succ (by omega)
  rw [sumVal_eq]
  simp only [Divider.step, h.fsmCe, hw, Bool.false_eq_true, if_false, h.divisor]
  rw [extractLsb'_append_ofBool, addend_abs, h.sumPositive (by omega), h.sum (by omega), hb,
    ← BitVec.ofInt_natCast]
  by_cases hle : i.divisorAbs ≤ i.trial k
  · simp only [hle, decide_true, if_true, BitVec.sub_eq_add_neg, ← BitVec.ofInt_neg,
      ← BitVec.ofInt_add]
    congr 1
    rw [htrial, hrem, if_pos hle]
    omega
  · simp only [hle, decide_false, Bool.false_eq_true, if_false, ← BitVec.ofInt_add]
    congr 1
    rw [htrial, hrem, if_neg hle]
    omega

theorem Dividing.step_dividend (h : Dividing i k s) (hk : k < 32) :
    (s.step w).dividend =
      BitVec.ofNat 32 (i.dividendAbs * 2 ^ (k + 1 + 1) + i.quotient (k + 1)) := by
  have hq : i.quotient (k + 1) =
      2 * i.quotient k + if i.divisorAbs ≤ i.trial k then 1 else 0 :=
    LongDivision.quotient_succ hk
  have hb : (BitVec.ofBool s.sumPositive).setWidth 32 =
      BitVec.ofNat 32 (if i.divisorAbs ≤ i.trial k then 1 else 0) := by
    rw [h.sumPositive hk]
    by_cases hle : i.divisorAbs ≤ i.trial k <;> simp [hle]
  show (if s.fsmCe then _ else s.dividend.extractLsb' 0 31 ++ BitVec.ofBool s.sumPositive) = _
  rw [h.fsmCe, if_neg Bool.false_ne_true, extractLsb'_append_ofBool, hb, h.dividend hk.le,
    ← BitVec.ofNat_add, ← BitVec.ofNat_add, hq]
  have hpow : 2 ^ (k + 1 + 1) = 2 * 2 ^ (k + 1) := by rw [Nat.pow_succ, Nat.mul_comm]
  congr 1
  rw [hpow, Nat.mul_left_comm]
  omega

theorem Dividing.step_restored (h : Dividing i k s) (hk : k < 32) :
    (s.step w).restored = BitVec.ofNat 32 (i.remainder (k + 1)) := by
  have hrem : i.remainder (k + 1) =
      if i.divisorAbs ≤ i.trial k then i.trial k - i.divisorAbs else i.trial k :=
    LongDivision.remainder_succ hk
  have hpr : (s.step w).partialRemainder.extractLsb' 1 32 =
      BitVec.ofInt 32 (i.trial k - i.divisorAbs) := by
    rw [← setWidth_ofInt (w := 33) (by decide), ← h.sum hk]
    simp only [Divider.step, h.fsmCe, Bool.false_eq_true, if_false]
    exact extractLsb'_append_right s.sumVal _
  have hcorr : (s.step w).remainderCorrector +
      (BitVec.ofBool (s.step w).remainderCorrector1).setWidth 32 =
        BitVec.ofNat 32 (if i.divisorAbs ≤ i.trial k then 0 else i.divisorAbs) := by
    have habs : BitVec.ofNat 32 i.divisorAbs =
        if Divider.negative i i.op2 then -i.op2 else i.op2 := by
      unfold DividerInput.divisorAbs DividerInput.magnitude
      split_ifs <;> rw [BitVec.ofNat_toNat, BitVec.setWidth_eq]
    simp only [Divider.step, h.sumPositive hk, h.divisor, DividerInput.divisor_getLsbD,
      DividerInput.divisor_extractLsb', decide_eq_true_eq]
    by_cases hle : i.divisorAbs ≤ i.trial k
    · simp [hle]
    · cases hneg : Divider.negative i i.op2 <;>
        simp [hle, habs, hneg, BitVec.neg_eq_not_add]
  rw [Divider.restored, BitVec.add_assoc, hpr, hcorr, hrem, ← BitVec.ofInt_natCast,
    ← BitVec.ofInt_natCast, ← BitVec.ofInt_add]
  congr 1
  split_ifs <;> omega

theorem Dividing.step (h : Dividing i k s) (hw : w.ce = false) :
    Dividing i (k + 1) (s.step w) where
  fsmCe := hw
  wantRemainder := by simp [Divider.step, hw, h.wantRemainder]
  invRes := by simp [Divider.step, hw, h.invRes]
  divisor := by simp [Divider.step, hw, h.divisor]
  cnt := by simp [Divider.step, h.fsmCe, h.cnt, Nat.sub_sub]
  sum := h.step_sum hw
  dividend hk := h.step_dividend (by omega)
  restored _ hk := h.step_restored (by omega)
  remainderPos hk := by
    obtain rfl : k = 32 := by omega
    exact h.restored (by decide) le_rfl

theorem ofNat_magnitude (op : Word) :
    BitVec.ofNat 32 (i.magnitude op) = if negative i op then -op else op := by
  unfold DividerInput.magnitude
  split_ifs <;> rw [BitVec.ofNat_toNat, BitVec.setWidth_eq]

/-- A division begins, whatever the divider was doing. -/
theorem dividing_start (s : Divider) (hi : i.ce = true) (hw : w.ce = false) :
    Dividing i 0 ((s.step i).step w) := by
  have hcompl : (s.step i).compl.dO = BitVec.ofNat 32 i.dividendAbs := by
    simp only [Divider.step, hi, if_true, Complementor.dO_step]
    exact (ofNat_magnitude i.op1).symm
  have hrem : i.remainder 0 = 0 := LongDivision.remainder_zero (DividerInput.magnitude_lt _)
  have hquot : i.quotient 0 = 0 := LongDivision.quotient_zero (DividerInput.magnitude_lt _)
  have hfsm : (s.step i).fsmCe = true := hi
  have hdiv : (s.step i).divisor = i.divisor := by simp [Divider.step, hi, DividerInput.divisor]
  have hwant : (s.step i).wantRemainder = i.rem := by simp [Divider.step, hi]
  constructor
  case fsmCe => exact hw
  case wantRemainder => simp [Divider.step, hw, hi]
  case invRes => simp [Divider.step, hw, hi]
  case divisor => simp [Divider.step, hw, hi, DividerInput.divisor]
  case cnt =>
    show (if (s.step i).fsmCe then if (s.step i).wantRemainder then 34 else 33 else _) = _
    rw [hfsm, hwant]
    rfl
  case sum =>
    intro _
    have hbit : (BitVec.ofNat 32 i.dividendAbs).getLsbD 31 =
        decide (LongDivision.nextBit 32 i.dividendAbs 0 = 1) := by
      rw [BitVec.getLsbD_ofNat, Nat.testBit_eq_decide_div_mod_eq]
      rfl
    have hzero (b : Bool) :
        (0#32 ++ BitVec.ofBool b : BitVec 33) = (BitVec.ofBool b).setWidth 33 := by
      cases b <;> rfl
    have htrial : i.trial 0 = 2 * i.remainder 0 + LongDivision.nextBit 32 i.dividendAbs 0 := rfl
    have hsub : ((s.step i).step w).sumSubtract = (true ^^ i.divisor.getLsbD 32) := by
      show (if (s.step i).fsmCe then !(s.step i).divisor.getLsbD 32 else _) = _
      rw [hfsm, hdiv, if_pos rfl, Bool.true_xor]
    have hpr : ((s.step i).step w).partialRemainder =
        BitVec.ofInt 33 (LongDivision.nextBit 32 i.dividendAbs 0) := by
      show (if (s.step i).fsmCe then
        0#32 ++ BitVec.ofBool ((s.step i).compl.dO.getLsbD 31) else _) = _
      rw [hfsm, if_pos rfl, hcompl, hbit, hzero, ofBool_nextBit]
    have hdiv' : ((s.step i).step w).divisor = i.divisor := by
      simp [Divider.step, hw, hi, DividerInput.divisor]
    rw [sumVal_eq, hsub, hdiv', addend_abs, if_pos rfl, hpr, BitVec.sub_eq_add_neg,
      ← BitVec.ofInt_natCast, ← BitVec.ofInt_neg, ← BitVec.ofInt_add]
    congr 1
    rw [htrial, hrem]
    omega
  case dividend =>
    intro _
    show (if (s.step i).fsmCe then
      (s.step i).compl.dO.extractLsb' 0 31 ++ BitVec.ofBool false else _) = _
    rw [hfsm, if_pos rfl, hcompl, extractLsb'_append_ofBool, hquot, ← BitVec.ofNat_add]
    have hzero : (BitVec.ofBool false).setWidth 32 = BitVec.ofNat 32 0 := rfl
    rw [hzero, ← BitVec.ofNat_add]
    congr 1
    omega
  case restored =>
    intro h1
    omega
  case remainderPos =>
    intro h1
    omega

/-- After the start come `waits` and one cycle more. -/
theorem dividing_run (s : Divider) (hi : i.ce = true) (hw : w.ce = false)
    {waits : List DividerInput} (hwaits : ∀ v ∈ waits, v.ce = false) :
    Dividing i waits.length (machine.runFrom ((s.step i).step w) waits) := by
  induction waits using List.reverseRecOn with
  | nil => exact dividing_start s hi hw
  | append_singleton waits v ih =>
    rw [Clocked.runFrom_append, List.length_append]
    exact (ih fun u hu => hwaits u (by simp [hu])).step (hwaits v (by simp))

theorem magnitude_eq_zero {op : Word} : i.magnitude op = 0 ↔ op = 0 := by
  unfold DividerInput.magnitude
  have hneg : -op = 0 ↔ op = 0 := BitVec.neg_eq_zero_iff
  split_ifs
  · rw [← hneg, ← BitVec.toNat_inj]
    rfl
  · rw [← BitVec.toNat_inj]
    rfl

theorem toInt_eq_magnitude (hs : i.signed = true) (op : Word) :
    op.toInt = if negative i op then -(i.magnitude op : ℤ) else i.magnitude op := by
  have hmsb : op.msb = negative i op := by
    simp [negative, hs, BitVec.msb_eq_getLsbD_last]
  unfold DividerInput.magnitude
  cases hn : negative i op with
  | false => simpa using BitVec.toInt_eq_toNat_of_msb (hmsb.trans hn)
  | true => simpa using BitVec.toInt_eq_neg_toNat_neg_of_msb_true (hmsb.trans hn)

/-- The quotient's sign is put back. -/
theorem inverts_quotient (hr : i.rem = false) :
    (if inverts i then -BitVec.ofNat 32 (i.quotient 32) else BitVec.ofNat 32 (i.quotient 32)) =
      mDivide i.signed i.rem i.op1 i.op2 := by
  have hq : i.quotient 32 =
      if i.divisorAbs = 0 then 2 ^ 32 - 1 else i.dividendAbs / i.divisorAbs :=
    LongDivision.quotient_full
  rw [hq, hr]
  by_cases h0 : i.op2 = 0#32
  · have hd : i.divisorAbs = 0 := magnitude_eq_zero.2 h0
    rw [if_pos hd]
    cases hs : i.signed <;> simp [inverts, hr, h0, mDivide]
  · have hd : i.divisorAbs ≠ 0 := fun hd => h0 (magnitude_eq_zero.1 hd)
    rw [if_neg hd]
    cases hs : i.signed with
    | false =>
      simp [inverts, hr, hs, mDivide, h0, DividerInput.dividendAbs, DividerInput.divisorAbs,
        DividerInput.magnitude, negative]
    | true =>
      have hinv : inverts i = (negative i i.op1 ^^ negative i i.op2) := by
        simp [inverts, hr, hs, negative, h0]
      simp only [mDivide, BitVec.ofNat_eq_ofNat, h0, if_false, hinv, toInt_eq_magnitude hs]
      cases negative i i.op1 <;> cases negative i i.op2 <;>
        simp [DividerInput.dividendAbs, DividerInput.divisorAbs, BitVec.ofInt_neg,
          ← BitVec.ofInt_natCast, Int.tdiv_eq_ediv_of_nonneg]

/-- The remainder takes the sign of the dividend. -/
theorem inverts_remainder (hr : i.rem = true) :
    (if inverts i then -BitVec.ofNat 32 (i.remainder 32) else BitVec.ofNat 32 (i.remainder 32)) =
      mDivide i.signed i.rem i.op1 i.op2 := by
  have hq : i.remainder 32 = i.dividendAbs % i.divisorAbs := LongDivision.remainder_full
  have hinv : inverts i = negative i i.op1 := by simp [inverts, hr]
  rw [hq, hinv, hr]
  by_cases h0 : i.op2 = 0#32
  · have hd : i.divisorAbs = 0 := magnitude_eq_zero.2 h0
    have habs : BitVec.ofNat 32 i.dividendAbs =
        if negative i i.op1 then -i.op1 else i.op1 := ofNat_magnitude i.op1
    rw [hd, Nat.mod_zero, habs]
    cases hs : i.signed <;> cases hn : negative i i.op1 <;> simp [mDivide, h0]
  · cases hs : i.signed with
    | false =>
      simp [mDivide, h0, hs, DividerInput.dividendAbs, DividerInput.divisorAbs,
        DividerInput.magnitude, negative]
    | true =>
      simp only [mDivide, BitVec.ofNat_eq_ofNat, h0, if_false, toInt_eq_magnitude hs]
      cases negative i i.op1 <;> cases negative i i.op2 <;>
        simp [DividerInput.dividendAbs, DividerInput.divisorAbs, BitVec.ofInt_neg,
          ← BitVec.ofInt_natCast, Int.tmod_eq_emod_of_nonneg]

theorem step_resultO (s : Divider) (hw : w.ce = false) :
    (s.step w).resultO = if s.invRes then -s.resultPos else s.resultPos := by
  simp only [resultO, Divider.step, hw, Bool.false_eq_true, if_false, Complementor.dO_step]

theorem Dividing.result_quotient (h : Dividing i 32 s) (hw : w.ce = false) (hr : i.rem = false) :
    (s.step w).resultO = mDivide i.signed i.rem i.op1 i.op2 := by
  have hpos : s.resultPos = BitVec.ofNat 32 (i.quotient 32) := by
    rw [resultPos, h.wantRemainder, hr, if_neg Bool.false_ne_true, h.dividend le_rfl]
    apply BitVec.eq_of_toNat_eq
    simp only [BitVec.toNat_ofNat]
    omega
  rw [step_resultO s hw, h.invRes, hpos, inverts_quotient hr]

theorem Dividing.result_remainder (h : Dividing i 33 s) (hw : w.ce = false) (hr : i.rem = true) :
    (s.step w).resultO = mDivide i.signed i.rem i.op1 i.op2 := by
  have hpos : s.resultPos = BitVec.ofNat 32 (i.remainder 32) := by
    rw [resultPos, h.wantRemainder, hr, if_pos rfl, h.remainderPos rfl]
  rw [step_resultO s hw, h.invRes, hpos, inverts_remainder hr]

/-- The cycle after the start, counted from one, in which the result is delivered. -/
def latency (rem : Bool) : ℕ := if rem then 36 else 35

/-- The registers an operation that has delivered its result leaves; whatever came before
it, and however long ago it was. -/
inductive Settled : Divider → Prop
  | reset : Settled {}
  | operation (s : Divider) {i : DividerInput} (hi : i.ce = true) (waits : List DividerInput)
      (hwaits : ∀ w ∈ waits, w.ce = false) (hdone : latency i.rem ≤ waits.length + 1) :
      Settled (machine.runFrom s (i :: waits))

theorem le_latency (rem : Bool) : 35 ≤ latency rem := by cases rem <;> decide

theorem Settled.idle {s : Divider} (h : Settled s) : s.fsmCe = false ∧ s.cnt = 0 := by
  cases h with
  | reset => exact ⟨rfl, rfl⟩
  | @operation s i hi waits hwaits hdone =>
    have hpos := le_latency i.rem
    cases waits with
    | nil =>
      simp only [List.length_nil] at hdone
      omega
    | cons w waits =>
      have hrun : Dividing i waits.length (machine.runFrom s (i :: w :: waits)) :=
        dividing_run s hi (hwaits w (by simp)) fun v hv => hwaits v (by simp [hv])
      have hcnt : (if i.rem then 34 else 33) - waits.length = 0 := by
        simp only [latency, List.length_cons] at hdone
        split_ifs at hdone ⊢ <;> omega
      exact ⟨hrun.fsmCe, hrun.cnt.trans hcnt⟩

theorem Dividing.step_ceO (h : Dividing i k s) : (s.step w).ceO = true ↔ k + 3 = latency i.rem := by
  have hcnt : s.cnt = 1 ↔ k + 3 = latency i.rem := by
    rw [h.cnt, latency]
    split_ifs <;> omega
  simpa [Divider.step] using hcnt

theorem Dividing.step_resultO (h : Dividing i k s) (hw : w.ce = false)
    (hk : k + 3 = latency i.rem) : (s.step w).resultO = mDivide i.signed i.rem i.op1 i.op2 := by
  cases hr : i.rem with
  | false =>
    obtain rfl : k = 32 := by simpa [hr, latency] using hk
    exact hr ▸ h.result_quotient hw hr
  | true =>
    obtain rfl : k = 33 := by simpa [hr, latency] using hk
    exact hr ▸ h.result_remainder hw hr

/-- One operation, and any number of cycles after it: `ce_o` comes once, at the latency of
the operation, with the quotient or the remainder the instruction set defines. -/
theorem divider_divides {s : Divider} (hs : Settled s) {i : DividerInput} (hi : i.ce = true)
    {waits : List DividerInput} (hwaits : ∀ w ∈ waits, w.ce = false) :
    ((machine.runFrom s (i :: waits)).ceO = true ↔ waits.length + 1 = latency i.rem) ∧
      (waits.length + 1 = latency i.rem →
        (machine.runFrom s (i :: waits)).resultO = mDivide i.signed i.rem i.op1 i.op2) := by
  obtain ⟨hfsm, hcnt⟩ := hs.idle
  have hpos := le_latency i.rem
  rw [Clocked.runFrom_cons]
  change ((machine.runFrom (s.step i) waits).ceO = true ↔ _) ∧
    (_ → (machine.runFrom (s.step i) waits).resultO = _)
  rcases waits.eq_nil_or_concat with rfl | ⟨init, v, rfl⟩
  · have hceO : (s.step i).ceO = false := by simp [Divider.step, hcnt]
    simp only [Clocked.runFrom_nil, List.length_nil, hceO, Bool.false_eq_true, false_iff]
    exact ⟨by omega, fun h => by omega⟩
  · rw [List.concat_eq_append] at hwaits ⊢
    rw [Clocked.runFrom_append, List.length_append]
    cases init with
    | nil =>
      have hceO : ((s.step i).step v).ceO = false := by simp [Divider.step, hfsm, hcnt]
      simp only [Clocked.runFrom_nil, Clocked.runFrom_cons, machine, List.length_nil,
        List.length_singleton, hceO, Bool.false_eq_true, false_iff]
      exact ⟨by omega, fun h => by omega⟩
    | cons w init =>
      have hv : v.ce = false := hwaits v (by simp)
      have hrun : Dividing i init.length (machine.runFrom (s.step i) (w :: init)) :=
        dividing_run s hi (hwaits w (by simp)) fun u hu => hwaits u (by simp [hu])
      have hlen : (w :: init).length + [v].length + 1 = init.length + 3 := by
        simp only [List.length_cons, List.length_nil]
      rw [hlen, Clocked.runFrom_cons (s := Clocked.runFrom _ _ _), Clocked.runFrom_nil]
      exact ⟨hrun.step_ceO, hrun.step_resultO hv⟩

/-- A quotient behind a remainder. -/
theorem divider_divides_minus_hundred :
    let rest := List.replicate 40 (⟨0, 0, false, false, false⟩ : DividerInput)
    let s := machine.runFrom {} (⟨81, 9, false, true, true⟩ :: rest)
    let start : DividerInput := ⟨-100, 7, true, false, true⟩
    let waits := List.replicate 34 (⟨3, 0, true, true, false⟩ : DividerInput)
    (machine.runFrom s (start :: waits)).ceO = true ∧
      (machine.runFrom s (start :: waits)).resultO = -14 := by
  have hrest : ∀ w ∈ List.replicate 40 (⟨0, 0, false, false, false⟩ : DividerInput),
      w.ce = false := fun w hw => by rw [List.eq_of_mem_replicate hw]
  have hlow : ∀ w ∈ List.replicate 34 (⟨3, 0, true, true, false⟩ : DividerInput),
      w.ce = false := fun w hw => by rw [List.eq_of_mem_replicate hw]
  have hs := Settled.operation {} (i := ⟨81, 9, false, true, true⟩) rfl _ hrest (by decide)
  have h := divider_divides hs (i := ⟨-100, 7, true, false, true⟩) rfl hlow
  exact ⟨h.1.2 (by decide), (h.2 (by decide)).trans (by decide)⟩

end Divider
end BonfireCore
