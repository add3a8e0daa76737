import Mathlib.Data.BitVec
import Mathlib.Tactic.Common

/-! Division by shifting and subtracting on machine words: the divisor is doubled as long as it
goes into the dividend, and subtracted on its way back. -/
namespace BonfireCore.ShiftSubtract

variable {w : ℕ}

/-- Doubles `denom` and `current` until the next double overflows or exceeds the value. -/
def scaleUp (value denom current : BitVec w) : BitVec w × BitVec w :=
  if denom < denom <<< 1 ∧ denom <<< 1 ≤ value then scaleUp value (denom <<< 1) (current <<< 1)
  else (denom, current)
termination_by 2 ^ w - denom.toNat
decreasing_by
  rename_i h
  have hlt : denom.toNat < (denom <<< 1).toNat := BitVec.lt_def.1 h.1
  exact Nat.sub_lt_sub_left (hlt.trans (denom <<< 1).isLt) hlt

/-- Subtracts on the way down; the quotient and what is left of the value. -/
def subtractDown (value quotient denom current : BitVec w) : BitVec w × BitVec w :=
  if current ≠ 0 then
    subtractDown (if denom ≤ value then value - denom else value)
      (if denom ≤ value then quotient ||| current else quotient) (denom >>> 1) (current >>> 1)
  else (quotient, value)
termination_by current.toNat
decreasing_by
  rename_i h
  have hpos : 0 < current.toNat := Nat.pos_of_ne_zero fun h0 => h (BitVec.eq_of_toNat_eq h0)
  rw [BitVec.toNat_ushiftRight, Nat.shiftRight_eq_div_pow]
  omega

def divMod (value divisor : BitVec w) : BitVec w × BitVec w :=
  let s := scaleUp value divisor 1
  subtractDown value 0 s.1 s.2

/-- The divisor and the bit it stands for, doubled `k` times without overflow. -/
structure Scaled (d k : ℕ) (denom current : BitVec w) : Prop where
  denom : denom.toNat = d * 2 ^ k
  current : current.toNat = 2 ^ k

/-- A double that does not wrap is larger. -/
theorem lt_shiftLeft_one_iff {x : BitVec w} (hx : 0 < x.toNat) :
    x < x <<< 1 ↔ 2 * x.toNat < 2 ^ w := by
  have hlt := x.isLt
  rw [BitVec.lt_def, BitVec.toNat_shiftLeft, Nat.shiftLeft_eq, Nat.pow_one, Nat.mul_comm]
  constructor
  · intro h
    by_contra hge
    have hmod : 2 * x.toNat % 2 ^ w = 2 * x.toNat - 2 ^ w := by
      rw [Nat.mod_eq_sub_mod (by omega), Nat.mod_eq_of_lt (by omega)]
    omega
  · intro h
    rw [Nat.mod_eq_of_lt h]
    omega

theorem Scaled.double {d k : ℕ} {denom current : BitVec w} (hd : 0 < d)
    (h : Scaled d k denom current) (hfit : 2 * denom.toNat < 2 ^ w) :
    Scaled d (k + 1) (denom <<< 1) (current <<< 1) := by
  have hle : current.toNat ≤ denom.toNat := by
    rw [h.denom, h.current]
    exact Nat.le_mul_of_pos_left _ hd
  constructor
  · rw [BitVec.toNat_shiftLeft, Nat.shiftLeft_eq, Nat.pow_one, Nat.mod_eq_of_lt (by omega), h.denom,
      Nat.pow_succ, Nat.mul_assoc]
  · rw [BitVec.toNat_shiftLeft, Nat.shiftLeft_eq, Nat.pow_one, Nat.mod_eq_of_lt (by omega),
      h.current, Nat.pow_succ]

/-- The scaling stops above half the value: neither too early nor by an overflow. -/
theorem scaleUp_scaled {d : ℕ} (hd : 0 < d) (value denom current : BitVec w) :
    ∀ k, Scaled d k denom current →
      ∃ j, Scaled d j (scaleUp value denom current).1 (scaleUp value denom current).2 ∧
        value.toNat < d * 2 ^ (j + 1) := by
  fun_induction scaleUp value denom current with
  | case1 denom current hgo ih =>
    intro k h
    have hpos : 0 < denom.toNat := by
      rw [h.denom]
      exact Nat.mul_pos hd (Nat.two_pow_pos k)
    exact ih (k + 1) (h.double hd ((lt_shiftLeft_one_iff hpos).1 hgo.1))
  | case2 denom current hstop =>
    intro k h
    refine ⟨k, h, ?_⟩
    have hpos : 0 < denom.toNat := by
      rw [h.denom]
      exact Nat.mul_pos hd (Nat.two_pow_pos k)
    have hdouble : d * 2 ^ (k + 1) = 2 * denom.toNat := by
      rw [h.denom, Nat.pow_succ, ← Nat.mul_assoc, Nat.mul_comm]
    have hv := value.isLt
    rw [hdouble]
    by_cases hfit : 2 * denom.toNat < 2 ^ w
    · have hlt := (lt_shiftLeft_one_iff hpos).2 hfit
      have hnot : ¬ denom <<< 1 ≤ value := fun hle => hstop ⟨hlt, hle⟩
      rw [BitVec.not_le, BitVec.lt_def, BitVec.toNat_shiftLeft, Nat.shiftLeft_eq, Nat.pow_one,
        Nat.mod_eq_of_lt (by omega)] at hnot
      omega
    · omega

/-- Setting a bit below all bits of the quotient adds it. -/
theorem or_two_pow {q c : BitVec w} {k : ℕ} (hc : c.toNat = 2 ^ k) (hq : 2 ^ (k + 1) ∣ q.toNat) :
    (q ||| c).toNat = q.toNat + 2 ^ k := by
  obtain ⟨a, ha⟩ := hq
  rw [BitVec.toNat_or, hc, ha,
    Nat.two_pow_add_eq_or_of_lt (Nat.pow_lt_pow_right (by decide) (Nat.lt_succ_self k))]

theorem subtractDown_zero (value quotient denom : BitVec w) :
    subtractDown value quotient denom 0 = (quotient, value) := by
  rw [subtractDown, if_neg (by simp)]

/-- What the subtractions still to come, those of the bits from `k` on down, start from. -/
structure Left (d k : ℕ) (value quotient denom current : BitVec w) : Prop
    extends Scaled d k denom current where
  value : value.toNat < d * 2 ^ (k + 1)
  quotient : 2 ^ (k + 1) ∣ quotient.toNat

variable {d k : ℕ} {value quotient denom current : BitVec w}

theorem Left.current_ne (h : Left d k value quotient denom current) : current ≠ 0 := by
  rintro rfl
  have hpos : 0 < 2 ^ k := Nat.two_pow_pos k
  rw [← h.current] at hpos
  exact absurd hpos (by simp)

/-- One subtraction moves a bit from the value to the quotient. -/
theorem Left.subtract (hd : 0 < d) (h : Left d k value quotient denom current) :
    ∃ v q, v = (if denom ≤ value then value - denom else value) ∧
      q = (if denom ≤ value then quotient ||| current else quotient) ∧
      v.toNat < d * 2 ^ k ∧ 2 ^ k ∣ q.toNat ∧
      q.toNat + v.toNat / d = quotient.toNat + value.toNat / d ∧
      v.toNat % d = value.toNat % d := by
  have hv := h.value
  rw [Nat.pow_succ, ← Nat.mul_assoc, ← h.denom] at hv
  have hdvd : 2 ^ k ∣ quotient.toNat := (pow_dvd_pow 2 (Nat.le_succ k)).trans h.quotient
  refine ⟨_, _, rfl, rfl, ?_⟩
  split_ifs with hle
  · have hsub : (value - denom).toNat = value.toNat - d * 2 ^ k := by
      rw [BitVec.toNat_sub_of_le hle, h.denom]
    have hnat : d * 2 ^ k ≤ value.toNat := by
      rw [← h.denom]
      exact BitVec.le_def.1 hle
    have hsum : value.toNat = value.toNat - d * 2 ^ k + d * 2 ^ k := by omega
    rw [hsub, or_two_pow h.current h.quotient]
    refine ⟨?_, Nat.dvd_add hdvd dvd_rfl, ?_, ?_⟩
    · rw [← h.denom]
      omega
    · conv_rhs => rw [hsum, Nat.add_mul_div_left _ _ hd]
      omega
    · conv_rhs => rw [hsum, Nat.add_mul_mod_self_left]
  · rw [BitVec.not_le, BitVec.lt_def, h.denom] at hle
    exact ⟨hle, hdvd, rfl, rfl⟩

theorem subtractDown_left (hd : 0 < d) :
    ∀ value quotient denom current : BitVec w, Left d k value quotient denom current →
      (subtractDown value quotient denom current).1.toNat = quotient.toNat + value.toNat / d ∧
        (subtractDown value quotient denom current).2.toNat = value.toNat % d := by
  induction k with
  | zero =>
    intro value quotient denom current h
    obtain ⟨v, q, hv, hq, hlt, -, hdiv, hmod⟩ := h.subtract hd
    have hlast : current >>> 1 = 0 := by
      apply BitVec.eq_of_toNat_eq
      rw [BitVec.toNat_ushiftRight, h.current]
      rfl
    rw [Nat.pow_zero, Nat.mul_one] at hlt
    rw [subtractDown, if_pos h.current_ne, ← hv, ← hq, hlast, subtractDown_zero]
    rw [Nat.div_eq_of_lt hlt, Nat.add_zero] at hdiv
    rw [Nat.mod_eq_of_lt hlt] at hmod
    exact ⟨hdiv, hmod⟩
  | succ k ih =>
    intro value quotient denom current h
    obtain ⟨v, q, hv, hq, hlt, hdvd, hdiv, hmod⟩ := h.subtract hd
    have hhalf (a : ℕ) : a * 2 ^ (k + 1) / 2 = a * 2 ^ k := by
      rw [Nat.pow_succ, ← Nat.mul_assoc, Nat.mul_div_cancel _ (by decide)]
    have hscaled : Scaled d k (denom >>> 1) (current >>> 1) := by
      constructor
      · rw [BitVec.toNat_ushiftRight, Nat.shiftRight_eq_div_pow, h.denom, Nat.pow_one, hhalf]
      · rw [BitVec.toNat_ushiftRight, Nat.shiftRight_eq_div_pow, h.current, Nat.pow_one]
        simpa using hhalf 1
    rw [subtractDown, if_pos h.current_ne, ← hv, ← hq, ← hdiv, ← hmod]
    exact ih v q _ _ ⟨hscaled, hlt, hdvd⟩

theorem divMod_eq (value divisor : BitVec w) (hd : divisor ≠ 0) :
    (divMod value divisor).1.toNat = value.toNat / divisor.toNat ∧
      (divMod value divisor).2.toNat = value.toNat % divisor.toNat := by
  have hpos : 0 < divisor.toNat :=
    Nat.pos_of_ne_zero fun h0 => hd (BitVec.eq_of_toNat_eq h0)
  have hw : 1 < 2 ^ w := Nat.lt_of_le_of_lt hpos divisor.isLt
  have hone : Scaled divisor.toNat 0 divisor 1 := by
    constructor
    · simp
    · simp [Nat.mod_eq_of_lt hw]
  obtain ⟨j, hj, hvalue⟩ := scaleUp_scaled hpos value divisor 1 0 hone
  have h := subtractDown_left hpos value 0 _ _ ⟨hj, hvalue, by simp⟩
  simpa [divMod] using h

end BonfireCore.ShiftSubtract
