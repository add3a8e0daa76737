import Mathlib.Data.BitVec
import Mathlib.Tactic.Common

/-! Bit vectors as numbers: a concatenation, a register shifted left by one, the integer a
vector stands for and its sign. -/
namespace BonfireCore

theorem toNat_append_eq {v w : ℕ} (x : BitVec v) (y : BitVec w) :
    (x ++ y).toNat = x.toNat * 2 ^ w + y.toNat := by
  rw [BitVec.toNat_append, ← Nat.shiftLeft_add_eq_or_of_lt y.isLt, Nat.shiftLeft_eq]

/-- A bit shifted in from the right. -/
theorem extractLsb'_append_ofBool {w : ℕ} (v : BitVec (w + 1)) (b : Bool) :
    v.extractLsb' 0 w ++ BitVec.ofBool b = v + v + (BitVec.ofBool b).setWidth (w + 1) := by
  have hb : b.toNat < 2 := by cases b <;> decide
  have hlow : v.toNat % 2 ^ w < 2 ^ w := Nat.mod_lt _ (Nat.two_pow_pos w)
  have hsplit : v.toNat + v.toNat + b.toNat =
      2 ^ (w + 1) * (v.toNat / 2 ^ w) + (v.toNat % 2 ^ w * 2 + b.toNat) := by
    have hdm := Nat.div_add_mod v.toNat (2 ^ w)
    rw [Nat.pow_succ, Nat.mul_right_comm]
    omega
  have hlt : v.toNat % 2 ^ w * 2 + b.toNat < 2 ^ (w + 1) := by
    rw [Nat.pow_succ]
    omega
  apply BitVec.eq_of_toNat_eq
  rw [toNat_append_eq]
  simp only [BitVec.extractLsb'_toNat, BitVec.toNat_add, BitVec.toNat_setWidth,
    BitVec.toNat_ofBool, Nat.shiftRight_zero, Nat.pow_one, Nat.add_mod_mod, Nat.mod_add_mod]
  rw [hsplit, Nat.mul_add_mod, Nat.mod_eq_of_lt hlt]

theorem extractLsb'_append_right {w : ℕ} (v : BitVec (w + 1)) (b : Bool) :
    (v.extractLsb' 0 w ++ BitVec.ofBool b).extractLsb' 1 w = v.setWidth w := by
  have hb : b.toNat < 2 := by cases b <;> decide
  have hlow : v.toNat % 2 ^ w < 2 ^ w := Nat.mod_lt _ (Nat.two_pow_pos w)
  apply BitVec.eq_of_toNat_eq
  rw [BitVec.extractLsb'_toNat, toNat_append_eq, BitVec.toNat_ofBool, BitVec.extractLsb'_toNat,
    BitVec.toNat_setWidth, Nat.shiftRight_zero, Nat.shiftRight_eq_div_pow]
  have hdiv : (v.toNat % 2 ^ w * 2 ^ 1 + b.toNat) / 2 ^ 1 = v.toNat % 2 ^ w := by omega
  rw [hdiv, Nat.mod_eq_of_lt hlow]

theorem extractLsb'_zero_self {n : ℕ} (v : BitVec n) : v.extractLsb' 0 n = v := by
  apply BitVec.eq_of_getLsbD_eq
  intro i hi
  simp [hi]

/-- A part of a slice. -/
theorem extractLsb'_eq_of_slice {n l : ℕ} {v : BitVec n} {lo : ℕ} {x : BitVec l}
    (h : v.extractLsb' lo l = x) {a m : ℕ} (ham : a + m ≤ l) :
    v.extractLsb' (lo + a) m = x.extractLsb' a m := by
  subst h
  apply BitVec.eq_of_getLsbD_eq
  intro i hi
  have hl : a + i < l := by omega
  have hidx : lo + a + i = lo + (a + i) := by omega
  simp [hi, hl, hidx]

theorem setWidth_ofInt {w v : ℕ} (h : v ≤ w) (x : ℤ) :
    (BitVec.ofInt w x).setWidth v = BitVec.ofInt v x := by
  have hdvd : ((2 ^ v : ℕ) : ℤ) ∣ (2 ^ w : ℕ) := Int.natCast_dvd_natCast.2 (pow_dvd_pow 2 h)
  have hne (k : ℕ) : ((2 ^ k : ℕ) : ℤ) ≠ 0 := Int.natCast_ne_zero.2 (Nat.two_pow_pos k).ne'
  apply BitVec.eq_of_toNat_eq
  rw [BitVec.toNat_setWidth, BitVec.toNat_ofInt, BitVec.toNat_ofInt]
  apply Int.ofNat_inj.1
  rw [Int.natCast_emod, Int.toNat_of_nonneg (Int.emod_nonneg _ (hne w)),
    Int.toNat_of_nonneg (Int.emod_nonneg _ (hne v)), Int.emod_emod_of_dvd x hdvd]

/-- The top bit is the sign, where the integer fits. -/
theorem getLsbD_ofInt_top {w : ℕ} {x : ℤ} (h1 : -2 ^ w ≤ x) (h2 : x < 2 ^ w) :
    (BitVec.ofInt (w + 1) x).getLsbD w = decide (x < 0) := by
  have hm : (BitVec.ofInt (w + 1) x).msb = (BitVec.ofInt (w + 1) x).getLsbD w := by
    simp [BitVec.msb_eq_getLsbD_last]
  rw [← hm, BitVec.msb_eq_toInt, BitVec.toInt_ofInt_eq_self (by omega) (by simpa using h1)
    (by simpa using h2)]

end BonfireCore
