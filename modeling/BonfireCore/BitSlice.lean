import Mathlib.Data.BitVec
import Mathlib.Tactic.Common

/-! Slice assignment on bit vectors: the register `v` after `v[lo + l : lo] = x`. -/
namespace BonfireCore

/-- `v` with the `l` bits from `lo` on replaced by `x`. -/
def setSlice {n l : ℕ} (v : BitVec n) (lo : ℕ) (x : BitVec l) : BitVec n :=
  v &&& ~~~((BitVec.allOnes l).setWidth n <<< lo) ||| x.setWidth n <<< lo

theorem getLsbD_setSlice {n l : ℕ} (v : BitVec n) (lo : ℕ) (x : BitVec l) (i : ℕ) :
    (setSlice v lo x).getLsbD i =
      (decide (i < n) && if lo ≤ i ∧ i < lo + l then x.getLsbD (i - lo) else v.getLsbD i) := by
  by_cases hi : i < n
  · by_cases hlo : lo ≤ i
    · by_cases hhi : i < lo + l
      · have h : i - lo < l := by omega
        simp [setSlice, hi, hlo, hhi, h, Nat.not_lt.mpr hlo]
      · have h : ¬ i - lo < l := by omega
        have hx : x.getLsbD (i - lo) = false := BitVec.getLsbD_of_ge _ _ (by omega)
        simp [setSlice, hi, hlo, hhi, h, hx]
    · have h : i < lo := by omega
      simp [setSlice, hi, hlo, h]
  · have hv : v.getLsbD i = false := BitVec.getLsbD_of_ge _ _ (by omega)
    simp [setSlice, hi, hv]

/-- Reading back the slice just written. -/
@[simp] theorem extractLsb'_setSlice_self {n l : ℕ} (v : BitVec n) (lo : ℕ) (x : BitVec l)
    (h : lo + l ≤ n) : (setSlice v lo x).extractLsb' lo l = x := by
  apply BitVec.eq_of_getLsbD_eq
  intro i hi
  have h1 : lo + i < n := by omega
  rw [BitVec.getLsbD_extractLsb', getLsbD_setSlice]
  simp [h1, hi]

/-- A slice assignment leaves every disjoint slice alone. -/
theorem extractLsb'_setSlice_of_disjoint {n l : ℕ} (v : BitVec n) (lo : ℕ) (x : BitVec l)
    {lo' l' : ℕ} (h : lo' + l' ≤ lo ∨ lo + l ≤ lo') :
    (setSlice v lo x).extractLsb' lo' l' = v.extractLsb' lo' l' := by
  apply BitVec.eq_of_getLsbD_eq
  intro i hi
  have hout : ¬ (lo ≤ lo' + i ∧ lo' + i < lo + l) := by omega
  by_cases hn : lo' + i < n
  · rw [BitVec.getLsbD_extractLsb', BitVec.getLsbD_extractLsb', getLsbD_setSlice, if_neg hout]
    simp [hi, hn]
  · have hv : v.getLsbD (lo' + i) = false := BitVec.getLsbD_of_ge _ _ (by omega)
    rw [BitVec.getLsbD_extractLsb', BitVec.getLsbD_extractLsb', getLsbD_setSlice, hv]
    simp [hn]

end BonfireCore
