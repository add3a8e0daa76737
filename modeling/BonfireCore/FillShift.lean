import Mathlib.Data.BitVec
import Mathlib.Algebra.BigOperators.Group.List.Basic
import Mathlib.Tactic.Common

/-! Shifts of bit vectors that fill the places that come free with a given bit, and shift
amounts as sums of powers of two. -/
namespace BonfireCore.FillShift

variable {l : ℕ}

/-- `d` shifted left by `n`, with `fill` in the low places. -/
def left (d : BitVec l) (fill : Bool) (n : ℕ) : BitVec l :=
  d <<< n ||| if fill then (BitVec.allOnes n).setWidth l else 0

/-- `d` shifted right by `n`, with `fill` in the high places. -/
def right (d : BitVec l) (fill : Bool) (n : ℕ) : BitVec l :=
  d >>> n ||| if fill then ~~~(BitVec.allOnes l >>> n) else 0

theorem getLsbD_left (d : BitVec l) (fill : Bool) (n i : ℕ) :
    (left d fill n).getLsbD i =
      (decide (i < l) && if i < n then fill else d.getLsbD (i - n)) := by
  unfold left
  by_cases hi : i < l
  · have hsub : i - n < l := by omega
    by_cases hn : i < n <;> cases fill <;> simp [hi, hn, hsub]
  · cases fill <;> simp [hi]

theorem getLsbD_right (d : BitVec l) (fill : Bool) (n i : ℕ) :
    (right d fill n).getLsbD i =
      (decide (i < l) && if n + i < l then d.getLsbD (n + i) else fill) := by
  unfold right
  by_cases hi : i < l
  · by_cases hn : n + i < l
    · cases fill <;> simp [hi, hn]
    · have hd : d.getLsbD (n + i) = false := BitVec.getLsbD_of_ge _ _ (by omega)
      cases fill <;> simp [hi, hn, hd]
  · have hd : d.getLsbD (n + i) = false := BitVec.getLsbD_of_ge _ _ (by omega)
    cases fill <;> simp [hi, hd]

@[simp] theorem left_zero (d : BitVec l) (fill : Bool) : left d fill 0 = d := by
  apply BitVec.eq_of_getLsbD_eq
  intro i hi
  rw [getLsbD_left]
  simp [hi]

theorem left_add (d : BitVec l) (fill : Bool) (m n : ℕ) :
    left (left d fill m) fill n = left d fill (m + n) := by
  apply BitVec.eq_of_getLsbD_eq
  intro i hi
  rw [getLsbD_left, getLsbD_left, getLsbD_left]
  by_cases hn : i < n
  · have h : i < m + n := by omega
    simp [hi, hn, h]
  · have hsub : i - n < l := by omega
    have hiff : i - n < m ↔ i < m + n := by omega
    have hidx : i - n - m = i - (m + n) := by omega
    simp [hi, hn, hsub, hiff, hidx]

theorem getLsbD_reverse {d : BitVec l} {i : ℕ} (hi : i < l) :
    d.reverse.getLsbD i = d.getLsbD (l - 1 - i) := by
  rw [BitVec.getLsbD_reverse, BitVec.getMsbD_eq_getLsbD]
  simp only [hi, decide_true, Bool.true_and]

/-- Between two reversals a left shift is a right shift. -/
theorem reverse_left (d : BitVec l) (fill : Bool) (n : ℕ) :
    (left d.reverse fill n).reverse = right d fill n := by
  apply BitVec.eq_of_getLsbD_eq
  intro i hi
  have hback : l - 1 - i < l := by omega
  rw [getLsbD_reverse hi, getLsbD_left, getLsbD_right]
  by_cases hn : n + i < l
  · have hge : ¬ l - 1 - i < n := by omega
    have hsub : l - 1 - i - n < l := by omega
    have hidx : l - 1 - (l - 1 - i - n) = n + i := by omega
    rw [getLsbD_reverse hsub, hidx]
    simp only [hi, hback, hge, hn, decide_true, Bool.true_and, if_false, if_true]
  · have hlt : l - 1 - i < n := by omega
    simp only [hi, hback, hlt, hn, decide_true, Bool.true_and, if_false, if_true]

theorem right_false (d : BitVec l) (n : ℕ) : right d false n = d >>> n := by
  simp [right]

/-- With the sign in the free places it is the arithmetic shift. -/
theorem right_msb (d : BitVec l) (n : ℕ) : right d d.msb n = d.sshiftRight n := by
  apply BitVec.eq_of_getLsbD_eq
  intro i hi
  have hge : ¬ l ≤ i := by omega
  rw [getLsbD_right, BitVec.getLsbD_sshiftRight]
  simp only [hi, hge, decide_true, decide_false, Bool.not_false, Bool.true_and]

/-- The powers of two chosen from `low` on. -/
def chosen (shift : ℕ → Bool) (low n : ℕ) : ℕ :=
  ((List.range n).map fun i => if shift i then 2 ^ (low + i) else 0).sum

theorem chosen_succ (shift : ℕ → Bool) (low n : ℕ) :
    chosen shift low (n + 1) = chosen shift low n + if shift n then 2 ^ (low + n) else 0 := by
  rw [chosen, List.range_succ, List.map_append, List.sum_append, List.map_singleton,
    List.sum_singleton]
  rfl

@[simp] theorem chosen_zero (shift : ℕ → Bool) (low : ℕ) : chosen shift low 0 = 0 := rfl

theorem chosen_succ_true {shift : ℕ → Bool} {n : ℕ} (h : shift n = true) (low : ℕ) :
    chosen shift low (n + 1) = chosen shift low n + 2 ^ (low + n) := by
  rw [chosen_succ, if_pos h]

theorem chosen_succ_false {shift : ℕ → Bool} {n : ℕ} (h : shift n = false) (low : ℕ) :
    chosen shift low (n + 1) = chosen shift low n := by
  simp [chosen_succ, h]

/-- The bits of an amount choose its low part. -/
theorem chosen_getLsbD {w : ℕ} (amount : BitVec w) (n : ℕ) :
    chosen (fun i => amount.getLsbD i) 0 n = amount.toNat % 2 ^ n := by
  induction n with
  | zero => simp [chosen, Nat.mod_one]
  | succ n ih =>
    have hbit : amount.getLsbD n = decide (amount.toNat / 2 ^ n % 2 = 1) := by
      rw [← BitVec.testBit_toNat, Nat.testBit_eq_decide_div_mod_eq]
    rw [chosen_succ, ih, hbit, Nat.mod_pow_succ, Nat.zero_add]
    rcases Nat.mod_two_eq_zero_or_one (amount.toNat / 2 ^ n) with h | h <;> simp [h]

end BonfireCore.FillShift
