import Mathlib.Data.Nat.Basic
import Mathlib.Algebra.Order.Ring.Nat
import Mathlib.Tactic.Common

/-! Long division in base two, the most significant bit of a `w`-bit dividend first: what the
bits scanned so far give. A divisor of zero goes into everything, and leaves everything. -/
namespace BonfireCore.LongDivision

variable (w n d : ℕ)

/-- The first `k` bits of the dividend. -/
def scanned (k : ℕ) : ℕ := n / 2 ^ (w - k)

def nextBit (k : ℕ) : ℕ := scanned w n (k + 1) % 2

def remainder (k : ℕ) : ℕ := scanned w n k % d

def quotient (k : ℕ) : ℕ := if d = 0 then 2 ^ k - 1 else scanned w n k / d

/-- The remainder with the next bit brought down. -/
def trial (k : ℕ) : ℕ := 2 * remainder w n d k + nextBit w n k

variable {w n d} {k : ℕ}

theorem nextBit_lt : nextBit w n k < 2 := Nat.mod_lt _ (by decide)

theorem scanned_zero (hn : n < 2 ^ w) : scanned w n 0 = 0 := Nat.div_eq_of_lt hn

theorem scanned_full : scanned w n w = n := by simp [scanned]

theorem scanned_succ (hk : k < w) : scanned w n (k + 1) = 2 * scanned w n k + nextBit w n k := by
  have hw : w - k = w - (k + 1) + 1 := by omega
  have hdiv : scanned w n k = scanned w n (k + 1) / 2 := by
    rw [scanned, hw, Nat.pow_succ, ← Nat.div_div_eq_div_mul, scanned]
  rw [hdiv, nextBit]
  omega

theorem scanned_lt (hn : n < 2 ^ w) (hk : k ≤ w) : scanned w n k < 2 ^ k := by
  have hsplit : 2 ^ w = 2 ^ k * 2 ^ (w - k) := by rw [← Nat.pow_add, Nat.add_sub_cancel' hk]
  exact Nat.div_lt_of_lt_mul (by rwa [hsplit, Nat.mul_comm] at hn)

theorem trial_eq (hk : k < w) :
    scanned w n (k + 1) = 2 * d * (scanned w n k / d) + trial w n d k := by
  have hdiv : d * (scanned w n k / d) + remainder w n d k = scanned w n k :=
    Nat.div_add_mod _ _
  rw [scanned_succ hk, trial, Nat.mul_assoc]
  omega

theorem trial_zero (hk : k < w) : trial w n 0 k = scanned w n (k + 1) := by
  rw [trial_eq (d := 0) hk]
  simp

theorem trial_lt (hd : 0 < d) : trial w n d k < 2 * d := by
  have hr : remainder w n d k < d := Nat.mod_lt _ hd
  have hb : nextBit w n k < 2 := nextBit_lt
  unfold trial
  omega

theorem remainder_succ (hk : k < w) :
    remainder w n d (k + 1) =
      if d ≤ trial w n d k then trial w n d k - d else trial w n d k := by
  rcases Nat.eq_zero_or_pos d with rfl | hd
  · simp [remainder, trial_zero hk]
  · have ht : trial w n d k < 2 * d := trial_lt hd
    have hmod : remainder w n d (k + 1) = trial w n d k % d := by
      rw [remainder, trial_eq (d := d) hk, Nat.mul_comm 2 d, Nat.mul_assoc, Nat.mul_add_mod]
    rw [hmod]
    split_ifs with h
    · rw [Nat.mod_eq_sub_mod h, Nat.mod_eq_of_lt (by omega)]
    · exact Nat.mod_eq_of_lt (by omega)

theorem quotient_succ (hk : k < w) :
    quotient w n d (k + 1) =
      2 * quotient w n d k + if d ≤ trial w n d k then 1 else 0 := by
  rcases Nat.eq_zero_or_pos d with rfl | hd
  · have hpos : 0 < 2 ^ k := Nat.two_pow_pos k
    simp only [quotient, if_true, Nat.zero_le, Nat.pow_succ]
    omega
  · have ht : trial w n d k < 2 * d := trial_lt hd
    have hdiv : scanned w n (k + 1) / d = 2 * (scanned w n k / d) + trial w n d k / d := by
      rw [trial_eq (d := d) hk, Nat.mul_comm 2 d, Nat.mul_assoc, Nat.mul_add_div hd]
    rw [quotient, quotient, if_neg hd.ne', if_neg hd.ne', hdiv]
    congr 1
    split_ifs with h
    · rw [Nat.div_eq_sub_div hd h, Nat.div_eq_of_lt (by omega)]
    · exact Nat.div_eq_of_lt (by omega)

theorem remainder_zero (hn : n < 2 ^ w) : remainder w n d 0 = 0 := by
  simp [remainder, scanned_zero hn]

theorem quotient_zero (hn : n < 2 ^ w) : quotient w n d 0 = 0 := by
  simp [quotient, scanned_zero hn]

theorem remainder_full : remainder w n d w = n % d := by rw [remainder, scanned_full]

theorem quotient_full : quotient w n d w = if d = 0 then 2 ^ w - 1 else n / d := by
  rw [quotient, scanned_full]

theorem trial_le (hn : n < 2 ^ w) (hd : d < 2 ^ w) (hk : k < w) :
    trial w n d k < 2 ^ w + d := by
  rcases Nat.eq_zero_or_pos d with rfl | hd0
  · rw [trial_zero hk, Nat.add_zero]
    exact (scanned_lt hn hk).trans_le (Nat.pow_le_pow_right (by decide) hk)
  · have ht : trial w n d k < 2 * d := trial_lt hd0
    omega

end BonfireCore.LongDivision
