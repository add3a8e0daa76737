import BonfireCore.BitSlice
import Mathlib.Data.List.Basic

/-! Byte-enabled writes of words, and the 32-bit lanes of a wide word. -/
namespace BonfireCore

/-- The loop over the byte lanes: `old` with the enabled bytes taken from `new`. -/
def byteMerge {k n : ℕ} (we : BitVec k) (old new : BitVec n) : BitVec n :=
  (List.range k).foldl
    (fun w b => if we.getLsbD b then setSlice w (8 * b) (new.extractLsb' (8 * b) 8) else w) old

theorem getLsbD_byteMerge {k n : ℕ} (we : BitVec k) (old new : BitVec n) (i : ℕ) :
    (byteMerge we old new).getLsbD i =
      if we.getLsbD (i / 8) then new.getLsbD i else old.getLsbD i := by
  have hloop (l : ℕ) (w : BitVec n) :
      ((List.range l).foldl
        (fun w b => if we.getLsbD b then setSlice w (8 * b) (new.extractLsb' (8 * b) 8) else w)
        w).getLsbD i =
      if i / 8 < l ∧ we.getLsbD (i / 8) then new.getLsbD i else w.getLsbD i := by
    induction l with
    | zero => simp
    | succ l ih =>
      rw [List.range_succ, List.foldl_append]
      simp only [List.foldl_cons, List.foldl_nil]
      by_cases hwe : we.getLsbD l
      · rw [if_pos hwe, getLsbD_setSlice, ih]
        by_cases hn : i < n
        · by_cases hl : i / 8 = l
          · have h1 : 8 * l ≤ i ∧ i < 8 * l + 8 := by omega
            have h2 : i - 8 * l < 8 := by omega
            have h3 : 8 * l + (i - 8 * l) = i := by omega
            simp [hn, h1, h2, h3, hl, hwe]
          · have h1 : ¬ (8 * l ≤ i ∧ i < 8 * l + 8) := by omega
            have h2 : i / 8 < l + 1 ↔ i / 8 < l := by omega
            simp [hn, h1, h2]
        · have h1 : new.getLsbD i = false := BitVec.getLsbD_of_ge _ _ (by omega)
          have h2 : w.getLsbD i = false := BitVec.getLsbD_of_ge _ _ (by omega)
          simp [hn, h1, h2]
      · rw [if_neg hwe, ih]
        by_cases hl : i / 8 = l
        · simp [hl, hwe]
        · have h2 : i / 8 < l + 1 ↔ i / 8 < l := by omega
          simp [h2]
  rw [byteMerge, hloop]
  by_cases hk : i / 8 < k
  · simp [hk]
  · have : we.getLsbD (i / 8) = false := BitVec.getLsbD_of_ge _ _ (by omega)
    simp [this]

theorem byteMerge_allOnes {k n : ℕ} (h : n ≤ 8 * k) (old new : BitVec n) :
    byteMerge (BitVec.allOnes k) old new = new := by
  apply BitVec.eq_of_getLsbD_eq
  intro i hi
  have : i / 8 < k := by omega
  simp [getLsbD_byteMerge, this]

theorem byteMerge_zero {k n : ℕ} (old new : BitVec n) : byteMerge (0 : BitVec k) old new = old := by
  apply BitVec.eq_of_getLsbD_eq
  intro i hi
  simp [getLsbD_byteMerge]

/-- The 32-bit slice `[(i+1)*32 : i*32]`. -/
def wordLane {n : ℕ} (w : BitVec n) (i : ℕ) : BitVec 32 := w.extractLsb' (32 * i) 32

/-- `we` on the byte lanes of slice `i`, none on the others. -/
def laneEnable (k i : ℕ) (we : BitVec 4) : BitVec k := we.setWidth k <<< (4 * i)

/-- A byte-enabled write of slice `i` in place. -/
theorem wordLane_byteMerge {m i j : ℕ} (hj : j < m) (we : BitVec 4)
    (old : BitVec (32 * m)) (data : BitVec 32) :
    wordLane (byteMerge (laneEnable (4 * m) i we) old (data.replicate m)) j =
      if j = i then byteMerge we (wordLane old i) data else wordLane old j := by
  apply BitVec.eq_of_getLsbD_eq
  intro b hb
  have hwidth : 32 * j + b < 32 * m := by omega
  have hwe : (laneEnable (4 * m) i we).getLsbD ((32 * j + b) / 8) =
      (decide (j = i) && we.getLsbD (b / 8)) := by
    have hsplit : (32 * j + b) / 8 = 4 * j + b / 8 := by omega
    rw [hsplit, laneEnable, BitVec.getLsbD_shiftLeft, BitVec.getLsbD_setWidth]
    by_cases hji : j = i
    · subst j
      have h1 : 4 * i + b / 8 < 4 * m := by omega
      have h2 : b / 8 < 4 * m := by omega
      simp [h1, h2]
    · by_cases hlt : j < i
      · have h1 : 4 * j + b / 8 < 4 * i := by omega
        simp [h1, hji]
      · have h1 : 4 ≤ 4 * j + b / 8 - 4 * i := by omega
        have h2 : we.getLsbD (4 * j + b / 8 - 4 * i) = false := BitVec.getLsbD_of_ge _ _ h1
        simp [h2, hji]
  have hdata : (data.replicate m).getLsbD (32 * j + b) = data.getLsbD b := by
    rw [BitVec.getLsbD_replicate]
    have h1 : (32 * j + b) % 32 = b := by omega
    simp [hwidth, h1]
  rw [wordLane, BitVec.getLsbD_extractLsb', getLsbD_byteMerge, hwe, hdata]
  by_cases hji : j = i
  · subst j
    rw [if_pos rfl, getLsbD_byteMerge, wordLane, BitVec.getLsbD_extractLsb']
    simp only [hb, decide_true, Bool.true_and]
  · simp [hji, wordLane, hb]

end BonfireCore
