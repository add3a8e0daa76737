import BonfireCore.UartTransmit

/-! The receiver at the other end of a transmitter's line: where it samples, and what it hears
of a run. -/
namespace BonfireCore

open SerialLine (Waveform symbol frame)

namespace UartRxFsm
variable (t : RxTiming)

def run (f : UartRxFsm) (xs : List Bool) : UartRxFsm := xs.foldl (step · t) f

/-- The bytes that arrive while the samples come in. -/
def heard : UartRxFsm → List Bool → List (BitVec 8 × Bool)
  | _, [] => []
  | f, x :: xs => (f.arrival x).toList ++ heard (f.step t x) xs

variable {t} {f : UartRxFsm} {xs ys : List Bool}

theorem run_append : run t f (xs ++ ys) = run t (run t f xs) ys := List.foldl_append

theorem heard_append : heard t f (xs ++ ys) = heard t f xs ++ heard t (run t f xs) ys := by
  induction xs generalizing f with
  | nil => rfl
  | cons x xs ih => simp only [List.cons_append, heard, ih, List.append_assoc, run, List.foldl_cons]

theorem heard_mono (h : xs <+: ys) : heard t f xs <+: heard t f ys := by
  obtain ⟨zs, rfl⟩ := h
  exact ⟨_, heard_append.symm⟩

/-- Between frames. -/
structure Rests (f : UartRxFsm) : Prop where
  busy : f.busy = false
  startCandidate : f.startCandidate = false
  prev : f.prev = true

theorem Rests.step_high (h : f.Rests) : f.step t true = f ∧ f.arrival true = none := by
  obtain ⟨hb, hc, hp⟩ := h
  constructor
  · have hstep : f.step t true = { f with prev := true } := by simp [step, hb, hc]
    rw [hstep, ← hp]
  · simp [arrival, hb]

/-- The timing registers for a divider. -/
structure For (t : RxTiming) (D : ℕ) : Prop where
  divider : t.divider.toNat = D
  startQual : t.startQual.toNat = D / 2 + D / 4 + D / 16
  startSample : t.startSample.toNat = D / 2 + D / 8 + D / 16

/-- The sample at which the first data bit is looked at, counted from the falling edge. -/
def firstSample (D : ℕ) : ℕ := (D / 2 + D / 4 + D / 16) + (D / 2 + D / 8 + D / 16) + 2

/-- What the state machine knows of `b` when data bit `j` is next, `8` for the stop bit. -/
structure Collected (f : UartRxFsm) (b : BitVec 8) (j : ℕ) : Prop where
  busy : f.busy = true
  startCandidate : f.startCandidate = false
  stopBit : f.stopBit = decide (j = 8)
  bitIndex : f.bitIndex.toNat = min j 7
  shift : ∀ k < j, k < 8 → f.shift.getLsbD k = b.getLsbD k

/-- The state machine after `n` samples of a frame. -/
inductive Phase (D : ℕ) (b : BitVec 8) (f : UartRxFsm) : ℕ → Prop
  | waiting (h : f.Rests) : Phase D b f 0
  | candidate {n} (hc : f.startCandidate = true) (hticks : f.startTicks.toNat + 1 = n)
    (hn : n ≤ D / 2 + D / 4 + D / 16 + 1) : Phase D b f n
  | counting {n} (j : ℕ) (hj : j ≤ 8) (h : f.Collected b j) (hphase : f.samplePhase = 0)
    (hones : f.sampleOnes = 0) (hn : n + f.divCount.toNat = firstSample D + j * (D + 1)) :
    Phase D b f n
  | sampling {n} (j u : ℕ) (hj : j ≤ 8) (h : f.Collected b j) (hu : u = 1 ∨ u = 2)
    (hdiv : f.divCount = 0) (hphase : f.samplePhase.toNat = u)
    (hones : f.sampleOnes.toNat = if symbol b (j + 1) then u else 0)
    (hn : n = firstSample D + j * (D + 1) + u) : Phase D b f n
  | done {n} (h : f.Rests) (hn : firstSample D + 8 * (D + 1) + 3 ≤ n) : Phase D b f n

/-- All samples of symbol `j` lie between its ends. -/
theorem symbol_of_index {D m n : ℕ} (b : BitVec 8) (h1 : m * (D + 1) ≤ n)
    (h2 : n < (m + 1) * (D + 1)) : symbol b (n / (D + 1)) = symbol b m := by
  rw [Nat.div_eq_of_lt_le h1 h2]

/-- The three samples of data bit `j` are inside that bit. -/
theorem window {D : ℕ} (hD : 3 ≤ D) (j : ℕ) {u : ℕ} (hu : u ≤ 2) :
    (j + 1) * (D + 1) ≤ firstSample D + j * (D + 1) + u ∧
      firstSample D + j * (D + 1) + u < (j + 2) * (D + 1) := by
  have hlow : D + 1 ≤ firstSample D := by
    unfold firstSample
    omega
  have hhigh : firstSample D + 2 < 2 * (D + 1) := by
    unfold firstSample
    omega
  rw [Nat.add_mul, Nat.add_mul, Nat.one_mul]
  omega

variable {D n : ℕ} {b : BitVec 8}

theorem arrival_none (h : f.startCandidate = true ∨ f.busy = false ∨ f.divCount ≠ 0#16 ∨
    f.samplePhase ≠ 2#2 ∨ f.stopBit = false) (x : Bool) : f.arrival x = none := by
  unfold arrival
  rcases h with h | h | h | h | h <;> simp [h]

/-- The falling edge. -/
theorem Rests.step_low (h : f.Rests) : Phase D b (f.step t false) 1 := by
  obtain ⟨hb, hc, hp⟩ := h
  have hstep : f.step t false =
      { f with prev := false, startCandidate := true, startTicks := 0 } := by
    simp [step, hb, hc, hp]
  rw [hstep]
  exact .candidate rfl rfl (by omega)

/-- A clock of the start bit before it is accepted, or the one that accepts it. -/
theorem step_candidate (ht : For t D) (hD : D < 2 ^ 16) (hc : f.startCandidate = true)
    (hticks : f.startTicks.toNat + 1 = n) (hn : n ≤ D / 2 + D / 4 + D / 16 + 1) :
    Phase D b (f.step t false) (n + 1) := by
  by_cases hq : f.startTicks = t.startQual
  · have hstep : f.step t false =
        { f with
          prev := false
          startCandidate := false
          startTicks := 0
          busy := true
          stopBit := false
          bitIndex := 0
          samplePhase := 0
          sampleOnes := 0
          divCount := t.startSample } := by
      simp [step, hc, hq]
    rw [hstep]
    refine .counting 0 (by omega) ⟨rfl, rfl, rfl, rfl, fun k hk => absurd hk (by omega)⟩ rfl rfl ?_
    show n + 1 + t.startSample.toNat = _
    have hqual := ht.startQual
    rw [hq] at hticks
    rw [ht.startSample, firstSample]
    omega
  · have hstep : f.step t false =
        { f with prev := false, startTicks := f.startTicks + 1 } := by
      simp [step, hc, hq]
    have hne : f.startTicks.toNat ≠ t.startQual.toNat := fun h => hq (BitVec.eq_of_toNat_eq h)
    rw [ht.startQual] at hne
    rw [hstep]
    refine .candidate hc ?_ (by omega)
    show (f.startTicks + 1).toNat + 1 = n + 1
    bv_omega

theorem Collected.of_eq {g : UartRxFsm} {j : ℕ} (h : f.Collected b j)
    (hg : g = { f with
      prev := g.prev
      divCount := g.divCount
      samplePhase := g.samplePhase
      sampleOnes := g.sampleOnes }) : g.Collected b j := by
  rw [hg]
  exact ⟨h.busy, h.startCandidate, h.stopBit, h.bitIndex, h.shift⟩

/-- A clock between two bits. -/
theorem step_counting {j : ℕ} (hj : j ≤ 8) (h : f.Collected b j) (hphase : f.samplePhase = 0)
    (hones : f.sampleOnes = 0) (hn : n + f.divCount.toNat = firstSample D + j * (D + 1))
    (hdiv : f.divCount ≠ 0#16) (x : Bool) : Phase D b (f.step t x) (n + 1) := by
  have hstep : f.step t x = { f with prev := x, divCount := f.divCount - 1 } := by
    simp [step, h.startCandidate, h.busy, hdiv]
  rw [hstep]
  refine .counting j hj (h.of_eq rfl) hphase hones ?_
  show n + 1 + (f.divCount - 1).toNat = _
  bv_omega

/-- The first and the second sample of a bit. -/
theorem step_sample {j : ℕ} (h : f.Collected b j) (hdiv : f.divCount = 0#16)
    (hphase : f.samplePhase ≠ 2#2) (x : Bool) :
    f.step t x = { f with
      prev := x
      sampleOnes := if x then f.sampleOnes + 1 else f.sampleOnes
      samplePhase := f.samplePhase + 1
      divCount := 0 } := by
  simp [step, h.startCandidate, h.busy, hdiv, hphase]

/-- Three equal samples are that bit. -/
theorem vote_eq {v : Bool} (hones : f.sampleOnes.toNat = if v then 2 else 0) : f.vote v = v := by
  cases v with
  | true =>
    have h2 : f.sampleOnes = 2#3 := BitVec.eq_of_toNat_eq hones
    simp [vote, h2]
  | false =>
    have h0 : f.sampleOnes = 0#3 := BitVec.eq_of_toNat_eq hones
    simp [vote, h0]

theorem getLsbD_collect (v : BitVec 8) (x : Bool) (j k : ℕ) :
    (setSlice v j (BitVec.ofBool x)).getLsbD k =
      if k = j then decide (k < 8) && x else v.getLsbD k := by
  rw [getLsbD_setSlice]
  by_cases hk : k = j
  · subst hk
    simp
  · have hout : ¬ (j ≤ k ∧ k < j + 1) := by omega
    rw [if_neg hout, if_neg hk]
    by_cases h8 : k < 8
    · simp [h8]
    · simp [BitVec.getLsbD_of_ge v k (by omega)]

/-- The third sample of a data bit. -/
theorem step_data (ht : For t D) (hD : 3 ≤ D) {j : ℕ} (hj : j < 8) (h : f.Collected b j)
    (hdiv : f.divCount = 0#16) (hphase : f.samplePhase = 2#2)
    (hones : f.sampleOnes.toNat = if symbol b (j + 1) then 2 else 0)
    (hn : n = firstSample D + j * (D + 1) + 2) :
    Phase D b (f.step t (symbol b (j + 1))) (n + 1) := by
  have hidx : f.bitIndex.toNat = j := by
    rw [h.bitIndex]
    omega
  have hstop : f.stopBit = false := by
    rw [h.stopBit]
    exact decide_eq_false (by omega)
  have hbit : symbol b (j + 1) = b.getLsbD j := by
    simp [symbol, show j + 1 ≤ 8 by omega]
  have hstep : f.step t (symbol b (j + 1)) =
      { f with
        prev := symbol b (j + 1)
        samplePhase := 0
        sampleOnes := 0
        divCount := t.divider - 2
        shift := setSlice f.shift j (BitVec.ofBool (b.getLsbD j))
        stopBit := f.bitIndex = 7#4
        bitIndex := if f.bitIndex = 7#4 then f.bitIndex else f.bitIndex + 1 } := by
    have hvote : f.vote (b.getLsbD j) = b.getLsbD j := by
      rw [← hbit]
      exact vote_eq hones
    simp [step, h.startCandidate, h.busy, hdiv, hphase, hstop, hidx, hbit, hvote]
  have h7 : f.bitIndex = 7#4 ↔ j = 7 := by
    rw [← hidx]
    exact ⟨fun h => by rw [h]; rfl, fun h => BitVec.eq_of_toNat_eq h⟩
  rw [hstep]
  refine .counting (j + 1) hj ⟨h.busy, h.startCandidate, ?_, ?_, ?_⟩ rfl rfl ?_
  · show decide (f.bitIndex = 7#4) = decide (j + 1 = 8)
    rw [decide_eq_decide, h7]
    omega
  · show (if f.bitIndex = 7#4 then f.bitIndex else f.bitIndex + 1).toNat = min (j + 1) 7
    by_cases hj7 : j = 7
    · rw [if_pos (h7.2 hj7), hidx, hj7]
      rfl
    · rw [if_neg fun h => hj7 (h7.1 h)]
      have hsucc : (f.bitIndex + 1).toNat = j + 1 := by bv_omega
      rw [hsucc]
      omega
  · intro k hk hk8
    show (setSlice f.shift j (BitVec.ofBool (b.getLsbD j))).getLsbD k = b.getLsbD k
    rw [getLsbD_collect]
    by_cases hkj : k = j
    · rw [if_pos hkj, hkj]
      simp [show j < 8 from hj]
    · rw [if_neg hkj]
      exact h.shift k (by omega) hk8
  · show n + 1 + (t.divider - 2).toNat = _
    have hsub : (t.divider - 2).toNat = D - 2 := by
      have hdivider := ht.divider
      bv_omega
    rw [hsub, hn, Nat.add_mul]
    omega

/-- The third sample of the stop bit. -/
theorem step_stop (h : f.Collected b 8) (hdiv : f.divCount = 0#16) (hphase : f.samplePhase = 2#2)
    (hones : f.sampleOnes.toNat = 2) :
    (f.step t true).Rests ∧ f.arrival true = some (b, false) := by
  have hstop : f.stopBit = true := h.stopBit
  have hvote : f.vote true = true := vote_eq hones
  have hshift : f.shift = b :=
    BitVec.eq_of_getLsbD_eq fun k hk => h.shift k hk hk
  constructor
  · constructor <;> simp [step, h.startCandidate, h.busy, hdiv, hphase, hstop]
  · simp [arrival, h.startCandidate, h.busy, hdiv, hphase, hstop, hvote, hshift]

/-- The samples of data bit `j`, or of the stop bit. -/
theorem symbol_of_window (hD : 3 ≤ D) (b : BitVec 8) (j : ℕ) {u : ℕ} (hu : u ≤ 2)
    (hn : n = firstSample D + j * (D + 1) + u) : symbol b (n / (D + 1)) = symbol b (j + 1) := by
  obtain ⟨hlow, hhigh⟩ := window hD j hu
  rw [hn]
  exact symbol_of_index b hlow hhigh

theorem step_first (hD : 3 ≤ D) {j : ℕ} (hj : j ≤ 8) (h : f.Collected b j)
    (hphase : f.samplePhase = 0#2) (hones : f.sampleOnes = 0#3) (hdiv : f.divCount = 0#16)
    (hn : n = firstSample D + j * (D + 1)) :
    Phase D b (f.step t (symbol b (n / (D + 1)))) (n + 1) := by
  have hne : f.samplePhase ≠ 2#2 := by
    rw [hphase]
    decide
  rw [symbol_of_window hD b j (Nat.zero_le 2) hn, step_sample h hdiv hne]
  refine .sampling j 1 hj (h.of_eq rfl) (.inl rfl) rfl ?_ ?_ (by rw [hn])
  · rw [hphase]
    rfl
  · rw [hones]
    cases symbol b (j + 1) <;> rfl

theorem step_second (hD : 3 ≤ D) {j : ℕ} (hj : j ≤ 8) (h : f.Collected b j)
    (hphase : f.samplePhase.toNat = 1) (hdiv : f.divCount = 0#16)
    (hones : f.sampleOnes.toNat = if symbol b (j + 1) then 1 else 0)
    (hn : n = firstSample D + j * (D + 1) + 1) :
    Phase D b (f.step t (symbol b (n / (D + 1)))) (n + 1) := by
  have hphase' : f.samplePhase = 1#2 := BitVec.eq_of_toNat_eq hphase
  have hne : f.samplePhase ≠ 2#2 := by
    rw [hphase']
    decide
  rw [symbol_of_window hD b j (by omega) hn, step_sample h hdiv hne]
  refine .sampling j 2 hj (h.of_eq rfl) (.inr rfl) rfl ?_ ?_ (by rw [hn])
  · rw [hphase']
    rfl
  · cases hv : symbol b (j + 1) with
    | true =>
      rw [hv] at hones
      have hone : f.sampleOnes = 1#3 := BitVec.eq_of_toNat_eq hones
      rw [hone]
      rfl
    | false =>
      rw [hv] at hones
      exact hones

/-- A sample of a frame. -/
theorem Phase.step (ht : For t D) (hD : 3 ≤ D) (hmax : D < 2 ^ 16) (h : Phase D b f n)
    (hn : n < 10 * (D + 1)) :
    Phase D b (f.step t (symbol b (n / (D + 1)))) (n + 1) ∧
      f.arrival (symbol b (n / (D + 1))) =
        if n = firstSample D + 8 * (D + 1) + 2 then some (b, false) else none := by
  have hlow : D + 1 ≤ firstSample D := by
    unfold firstSample
    omega
  have hstart (hlt : n < D + 1) : symbol b (n / (D + 1)) = false := by
    rw [Nat.div_eq_of_lt hlt]
    rfl
  have hrow {j : ℕ} (hj : j ≤ 8) : j * (D + 1) ≤ 8 * (D + 1) := Nat.mul_le_mul_right _ hj
  cases h with
  | waiting h =>
    rw [hstart (Nat.succ_pos D)]
    have hne : ¬ 0 = firstSample D + 8 * (D + 1) + 2 := by omega
    exact ⟨h.step_low, by rw [if_neg hne, arrival_none (.inr (.inl h.busy))]⟩
  | candidate hc hticks hn =>
    rw [hstart (by omega)]
    have hne : ¬ n = firstSample D + 8 * (D + 1) + 2 := by omega
    exact ⟨step_candidate ht hmax hc hticks hn, by rw [if_neg hne, arrival_none (.inl hc)]⟩
  | counting j hj h hphase hones hsum =>
    have hphase2 : f.samplePhase ≠ 2#2 := by
      rw [hphase]
      decide
    have hne : ¬ n = firstSample D + 8 * (D + 1) + 2 := by
      have := hrow hj
      omega
    rw [arrival_none (.inr (.inr (.inr (.inl hphase2)))), if_neg hne]
    by_cases hdiv : f.divCount = 0#16
    · have hn0 : n = firstSample D + j * (D + 1) := by
        rw [hdiv] at hsum
        exact hsum
      exact ⟨step_first hD hj h hphase hones hdiv hn0, rfl⟩
    · exact ⟨step_counting hj h hphase hones hsum hdiv _, rfl⟩
  | sampling j u hj h hu hdiv hphase hones hsum =>
    rcases hu with rfl | rfl
    · have hphase2 : f.samplePhase ≠ 2#2 := by
        intro h2
        rw [h2] at hphase
        exact absurd hphase (by decide)
      have hne : ¬ n = firstSample D + 8 * (D + 1) + 2 := by
        have := hrow hj
        omega
      rw [arrival_none (.inr (.inr (.inr (.inl hphase2)))), if_neg hne]
      exact ⟨step_second hD hj h hphase hdiv hones hsum, rfl⟩
    · have hphase2 : f.samplePhase = 2#2 := BitVec.eq_of_toNat_eq hphase
      rw [symbol_of_window hD b j (Nat.le_refl 2) hsum]
      by_cases h8 : j = 8
      · subst h8
        obtain ⟨hrests, harr⟩ := step_stop (t := t) h hdiv hphase2 hones
        rw [if_pos hsum]
        exact ⟨.done hrests (by omega), harr⟩
      · have hne : ¬ n = firstSample D + 8 * (D + 1) + 2 := by
          have : j * (D + 1) + (D + 1) ≤ 8 * (D + 1) := by
            rw [← Nat.succ_mul]
            exact Nat.mul_le_mul_right _ (by omega)
          omega
        have hstop : f.stopBit = false := by
          rw [h.stopBit]
          exact decide_eq_false h8
        rw [if_neg hne, arrival_none (.inr (.inr (.inr (.inr hstop))))]
        exact ⟨step_data ht hD (by omega) h hdiv hphase2 hones hsum, rfl⟩
  | done h hdone =>
    have hlast : symbol b (n / (D + 1)) = true := by
      rw [symbol_of_index (m := 9) b (by omega) (by omega)]
      rfl
    have hne : ¬ n = firstSample D + 8 * (D + 1) + 2 := by omega
    obtain ⟨hstep, harr⟩ := h.step_high (t := t)
    rw [hlast, hstep, harr, if_neg hne]
    exact ⟨.done h (by omega), rfl⟩

/-- After a frame the receiver has heard its byte, without a framing error, and rests. -/
theorem run_frame (ht : For t D) (hD : 3 ≤ D) (hmax : D < 2 ^ 16) (h : f.Rests) (b : BitVec 8) :
    (run t f (frame (D + 1) b)).Rests ∧ heard t f (frame (D + 1) b) = [(b, false)] := by
  have hsamples (m : ℕ) (hm : m ≤ 10 * (D + 1)) :
      let xs := (List.range m).map fun n => symbol b (n / (D + 1))
      Phase D b (run t f xs) m ∧
        heard t f xs = if firstSample D + 8 * (D + 1) + 2 < m then [(b, false)] else [] := by
    induction m with
    | zero => exact ⟨.waiting h, rfl⟩
    | succ m ih =>
      obtain ⟨hphase, hheard⟩ := ih (by omega)
      obtain ⟨hnext, harr⟩ := hphase.step ht hD hmax (by omega)
      simp only [List.range_succ, List.map_append, List.map_singleton]
      refine ⟨by rw [run_append]; exact hnext, ?_⟩
      rw [heard_append, hheard]
      simp only [heard, harr, List.append_nil]
      split_ifs <;> first | rfl | omega
  obtain ⟨hphase, hheard⟩ := hsamples (10 * (D + 1)) (Nat.le_refl _)
  have hhigh : firstSample D + 2 < 2 * (D + 1) := by
    unfold firstSample
    omega
  rw [SerialLine.frame_eq_map (Nat.succ_pos D)]
  refine ⟨?_, by rw [hheard, if_pos (by omega)]⟩
  -- the other phases are over by then
  cases hphase with
  | candidate hc hticks hn => omega
  | counting j hj h hphase hones hsum =>
    have hrow : j * (D + 1) ≤ 8 * (D + 1) := Nat.mul_le_mul_right _ hj
    omega
  | sampling j u hj h hu hdiv hphase hones hsum =>
    have hrow : j * (D + 1) ≤ 8 * (D + 1) := Nat.mul_le_mul_right _ hj
    omega
  | done h _ => exact h

/-- Any idle time may stand between the frames. -/
theorem run_waveform (ht : For t D) (hD : 3 ≤ D) (hmax : D < 2 ^ 16) (h : f.Rests)
    {fs : List (ℕ × BitVec 8)} {l : List Bool} (hl : Waveform fs l)
    (hfs : ∀ p ∈ fs, p.1 = D + 1) :
    (run t f l).Rests ∧ heard t f l = fs.map fun p => (p.2, false) := by
  induction hl with
  | nil => exact ⟨h, rfl⟩
  | idle _ ih =>
    obtain ⟨hrests, hheard⟩ := ih hfs
    obtain ⟨hstep, harr⟩ := hrests.step_high (t := t)
    rw [run_append, heard_append, hheard]
    constructor
    · show ((run t f _).step t true).Rests
      rwa [hstep]
    · simp [heard, harr]
  | @frame fs l ticks b _ ih =>
    obtain ⟨hrests, hheard⟩ := ih fun p hp => hfs p (List.mem_append_left _ hp)
    obtain rfl : ticks = D + 1 := hfs (ticks, b) (by simp)
    obtain ⟨hrests', hheard'⟩ := run_frame ht hD hmax hrests b
    rw [run_append, heard_append, hheard, hheard']
    exact ⟨hrests', by simp⟩

/-- A line that stays high. -/
theorem run_high (h : f.Rests) {xs : List Bool} (hxs : ∀ x ∈ xs, x = true) :
    run t f xs = f ∧ heard t f xs = [] := by
  induction xs with
  | nil => exact ⟨rfl, rfl⟩
  | cons x xs ih =>
    obtain rfl := hxs x List.mem_cons_self
    obtain ⟨hstep, harr⟩ := h.step_high (t := t)
    obtain ⟨hrun, hheard⟩ := ih fun y hy => hxs y (List.mem_cons_of_mem _ hy)
    refine ⟨?_, ?_⟩
    · show run t (f.step t true) xs = f
      rw [hstep, hrun]
    · simp [heard, hstep, harr, hheard]

end UartRxFsm

variable {fifoBits : ℕ}

/-- A transmitter and a receiver on one line. -/
structure UartLink (fifoBits : ℕ) where
  sender : TxBench fifoBits := {}
  receiver : Uart fifoBits := {}
  /-- What the receiver's data register took, with the framing error flag. -/
  received : List (BitVec 8 × Bool) := []
  deriving DecidableEq, Repr

structure UartLinkInput where
  sender : UartInput := {}
  receiver : DbusRequest 32 := {}
  deriving DecidableEq, Repr

namespace UartLink
variable (s : UartLink fifoBits) (i : UartLinkInput)

def receiverInput : UartInput where
  dbus := i.receiver
  rx := s.sender.uart.tx.line

def arrival : Option (BitVec 8 × Bool) := s.receiver.rx.fsm.arrival s.receiver.rx.sync2

def step : UartLink fifoBits where
  sender := s.sender.step i.sender
  receiver := s.receiver.step (s.receiverInput i)
  received := s.received ++ s.arrival.toList

def machine (fifoBits : ℕ) : Clocked (UartLink fifoBits) UartLinkInput where
  init := {}
  step := step

/-- Both ends are set to the divider `D` before the first byte is written, and stay so. -/
structure Allowed (D : ℕ) : Prop where
  sends : s.sender.accepts i.sender = true →
    s.sender.uart.regs.txDivider.toNat = D ∧ s.receiver.regs.txDivider.toNat = D
  sender : i.sender.controlWrite = true →
    i.sender.divider.toNat = D ∨ s.sender.accepted = []
  receiver : (s.receiverInput i).controlWrite = true →
    (s.receiverInput i).divider.toNat = D ∨
      s.sender.accepted = [] ∧ s.sender.accepts i.sender = false

instance (D : ℕ) : Decidable (s.Allowed i D) :=
  decidable_of_iff ((s.sender.accepts i.sender = true →
      s.sender.uart.regs.txDivider.toNat = D ∧ s.receiver.regs.txDivider.toNat = D) ∧
    (i.sender.controlWrite = true → i.sender.divider.toNat = D ∨ s.sender.accepted = []) ∧
    ((s.receiverInput i).controlWrite = true → (s.receiverInput i).divider.toNat = D ∨
      s.sender.accepted = [] ∧ s.sender.accepts i.sender = false))
    ⟨fun h => ⟨h.1, h.2.1, h.2.2⟩, fun h => ⟨h.sends, h.sender, h.receiver⟩⟩

/-- The bytes taken so far are the first ones sent, none with a framing error; each sets RX
ready, also against a read, and nothing else does. -/
structure Receives : Prop where
  order : s.received <+: s.sender.accepted.map fun p => (p.2, false)
  takes : ∀ i : UartLinkInput, ∃ new : Option (BitVec 8),
    (s.step i).received = s.received ++ (new.map fun b => (b, false)).toList ∧
    (s.step i).receiver.rx.data = new.getD s.receiver.rx.data ∧
    (s.step i).receiver.rx.ready =
      (new.isSome || s.receiver.rx.ready && !(s.receiverInput i).rxRegRead) ∧
    (s.step i).receiver.rx.framingError =
      (new.isNone && (s.receiver.rx.framingError && !(s.receiverInput i).rxRegRead))

end UartLink

/-- The timing registers follow the divider. -/
structure UartRegs.Consistent (r : UartRegs fifoBits) : Prop where
  startQual : r.rxStartQualTicks = (r.txDivider >>> 1) + (r.txDivider >>> 2) + (r.txDivider >>> 4)
  startSample :
    r.rxStartSampleTicks = (r.txDivider >>> 1) + (r.txDivider >>> 3) + (r.txDivider >>> 4)

theorem UartRegs.Consistent.step {r : UartRegs fifoBits} (h : r.Consistent) (i : UartInput) :
    (r.step i).Consistent := by
  unfold UartRegs.step
  split_ifs
  · exact ⟨rfl, rfl⟩
  · exact ⟨h.startQual, h.startSample⟩
  · exact h
  · exact h

theorem UartRegs.Consistent.timing {r : UartRegs fifoBits} (h : r.Consistent) :
    UartRxFsm.For r.timing r.txDivider.toNat := by
  have hlt := r.txDivider.isLt
  refine ⟨rfl, ?_, ?_⟩
  · show r.rxStartQualTicks.toNat = _
    rw [h.startQual]
    simp only [BitVec.toNat_add, BitVec.toNat_ushiftRight, Nat.shiftRight_eq_div_pow]
    omega
  · show r.rxStartSampleTicks.toNat = _
    rw [h.startSample]
    simp only [BitVec.toNat_add, BitVec.toNat_ushiftRight, Nat.shiftRight_eq_div_pow]
    omega

theorem UartRxFsm.For.unique {t t' : RxTiming} {D : ℕ} (h : For t D) (h' : For t' D) : t = t' := by
  cases t
  cases t'
  simp only [RxTiming.mk.injEq]
  exact ⟨BitVec.eq_of_toNat_eq (h.divider.trans h'.divider.symm),
    BitVec.eq_of_toNat_eq (h.startQual.trans h'.startQual.symm),
    BitVec.eq_of_toNat_eq (h.startSample.trans h'.startSample.symm)⟩

theorem UartRegs.step_divider (r : UartRegs fifoBits) (i : UartInput) :
    (r.step i).txDivider = if i.controlWrite then i.divider else r.txDivider :=
  TxBench.step_divider (s := { uart := { regs := r } })

theorem high_of_waveform {fs : List (ℕ × BitVec 8)} {l : List Bool} (h : Waveform fs l)
    (hfs : fs = []) : ∀ x ∈ l, x = true := by
  induction h with
  | nil => simp
  | idle _ ih => simpa using ih hfs
  | frame ticks b _ _ => simp at hfs

namespace UartLink
open UartRxFsm
variable {s : UartLink fifoBits} {i : UartLinkInput} {D : ℕ}

/-- The samples `seen` have gone through the synchroniser. -/
structure Seen (s : UartLink fifoBits) (D : ℕ) (seen : List Bool) : Prop where
  line : true :: true :: s.sender.line = seen ++ [s.receiver.rx.sync2, s.receiver.rx.sync1]
  fsm : ∀ t, For t D → s.receiver.rx.fsm = run t {} seen
  received : ∀ t, For t D → s.received = heard t {} seen

structure Inv (D : ℕ) (s : UartLink fifoBits) : Prop where
  sender : s.sender.Inv
  consistent : s.receiver.regs.Consistent
  dividers : s.sender.accepted ≠ [] →
    s.sender.uart.regs.txDivider.toNat = D ∧ s.receiver.regs.txDivider.toNat = D
  ticks : ∀ p ∈ s.sender.accepted, p.1 = D + 1
  seen : ∃ seen, s.Seen D seen

/-- Nothing was sent: the sender rests and its line is high. -/
theorem high_of_not_accepted (h : s.sender.Inv) (hnone : s.sender.accepted = []) :
    s.sender.uart.tx.busy = false ∧ ∀ x ∈ s.sender.line, x = true := by
  obtain ⟨frames, l, hl, hidle | ⟨b, j, r, honline⟩⟩ := h
  · refine ⟨hidle.rests.busy, ?_⟩
    rw [hidle.line]
    exact high_of_waveform hl (hidle.accepted.symm.trans hnone)
  · have hacc := honline.accepted
    rw [hnone] at hacc
    simp at hacc

theorem step_sender (h : s.Inv D) (ha : s.Allowed i D) : s.sender.Allowed i.sender := by
  intro hc hbusy
  have hsent : s.sender.accepted ≠ [] := by
    intro hnone
    have hrest := (high_of_not_accepted h.sender hnone).1
    rw [hbusy] at hrest
    contradiction
  rcases ha.sender hc with hd | hnone
  · exact BitVec.eq_of_toNat_eq (hd.trans (h.dividers hsent).1.symm)
  · exact absurd hnone hsent

theorem step_seen (h : s.Inv D) : ∃ seen, (s.step i).Seen D seen := by
  obtain ⟨seen, hseen⟩ := h.seen
  have hfsm (t : RxTiming) (ht : For t D) : (s.step i).receiver.rx.fsm =
      (s.receiver.rx.fsm).step t s.receiver.rx.sync2 := by
    show s.receiver.rx.fsm.step s.receiver.regs.timing s.receiver.rx.sync2 = _
    by_cases hsent : s.sender.accepted = []
    · -- an idle receiver does not look at its timing registers
      have hhigh := (high_of_not_accepted h.sender hsent).2
      have hall : ∀ x ∈ seen ++ [s.receiver.rx.sync2, s.receiver.rx.sync1], x = true := by
        rw [← hseen.line]
        simpa using hhigh
      have hsync : s.receiver.rx.sync2 = true := hall _ (by simp)
      have hrests : s.receiver.rx.fsm.Rests := by
        rw [hseen.fsm t ht, (run_high ⟨rfl, rfl, rfl⟩ fun x hx => hall x (by simp [hx])).1]
        exact ⟨rfl, rfl, rfl⟩
      rw [hsync, (hrests.step_high (t := s.receiver.regs.timing)).1,
        (hrests.step_high (t := t)).1]
    · have htiming := h.consistent.timing
      rw [(h.dividers hsent).2] at htiming
      rw [htiming.unique ht]
  refine ⟨seen ++ [s.receiver.rx.sync2], ⟨?_, ?_, ?_⟩⟩
  · have hline := hseen.line
    show true :: true :: (s.sender.line ++ [s.sender.uart.tx.line]) =
      seen ++ [s.receiver.rx.sync2] ++ [s.receiver.rx.sync1, s.sender.uart.tx.line]
    rw [← List.cons_append, ← List.cons_append, hline]
    simp
  · intro t ht
    rw [hfsm t ht, hseen.fsm t ht, run_append]
    rfl
  · intro t ht
    show s.received ++ s.arrival.toList = _
    rw [heard_append, ← hseen.received t ht, ← hseen.fsm t ht]
    simp [heard, arrival]

theorem step_dividers (h : s.Inv D) (ha : s.Allowed i D) (hsent : (s.step i).sender.accepted ≠ []) :
    (s.step i).sender.uart.regs.txDivider.toNat = D ∧
      (s.step i).receiver.regs.txDivider.toNat = D := by
  have hnow : s.sender.accepted ≠ [] ∨ s.sender.accepts i.sender = true := by
    by_contra hno
    obtain ⟨hnone, hacc⟩ := not_or.1 hno
    apply hsent
    show (s.sender.step i.sender).accepted = []
    rw [TxBench.step_accepted, not_ne_iff.1 hnone, if_neg hacc]
    rfl
  have hset : s.sender.uart.regs.txDivider.toNat = D ∧ s.receiver.regs.txDivider.toNat = D :=
    hnow.elim h.dividers ha.sends
  constructor
  · show (s.sender.uart.regs.step i.sender).txDivider.toNat = D
    rw [UartRegs.step_divider]
    split_ifs with hc
    · rcases ha.sender hc with hd | hnone
      · exact hd
      · rcases hnow with hne | hacc
        · exact absurd hnone hne
        · rw [TxBench.not_control_of_accepts hacc] at hc
          contradiction
    · exact hset.1
  · show (s.receiver.regs.step (s.receiverInput i)).txDivider.toNat = D
    rw [UartRegs.step_divider]
    split_ifs with hc
    · rcases ha.receiver hc with hd | ⟨hnone, hno⟩
      · exact hd
      · rcases hnow with hne | hacc
        · exact absurd hnone hne
        · rw [hno] at hacc
          contradiction
    · exact hset.2

theorem Inv.step (h : s.Inv D) (ha : s.Allowed i D) : (s.step i).Inv D where
  sender := h.sender.step (step_sender h ha)
  consistent := h.consistent.step _
  dividers := step_dividers h ha
  ticks := by
    intro p hp
    have hacc : (s.step i).sender.accepted = s.sender.accepted ++
        if s.sender.accepts i.sender then
          [(s.sender.ticks, i.sender.dbus.dbWr.extractLsb' 0 8)] else [] := TxBench.step_accepted
    rw [hacc] at hp
    rcases List.mem_append.1 hp with hp | hp
    · exact h.ticks p hp
    · split_ifs at hp with hw
      · obtain rfl := List.mem_singleton.1 hp
        show s.sender.uart.regs.txDivider.toNat + 1 = D + 1
        rw [(ha.sends hw).1]
      · exact absurd hp List.not_mem_nil
  seen := step_seen h

/-- The bytes of whole frames that the receiver has seen. -/
theorem received_of_waveform {t : RxTiming} (ht : For t D) (hD : 3 ≤ D) (hmax : D < 2 ^ 16)
    {fs : List (ℕ × BitVec 8)} {l : List Bool} (hl : Waveform fs l)
    (hfs : ∀ p ∈ fs, p.1 = D + 1) :
    heard t {} (true :: true :: l) = fs.map fun p => (p.2, false) :=
  (run_waveform ht hD hmax ⟨rfl, rfl, rfl⟩ hl.after_idle.after_idle hfs).2

theorem exists_timing (hmax : D < 2 ^ 16) : ∃ t, For t D := by
  refine ⟨⟨BitVec.ofNat 16 D, BitVec.ofNat 16 (D / 2 + D / 4 + D / 16),
    BitVec.ofNat 16 (D / 2 + D / 8 + D / 16)⟩, ?_, ?_, ?_⟩ <;>
  · rw [BitVec.toNat_ofNat]
    exact Nat.mod_eq_of_lt (by omega)

/-- What there is to hear on the line are the first bytes sent. -/
theorem Inv.heard_line (h : s.Inv D) (hD : 3 ≤ D) (hmax : D < 2 ^ 16) {t : RxTiming}
    (ht : For t D) :
    heard t {} (true :: true :: s.sender.line) <+: s.sender.accepted.map fun p => (p.2, false) := by
  obtain ⟨frames, l, hl, hidle | ⟨b, j, r, honline⟩⟩ := h.sender
  · have hticks := h.ticks
    rw [hidle.accepted] at hticks
    rw [hidle.line, hidle.accepted, received_of_waveform ht hD hmax hl hticks]
  · have hacc := honline.accepted
    have hr : r ≤ s.sender.ticks := by
      have hsum := honline.inFrame.divCount
      simp only [TxBench.ticks]
      omega
    -- the frame on the line is heard as the beginning of the whole frame
    have hfull : heard t {} (true :: true :: (l ++ frame s.sender.ticks b)) =
        (frames ++ [(s.sender.ticks, b)]).map fun p => (p.2, false) := by
      refine received_of_waveform ht hD hmax (hl.frame s.sender.ticks b) fun p hp => ?_
      apply h.ticks
      rw [hacc]
      rcases List.mem_append.1 hp with hp | hp
      · exact List.mem_append_left _ hp
      · obtain rfl := List.mem_singleton.1 hp
        simp
    have hline : true :: true :: s.sender.line <+:
        true :: true :: (l ++ frame s.sender.ticks b) := by
      rw [honline.line]
      obtain ⟨rest, hrest⟩ := SerialLine.start_extends (b := b) honline.inFrame.lt hr
      exact ⟨rest, by simp [← hrest]⟩
    refine (heard_mono hline).trans ?_
    rw [hfull, hacc]
    exact List.IsPrefix.map _ ⟨_, List.append_assoc _ _ _⟩

theorem Inv.framesReceived (h : s.Inv D) (hD : 3 ≤ D) (hmax : D < 2 ^ 16) : s.Receives := by
  obtain ⟨t, ht⟩ := exists_timing hmax
  obtain ⟨seen, hseen⟩ := h.seen
  have hheard := h.heard_line hD hmax ht
  rw [hseen.line] at hheard
  constructor
  · rw [hseen.received t ht]
    exact (heard_mono ⟨_, rfl⟩).trans hheard
  · intro i
    have hnext : s.received ++ s.arrival.toList <+:
        s.sender.accepted.map fun p => (p.2, false) := by
      have hone : heard t {} (seen ++ [s.receiver.rx.sync2]) = s.received ++ s.arrival.toList := by
        rw [heard_append, ← hseen.received t ht, ← hseen.fsm t ht]
        simp [heard, arrival]
      rw [← hone]
      exact (heard_mono ⟨[s.receiver.rx.sync1], by simp⟩).trans hheard
    -- a byte on a line that carries frames has its stop bit
    have hclean : ∀ p ∈ s.arrival, p.2 = false := by
      intro p hp
      have hmem : p ∈ s.received ++ s.arrival.toList :=
        List.mem_append_right _ (Option.mem_toList.2 hp)
      obtain ⟨q, -, rfl⟩ := List.mem_map.1 (hnext.subset hmem)
      rfl
    refine ⟨s.arrival.map (·.1), ?_, rfl, ?_, ?_⟩
    · show s.received ++ s.arrival.toList = _
      cases harr : s.arrival with
      | none => rfl
      | some p => rw [show p = (p.1, false) from Prod.ext rfl (hclean p harr)]; rfl
    · show (s.arrival.isSome || _) = _
      rw [Option.isSome_map]
    · show (s.arrival.map (·.2)).getD _ = _
      cases harr : s.arrival with
      | none => rfl
      | some p => exact hclean p harr

/-- What the receiver has seen two clocks later. -/
theorem line_seen {i₁ i₂ : UartLinkInput} {seen : List Bool}
    (hseen : ((s.step i₁).step i₂).Seen D seen) : true :: true :: s.sender.line = seen := by
  have hline : ((s.step i₁).step i₂).sender.line =
      s.sender.line ++ [s.sender.uart.tx.line, (s.step i₁).sender.uart.tx.line] := by
    show s.sender.line ++ [s.sender.uart.tx.line] ++ [(s.step i₁).sender.uart.tx.line] = _
    simp
  have hall := hseen.line
  rw [hline, ← List.cons_append, ← List.cons_append] at hall
  exact (List.append_inj' hall rfl).1

/-- Two clocks after its frame a byte is received. -/
theorem Inv.complete (h : s.Inv D) (hD : 3 ≤ D) (hmax : D < 2 ^ 16) {x : Sending}
    (hx : s.sender.Shows x) {i₁ i₂ : UartLinkInput} (hlater : ((s.step i₁).step i₂).Inv D) :
    (x.frames.map fun p => (p.2, false)) <+: ((s.step i₁).step i₂).received := by
  obtain ⟨t, ht⟩ := exists_timing hmax
  obtain ⟨seen, hseen⟩ := hlater.seen
  obtain ⟨l, hl, rest, hrest⟩ := hx.line.frames
  have hfs : ∀ p ∈ x.frames, p.1 = D + 1 := by
    intro p hp
    apply h.ticks
    rw [← hx.bytes, Sending.bytes]
    exact List.mem_append_left _ (List.mem_append_left _ hp)
  rw [hseen.received t ht, ← line_seen hseen, ← received_of_waveform ht hD hmax hl hfs]
  exact heard_mono ⟨rest, by simp [← hrest]⟩

/-- The receiver takes exactly what the sender was given, for every divider from 3 on: each byte
when the time of the frames outstanding, and of the two stages of the synchroniser, has passed. -/
theorem receives (hD : 3 ≤ D) (hmax : D < 2 ^ 16) {is : List UartLinkInput}
    (h : (machine fifoBits).Along (fun s i => s.Allowed i D) {} is) :
    ((machine fifoBits).run is).Receives ∧
      ∀ js ks, is = js ++ ks →
        ((machine fifoBits).run js).sender.outstanding + 2 ≤ ks.length →
        (((machine fifoBits).run js).sender.accepted.map fun p => (p.2, false)) <+:
          ((machine fifoBits).run is).received := by
  have hinit : ({} : UartLink fifoBits).Inv D :=
    ⟨TxBench.inv_init, ⟨rfl, rfl⟩, fun hsent => absurd rfl hsent, by simp,
      [], rfl, fun _ _ => rfl, fun _ _ => rfl⟩
  have hrun {js : List UartLinkInput}
      (hjs : (machine fifoBits).Along (fun s i => s.Allowed i D) {} js) :
      ((machine fifoBits).run js).Inv D :=
    hjs.invariant (Inv D) (fun _ _ hs ha => hs.step ha) hinit
  refine ⟨(hrun h).framesReceived hD hmax, ?_⟩
  rintro js ks rfl htime
  obtain ⟨ms, i₁, i₂, rfl⟩ : ∃ ms i₁ i₂, ks = ms ++ [i₁, i₂] := by
    rcases ks.eq_nil_or_concat' with rfl | ⟨ks, i₂, rfl⟩
    · simp at htime
    rcases ks.eq_nil_or_concat' with rfl | ⟨ms, i₁, rfl⟩
    · simp at htime
    exact ⟨ms, i₁, i₂, List.append_assoc _ _ _⟩
  have htime' : ((machine fifoBits).run js).sender.outstanding ≤ ms.length := by
    rw [List.length_append] at htime
    exact Nat.le_of_add_le_add_right htime
  have hlater := hrun h
  rw [← List.append_assoc] at h hlater ⊢
  obtain ⟨hmid, -⟩ := Clocked.along_append.1 h
  obtain ⟨hjs, hms⟩ : _ ∧ (machine fifoBits).Along _ ((machine fifoBits).run js) ms :=
    Clocked.along_append.1 hmid
  -- the frames are complete two clocks before the end
  have hdue := hms.countdown
    (fun n s => s.Inv D ∧ s.sender.Due ((machine fifoBits).run js).sender.accepted n)
    (fun _ _ _ hs ha => ⟨hs.1.step ha, hs.2.step (step_sender hs.1 ha)⟩)
    ⟨hrun hjs, (hrun hjs).sender.due_outstanding⟩
  have hend : (machine fifoBits).run (js ++ ms) =
      (machine fifoBits).runFrom ((machine fifoBits).run js) ms := Clocked.runFrom_append _ _ _ _
  rw [Nat.sub_eq_zero_of_le htime', ← hend] at hdue
  obtain ⟨x, hx, hsent⟩ := hdue.2.sent
  have hsteps : (machine fifoBits).run (js ++ ms ++ [i₁, i₂]) =
      (((machine fifoBits).run (js ++ ms)).step i₁).step i₂ := Clocked.runFrom_append _ _ _ _
  rw [hsteps] at hlater ⊢
  exact (hsent.map _).trans (hdue.1.complete hD hmax hx hlater)

/-- Both ends get the divider 3, a byte goes over the line and another one behind it. -/
theorem receives_two :
    let js : List UartLinkInput := [⟨⟨⟨true, 8, 0xf, 3⟩, true⟩, ⟨true, 8, 0xf, 3⟩⟩,
      ⟨⟨⟨true, 0, 1, 0xa5⟩, true⟩, {}⟩, ⟨⟨⟨true, 0, 1, 0x5a⟩, true⟩, {}⟩]
    let s := (machine 5).run (js ++ List.replicate 82 ⟨⟨{}, true⟩, {}⟩)
    s.Receives ∧ [(0xa5, false), (0x5a, false)] <+: s.received := by
  intro js s
  have hrun := receives (D := 3) (by decide) (by decide) (show (machine 5).Along
    (fun s i => s.Allowed i 3) {} (js ++ List.replicate 82 ⟨⟨{}, true⟩, {}⟩) by decide +kernel)
  exact ⟨hrun.1, hrun.2 js _ rfl (by decide +kernel)⟩

end UartLink
end BonfireCore
