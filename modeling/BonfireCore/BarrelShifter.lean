import BonfireCore.Alu
import BonfireCore.FillShift

/-! The barrel shifter library at a data length, an amount width and a pipeline stage of its
user's choice. A `ValueError` of the simulation is `none`. -/
namespace BonfireCore.BarrelShifter

variable {l : ℕ}

/-- `temp[i:] = v` of a `modbv`: the bits from `i` on stay. -/
def assignLow {n : ℕ} (i : ℕ) (temp : BitVec l) (v : BitVec n) : Option (BitVec l) :=
  if v.toNat < 2 ^ i then some (temp &&& ~~~BitVec.ofNat l (2 ^ i - 1) ||| v.setWidth l)
  else none

/-- One power of two of `comb`. -/
def shiftStage (fill : BitVec l) (shift : ℕ) (temp : BitVec l) : Option (BitVec l) :=
  -- an empty slice `temp[0:0]` raises
  if shift < l then
    assignLow 32 temp (temp.extractLsb' 0 (l - shift) ++ fill.extractLsb' 0 shift)
  else none

/-- `left_shift_comb`: the powers of two from `low` up to, not including, `high`. -/
def leftShiftComb (d : BitVec l) (shift : ℕ → Bool) (fillI : Bool) (high low : ℕ) :
    Option (BitVec l) :=
  let fill : BitVec l := if fillI then BitVec.allOnes l else 0
  (List.range (high - low)).foldlM
    (fun temp i => if shift i then shiftStage fill (2 ^ (low + i)) temp else some temp) d

def reverse (d : BitVec l) : BitVec l := d.reverse

/-- The registers around the pipeline stage `s` of a shifter with `w` amount bits. -/
structure State (l w s : ℕ) where
  shift1 : BitVec (w - s) := 0
  fillR : Bool := false
  stageReg : BitVec l := 0
  readyO : Bool := false
  rightR : Bool := false
  deriving DecidableEq, Repr

structure Input (l w : ℕ) where
  reset : Bool
  d : BitVec l
  shift : BitVec w
  right : Bool
  fill : Bool
  en : Bool

structure Output (l : ℕ) where
  d : BitVec l
  ready : Bool
  deriving DecidableEq, Repr

/-- The assertion on `c_pipe_stage`, and `intbv(0)[len(shift_i)-c_pipe_stage:]`, which raises
on an empty range. -/
def elaborate (l w s : ℕ) : Option (State l w s) :=
  if s ≤ w ∧ (s = 0 ∨ 0 < w - s) then some {} else none

namespace Input
variable {w : ℕ} (i : Input l w)

def tempIn : BitVec l := if i.right then reverse i.d else i.d

/-- The powers below the pipeline stage. -/
def stage0Out (s : ℕ) : Option (BitVec l) :=
  leftShiftComb i.tempIn (fun k => (i.shift.extractLsb' 0 s).getLsbD k) i.fill s 0

end Input

namespace State
variable {w s : ℕ} (st : State l w s) (i : Input l w)

def tempOut : Option (BitVec l) :=
  if s = 0 then leftShiftComb i.tempIn (fun k => i.shift.getLsbD k) i.fill w 0
  else leftShiftComb st.stageReg (fun k => st.shift1.getLsbD k) st.fillR w s

def right : Bool := if s = 0 then i.right else st.rightR

def ready : Bool := if s = 0 then i.en else st.readyO

def out : Option (Output l) :=
  (st.tempOut i).map fun temp =>
    { d := if st.right i then reverse temp else temp, ready := st.ready i }

/-- The registers after the edge, with what the first stage puts out. -/
def shifterPipe (stage0 : BitVec l) : State l w s :=
  if i.reset then {}
  else
    { shift1 := if i.en then i.shift.extractLsb' s (w - s) else st.shift1
      fillR := if i.en then i.fill else st.fillR
      stageReg := if i.en then stage0 else st.stageReg
      readyO := i.en
      rightR := i.right }

def step : Option (State l w s) :=
  if s = 0 then some st else (i.stage0Out s).map (st.shifterPipe i)

/-- A cycle settles the combinational blocks and then takes the clock edge. -/
def cycle : Option (State l w s) := (st.out i).bind fun _ => st.step i

end State

/-- The simulation from elaboration on. -/
def run (s : ℕ) {w : ℕ} (inputs : List (Input l w)) : Option (State l w s) :=
  (elaborate l w s).bind fun st => inputs.foldlM State.cycle st

/-- Two instances with no register between them, for the powers below `s` and from `s` on. -/
def cascade {w : ℕ} (s : ℕ) (d : BitVec l) (amount : BitVec w) (fill : Bool) :
    Option (BitVec l) :=
  (leftShiftComb d (fun k => (amount.extractLsb' 0 s).getLsbD k) fill s 0).bind fun temp =>
    leftShiftComb temp (fun k => (amount.extractLsb' s (w - s)).getLsbD k) fill w s

/-! ### One power of two -/

theorem concat_setWidth {shift : ℕ} (h : shift < l) (temp : BitVec l) (fillI : Bool) :
    (temp.extractLsb' 0 (l - shift) ++
        (if fillI then BitVec.allOnes l else 0).extractLsb' 0 shift).setWidth l =
      FillShift.left temp fillI shift := by
  apply BitVec.eq_of_getLsbD_eq
  intro i hi
  rw [FillShift.getLsbD_left, BitVec.getLsbD_setWidth, BitVec.getLsbD_append,
    BitVec.getLsbD_extractLsb', BitVec.getLsbD_extractLsb', Nat.zero_add, Nat.zero_add]
  by_cases hn : i < shift
  · cases fillI <;> simp [hi, hn]
  · have hsub : i - shift < l - shift := by omega
    simp [hi, hn, hsub]

theorem shiftStage_eq {shift : ℕ} (h : shift < l) (temp : BitVec l) (fillI : Bool) :
    shiftStage (if fillI then BitVec.allOnes l else 0) shift temp =
      if (FillShift.left temp fillI shift).toNat < 2 ^ 32 then
        some (temp &&& ~~~BitVec.ofNat l (2 ^ 32 - 1) ||| FillShift.left temp fillI shift)
      else none := by
  have hconcat := concat_setWidth h temp fillI
  have hlen : 2 ^ (l - shift + shift) = 2 ^ l := by rw [Nat.sub_add_cancel h.le]
  have hnat := congrArg BitVec.toNat hconcat
  rw [BitVec.toNat_setWidth, Nat.mod_eq_of_lt (hlen ▸ BitVec.isLt _)] at hnat
  rw [shiftStage, if_pos h, assignLow, hconcat, hnat]

theorem getLsbD_kept (temp : BitVec l) (i : ℕ) :
    (temp &&& ~~~BitVec.ofNat l (2 ^ 32 - 1)).getLsbD i =
      (decide (32 ≤ i) && temp.getLsbD i) := by
  rw [BitVec.getLsbD_and, BitVec.getLsbD_not, BitVec.getLsbD_ofNat, Nat.testBit_two_pow_sub_one]
  by_cases hi : i < l
  · by_cases h32 : i < 32
    · simp [hi, h32]
    · simp [hi, h32, Nat.le_of_not_lt h32]
  · simp [BitVec.getLsbD_of_ge temp i (by omega)]

theorem toNat_lt_iff {d : BitVec l} {n : ℕ} :
    d.toNat < 2 ^ n ↔ ∀ i, n ≤ i → d.getLsbD i = false := by
  constructor
  · intro h i hi
    rw [← BitVec.testBit_toNat]
    exact Nat.testBit_lt_two_pow (lt_of_lt_of_le h (Nat.pow_le_pow_right (by omega) hi))
  · intro h
    apply Nat.lt_pow_two_of_testBit
    intro i hi
    rw [BitVec.testBit_toNat, h i hi]

theorem shiftStage_left {shift : ℕ} (h : shift < l) {temp : BitVec l} {fillI : Bool}
    (htemp : temp.toNat < 2 ^ 32) (hleft : (FillShift.left temp fillI shift).toNat < 2 ^ 32) :
    shiftStage (if fillI then BitVec.allOnes l else 0) shift temp =
      some (FillShift.left temp fillI shift) := by
  have hkept : temp &&& ~~~BitVec.ofNat l (2 ^ 32 - 1) = 0#l := by
    apply BitVec.eq_of_getLsbD_eq
    intro i _
    rw [getLsbD_kept, BitVec.getLsbD_zero]
    by_cases h32 : 32 ≤ i
    · rw [toNat_lt_iff.1 htemp i h32, Bool.and_false]
    · simp [h32]
  rw [shiftStage_eq h, if_pos hleft, hkept, BitVec.zero_or]

/-! ### The powers in turn -/

section Comb
variable {d : BitVec l} {shift : ℕ → Bool} {fill : Bool}

@[simp] theorem leftShiftComb_self (low : ℕ) : leftShiftComb d shift fill low low = some d := by
  simp [leftShiftComb]

theorem leftShiftComb_succ (low n : ℕ) :
    leftShiftComb d shift fill (low + (n + 1)) low =
      (leftShiftComb d shift fill (low + n) low).bind fun temp =>
        if shift n then
          shiftStage (if fill then BitVec.allOnes l else 0) (2 ^ (low + n)) temp
        else some temp := by
  unfold leftShiftComb
  rw [Nat.add_sub_cancel_left, Nat.add_sub_cancel_left, List.range_succ, List.foldlM_append]
  simp only [List.foldlM_cons, List.foldlM_nil, bind_pure]
  rfl

theorem leftShiftComb_append (low m n : ℕ) :
    ((leftShiftComb d shift fill (low + m) low).bind fun temp =>
        leftShiftComb temp (fun k => shift (m + k)) fill (low + m + n) (low + m)) =
      leftShiftComb d shift fill (low + m + n) low := by
  induction n with
  | zero => simp
  | succ n ih =>
    have hpow : low + m + n = low + (m + n) := Nat.add_assoc ..
    rw [show low + m + (n + 1) = low + (m + n + 1) by omega, leftShiftComb_succ, ← hpow, ← ih,
      Option.bind_assoc]
    congr 1
    funext temp
    rw [hpow, ← Nat.add_assoc, ← Nat.add_assoc, Nat.add_assoc (low + m), leftShiftComb_succ]

theorem leftShiftComb_congr {shift' : ℕ → Bool} {low n : ℕ}
    (h : ∀ k < n, shift k = shift' k) :
    leftShiftComb d shift fill (low + n) low = leftShiftComb d shift' fill (low + n) low := by
  induction n with
  | zero => simp
  | succ n ih =>
    rw [leftShiftComb_succ, leftShiftComb_succ, ih fun k hk => h k (by omega), h n (by omega)]

theorem leftShiftComb_zero_succ (n : ℕ) :
    leftShiftComb d shift fill (n + 1) 0 =
      (leftShiftComb d shift fill n 0).bind fun temp =>
        if shift n then shiftStage (if fill then BitVec.allOnes l else 0) (2 ^ n) temp
        else some temp := by
  simpa only [Nat.zero_add] using leftShiftComb_succ 0 n

/-- Where no power leaves the low 32 bits, the powers add up. -/
theorem leftShiftComb_eq_left {n : ℕ} (hn : 2 ^ n ≤ l)
    (hlow : ∀ k < n, shift k = true →
      (FillShift.left d fill (FillShift.chosen shift 0 k)).toNat < 2 ^ 32 ∧
        (FillShift.left d fill (FillShift.chosen shift 0 (k + 1))).toNat < 2 ^ 32) :
    leftShiftComb d shift fill n 0 =
      some (FillShift.left d fill (FillShift.chosen shift 0 n)) := by
  induction n with
  | zero => simp [FillShift.chosen]
  | succ n ih =>
    have hpow : 2 ^ n < l := lt_of_lt_of_le (Nat.pow_lt_pow_right (by omega) (by omega)) hn
    rw [leftShiftComb_zero_succ, ih hpow.le fun k hk => hlow k (by omega), Option.bind_some]
    cases hs : shift n with
    | true =>
      have hsum := FillShift.chosen_succ_true hs 0
      obtain ⟨hbefore, hafter⟩ := hlow n (by omega) hs
      rw [Nat.zero_add] at hsum
      rw [hsum, ← FillShift.left_add] at hafter
      rw [if_pos rfl, shiftStage_left hpow hbefore hafter, FillShift.left_add, hsum]
    | false => rw [if_neg Bool.false_ne_true, FillShift.chosen_succ_false hs]

variable (d shift fill) in
/-- What the bits of `temp` are after `n` powers that raised nothing. -/
structure Tracks (n : ℕ) (temp : BitVec l) : Prop where
  high : ∀ i, 32 ≤ i → temp.getLsbD i = d.getLsbD i
  low : ∀ i < 32,
    temp.getLsbD i = (FillShift.left d fill (FillShift.chosen shift 0 n)).getLsbD i
  chosen : ∀ k < n, shift k = true →
    (FillShift.left d fill (FillShift.chosen shift 0 (k + 1))).toNat < 2 ^ 32
  last : FillShift.chosen shift 0 n = 0 ∨
    (FillShift.left d fill (FillShift.chosen shift 0 n)).toNat < 2 ^ 32

/-- The shifted word has no high bit that `temp` lacks. -/
theorem Tracks.sub {n : ℕ} {temp : BitVec l} (ht : Tracks d shift fill n temp) {i : ℕ}
    (hi : (FillShift.left d fill (FillShift.chosen shift 0 n)).getLsbD i = true) :
    temp.getLsbD i = true := by
  by_cases h32 : i < 32
  · rw [ht.low i h32, hi]
  · cases ht.last with
    | inl hzero => rwa [hzero, FillShift.left_zero, ← ht.high i (by omega)] at hi
    | inr hlast =>
      rw [toNat_lt_iff.1 hlast i (by omega)] at hi
      exact absurd hi Bool.false_ne_true

/-- A chosen power that raises nothing keeps the high bits of `temp` and takes the low ones of
the shifted word, which has no high ones. -/
theorem Tracks.shiftStage {n : ℕ} {temp temp' : BitVec l} (ht : Tracks d shift fill n temp)
    (hn : 2 ^ n < l) (hs : shift n = true)
    (h : shiftStage (if fill then BitVec.allOnes l else 0) (2 ^ n) temp = some temp') :
    Tracks d shift fill (n + 1) temp' := by
  have hsum := FillShift.chosen_succ_true hs 0
  rw [Nat.zero_add] at hsum
  rw [shiftStage_eq hn] at h
  by_cases hlow : (FillShift.left temp fill (2 ^ n)).toNat < 2 ^ 32
  · rw [if_pos hlow, Option.some.injEq] at h
    subst h
    have hbit := toNat_lt_iff.1 hlow
    have hnext : (FillShift.left d fill (FillShift.chosen shift 0 (n + 1))).toNat < 2 ^ 32 := by
      rw [toNat_lt_iff]
      intro i hi
      have hi' := hbit i hi
      rw [FillShift.getLsbD_left] at hi'
      rw [hsum, ← FillShift.left_add, FillShift.getLsbD_left]
      by_cases hfill : i < 2 ^ n
      · simpa [hfill] using hi'
      · -- a bit of the true word would be a bit of `temp` and so of the stage's value
        by_contra hne
        have htrue := Bool.eq_true_of_not_eq_false hne
        simp only [hfill, if_false, Bool.and_eq_true] at htrue
        rw [htrue.1, if_neg hfill, ht.sub htrue.2] at hi'
        exact absurd hi' (by decide)
    refine ⟨fun i hi => ?_, fun i hi => ?_, fun k hk hsk => ?_, Or.inr hnext⟩
    · rw [BitVec.getLsbD_or, getLsbD_kept, hbit i hi, ht.high i hi]
      simp [hi]
    · rw [BitVec.getLsbD_or, getLsbD_kept, hsum, ← FillShift.left_add, FillShift.getLsbD_left,
        FillShift.getLsbD_left]
      by_cases hfill : i < 2 ^ n
      · simp [hi, hfill]
      · simp [hi, hfill, ht.low (i - 2 ^ n) (by have := Nat.sub_le i (2 ^ n); omega)]
    · rcases Nat.lt_succ_iff_lt_or_eq.1 hk with hk | rfl
      · exact ht.chosen k hk hsk
      · exact hnext
  · rw [if_neg hlow] at h
    cases h

theorem leftShiftComb_tracks {n : ℕ} (hn : 2 ^ n ≤ l) {temp : BitVec l}
    (h : leftShiftComb d shift fill n 0 = some temp) : Tracks d shift fill n temp := by
  induction n generalizing temp with
  | zero =>
    rw [leftShiftComb_self, Option.some.injEq] at h
    subst h
    exact ⟨fun _ _ => rfl, fun i _ => by simp, fun k hk => by omega, Or.inl rfl⟩
  | succ n ih =>
    have hpow : 2 ^ n < l := lt_of_lt_of_le (Nat.pow_lt_pow_right (by omega) (by omega)) hn
    rw [leftShiftComb_zero_succ, Option.bind_eq_some_iff] at h
    obtain ⟨before, hbefore, h⟩ := h
    have ht := ih hpow.le hbefore
    cases hs : shift n with
    | true =>
      rw [hs, if_pos rfl] at h
      exact ht.shiftStage hpow hs h
    | false =>
      have hsum := FillShift.chosen_succ_false hs 0
      rw [hs, if_neg Bool.false_ne_true, Option.some.injEq] at h
      subst h
      refine ⟨ht.high, fun i hi => by rw [hsum, ht.low i hi], fun k hk hsk => ?_, ?_⟩
      · have hkn : k ≠ n := by
          rintro rfl
          rw [hs] at hsk
          exact Bool.false_ne_true hsk
        exact ht.chosen k (by omega) hsk
      · rw [hsum]
        exact ht.last

theorem leftShiftComb_of_false {low n : ℕ} (h : ∀ k < n, shift k = false) :
    leftShiftComb d shift fill (low + n) low = some d := by
  induction n with
  | zero => simp
  | succ n ih =>
    rw [leftShiftComb_succ, ih fun k hk => h k (by omega), h n (by omega)]
    rfl

end Comb

/-! ### Which data the powers of an amount get right -/

section Fits
variable {w : ℕ} {d : BitVec l} {fill : Bool} {amount : BitVec w}

variable (d fill amount) in
/-- Nothing is shifted, or the data and what each chosen power makes of it keep within the 32
bits that a stage assigns. -/
def Fits : Prop :=
  l ≤ 32 ∨ amount = 0 ∨ d.toNat < 2 ^ 32 ∧ ∀ k < w, amount.getLsbD k = true →
    (FillShift.left d fill (amount.toNat % 2 ^ (k + 1))).toNat < 2 ^ 32

theorem Fits.stages (h : Fits d fill amount) (hne : amount ≠ 0) {k : ℕ} (hk : k ≤ w) :
    (FillShift.left d fill (amount.toNat % 2 ^ k)).toNat < 2 ^ 32 := by
  rcases h with hl | hzero | ⟨hd, hpart⟩
  · exact lt_of_lt_of_le (BitVec.isLt _) (Nat.pow_le_pow_right (by omega) hl)
  · exact absurd hzero hne
  · -- the amount below `k` ends with the last power chosen before it
    induction k with
    | zero => simpa [Nat.mod_one] using hd
    | succ k ih =>
      cases hbit : amount.getLsbD k with
      | true => exact hpart k hk hbit
      | false =>
        rw [← FillShift.chosen_getLsbD, FillShift.chosen_succ_false hbit,
          FillShift.chosen_getLsbD]
        exact ih (by omega)

theorem toNat_mod_width : amount.toNat % 2 ^ w = amount.toNat := Nat.mod_eq_of_lt amount.isLt

/-- All powers at once do the whole shift on just the data that fits. -/
theorem leftShiftComb_eq_some_iff (hl : 2 ^ w ≤ l) :
    leftShiftComb d (fun k => amount.getLsbD k) fill w 0 =
      some (FillShift.left d fill amount.toNat) ↔ Fits d fill amount := by
  have hwhole : FillShift.chosen (fun k => amount.getLsbD k) 0 w = amount.toNat := by
    rw [FillShift.chosen_getLsbD, toNat_mod_width]
  constructor
  · intro h
    have ht := leftShiftComb_tracks hl h
    by_cases hzero : amount = 0
    · exact Or.inr (Or.inl hzero)
    · have hne : amount.toNat ≠ 0 := fun he => hzero (BitVec.eq_of_toNat_eq he)
      have hlast : (FillShift.left d fill amount.toNat).toNat < 2 ^ 32 := by
        have hlast := ht.last
        rw [hwhole] at hlast
        exact hlast.resolve_left hne
      refine Or.inr (Or.inr ⟨toNat_lt_iff.2 fun i hi => ?_, fun k hk hbit => ?_⟩)
      · rw [← ht.high i hi]
        exact toNat_lt_iff.1 hlast i hi
      · rw [← FillShift.chosen_getLsbD]
        exact ht.chosen k hk hbit
  · intro h
    rw [← hwhole]
    refine leftShiftComb_eq_left hl fun k hk hbit => ?_
    have hne : amount ≠ 0 := by
      rintro rfl
      simp at hbit
    rw [FillShift.chosen_getLsbD, FillShift.chosen_getLsbD]
    exact ⟨h.stages hne hk.le, h.stages hne hk⟩

theorem cascade_eq {s : ℕ} (hs : s ≤ w) :
    cascade s d amount fill = leftShiftComb d (fun k => amount.getLsbD k) fill w 0 := by
  have hrange : s + (w - s) = w := Nat.add_sub_cancel' hs
  have hlow : leftShiftComb d (fun k => (amount.extractLsb' 0 s).getLsbD k) fill (0 + s) 0 =
      leftShiftComb d (fun k => amount.getLsbD k) fill (0 + s) 0 :=
    leftShiftComb_congr fun k hk => by simp [hk]
  have hhigh : ∀ temp : BitVec l,
      leftShiftComb temp (fun k => (amount.extractLsb' s (w - s)).getLsbD k) fill
          (s + (w - s)) s =
        leftShiftComb temp (fun k => amount.getLsbD (s + k)) fill (s + (w - s)) s :=
    fun temp => leftShiftComb_congr fun k hk => by simp [hk]
  have happend : ((leftShiftComb d (fun k => amount.getLsbD k) fill (0 + s) 0).bind fun temp =>
      leftShiftComb temp (fun k => amount.getLsbD (s + k)) fill (0 + s + (w - s)) (0 + s)) =
        leftShiftComb d (fun k => amount.getLsbD k) fill (0 + s + (w - s)) 0 :=
    leftShiftComb_append 0 s (w - s)
  rw [Nat.zero_add] at happend hlow
  rw [hrange] at happend hhigh
  rw [← happend, ← hlow]
  unfold cascade
  congr 1
  funext temp
  exact hhigh temp

theorem cascade_eq_some_iff {s : ℕ} (hl : 2 ^ w ≤ l) (hs : s ≤ w) :
    cascade s d amount fill = some (FillShift.left d fill amount.toNat) ↔
      Fits d fill amount := by
  rw [cascade_eq hs, leftShiftComb_eq_some_iff hl]

/-- A wide word of ones leaves the low 32 bits with the first power. -/
theorem fits_all_iff (hw : 1 ≤ w) :
    (∀ (d : BitVec l) (fill : Bool) (amount : BitVec w), Fits d fill amount) ↔ l ≤ 32 := by
  constructor
  · intro h
    rcases h (BitVec.allOnes l) false 1 with hl | hzero | ⟨hd, -⟩
    · exact hl
    · have hnat := congrArg BitVec.toNat hzero
      have hone : 1 % 2 ^ w = 1 := Nat.mod_eq_of_lt (Nat.one_lt_two_pow (by omega))
      simp [hone] at hnat
    · rw [BitVec.toNat_allOnes] at hd
      by_contra hl
      have hpow := Nat.pow_lt_pow_right (a := 2) (by omega) (show 32 < l by omega)
      omega
  · exact fun hl _ _ _ => Or.inl hl

end Fits

end BonfireCore.BarrelShifter
