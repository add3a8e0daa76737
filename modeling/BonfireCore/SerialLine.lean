import Mathlib.Data.List.Basic
import Mathlib.Data.Nat.Basic
import Mathlib.Tactic.Common
import Mathlib.Tactic.Linarith

/-! Asynchronous serial lines: frames of a start bit, eight data bits and a stop bit, sampled
once per clock, and lines that carry frames with idle time between them. -/
namespace SerialLine

/-- The ten symbols of a frame, the data bits least significant first. -/
def symbol (b : BitVec 8) (j : ℕ) : Bool :=
  if j = 0 then false else if j ≤ 8 then b.getLsbD (j - 1) else true

/-- A frame with `ticks` samples for each symbol. -/
def frame (ticks : ℕ) (b : BitVec 8) : List Bool :=
  (List.range 10).flatMap fun j => List.replicate ticks (symbol b j)

/-- Its first `j` symbols, and `r` samples of the next one. -/
def start (ticks : ℕ) (b : BitVec 8) (j r : ℕ) : List Bool :=
  ((List.range j).flatMap fun j => List.replicate ticks (symbol b j)) ++
    List.replicate r (symbol b j)

variable {ticks : ℕ} {b : BitVec 8} {j r : ℕ}

theorem start_all : start ticks b 10 0 = frame ticks b := by
  simp [start, frame]

@[simp] theorem start_zero : start ticks b 0 0 = [] := rfl

theorem start_succ : start ticks b j (r + 1) = start ticks b j r ++ [symbol b j] := by
  rw [start, start, List.replicate_succ', List.append_assoc]

theorem start_full : start ticks b j ticks = start ticks b (j + 1) 0 := by
  rw [start, start, List.range_succ, List.flatMap_append, List.append_assoc]
  simp

theorem start_next (h : 0 < ticks) :
    start ticks b (j + 1) 0 = start ticks b j (ticks - 1) ++ [symbol b j] := by
  rw [← start_full, ← start_succ, Nat.sub_add_cancel h]

theorem length_start : (start ticks b j r).length = j * ticks + r := by
  simp [start, List.length_flatMap]

theorem start_extends_next (hr : r ≤ ticks) : start ticks b j r <+: start ticks b (j + 1) 0 := by
  rw [← start_full]
  exact ⟨List.replicate (ticks - r) (symbol b j), by
    rw [start, start, List.append_assoc, List.replicate_append_replicate,
      Nat.add_sub_cancel' hr]⟩

theorem start_extends (hj : j < 10) (hr : r ≤ ticks) : start ticks b j r <+: frame ticks b := by
  have hrows (k : ℕ) : start ticks b (j + 1) 0 <+: start ticks b (j + 1 + k) 0 := by
    induction k with
    | zero => exact List.prefix_rfl
    | succ k ih => exact ih.trans (start_extends_next (Nat.zero_le ticks))
  have hall := hrows (10 - (j + 1))
  rw [Nat.add_sub_cancel' hj, start_all] at hall
  exact (start_extends_next hr).trans hall

theorem start_eq_take (hj : j < 10) (hr : r ≤ ticks) :
    start ticks b j r = (frame ticks b).take (j * ticks + r) := by
  have h := List.prefix_iff_eq_take.1 (start_extends (b := b) hj hr)
  rwa [length_start] at h

/-- Sample `n` of a frame belongs to symbol `n / ticks`. -/
theorem frame_eq_map (h : 0 < ticks) (b : BitVec 8) :
    frame ticks b = (List.range (10 * ticks)).map fun n => symbol b (n / ticks) := by
  have hrows (m : ℕ) : ((List.range m).flatMap fun j => List.replicate ticks (symbol b j)) =
      (List.range (m * ticks)).map fun n => symbol b (n / ticks) := by
    induction m with
    | zero => simp
    | succ m ih =>
      have hrow : List.replicate ticks (symbol b m) =
          (List.range ticks).map fun n => symbol b ((m * ticks + n) / ticks) := by
        refine (List.eq_replicate_iff.2 ⟨by simp, ?_⟩).symm
        intro x hx
        obtain ⟨n, hn, rfl⟩ := List.mem_map.1 hx
        rw [Nat.mul_comm, Nat.mul_add_div h, Nat.div_eq_of_lt (List.mem_range.1 hn), Nat.add_zero]
      rw [List.range_succ, List.flatMap_append, ih, Nat.succ_mul, List.range_add, List.map_append,
        List.map_map]
      simpa [Function.comp_def] using hrow
  exact hrows 10

/-- Sample `r` of symbol `j`. -/
theorem frame_sample (hj : j < 10) (hr : r < ticks) :
    (frame ticks b)[j * ticks + r]? = some (symbol b j) := by
  have hindex : (j * ticks + r) / ticks = j := by
    rw [Nat.mul_comm, Nat.mul_add_div (Nat.zero_lt_of_lt hr), Nat.div_eq_of_lt hr, Nat.add_zero]
  have hlt : j * ticks + r < 10 * ticks :=
    calc j * ticks + r < (j + 1) * ticks := by rw [Nat.succ_mul]; exact Nat.add_lt_add_left hr _
      _ ≤ 10 * ticks := Nat.mul_le_mul_right _ hj
  rw [frame_eq_map (Nat.zero_lt_of_lt hr), List.getElem?_map, List.getElem?_range hlt,
    Option.map_some, hindex]

/-- The samples of a line that carries these frames, each with its own bit time, and is high
in between. -/
inductive Waveform : List (ℕ × BitVec 8) → List Bool → Prop
  | nil : Waveform [] []
  | idle {fs l} : Waveform fs l → Waveform fs (l ++ [true])
  | frame {fs l} (ticks : ℕ) (b : BitVec 8) :
    Waveform fs l → Waveform (fs ++ [(ticks, b)]) (l ++ frame ticks b)

/-- A line that has been high before. -/
theorem Waveform.after_idle {fs : List (ℕ × BitVec 8)} {l : List Bool} (h : Waveform fs l) :
    Waveform fs (true :: l) := by
  induction h with
  | nil => exact .idle .nil
  | idle _ ih => exact .idle ih
  | frame ticks b _ ih => exact .frame ticks b ih

end SerialLine
