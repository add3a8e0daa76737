import Mathlib.Data.List.Basic
import Mathlib.Tactic.Common

/-! A shift register that moves in some cycles only, against the list of what was put into it:
each item with the number of moves since, the youngest first. -/
namespace BonfireCore.ShiftPipeline

variable {α β : Type*} {j n : ℕ}

/-- The items age when the register moves. -/
def tick (moves : Bool) (items : List (α × ℕ)) : List (α × ℕ) :=
  items.map fun x => (x.1, x.2 + moves.toNat)

def push (new : Option α) (items : List (α × ℕ)) : List (α × ℕ) :=
  (new.map fun a => (a, 0)).toList ++ items

/-- What stage `j` holds: the youngest item that has moved `j` times. -/
def stage (j : ℕ) (items : List (α × ℕ)) : Option α :=
  (items.find? fun x => decide (j ≤ x.2)).map Prod.fst

@[simp] theorem tick_false (items : List (α × ℕ)) : tick false items = items := by
  simp [tick]

@[simp] theorem length_tick (moves : Bool) (items : List (α × ℕ)) :
    (tick moves items).length = items.length := by
  simp [tick]

@[simp] theorem map_fst_tick (moves : Bool) (items : List (α × ℕ)) :
    (tick moves items).map Prod.fst = items.map Prod.fst := by
  simp [tick, Function.comp_def]

@[simp] theorem push_none (items : List (α × ℕ)) : push none items = items := rfl

@[simp] theorem push_some (a : α) (items : List (α × ℕ)) :
    push (some a) items = (a, 0) :: items := rfl

theorem stage_succ_tick (items : List (α × ℕ)) :
    stage (j + 1) (tick true items) = stage j items := by
  induction items with
  | nil => rfl
  | cons x items ih =>
    simp only [stage, tick, List.map_cons, List.find?_cons, Bool.toNat_true] at ih ⊢
    by_cases h : j ≤ x.2
    · have h' : j + 1 ≤ x.2 + 1 := by omega
      simp [h, h']
    · have h' : ¬ j + 1 ≤ x.2 + 1 := by omega
      simpa [h, h'] using ih

theorem stage_succ_push (new : Option α) (items : List (α × ℕ)) :
    stage (j + 1) (push new items) = stage (j + 1) items := by
  cases new <;> simp [stage, push]

theorem stage_zero (items : List (α × ℕ)) : stage 0 items = items.head?.map Prod.fst := by
  cases items <;> simp [stage]

/-- The item behind the ones too young for the stage. -/
theorem stage_append {young old : List (α × ℕ)} {x : α × ℕ} (hy : ∀ y ∈ young, y.2 < j)
    (hx : j ≤ x.2) : stage j (young ++ x :: old) = some x.1 := by
  have hnone : young.find? (fun y => decide (j ≤ y.2)) = none := by
    rw [List.find?_eq_none]
    intro y hmem
    simpa using hy y hmem
  simp [stage, List.find?_append, hnone, hx]

/-- The first `n` registers hold what the items say. -/
def Holds (f : α → β) (n : ℕ) (items : List (α × ℕ)) (pipe : ℕ → β) : Prop :=
  ∀ j < n, ∀ a, stage j items = some a → pipe j = f a

/-- One cycle: the register moves if something new comes, and perhaps otherwise. -/
theorem Holds.step {f : α → β} {items : List (α × ℕ)} {pipe pipe' : ℕ → β} {new : Option α}
    {moves : Bool} (h : Holds f n items pipe) (hnew : ∀ a, new = some a → pipe' 0 = f a)
    (hkeep : new = none → pipe' 0 = pipe 0) (hmoves : new ≠ none → moves = true)
    (hshift : ∀ j, j + 1 < n → pipe' (j + 1) = if moves then pipe j else pipe (j + 1)) :
    Holds f n (push new (tick moves items)) pipe' := by
  intro j hj a ha
  cases j with
  | zero =>
    cases new with
    | some b =>
      obtain rfl : b = a := by simpa [stage] using ha
      exact hnew b rfl
    | none =>
      rw [hkeep rfl]
      refine h 0 hj a ?_
      rw [push_none, stage_zero] at ha
      rw [stage_zero, ← ha]
      cases items <;> rfl
  | succ j =>
    rw [stage_succ_push] at ha
    rw [hshift j hj]
    cases moves with
    | true =>
      rw [stage_succ_tick] at ha
      exact h j (by omega) a ha
    | false =>
      rw [tick_false] at ha
      exact h (j + 1) hj a ha

end BonfireCore.ShiftPipeline
