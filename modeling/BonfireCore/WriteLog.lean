import Mathlib.Logic.Function.Basic
import Mathlib.Data.List.Basic

/-! Logs of writes, latest first, and the contents they leave. -/
namespace BonfireCore.WriteLog

variable {ρ ν : Type*} [DecidableEq ρ]

def replay (init : ρ → ν) : List (ρ × ν) → ρ → ν
  | [] => init
  | (r, v) :: ws => Function.update (replay init ws) r v

variable {init : ρ → ν}

@[simp] theorem replay_nil : replay init [] = init := rfl

@[simp] theorem replay_cons (w : ρ × ν) (ws : List (ρ × ν)) :
    replay init (w :: ws) = Function.update (replay init ws) w.1 w.2 := rfl

theorem replay_append (ws vs : List (ρ × ν)) :
    replay init (ws ++ vs) = replay (replay init vs) ws := by
  induction ws with
  | nil => rfl
  | cons w ws ih => rw [List.cons_append, replay_cons, replay_cons, ih]

/-- A location no late write goes to already has its final value. -/
theorem replay_append_of_not_mem {late ws : List (ρ × ν)} {r : ρ} (h : ∀ w ∈ late, w.1 ≠ r) :
    replay init (late ++ ws) r = replay init ws r := by
  induction late with
  | nil => rfl
  | cons w late ih =>
    have hr : r ≠ w.1 := fun hr => h w List.mem_cons_self hr.symm
    rw [List.cons_append, replay_cons, Function.update_of_ne hr]
    exact ih fun v hv => h v (List.mem_cons_of_mem _ hv)

end BonfireCore.WriteLog
