import Mathlib.Data.List.Basic
import Mathlib.Tactic.Common

/-! Clocked machines: registers that change once per clock edge, driven by the
signals sampled at that edge. Runs are finite input lists; what an environment may
do is a condition on each input in the state where it arrives. -/
namespace BonfireCore

structure Clocked (σ ι : Type*) where
  init : σ
  step : σ → ι → σ

namespace Clocked
variable {σ ι : Type*} (M : Clocked σ ι)

def runFrom (s : σ) (is : List ι) : σ := is.foldl M.step s

def run (is : List ι) : σ := M.runFrom M.init is

/-- `P` holds at every step of the run: of the state before the edge and the input. -/
def Along (P : σ → ι → Prop) : σ → List ι → Prop
  | _, [] => True
  | s, i :: is => P s i ∧ Along P (M.step s i) is

@[simp] theorem runFrom_nil (s : σ) : M.runFrom s [] = s := rfl

@[simp] theorem runFrom_cons (s : σ) (i : ι) (is : List ι) :
    M.runFrom s (i :: is) = M.runFrom (M.step s i) is := rfl

theorem runFrom_append (s : σ) (is js : List ι) :
    M.runFrom s (is ++ js) = M.runFrom (M.runFrom s is) js :=
  List.foldl_append

@[simp] theorem along_nil (P : σ → ι → Prop) (s : σ) : M.Along P s [] := trivial

@[simp] theorem along_cons (P : σ → ι → Prop) (s : σ) (i : ι) (is : List ι) :
    M.Along P s (i :: is) ↔ P s i ∧ M.Along P (M.step s i) is := Iff.rfl

variable {M}

theorem along_congr {P Q : σ → ι → Prop} (h : ∀ s i, P s i ↔ Q s i) {s : σ} {is : List ι} :
    M.Along P s is ↔ M.Along Q s is := by
  induction is generalizing s with
  | nil => exact Iff.rfl
  | cons i is ih => exact and_congr (h s i) ih

theorem Along.congr {R P Q : σ → ι → Prop} (h : ∀ s i, R s i → (P s i ↔ Q s i)) {s : σ}
    {is : List ι} (hr : M.Along R s is) : M.Along P s is ↔ M.Along Q s is := by
  induction is generalizing s with
  | nil => exact Iff.rfl
  | cons i is ih => exact and_congr (h s i hr.1) (ih hr.2)

theorem along_append {P : σ → ι → Prop} {s : σ} {is js : List ι} :
    M.Along P s (is ++ js) ↔ M.Along P s is ∧ M.Along P (M.runFrom s is) js := by
  induction is generalizing s with
  | nil => simp
  | cons i is ih => simp [ih, and_assoc]

theorem Along.and {P Q : σ → ι → Prop} {s : σ} {is : List ι} (hp : M.Along P s is)
    (hq : M.Along Q s is) : M.Along (fun s i => P s i ∧ Q s i) s is := by
  induction is generalizing s with
  | nil => trivial
  | cons i is ih => exact ⟨⟨hp.1, hq.1⟩, ih hp.2 hq.2⟩

instance decidableAlong (P : σ → ι → Prop) [∀ s i, Decidable (P s i)] :
    ∀ s is, Decidable (M.Along P s is)
  | _, [] => inferInstanceAs (Decidable True)
  | s, i :: is =>
    have := decidableAlong P (M.step s i) is
    inferInstanceAs (Decidable (P s i ∧ M.Along P (M.step s i) is))

/-- The invariant rule: what every allowed step preserves holds after the run. -/
theorem Along.invariant {ok : σ → ι → Prop} (inv : σ → Prop)
    (hstep : ∀ s i, inv s → ok s i → inv (M.step s i)) {s : σ} {is : List ι}
    (hs : inv s) (h : M.Along ok s is) : inv (M.runFrom s is) := by
  induction is generalizing s with
  | nil => exact hs
  | cons i is ih => exact ih (hstep s i hs h.1) h.2

/-- What each step brings one step nearer. -/
theorem Along.countdown {ok : σ → ι → Prop} (due : ℕ → σ → Prop)
    (hstep : ∀ n s i, due n s → ok s i → due (n - 1) (M.step s i)) {n : ℕ} {s : σ} {is : List ι}
    (hs : due n s) (h : M.Along ok s is) : due (n - is.length) (M.runFrom s is) := by
  induction is generalizing n s with
  | nil => exact hs
  | cons i is ih =>
    rw [List.length_cons, Nat.add_comm, ← Nat.sub_sub]
    exact ih (hstep n s i hs h.1) h.2

/-- A step property that follows from the invariant holds along the whole run. -/
theorem Along.mono {ok P : σ → ι → Prop} (inv : σ → Prop)
    (hstep : ∀ s i, inv s → ok s i → inv (M.step s i))
    (hP : ∀ s i, inv s → ok s i → P s i) {s : σ} {is : List ι}
    (hs : inv s) (h : M.Along ok s is) : M.Along P s is := by
  induction is generalizing s with
  | nil => trivial
  | cons i is ih => exact ⟨hP s i hs h.1, ih (hstep s i hs h.1) h.2⟩

/-- The same up to a bound that a measure, which no step lowers, has not passed at the end. -/
theorem Along.mono_below {ok P : σ → ι → Prop} (inv : σ → Prop) (μ : σ → ℕ)
    (hμ : ∀ s i, μ s ≤ μ (M.step s i)) {n : ℕ}
    (hP : ∀ s i, inv s → ok s i → μ (M.step s i) ≤ n → P s i ∧ inv (M.step s i)) {s : σ}
    {is : List ι} (hs : inv s) (h : M.Along ok s is) (hn : μ (M.runFrom s is) ≤ n) :
    M.Along P s is ∧ inv (M.runFrom s is) := by
  have hle (s : σ) (is : List ι) : μ s ≤ μ (M.runFrom s is) := by
    induction is generalizing s with
    | nil => exact Nat.le_refl _
    | cons i is ih => exact Nat.le_trans (hμ s i) (ih _)
  induction is generalizing s with
  | nil => exact ⟨trivial, hs⟩
  | cons i is ih =>
    obtain ⟨hfirst, hs'⟩ := hP s i hs h.1 (Nat.le_trans (hle _ is) hn)
    obtain ⟨hrest, hend⟩ := ih hs' h.2 hn
    exact ⟨⟨hfirst, hrest⟩, hend⟩

/-- Two step properties that agree wherever the invariant holds, which a step keeps as long as
they do. -/
theorem Along.congr_invariant {R P Q : σ → ι → Prop} (inv : σ → Prop)
    (hstep : ∀ s i, inv s → R s i → Q s i → inv (M.step s i))
    (h : ∀ s i, inv s → R s i → (P s i ↔ Q s i)) {s : σ} {is : List ι}
    (hs : inv s) (hr : M.Along R s is) : M.Along P s is ↔ M.Along Q s is := by
  induction is generalizing s with
  | nil => exact Iff.rfl
  | cons i is ih =>
    have hPQ := h s i hs hr.1
    constructor
    · rintro ⟨hp, hrest⟩
      have hq := hPQ.1 hp
      exact ⟨hq, (ih (hstep s i hs hr.1 hq) hr.2).1 hrest⟩
    · rintro ⟨hq, hrest⟩
      exact ⟨hPQ.2 hq, (ih (hstep s i hs hr.1 hq) hr.2).2 hrest⟩

/-- With no condition on the inputs. -/
theorem along_of_inv {P : σ → ι → Prop} (inv : σ → Prop)
    (hstep : ∀ s i, inv s → inv (M.step s i)) (hP : ∀ s i, inv s → P s i) {s : σ}
    {is : List ι} (hs : inv s) : M.Along P s is := by
  induction is generalizing s with
  | nil => trivial
  | cons i is ih => exact ⟨hP s i hs, ih (hstep s i hs)⟩

/-- Either `p` never holds, or there is a first time. -/
theorem exists_first (p : σ → Prop) (s : σ) (is : List ι) :
    (M.Along (fun t _ => ¬ p t) s is ∧ ¬ p (M.runFrom s is)) ∨
      ∃ js ks, is = js ++ ks ∧ M.Along (fun t _ => ¬ p t) s js ∧ p (M.runFrom s js) := by
  by_cases hp : p s
  · exact .inr ⟨[], is, rfl, trivial, hp⟩
  · induction is generalizing s with
    | nil => exact .inl ⟨trivial, hp⟩
    | cons i is ih =>
      by_cases hnext : p (M.step s i)
      · exact .inr ⟨[i], is, rfl, ⟨hp, trivial⟩, hnext⟩
      · rcases ih _ hnext with ⟨halong, hend⟩ | ⟨js, ks, rfl, halong, hend⟩
        · exact .inl ⟨⟨hp, halong⟩, hend⟩
        · exact .inr ⟨i :: js, ks, rfl, ⟨hp, halong⟩, hend⟩

/-- The inputs another machine sees while this one runs. -/
def labels {κ : Type*} (M : Clocked σ ι) (lab : σ → ι → κ) : σ → List ι → List κ
  | _, [] => []
  | s, i :: is => lab s i :: labels M lab (M.step s i) is

theorem labels_const {κ : Type*} (k : κ) (s : σ) (is : List ι) :
    M.labels (fun _ _ => k) s is = List.replicate is.length k := by
  induction is generalizing s with
  | nil => rfl
  | cons i is ih => exact congrArg (k :: ·) (ih _)

/-- A potential that no step lowers, and that grows with every step counted. -/
theorem Along.count_le {ok : σ → ι → Prop} (inv : σ → Prop)
    (hstep : ∀ s i, inv s → ok s i → inv (M.step s i)) {counts : σ → ι → Bool} {φ : σ → ℕ}
    (hφ : ∀ s i, inv s → ok s i → φ s + (if counts s i then 1 else 0) ≤ φ (M.step s i)) {s : σ}
    {is : List ι} (hs : inv s) (h : M.Along ok s is) :
    φ s + (M.labels counts s is).count true ≤ φ (M.runFrom s is) := by
  induction is generalizing s with
  | nil => exact Nat.le_refl _
  | cons i is ih =>
    have hrest := ih (hstep s i hs h.1) h.2
    have hfirst := hφ s i hs h.1
    rw [labels, runFrom_cons]
    cases hc : counts s i with
    | true =>
      rw [hc, if_pos rfl] at hfirst
      rw [List.count_cons_self]
      omega
    | false =>
      rw [hc, if_neg Bool.false_ne_true] at hfirst
      rw [List.count_cons_of_ne Bool.false_ne_true]
      omega

/-- Relabelling: a machine whose every step is a step of `N` runs as `N` does. -/
theorem runFrom_labels {τ κ : Type*} {N : Clocked τ κ} {abs : σ → τ} {lab : σ → ι → κ}
    (h : ∀ s i, abs (M.step s i) = N.step (abs s) (lab s i)) (s : σ) (is : List ι) :
    abs (M.runFrom s is) = N.runFrom (abs s) (M.labels lab s is) := by
  induction is generalizing s with
  | nil => rfl
  | cons i is ih => exact (ih _).trans (congrArg (N.runFrom · _) (h s i))

theorem along_labels {τ κ : Type*} {N : Clocked τ κ} {abs : σ → τ} {lab : σ → ι → κ}
    (h : ∀ s i, abs (M.step s i) = N.step (abs s) (lab s i)) {P : τ → κ → Prop} {s : σ}
    {is : List ι} :
    N.Along P (abs s) (M.labels lab s is) ↔ M.Along (fun s i => P (abs s) (lab s i)) s is := by
  induction is generalizing s with
  | nil => exact Iff.rfl
  | cons i is ih => exact and_congr Iff.rfl (h s i ▸ ih)

/-- A machine that carries another one along on the same inputs. -/
theorem along_comap {τ : Type*} {N : Clocked τ ι} (abs : σ → τ)
    (h : ∀ s i, abs (M.step s i) = N.step (abs s) i) {P : τ → ι → Prop} {s : σ} {is : List ι} :
    N.Along P (abs s) is ↔ M.Along (fun s i => P (abs s) i) s is := by
  induction is generalizing s with
  | nil => exact Iff.rfl
  | cons i is ih => exact and_congr Iff.rfl (h s i ▸ ih)

/-- The simulation rule: if every allowed step of `M` is, seen through `abs`, the step of
`N` on the label, then a run of `M` is a run of `N` on the labels. -/
theorem Along.simulates {τ κ : Type*} {N : Clocked τ κ} {ok : σ → ι → Prop}
    (abs : σ → τ) (lab : σ → ι → κ) (okN : τ → κ → Prop) (inv : τ → Prop)
    (hinv : ∀ t k, inv t → okN t k → inv (N.step t k))
    (hstep : ∀ s i, inv (abs s) → ok s i →
      okN (abs s) (lab s i) ∧ abs (M.step s i) = N.step (abs s) (lab s i))
    {s : σ} {is : List ι} (hs : inv (abs s)) (h : M.Along ok s is) :
    N.Along okN (abs s) (M.labels lab s is) ∧
      abs (M.runFrom s is) = N.runFrom (abs s) (M.labels lab s is) := by
  induction is generalizing s with
  | nil => exact ⟨trivial, rfl⟩
  | cons i is ih =>
    obtain ⟨hok, heq⟩ := hstep s i hs h.1
    have hs' : inv (abs (M.step s i)) := heq ▸ hinv _ _ hs hok
    obtain ⟨halong, hrun⟩ := ih hs' h.2
    rw [heq] at halong hrun
    exact ⟨⟨hok, halong⟩, hrun⟩

end Clocked
end BonfireCore
