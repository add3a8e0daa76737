import Mathlib.Logic.Function.Basic
import Mathlib.Data.List.Basic
import Mathlib.Tactic.Common

/-! Patches over a memory and the log that takes them back. A patch remembers what it covers;
patches may cover one another, and then the order in which they are undone matters. -/
namespace BonfireCore.UndoLog
variable {α β : Type*}

def Apart (cells cells' : List (α × β)) : Prop := ∀ c ∈ cells, ∀ c' ∈ cells', c.1 ≠ c'.1

def Holds (m : α → β) (cells : List (α × β)) : Prop := ∀ c ∈ cells, m c.1 = c.2

/-- What the cells cover. -/
def covered (m : α → β) (cells : List (α × β)) : List (α × β) := cells.map fun c => (c.1, m c.1)

structure Patch (α β : Type*) where
  new : List (α × β)
  old : List (α × β)
  keys : old.map Prod.fst = new.map Prod.fst

namespace Patch

def apply (m : α → β) (cells : List (α × β)) : Patch α β where
  new := cells
  old := covered m cells
  keys := by simp [covered]

end Patch

theorem Apart.symm {cells cells' : List (α × β)} (h : Apart cells cells') :
    Apart cells' cells :=
  fun c' hc' c hc => (h c hc c' hc').symm

theorem Apart.of_keys {cells cells' cells'' : List (α × β)} (h : Apart cells cells')
    (hkeys : cells''.map Prod.fst = cells'.map Prod.fst) : Apart cells cells'' := by
  intro c hc c'' hc''
  have hmem : c''.1 ∈ cells'.map Prod.fst := hkeys ▸ List.mem_map_of_mem hc''
  obtain ⟨c', hc', heq⟩ := List.mem_map.mp hmem
  exact heq ▸ h c hc c' hc'

variable [DecidableEq α]

/-- Cells written in order. -/
def writes (m : α → β) : List (α × β) → α → β
  | [] => m
  | c :: cells => writes (Function.update m c.1 c.2) cells

/-- The memory with every patch undone, the newest first. -/
def unwind (m : α → β) : List (Patch α β) → α → β
  | [] => m
  | p :: log => unwind (writes m p.old) log

/-- Every patch stands as it was applied once those after it are undone. -/
def Intact (m : α → β) : List (Patch α β) → Prop
  | [] => True
  | p :: log => Holds m p.new ∧ Intact (writes m p.old) log

section Writes
variable (m : α → β) {cells cells' : List (α × β)} {x : α}

theorem writes_of_forall_ne (h : ∀ c ∈ cells, c.1 ≠ x) : writes m cells x = m x := by
  induction cells generalizing m with
  | nil => rfl
  | cons c cells ih =>
    rw [writes, ih _ fun c' hc' => h c' (List.mem_cons_of_mem c hc')]
    exact Function.update_of_ne (h c List.mem_cons_self).symm _ _

/-- A cell that is written does not depend on what was there. -/
theorem writes_congr (m m' : α → β) (h : x ∈ cells.map Prod.fst ∨ m x = m' x) :
    writes m cells x = writes m' cells x := by
  induction cells generalizing m m' with
  | nil =>
    rcases h with h | h
    · exact absurd h List.not_mem_nil
    · exact h
  | cons c cells ih =>
    refine ih _ _ ?_
    by_cases hx : x = c.1
    · subst hx
      exact .inr (by rw [Function.update_self, Function.update_self])
    · rw [Function.update_of_ne hx, Function.update_of_ne hx]
      rcases h with h | h
      · exact .inl ((List.mem_cons.mp h).resolve_left hx)
      · exact .inr h

theorem writes_comm (h : Apart cells cells') :
    writes (writes m cells) cells' = writes (writes m cells') cells := by
  funext x
  by_cases hx : x ∈ cells.map Prod.fst
  · obtain ⟨c, hc, rfl⟩ := List.mem_map.mp hx
    have hne : ∀ c' ∈ cells', c'.1 ≠ c.1 := fun c' hc' => (h c hc c' hc').symm
    rw [writes_of_forall_ne _ hne]
    exact writes_congr m _ (.inl hx)
  · have hne : ∀ c ∈ cells, c.1 ≠ x := fun c hc heq => hx (List.mem_map.mpr ⟨c, hc, heq⟩)
    rw [writes_of_forall_ne (writes m cells') hne]
    exact writes_congr _ _ (.inr (writes_of_forall_ne m hne))

theorem writes_covered_of_keys {m m' : α → β} (h : ∀ x, x ∉ cells.map Prod.fst → m' x = m x) :
    writes m' (covered m cells) = m := by
  induction cells generalizing m' with
  | nil => exact funext fun x => h x List.not_mem_nil
  | cons c cells ih =>
    refine ih fun x hx => ?_
    by_cases hxc : x = c.1
    · subst hxc
      exact Function.update_self _ _ _
    · rw [Function.update_of_ne hxc]
      exact h x fun hmem => (List.mem_cons.mp hmem).elim hxc hx

/-- Writing back what cells cover undoes them. -/
theorem writes_covered : writes (writes m cells) (covered m cells) = m :=
  writes_covered_of_keys fun _ hx =>
    writes_of_forall_ne m fun c hc heq => hx (List.mem_map.mpr ⟨c, hc, heq⟩)

theorem holds_writes (hkeys : (cells.map Prod.fst).Nodup) : Holds (writes m cells) cells := by
  induction cells generalizing m with
  | nil => exact nofun
  | cons c cells ih =>
    obtain ⟨hfresh, hkeys⟩ := List.nodup_cons.mp hkeys
    intro c' hc'
    rcases List.mem_cons.mp hc' with rfl | hc'
    · have hne : ∀ d ∈ cells, d.1 ≠ c'.1 :=
        fun d hd heq => hfresh (List.mem_map.mpr ⟨d, hd, heq⟩)
      rw [writes, writes_of_forall_ne _ hne]
      exact Function.update_self _ _ _
    · exact ih _ hkeys c' hc'

theorem holds_writes_iff (h : Apart cells cells') :
    Holds (writes m cells') cells ↔ Holds m cells := by
  refine forall_congr' fun c => forall_congr' fun hc => ?_
  rw [writes_of_forall_ne m fun c' hc' => (h c hc c' hc').symm]

end Writes

section Log
variable (m : α → β) {cells : List (α × β)} {p : Patch α β} {newer older log : List (Patch α β)}

theorem unwind_apply : unwind (writes m cells) (Patch.apply m cells :: log) = unwind m log :=
  congrArg (unwind · log) (writes_covered m)

/-- A write that no patch covers shows through. -/
theorem unwind_writes (h : ∀ p ∈ log, Apart cells p.new) :
    unwind (writes m cells) log = writes (unwind m log) cells := by
  induction log generalizing m with
  | nil => rfl
  | cons p log ih =>
    have hp : Apart cells p.old := (h p List.mem_cons_self).of_keys p.keys
    rw [unwind, writes_comm m hp]
    exact ih _ fun q hq => h q (List.mem_cons_of_mem p hq)

/-- A patch can be undone first if no newer one touches it. -/
theorem unwind_remove (h : ∀ q ∈ newer, Apart p.new q.new) :
    unwind (writes m p.old) (newer ++ older) = unwind m (newer ++ p :: older) := by
  induction newer generalizing m with
  | nil => rfl
  | cons q newer ih =>
    have hq : Apart p.old q.old :=
      ((h q List.mem_cons_self).of_keys q.keys).symm.of_keys p.keys |>.symm
    rw [List.cons_append, List.cons_append, unwind, writes_comm m hq]
    exact ih _ fun q' hq' => h q' (List.mem_cons_of_mem q hq')

theorem intact_apply (hkeys : (cells.map Prod.fst).Nodup) (h : Intact m log) :
    Intact (writes m cells) (Patch.apply m cells :: log) := by
  refine ⟨holds_writes m hkeys, ?_⟩
  rw [show (Patch.apply m cells).old = covered m cells from rfl, writes_covered]
  exact h

theorem intact_writes (h : ∀ p ∈ log, Apart cells p.new) (hm : Intact m log) :
    Intact (writes m cells) log := by
  induction log generalizing m with
  | nil => trivial
  | cons p log ih =>
    have hp : Apart cells p.new := h p List.mem_cons_self
    refine ⟨(holds_writes_iff m hp.symm).mpr hm.1, ?_⟩
    rw [writes_comm m (hp.of_keys p.keys)]
    exact ih _ (fun q hq => h q (List.mem_cons_of_mem p hq)) hm.2

theorem intact_remove (h : ∀ q ∈ newer, Apart p.new q.new) (hm : Intact m (newer ++ p :: older)) :
    Intact (writes m p.old) (newer ++ older) := by
  induction newer generalizing m with
  | nil => exact hm.2
  | cons q newer ih =>
    have hq : Apart q.new p.old := (h q List.mem_cons_self).symm.of_keys p.keys
    refine ⟨(holds_writes_iff m hq).mpr hm.1, ?_⟩
    rw [writes_comm m (hq.symm.of_keys q.keys)]
    exact ih _ (fun q' hq' => h q' (List.mem_cons_of_mem q hq')) hm.2

/-- Cells of a patch that no newer one touches are in memory. -/
theorem holds_of_intact (hcells : ∀ c ∈ cells, c ∈ p.new) (h : ∀ q ∈ newer, Apart cells q.new)
    (hm : Intact m (newer ++ p :: older)) : Holds m cells := by
  induction newer generalizing m with
  | nil => exact fun c hc => hm.1 c (hcells c hc)
  | cons q newer ih =>
    have hq : Apart cells q.old := (h q List.mem_cons_self).of_keys q.keys
    exact (holds_writes_iff m hq).mp
      (ih _ (fun q' hq' => h q' (List.mem_cons_of_mem q hq')) hm.2)

end Log

end BonfireCore.UndoLog
