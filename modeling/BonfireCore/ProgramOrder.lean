import BonfireCore.ControlFlow

/-! The words Execute takes, where every word fetched decodes. -/
namespace BonfireCore
namespace Followed

variable {c : CoreConfig} {s : Followed} {i : CoreInput} {mem : Word → Word}

/-- The bus answers at least one cycle after the acceptance, with words that decode. -/
structure Serves (c : CoreConfig) (mem : Word → Word) (s : Followed) (i : CoreInput) : Prop where
  bus : s.BusOk c i mem
  later : AnswersLater s.owed i.ibus
  valid : i.ibus.ack = true → (opClass i.ibus.dbRd).isSome = true

instance : Decidable (s.Serves c mem i) :=
  decidable_of_iff (s.BusOk c i mem ∧ (i.ibus.ack = true → s.owed.isSome = true) ∧
    (i.ibus.ack = true → (opClass i.ibus.dbRd).isSome = true))
    ⟨fun h => ⟨h.1, h.2.1, h.2.2⟩, fun h => ⟨h.bus, h.later, h.valid⟩⟩

/-- The jump finds Fetch ready for it, and the word at its target nothing to wait for. -/
structure Followable (c : CoreConfig) (s : Followed) (i : CoreInput) : Prop where
  prompt : s.Prompt c
  owes : s.Owes c i

instance : Decidable (s.Followable c i) :=
  decidable_of_iff ((c.shifterMode = .behavioral → s.core.backend.execute.jumpR = true →
      s.core.backend.hazard c = false) ∧
    (s.core.fetch.newJump (s.core.fetchInput c i) = true → s.core.fetch.outstanding = true →
      s.owed.isSome = true))
    ⟨fun h => ⟨h.1, h.2⟩, fun h => ⟨h.prompt, h.owes⟩⟩

/-- No rejected word is anywhere. -/
structure Known (s : Followed) : Prop where
  fetch : s.core.fetch.Known
  accepted : ∀ v ∈ s.accepted, v.rejected = false

theorem Known.offer (h : s.Known) (hf : s.core.fetch.valid = true) : s.offer.rejected = false := by
  have hword := h.fetch.word0 hf
  simpa [Followed.offer, Visit.rejected] using hword

theorem Known.kept (h : s.Known) : ∀ v ∈ s.kept c i, v.rejected = false := by
  intro v hv
  have hacc := h.accepted
  unfold Followed.kept at hv
  split_ifs at hv
  · cases hlist : s.accepted with
    | nil => simp [hlist, Visit.resolve] at hv
    | cons w ws =>
      rw [hlist] at hv hacc
      rcases List.mem_cons.1 hv with rfl | hv
      · exact hacc w List.mem_cons_self
      · exact hacc v (List.mem_cons_of_mem _ hv)
  · exact hacc v (List.mem_of_mem_tail hv)
  · exact hacc v hv

theorem Known.step (h : s.Known) (hok : s.Serves c mem i) : (s.step c i).Known where
  fetch := h.fetch.step hok.valid
  accepted := by
    intro v hv
    have hkept := h.kept (c := c) (i := i)
    simp only [Followed.step] at hv
    split_ifs at hv with hacc
    · have hf : s.core.fetch.valid = true := by
        simp only [accepts, Bool.and_eq_true] at hacc
        exact hacc.1.1
      rcases List.mem_cons.1 hv with rfl | hv
      · exact h.offer hf
      · exact hkept v hv
    · exact hkept v hv

theorem Known.taken (h : s.Known) (hinv : s.Inv c mem) :
    Visit.Path c.resetAddress mem s.taken := by
  have hall : ∀ v ∈ s.settled, (!v.rejected) = true := by
    intro v hv
    have hmem : v ∈ s.accepted := by
      unfold settled at hv
      split_ifs at hv
      · exact List.mem_of_mem_tail hv
      · exact hv
    simp [h.accepted v hmem]
  rw [hinv.taken, List.filter_eq_self.2 hall]
  exact hinv.path

theorem program_order (c : CoreConfig) (hby : c.jumpBypass = true) (mem : Word → Word)
    (is : List CoreInput) (hbus : (machine c).Along (Serves c mem) (machine c).init is)
    (hok : (machine c).Along (Followable c) (machine c).init is) :
    Visit.Path c.resetAddress mem ((machine c).run is).taken ∧
      (machine c).Along (FollowsOnce c) (machine c).init is := by
  have halong := hbus.and hok
  have hstep (s : Followed) (i : CoreInput) (h : s.Inv c mem ∧ s.Known)
      (hok : s.Serves c mem i ∧ s.Followable c i) :
      (s.step c i).Inv c mem ∧ (s.step c i).Known := by
    obtain ⟨hinv, hknown⟩ := h
    obtain ⟨hserve, hfollow⟩ := hok
    refine ⟨inv_step hinv hserve.bus hserve.later (fun hf _ => hknown.offer hf) hfollow.prompt ?_,
      hknown.step hserve⟩
    exact hinv.emptied hby
  have hinit : (machine c).init.Inv c mem ∧ (machine c).init.Known :=
    ⟨inv_init c mem, ⟨⟨fun h => absurd h Bool.false_ne_true, fun h => absurd h Bool.false_ne_true⟩,
      fun v hv => absurd hv List.not_mem_nil⟩⟩
  constructor
  · have hrun := Clocked.Along.invariant (fun s => s.Inv c mem ∧ s.Known) hstep hinit halong
    exact hrun.2.taken hrun.1
  · refine halong.mono (fun s => s.Inv c mem ∧ s.Known) hstep (fun s i h hok => ?_) hinit
    exact h.1.followsOnce hby hok.2.prompt hok.2.owes

theorem program_order_jump :
    Visit.Path 0 (jumpTo 0x13) ((machine {}).run (jumpRun 0x13)).taken ∧
      (machine {}).Along (FollowsOnce {}) (machine {}).init (jumpRun 0x13) :=
  program_order {} rfl (jumpTo 0x13) (jumpRun 0x13) (by decide +kernel) (by decide +kernel)

/-- The request behind the jump meets a busy bus, and is withdrawn when the jump is taken. -/
def withdrawnRun : List CoreInput :=
  [{}, {}, { ibus := { ack := true, dbRd := 0x0080006f, stall := true } },
    { ibus := { stall := true } }, {}, {}, {}]

/-- Fetch waits for an answer that nobody owes. -/
theorem withdrawn_request_wedges :
    (machine {}).Along (Serves {} (jumpTo 0x13)) (machine {}).init withdrawnRun ∧
      ¬ (machine {}).Along (FollowsOnce {}) (machine {}).init withdrawnRun := by
  refine ⟨by decide +kernel, fun h => ?_⟩
  have hlast := (h.2.2.2.2.1).promptly (by decide +kernel)
  exact absurd hlast (by decide +kernel)

end Followed
end BonfireCore
