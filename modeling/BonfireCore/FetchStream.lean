import BonfireCore.Fetch

/-! What Fetch holds of the instruction stream, on an instruction bus with at most one
request that is accepted and not answered. -/
namespace BonfireCore

/-- Consecutive words from `pc` on. -/
def Consecutive : Word → List Word → Prop
  | _, [] => True
  | pc, a :: as => a = pc ∧ Consecutive (pc + 4) as

section Bus
variable (mem : Word → Word) (owed : Option Word) (q : DbusRequest 32) (r : DbusResponse 32)

/-- `owed`: the address of the request the bus has accepted and not answered. -/
structure OneRequest : Prop where
  answer : r.ack = true → owed.isSome = true ∨ q.en = true ∧ r.stall = false
  data : r.ack = true → r.dbRd = mem (owed.getD q.adr)
  accept : q.en = true → r.stall = false → r.ack = true ∨ owed = none

/-- An answer comes at least one cycle after the acceptance. -/
def AnswersLater : Prop := r.ack = true → owed.isSome = true

def nextOwed : Option Word :=
  if q.en && !r.stall && (owed.isSome || !r.ack) then some q.adr
  else if r.ack then none
  else owed

instance : Decidable (OneRequest mem owed q r) :=
  decidable_of_iff
    ((r.ack = true → owed.isSome = true ∨ q.en = true ∧ r.stall = false) ∧
      (r.ack = true → r.dbRd = mem (owed.getD q.adr)) ∧
      (q.en = true → r.stall = false → r.ack = true ∨ owed = none))
    ⟨fun h => ⟨h.1, h.2.1, h.2.2⟩, fun h => ⟨h.answer, h.data, h.accept⟩⟩

instance : Decidable (AnswersLater owed r) := inferInstanceAs (Decidable (_ → _))

end Bus

namespace Fetch

/-- The words Fetch has, the one it waits for, and the one it requests next. -/
def upcoming (f : Fetch) (owed : Option Word) : List Word :=
  (if f.valid then [f.currentIp0] else []) ++ (if f.busy then [f.currentIp1] else []) ++
    owed.toList ++ [f.ip]

/-- The words from `pc` on are on their way to Decode. -/
structure Streams (mem : Word → Word) (owed : Option Word) (pc : Word) (f : Fetch) : Prop where
  order : Consecutive pc (f.upcoming owed)
  word0 : f.valid = true → f.currentWord0 = mem f.currentIp0
  word1 : f.busy = true → f.currentWord1 = mem f.currentIp1
  inFlight : ∀ a, owed = some a → f.currentIp2 = a ∧ f.outstanding = true
  buffered : f.busy = true → f.outstanding = false
  idle : f.run = false → f.valid = false ∧ f.busy = false ∧ owed = none

/-- Fetch follows the jump in this cycle. -/
def redirects (f : Fetch) (i : FetchInput) : Bool :=
  f.run && (!f.outstanding || i.ibus.ack) && f.newJump i

variable {mem : Word → Word} {owed : Option Word} {pc : Word} {f : Fetch} {i : FetchInput}

theorem Streams.offered (h : f.Streams mem owed pc) (hv : f.valid = true) :
    f.currentIp0 = pc ∧ f.currentWord0 = mem pc := by
  have horder := h.order
  simp only [upcoming, hv, if_true, List.cons_append, Consecutive] at horder
  exact ⟨horder.1, horder.1 ▸ h.word0 hv⟩

theorem Streams.unowed (h : f.Streams mem owed pc) (ho : f.outstanding = false) : owed = none := by
  cases owed with
  | none => rfl
  | some a => simp [(h.inFlight a rfl).2] at ho

/-- The registers after a cycle in which Fetch runs and follows no jump. -/
theorem step_running (hrun : f.run = true) (hn : f.newJump i = false) :
    f.step i =
      { f.advance i with
        jumpTaken := f.jumpTaken && !(f.valid || i.stall && !i.jump)
        outstanding :=
          if f.en i && !i.ibus.ack then true
          else if !f.en i && i.ibus.ack then false
          else f.outstanding } := by
  simp [Fetch.step, hrun, hn]

/-- Without a redirect Fetch hands over the first word, if the backend takes it, and goes on. -/
theorem Streams.step (h : f.Streams mem owed pc) (hbus : OneRequest mem owed (f.request i) i.ibus)
    (hlate : AnswersLater owed i.ibus) (hn : f.newJump i = false) :
    (f.step i).Streams mem (nextOwed owed (f.request i) i.ibus)
      (if f.valid && !i.stall then pc + 4 else pc) := by
  have horder := h.order
  have hword0 := h.word0
  have hword1 := h.word1
  have hin := h.inFlight
  have hbuf := h.buffered
  cases hrun : f.run with
  | false =>
    obtain ⟨hv, hb, rfl⟩ := h.idle hrun
    have hen : f.en i = false := by simp [en, hrun]
    have hack : i.ibus.ack = false := by
      cases hack : i.ibus.ack with
      | false => rfl
      | true => exact absurd (hlate hack) Bool.false_ne_true
    constructor <;> simp_all [Fetch.step, upcoming, nextOwed, request]
  | true =>
    rw [step_running hrun hn]
    cases hs : i.stall with
    | true =>
      have hen : f.en i = false := by simp [en, hs]
      cases hack : i.ibus.ack with
      | true =>
        -- the answer goes to the second slot
        obtain ⟨a, rfl⟩ := Option.isSome_iff_exists.1 (hlate hack)
        obtain ⟨hip2, hout⟩ := hin a rfl
        have hb : f.busy = false := by
          by_contra hb
          simp [hbuf (by simpa using hb)] at hout
        have hdata := hbus.data hack
        constructor <;> simp_all [advance, upcoming, nextOwed, request]
      | false =>
        constructor <;> simp_all [advance, upcoming, nextOwed, request]
    | false =>
      cases hb : f.busy with
      | true =>
        have hout := hbuf hb
        obtain rfl : owed = none := h.unowed hout
        have hen : f.en i = false := by simp [en, hb]
        have hack : i.ibus.ack = false := by
          cases hack : i.ibus.ack with
          | false => rfl
          | true => exact absurd (hlate hack) Bool.false_ne_true
        cases hv : f.valid <;> constructor <;>
          simp_all [advance, upcoming, nextOwed, request, Consecutive]
      | false =>
        have hen : f.en i = true := by simp [en, hb, hs, hn, hrun]
        have haccept := hbus.accept hen
        cases hack : i.ibus.ack with
        | true =>
          obtain ⟨a, rfl⟩ := Option.isSome_iff_exists.1 (hlate hack)
          obtain ⟨hip2, hout⟩ := hin a rfl
          have hdata := hbus.data hack
          cases hst : i.ibus.stall <;> cases hv : f.valid <;> constructor <;>
            simp_all [advance, upcoming, nextOwed, request, Consecutive]
        | false =>
          cases hst : i.ibus.stall with
          | true =>
            cases hv : f.valid <;> constructor <;>
              simp_all [advance, upcoming, nextOwed, request, Consecutive]
          | false =>
            obtain rfl : owed = none := by simpa [hack, hst] using haccept
            cases hv : f.valid <;> constructor <;>
              simp_all [advance, upcoming, nextOwed, request, Consecutive]

/-- A redirect empties Fetch, and the bus owes it nothing more. -/
theorem redirect_step (hr : f.redirects i = true) :
    f.step i =
      { f with ip := i.jumpDest, jumpTaken := true, valid := false, busy := false,
               outstanding := false } := by
  simp only [redirects, Bool.and_eq_true] at hr
  obtain ⟨⟨hrun, hfree⟩, hn⟩ := hr
  have hen : f.en i = false := by simp [en, hn]
  cases hack : i.ibus.ack <;> simp_all [Fetch.step]

theorem streams_redirect (howed : owed.isSome = true → f.outstanding = true)
    (hr : f.redirects i = true) :
    (f.step i).Streams mem (nextOwed owed (f.request i) i.ibus) i.jumpDest := by
  rw [redirect_step hr]
  simp only [redirects, Bool.and_eq_true] at hr
  obtain ⟨⟨hrun, hfree⟩, hn⟩ := hr
  have hen : f.en i = false := by simp [en, hn]
  have hnone : nextOwed owed (f.request i) i.ibus = none := by
    cases howed' : owed with
    | none => simp [nextOwed, request, hen]
    | some a => simp_all [nextOwed, request]
  rw [hnone]
  constructor <;> simp [upcoming, Consecutive, hrun]

/-- A redirect is pending, and everything Fetch had is gone. -/
structure Waits (f : Fetch) : Prop where
  valid : f.valid = false
  busy : f.busy = false
  jumpTaken : f.jumpTaken = false
  outstanding : f.outstanding = true
  run : f.run = true

theorem waits_step (hrun : f.run = true) (hn : f.newJump i = true) (hr : f.redirects i = false)
    (hbuf : f.busy = true → f.outstanding = false) (hv : i.stall = true → f.valid = false) :
    (f.step i).Waits := by
  have hen : f.en i = false := by simp [en, hn]
  simp only [redirects, hrun, hn, Bool.true_and, Bool.and_true, Bool.or_eq_false_iff,
    Bool.not_eq_false'] at hr
  obtain ⟨hout, hack⟩ := hr
  have hb : f.busy = false := by
    by_contra hb
    simp [hbuf (by simpa using hb)] at hout
  have hjt : f.jumpTaken = false := by
    simp only [newJump, Bool.and_eq_true, Bool.not_eq_true'] at hn
    exact hn.2
  cases hs : i.stall <;> constructor <;> simp_all [Fetch.step, advance]

theorem step_jumpTaken (hr : f.redirects i = false) :
    (f.step i).jumpTaken =
      (f.jumpTaken && !(f.run && (f.valid || i.stall && !i.jump))) := by
  unfold Fetch.step
  cases hrun : f.run with
  | false => simp
  | true =>
    have hfollow : ((!f.outstanding || i.ibus.ack) && f.newJump i) = false := by
      simpa [redirects, hrun] using hr
    simp [hfollow]

theorem step_run (f : Fetch) (i : FetchInput) : (f.step i).run = true := by
  unfold Fetch.step Fetch.advance
  cases hrun : f.run with
  | false => simp
  | true =>
    simp only [Bool.not_true, Bool.false_eq_true, if_false]
    split_ifs <;> rfl

/-- The words in the buffer decode. -/
structure Known (f : Fetch) : Prop where
  word0 : f.valid = true → (opClass f.currentWord0).isSome = true
  word1 : f.busy = true → (opClass f.currentWord1).isSome = true

theorem Known.step (h : f.Known)
    (hi : i.ibus.ack = true → (opClass i.ibus.dbRd).isSome = true) : (f.step i).Known := by
  obtain ⟨h0, h1⟩ := h
  unfold Fetch.step Fetch.advance
  constructor <;> dsimp only <;> split_ifs <;> simp_all

theorem streams_reset (c : CoreConfig) : (Fetch.reset c).Streams mem none c.resetAddress where
  order := ⟨rfl, trivial⟩
  word0 := fun h => absurd h Bool.false_ne_true
  word1 := fun h => absurd h Bool.false_ne_true
  inFlight := nofun
  buffered := fun h => absurd h Bool.false_ne_true
  idle := fun _ => ⟨rfl, rfl, rfl⟩

end Fetch
end BonfireCore
