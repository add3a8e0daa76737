import BonfireCore.FetchStream

/-! Fetch on its way to one awaited word: what it holds, what the bus owes it, and which of
that was fetched since the program was last started. -/
namespace BonfireCore

/-- A request the instruction bus has accepted and not answered, and what the memory has held
at its address since. -/
structure Owed where
  adr : Word
  held : List Word
  fresh : Bool := true
  deriving DecidableEq, Repr

section Bus
variable (mem : Word → Word) (owed : Option Owed) (q : DbusRequest 32) (r : DbusResponse 32)

/-- One request at a time, answered later with what the memory holds or has held since. -/
structure ReadsInOrder : Prop where
  answer : r.ack = true → owed.any (fun o => r.dbRd ∈ mem o.adr :: o.held) = true
  accept : q.en = true → r.stall = false → r.ack = true ∨ owed = none

instance : Decidable (ReadsInOrder mem owed q r) :=
  decidable_of_iff
    ((r.ack = true → owed.any (fun o => r.dbRd ∈ mem o.adr :: o.held) = true) ∧
      (q.en = true → r.stall = false → r.ack = true ∨ owed = none))
    ⟨fun h => ⟨h.1, h.2⟩, fun h => ⟨h.answer, h.accept⟩⟩

/-- `stale`: the requests before this cycle are those of before a resume. -/
def stepOwed (stale : Bool) : Option Owed :=
  if q.en && !r.stall then some { adr := q.adr, held := [mem q.adr] }
  else if r.ack then none
  else owed.map fun o => { o with held := mem o.adr :: o.held, fresh := o.fresh && !stale }

variable {mem owed q r}

theorem ReadsInOrder.unowed (h : ReadsInOrder mem owed q r) (ho : owed = none) :
    r.ack = false := by
  by_contra hack
  have hans := h.answer (by simpa using hack)
  simp [ho] at hans

theorem ReadsInOrder.owes (h : ReadsInOrder mem owed q r) (hack : r.ack = true) :
    ∃ o, owed = some o ∧ r.dbRd ∈ mem o.adr :: o.held := by
  cases owed with
  | none => exact absurd (h.answer hack) (by simp)
  | some o => exact ⟨o, rfl, by simpa using h.answer hack⟩

theorem stepOwed_accepted (hen : q.en = true) (hs : r.stall = false) (stale : Bool) :
    stepOwed mem owed q r stale = some { adr := q.adr, held := [mem q.adr] } := by
  simp [stepOwed, hen, hs]

theorem stepOwed_waiting (hq : (q.en && !r.stall) = false) (stale : Bool) :
    stepOwed mem owed q r stale =
      if r.ack then none
      else owed.map fun o =>
        { o with held := mem o.adr :: o.held, fresh := o.fresh && !stale } := by
  simp [stepOwed, hq]

end Bus

/-- A start of the program at `pc`, with what the memory has held there since. -/
structure Awaited where
  pc : Word
  words : List Word := []
  deriving DecidableEq, Repr

namespace Fetch
variable {mem : Word → Word} {owed : Option Owed} {r : Awaited} {f : Fetch} {i : FetchInput}
  {stale : Bool}

/-- What Fetch owes the bus, and what the bus owes Fetch. -/
structure Ledger (owed : Option Owed) (f : Fetch) : Prop where
  outstanding : owed.isSome = true → f.outstanding = true
  buffered : f.busy = true → f.outstanding = false
  idle : f.run = false → f.valid = false ∧ f.busy = false ∧ owed = none

/-- The next word Decode is offered is the one awaited. -/
structure Leads (r : Awaited) (owed : Option Owed) (f : Fetch) : Prop where
  offered : f.valid = true → f.currentIp0 = r.pc ∧ f.currentWord0 ∈ r.words
  buffered : f.valid = false → f.busy = true → f.currentIp1 = r.pc ∧ f.currentWord1 ∈ r.words
  inFlight : f.valid = false → f.busy = false → ∀ o, owed = some o →
    f.currentIp2 = r.pc ∧ o.adr = r.pc ∧ o.held ⊆ r.words
  next : f.valid = false → f.busy = false → owed = none → f.ip = r.pc

theorem Ledger.unowed (h : f.Ledger owed) (ho : f.outstanding = false) : owed = none := by
  cases owed with
  | none => rfl
  | some o => exact absurd (ho.symm.trans (h.outstanding rfl)) Bool.false_ne_true

theorem step_starting (hrun : f.run = false) :
    f.step i = { f with
      run := true
      outstanding := if i.ibus.ack then false else f.outstanding } := by
  simp [Fetch.step, hrun, en]

theorem step_unredirected (hrun : f.run = true) (hr : f.redirects i = false) :
    f.step i = { f.advance i with
      jumpTaken := f.jumpTaken && !(f.valid || i.stall && !i.jump)
      outstanding :=
        if f.en i && !i.ibus.ack then true
        else if !f.en i && i.ibus.ack then false
        else f.outstanding } := by
  simp only [redirects, hrun, Bool.true_and] at hr
  simp [Fetch.step, hrun, hr]

/-- No request is on its way after Fetch has followed a jump. -/
theorem Ledger.redirected (h : f.Ledger owed) (hr : f.redirects i = true) (stale : Bool) :
    stepOwed mem owed (f.request i) i.ibus stale = none := by
  simp only [redirects, Bool.and_eq_true, Bool.or_eq_true, Bool.not_eq_true'] at hr
  obtain ⟨⟨-, hfree⟩, hnew⟩ := hr
  have hen : f.en i = false := by simp [en, hnew]
  rw [stepOwed_waiting (by simp [request, hen])]
  cases hack : i.ibus.ack with
  | true => rfl
  | false =>
    rcases hfree with ho | ha
    · rw [h.unowed ho]
      rfl
    · exact absurd (hack.symm.trans ha) Bool.false_ne_true

theorem en_off (h : i.stall = true ∨ f.busy = true ∨ f.newJump i = true ∨ f.run = false) :
    f.en i = false := by
  rcases h with h | h | h | h <;> simp [en, h]

theorem advance_valid : (f.advance i).valid =
    if i.stall then f.valid else f.busy || i.ibus.ack && !f.newJump i := by
  unfold advance
  cases i.stall <;> cases f.busy <;> cases i.ibus.ack <;> cases f.newJump i <;> rfl

theorem advance_busy : (f.advance i).busy = (i.stall && (f.busy || i.ibus.ack)) := by
  unfold advance
  cases i.stall <;> cases hb : f.busy <;> cases i.ibus.ack <;> cases f.newJump i <;> simp

theorem Ledger.step (h : f.Ledger owed) (hbus : ReadsInOrder mem owed (f.request i) i.ibus)
    (stale : Bool) : (f.step i).Ledger (stepOwed mem owed (f.request i) i.ibus stale) := by
  cases hr : f.redirects i with
  | true =>
    rw [h.redirected hr, redirect_step hr]
    exact ⟨fun ho => absurd ho Bool.false_ne_true, fun hb => absurd hb Bool.false_ne_true,
      fun _ => ⟨rfl, rfl, rfl⟩⟩
  | false =>
    cases hrun : f.run with
    | false =>
      obtain ⟨hv, hb, rfl⟩ := h.idle hrun
      have hack := hbus.unowed rfl
      have hen : f.en i = false := en_off (.inr (.inr (.inr hrun)))
      rw [step_starting hrun, stepOwed_waiting (by simp [request, hen])]
      constructor <;> simp_all
    | true =>
      have hrun' := step_run f i
      rw [step_unredirected hrun hr] at hrun' ⊢
      refine ⟨fun howed => ?_, fun hbusy => ?_,
        fun hno => absurd (hrun'.symm.trans hno) (by decide)⟩
      · have hout (ho : owed.isSome = true) := h.outstanding ho
        cases hen : f.en i with
        | false =>
          rw [stepOwed_waiting (by simp [request, hen])] at howed
          cases hack : i.ibus.ack with
          | true => simp [hack] at howed
          | false => simpa [hack] using hout (by simpa [hack] using howed)
        | true =>
          cases hack : i.ibus.ack with
          | true =>
            obtain ⟨o, rfl, -⟩ := hbus.owes hack
            simpa using hout rfl
          | false => simp
      · simp only [advance_busy, Bool.and_eq_true, Bool.or_eq_true] at hbusy
        have hen : f.en i = false := en_off (.inl hbusy.1)
        rcases hbusy.2 with hb | hack
        · cases hack : i.ibus.ack <;> simp [hen, h.buffered hb]
        · simp [hen, hack]

/-- A stalled Fetch keeps what it has and buffers an answer. -/
theorem advance_stalled (hs : i.stall = true) : f.advance i =
    if i.ibus.ack then
      { f with currentWord1 := i.ibus.dbRd, currentIp1 := f.currentIp2, busy := true }
    else f := by
  simp [advance, hs]

theorem advance_buffered (hs : i.stall = false) (hb : f.busy = true) : f.advance i =
    { f with
      currentWord0 := f.currentWord1
      currentIp0 := f.currentIp1
      valid := true
      busy := false } := by
  simp [advance, hs, hb]

/-- An answer to Decode, or none. -/
theorem advance_open (hs : i.stall = false) (hb : f.busy = false) (hn : f.newJump i = false) :
    f.advance i =
      { f with
        currentIp2 := if i.ibus.stall then f.currentIp2 else f.ip
        ip := if i.ibus.stall then f.ip else f.ip + 4
        currentWord0 := if i.ibus.ack then i.ibus.dbRd else f.currentWord0
        currentIp0 := if i.ibus.ack then f.currentIp2 else f.currentIp0
        valid := i.ibus.ack } := by
  cases hst : i.ibus.stall <;> cases hack : i.ibus.ack <;> simp [advance, hs, hb, hn, hst, hack]

theorem Leads.of_valid (hv : f.valid = true)
    (h : f.currentIp0 = r.pc ∧ f.currentWord0 ∈ r.words) : f.Leads r owed where
  offered _ := h
  buffered hv' := by simp [hv] at hv'
  inFlight hv' := by simp [hv] at hv'
  next hv' := by simp [hv] at hv'

theorem Leads.of_busy (hv : f.valid = false) (hb : f.busy = true)
    (h : f.currentIp1 = r.pc ∧ f.currentWord1 ∈ r.words) : f.Leads r owed where
  offered hv' := by simp [hv] at hv'
  buffered _ _ := h
  inFlight _ hb' := by simp [hb] at hb'
  next _ hb' := by simp [hb] at hb'

theorem Leads.of_empty (hv : f.valid = false) (hb : f.busy = false)
    (hin : ∀ o, owed = some o → f.currentIp2 = r.pc ∧ o.adr = r.pc ∧ o.held ⊆ r.words)
    (hnext : owed = none → f.ip = r.pc) : f.Leads r owed where
  offered hv' := by simp [hv] at hv'
  buffered _ hb' := by simp [hb] at hb'
  inFlight _ _ := hin
  next _ _ := hnext

section Awaiting
variable (h : f.Leads r owed) (hbus : ReadsInOrder mem owed (f.request i) i.ibus)
  (hvalid : f.valid = false) (hb : f.busy = false)
include h hvalid hb

/-- A request for the awaited word that is not answered. -/
theorem Leads.waiting (stale : Bool) {o : Owed}
    (ho : (owed.map fun o => { o with
      held := mem o.adr :: o.held, fresh := o.fresh && !stale }) = some o) :
    f.currentIp2 = r.pc ∧ o.adr = r.pc ∧ o.held ⊆ mem r.pc :: r.words := by
  obtain ⟨o, howed, rfl⟩ := Option.map_eq_some_iff.1 ho
  obtain ⟨hip, hadr, hheld⟩ := h.inFlight hvalid hb o howed
  refine ⟨hip, hadr, ?_⟩
  rw [hadr]
  exact List.cons_subset_cons _ hheld

include hbus in
theorem Leads.answer (hack : i.ibus.ack = true) :
    f.currentIp2 = r.pc ∧ i.ibus.dbRd ∈ mem r.pc :: r.words := by
  obtain ⟨o, howed, hdata⟩ := hbus.owes hack
  obtain ⟨hip, hadr, hheld⟩ := h.inFlight hvalid hb o howed
  rw [hadr] at hdata
  exact ⟨hip, List.cons_subset_cons _ hheld hdata⟩

include hbus in
/-- An empty Fetch asks for the awaited word, waits for it or gets it. -/
theorem Leads.step_empty (hrun : f.run = true) (hr : f.redirects i = false)
    (hnew : f.newJump i = false) (stale : Bool) :
    (f.step i).Leads { r with words := mem r.pc :: r.words }
      (stepOwed mem owed (f.request i) i.ibus stale) := by
  have hnext (ho : (owed.map fun o => { o with
      held := mem o.adr :: o.held, fresh := o.fresh && !stale }) = none) : f.ip = r.pc :=
    h.next hvalid hb (Option.map_eq_none_iff.1 ho)
  rw [step_unredirected hrun hr]
  cases hs : i.stall with
  | true =>
    have hen : f.en i = false := en_off (.inl hs)
    rw [stepOwed_waiting (by simp [request, hen]), advance_stalled hs]
    cases hack : i.ibus.ack with
    | true => exact .of_busy hvalid rfl (h.answer hbus hvalid hb hack)
    | false => exact .of_empty hvalid hb (fun o ho => h.waiting hvalid hb stale ho) hnext
  | false =>
    have hen : f.en i = true := by simp [en, hb, hrun, hs, hnew]
    rw [advance_open hs hb hnew]
    cases hack : i.ibus.ack with
    | true => exact .of_valid rfl (h.answer hbus hvalid hb hack)
    | false =>
      cases hst : i.ibus.stall with
      | true =>
        rw [stepOwed_waiting (by simp [hst]), hack]
        exact .of_empty rfl hb (fun o ho => h.waiting hvalid hb stale ho) hnext
      | false =>
        -- the request for the awaited word is accepted
        obtain rfl : owed = none := by simpa [hack] using hbus.accept hen hst
        have hip := h.next hvalid hb rfl
        rw [stepOwed_accepted hen hst]
        refine .of_empty rfl hb (fun o ho => ?_) fun ho => absurd ho (Option.some_ne_none _)
        obtain rfl := Option.some.inj ho
        refine ⟨hip, hip, ?_⟩
        show [mem f.ip] ⊆ mem r.pc :: r.words
        rw [hip]
        exact List.cons_subset_cons _ (List.nil_subset _)

end Awaiting

/-- The awaited word stays next until it is taken, and a redirect to it changes nothing. -/
theorem Leads.step (h : f.Leads r owed) (hl : f.Ledger owed)
    (hbus : ReadsInOrder mem owed (f.request i) i.ibus)
    (hred : f.redirects i = true → i.jumpDest = r.pc)
    (hn : f.valid = false → f.redirects i = false → f.newJump i = false)
    (hv : f.valid = true → i.stall = true) (stale : Bool) :
    (f.step i).Leads { r with words := mem r.pc :: r.words }
      (stepOwed mem owed (f.request i) i.ibus stale) := by
  have hkeep {x : Word} (hx : x ∈ r.words) : x ∈ mem r.pc :: r.words := List.mem_cons_of_mem _ hx
  cases hr : f.redirects i with
  | true =>
    rw [hl.redirected hr, redirect_step hr]
    exact .of_empty rfl rfl (fun o ho => absurd ho.symm (Option.some_ne_none o)) fun _ => hred hr
  | false =>
    cases hrun : f.run with
    | false =>
      obtain ⟨hvalid, hb, rfl⟩ := hl.idle hrun
      have hen : f.en i = false := en_off (.inr (.inr (.inr hrun)))
      rw [step_starting hrun, stepOwed_waiting (by simp [request, hen]), hbus.unowed rfl]
      exact .of_empty hvalid hb (fun o ho => absurd ho.symm (Option.some_ne_none o))
        fun _ => h.next hvalid hb rfl
    | true =>
      cases hvalid : f.valid with
      | true =>
        -- the word waits for Decode
        obtain ⟨hip, hword⟩ := h.offered hvalid
        rw [step_unredirected hrun hr, advance_stalled (hv hvalid)]
        cases i.ibus.ack <;> exact .of_valid hvalid ⟨hip, hkeep hword⟩
      | false =>
        cases hb : f.busy with
        | false => exact h.step_empty hbus hvalid hb hrun hr (hn hvalid hr) stale
        | true =>
          obtain rfl : owed = none := hl.unowed (hl.buffered hb)
          have hen : f.en i = false := en_off (.inr (.inl hb))
          obtain ⟨hip, hword⟩ := h.buffered hvalid hb
          rw [step_unredirected hrun hr, stepOwed_waiting (by simp [request, hen])]
          cases hs : i.stall with
          | true =>
            rw [advance_stalled hs, hbus.unowed rfl]
            exact .of_busy hvalid hb ⟨hip, hkeep hword⟩
          | false =>
            rw [advance_buffered hs hb]
            exact .of_valid rfl ⟨hip, hkeep hword⟩

/-- While the jump is asked for, Fetch has followed it or offers its target. -/
theorem jumped_step (hl : f.Ledger owed) (hj : i.jump = true)
    (h : f.jumpTaken = true ∨ f.valid = true) (hv : f.valid = true → i.stall = true) :
    (f.step i).jumpTaken = true ∨ (f.step i).valid = true := by
  cases hr : f.redirects i with
  | true =>
    rw [redirect_step hr]
    exact .inl rfl
  | false =>
    cases hvalid : f.valid with
    | true =>
      have hrun : f.run = true := by
        by_contra hrun
        simp [(hl.idle (by simpa using hrun)).1] at hvalid
      rw [step_unredirected hrun hr]
      refine .inr ?_
      show (f.advance i).valid = true
      rw [advance_valid, if_pos (hv hvalid), hvalid]
    | false =>
      have ht : f.jumpTaken = true := by simpa [hvalid] using h
      exact .inl (by simp [step_jumpTaken hr, ht, hvalid, hj])

/-- Whether the words Fetch holds were fetched since the last resume. -/
structure Tags where
  word0 : Bool := true
  word1 : Bool := true
  deriving DecidableEq, Repr

/-- The tags move as the words do. -/
def Tags.step (t : Tags) (owed : Option Owed) (f : Fetch) (i : FetchInput) (stale : Bool) : Tags :=
  let answer := owed.all (·.fresh)
  { word0 :=
      (if i.stall then t.word0 else if f.busy then t.word1
        else if i.ibus.ack then answer else t.word0) && !stale
    word1 := (if i.stall && i.ibus.ack then answer else t.word1) && !stale }

/-- All that is on its way to Decode was fetched since the last resume. -/
structure Fresh (owed : Option Owed) (t : Tags) (f : Fetch) : Prop where
  offered : f.valid = true → t.word0 = true
  buffered : f.busy = true → t.word1 = true
  inFlight : ∀ o, owed = some o → o.fresh = true

theorem Fresh.of_empty (ho : owed = none) (hv : f.valid = false) (hb : f.busy = false) {t : Tags} :
    f.Fresh owed t where
  offered hv' := by simp [hv] at hv'
  buffered hb' := by simp [hb] at hb'
  inFlight _ ho' := absurd (ho'.symm.trans ho) (Option.some_ne_none _)

theorem Fresh.step {t : Tags} (h : f.Fresh owed t) (hl : f.Ledger owed)
    (hbus : ReadsInOrder mem owed (f.request i) i.ibus) :
    (f.step i).Fresh (stepOwed mem owed (f.request i) i.ibus false) (t.step owed f i false) := by
  cases hr : f.redirects i with
  | true =>
    rw [hl.redirected hr, redirect_step hr]
    exact .of_empty rfl rfl rfl
  | false =>
    cases hrun : f.run with
    | false =>
      obtain ⟨hvalid, hb, rfl⟩ := hl.idle hrun
      have hen : f.en i = false := en_off (.inr (.inr (.inr hrun)))
      rw [step_starting hrun, stepOwed_waiting (by simp [request, hen]), hbus.unowed rfl]
      refine .of_empty rfl ?_ ?_
      · exact hvalid
      · exact hb
    | true =>
      have hanswer (hack : i.ibus.ack = true) : owed.all (·.fresh) = true := by
        obtain ⟨o, rfl, -⟩ := hbus.owes hack
        exact h.inFlight o rfl
      rw [step_unredirected hrun hr]
      refine ⟨fun hv => ?_, fun hb => ?_, fun o ho => ?_⟩
      · have hv' := advance_valid.symm.trans hv
        cases hs : i.stall with
        | true => simpa [Tags.step, hs] using h.offered (by simpa [hs] using hv')
        | false =>
          cases hb : f.busy with
          | true => simpa [Tags.step, hs, hb] using h.buffered hb
          | false =>
            have hack : i.ibus.ack = true := by
              simp only [hs, hb, Bool.false_or, Bool.and_eq_true, Bool.false_eq_true,
                if_false] at hv'
              exact hv'.1
            simpa [Tags.step, hs, hb, hack] using hanswer hack
      · have hb' := advance_busy.symm.trans hb
        simp only [Bool.and_eq_true, Bool.or_eq_true] at hb'
        cases hack : i.ibus.ack with
        | true => simpa [Tags.step, hb'.1, hack] using hanswer hack
        | false => simpa [Tags.step, hack] using h.buffered (by simpa [hack] using hb'.2)
      · cases hq : (f.request i).en && !i.ibus.stall with
        | true =>
          rw [Bool.and_eq_true, Bool.not_eq_true'] at hq
          rw [stepOwed_accepted hq.1 hq.2] at ho
          obtain rfl := Option.some.inj ho
          rfl
        | false =>
          rw [stepOwed_waiting hq] at ho
          cases hack : i.ibus.ack with
          | true => simp [hack] at ho
          | false =>
            simp only [hack, Bool.false_eq_true, if_false, Option.map_eq_some_iff] at ho
            obtain ⟨o', howed, rfl⟩ := ho
            simp [h.inFlight o' howed]

/-- Fetch is at `pc` already, by a jump it followed or out of a reset. -/
structure StandsAt (f : Fetch) (pc : Word) : Prop where
  ip : f.ip = pc
  valid : f.valid = false
  busy : f.busy = false
  outstanding : f.outstanding = false
  jumped : f.run = true → f.jumpTaken = true

instance (f : Fetch) (pc : Word) : Decidable (f.StandsAt pc) :=
  decidable_of_iff (f.ip = pc ∧ f.valid = false ∧ f.busy = false ∧ f.outstanding = false ∧
      (f.run = true → f.jumpTaken = true))
    ⟨fun h => ⟨h.1, h.2.1, h.2.2.1, h.2.2.2.1, h.2.2.2.2⟩,
      fun h => ⟨h.ip, h.valid, h.busy, h.outstanding, h.jumped⟩⟩

instance (f : Fetch) : Decidable f.Waits :=
  decidable_of_iff (f.valid = false ∧ f.busy = false ∧ f.jumpTaken = false ∧
      f.outstanding = true ∧ f.run = true)
    ⟨fun h => ⟨h.1, h.2.1, h.2.2.1, h.2.2.2.1, h.2.2.2.2⟩,
      fun h => ⟨h.valid, h.busy, h.jumpTaken, h.outstanding, h.run⟩⟩

theorem StandsAt.step {pc : Word} (h : f.StandsAt pc) (hl : f.Ledger owed)
    (hbus : ReadsInOrder mem owed (f.request i) i.ibus) (hs : i.stall = true) (hj : i.jump = true)
    (hr : f.redirects i = false) (stale : Bool) :
    stepOwed mem owed (f.request i) i.ibus stale = none ∧ (f.step i).valid = false ∧
      (f.step i).busy = false ∧ (f.step i).ip = pc ∧
      (f.run = true → (f.step i).jumpTaken = true) := by
  obtain rfl : owed = none := hl.unowed h.outstanding
  have hack := hbus.unowed rfl
  have hen : f.en i = false := en_off (.inl hs)
  refine ⟨by rw [stepOwed_waiting (by simp [request, hen]), hack]; rfl, ?_⟩
  cases hrun : f.run with
  | false =>
    rw [step_starting hrun]
    exact ⟨h.valid, h.busy, h.ip, fun hno => absurd hno Bool.false_ne_true⟩
  | true =>
    have ht : (f.step i).jumpTaken = true := by
      simp [step_jumpTaken hr, h.jumped hrun, h.valid, hj]
    rw [step_unredirected hrun hr, advance_stalled hs, hack] at ht ⊢
    exact ⟨h.valid, h.busy, h.ip, fun _ => ht⟩

end Fetch
end BonfireCore
