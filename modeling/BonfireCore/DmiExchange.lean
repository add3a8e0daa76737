import BonfireCore.DmiDelivery

/-! Requests without a hard reset: each is carried out and answered, and its answer stays until
the next request. -/
namespace BonfireCore.DmiTransport

variable {abits : ℕ}

/-- No hard reset is on its way to the core clock domain. -/
structure NoHardreset (s : Link abits) : Prop where
  scan : s.scan.dtmhardresetToggle = false
  toggleMeta : s.bridge.dtmhardresetToggleMeta = false
  toggleSync : s.bridge.dtmhardresetToggleSync = false
  toggleSeen : s.bridge.dtmhardresetToggleSeen = false

theorem NoHardreset.not_seen {s : Link abits} (h : NoHardreset s) :
    hardresetSeen s.bridge = false := by
  simp [hardresetSeen, h.toggleSync, h.toggleSeen]

theorem NoHardreset.step {s : Link abits} {t : Tick abits} (h : NoHardreset s)
    (ht : t.hardreset = false) : NoHardreset (s.step t) := by
  have hseen := h.not_seen
  obtain ⟨h1, h2, h3, h4⟩ := h
  have hcore : (coreClockDomain false s.scan t.dbo s.bridge).dtmhardresetToggleMeta = false ∧
      (coreClockDomain false s.scan t.dbo s.bridge).dtmhardresetToggleSync = false ∧
      (coreClockDomain false s.scan t.dbo s.bridge).dtmhardresetToggleSeen = false := by
    simp only [coreClockDomain, transact, hseen, Bool.false_eq_true, if_false]
    split_ifs <;> exact ⟨h1, h2, h4⟩
  have hedges : (s.bridge.edges true t.scanEdge t.coreEdge s.scan t.dbo).dtmhardresetToggleMeta =
        false ∧
      (s.bridge.edges true t.scanEdge t.coreEdge s.scan t.dbo).dtmhardresetToggleSync = false ∧
      (s.bridge.edges true t.scanEdge t.coreEdge s.scan t.dbo).dtmhardresetToggleSeen = false := by
    cases hc : t.coreEdge <;> cases hs : t.scanEdge <;>
      simp only [DmiCdcBridge.edges, Bool.false_eq_true, if_true, if_false] <;>
      first | exact hcore | exact ⟨h2, h3, h4⟩
  refine ⟨?_, hedges.1, hedges.2.1, hedges.2.2⟩
  simp [Link.step, ScanSide.change, h1, ht]

/-- The response that a log tells. -/
def lastResponse (log : List (Transaction abits)) : DmiPayload abits :=
  (log.head?.bind (·.response)).getD 0

/-- A run without a hard reset: no transaction is aborted, and with nothing pending the bridge
shows the last response. -/
structure Calm (o : Observed abits) : Prop where
  inv : Inv o
  accounted : o.Accounted
  noHardreset : NoHardreset o.link
  whole : ∀ tr ∈ o.log, tr.aborted = false
  shown : o.link.pending = false → o.link.bridge.responsePayload = lastResponse o.log

theorem calm_init : Calm ({} : Observed abits) where
  inv := Inv.init
  accounted := rfl
  noHardreset := ⟨rfl, rfl, rfl, rfl⟩
  whole := fun _ h => absurd h List.not_mem_nil
  shown := fun _ => rfl

section Step
variable {o : Observed abits} {t : Tick abits}

/-- With nothing pending the log is closed. -/
theorem Inv.closed (h : Inv o) (hp : o.link.pending = false) :
    ∀ tr ∈ o.log, tr.response.isSome = true := by
  intro tr htr
  rcases h.finished htr with hdone | ⟨hpending, -⟩
  · exact hdone
  · exact absurd (hp.symm.trans hpending) Bool.false_ne_true

/-- With nothing pending an instant adds a request to the log, or leaves it. -/
theorem log_idle (h : Inv o) (hp : o.link.pending = false) : (o.step t).log =
    if t.flip then { request := (o.link.step t).scan.requestPayload } :: o.log else o.log := by
  have hlog : (if t.coreEdge then
      o.log.modifyHead (·.observe o.link t.dbo o.strobed) else o.log) = o.log := by
    split_ifs
    · exact modifyHead_observe_finished (h.closed hp)
    · rfl
  show (if t.flip then _ :: (if o.link.pending && _ then _ else _) else
    if o.link.pending && _ then _ else _) = _
  rw [hp, Bool.false_and, if_neg Bool.false_ne_true, hlog]

/-- A pending request is the latest of the log, and stays it. -/
theorem log_open (h : Inv o) (hp : o.link.pending = true) (hf : t.flip = false) :
    ∃ tr past tr', o.log = tr :: past ∧ (o.step t).log = tr' :: past ∧
      tr'.request = tr.request ∧
      (hardresetSeen o.link.bridge = false → tr'.aborted = tr.aborted) ∧
      ((o.step t).link.pending = false →
        tr'.response = some (o.step t).link.bridge.responsePayload) := by
  cases h with
  | idle idle =>
    have hnone : o.link.pending = false := by
      simp [Link.pending, DmiTransport.pending, idle.responseToggleSync]
    exact absurd (hnone.symm.trans hp) Bool.false_ne_true
  | @«open» tr past log _ unfinished =>
    let seen := if t.coreEdge then tr.observe o.link t.dbo o.strobed else tr
    have hrequest : seen.request = tr.request := by
      show (if t.coreEdge then _ else _ : Transaction abits).request = _
      split_ifs
      · exact Transaction.observe_request ..
      · rfl
    have haborted (hh : hardresetSeen o.link.bridge = false) : seen.aborted = tr.aborted := by
      show (if t.coreEdge then _ else _ : Transaction abits).aborted = _
      split_ifs
      · simp [Transaction.observe, unfinished, hh]
      · rfl
    have hlog : (if t.coreEdge then
        o.log.modifyHead (·.observe o.link t.dbo o.strobed) else o.log) = seen :: past := by
      show _ = (if t.coreEdge then _ else _) :: past
      rw [log]
      split_ifs <;> rfl
    cases hfell : (o.link.step t).pending with
    | true =>
      refine ⟨tr, past, seen, log, ?_, hrequest, haborted, fun hnot => ?_⟩
      · simp [Observed.step, hlog, hfell, hf]
      · exact absurd (hnot.symm.trans hfell) Bool.false_ne_true
    | false =>
      refine ⟨tr, past, { seen with response := some (o.link.step t).bridge.responsePayload }, log,
        ?_, hrequest, haborted, fun _ => rfl⟩
      simp [Observed.step, hlog, hp, hfell, hf]

theorem pending_flip (h : o.link.pending = false) (hi : Inv o) (hf : t.flip = true) :
    (o.step t).link.pending = true := by
  cases hi with
  | idle idle =>
    have hidle := idle.edges rfl t.scanEdge t.coreEdge t.dbo
    simp [Observed.step, Link.step, Link.pending, DmiTransport.pending, ScanSide.change, hf,
      hidle.responseToggleSync]
  | «open» _ _ _ phase =>
    simp [Link.pending, DmiTransport.pending, phase.pending] at h

/-- Nothing becomes pending by itself. -/
theorem pending_quiet (h : o.link.pending = false) (hi : Inv o) (hf : t.flip = false) :
    (o.step t).link.pending = false := by
  cases hi with
  | idle idle =>
    have hidle := idle.edges rfl t.scanEdge t.coreEdge t.dbo
    simp [Observed.step, Link.step, Link.pending, DmiTransport.pending, ScanSide.change, hf,
      hidle.responseToggleSync]
  | «open» _ _ _ phase =>
    simp [Link.pending, DmiTransport.pending, phase.pending] at h

theorem Calm.step (h : Calm o) (hp : t.Polite o.link) (ht : t.hardreset = false) :
    Calm (o.step t) := by
  have hseen := h.noHardreset.not_seen
  refine ⟨h.inv.step hp, h.accounted.step h.inv, h.noHardreset.step ht, ?_, ?_⟩
  · cases hpending : o.link.pending with
    | false =>
      rw [log_idle h.inv hpending]
      split_ifs
      · exact List.forall_mem_cons.mpr ⟨rfl, h.whole⟩
      · exact h.whole
    | true =>
      have hf : t.flip = false := by
        by_contra hf
        exact absurd ((hp (.inr (by simpa using hf))).symm.trans hpending) Bool.false_ne_true
      obtain ⟨tr, past, tr', hlog, hlog', -, haborted, -⟩ := log_open h.inv hpending hf
      have hwhole := h.whole
      rw [hlog, List.forall_mem_cons] at hwhole
      rw [hlog', List.forall_mem_cons]
      exact ⟨(haborted hseen).trans hwhole.1, hwhole.2⟩
  · intro hfell
    have hf : t.flip = false := by
      cases hf : t.flip with
      | false => rfl
      | true =>
        have hpending := hp (.inr hf)
        exact absurd (hfell.symm.trans (pending_flip hpending h.inv hf)) Bool.false_ne_true
    cases hpending : o.link.pending with
    | false =>
      have hkept := h.inv.responseKept t hpending (by simp [hseen])
      have hsame : (o.step t).log = o.log := by
        rw [log_idle h.inv hpending, hf, if_neg Bool.false_ne_true]
      rw [hsame, ← h.shown hpending]
      exact hkept
    | true =>
      obtain ⟨tr, past, tr', -, hlog', -, -, hresponse⟩ := log_open h.inv hpending hf
      rw [lastResponse, hlog', List.head?_cons, Option.bind_some, hresponse hfell,
        Option.getD_some]

end Step

/-- With nothing pending the bridge shows a success. -/
theorem Calm.success {o : Observed abits} (h : Calm o) (hp : o.link.pending = false) :
    (lastResponse o.log).op = DMI_OP_SUCCESS := by
  cases hlog : o.log with
  | nil => exact BitVec.extractLsb'_zero
  | cons tr past =>
    have hmem : tr ∈ o.log := hlog ▸ List.mem_cons_self
    obtain ⟨resp, hresp⟩ := Option.isSome_iff_exists.1 (h.inv.closed hp tr hmem)
    have hanswers := ((h.inv.delivered tr hmem).2 resp hresp (h.whole tr hmem)).2
    rw [lastResponse, List.head?_cons, Option.bind_some, hresp, Option.getD_some]
    exact hanswers.1

/-- An instant in which the scan side asks for nothing. -/
structure Tick.Still (t : Tick abits) : Prop where
  payload : t.payload = none
  flip : t.flip = false
  hardreset : t.hardreset = false

theorem silent_of_still {ts : List (Tick abits)} (h : ∀ t ∈ ts, t.Still) : Silent ts :=
  fun t ht => ⟨(h t ht).payload, (h t ht).flip⟩

section Run
variable {o : Observed abits} {ts : List (Tick abits)} (h : Calm o) (hts : ∀ t ∈ ts, t.Still)
include h hts

theorem Calm.run : Calm ((observed abits).runFrom o ts) := by
  induction ts generalizing o with
  | nil => exact h
  | cons t ts ih =>
    obtain ⟨ht, hts⟩ := List.forall_mem_cons.mp hts
    exact ih (h.step (by simp [Tick.Polite, ht.payload, ht.flip]) ht.hardreset) hts

/-- With nothing pending nothing happens. -/
theorem Calm.run_idle (hp : o.link.pending = false) :
    ((observed abits).runFrom o ts).link.pending = false ∧
      ((observed abits).runFrom o ts).log = o.log := by
  induction ts generalizing o with
  | nil => exact ⟨hp, rfl⟩
  | cons t ts ih =>
    obtain ⟨ht, hts⟩ := List.forall_mem_cons.mp hts
    have hlog := log_idle (t := t) h.inv hp
    rw [ht.flip, if_neg Bool.false_ne_true] at hlog
    obtain ⟨hpending, hrest⟩ := ih (h.step (by simp [Tick.Polite, ht.payload, ht.flip])
      ht.hardreset) hts (pending_quiet hp h.inv ht.flip)
    exact ⟨hpending, hrest.trans hlog⟩

/-- The latest request stays the latest. -/
theorem Calm.run_open {tr : Transaction abits} {past : List (Transaction abits)}
    (hlog : o.log = tr :: past) : ∃ tr', ((observed abits).runFrom o ts).log = tr' :: past ∧
      tr'.request = tr.request := by
  induction ts generalizing o tr with
  | nil => exact ⟨tr, hlog, rfl⟩
  | cons t ts ih =>
    obtain ⟨ht, hts⟩ := List.forall_mem_cons.mp hts
    have hcalm := h.step (t := t) (by simp [Tick.Polite, ht.payload, ht.flip]) ht.hardreset
    cases hp : o.link.pending with
    | false =>
      have hsame := log_idle (t := t) h.inv hp
      rw [ht.flip, if_neg Bool.false_ne_true, hlog] at hsame
      exact ih hcalm hts hsame
    | true =>
      obtain ⟨tr₀, past₀, tr', hlog₀, hlog', hrequest, -⟩ := log_open (t := t) h.inv hp ht.flip
      obtain ⟨rfl, rfl⟩ := List.cons.inj (hlog₀.symm.trans hlog)
      obtain ⟨tr'', hrun, hrequest'⟩ := ih hcalm hts hlog'
      exact ⟨tr'', hrun, hrequest'.trans hrequest⟩

end Run

/-- The request `r` has been carried out and answered since `past`. -/
def Served (r : DmiPayload abits) (past log : List (Transaction abits)) : Prop :=
  ∃ tr resp, log = tr :: past ∧ tr.request = r ∧ tr.accesses = r.accesses ∧
    tr.response = some resp ∧ tr.Answers resp

/-- Five core edges and two scan edges behind a request it is answered. -/
theorem Calm.exchange {o : Observed abits} {t : Tick abits} {r : DmiPayload abits}
    {cs ss : List (Tick abits)} (h : Calm o) (hp : o.link.pending = false)
    (hr : t.payload = some r) (hf : t.flip = true) (hh : t.hardreset = false)
    (hcs : ∀ t ∈ cs, t.Still) (hss : ∀ t ∈ ss, t.Still) (hcore : 5 ≤ cs.countP (·.coreEdge))
    (hscan : 2 ≤ ss.countP (·.scanEdge)) :
    let o' := (observed abits).runFrom (o.step t) (cs ++ ss)
    Calm o' ∧ o'.link.pending = false ∧ Served r o.log o'.log := by
  have hcalm := h.step (t := t) (fun _ => hp) hh
  have hall : ∀ t ∈ cs ++ ss, t.Still := fun t ht => (List.mem_append.1 ht).elim (hcs t) (hss t)
  have hend := hcalm.run hall
  have hfell := hcalm.inv.pending_falls (silent_of_still hcs) (silent_of_still hss) hcore hscan
  have hlog := log_idle (t := t) h.inv hp
  rw [hf, if_pos rfl] at hlog
  obtain ⟨tr, hrun, hrequest⟩ := hcalm.run_open hall hlog
  have hrequest : tr.request = r := by
    rw [hrequest]
    simp [Link.step, ScanSide.change, hr]
  have hmem : tr ∈ ((observed abits).runFrom (o.step t) (cs ++ ss)).log := by
    rw [hrun]
    exact List.mem_cons_self
  obtain ⟨resp, hresp⟩ := Option.isSome_iff_exists.1 (hend.inv.closed hfell tr hmem)
  obtain ⟨haccesses, hanswers⟩ := (hend.inv.delivered tr hmem).2 resp hresp (hend.whole tr hmem)
  exact ⟨hend, hfell, tr, resp, hrun, hrequest, hrequest ▸ haccesses, hresp, hanswers⟩

/-- One scan clock cycle that asks for nothing, with three core edges. -/
structure StillCycle (ts : List (Tick abits)) : Prop where
  still : ∀ t ∈ ts, t.Still
  core : 3 ≤ ts.countP (·.coreEdge)
  scan : 1 ≤ ts.countP (·.scanEdge)

/-- `n` such cycles lead from `o` to `o'`. -/
def StillCycles : ℕ → Observed abits → Observed abits → Prop
  | 0, o, o' => o' = o
  | n + 1, o, o' => ∃ ts, StillCycle ts ∧ StillCycles n ((observed abits).runFrom o ts) o'

namespace StillCycles
variable {m n : ℕ} {o o' o'' : Observed abits}

theorem trans (h : StillCycles m o o') (h' : StillCycles n o' o'') : StillCycles (m + n) o o'' := by
  induction m generalizing o with
  | zero =>
    rw [Nat.zero_add]
    exact (show o' = o from h) ▸ h'
  | succ m ih =>
    obtain ⟨ts, hts, hrest⟩ := h
    rw [Nat.succ_add]
    exact ⟨ts, hts, ih hrest⟩

theorem split (h : StillCycles (m + n) o o'') :
    ∃ o', StillCycles m o o' ∧ StillCycles n o' o'' := by
  induction m generalizing o with
  | zero => exact ⟨o, rfl, Nat.zero_add n ▸ h⟩
  | succ m ih =>
    rw [Nat.succ_add] at h
    obtain ⟨ts, hts, hrest⟩ := h
    obtain ⟨o', hfirst, hlast⟩ := ih hrest
    exact ⟨o', ⟨ts, hts, hfirst⟩, hlast⟩

theorem ticks (h : StillCycles n o o') : ∃ ts : List (Tick abits), (∀ t ∈ ts, t.Still) ∧
    n ≤ ts.countP (·.scanEdge) ∧ o' = (observed abits).runFrom o ts := by
  induction n generalizing o with
  | zero => exact ⟨[], fun _ ht => absurd ht List.not_mem_nil, le_rfl, h⟩
  | succ n ih =>
    obtain ⟨ts, hts, hrest⟩ := h
    obtain ⟨ts', hstill, hscan, rfl⟩ := ih hrest
    refine ⟨ts ++ ts', ?_, ?_, (Clocked.runFrom_append ..).symm⟩
    · exact fun t ht => (List.mem_append.1 ht).elim (hts.still t) (hstill t)
    · have hone := hts.scan
      rw [List.countP_append]
      omega

/-- With nothing pending nothing changes. -/
theorem idle (h : StillCycles n o o') (hcalm : Calm o) (hp : o.link.pending = false) :
    Calm o' ∧ o'.link.pending = false ∧ o'.log = o.log := by
  obtain ⟨ts, hts, -, rfl⟩ := h.ticks
  exact ⟨hcalm.run hts, hcalm.run_idle hts hp⟩

end StillCycles

/-- After three more cycles nothing is pending, and `P` holds of the log. -/
def Settling (P : List (Transaction abits) → Prop) (o : Observed abits) : Prop :=
  ∀ o', StillCycles 3 o o' → Calm o' ∧ o'.link.pending = false ∧ P o'.log

namespace Settling
variable {P Q : List (Transaction abits) → Prop} {n : ℕ} {o o' : Observed abits}

theorem of_idle (h : Calm o) (hp : o.link.pending = false) (hlog : P o.log) : Settling P o := by
  intro o' ho
  obtain ⟨hcalm, hidle, hsame⟩ := ho.idle h hp
  exact ⟨hcalm, hidle, hsame ▸ hlog⟩

theorem mono (h : Settling P o) (hpq : ∀ log, P log → Q log) : Settling Q o :=
  fun o' ho => ⟨(h o' ho).1, (h o' ho).2.1, hpq _ (h o' ho).2.2⟩

/-- What more than three cycles lead to. -/
theorem settled (h : Settling P o) (hn : 3 ≤ n) (ho : StillCycles n o o') :
    Calm o' ∧ o'.link.pending = false ∧ P o'.log := by
  obtain ⟨m, rfl⟩ := Nat.exists_eq_add_of_le hn
  obtain ⟨o₁, hfirst, hlast⟩ := ho.split
  obtain ⟨hcalm, hp, hlog⟩ := h o₁ hfirst
  obtain ⟨hcalm', hp', hsame⟩ := hlast.idle hcalm hp
  exact ⟨hcalm', hp', hsame ▸ hlog⟩

theorem more (h : Settling P o) (ho : StillCycles n o o') : Settling P o' :=
  fun _ ho' => h.settled (Nat.le_add_left 3 n) (ho.trans ho')

/-- A request on its way, three core edges after the scan side has asked. -/
theorem post {t : Tick abits} {r : DmiPayload abits} {cs : List (Tick abits)} (h : Calm o)
    (hp : o.link.pending = false) (hr : t.payload = some r) (hf : t.flip = true)
    (hh : t.hardreset = false) (hcs : ∀ t ∈ cs, t.Still) (hcore : 3 ≤ cs.countP (·.coreEdge)) :
    Settling (Served r o.log) ((observed abits).runFrom (o.step t) cs) := by
  rintro o' ⟨ts, hts, hrest⟩
  obtain ⟨ss, hss, hscan, rfl⟩ := StillCycles.ticks hrest
  rw [← Clocked.runFrom_append, ← Clocked.runFrom_append, ← List.append_assoc]
  refine h.exchange hp hr hf hh ?_ hss ?_ hscan
  · exact fun t ht => (List.mem_append.1 ht).elim (hcs t) (hts.still t)
  · have hmore := hts.core
    rw [List.countP_append]
    omega

end Settling

end BonfireCore.DmiTransport
