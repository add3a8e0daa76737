import BonfireCore.DmiTransport

/-! Every DMI request crosses the bridge exactly once. The scan side's requests are
logged as transactions with the DMI accesses made for them; five phases follow the two
toggles of one transaction through both clock domains. -/
namespace BonfireCore.DmiTransport

variable {abits : ℕ}

/-- A core cycle with `dtm.en` high. -/
structure Access (abits : ℕ) where
  adr : BitVec abits
  dbi : BitVec 32
  we : Bool
  deriving DecidableEq, Repr

structure Transaction (abits : ℕ) where
  request : DmiPayload abits
  accesses : List (Access abits) := []
  produced : Option (BitVec 32) := none
  aborted : Bool := false
  response : Option (DmiPayload abits) := none
  deriving DecidableEq, Repr

/-- The accesses a request asks for: one for READ and WRITE, none for any other op. -/
def DmiPayload.accesses (p : DmiPayload abits) : List (Access abits) :=
  if p.op = DMI_OP_READ then [⟨p.address, p.data, false⟩]
  else if p.op = DMI_OP_WRITE then [⟨p.address, p.data, true⟩]
  else []

/-- The response `r` answers the request of `tr`. -/
def Transaction.Answers (tr : Transaction abits) (r : DmiPayload abits) : Prop :=
  r.op = DMI_OP_SUCCESS ∧ r.address = tr.request.address ∧
    if tr.request.op = DMI_OP_READ then tr.produced = some r.data else r.data = 0

/-- A finished transaction was carried out once and answered with its own response; one
that a hard reset hit was carried out at most once. -/
def Transaction.Delivered (tr : Transaction abits) : Prop :=
  (tr.accesses = [] ∨ tr.accesses = tr.request.accesses) ∧
    ∀ r, tr.response = some r → tr.aborted = false →
      tr.accesses = tr.request.accesses ∧ tr.Answers r

/-- What one core-clock edge adds to the open transaction. `strobed`: `dtm.en` was high
in the cycle before, so that `dbo` is what the access produced. A hard reset aborts the
transaction once its toggle has crossed. -/
def Transaction.observe (s : Link abits) (dbo : BitVec 32) (strobed : Bool)
    (tr : Transaction abits) : Transaction abits :=
  if tr.response.isSome then tr
  else
    { tr with
      accesses := tr.accesses ++
        if s.bridge.dtm.en then [⟨s.bridge.dtm.adr, s.bridge.dtm.dbi, s.bridge.dtm.we⟩] else []
      produced := if strobed then some dbo else tr.produced
      aborted := tr.aborted ||
        hardresetSeen s.bridge && s.bridge.requestToggleSync == s.scan.requestToggle }

/-- The link with its log, latest transaction first, and every access in order. -/
structure Observed (abits : ℕ) where
  link : Link abits := {}
  strobed : Bool := false
  strobes : List (Access abits) := []
  log : List (Transaction abits) := []

def Observed.step (o : Observed abits) (t : Tick abits) : Observed abits :=
  let s := o.link
  let s' := s.step t
  let log := if t.coreEdge then o.log.modifyHead (·.observe s t.dbo o.strobed) else o.log
  let log := if s.pending && !s'.pending then
      log.modifyHead fun tr => { tr with response := some s'.bridge.responsePayload }
    else log
  { link := s'
    strobed := if t.coreEdge then s.bridge.dtm.en else o.strobed
    strobes := o.strobes ++
      if t.coreEdge && s.bridge.dtm.en then
        [⟨s.bridge.dtm.adr, s.bridge.dtm.dbi, s.bridge.dtm.we⟩] else []
    log := if t.flip then { request := s'.scan.requestPayload } :: log else log }

def observed (abits : ℕ) : Clocked (Observed abits) (Tick abits) where
  init := {}
  step := Observed.step

theorem observed_runFrom_link (o : Observed abits) (ts : List (Tick abits)) :
    ((observed abits).runFrom o ts).link = (link abits).runFrom o.link ts := by
  induction ts generalizing o with
  | nil => rfl
  | cons t ts ih => exact ih _

theorem along_observed {P : Link abits → Tick abits → Prop} {o : Observed abits}
    {ts : List (Tick abits)} :
    (observed abits).Along (fun o t => P o.link t) o ts ↔ (link abits).Along P o.link ts := by
  induction ts generalizing o with
  | nil => simp
  | cons t ts ih => exact and_congr Iff.rfl ih

/-- No engine register of the bridge is busy. -/
structure Quiet (b : DmiCdcBridge abits) : Prop where
  requestActive : b.requestActive = false
  readPending : b.readPending = false
  readCapture : b.readCapture = false
  en : b.dtm.en = false

/-- The response side of the handshake still shows the toggle of the last request. -/
structure Unanswered (q : Bool) (b : DmiCdcBridge abits) : Prop where
  responseToggle : b.responseToggle = !q
  responseToggleMeta : b.responseToggleMeta = !q
  responseToggleSync : b.responseToggleSync = !q

/-- The core clock domain has seen the request toggle `q`. -/
structure Crossed (q : Bool) (b : DmiCdcBridge abits) : Prop where
  requestToggleMeta : b.requestToggleMeta = q
  requestToggleSync : b.requestToggleSync = q
  requestToggleSeen : b.requestToggleSeen = q

/-- Where the transaction `tr` stands between the two clock domains. -/
inductive Phase (strobed : Bool) (q : Bool) (b : DmiCdcBridge abits) (tr : Transaction abits) :
    Prop
  | crossing (quiet : Quiet b) (unanswered : Unanswered q b)
      (seen : b.requestToggleSeen = !q)
      (order : b.requestToggleSync = q → b.requestToggleMeta = q)
      (fresh : tr.accesses = [] ∧ tr.aborted = false)
  | strobing (crossed : Crossed q b) (unanswered : Unanswered q b)
      (active : b.requestActive = true) (capture : b.readCapture = false)
      (reading : b.readPending = decide (tr.request.op = DMI_OP_READ))
      (port : b.dtm.en = true ∧
        tr.request.accesses = [⟨b.dtm.adr, b.dtm.dbi, b.dtm.we⟩])
      (payload : b.responsePayload.op = DMI_OP_SUCCESS ∧ b.responsePayload.data = 0 ∧
        b.responsePayload.address = tr.request.address)
      (fresh : tr.accesses = [] ∧ tr.aborted = false)
  | capturing (crossed : Crossed q b) (unanswered : Unanswered q b)
      (active : b.requestActive = false) (reading : b.readPending = false)
      (capture : b.readCapture = true) (en : b.dtm.en = false)
      (read : tr.request.op = DMI_OP_READ) (strobe : strobed = true)
      (address : b.responsePayload.address = tr.request.address)
      (once : tr.accesses = tr.request.accesses ∧ tr.aborted = false)
  | answered (crossed : Crossed q b) (quiet : Quiet b) (answer : b.responseToggle = q)
      (waiting : b.responseToggleSync = !q)
      (settled : tr.request.op = DMI_OP_READ → tr.aborted = false → strobed = false)
      (accesses : tr.accesses = [] ∨ tr.accesses = tr.request.accesses)
      (served : tr.aborted = false →
        tr.accesses = tr.request.accesses ∧ tr.Answers b.responsePayload)

/-- Nothing is pending: both toggles agree everywhere. -/
structure Idle (q : Bool) (b : DmiCdcBridge abits) : Prop where
  crossed : Crossed q b
  quiet : Quiet b
  responseToggle : b.responseToggle = q
  responseToggleMeta : b.responseToggleMeta = q
  responseToggleSync : b.responseToggleSync = q

/-- The invariant of the handshake: the log holds finished transactions, and at most the
latest one is open, in one of the phases. -/
inductive Inv : Observed abits → Prop
  | idle {o : Observed abits} (idle : Idle o.link.scan.requestToggle o.link.bridge)
      (closed : ∀ tr ∈ o.log, tr.response.isSome) (delivered : ∀ tr ∈ o.log, tr.Delivered) :
      Inv o
  | open {o : Observed abits} {tr : Transaction abits} {past : List (Transaction abits)}
      (log : o.log = tr :: past) (request : tr.request = o.link.scan.requestPayload)
      (unfinished : tr.response = none)
      (phase : Phase o.strobed o.link.scan.requestToggle o.link.bridge tr)
      (closed : ∀ tr ∈ past, tr.response.isSome) (delivered : ∀ tr ∈ past, tr.Delivered) :
      Inv o

@[simp] theorem op_setSlice_data (p : DmiPayload abits) (d : BitVec 32) :
    DmiPayload.op (setSlice p 2 d) = p.op :=
  extractLsb'_setSlice_of_disjoint _ _ _ (by omega)

@[simp] theorem op_setSlice_address (p : DmiPayload abits) (a : BitVec abits) :
    DmiPayload.op (setSlice p 34 a) = p.op :=
  extractLsb'_setSlice_of_disjoint _ _ _ (by omega)

@[simp] theorem op_setSlice_op (p : DmiPayload abits) (o : BitVec 2) :
    DmiPayload.op (setSlice p 0 o) = o :=
  extractLsb'_setSlice_self _ _ _ (by omega)

@[simp] theorem data_setSlice_data (p : DmiPayload abits) (d : BitVec 32) :
    DmiPayload.data (setSlice p 2 d) = d :=
  extractLsb'_setSlice_self _ _ _ (by omega)

@[simp] theorem data_setSlice_address (p : DmiPayload abits) (a : BitVec abits) :
    DmiPayload.data (setSlice p 34 a) = p.data :=
  extractLsb'_setSlice_of_disjoint _ _ _ (by omega)

@[simp] theorem address_setSlice_op (p : DmiPayload abits) (o : BitVec 2) :
    DmiPayload.address (setSlice p 0 o) = p.address :=
  extractLsb'_setSlice_of_disjoint _ _ _ (by omega)

@[simp] theorem address_setSlice_data (p : DmiPayload abits) (d : BitVec 32) :
    DmiPayload.address (setSlice p 2 d) = p.address :=
  extractLsb'_setSlice_of_disjoint _ _ _ (by omega)

@[simp] theorem address_setSlice_address (p : DmiPayload abits) (a : BitVec abits) :
    DmiPayload.address (setSlice p 34 a) = a :=
  extractLsb'_setSlice_self _ _ _ (by omega)

/-- What a transaction in some phase has become after an instant: it is in a phase again,
or it has been answered and nothing is pending. -/
def Phase.After (strobed q : Bool) (b : DmiCdcBridge abits) (tr : Transaction abits) : Prop :=
  (b.responseToggleSync = !q ∧ Phase strobed q b tr) ∨
    (b.responseToggleSync = q ∧ Idle q b ∧
      Transaction.Delivered { tr with response := some b.responsePayload })

section PhaseStep
variable {strobed q : Bool} {b : DmiCdcBridge abits} {tr : Transaction abits}
  {scan : ScanSide abits} {scanEdge : Bool} {dbo : BitVec 32}

theorem crossing_core (hq : scan.requestToggle = q) (hreq : tr.request = scan.requestPayload)
    (hopen : tr.response = none) (quiet : Quiet b) (unanswered : Unanswered q b)
    (seen : b.requestToggleSeen = !q)
    (order : b.requestToggleSync = q → b.requestToggleMeta = q)
    (fresh : tr.accesses = [] ∧ tr.aborted = false) :
    Phase.After b.dtm.en q (b.edges true scanEdge true scan dbo) (tr.observe ⟨scan, b⟩ dbo strobed) := by
  obtain ⟨q1, q2, q3, q4⟩ := quiet
  obtain ⟨u1, u2, u3⟩ := unanswered
  obtain ⟨f1, f2⟩ := fresh
  left
  by_cases hs : b.requestToggleSync = q
  · have hm := order hs
    by_cases hh : hardresetSeen b
    · refine ⟨?_, .answered ⟨?_, ?_, ?_⟩ ⟨?_, ?_, ?_, ?_⟩ ?_ ?_ ?_ ?_ ?_⟩ <;>
        cases scanEdge <;>
        simp_all [DmiCdcBridge.edges, responseSynchronizer, coreClockDomain, transact,
          synchronizeRequest, Transaction.observe]
    · by_cases hr : scan.requestPayload.op = DMI_OP_READ
      · refine ⟨?_, .strobing ⟨?_, ?_, ?_⟩ ⟨?_, ?_, ?_⟩ ?_ ?_ ?_ ?_ ?_ ?_⟩ <;>
          cases scanEdge <;>
          simp_all [DmiCdcBridge.edges, responseSynchronizer, coreClockDomain, transact,
            synchronizeRequest, Transaction.observe, DmiPayload.accesses]
      · by_cases hw : scan.requestPayload.op = DMI_OP_WRITE
        · refine ⟨?_, .strobing ⟨?_, ?_, ?_⟩ ⟨?_, ?_, ?_⟩ ?_ ?_ ?_ ?_ ?_ ?_⟩ <;>
            cases scanEdge <;>
            simp_all [DmiCdcBridge.edges, responseSynchronizer, coreClockDomain, transact,
              synchronizeRequest, Transaction.observe, DmiPayload.accesses]
        · refine ⟨?_, .answered ⟨?_, ?_, ?_⟩ ⟨?_, ?_, ?_, ?_⟩ ?_ ?_ ?_ ?_ ?_⟩ <;>
            cases scanEdge <;>
            simp_all [DmiCdcBridge.edges, responseSynchronizer, coreClockDomain, transact,
              synchronizeRequest, Transaction.observe, DmiPayload.accesses, Transaction.Answers]
  · have hs' : b.requestToggleSync = !q := Bool.eq_not.mpr hs
    refine ⟨?_, .crossing ⟨?_, ?_, ?_, ?_⟩ ⟨?_, ?_, ?_⟩ ?_ ?_ ?_⟩ <;>
      by_cases hh : hardresetSeen b <;> cases scanEdge <;>
      simp_all [DmiCdcBridge.edges, responseSynchronizer, coreClockDomain, transact,
        synchronizeRequest, Transaction.observe]

theorem strobing_core (hq : scan.requestToggle = q) (hopen : tr.response = none)
    (crossed : Crossed q b) (unanswered : Unanswered q b)
    (active : b.requestActive = true) (capture : b.readCapture = false)
    (reading : b.readPending = decide (tr.request.op = DMI_OP_READ))
    (port : b.dtm.en = true ∧ tr.request.accesses = [⟨b.dtm.adr, b.dtm.dbi, b.dtm.we⟩])
    (payload : b.responsePayload.op = DMI_OP_SUCCESS ∧ b.responsePayload.data = 0 ∧
      b.responsePayload.address = tr.request.address)
    (fresh : tr.accesses = [] ∧ tr.aborted = false) :
    Phase.After b.dtm.en q (b.edges true scanEdge true scan dbo) (tr.observe ⟨scan, b⟩ dbo strobed) := by
  obtain ⟨c1, c2, c3⟩ := crossed
  obtain ⟨u1, u2, u3⟩ := unanswered
  obtain ⟨p1, p2⟩ := port
  obtain ⟨r1, r2, r3⟩ := payload
  obtain ⟨f1, f2⟩ := fresh
  left
  by_cases hh : hardresetSeen b
  · refine ⟨?_, .answered ⟨?_, ?_, ?_⟩ ⟨?_, ?_, ?_, ?_⟩ ?_ ?_ ?_ ?_ ?_⟩ <;>
      cases scanEdge <;>
      simp_all [DmiCdcBridge.edges, responseSynchronizer, coreClockDomain, transact,
        synchronizeRequest, Transaction.observe]
  · by_cases hr : tr.request.op = DMI_OP_READ
    · refine ⟨?_, .capturing ⟨?_, ?_, ?_⟩ ⟨?_, ?_, ?_⟩ ?_ ?_ ?_ ?_ ?_ ?_ ?_ ?_⟩ <;>
        cases scanEdge <;>
        simp_all [DmiCdcBridge.edges, responseSynchronizer, coreClockDomain, transact,
          synchronizeRequest, Transaction.observe]
    · refine ⟨?_, .answered ⟨?_, ?_, ?_⟩ ⟨?_, ?_, ?_, ?_⟩ ?_ ?_ ?_ ?_ ?_⟩ <;>
        cases scanEdge <;>
        simp_all [DmiCdcBridge.edges, responseSynchronizer, coreClockDomain, transact,
          synchronizeRequest, Transaction.observe, Transaction.Answers]

theorem capturing_core (hq : scan.requestToggle = q) (hopen : tr.response = none)
    (crossed : Crossed q b) (unanswered : Unanswered q b)
    (active : b.requestActive = false) (reading : b.readPending = false)
    (capture : b.readCapture = true) (en : b.dtm.en = false)
    (read : tr.request.op = DMI_OP_READ) (strobe : strobed = true)
    (address : b.responsePayload.address = tr.request.address)
    (once : tr.accesses = tr.request.accesses ∧ tr.aborted = false) :
    Phase.After b.dtm.en q (b.edges true scanEdge true scan dbo) (tr.observe ⟨scan, b⟩ dbo strobed) := by
  obtain ⟨c1, c2, c3⟩ := crossed
  obtain ⟨u1, u2, u3⟩ := unanswered
  obtain ⟨o1, o2⟩ := once
  left
  refine ⟨?_, .answered ⟨?_, ?_, ?_⟩ ⟨?_, ?_, ?_, ?_⟩ ?_ ?_ ?_ ?_ ?_⟩ <;>
    by_cases hh : hardresetSeen b <;> cases scanEdge <;>
    simp_all [DmiCdcBridge.edges, responseSynchronizer, coreClockDomain, transact,
      synchronizeRequest, Transaction.observe, Transaction.Answers]

theorem answered_edges {coreEdge : Bool} (hq : scan.requestToggle = q)
    (hopen : tr.response = none) (crossed : Crossed q b) (quiet : Quiet b)
    (answer : b.responseToggle = q) (waiting : b.responseToggleSync = !q)
    (settled : tr.request.op = DMI_OP_READ → tr.aborted = false → strobed = false)
    (accesses : tr.accesses = [] ∨ tr.accesses = tr.request.accesses)
    (served : tr.aborted = false →
      tr.accesses = tr.request.accesses ∧ tr.Answers b.responsePayload) :
    Phase.After (if coreEdge then b.dtm.en else strobed) q (b.edges true scanEdge coreEdge scan dbo)
      (if coreEdge then tr.observe ⟨scan, b⟩ dbo strobed else tr) := by
  obtain ⟨c1, c2, c3⟩ := crossed
  obtain ⟨q1, q2, q3, q4⟩ := quiet
  -- the answer reaches the scan side only at a scan edge whose first stage already holds it
  by_cases hdone : scanEdge = true ∧ b.responseToggleMeta = q
  · obtain ⟨rfl, hm⟩ := hdone
    refine Or.inr ⟨?_, ⟨⟨?_, ?_, ?_⟩, ⟨?_, ?_, ?_, ?_⟩, ?_, ?_, ?_⟩, ?_, ?_⟩ <;>
      by_cases hh : hardresetSeen b <;> cases coreEdge <;>
      simp_all [DmiCdcBridge.edges, responseSynchronizer, coreClockDomain, transact,
        synchronizeRequest, Transaction.observe, Transaction.Answers]
  · have hm : scanEdge = true → b.responseToggleMeta = !q := fun h =>
      Bool.eq_not.mpr fun h' => hdone ⟨h, h'⟩
    refine Or.inl ⟨?_, .answered ⟨?_, ?_, ?_⟩ ⟨?_, ?_, ?_, ?_⟩ ?_ ?_ ?_ ?_ ?_⟩ <;>
      by_cases hh : hardresetSeen b <;> cases coreEdge <;> cases scanEdge <;>
      simp_all [DmiCdcBridge.edges, responseSynchronizer, coreClockDomain, transact,
        synchronizeRequest, Transaction.observe, Transaction.Answers]

/-- One instant moves an open transaction from phase to phase. -/
theorem Phase.edges (h : Phase strobed q b tr) (hq : scan.requestToggle = q)
    (hreq : tr.request = scan.requestPayload) (hopen : tr.response = none)
    (scanEdge coreEdge : Bool) (dbo : BitVec 32) :
    Phase.After (if coreEdge then b.dtm.en else strobed) q (b.edges true scanEdge coreEdge scan dbo)
      (if coreEdge then tr.observe ⟨scan, b⟩ dbo strobed else tr) := by
  cases h with
  | answered crossed quiet answer waiting settled accesses served =>
    exact answered_edges hq hopen crossed quiet answer waiting settled accesses served
  | crossing quiet unanswered seen order fresh =>
    cases coreEdge with
    | true => exact crossing_core hq hreq hopen quiet unanswered seen order fresh
    | false =>
      obtain ⟨u1, u2, u3⟩ := unanswered
      refine Or.inl ⟨?_, .crossing ⟨?_, ?_, ?_, ?_⟩ ⟨?_, ?_, ?_⟩ ?_ ?_ fresh⟩ <;>
        cases quiet <;> cases scanEdge <;>
        simp_all [DmiCdcBridge.edges, responseSynchronizer]
  | strobing crossed unanswered active capture reading port payload fresh =>
    cases coreEdge with
    | true =>
      exact strobing_core hq hopen crossed unanswered active capture reading port payload fresh
    | false =>
      obtain ⟨u1, u2, u3⟩ := unanswered
      refine Or.inl ⟨?_, .strobing ⟨?_, ?_, ?_⟩ ⟨?_, ?_, ?_⟩ ?_ ?_ ?_ ?_ ?_ fresh⟩ <;>
        cases crossed <;> cases scanEdge <;>
        simp_all [DmiCdcBridge.edges, responseSynchronizer]
  | capturing crossed unanswered active reading capture en read strobe address once =>
    cases coreEdge with
    | true =>
      exact capturing_core hq hopen crossed unanswered active reading capture en read strobe
        address once
    | false =>
      obtain ⟨u1, u2, u3⟩ := unanswered
      refine Or.inl ⟨?_, .capturing ⟨?_, ?_, ?_⟩ ⟨?_, ?_, ?_⟩ ?_ ?_ ?_ ?_ read strobe ?_ once⟩ <;>
        cases crossed <;> cases scanEdge <;>
        simp_all [DmiCdcBridge.edges, responseSynchronizer]

/-- With nothing pending the engine rests; only a hard reset touches the response. -/
theorem Idle.edges (h : Idle q b) (hq : scan.requestToggle = q) (scanEdge coreEdge : Bool)
    (dbo : BitVec 32) : Idle q (b.edges true scanEdge coreEdge scan dbo) := by
  obtain ⟨⟨c1, c2, c3⟩, ⟨q1, q2, q3, q4⟩, r1, r2, r3⟩ := h
  refine ⟨⟨?_, ?_, ?_⟩, ⟨?_, ?_, ?_, ?_⟩, ?_, ?_, ?_⟩ <;>
    by_cases hh : hardresetSeen b <;> cases coreEdge <;> cases scanEdge <;>
    simp_all [DmiCdcBridge.edges, responseSynchronizer, coreClockDomain, transact,
      synchronizeRequest]

theorem Idle.responsePayload_edges (h : Idle q b) (scanEdge coreEdge : Bool) (dbo : BitVec 32)
    (hh : ¬ (coreEdge = true ∧ hardresetSeen b = true)) :
    (b.edges true scanEdge coreEdge scan dbo).responsePayload = b.responsePayload := by
  obtain ⟨⟨c1, c2, c3⟩, ⟨q1, q2, q3, q4⟩, -⟩ := h
  cases coreEdge <;> cases scanEdge <;>
    simp_all [DmiCdcBridge.edges, responseSynchronizer, coreClockDomain, transact,
      synchronizeRequest]

/-- A flip in the idle state opens the next transaction. -/
theorem Idle.flip (h : Idle q b) (strobed : Bool) (request : DmiPayload abits) :
    Phase strobed (!q) b { request } := by
  obtain ⟨⟨c1, c2, c3⟩, quiet, r1, r2, r3⟩ := h
  refine .crossing quiet ⟨?_, ?_, ?_⟩ ?_ ?_ ⟨rfl, rfl⟩ <;> simp_all

theorem Phase.pending (h : Phase strobed q b tr) : b.responseToggleSync = !q := by
  cases h with
  | crossing _ unanswered => exact unanswered.responseToggleSync
  | strobing _ unanswered => exact unanswered.responseToggleSync
  | capturing _ unanswered => exact unanswered.responseToggleSync
  | answered _ _ _ waiting => exact waiting

theorem Phase.delivered (h : Phase strobed q b tr) (hopen : tr.response = none) :
    tr.Delivered := by
  refine ⟨?_, by simp [hopen]⟩
  cases h with
  | crossing _ _ _ _ fresh => exact .inl fresh.1
  | strobing _ _ _ _ _ _ _ fresh => exact .inl fresh.1
  | capturing _ _ _ _ _ _ _ _ _ once => exact .inr once.1
  | answered _ _ _ _ _ accesses => exact accesses

end PhaseStep

theorem Transaction.observe_request (s : Link abits) (dbo : BitVec 32) (strobed : Bool)
    (tr : Transaction abits) : (tr.observe s dbo strobed).request = tr.request := by
  unfold Transaction.observe
  split <;> rfl

theorem Transaction.observe_response (s : Link abits) (dbo : BitVec 32) (strobed : Bool)
    (tr : Transaction abits) : (tr.observe s dbo strobed).response = tr.response := by
  unfold Transaction.observe
  split <;> rfl

theorem Transaction.observe_finished {s : Link abits} {dbo : BitVec 32} {strobed : Bool}
    {tr : Transaction abits} (h : tr.response.isSome) : tr.observe s dbo strobed = tr := by
  simp [Transaction.observe, h]

theorem modifyHead_observe_finished {s : Link abits} {dbo : BitVec 32} {strobed : Bool}
    {log : List (Transaction abits)} (h : ∀ tr ∈ log, tr.response.isSome) :
    log.modifyHead (·.observe s dbo strobed) = log := by
  cases log with
  | nil => rfl
  | cons tr past => simp [Transaction.observe_finished (h tr (by simp))]

theorem Inv.step {o : Observed abits} {t : Tick abits} (h : Inv o) (hp : t.Polite o.link) :
    Inv (o.step t) := by
  cases h with
  | idle idle closed delivered =>
    have hpending : o.link.pending = false := by
      simp [Link.pending, DmiTransport.pending, idle.responseToggleSync]
    have hlog : (if t.coreEdge then
        o.log.modifyHead (·.observe o.link t.dbo o.strobed) else o.log) = o.log := by
      split
      · exact modifyHead_observe_finished closed
      · rfl
    have hidle := idle.edges rfl t.scanEdge t.coreEdge t.dbo
    cases hf : t.flip with
    | false =>
      refine .idle ?_ ?_ ?_
      · simpa [Observed.step, Link.step, ScanSide.change, hf] using hidle
      · simpa [Observed.step, hlog, hpending, hf] using closed
      · simpa [Observed.step, hlog, hpending, hf] using delivered
    | true =>
      refine @Inv.open _ _ { request := (o.link.step t).scan.requestPayload } o.log
        ?_ rfl rfl ?_ closed delivered
      · simp [Observed.step, hlog, hpending, hf]
      · simpa [Observed.step, Link.step, ScanSide.change, hf] using hidle.flip _ _
  | @«open» tr past log request unfinished phase closed delivered =>
    have hpending : o.link.pending = true := by
      simp [Link.pending, DmiTransport.pending, phase.pending]
    have hquiet : ¬ (t.payload.isSome ∨ t.flip) := fun h => by simp [hp h] at hpending
    obtain ⟨hpayload, hflip⟩ : t.payload = none ∧ t.flip = false := by simpa using hquiet
    have hscan : (o.link.step t).scan.requestPayload = o.link.scan.requestPayload := by
      simp [Link.step, ScanSide.change, hpayload]
    have hafter := phase.edges rfl request unfinished t.scanEdge t.coreEdge t.dbo
    set tr' := if t.coreEdge then tr.observe o.link t.dbo o.strobed else tr with htr'
    have hreq' : tr'.request = tr.request := by
      rw [htr']; split
      · exact Transaction.observe_request ..
      · rfl
    have hopen' : tr'.response = none := by
      rw [htr']; split
      · rw [Transaction.observe_response, unfinished]
      · exact unfinished
    have hlog : (if t.coreEdge then
        o.log.modifyHead (·.observe o.link t.dbo o.strobed) else o.log) = tr' :: past := by
      rw [log, htr']; split <;> rfl
    rcases hafter with ⟨hsync, hphase⟩ | ⟨hsync, hidle, hdone⟩
    · have hstill : (o.link.step t).pending = true := by
        simp [Link.pending, DmiTransport.pending, Link.step, ScanSide.change, hflip, hsync]
      refine @Inv.open _ _ tr' past ?_ ?_ hopen' ?_ closed delivered
      · simp [Observed.step, hlog, hstill, hflip]
      · rw [hreq', request]; exact hscan.symm
      · simpa [Observed.step, Link.step, ScanSide.change, hflip] using hphase
    · have hfell : (o.link.step t).pending = false := by
        simp [Link.pending, DmiTransport.pending, Link.step, ScanSide.change, hflip, hsync]
      have hlog' : (o.step t).log =
          { tr' with response := some (o.link.step t).bridge.responsePayload } :: past := by
        simp [Observed.step, hlog, hpending, hfell, hflip]
      refine .idle ?_ ?_ ?_
      · simpa [Observed.step, Link.step, ScanSide.change, hflip] using hidle
      · rw [hlog']; simpa using closed
      · rw [hlog']
        exact List.forall_mem_cons.mpr ⟨hdone, delivered⟩

theorem Inv.init : Inv ({} : Observed abits) :=
  .idle ⟨⟨rfl, rfl, rfl⟩, ⟨rfl, rfl, rfl, rfl⟩, rfl, rfl, rfl⟩ (by simp) (by simp)

theorem Inv.run {o : Observed abits} {ts : List (Tick abits)} (h : Inv o)
    (hp : (link abits).Along Tick.Polite o.link ts) : Inv ((observed abits).runFrom o ts) :=
  (along_observed.mpr hp).invariant Inv (fun _ _ hi hok => hi.step hok) h

theorem Inv.delivered {o : Observed abits} (h : Inv o) : ∀ tr ∈ o.log, tr.Delivered := by
  cases h with
  | idle _ _ delivered => exact delivered
  | @«open» tr past log _ unfinished phase _ delivered =>
    rw [log]
    exact List.forall_mem_cons.mpr ⟨phase.delivered unfinished, delivered⟩

/-- Only the latest transaction can be unfinished, and only while a request is pending. -/
theorem Inv.finished {o : Observed abits} (h : Inv o) {tr : Transaction abits}
    (htr : tr ∈ o.log) : tr.response.isSome ∨ o.link.pending = true ∧ o.log.head? = some tr := by
  cases h with
  | idle _ closed => exact .inl (closed tr htr)
  | @«open» cur past log _ _ phase closed =>
    rw [log, List.mem_cons] at htr
    rcases htr with rfl | htr
    · exact .inr ⟨by simp [Link.pending, DmiTransport.pending, phase.pending], by simp [log]⟩
    · exact .inl (closed tr htr)

/-- `dtm.en` is high only for the open transaction. -/
theorem Inv.en_open {o : Observed abits} (h : Inv o) (hen : o.link.bridge.dtm.en = true) :
    ∃ tr past, o.log = tr :: past ∧ tr.response = none ∧ o.link.pending = true := by
  cases h with
  | idle idle => simp [idle.quiet.en] at hen
  | @«open» tr past log _ unfinished phase =>
    exact ⟨tr, past, log, unfinished, by simp [Link.pending, DmiTransport.pending, phase.pending]⟩

def Observed.Accounted (o : Observed abits) : Prop :=
  o.strobes = o.log.reverse.flatMap (·.accesses)

theorem Observed.Accounted.step {o : Observed abits} {t : Tick abits} (h : o.Accounted)
    (hi : Inv o) : (o.step t).Accounted := by
  unfold Accounted at *
  cases hce : t.coreEdge && o.link.bridge.dtm.en with
  | true =>
    obtain ⟨hc, hen⟩ : t.coreEdge = true ∧ o.link.bridge.dtm.en = true := by simpa using hce
    obtain ⟨tr, past, hlog, hopen, hpending⟩ := hi.en_open hen
    rw [hlog] at h
    cases hf : (o.link.step t).pending <;> cases hflip : t.flip <;>
      simp [Observed.step, hc, hen, hlog, h, hpending, hf, hflip, Transaction.observe, hopen]
  | false =>
    have hobs : ∀ tr : Transaction abits, t.coreEdge = true →
        (tr.observe o.link t.dbo o.strobed).accesses = tr.accesses := by
      intro tr hc
      have hen : o.link.bridge.dtm.en = false := by simpa [hc] using hce
      unfold Transaction.observe
      split <;> simp [hen]
    cases hlog : o.log with
    | nil =>
      rw [hlog] at h
      cases hflip : t.flip <;> simp [Observed.step, hce, hlog, h, hflip]
    | cons tr past =>
      rw [hlog] at h
      cases hc : t.coreEdge <;> cases hflip : t.flip <;> cases hf : o.link.pending <;>
        cases hf' : (o.link.step t).pending <;>
        simp_all [Observed.step]

/-- Outside a request and without a hard reset the presented response does not move. -/
def ResponseKept (s : Link abits) (t : Tick abits) : Prop :=
  s.pending = false → ¬ (t.coreEdge = true ∧ hardresetSeen s.bridge = true) →
    (s.step t).bridge.responsePayload = s.bridge.responsePayload

theorem Inv.responseKept {o : Observed abits} (h : Inv o) (t : Tick abits) :
    ResponseKept o.link t := by
  intro hpending hh
  cases h with
  | idle idle => exact idle.responsePayload_edges _ _ _ hh
  | «open» _ _ _ phase => simp [Link.pending, DmiTransport.pending, phase.pending] at hpending

/-- Core edges the bridge still needs before its answer is on the way. -/
def coreRank (q : Bool) (b : DmiCdcBridge abits) : ℕ :=
  if b.responseToggle = q then 0
  else if b.readCapture then 1
  else if b.requestActive then 2
  else if b.requestToggleSync = q then 3
  else if b.requestToggleMeta = q then 4
  else 5

/-- Scan edges after that. -/
def scanRank (q : Bool) (b : DmiCdcBridge abits) : ℕ :=
  if b.responseToggleSync = q then 0 else if b.responseToggleMeta = q then 1 else 2

theorem Phase.coreRank_edges {strobed q : Bool} {b : DmiCdcBridge abits}
    {tr : Transaction abits} {scan : ScanSide abits} (h : Phase strobed q b tr)
    (hq : scan.requestToggle = q) (scanEdge coreEdge : Bool) (dbo : BitVec 32) :
    coreRank q (b.edges true scanEdge coreEdge scan dbo) ≤ coreRank q b - coreEdge.toNat := by
  cases coreEdge with
  | false => cases scanEdge <;> simp [coreRank, DmiCdcBridge.edges]
  | true =>
    have hedge : coreRank q (b.edges true scanEdge true scan dbo) =
        coreRank q (transact scan dbo b (synchronizeRequest scan b)) := by
      cases scanEdge <;> simp [coreRank, DmiCdcBridge.edges, coreClockDomain]
    rw [hedge]
    by_cases hh : hardresetSeen b
    · cases h with
      | crossing quiet unanswered seen order fresh =>
        obtain ⟨q1, q2, q3, q4⟩ := quiet
        obtain ⟨u1, u2, u3⟩ := unanswered
        by_cases hs : b.requestToggleSync = q <;> by_cases hm : b.requestToggleMeta = q <;>
          simp_all [coreRank, transact, synchronizeRequest]
      | strobing crossed => cases crossed; simp_all [coreRank, transact, synchronizeRequest]
      | capturing crossed => cases crossed; simp_all [coreRank, transact, synchronizeRequest]
      | answered crossed => cases crossed; simp_all [coreRank, transact, synchronizeRequest]
    · cases h with
      | crossing quiet unanswered seen order fresh =>
        obtain ⟨q1, q2, q3, q4⟩ := quiet
        obtain ⟨u1, u2, u3⟩ := unanswered
        by_cases hs : b.requestToggleSync = q
        · by_cases hr : scan.requestPayload.op = DMI_OP_READ <;>
            by_cases hw : scan.requestPayload.op = DMI_OP_WRITE <;>
            simp_all [coreRank, transact, synchronizeRequest]
        · have hs' : b.requestToggleSync = !q := Bool.eq_not.mpr hs
          by_cases hm : b.requestToggleMeta = q <;>
            simp_all [coreRank, transact, synchronizeRequest]
      | strobing crossed unanswered active capture reading =>
        cases crossed
        cases unanswered
        cases hr : b.readPending <;> simp_all [coreRank, transact, synchronizeRequest]
      | capturing crossed unanswered =>
        cases crossed
        cases unanswered
        simp_all [coreRank, transact, synchronizeRequest]
      | answered crossed quiet =>
        cases crossed
        cases quiet
        simp_all [coreRank, transact, synchronizeRequest]

/-- Ticks that make no request. -/
def Silent (ts : List (Tick abits)) : Prop := ∀ t ∈ ts, t.payload = none ∧ t.flip = false

theorem silent_polite {s : Link abits} {ts : List (Tick abits)} (h : Silent ts) :
    (link abits).Along Tick.Polite s ts := by
  induction ts generalizing s with
  | nil => trivial
  | cons t ts ih =>
    obtain ⟨ht, hts⟩ := List.forall_mem_cons.mp h
    exact ⟨by simp [Tick.Polite, ht], ih hts⟩

theorem Inv.coreRank_step {o : Observed abits} {t : Tick abits} (h : Inv o) :
    coreRank o.link.scan.requestToggle (o.step t).link.bridge ≤
      coreRank o.link.scan.requestToggle o.link.bridge - t.coreEdge.toNat := by
  cases h with
  | idle idle =>
    have h' := idle.edges rfl t.scanEdge t.coreEdge t.dbo
    simp [Observed.step, Link.step, coreRank, h'.responseToggle]
  | «open» _ _ _ phase => exact phase.coreRank_edges rfl t.scanEdge t.coreEdge t.dbo

theorem requestToggle_step {o : Observed abits} {t : Tick abits} (ht : t.flip = false) :
    (o.step t).link.scan.requestToggle = o.link.scan.requestToggle := by
  simp [Observed.step, Link.step, ScanSide.change, ht]

theorem Inv.coreRank_run {o : Observed abits} {ts : List (Tick abits)} (h : Inv o)
    (hts : Silent ts) :
    coreRank o.link.scan.requestToggle ((observed abits).runFrom o ts).link.bridge ≤
      coreRank o.link.scan.requestToggle o.link.bridge - ts.countP (·.coreEdge) := by
  induction ts generalizing o with
  | nil => simp
  | cons t ts ih =>
    obtain ⟨ht, hts'⟩ := List.forall_mem_cons.mp hts
    have hstep := h.coreRank_step (t := t)
    have hrun := ih (h.step (t := t) (by simp [Tick.Polite, ht])) hts'
    rw [requestToggle_step ht.2] at hrun
    have hcount : (t :: ts).countP (·.coreEdge) = t.coreEdge.toNat + ts.countP (·.coreEdge) := by
      cases hc : t.coreEdge <;> simp [hc, Nat.add_comm]
    refine hrun.trans ?_
    omega

theorem Inv.scanRank_step {o : Observed abits} {t : Tick abits} (h : Inv o)
    (hr : coreRank o.link.scan.requestToggle o.link.bridge = 0) :
    scanRank o.link.scan.requestToggle (o.step t).link.bridge ≤
      scanRank o.link.scan.requestToggle o.link.bridge - t.scanEdge.toNat := by
  cases h with
  | idle idle =>
    have h' := idle.edges rfl t.scanEdge t.coreEdge t.dbo
    simp [Observed.step, Link.step, scanRank, h'.responseToggleSync]
  | «open» _ _ _ phase =>
    have hanswer : o.link.bridge.responseToggle = o.link.scan.requestToggle := by
      by_contra hne
      simp [coreRank, hne] at hr
      split_ifs at hr
    have hwait := phase.pending
    cases hs : t.scanEdge <;> cases hc : t.coreEdge <;>
      by_cases hm : o.link.bridge.responseToggleMeta = o.link.scan.requestToggle <;>
      simp_all [Observed.step, Link.step, scanRank, DmiCdcBridge.edges, responseSynchronizer]

theorem Inv.scanRank_run {o : Observed abits} {ts : List (Tick abits)} (h : Inv o)
    (hr : coreRank o.link.scan.requestToggle o.link.bridge = 0) (hts : Silent ts) :
    scanRank o.link.scan.requestToggle ((observed abits).runFrom o ts).link.bridge ≤
      scanRank o.link.scan.requestToggle o.link.bridge - ts.countP (·.scanEdge) := by
  induction ts generalizing o with
  | nil => simp
  | cons t ts ih =>
    obtain ⟨ht, hts'⟩ := List.forall_mem_cons.mp hts
    have hstep := h.scanRank_step (t := t) hr
    have hr' := h.coreRank_step (t := t)
    have hrun := ih (h.step (t := t) (by simp [Tick.Polite, ht]))
      (by rw [requestToggle_step ht.2]; exact Nat.le_zero.mp (by simpa [hr] using hr')) hts'
    rw [requestToggle_step ht.2] at hrun
    have hcount : (t :: ts).countP (·.scanEdge) = t.scanEdge.toNat + ts.countP (·.scanEdge) := by
      cases hc : t.scanEdge <;> simp [hc, Nat.add_comm]
    refine hrun.trans ?_
    omega

theorem requestToggle_run {o : Observed abits} {ts : List (Tick abits)} (hts : Silent ts) :
    ((observed abits).runFrom o ts).link.scan.requestToggle = o.link.scan.requestToggle := by
  induction ts generalizing o with
  | nil => rfl
  | cons t ts ih =>
    obtain ⟨ht, hts'⟩ := List.forall_mem_cons.mp hts
    exact (ih hts').trans (requestToggle_step ht.2)

/-- Five core edges and then two scan edges answer or acknowledge whatever is pending,
hard resets at any time included. -/
theorem Inv.pending_falls {o : Observed abits} {cs ss : List (Tick abits)} (h : Inv o)
    (hcs : Silent cs) (hss : Silent ss) (hcore : 5 ≤ cs.countP (·.coreEdge))
    (hscan : 2 ≤ ss.countP (·.scanEdge)) :
    ((observed abits).runFrom o (cs ++ ss)).link.pending = false := by
  rw [Clocked.runFrom_append]
  have hi := h.run (silent_polite hcs)
  have hc : coreRank o.link.scan.requestToggle o.link.bridge ≤ 5 := by
    unfold coreRank
    split_ifs <;> simp
  have hr := h.coreRank_run hcs
  have hs := hi.scanRank_run
    (by rw [requestToggle_run hcs]; omega) hss
  have hle : scanRank o.link.scan.requestToggle
      ((observed abits).runFrom o cs).link.bridge ≤ 2 := by
    unfold scanRank
    split_ifs <;> simp
  rw [requestToggle_run hcs] at hs
  have hzero : scanRank o.link.scan.requestToggle
      ((observed abits).runFrom ((observed abits).runFrom o cs) ss).link.bridge = 0 := by omega
  have hsync := requestToggle_run (o := (observed abits).runFrom o cs) hss
  rw [requestToggle_run hcs] at hsync
  by_contra hne
  have hp : ((observed abits).runFrom ((observed abits).runFrom o cs) ss).link.bridge.responseToggleSync
      ≠ o.link.scan.requestToggle := by
    intro heq
    simp [Link.pending, DmiTransport.pending, hsync, heq] at hne
  simp [scanRank, hp] at hzero
  split_ifs at hzero

end BonfireCore.DmiTransport
