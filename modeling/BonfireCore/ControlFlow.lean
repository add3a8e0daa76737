import BonfireCore.Core
import BonfireCore.FetchStream
import BonfireCore.RegisterStrobe

/-! The words that Decode accepts and that Execute takes, against the path of the program. -/
namespace BonfireCore

/-- A word on the path, and where Execute went from it. -/
structure Visit where
  pc : Word
  word : Word
  target : Option Word := none
  deriving DecidableEq, Repr

namespace Execute
variable {c : CoreConfig} {s : Execute} {i : ExecuteInput}

theorem jumpComb_command {op : DecodedOp} {alu : AluOutput} {trap : TrapCsr}
    {ebreakm progbufActive : Bool} (hj : (jumpComb op alu trap ebreakm progbufActive).jump = true) :
    op.branchCmd = true ∨ op.jumpCmd = true ∨ op.jumprCmd = true ∨ op.sysCmd = true := by
  unfold jumpComb at hj
  by_contra hnone
  obtain ⟨hb, hjal, hjalr, hsys⟩ : op.branchCmd = false ∧ op.jumpCmd = false ∧
      op.jumprCmd = false ∧ op.sysCmd = false := by
    simpa [not_or] using hnone
  simp [hb, hjal, hjalr, hsys] at hj

/-- A jump uses neither the load/store unit nor the shifter. -/
theorem jumpComb_jump {op : DecodedOp} (hw : op.WellFormed) {alu : AluOutput} {trap : TrapCsr}
    {ebreakm progbufActive : Bool} (hj : (jumpComb op alu trap ebreakm progbufActive).jump = true) :
    op.loadCmd = false ∧ op.storeCmd = false ∧ (op.aluCmd = true → op.funct3 = Funct3.ADD_SUB) := by
  have hcmd := jumpComb_command hj
  have hjalr (hr : op.jumprCmd = true) := hw.alu (hw.jumpr hr).1
  refine ⟨?_, ?_, ?_⟩
  · by_contra hl
    obtain ⟨-, hb, hjal, -, hsys⟩ := hw.load (by simpa using hl)
    rcases hcmd with h | h | h | h
    · simp [hb] at h
    · simp [hjal] at h
    · exact hl (hjalr h).1
    · simp [hsys] at h
  · by_contra hs
    obtain ⟨hb, hjal, -, hsys⟩ := hw.store (by simpa using hs)
    rcases hcmd with h | h | h | h
    · simp [hb] at h
    · simp [hjal] at h
    · exact hs (hjalr h).2.1
    · simp [hsys] at h
  · intro ha
    obtain ⟨-, -, hb, hjal, -, hsys⟩ := hw.alu ha
    rcases hcmd with h | h | h | h
    · simp [hb] at h
    · simp [hjal] at h
    · exact (hw.jumpr h).2
    · simp [hsys] at h

/-- No unit is at work. -/
structure Calm (c : CoreConfig) (s : Execute) : Prop where
  aluBusy : s.alu.busyO = false
  aluReady : c.shifterMode = .pipelined → s.alu.readyO = false
  outstanding : s.ls.outstanding = false
  validReg : c.registeredReadStage = true → s.ls.validReg = true → s.ls.earlyTerm c = true

theorem Calm.busy (h : s.Calm c) : s.busy c i = (s.jumpBusy || i.hazard) := by
  have hls : s.ls.busyO c i.dbus = false := by
    have hv := h.validReg
    cases hr : c.registeredReadStage <;> cases hval : s.ls.validReg <;>
      simp_all [LoadStore.busyO, LoadStore.busy, h.outstanding]
  simp [Execute.busy, h.aluBusy, hls]

theorem Calm.step_idle (h : s.Calm c) (ht : s.taken c i = false) : (s.step c i).Calm c := by
  have hshift : (s.aluInput c i).shiftEn = false := by
    simp [aluInput, DecodedOp.aluInput, AluInput.shiftEn, ht]
  have hen : (s.lsInput c i).en = false := by simp [lsInput, DecodedOp.lsInput, ht]
  constructor
  · cases hm : c.shifterMode <;>
      simp [Execute.step, AluState.step, hm, hshift, h.aluBusy]
  · intro hm
    simp [Execute.step, AluState.step, hm, hshift]
  · simp [Execute.step, LoadStore.step, hen, h.outstanding]
  · intro hr hv
    simp [Execute.step, LoadStore.step, LoadStore.validComb, LoadStore.confirm, h.outstanding] at hv

theorem calm_of_jump (hw : i.op.WellFormed) (ht : s.taken c i = true)
    (hj : (s.jumpOut c i).jump = true) : (s.step c i).Calm c := by
  have hout : (jumpComb i.op (s.aluOut c i) s.csr.trap (i.debugCsr.any (·.ebreakm))
      i.progbufActive).jump = true := by
    simpa [jumpOut, ht] using hj
  obtain ⟨hload, hstore, halu⟩ := jumpComb_jump hw hout
  have hbusy : s.busy c i = false := by
    simp only [taken, Bool.and_eq_true, Bool.not_eq_true'] at ht
    exact ht.2
  simp only [busy, Bool.or_eq_false_iff] at hbusy
  obtain ⟨⟨⟨hb, hls⟩, -⟩, -⟩ := hbusy
  have hshift : (s.aluInput c i).shiftEn = false := by
    cases ha : i.op.aluCmd with
    | false => simp [aluInput, DecodedOp.aluInput, AluInput.shiftEn, ha]
    | true =>
      simp [aluInput, DecodedOp.aluInput, AluInput.shiftEn, AluInput.isShift, halu ha,
        Funct3.ADD_SUB, Funct3.SLL, Funct3.SRL_SRA]
  have hen : (s.lsInput c i).en = false := by
    simp [lsInput, DecodedOp.lsInput, hload, hstore]
  constructor
  · cases hm : c.shifterMode <;> simp [Execute.step, AluState.step, hm, hshift, hb]
  · intro hm
    simp [Execute.step, AluState.step, hm, hshift]
  · cases hr : c.registeredReadStage <;> cases ho : s.ls.outstanding <;>
      simp_all [Execute.step, LoadStore.step, LoadStore.busyO, LoadStore.busy, LoadStore.confirm]
  · intro hr hv
    have ho : s.ls.outstanding = false := by
      by_contra ho
      simp_all [LoadStore.busyO, LoadStore.busy]
    simp [Execute.step, LoadStore.step, LoadStore.validComb, LoadStore.confirm, ho] at hv

/-- With nothing at work and nothing taken there is no result. -/
theorem Calm.validO_idle (hm : c.shifterMode ≠ .behavioral) (h : s.Calm c)
    (ht : s.taken c i = false) : s.validO c i = false := by
  have hshift : (s.aluInput c i).shiftEn = false := by
    simp [aluInput, DecodedOp.aluInput, AluInput.shiftEn, ht]
  have hen : (s.aluInput c i).en = false := by simp [aluInput, DecodedOp.aluInput, ht]
  have halu : (s.aluOut c i).valid = false := by
    have hready := h.aluReady
    cases hmode : c.shifterMode <;>
      simp_all [aluOut, AluState.out, AluState.shiftValid]
  have hls : s.ls.validO c i.dbus = false := by
    have hv := h.validReg
    cases hr : c.registeredReadStage <;> cases hval : s.ls.validReg <;>
      simp_all [LoadStore.validO, LoadStore.validComb, LoadStore.confirm, h.outstanding]
  rw [validO, halu, hls, csrOutput_idle ht, (jumpOut_idle ht).2]
  rfl

end Execute

namespace Visit
variable (reset : Word)

def next (v : Visit) : Word := v.target.getD (v.pc + 4)

def rejected (v : Visit) : Bool := (opClass v.word).isNone

/-- The word after a path, the newest word first. -/
def nextPc : List Visit → Word
  | [] => reset
  | v :: _ => v.next

/-- Program order: from `reset` on, at the target of every jump, else at `pc + 4`. A rejected
word is no jump. -/
def Path (mem : Word → Word) : List Visit → Prop
  | [] => True
  | v :: vs => v.pc = nextPc reset vs ∧ v.word = mem v.pc ∧ (v.rejected = true → v.target = none) ∧
      Path mem vs

instance decidablePath (mem : Word → Word) : ∀ vs, Decidable (Path reset mem vs)
  | [] => inferInstanceAs (Decidable True)
  | v :: vs =>
    have := decidablePath mem vs
    inferInstanceAs (Decidable (v.pc = nextPc reset vs ∧ v.word = mem v.pc ∧
      (v.rejected = true → v.target = none) ∧ Path reset mem vs))

/-- The newest word has been executed. -/
def resolve (target : Option Word) : List Visit → List Visit
  | [] => []
  | v :: vs => { v with target := target } :: vs

def jumps (vs : List Visit) : ℕ := vs.countP fun v => v.target.isSome

end Visit

/-- The core with the bus's debt, the words accepted and not killed, the words taken, both
newest first, and the number of jumps Fetch has followed. -/
structure Followed where
  core : Core
  owed : Option Word := none
  accepted : List Visit := []
  taken : List Visit := []
  redirects : ℕ := 0

namespace Followed
variable (c : CoreConfig) (s : Followed) (i : CoreInput)

def takes : Bool := s.core.taken c i

def jumpOut : JumpOutput := s.core.backend.jumpOut c (s.core.backendInput i)

/-- Execute takes a jump. -/
def jumps : Bool := s.takes c i && (s.jumpOut c i).jump

def target : Option Word := if s.jumps c i then some (s.jumpOut c i).jumpDest else none

def kill : Bool :=
  s.core.backend.execute.kill c (s.core.backend.executeInput c (s.core.backendInput i))

def stall : Bool := s.core.backend.busyO c (s.core.backendInput i)

/-- Decode takes over what Fetch offers. -/
def accepts : Bool := s.core.fetch.valid && !s.stall c i && !s.kill c i

def redirected : Bool := s.core.fetch.redirects (s.core.fetchInput c i)

/-- The words accepted before this cycle, as they stand after it. -/
def kept : List Visit :=
  if s.takes c i then Visit.resolve (s.target c i) s.accepted
  else if s.kill c i && s.core.backend.decode.valid then s.accepted.tail
  else s.accepted

def step : Followed where
  core := s.core.step c i
  owed := nextOwed s.owed (s.core.ibusRequest c i) i.ibus
  accepted :=
    if s.accepts c i then
      { pc := s.core.fetch.currentIp0, word := s.core.fetch.currentWord0 } :: s.kept c i
    else s.kept c i
  taken :=
    if s.takes c i then
      { pc := s.core.backend.decode.op.debugCurrentIp, word := s.core.backend.decode.op.debugWord,
        target := s.target c i } :: s.taken
    else s.taken
  redirects := if s.redirected c i then s.redirects + 1 else s.redirects

def machine : Clocked Followed CoreInput where
  init := { core := Core.reset c }
  step := step c

/-- Without the word in Decode, that Execute has not taken yet. -/
def settled : List Visit := if s.core.backend.decode.valid then s.accepted.tail else s.accepted

variable {c : CoreConfig} {s : Followed} {i : CoreInput}

section Signals

theorem takes_eq : s.takes c i = (s.core.backend.decode.valid && !s.stall c i) := by
  unfold takes stall Core.taken Backend.taken Backend.busyO Decode.busy Execute.taken
    Backend.executeBusy
  show (s.core.backend.decode.valid && _) = _
  cases s.core.backend.decode.valid <;> simp

theorem jumps_takes (h : s.jumps c i = true) : s.takes c i = true := by
  simp only [jumps, Bool.and_eq_true] at h
  exact h.1

theorem kill_eq : s.kill c i =
    if c.jumpBypass then s.jumps c i else s.core.backend.execute.jumpBusy := by
  simp only [kill, Execute.kill, Backend.executeInput, Core.backendInput, Bool.or_false]
  rfl

/-- What Fetch sees of Execute's jump. -/
theorem jumpO_eq : (s.core.fetchInput c i).jump =
    if s.takes c i && c.jumpBypass then s.jumps c i
    else s.core.backend.execute.jumpR && !s.takes c i := by
  show (if s.takes c i && c.jumpBypass then (s.jumpOut c i).jump
    else s.core.backend.execute.jumpR && !s.takes c i) = _
  cases ht : s.takes c i <;> simp [jumps, ht]

theorem jumpDest_eq : (s.core.fetchInput c i).jumpDest =
    if s.takes c i && c.jumpBypass then (s.jumpOut c i).jumpDest
    else s.core.backend.execute.jumpDestR := rfl

theorem step_jumpR : (s.step c i).core.backend.execute.jumpR =
    if s.takes c i then s.jumps c i else s.core.backend.execute.jumpR := by
  show (if s.takes c i then (s.jumpOut c i).jump else _) = _
  cases ht : s.takes c i <;> simp [jumps, ht]

theorem step_jumpDestR : (s.step c i).core.backend.execute.jumpDestR =
    if s.takes c i then (s.jumpOut c i).jumpDest else s.core.backend.execute.jumpDestR := rfl

theorem step_jumpBusy :
    (s.step c i).core.backend.execute.jumpBusy = (s.jumps c i && !c.jumpBypass) := rfl

section DecodeStep

/-- The word Decode is offered. -/
def offer (s : Followed) : Visit :=
  { pc := s.core.fetch.currentIp0, word := s.core.fetch.currentWord0 }

/-- Decode holds the word, and Execute has not taken it. -/
structure Holds (op : DecodedOp) (v : Visit) : Prop where
  word : op.debugWord = v.word
  pc : op.debugCurrentIp = v.pc
  target : v.target = none
  accepted : v.rejected = false

theorem decode_kill (hk : s.kill c i = true) :
    (s.step c i).core.backend.decode.valid = false := by
  show (s.core.backend.decode.step _ (s.kill c i) _ {}).valid = false
  simp [Decode.step, hk]

theorem decode_hold (hk : s.kill c i = false) (hs : s.stall c i = true) :
    (s.step c i).core.backend.decode = s.core.backend.decode := by
  have hbusy : s.core.backend.decode.busy
      (s.core.backend.executeBusy c (s.core.backendInput i)) = true := hs
  show s.core.backend.decode.step _ (s.kill c i) _ {} = _
  simp [Decode.step, hk, hbusy]

theorem decode_empty (hk : s.kill c i = false) (hs : s.stall c i = false)
    (hf : s.core.fetch.valid = false) : (s.step c i).core.backend.decode.valid = false := by
  have hbusy : s.core.backend.decode.busy
      (s.core.backend.executeBusy c (s.core.backendInput i)) = false := hs
  have hdec : (s.step c i).core.backend.decode =
      s.core.backend.decode.step (s.core.backend.executeBusy c (s.core.backendInput i))
        (s.kill c i) s.core.fetch.bundle {} := rfl
  rw [hdec]
  simp [Decode.step, hk, hbusy, Fetch.bundle, hf]

theorem decodeWord_invalid (d : DecodedOp) (word currentIp nextIp : Word) :
    (d.decodeWord word currentIp nextIp).invalidOpcode = (opClass word).isNone := by
  unfold DecodedOp.decodeWord
  rcases opClass word with _ | cls
  · rfl
  · cases cls with
    | system =>
      by_cases hpriv : word.extractLsb' 12 3 = Funct3.PRIV
      · simp [DecodedOp.decodeSystem, DecodedOp.base, hpriv]
      · cases h14 : word[14] <;> simp [DecodedOp.decodeSystem, DecodedOp.base, hpriv, h14]
    | _ => rfl

theorem decode_accept (hk : s.kill c i = false) (hs : s.stall c i = false)
    (hf : s.core.fetch.valid = true) :
    (s.step c i).core.backend.decode.valid = !s.offer.rejected ∧
      (s.step c i).core.backend.decode.op.debugWord = s.offer.word ∧
      (s.step c i).core.backend.decode.op.debugCurrentIp = s.offer.pc := by
  have hbusy : s.core.backend.decode.busy
      (s.core.backend.executeBusy c (s.core.backendInput i)) = false := hs
  have hdec : (s.step c i).core.backend.decode =
      s.core.backend.decode.step (s.core.backend.executeBusy c (s.core.backendInput i))
        (s.kill c i) s.core.fetch.bundle {} := rfl
  obtain ⟨hword, hpc, -⟩ := DecodedOp.decodeWord_fetched s.core.backend.decode.op
    s.core.fetch.currentWord0 s.core.fetch.currentIp0 (s.core.fetch.currentIp0 + 4)
  rw [hdec]
  simp only [Decode.step, hk, hbusy, Fetch.bundle, hf, Bool.false_and, Bool.false_eq_true, if_false,
    if_true, decodeWord_invalid]
  exact ⟨rfl, hword, hpc⟩

end DecodeStep

end Signals

/-- Where the redirect of a taken jump stands: Execute asks for it. -/
structure Pending (c : CoreConfig) (s : Followed) : Prop where
  jumpR : s.core.backend.execute.jumpR = true
  calm : s.core.backend.execute.Calm c
  dest : Visit.nextPc c.resetAddress s.settled = s.core.backend.execute.jumpDestR
  count : Visit.jumps s.settled = s.redirects + 1
  owed : s.owed.isSome = true → s.core.fetch.outstanding = true

/-- `sequential`: what Fetch holds is the path; the jump request is still up only for the word
at the target. `doomed`: without the bypass, the cycle after a jump. `waiting`: for the bus.
`redirected`: until the word at the target is there. -/
inductive Phase (c : CoreConfig) (mem : Word → Word) (s : Followed) : Prop
  | sequential (path : Visit.Path c.resetAddress mem s.accepted)
      (streams : s.core.fetch.Streams mem s.owed (Visit.nextPc c.resetAddress s.accepted))
      (count : Visit.jumps s.settled = s.redirects)
      (jumpTaken : s.core.fetch.jumpTaken = false)
      (jumpBusy : s.core.backend.execute.jumpBusy = false)
      (run : s.core.fetch.run = false → s.core.backend.decode.valid = false)
      (arrived : s.core.backend.execute.jumpR = true → s.core.backend.decode.valid = true ∧
        s.core.backend.execute.Calm c ∧
        (c.shifterMode ≠ .behavioral → c.pipelineLength = .four → s.core.backend.wb.valid = false))
  | doomed (bypass : c.jumpBypass = false) (pending : s.Pending c)
      (jumpTaken : s.core.fetch.jumpTaken = false)
      (jumpBusy : s.core.backend.execute.jumpBusy = true) (run : s.core.fetch.run = true)
      (buffered : s.core.fetch.busy = true → s.core.fetch.outstanding = false)
  | waiting (pending : s.Pending c) (empty : s.core.backend.decode.valid = false)
      (jumpBusy : s.core.backend.execute.jumpBusy = false) (fetch : s.core.fetch.Waits)
  | redirected (empty : s.core.backend.decode.valid = false)
      (path : Visit.Path c.resetAddress mem s.accepted)
      (streams : s.core.fetch.Streams mem s.owed (Visit.nextPc c.resetAddress s.accepted))
      (count : Visit.jumps s.settled = s.redirects)
      (jumpTaken : s.core.fetch.jumpTaken = true) (run : s.core.fetch.run = true)
      (jumpR : s.core.backend.execute.jumpR = true)
      (jumpBusy : s.core.backend.execute.jumpBusy = false)
      (calm : s.core.backend.execute.Calm c)
      (arrives : s.core.fetch.valid = true → c.shifterMode ≠ .behavioral →
        c.pipelineLength = .four → s.core.backend.wb.valid = false)

/-- The two records agree, and follow the path. -/
structure Accounts (c : CoreConfig) (mem : Word → Word) (s : Followed) : Prop where
  wellFormed : s.core.backend.decode.op.WellFormed
  head : s.core.backend.decode.valid = true →
    ∃ v, s.accepted = v :: s.settled ∧ Holds s.core.backend.decode.op v
  path : Visit.Path c.resetAddress mem s.settled
  taken : s.taken = s.settled.filter (!·.rejected)

structure Inv (c : CoreConfig) (mem : Word → Word) (s : Followed) : Prop
    extends s.Accounts c mem where
  phase : s.Phase c mem

section Conditions
variable (c) (s) (i)

/-- A word that Decode accepts while the jump request is up is no rejected one; without the
bypass no word is. -/
def Decodes : Prop :=
  s.core.fetch.valid = true →
    (c.jumpBypass = true →
      s.core.backend.execute.jumpR = true ∧ s.core.backend.decode.valid = false) →
    s.offer.rejected = false

/-- The word at a target has no operand to wait for. -/
def Prompt : Prop :=
  c.shifterMode = .behavioral → s.core.backend.execute.jumpR = true →
    s.core.backend.hazard c = false

/-- Without the bypass: Fetch can be emptied while the word behind the jump is killed. -/
def Emptied : Prop :=
  s.core.backend.execute.jumpBusy = true → s.core.backend.decode.valid = true →
    s.core.fetch.valid = true → s.core.fetch.outstanding = false ∨ i.ibus.ack = true

end Conditions

section Moves
variable {mem : Word → Word}

theorem kept_of_not_jumps (h : s.Inv c mem) (hj : s.jumps c i = false) (hk : s.kill c i = false) :
    s.kept c i = s.accepted := by
  unfold kept
  cases ht : s.takes c i with
  | false => simp [hk]
  | true =>
    have hv : s.core.backend.decode.valid = true := by
      rw [takes_eq, Bool.and_eq_true] at ht
      exact ht.1
    obtain ⟨v, hacc, hholds⟩ := h.head hv
    have hv : { v with target := none } = v := by rw [← hholds.target]
    rw [if_pos rfl, hacc, target, hj]
    simp [Visit.resolve, hv]

/-- Nothing is taken over from Fetch, and Decode keeps what it has. -/
theorem step_stalled (hs : s.stall c i = true) :
    (s.step c i).accepted = s.kept c i ∧ (s.step c i).taken = s.taken := by
  have hacc : s.accepts c i = false := by simp [accepts, hs]
  have htakes : s.takes c i = false := by rw [takes_eq, hs]; simp
  simp [step, hacc, htakes]

/-- The words accepted after a cycle in which Decode is free. -/
theorem step_free (hk : s.kill c i = false) (hs : s.stall c i = false) :
    (s.step c i).accepted = if s.core.fetch.valid then s.offer :: s.kept c i else s.kept c i := by
  have hacc : s.accepts c i = s.core.fetch.valid := by simp [accepts, hs, hk]
  simp only [step, hacc]
  rfl

/-- A word that Decode accepts is in its registers, a rejected one is done. -/
theorem settled_free (hk : s.kill c i = false) (hs : s.stall c i = false) :
    (s.step c i).settled =
      if s.core.fetch.valid && s.offer.rejected then s.offer :: s.kept c i else s.kept c i := by
  cases hf : s.core.fetch.valid with
  | false => simp [settled, step_free hk hs, decode_empty hk hs hf, hf]
  | true =>
    obtain ⟨hvalid, -⟩ := decode_accept hk hs hf
    cases hr : s.offer.rejected <;> simp [settled, step_free hk hs, hvalid, hf, hr]

theorem head_free (hk : s.kill c i = false) (hs : s.stall c i = false)
    (hv : (s.step c i).core.backend.decode.valid = true) :
    ∃ v, (s.step c i).accepted = v :: (s.step c i).settled ∧
      Holds (s.step c i).core.backend.decode.op v := by
  cases hf : s.core.fetch.valid with
  | false => simp [decode_empty hk hs hf] at hv
  | true =>
    obtain ⟨hvalid, hword, hpc⟩ := decode_accept hk hs hf
    have hr : s.offer.rejected = false := by simpa [hvalid] using hv
    refine ⟨s.offer, ?_, hword, hpc, rfl, hr⟩
    simp [step_free hk hs, settled_free hk hs, hf, hr]

/-- What Fetch offers continues the words kept. -/
theorem path_free (hk : s.kill c i = false) (hs : s.stall c i = false)
    (hpath : Visit.Path c.resetAddress mem (s.kept c i))
    (hstr : s.core.fetch.Streams mem s.owed (Visit.nextPc c.resetAddress (s.kept c i))) :
    Visit.Path c.resetAddress mem (s.step c i).accepted ∧
      Visit.Path c.resetAddress mem (s.step c i).settled := by
  rw [settled_free hk hs, step_free hk hs]
  cases hf : s.core.fetch.valid with
  | false => exact ⟨hpath, hpath⟩
  | true =>
    obtain ⟨hpc, hword⟩ := hstr.offered hf
    have hnew : Visit.Path c.resetAddress mem (s.offer :: s.kept c i) :=
      ⟨hpc, hword.trans (congrArg mem hpc.symm), fun _ => rfl, hpath⟩
    refine ⟨hnew, ?_⟩
    cases s.offer.rejected
    · exact hpath
    · exact hnew

theorem streams_free (hk : s.kill c i = false) (hs : s.stall c i = false)
    (hstr : s.core.fetch.Streams mem s.owed (Visit.nextPc c.resetAddress (s.kept c i)))
    (hbus : OneRequest mem s.owed (s.core.ibusRequest c i) i.ibus)
    (hlate : AnswersLater s.owed i.ibus)
    (hn : s.core.fetch.newJump (s.core.fetchInput c i) = false) :
    (s.step c i).core.fetch.Streams mem (s.step c i).owed
      (Visit.nextPc c.resetAddress (s.step c i).accepted) := by
  have hstep := hstr.step hbus hlate hn
  have hstall : (s.core.fetchInput c i).stall = false := hs
  rw [step_free hk hs]
  rw [hstall] at hstep
  cases hf : s.core.fetch.valid with
  | false =>
    simp only [hf, Bool.false_and, Bool.false_eq_true, if_false] at hstep ⊢
    exact hstep
  | true =>
    obtain ⟨hpc, -⟩ := hstr.offered hf
    simp only [hf, Bool.not_false, Bool.and_self, if_true] at hstep ⊢
    rw [← hpc] at hstep
    exact hstep

theorem jumps_free (hk : s.kill c i = false) (hs : s.stall c i = false) :
    Visit.jumps (s.step c i).settled = Visit.jumps (s.kept c i) := by
  rw [settled_free hk hs]
  split_ifs <;> simp [Visit.jumps, offer]

theorem filter_free (hk : s.kill c i = false) (hs : s.stall c i = false) :
    (s.step c i).settled.filter (!·.rejected) = (s.kept c i).filter (!·.rejected) := by
  rw [settled_free hk hs]
  split_ifs with hr
  · rw [Bool.and_eq_true] at hr
    simp [hr.2]
  · rfl

/-- The jump of the word in Decode is on record. -/
theorem kept_jump (h : s.Inv c mem) (hpath : Visit.Path c.resetAddress mem s.accepted)
    (hj : s.jumps c i = true) :
    Visit.Path c.resetAddress mem (s.kept c i) ∧
      Visit.nextPc c.resetAddress (s.kept c i) = (s.jumpOut c i).jumpDest ∧
      Visit.jumps (s.kept c i) = Visit.jumps s.settled + 1 ∧
      (s.step c i).taken = (s.kept c i).filter (!·.rejected) := by
  have ht := jumps_takes hj
  have hv : s.core.backend.decode.valid = true := by
    rw [takes_eq, Bool.and_eq_true] at ht
    exact ht.1
  obtain ⟨v, hacc, hholds⟩ := h.head hv
  have hkept : s.kept c i =
      { v with target := some (s.jumpOut c i).jumpDest } :: s.settled := by
    simp [kept, ht, hacc, target, hj, Visit.resolve]
  rw [hacc] at hpath
  obtain ⟨hpc, hword, -, htail⟩ := hpath
  have hrej : Visit.rejected { v with target := some (s.jumpOut c i).jumpDest } = false :=
    hholds.accepted
  rw [hkept]
  refine ⟨⟨hpc, hword, fun hr => ?_, htail⟩, rfl, by simp [Visit.jumps], ?_⟩
  · rw [hrej] at hr
    cases hr
  · simp [step, ht, target, hj, hrej, hholds.word, hholds.pc, h.taken]

/-- So is the word Execute takes without a jump. -/
theorem taken_of_not_jumps (h : s.Inv c mem) (hj : s.jumps c i = false)
    (hk : s.kill c i = false) (hs : s.stall c i = false) :
    (s.step c i).taken = (s.kept c i).filter (!·.rejected) := by
  rw [kept_of_not_jumps h hj hk]
  cases hv : s.core.backend.decode.valid with
  | false =>
    have ht : s.takes c i = false := by simp [takes_eq, hv]
    have hset : s.settled = s.accepted := by simp [settled, hv]
    simp [step, ht, h.taken, hset]
  | true =>
    have ht : s.takes c i = true := by simp [takes_eq, hv, hs]
    obtain ⟨v, hacc, hholds⟩ := h.head hv
    rw [hacc]
    simp [step, ht, target, hj, h.taken, hholds.accepted, hholds.word, hholds.pc,
      ← hholds.target]

end Moves

section Steps
variable {mem : Word → Word}

theorem step_run : (s.step c i).core.fetch.run = true := Fetch.step_run _ _

theorem redirects_eq (hr : s.redirected c i = false) : (s.step c i).redirects = s.redirects := by
  simp [step, hr]

theorem not_redirected (hn : s.core.fetch.newJump (s.core.fetchInput c i) = false) :
    s.redirected c i = false := by
  simp [redirected, Fetch.redirects, hn]

/-- Execute follows a jump now or waits for the bus. -/
theorem phase_of_newJump
    (hn : s.core.fetch.newJump (s.core.fetchInput c i) = true) (hrun : s.core.fetch.run = true)
    (hbuf : s.core.fetch.busy = true → s.core.fetch.outstanding = false)
    (hv : s.redirected c i = false → s.stall c i = true → s.core.fetch.valid = false)
    (howed : s.owed.isSome = true → s.core.fetch.outstanding = true)
    (hempty : (s.step c i).core.backend.decode.valid = false)
    (hpath : Visit.Path c.resetAddress mem (s.step c i).accepted)
    (hdest : Visit.nextPc c.resetAddress (s.step c i).accepted = (s.core.fetchInput c i).jumpDest)
    (hreg : (s.step c i).core.backend.execute.jumpDestR = (s.core.fetchInput c i).jumpDest)
    (hcount : Visit.jumps (s.step c i).settled = s.redirects + 1)
    (hjumpR : (s.step c i).core.backend.execute.jumpR = true)
    (hbusy : (s.step c i).core.backend.execute.jumpBusy = false)
    (hcalm : (s.step c i).core.backend.execute.Calm c) : (s.step c i).Phase c mem := by
  have hsettled : (s.step c i).settled = (s.step c i).accepted := by simp [settled, hempty]
  cases hr : s.redirected c i with
  | true =>
    have hfetch : (s.step c i).core.fetch = _ := Fetch.redirect_step hr
    have hstr : (s.step c i).core.fetch.Streams mem (s.step c i).owed _ :=
      Fetch.streams_redirect howed hr
    refine .redirected hempty hpath ?_ ?_ ?_ step_run hjumpR hbusy hcalm ?_
    · rw [hdest]
      exact hstr
    · rw [hcount]
      simp [step, hr]
    · rw [hfetch]
    · rw [hfetch]
      intro hvalid
      cases hvalid
  | false =>
    have hwaits : (s.step c i).core.fetch.Waits := Fetch.waits_step hrun hn hr hbuf (hv hr)
    refine .waiting ⟨hjumpR, hcalm, ?_, ?_, fun _ => hwaits.outstanding⟩ hempty hbusy hwaits
    · rw [hsettled, hdest, hreg]
    · rw [hcount, redirects_eq hr]

/-- A word that Execute does not take has to wait for it. -/
theorem arrived_takes (hprompt : s.Prompt c) (hj : s.core.backend.execute.jumpR = true)
    (hbusy : s.core.backend.execute.jumpBusy = false)
    (hv : s.core.backend.decode.valid = true) (hcalm : s.core.backend.execute.Calm c)
    (hwb : c.shifterMode ≠ .behavioral → c.pipelineLength = .four →
      s.core.backend.wb.valid = false) : s.takes c i = true := by
  have hhazard : s.core.backend.hazard c = false := by
    by_cases hm : c.shifterMode = .behavioral
    · exact hprompt hm hj
    · cases hp : c.pipelineLength with
      | three => simp [Backend.hazard, hp]
      | four => simp [Backend.hazard, Writeback.matchesSource, hwb hm hp]
  show s.core.backend.execute.taken c _ = true
  rw [Execute.taken, hcalm.busy, hbusy]
  simp [Backend.executeInput, hhazard, hv]

/-- The word in Decode has not jumped. -/
theorem jumps_accepted (h : s.Inv c mem) :
    Visit.jumps s.accepted = Visit.jumps s.settled := by
  cases hv : s.core.backend.decode.valid with
  | false => simp [settled, hv]
  | true =>
    obtain ⟨v, hacc, hholds⟩ := h.head hv
    rw [hacc]
    simp [Visit.jumps, hholds.target]

theorem stall_of_takes (ht : s.takes c i = true) : s.stall c i = false := by
  rw [takes_eq, Bool.and_eq_true, Bool.not_eq_true'] at ht
  exact ht.2

/-- An old jump request is not seen by Fetch. -/
theorem newJump_sequential (hprompt : s.Prompt c) (hj : s.jumps c i = false)
    (hbusy : s.core.backend.execute.jumpBusy = false)
    (harr : s.core.backend.execute.jumpR = true → s.core.backend.decode.valid = true ∧
      s.core.backend.execute.Calm c ∧
      (c.shifterMode ≠ .behavioral → c.pipelineLength = .four →
        s.core.backend.wb.valid = false)) :
    s.core.fetch.newJump (s.core.fetchInput c i) = false := by
  have hjump : (s.core.fetchInput c i).jump = false := by
    rw [jumpO_eq, hj]
    cases hjr : s.core.backend.execute.jumpR with
    | false => simp
    | true =>
      obtain ⟨hv, hcalm, hwb⟩ := harr hjr
      simp [arrived_takes hprompt hjr hbusy hv hcalm hwb]
  simp [Fetch.newJump, hjump]

/-- Decode is free, and no jump reaches Fetch. -/
theorem sequential_free (hj : s.jumps c i = false) (hk : s.kill c i = false)
    (hs : s.stall c i = false) (hn : s.core.fetch.newJump (s.core.fetchInput c i) = false)
    (hbus : OneRequest mem s.owed (s.core.ibusRequest c i) i.ibus)
    (hlate : AnswersLater s.owed i.ibus)
    (hpath : Visit.Path c.resetAddress mem (s.kept c i))
    (hstr : s.core.fetch.Streams mem s.owed (Visit.nextPc c.resetAddress (s.kept c i)))
    (hcount : Visit.jumps (s.kept c i) = s.redirects)
    (hjt : (s.step c i).core.fetch.jumpTaken = false)
    (harrived : (s.step c i).core.backend.execute.jumpR = true →
      (s.step c i).core.backend.decode.valid = true ∧
        (s.step c i).core.backend.execute.Calm c ∧
        (c.shifterMode ≠ .behavioral → c.pipelineLength = .four →
          (s.step c i).core.backend.wb.valid = false)) : (s.step c i).Phase c mem := by
  refine .sequential (path_free hk hs hpath hstr).1 (streams_free hk hs hstr hbus hlate hn) ?_ hjt
    ?_ (fun hrun => ?_) harrived
  · rw [jumps_free hk hs, hcount, redirects_eq (not_redirected hn)]
  · rw [step_jumpBusy, hj, Bool.false_and]
  · rw [step_run] at hrun
    cases hrun

end Steps

section Preservation
variable {mem : Word → Word} (h : s.Inv c mem)
  (hbus : OneRequest mem s.owed (s.core.ibusRequest c i) i.ibus)
  (hlate : AnswersLater s.owed i.ibus) (hdec : s.Decodes c) (hprompt : s.Prompt c)
  (hempty : s.Emptied i)
include h hbus hlate hdec hprompt

theorem phase_sequential (hpath : Visit.Path c.resetAddress mem s.accepted)
    (hstr : s.core.fetch.Streams mem s.owed (Visit.nextPc c.resetAddress s.accepted))
    (hcount : Visit.jumps s.settled = s.redirects) (hjt : s.core.fetch.jumpTaken = false)
    (hbusy : s.core.backend.execute.jumpBusy = false)
    (hrun : s.core.fetch.run = false → s.core.backend.decode.valid = false)
    (harr : s.core.backend.execute.jumpR = true → s.core.backend.decode.valid = true ∧
        s.core.backend.execute.Calm c ∧
        (c.shifterMode ≠ .behavioral → c.pipelineLength = .four →
          s.core.backend.wb.valid = false)) : (s.step c i).Phase c mem := by
  have htakes : s.core.backend.execute.jumpR = true → s.takes c i = true := by
    intro hj
    obtain ⟨hv, hcalm, hwb⟩ := harr hj
    exact arrived_takes hprompt hj hbusy hv hcalm hwb
  cases hj : s.jumps c i with
  | true =>
    have ht := jumps_takes hj
    have hs := stall_of_takes ht
    have hrun' : s.core.fetch.run = true := by
      by_contra hr
      rw [takes_eq, hrun (by simpa using hr)] at ht
      cases ht
    have hjump : (s.jumpOut c i).jump = true := by
      simp only [jumps, Bool.and_eq_true] at hj
      exact hj.2
    have hcalm : (s.step c i).core.backend.execute.Calm c :=
      Execute.calm_of_jump h.wellFormed ht hjump
    have hjumpR : (s.step c i).core.backend.execute.jumpR = true := by
      rw [step_jumpR, if_pos ht, hj]
    have hreg : (s.step c i).core.backend.execute.jumpDestR = (s.jumpOut c i).jumpDest := by
      rw [step_jumpDestR, if_pos ht]
    have howed : s.owed.isSome = true → s.core.fetch.outstanding = true := by
      intro ho
      obtain ⟨a, ha⟩ := Option.isSome_iff_exists.1 ho
      exact (hstr.inFlight a ha).2
    obtain ⟨hkpath, hknext, hkjumps, -⟩ := kept_jump h hpath hj
    cases hby : c.jumpBypass with
    | true =>
      have hk : s.kill c i = true := by rw [kill_eq, hby, if_pos rfl, hj]
      have hn : s.core.fetch.newJump (s.core.fetchInput c i) = true := by
        simp [Fetch.newJump, jumpO_eq, ht, hby, hj, hjt]
      have hdest : (s.core.fetchInput c i).jumpDest = (s.jumpOut c i).jumpDest := by
        simp [jumpDest_eq, ht, hby]
      have hvalid := decode_kill hk
      have hacc : (s.step c i).accepted = s.kept c i := by simp [step, accepts, hk]
      have hset : (s.step c i).settled = s.kept c i := by simp [settled, hvalid, hacc]
      refine phase_of_newJump hn hrun' hstr.buffered ?_ howed hvalid (hacc ▸ hkpath)
        (by rw [hacc, hknext, hdest]) (by rw [hreg, hdest]) (by rw [hset, hkjumps, hcount]) hjumpR
        (by rw [step_jumpBusy, hby]; simp) hcalm
      intro _ hs'
      rw [hs] at hs'
      cases hs'
    | false =>
      have hk : s.kill c i = false := by simp [kill_eq, hby, hbusy]
      have hn : s.core.fetch.newJump (s.core.fetchInput c i) = false := by
        simp [Fetch.newJump, jumpO_eq, ht, hby]
      have hstr' := hstr.step hbus hlate hn
      have hset : (s.step c i).settled = s.kept c i := by
        rw [settled_free hk hs]
        cases hf : s.core.fetch.valid with
        | false => rfl
        | true => simp [hdec hf (by simp [hby])]
      have hjt' : (s.step c i).core.fetch.jumpTaken = _ :=
        Fetch.step_jumpTaken (not_redirected hn)
      refine .doomed hby ⟨hjumpR, hcalm, ?_, ?_, ?_⟩ ?_ ?_ step_run hstr'.buffered
      · rw [hset, hknext, hreg]
      · rw [hset, hkjumps, hcount, redirects_eq (not_redirected hn)]
      · intro ho
        obtain ⟨a, ha⟩ := Option.isSome_iff_exists.1 ho
        exact (hstr'.inFlight a ha).2
      · rw [hjt', hjt, Bool.false_and]
      · rw [step_jumpBusy, hj, hby]
        rfl
  | false =>
    have hk : s.kill c i = false := by rw [kill_eq, hj, hbusy]; simp
    have hkept := kept_of_not_jumps h hj hk
    have hn := newJump_sequential hprompt hj hbusy harr
    have hjt' : (s.step c i).core.fetch.jumpTaken = false := by
      have hstep : (s.step c i).core.fetch.jumpTaken = _ :=
        Fetch.step_jumpTaken (not_redirected hn)
      rw [hstep, hjt, Bool.false_and]
    have hjumpR : (s.step c i).core.backend.execute.jumpR = false := by
      rw [step_jumpR, hj]
      split_ifs with ht
      · rfl
      · by_contra hjr
        exact ht (htakes (by simpa using hjr))
    have harr' {P : Prop} (hjr : (s.step c i).core.backend.execute.jumpR = true) : P := by
      rw [hjumpR] at hjr
      cases hjr
    cases hs : s.stall c i with
    | true =>
      obtain ⟨hacc, -⟩ := step_stalled hs
      have hdecode := decode_hold hk hs
      have hset : (s.step c i).settled = s.settled := by
        rw [settled, settled, hacc, hkept, hdecode]
      have hstall : (s.core.fetchInput c i).stall = true := hs
      have hstr' := hstr.step hbus hlate hn
      rw [hstall, Bool.not_true, Bool.and_false, if_neg Bool.false_ne_true] at hstr'
      refine .sequential ?_ ?_ ?_ hjt' ?_ (fun hr => ?_) harr'
      · rw [hacc, hkept]
        exact hpath
      · rw [hacc, hkept]
        exact hstr'
      · rw [hset, hcount, redirects_eq (not_redirected hn)]
      · rw [step_jumpBusy, hj, Bool.false_and]
      · rw [step_run] at hr
        cases hr
    | false =>
      refine sequential_free hj hk hs hn hbus hlate (hkept ▸ hpath) (hkept ▸ hstr) ?_ hjt' harr'
      rw [hkept, jumps_accepted h, hcount]

omit hbus hlate hdec hprompt in
include hempty in
theorem phase_doomed (hp : s.Pending c) (hby : c.jumpBypass = false)
    (hjt : s.core.fetch.jumpTaken = false) (hbusy : s.core.backend.execute.jumpBusy = true)
    (hrun : s.core.fetch.run = true)
    (hbuf : s.core.fetch.busy = true → s.core.fetch.outstanding = false) :
    (s.step c i).Phase c mem := by
  have ht : s.takes c i = false := by
    show s.core.backend.execute.taken c _ = false
    simp [Execute.taken, Execute.busy, hbusy]
  have hj : s.jumps c i = false := by simp [jumps, ht]
  have hk : s.kill c i = true := by simp [kill_eq, hby, hbusy]
  have hn : s.core.fetch.newJump (s.core.fetchInput c i) = true := by
    simp [Fetch.newJump, jumpO_eq, ht, hp.jumpR, hjt]
  have hdest : (s.core.fetchInput c i).jumpDest = s.core.backend.execute.jumpDestR := by
    simp [jumpDest_eq, ht]
  have hvalid := decode_kill hk
  have hacc : (s.step c i).accepted = s.settled := by
    simp [step, accepts, hk, kept, ht, settled]
  have hset : (s.step c i).settled = s.settled := by simp [settled, hvalid, hacc]
  refine phase_of_newJump hn hrun hbuf ?_ hp.owed hvalid (hacc ▸ h.path)
    (by rw [hacc, hp.dest, hdest]) (by rw [step_jumpDestR, ht, hdest]; rfl)
    (by rw [hset, hp.count]) (by rw [step_jumpR, ht]; exact hp.jumpR)
    (by rw [step_jumpBusy, hj, Bool.false_and]) (hp.calm.step_idle ht)
  intro hr hs
  have hv : s.core.backend.decode.valid = true := by
    simp only [stall, Backend.busyO, Decode.busy, Bool.and_eq_true] at hs
    exact hs.1
  by_contra hf
  have hfree := hempty hbusy hv (by simpa using hf)
  have hredirect : s.redirected c i = true := by
    simp only [redirected, Fetch.redirects, hrun, hn, Bool.true_and, Bool.and_true,
      Bool.or_eq_true, Bool.not_eq_true']
    exact hfree
  rw [hredirect] at hr
  cases hr

omit hbus hlate hdec hprompt in
theorem phase_waiting (hp : s.Pending c) (hv : s.core.backend.decode.valid = false)
    (hbusy : s.core.backend.execute.jumpBusy = false) (hw : s.core.fetch.Waits) :
    (s.step c i).Phase c mem := by
  have ht : s.takes c i = false := by simp [takes_eq, hv]
  have hs : s.stall c i = false := by simp [stall, Backend.busyO, Decode.busy, hv]
  have hj : s.jumps c i = false := by simp [jumps, ht]
  have hk : s.kill c i = false := by simp [kill_eq, hj, hbusy]
  have hn : s.core.fetch.newJump (s.core.fetchInput c i) = true := by
    simp [Fetch.newJump, jumpO_eq, ht, hp.jumpR, hw.jumpTaken]
  have hdest : (s.core.fetchInput c i).jumpDest = s.core.backend.execute.jumpDestR := by
    simp [jumpDest_eq, ht]
  have hvalid := decode_empty hk hs hw.valid
  have hset0 : s.settled = s.accepted := by simp [settled, hv]
  have hacc : (s.step c i).accepted = s.settled := by
    rw [step_free hk hs, kept_of_not_jumps h hj hk, hw.valid, hset0]
    rfl
  have hset : (s.step c i).settled = s.settled := by simp [settled, hvalid, hacc]
  refine phase_of_newJump hn hw.run (fun hb => ?_) (fun _ _ => hw.valid) hp.owed hvalid
    (hacc ▸ h.path) (by rw [hacc, hp.dest, hdest]) (by rw [step_jumpDestR, ht, hdest]; rfl)
    (by rw [hset, hp.count]) (by rw [step_jumpR, ht]; exact hp.jumpR)
    (by rw [step_jumpBusy, hj, Bool.false_and]) (hp.calm.step_idle ht)
  rw [hw.busy] at hb
  cases hb

omit hprompt in
theorem phase_redirected (hv : s.core.backend.decode.valid = false)
    (hpath : Visit.Path c.resetAddress mem s.accepted)
    (hstr : s.core.fetch.Streams mem s.owed (Visit.nextPc c.resetAddress s.accepted))
    (hcount : Visit.jumps s.settled = s.redirects) (hjt : s.core.fetch.jumpTaken = true)
    (hrun : s.core.fetch.run = true) (hjumpR : s.core.backend.execute.jumpR = true)
    (hbusy : s.core.backend.execute.jumpBusy = false)
    (hcalm : s.core.backend.execute.Calm c) : (s.step c i).Phase c mem := by
  have ht : s.takes c i = false := by simp [takes_eq, hv]
  have hs : s.stall c i = false := by simp [stall, Backend.busyO, Decode.busy, hv]
  have hj : s.jumps c i = false := by simp [jumps, ht]
  have hk : s.kill c i = false := by simp [kill_eq, hj, hbusy]
  have hn : s.core.fetch.newJump (s.core.fetchInput c i) = false := by
    simp [Fetch.newJump, hjt]
  have hkept := kept_of_not_jumps h hj hk
  have hjt' : (s.step c i).core.fetch.jumpTaken = !s.core.fetch.valid := by
    have hstep : (s.step c i).core.fetch.jumpTaken = _ :=
      Fetch.step_jumpTaken (not_redirected hn)
    have hstall : (s.core.fetchInput c i).stall = false := hs
    rw [hstep, hjt, hrun, hstall, Bool.false_and, Bool.or_false, Bool.true_and, Bool.true_and]
  have hjumpR' : (s.step c i).core.backend.execute.jumpR = true := by
    rw [step_jumpR, ht]
    exact hjumpR
  have hcalm' : (s.step c i).core.backend.execute.Calm c := hcalm.step_idle ht
  have hwb : c.shifterMode ≠ .behavioral → c.pipelineLength = .four →
      (s.step c i).core.backend.wb.valid = false := by
    intro hm hp
    have hnone := Execute.Calm.validO_idle hm hcalm ht
    show (if c.pipelineLength = .four then _ else s.core.backend.wb : Writeback).valid = false
    rw [if_pos hp]
    exact hnone
  have hcount' : Visit.jumps (s.kept c i) = s.redirects := by
    rw [hkept, jumps_accepted h, hcount]
  cases hf : s.core.fetch.valid with
  | true =>
    -- the word at the target arrives
    have hr := hdec hf fun _ => ⟨hjumpR, hv⟩
    have hvalid : (s.step c i).core.backend.decode.valid = true := by
      rw [(decode_accept hk hs hf).1, hr]
      rfl
    exact sequential_free hj hk hs hn hbus hlate (hkept ▸ hpath) (hkept ▸ hstr) hcount'
      (by rw [hjt', hf]; rfl) fun _ => ⟨hvalid, hcalm', hwb⟩
  | false =>
    refine .redirected (decode_empty hk hs hf) (path_free hk hs (hkept ▸ hpath) (hkept ▸ hstr)).1
      (streams_free hk hs (hkept ▸ hstr) hbus hlate hn) ?_ (by rw [hjt', hf]; rfl) step_run hjumpR'
      (by rw [step_jumpBusy, hj, Bool.false_and]) hcalm' fun _ => hwb
    rw [jumps_free hk hs, hcount', redirects_eq (not_redirected hn)]

end Preservation

section Records
variable {mem : Word → Word}

theorem accounts_same (h : s.Inv c mem) (ht : s.takes c i = false)
    (hset : (s.step c i).settled = s.settled)
    (hhead : (s.step c i).core.backend.decode.valid = true →
      ∃ v, (s.step c i).accepted = v :: (s.step c i).settled ∧
        Holds (s.step c i).core.backend.decode.op v) : (s.step c i).Accounts c mem where
  wellFormed := Watched.decode_wellFormed h.wellFormed _ _ _ _
  head := hhead
  path := hset ▸ h.path
  taken := by
    rw [hset, ← h.taken]
    simp [step, ht]

theorem accounts_free (h : s.Inv c mem) (hj : s.jumps c i = false) (hk : s.kill c i = false)
    (hs : s.stall c i = false) (hpath : Visit.Path c.resetAddress mem s.accepted)
    (hstr : s.core.fetch.Streams mem s.owed (Visit.nextPc c.resetAddress s.accepted)) :
    (s.step c i).Accounts c mem where
  wellFormed := Watched.decode_wellFormed h.wellFormed _ _ _ _
  head := head_free hk hs
  path := by
    rw [← kept_of_not_jumps h hj hk] at hpath hstr
    exact (path_free hk hs hpath hstr).2
  taken := by rw [filter_free hk hs, taken_of_not_jumps h hj hk hs]

theorem accounts_jump (h : s.Inv c mem) (hj : s.jumps c i = true)
    (hpath : Visit.Path c.resetAddress mem s.accepted)
    (hset : (s.step c i).settled = s.kept c i)
    (hhead : (s.step c i).core.backend.decode.valid = true →
      ∃ v, (s.step c i).accepted = v :: (s.step c i).settled ∧
        Holds (s.step c i).core.backend.decode.op v) : (s.step c i).Accounts c mem where
  wellFormed := Watched.decode_wellFormed h.wellFormed _ _ _ _
  head := hhead
  path := hset ▸ (kept_jump h hpath hj).1
  taken := hset ▸ (kept_jump h hpath hj).2.2.2

theorem inv_init (c : CoreConfig) (mem : Word → Word) : (machine c).init.Inv c mem where
  wellFormed := by
    show ({} : DecodedOp).WellFormed
    constructor <;> simp [DecodedOp.usesRs1, DecodedOp.usesRs2]
  head := fun h => absurd h Bool.false_ne_true
  path := trivial
  taken := rfl
  phase := .sequential trivial (Fetch.streams_reset c) rfl rfl rfl (fun _ => rfl)
    fun h => absurd h Bool.false_ne_true

theorem inv_step (h : s.Inv c mem) (hbus : OneRequest mem s.owed (s.core.ibusRequest c i) i.ibus)
    (hlate : AnswersLater s.owed i.ibus) (hdec : s.Decodes c) (hprompt : s.Prompt c)
    (hempty : s.Emptied i) : (s.step c i).Inv c mem := by
  cases h.phase with
  | sequential hpath hstr hcount hjt hbusy hrun harr =>
    refine ⟨?_, phase_sequential h hbus hlate hdec hprompt hpath hstr hcount hjt hbusy hrun harr⟩
    cases hj : s.jumps c i with
    | true =>
      have hs := stall_of_takes (jumps_takes hj)
      cases hby : c.jumpBypass with
      | true =>
        have hk : s.kill c i = true := by rw [kill_eq, hby, if_pos rfl, hj]
        have hvalid := decode_kill hk
        have hacc : (s.step c i).accepted = s.kept c i := by simp [step, accepts, hk]
        refine accounts_jump h hj hpath ?_ fun hv => ?_
        · simp [settled, hvalid, hacc]
        · rw [hvalid] at hv
          cases hv
      | false =>
        have hk : s.kill c i = false := by simp [kill_eq, hby, hbusy]
        refine accounts_jump h hj hpath ?_ (head_free hk hs)
        rw [settled_free hk hs]
        cases hf : s.core.fetch.valid with
        | false => rfl
        | true => simp [hdec hf (by simp [hby])]
    | false =>
      have hk : s.kill c i = false := by rw [kill_eq, hj, hbusy]; simp
      cases hs : s.stall c i with
      | true =>
        have ht : s.takes c i = false := by simp [takes_eq, hs]
        obtain ⟨hacc, -⟩ := step_stalled hs
        have hdecode := decode_hold hk hs
        have hset : (s.step c i).settled = s.settled := by
          rw [settled, settled, hacc, kept_of_not_jumps h hj hk, hdecode]
        refine accounts_same h ht hset fun hv => ?_
        rw [hacc, hset, hdecode, kept_of_not_jumps h hj hk]
        rw [hdecode] at hv
        exact h.head hv
      | false => exact accounts_free h hj hk hs hpath hstr
  | doomed hby hp hjt hbusy hrun hbuf =>
    refine ⟨?_, phase_doomed h hempty hp hby hjt hbusy hrun hbuf⟩
    have ht : s.takes c i = false := by
      show s.core.backend.execute.taken c _ = false
      simp [Execute.taken, Execute.busy, hbusy]
    have hk : s.kill c i = true := by simp [kill_eq, hby, hbusy]
    have hvalid := decode_kill hk
    have hacc : (s.step c i).accepted = s.settled := by
      simp [step, accepts, hk, kept, ht, settled]
    refine accounts_same h ht ?_ fun hv => ?_
    · simp [settled, hvalid, hacc]
    · rw [hvalid] at hv
      cases hv
  | waiting hp hv hbusy hw =>
    refine ⟨?_, phase_waiting h hp hv hbusy hw⟩
    have ht : s.takes c i = false := by simp [takes_eq, hv]
    have hs : s.stall c i = false := by simp [stall, Backend.busyO, Decode.busy, hv]
    have hj : s.jumps c i = false := by simp [jumps, ht]
    have hk : s.kill c i = false := by simp [kill_eq, hj, hbusy]
    have hvalid := decode_empty hk hs hw.valid
    refine accounts_same h ht ?_ fun hv' => ?_
    · rw [settled_free hk hs, kept_of_not_jumps h hj hk, hw.valid]
      simp [settled, hv]
    · rw [hvalid] at hv'
      cases hv'
  | redirected hv hpath hstr hcount hjt hrun hjumpR hbusy hcalm _ =>
    refine ⟨?_, phase_redirected h hbus hlate hdec hv hpath hstr hcount hjt hrun hjumpR hbusy
      hcalm⟩
    have ht : s.takes c i = false := by simp [takes_eq, hv]
    have hs : s.stall c i = false := by simp [stall, Backend.busyO, Decode.busy, hv]
    have hj : s.jumps c i = false := by simp [jumps, ht]
    have hk : s.kill c i = false := by simp [kill_eq, hj, hbusy]
    exact accounts_free h hj hk hs hpath hstr

end Records

section Runs
variable (c) (s) (mem : Word → Word) (i)

/-- The instruction bus, over a memory. -/
def BusOk : Prop := OneRequest mem s.owed (s.core.ibusRequest c i) i.ibus

/-- A jump that finds a request outstanding finds one that the bus has accepted. -/
def Owes : Prop :=
  s.core.fetch.newJump (s.core.fetchInput c i) = true → s.core.fetch.outstanding = true →
    s.owed.isSome = true

/-- What a run has to avoid for the jumps to be followed. -/
structure Steady : Prop where
  later : AnswersLater s.owed i.ibus
  decodes : s.Decodes c
  prompt : s.Prompt c
  owes : s.Owes c i

/-- The words accepted are the path, and Decode holds the newest one unless it is rejected. -/
structure InOrder : Prop where
  path : Visit.Path c.resetAddress mem s.accepted
  decoded : s.core.backend.decode.valid = true → ∃ v ∈ s.accepted.head?,
    s.core.backend.decode.op.debugWord = v.word ∧ s.core.backend.decode.op.debugCurrentIp = v.pc ∧
      v.rejected = false
  taken : s.taken = s.settled.filter (!·.rejected)

/-- Fetch follows every jump once: only when it is pending, before another word is accepted,
and as soon as the bus owes nothing. -/
structure FollowsOnce : Prop where
  pending : s.redirected c i = true → Visit.jumps (s.kept c i) = s.redirects + 1
  accepts : s.accepts c i = true → Visit.jumps (s.kept c i) = s.redirects
  promptly : Visit.jumps (s.kept c i) ≠ s.redirects →
    s.redirected c i = true ∨ s.owed.isSome = true ∧ i.ibus.ack = false

instance : Decidable (s.BusOk c i mem) :=
  inferInstanceAs (Decidable (OneRequest mem s.owed (s.core.ibusRequest c i) i.ibus))

instance : Decidable (s.Steady c i) :=
  decidable_of_iff ((i.ibus.ack = true → s.owed.isSome = true) ∧
    (s.core.fetch.valid = true →
      (c.jumpBypass = true →
        s.core.backend.execute.jumpR = true ∧ s.core.backend.decode.valid = false) →
      s.offer.rejected = false) ∧
    (c.shifterMode = .behavioral → s.core.backend.execute.jumpR = true →
      s.core.backend.hazard c = false) ∧
    (s.core.fetch.newJump (s.core.fetchInput c i) = true → s.core.fetch.outstanding = true →
      s.owed.isSome = true))
    ⟨fun h => ⟨h.1, h.2.1, h.2.2.1, h.2.2.2⟩, fun h => ⟨h.later, h.decodes, h.prompt, h.owes⟩⟩

variable {c} {s} {i} {mem}

/-- With the bypass the cycle after a jump is like any other. -/
theorem Inv.inOrder (h : s.Inv c mem) (hby : c.jumpBypass = true) : s.InOrder c mem where
  path := by
    cases h.phase with
    | sequential hpath => exact hpath
    | doomed hby' => simp [hby] at hby'
    | waiting _ hv =>
      have hset : s.settled = s.accepted := by simp [settled, hv]
      exact hset ▸ h.path
    | redirected _ hpath => exact hpath
  decoded := by
    intro hv
    obtain ⟨v, hacc, hholds⟩ := h.head hv
    exact ⟨v, by simp [hacc], hholds.word, hholds.pc, hholds.accepted⟩
  taken := h.taken

theorem followsOnce_of_newJump (howes : s.Owes c i)
    (hn : s.core.fetch.newJump (s.core.fetchInput c i) = true) (hrun : s.core.fetch.run = true)
    (hcount : Visit.jumps (s.kept c i) = s.redirects + 1) (hacc : s.accepts c i = false) :
    s.FollowsOnce c i where
  pending := fun _ => hcount
  accepts := by simp [hacc]
  promptly := by
    intro _
    cases hr : s.redirected c i with
    | true => exact .inl rfl
    | false =>
      simp only [redirected, Fetch.redirects, hrun, hn, Bool.true_and, Bool.and_true,
        Bool.or_eq_false_iff, Bool.not_eq_false'] at hr
      exact .inr ⟨howes hn hr.1, hr.2⟩

theorem followsOnce_of_not_newJump
    (hn : s.core.fetch.newJump (s.core.fetchInput c i) = false)
    (hcount : Visit.jumps (s.kept c i) = s.redirects) : s.FollowsOnce c i where
  pending := by simp [not_redirected hn]
  accepts := fun _ => hcount
  promptly := fun hne => absurd hcount hne

theorem Inv.followsOnce (h : s.Inv c mem) (hby : c.jumpBypass = true) (hprompt : s.Prompt c)
    (howes : s.Owes c i) : s.FollowsOnce c i := by
  cases h.phase with
  | sequential hpath hstr hcount hjt hbusy hrun harr =>
    cases hj : s.jumps c i with
    | true =>
      have ht := jumps_takes hj
      have hk : s.kill c i = true := by rw [kill_eq, hby, if_pos rfl, hj]
      have hn : s.core.fetch.newJump (s.core.fetchInput c i) = true := by
        simp [Fetch.newJump, jumpO_eq, ht, hby, hj, hjt]
      have hrun' : s.core.fetch.run = true := by
        by_contra hr
        rw [takes_eq, hrun (by simpa using hr)] at ht
        cases ht
      refine followsOnce_of_newJump howes hn hrun' ?_ (by simp [accepts, hk])
      rw [(kept_jump h hpath hj).2.2.1, hcount]
    | false =>
      have hk : s.kill c i = false := by rw [kill_eq, hj, hbusy]; simp
      refine followsOnce_of_not_newJump (newJump_sequential hprompt hj hbusy harr) ?_
      rw [kept_of_not_jumps h hj hk, jumps_accepted h, hcount]
  | doomed hby' => simp [hby] at hby'
  | waiting hp hv hbusy hw =>
    have ht : s.takes c i = false := by simp [takes_eq, hv]
    have hj : s.jumps c i = false := by simp [jumps, ht]
    have hk : s.kill c i = false := by simp [kill_eq, hj, hbusy]
    have hn : s.core.fetch.newJump (s.core.fetchInput c i) = true := by
      simp [Fetch.newJump, jumpO_eq, ht, hp.jumpR, hw.jumpTaken]
    refine followsOnce_of_newJump howes hn hw.run ?_ (by simp [accepts, hw.valid])
    rw [kept_of_not_jumps h hj hk, jumps_accepted h, hp.count]
  | redirected hv hpath hstr hcount hjt hrun hjumpR hbusy hcalm _ =>
    have hj : s.jumps c i = false := by simp [jumps, takes_eq, hv]
    have hk : s.kill c i = false := by simp [kill_eq, hj, hbusy]
    refine followsOnce_of_not_newJump (by simp [Fetch.newJump, hjt]) ?_
    rw [kept_of_not_jumps h hj hk, jumps_accepted h, hcount]

/-- With the bypass no word is killed in Decode. -/
theorem Inv.emptied (h : s.Inv c mem) (hby : c.jumpBypass = true) : s.Emptied i := by
  intro hbusy
  cases h.phase with
  | sequential _ _ _ _ hbusy' => simp [hbusy] at hbusy'
  | doomed hby' => simp [hby] at hby'
  | waiting _ _ hbusy' => simp [hbusy] at hbusy'
  | redirected _ _ _ _ _ _ _ hbusy' => simp [hbusy] at hbusy'

theorem rejected_words_harmless (c : CoreConfig) (hby : c.jumpBypass = true) (mem : Word → Word)
    (is : List CoreInput) (hbus : (machine c).Along (BusOk c · · mem) (machine c).init is)
    (hsteady : (machine c).Along (Steady c) (machine c).init is) :
    ((machine c).run is).InOrder c mem ∧
      (machine c).Along (FollowsOnce c) (machine c).init is := by
  have hok := hbus.and hsteady
  have hstep (s : Followed) (i : CoreInput) (h : s.Inv c mem)
      (hok : s.BusOk c i mem ∧ s.Steady c i) : (s.step c i).Inv c mem :=
    inv_step h hok.1 hok.2.later hok.2.decodes hok.2.prompt (h.emptied hby)
  constructor
  · exact (Clocked.Along.invariant (Inv c mem) hstep (inv_init c mem) hok).inOrder hby
  · exact hok.mono (Inv c mem) hstep (fun s i h hok => h.followsOnce hby hok.2.prompt hok.2.owes)
      (inv_init c mem)

/-- `jal x0, 8` at address 0, `word` at its target, and `nop`. -/
def jumpTo (word : Word) (a : Word) : Word :=
  if a = 0 then 0x0080006f else if a = 8 then word else 0x13

/-- An answer in the cycle after every request, up to the one for the target and the next. -/
def jumpRun (word : Word) : List CoreInput :=
  let answer (w : Word) : CoreInput := { ibus := { ack := true, dbRd := w } }
  [{}, {}, answer 0x0080006f, answer 0x13, answer word, {}, answer word, answer 0x13, answer 0x13]

theorem rejected_words_harmless_jump :
    ((machine {}).run (jumpRun 0x13)).InOrder {} (jumpTo 0x13) ∧
      (machine {}).Along (FollowsOnce {}) (machine {}).init (jumpRun 0x13) :=
  rejected_words_harmless {} rfl (jumpTo 0x13) (jumpRun 0x13) (by decide +kernel)
    (by decide +kernel)

/-- An all-zero word at the target: Fetch follows the jump again, and Decode is offered the
same words again. -/
theorem rejected_target_repeats :
    (machine {}).Along (BusOk {} · · (jumpTo 0)) (machine {}).init
        (jumpRun 0 ++ (jumpRun 0).drop 5) ∧
      ¬ ((machine {}).run (jumpRun 0 ++ (jumpRun 0).drop 5)).InOrder {} (jumpTo 0) :=
  ⟨by decide +kernel, fun h => absurd h.path (by decide +kernel)⟩

end Runs

end Followed

end BonfireCore
