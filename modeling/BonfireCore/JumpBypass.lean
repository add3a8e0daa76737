import BonfireCore.FetchRestart
import BonfireCore.ProgramRun

/-! The jump bypass is a matter of time: with it and without it the core runs the same program,
and in either case the program goes on. -/
namespace BonfireCore

namespace Fetch

/-- Until Decode can be offered a word. -/
def delay (f : Fetch) (owed : Option Word) : ℕ :=
  if f.valid then 0
  else if f.busy || owed.isSome then 1
  else if f.run then 2
  else 3

variable {f : Fetch} {i : FetchInput} {imem : Word → Word} {owed : Option Word} {pc : Word}

theorem delay_le : f.delay owed ≤ 3 := by
  unfold delay
  split_ifs <;> omega

/-- A cycle without a jump brings Fetch on, unless the bus makes it wait. -/
theorem Streams.delay_step (h : f.Streams imem owed pc)
    (hbus : OneRequest imem owed (f.request i) i.ibus) (hlate : AnswersLater owed i.ibus)
    (hn : f.newJump i = false) (hs : i.stall = false) (hv : f.valid = false) :
    (f.step i).delay (nextOwed owed (f.request i) i.ibus) +
      (if (f.request i).en && i.ibus.stall || owed.isSome && !i.ibus.ack then 0 else 1) ≤
        f.delay owed := by
  cases hrun : f.run with
  | false =>
    obtain ⟨-, hb, rfl⟩ := h.idle hrun
    have hen : f.en i = false := en_off (.inr (.inr (.inr hrun)))
    have hack : i.ibus.ack = false := by
      cases hack : i.ibus.ack with
      | false => rfl
      | true => exact absurd (hlate hack) Bool.false_ne_true
    simp [step_starting hrun, delay, nextOwed, request, hen, hack, hv, hb, hrun]
  | true =>
    have hrun' := step_run f i
    have hvalid : (f.step i).valid = (f.busy || i.ibus.ack) := by
      rw [step_running hrun hn]
      simp [advance_valid, hs, hn]
    have hbusy : (f.step i).busy = false := by
      rw [step_running hrun hn]
      simp [advance_busy, hs]
    cases hb : f.busy with
    | true =>
      simp only [delay, hvalid, hv, hb, Bool.true_or, Bool.false_eq_true, if_true, if_false]
      split_ifs <;> omega
    | false =>
      have hen : f.en i = true := by simp [en, hb, hrun, hs, hn]
      cases hack : i.ibus.ack with
      | true =>
        have howed := hlate hack
        simp only [delay, hvalid, hv, hack, howed, Bool.or_true, Bool.false_eq_true, if_true,
          if_false]
        split_ifs <;> omega
      | false =>
        cases owed <;> cases hst : i.ibus.stall <;>
          simp [delay, hvalid, hbusy, hv, hb, hack, hst, hen, hrun, hrun', nextOwed, request]

end Fetch

namespace Executed
variable (c : CoreConfig) (s : Executed) (i : CoreInput)

/-- The bus the core needs for its next word keeps it waiting. -/
def waits : Bool :=
  if s.core.backend.decode.valid then
    s.request.en && i.dbus.stall || s.pending.isSome && !i.dbus.answers
  else (s.core.ibusRequest c i).en && i.ibus.stall || s.followed.owed.isSome && !i.ibus.ack

/-- Until Execute can take the word in Decode. -/
def workDelay : ℕ :=
  if s.core.backend.execute.ls.outstanding then if s.pending.isSome then 3 else 4
  else if s.core.backend.execute.alu.busyO ||
      s.core.backend.execute.ls.validReg && !s.core.backend.execute.ls.earlyTerm c then 2
  else if s.core.backend.hazard c then 1
  else 0

/-- The cycles until a word is taken, at most, but for those the buses make it wait. -/
def delay : ℕ :=
  if s.core.backend.execute.jumpBusy then 10
  else if s.core.backend.decode.valid then s.workDelay c
  else if s.core.backend.execute.jumpR && !s.core.fetch.jumpTaken then 9
  else 5 + s.core.fetch.delay s.followed.owed

variable {c s i}

theorem workDelay_le : s.workDelay c ≤ 4 := by
  unfold workDelay
  split_ifs <;> omega

section Delays
variable (hbusy : s.core.backend.execute.jumpBusy = false)
include hbusy

theorem delay_held (hv : s.core.backend.decode.valid = true) : s.delay c = s.workDelay c := by
  rw [delay, if_neg (Bool.eq_false_iff.1 hbusy), if_pos hv]

theorem delay_pending (hv : s.core.backend.decode.valid = false)
    (hjumpR : s.core.backend.execute.jumpR = true) (hjt : s.core.fetch.jumpTaken = false) :
    s.delay c = 9 := by
  simp [delay, hbusy, hv, hjumpR, hjt]

theorem delay_empty (hv : s.core.backend.decode.valid = false)
    (hjump : s.core.backend.execute.jumpR = true → s.core.fetch.jumpTaken = true) :
    s.delay c = 5 + s.core.fetch.delay s.followed.owed := by
  have hjump : (s.core.backend.execute.jumpR && !s.core.fetch.jumpTaken) = false := by
    cases hjr : s.core.backend.execute.jumpR with
    | false => rfl
    | true => simp [hjump hjr]
  simp [delay, hbusy, hv, hjump]

theorem delay_le_nine : s.delay c ≤ 9 := by
  have hwork := s.workDelay_le (c := c)
  have hfetch : s.core.fetch.delay s.followed.owed ≤ 3 := Fetch.delay_le
  rw [delay, if_neg (Bool.eq_false_iff.1 hbusy)]
  split_ifs <;> omega

end Delays

theorem delay_le : s.delay c ≤ 10 := by
  cases hbusy : s.core.backend.execute.jumpBusy with
  | true => rw [delay, if_pos hbusy]
  | false => exact (delay_le_nine hbusy).trans (by decide)

section Work
variable (hlinked : s.Linked)
include hlinked

/-- No access is in progress. -/
theorem workDelay_free {a : Pending} (h : s.traced.backend.execute.InPhase c s.traced.owes a)
    (ha : ∀ l, a ≠ .access l) : s.workDelay c ≤ 2 := by
  have hout : s.core.backend.execute.ls.outstanding = false := by
    rw [← hlinked.backend]
    cases a with
    | none => exact h.2.1.outstanding
    | shift res => exact h.2.2.2.2.1.outstanding
    | access l => exact absurd rfl (ha l)
    | done store value => exact h.2.1.outstanding
  rw [workDelay, if_neg (Bool.eq_false_iff.1 hout)]
  split_ifs <;> omega

theorem workDelay_none (h : s.traced.backend.execute.InPhase c s.traced.owes .none) :
    s.workDelay c = if s.core.backend.hazard c then 1 else 0 := by
  obtain ⟨halu, hls, -⟩ := h
  rw [hlinked.backend] at halu hls
  have hdone : (s.core.backend.execute.ls.validReg &&
      !s.core.backend.execute.ls.earlyTerm c) = false := by
    have hv := hls.validReg
    cases hval : s.core.backend.execute.ls.validReg with
    | false => rfl
    | true => simp [hv hval]
  simp [workDelay, hls.outstanding, halu.busy, hdone]

theorem workDelay_access {l : LsInput}
    (h : s.traced.backend.execute.InPhase c s.traced.owes (.access l)) :
    s.workDelay c = if s.pending.isSome then 3 else 4 := by
  obtain ⟨-, hls, -⟩ := h
  rw [hlinked.backend] at hls
  rw [workDelay, if_pos hls.outstanding]

end Work

section Step
variable {imem : Word → Word} {p : ProgramState} (hc : Execute.Qualified c) (h : s.Inv c imem p)
  (hok : s.Lawful c imem i) (ht : s.taken c i = false)
include hc h hok ht

/-- What Decode holds comes closer to Execute. -/
theorem Inv.work_step (hv : s.core.backend.decode.valid = true)
    (hbusy : s.core.backend.execute.jumpBusy = false) :
    (s.step c i).workDelay c + (if s.waits c i then 0 else 1) ≤ s.workDelay c := by
  obtain ⟨a, hphase, -⟩ := h.phase
  have ht' : s.traced.backend.taken c (s.input i) = false := by
    rw [h.linked.backend]
    exact ht
  have hlinked' : (s.step c i).Linked := h.linked.step
  have hphase' : (s.step c i).traced.backend.execute.InPhase c (s.step c i).traced.owes
      (a.next c i.dbus) :=
    (hphase.step_idle hc (h.contained hc hok hphase) ht').phase
  have hdone (hnext : a.next c i.dbus = .none) : (s.step c i).workDelay c ≤ 1 := by
    rw [hnext] at hphase'
    rw [workDelay_none hlinked' hphase']
    split_ifs <;> omega
  cases a with
  | none =>
    -- the word waits for the register write in the writeback slot
    have hhazard : s.core.backend.hazard c = true := by
      have hexec := hphase.phase.busy_none (i := s.traced.backend.executeInput c (s.input i)) hc
      rw [Backend.taken, Execute.taken, hexec, h.linked.backend] at ht'
      simpa [Backend.executeInput, hv, hbusy] using ht'
    have hempty : (s.step c i).core.backend.hazard c = false := by
      cases hfour : c.pipelineLength with
      | three => simp [Backend.hazard, hfour]
      | four =>
        have hphase := hphase.phase
        rw [h.linked.backend] at hphase
        have hwb : (s.step c i).core.backend.wb.valid = false := by
          show (if c.pipelineLength = .four then _ else _ : Writeback).valid = false
          rw [if_pos hfour]
          exact hphase.validO_idle hc ht
        simp [Backend.hazard, Writeback.matchesSource, hwb]
    rw [workDelay_none h.linked hphase.phase, workDelay_none hlinked' hphase', hhazard, hempty]
    simp only [Bool.false_eq_true, if_false, if_true]
    split_ifs <;> omega
  | shift res =>
    obtain ⟨-, halu, -, -, hls, -⟩ := hphase.phase
    rw [h.linked.backend] at halu hls
    have hnow : s.workDelay c = 2 := by simp [workDelay, hls.outstanding, halu]
    have hnext := hdone rfl
    split_ifs <;> omega
  | done store value =>
    obtain ⟨-, hls, -⟩ := hphase.phase
    rw [h.linked.backend] at hls
    have hnow : s.workDelay c = 2 := by simp [workDelay, hls.outstanding, hls.validReg, hls.early]
    have hnext := hdone rfl
    split_ifs <;> omega
  | access l =>
    rw [workDelay_access h.linked hphase.phase]
    have hen : s.request.en = !s.pending.isSome := by
      rw [← h.linked.owes, request, ← h.linked.backend]
      exact hphase.phase.2.1.busEn
    cases hans : i.dbus.answers with
    | true =>
      have hnext : (s.step c i).workDelay c ≤ 2 := by
        refine workDelay_free hlinked' hphase' fun m => ?_
        rw [Pending.next, hans, if_pos rfl]
        split_ifs <;> simp
      split_ifs <;> omega
    | false =>
      have hstay : (Pending.access l).next c i.dbus = .access l :=
        if_neg (Bool.eq_false_iff.1 hans)
      rw [hstay] at hphase'
      rw [workDelay_access hlinked' hphase']
      have hpending : (s.step c i).pending = s.current i := if_neg (Bool.eq_false_iff.1 hans)
      rw [hpending, waits, if_pos hv, hans, hen, current, hen]
      cases s.pending <;> cases i.dbus.stall <;> simp

omit hc in
/-- Where Decode is empty Fetch comes closer to a word for it. -/
theorem Inv.fetch_step {pc : Word} (hstr : s.core.fetch.Streams imem s.followed.owed pc)
    (hv : s.core.backend.decode.valid = false)
    (hbusy : s.core.backend.execute.jumpBusy = false)
    (hn : s.core.fetch.newJump (s.core.fetchInput c i) = false)
    (hjump : s.core.backend.execute.jumpR = true → s.core.fetch.jumpTaken = true) :
    (s.step c i).delay c + (if s.waits c i then 0 else 1) ≤ s.delay c := by
  have hs : s.followed.stall c i = false := by
    have hv : s.followed.core.backend.decode.valid = false := hv
    simp [Followed.stall, Backend.busyO, Decode.busy, hv]
  have htakes : s.followed.takes c i = false := ht
  have hj : s.followed.jumps c i = false := by simp [Followed.jumps, htakes]
  have hk : s.followed.kill c i = false := by
    have hbusy : s.followed.core.backend.execute.jumpBusy = false := hbusy
    rw [Followed.kill_eq, hj, hbusy, ite_self]
  have hbusy' : (s.step c i).core.backend.execute.jumpBusy = false := by
    show (s.followed.step c i).core.backend.execute.jumpBusy = false
    rw [Followed.step_jumpBusy, hj, Bool.false_and]
  rw [delay_empty hbusy hv hjump]
  cases hf : s.core.fetch.valid with
  | true =>
    have hv' : (s.step c i).core.backend.decode.valid = true := by
      show (s.followed.step c i).core.backend.decode.valid = true
      rw [(Followed.decode_accept hk hs hf).1, h.known.offer hf]
      rfl
    have hwork := (s.step c i).workDelay_le (c := c)
    rw [delay_held hbusy' hv']
    split_ifs <;> omega
  | false =>
    have hv' : (s.step c i).core.backend.decode.valid = false := Followed.decode_empty hk hs hf
    have hjump' (hjr : (s.step c i).core.backend.execute.jumpR = true) :
        (s.step c i).core.fetch.jumpTaken = true := by
      have hjr : (s.followed.step c i).core.backend.execute.jumpR = true := hjr
      rw [Followed.step_jumpR, if_neg (Bool.eq_false_iff.1 htakes)] at hjr
      have hstall : (s.core.fetchInput c i).stall = false := hs
      have hr : s.core.fetch.redirects (s.core.fetchInput c i) = false :=
        Followed.not_redirected hn
      show (s.core.fetch.step (s.core.fetchInput c i)).jumpTaken = true
      rw [Fetch.step_jumpTaken hr, hf, hstall, hjump hjr]
      simp
    have hfetch := hstr.delay_step hok.ibus.bus hok.ibus.later hn hs hf
    rw [delay_empty hbusy' hv' hjump', waits, hv, Nat.add_assoc]
    exact Nat.add_le_add_left hfetch 5

/-- A cycle in which no word is taken brings the next one closer. -/
theorem Inv.delay_step (hregular : s.Regular c i) :
    (s.step c i).delay c + (if s.waits c i then 0 else 1) ≤ s.delay c := by
  have htakes : s.followed.takes c i = false := ht
  have hj : s.followed.jumps c i = false := by simp [Followed.jumps, htakes]
  have hbusy' : (s.step c i).core.backend.execute.jumpBusy = false := by
    show (s.followed.step c i).core.backend.execute.jumpBusy = false
    rw [Followed.step_jumpBusy, hj, Bool.false_and]
  have hnine : (s.step c i).delay c ≤ 9 := delay_le_nine hbusy'
  cases h.followed.phase with
  | sequential hpath hstr _ hjt hbusy _ harr =>
    cases hv : s.followed.core.backend.decode.valid with
    | true =>
      have hk : s.followed.kill c i = false := by rw [Followed.kill_eq, hj, hbusy, ite_self]
      have hs : s.followed.stall c i = true := by
        rw [Followed.takes_eq, hv] at htakes
        simpa using htakes
      have hv' : (s.step c i).core.backend.decode.valid = true :=
        (congrArg Decode.valid (Followed.decode_hold hk hs)).trans hv
      rw [delay_held hbusy hv, delay_held hbusy' hv']
      exact h.work_step hc hok ht hv hbusy
    | false =>
      have hn := Followed.newJump_sequential (fun hm => absurd hm hc.shifter) hj hbusy harr
      exact h.fetch_step hok ht hstr hv hbusy hn fun hjr =>
        absurd (hv.symm.trans (harr hjr).1) Bool.false_ne_true
  | doomed _ _ _ hbusy =>
    have hnow : s.delay c = 10 := if_pos hbusy
    split_ifs <;> omega
  | waiting hp hv hbusy hw =>
    rw [delay_pending hbusy hv hp.jumpR hw.jumpTaken]
    have hn : s.followed.core.fetch.newJump (s.core.fetchInput c i) = true := by
      have hjump : (s.core.fetchInput c i).jump = _ := Followed.jumpO_eq
      simp [Fetch.newJump, hjump, htakes, hp.jumpR, hw.jumpTaken]
    have howed : s.followed.owed.isSome = true := hregular.owes hn hw.outstanding
    cases hack : i.ibus.ack with
    | true =>
      have hk : s.followed.kill c i = false := by rw [Followed.kill_eq, hj, hbusy, ite_self]
      have hs : s.followed.stall c i = false := by
        simp [Followed.stall, Backend.busyO, Decode.busy, hv]
      have hv' : (s.step c i).core.backend.decode.valid = false :=
        Followed.decode_empty hk hs hw.valid
      have hr : s.core.fetch.redirects (s.core.fetchInput c i) = true := by
        have hrun : s.core.fetch.run = true := hw.run
        have hin : (s.core.fetchInput c i).ibus = i.ibus := rfl
        rw [Fetch.redirects, hrun, hin, hack, show s.core.fetch.newJump _ = true from hn]
        simp
      have hjt : (s.step c i).core.fetch.jumpTaken = true := by
        show (s.core.fetch.step (s.core.fetchInput c i)).jumpTaken = true
        rw [Fetch.redirect_step hr]
      have hfetch : (s.step c i).core.fetch.delay (s.step c i).followed.owed ≤ 3 := Fetch.delay_le
      rw [delay_empty hbusy' hv' fun _ => hjt]
      split_ifs <;> omega
    | false =>
      have hwaits : s.waits c i = true := by
        rw [waits, show s.core.backend.decode.valid = false from hv, howed, hack]
        simp
      rw [hwaits, if_pos rfl]
      exact hnine
  | redirected hv _ hstr _ hjt _ _ hbusy =>
    have hn : s.followed.core.fetch.newJump (s.core.fetchInput c i) = false := by
      rw [Fetch.newJump, hjt, Bool.not_true, Bool.and_false]
    exact h.fetch_step hok ht hstr hv hbusy hn fun _ => hjt

end Step

section Runs
variable (c) (s)

/-- Grows with every word, and meanwhile with every cycle in which no bus makes the core wait. -/
def progress : ℕ := 11 * s.words.length + (10 - s.delay c)

/-- Nothing is in progress. -/
def Settled : Prop := ∃ i, Traced.Drained c s.traced i

/-- The core takes the words of the program, writes what it writes with at most two register
writes and one store to come, and is where the program is when nothing is in progress. -/
structure FollowsProgram (imem : Word → Word) (p : ProgramState) : Prop where
  words : s.words = p.log c imem (ProgramState.visited imem) s.words.length
  writes : ∃ late, late.length ≤ 2 ∧
    p.log c imem (fun p => (p.write c imem).toList) s.words.length = late ++ s.traced.writes
  stores : ∃ late, late.length ≤ 1 ∧
    p.log c imem (fun p => (p.store imem).toList) s.words.length = late ++ s.stores
  settled : s.Settled c →
    s.core.backend.regfile.registers = (p.after c imem s.words.length).arch.regs ∧
      s.core.backend.execute.csr.trap = (p.after c imem s.words.length).arch.trap ∧
      s.mem = (p.after c imem s.words.length).mem

variable {c s} {imem : Word → Word} {p : ProgramState}

theorem Inv.progress_step (hc : Execute.Qualified c) (h : s.Inv c imem p)
    (hok : s.Lawful c imem i) (hregular : s.Regular c i) :
    s.progress c + (if !s.waits c i then 1 else 0) ≤ (s.step c i).progress c := by
  have hdelay := s.delay_le (c := c)
  have hdelay' := (s.step c i).delay_le (c := c)
  cases ht : s.taken c i with
  | true =>
    obtain ⟨-, hwords⟩ := h.fetched_eq hc hok hregular ht
    have hcount : (s.step c i).words.length = s.words.length + 1 := by
      rw [hwords]
      simp [ProgramState.visited]
    rw [progress, progress, hcount]
    split_ifs <;> omega
  | false =>
    obtain ⟨-, hwords⟩ := step_words ht
    have hstep := h.delay_step hc hok ht hregular
    rw [progress, progress, hwords]
    cases hw : s.waits c i with
    | true =>
      rw [hw, if_pos rfl] at hstep
      simp only [Bool.not_true, Bool.false_eq_true, if_false]
      omega
    | false =>
      rw [hw, if_neg Bool.false_ne_true] at hstep
      simp only [Bool.not_false, if_true]
      omega

/-- Where no access is in progress. -/
theorem Inv.follows_reached (hc : Execute.Qualified c) (h : s.Inv c imem p) {a : Pending}
    (hphase : Traced.Inv c s.traced a)
    (hreach : s.Reaches c imem p s.words.length s.traced.taken) : s.FollowsProgram c imem p where
  words := h.words
  writes := by
    obtain ⟨late, hlate, hle⟩ := hphase.late
    exact ⟨late, hle, hreach.writes.symm.trans hlate⟩
  stores := ⟨[], Nat.zero_le _, hreach.stores.symm⟩
  settled := by
    rintro ⟨i, hd⟩
    refine ⟨?_, ?_, hreach.mem⟩
    · rw [← h.linked.backend, hphase.drained hc hd, hreach.arch]
    · rw [← h.linked.backend, hphase.trap, hreach.arch]

theorem Inv.follows_access (hc : Execute.Qualified c) (h : s.Inv c imem p) {l : LsInput}
    (hphase : Traced.Inv c s.traced (.access l)) {n : ℕ} {t : Issued} {ts : List Issued}
    (hcount : s.words.length = n + 1) (hissued : s.traced.taken = t :: ts)
    (hreach : s.Reaches c imem p n ts) : s.FollowsProgram c imem p where
  words := h.words
  writes := by
    -- the access writes no register before it is answered
    have haccess := hphase.access l rfl
    rw [hissued] at haccess
    obtain ⟨hnone, -, -, hres⟩ := haccess
    have hold : (Arch.after c ts).write c t.fetched t.mcycle t.answer = none := by
      rw [Arch.write, hres, hnone]
      simp
    have hwrites := hphase.writes
    rw [hissued, Arch.writes, hold, hreach.writes] at hwrites
    refine ⟨((p.after c imem n).write c imem).toList ++ (Traced.slot c s.traced.backend).toList,
      ?_, ?_⟩
    · rw [List.length_append, Option.length_toList, Option.length_toList]
      split_ifs <;> omega
    · rw [hcount, ProgramState.log, List.append_assoc]
      exact congrArg _ (by simpa [Pending.value] using hwrites)
  stores := by
    refine ⟨((p.after c imem n).store imem).toList, ?_, ?_⟩
    · rw [Option.length_toList]
      split_ifs <;> omega
    · rw [hcount, ProgramState.log, hreach.stores]
  settled := by
    rintro ⟨i, hd⟩
    cases hphase.none_of_drained hc hd

theorem Inv.followsProgram (hc : Execute.Qualified c) (h : s.Inv c imem p) :
    s.FollowsProgram c imem p := by
  obtain ⟨a, hphase, hfollows⟩ := h.phase
  cases a with
  | none => exact h.follows_reached hc hphase hfollows.1
  | shift res => exact h.follows_reached hc hphase hfollows.1
  | access l =>
    obtain ⟨n, t, ts, hcount, hissued, -, hreach, -⟩ := hfollows
    exact h.follows_access hc hphase hcount hissued hreach
  | done store value => exact h.follows_reached hc hphase hfollows.1

/-- A lawful regular run follows the program, and a word is taken at least every eleven cycles
in which no bus makes the core wait. -/
theorem follows_run (hc : Execute.Qualified c) (mem : BitVec 30 → Word) {is : List CoreInput}
    (hlaw : (machine c mem).Along (Lawful c imem) (init c mem) is)
    (hregular : (machine c mem).Along (Regular c) (init c mem) is) :
    ((machine c mem).run is).FollowsProgram c imem { pc := c.resetAddress, mem := mem } ∧
      ((machine c mem).labels (fun s i => !s.waits c i) (init c mem) is).count true ≤
        11 * (((machine c mem).run is).words.length + 1) := by
  refine ⟨(inv_run hc mem hlaw hregular).followsProgram hc, ?_⟩
  have hcount : progress c (init c mem) +
      ((machine c mem).labels (fun s i => !s.waits c i) (init c mem) is).count true ≤
        ((machine c mem).run is).progress c :=
    (hlaw.and hregular).count_le (Inv c imem { pc := c.resetAddress, mem := mem })
      (fun _ _ h hok => h.step hc hok.1 hok.2)
      (fun _ _ h hok => h.progress_step hc hok.1 hok.2) (inv_init mem)
  rw [progress, progress] at hcount
  omega

end Runs

section Bypass
variable {imem : Word → Word} {p : ProgramState} {bypass : Bool}

theorem FollowsProgram.of_setBypass (h : s.FollowsProgram (c.setBypass bypass) imem p) :
    s.FollowsProgram c imem p := by
  obtain ⟨hwords, hwrites, hstores, hsettled⟩ := h
  rw [ProgramState.after_setBypass] at hsettled
  rw [ProgramState.log_setBypass] at hwords hwrites hstores
  exact ⟨hwords, hwrites, hstores, hsettled⟩

/-- One of the two lists, the latest first, goes on where the other ends. -/
def Agree {α : Type*} (xs ys : List α) : Prop := xs <:+ ys ∨ ys <:+ xs

instance decidableAgree {α : Type*} [DecidableEq α] (xs ys : List α) : Decidable (Agree xs ys) :=
  inferInstanceAs (Decidable (_ ∨ _))

/-- The two cores do the same. -/
structure Alike (c : CoreConfig) (s t : Executed) : Prop where
  words : Agree s.words t.words
  writes : Agree s.traced.writes t.traced.writes
  stores : Agree s.stores t.stores
  settled : s.words.length = t.words.length → s.Settled c → t.Settled c →
    s.core.backend.regfile.registers = t.core.backend.regfile.registers ∧
      s.core.backend.execute.csr.trap = t.core.backend.execute.csr.trap ∧ s.mem = t.mem

theorem agree_of_suffix {α : Type*} {log : ℕ → List α}
    (hlog : ∀ {m n : ℕ}, m ≤ n → log m <:+ log n) {xs ys : List α} {m n : ℕ}
    (hx : xs <:+ log m) (hy : ys <:+ log n) : Agree xs ys :=
  List.suffix_or_suffix_of_suffix (hx.trans (hlog (Nat.le_max_left m n)))
    (hy.trans (hlog (Nat.le_max_right m n)))

theorem FollowsProgram.alike {t : Executed} (hs : s.FollowsProgram c imem p)
    (ht : t.FollowsProgram c imem p) : Alike c s t where
  words := agree_of_suffix (ProgramState.log_suffix _) ⟨[], hs.words⟩ ⟨[], ht.words⟩
  writes := by
    obtain ⟨lateS, -, hlogS⟩ := hs.writes
    obtain ⟨lateT, -, hlogT⟩ := ht.writes
    exact agree_of_suffix (ProgramState.log_suffix _) ⟨lateS, hlogS.symm⟩ ⟨lateT, hlogT.symm⟩
  stores := by
    obtain ⟨lateS, -, hlogS⟩ := hs.stores
    obtain ⟨lateT, -, hlogT⟩ := ht.stores
    exact agree_of_suffix (ProgramState.log_suffix _) ⟨lateS, hlogS.symm⟩ ⟨lateT, hlogT.symm⟩
  settled := by
    intro hcount hsettled hsettled'
    obtain ⟨hregs, htrap, hmem⟩ := hs.settled hsettled
    obtain ⟨hregs', htrap', hmem'⟩ := ht.settled hsettled'
    rw [hcount] at hregs htrap hmem
    exact ⟨hregs.trans hregs'.symm, htrap.trans htrap'.symm, hmem.trans hmem'.symm⟩

/-- Two runs, one of the core without the bypass and one of the core with it, on buses that may
differ: what each of them does is what the program does, and each goes on. -/
theorem jump_bypass_timing (c : CoreConfig) (hregistered : c.registeredReadStage = true)
    (hshifter : c.shifterMode ≠ .behavioral) (imem : Word → Word) (mem : BitVec 30 → Word)
    (is js : List CoreInput)
    (hlaw : (machine (c.setBypass false) mem).Along (Lawful (c.setBypass false) imem)
      (init (c.setBypass false) mem) is)
    (hregular : (machine (c.setBypass false) mem).Along (Regular (c.setBypass false))
      (init (c.setBypass false) mem) is)
    (hlaw' : (machine (c.setBypass true) mem).Along (Lawful (c.setBypass true) imem)
      (init (c.setBypass true) mem) js)
    (hregular' : (machine (c.setBypass true) mem).Along (Regular (c.setBypass true))
      (init (c.setBypass true) mem) js) :
    let s := (machine (c.setBypass false) mem).run is
    let t := (machine (c.setBypass true) mem).run js
    Alike c s t ∧
      s.FollowsProgram c imem { pc := c.resetAddress, mem := mem } ∧
      t.FollowsProgram c imem { pc := c.resetAddress, mem := mem } ∧
      ((machine (c.setBypass false) mem).labels (fun s i => !s.waits (c.setBypass false) i)
        (init (c.setBypass false) mem) is).count true ≤ 11 * (s.words.length + 1) ∧
      ((machine (c.setBypass true) mem).labels (fun s i => !s.waits (c.setBypass true) i)
        (init (c.setBypass true) mem) js).count true ≤ 11 * (t.words.length + 1) := by
  have hc (bypass : Bool) : Execute.Qualified (c.setBypass bypass) := ⟨hregistered, hshifter⟩
  obtain ⟨hs, hgoes⟩ := follows_run (hc false) mem hlaw hregular
  obtain ⟨ht, hgoes'⟩ := follows_run (hc true) mem hlaw' hregular'
  exact ⟨hs.of_setBypass.alike ht.of_setBypass, hs.of_setBypass, ht.of_setBypass, hgoes, hgoes'⟩

/-- `jal x0, 16` at 0, `addi x1, x0, 1` at 8 and `nop`. -/
def jumpOver (a : Word) : Word :=
  if a = 0 then 0x0100006f else if a = 8 then 0x00100093 else 0x13

/-- The jump is taken in the fifth cycle; then the bus does `next`. -/
def jumpOverRun (next : List CoreInput) : List CoreInput :=
  let answer (w : Word) : CoreInput := { ibus := { ack := true, dbRd := w } }
  [{}, {}, answer 0x0100006f, answer 0x13, answer 0x00100093] ++ next

theorem jump_bypass_timing_jump :
    let answer : CoreInput := { ibus := { ack := true, dbRd := 0x13 } }
    let off := CoreConfig.setBypass {} false
    let on := CoreConfig.setBypass {} true
    let s := (machine off fun _ => 0).run (jumpOverRun [answer, {}, answer, answer])
    let t := (machine on fun _ => 0).run (jumpOverRun [{}, answer, answer])
    Alike {} s t ∧ s.FollowsProgram {} jumpOver { pc := 0, mem := fun _ => 0 } ∧
      t.FollowsProgram {} jumpOver { pc := 0, mem := fun _ => 0 } ∧
      ((machine off fun _ => 0).labels (fun s i => !s.waits off i) (init off fun _ => 0)
        (jumpOverRun [answer, {}, answer, answer])).count true ≤ 11 * (s.words.length + 1) ∧
      ((machine on fun _ => 0).labels (fun s i => !s.waits on i) (init on fun _ => 0)
        (jumpOverRun [{}, answer, answer])).count true ≤ 11 * (t.words.length + 1) :=
  jump_bypass_timing {} rfl (by decide) jumpOver (fun _ => 0) _ _ (by decide +kernel)
    (by decide +kernel) (by decide +kernel) (by decide +kernel)

/-- Without the bypass, the bus does not answer in the cycle after the jump: the word at 8 is
still in Fetch when Decode is free again. -/
theorem jump_bypass_wrong_path :
    let answer : CoreInput := { ibus := { ack := true, dbRd := 0x13 } }
    let off := CoreConfig.setBypass {} false
    let on := CoreConfig.setBypass {} true
    (machine off fun _ => 0).Along (Lawful off jumpOver) (init off fun _ => 0)
        (jumpOverRun [{}, {}, answer]) ∧
      (machine on fun _ => 0).Along (Lawful on jumpOver) (init on fun _ => 0)
        (jumpOverRun [{}, answer, answer, answer]) ∧
      ¬ Agree ((machine off fun _ => 0).run (jumpOverRun [{}, {}, answer])).words
        ((machine on fun _ => 0).run (jumpOverRun [{}, answer, answer, answer])).words := by
  decide +kernel

end Bypass

end Executed
end BonfireCore
