import BonfireCore.PcAlignment
import BonfireCore.Resume

/-! A reset of the hart, as the debugger sees it. Fetch, the backend and the debug CSRs start
over; hart control, the pipeline adapter and the Debug Module go on from where they were. -/
namespace BonfireCore

namespace HartDebug
variable (s : HartDebug) (h : HartControl) (e : DebugPipelineEvents)

/-- Hart control takes the halt: an EBREAK, a request with the pipeline empty, a step done. -/
def halts : Bool :=
  s.state ≠ .halted && (h.dmactive || s.state ≠ .haltPending) &&
    (e.ebreak || s.state = .haltPending && e.pipelineEmpty ||
      s.state = .stepWait && e.instructionComplete)

variable {s h e} {csr : DebugCsr}

theorem step_saves (hw : (s.step h csr e).update.weDpc = true) :
    s.halts h e = true ∧ (s.step h csr e).update.dpc =
      (if e.ebreak then e.ebreakPc else e.nextPc).extractLsb' 2 30 := by
  unfold step at hw ⊢
  unfold halts
  cases hst : s.state <;> cases hd : h.dmactive <;> cases he : e.ebreak <;>
    simp_all [halt] <;> split_ifs at hw ⊢ <;> simp_all

/-- The hart that is redirected has just left the halt. -/
theorem step_redirects (hv : (s.step h csr e).redirectValid = true) :
    (s.step h csr e).state = .running ∨ (s.step h csr e).state = .stepIssue := by
  by_cases hh : s.state = .halted
  · cases hr : h.resumereq with
    | true =>
      rw [step_resume hh hr, resume]
      dsimp only
      split_ifs <;> simp
    | false => simp [step_halted hh hr] at hv
  · simp [(step_active hh).1] at hv

end HartDebug

/-- The system, its bus and what Fetch holds, and the start that is awaited after a reset. -/
structure ResetWatch (c : CoreConfig) where
  watch : ResumeWatch c
  start : Option Awaited := none

namespace ResetWatch
variable {c : CoreConfig} (w : ResetWatch c) (i : ResumeInput c)

def core : DebugCore := w.watch.sys.core

def reset : Bool := w.watch.sys.coreReset i.sys

/-- A CSR instruction writes dpc. -/
def writesDpc : Bool :=
  let csrInput := w.core.backend.execute.csrInput c (w.core.executeInput c (w.watch.coreInput i))
  (w.core.backend.execute.csr.select c (some w.core.csr) csrInput).csrWe &&
    csrInput.reg = CsrAdr.dpc

def step : ResetWatch c where
  watch := w.watch.step i
  start :=
    if w.reset i then some { pc := c.resetAddress }
    else if w.watch.accepts i || w.writesDpc i then none
    else w.start.map fun r => { r with words := i.mem r.pc :: r.words }

def machine (c : CoreConfig) : Clocked (ResetWatch c) (ResumeInput c) where
  init := { watch := (ResumeWatch.machine c).init }
  step := step

def resetDpc (c : CoreConfig) : BitVec 30 := c.resetAddress.extractLsb' 2 30

/-- What a cycle between a reset and the first instruction may bring. A redirect is heard, and
where hart control halts, the tracker is at the reset address; in the cycle of a redirect only an
EBREAK that a command has left in Decode can halt it. -/
structure Restored : Prop where
  bus : w.core.fetch.run = true → ReadsInOrder i.mem w.watch.owed
    (w.watch.fetch.request (w.watch.fetchInput i)) i.sys.ibus
  heard : w.core.fetch.run = true → w.core.hart.redirectValid = true → w.watch.Heard i
  saved : w.core.fetch.run = false → w.core.hart.update.weDpc = true →
    w.core.hart.update.dpc = resetDpc c
  tracked : w.core.hart.redirectValid = false →
    w.core.hart.halts w.watch.sys.control (w.core.events c (w.watch.coreInput i)) = true →
    w.core.adapter.architecturalNextPc.extractLsb' 2 30 = resetDpc c
  left : w.core.hart.redirectValid = true →
    (w.core.events c (w.watch.coreInput i)).ebreak = true →
    w.core.backend.decode.op.mepc.extractLsb' 2 30 = resetDpc c

structure Allowed : Prop where
  command : w.core.hart.redirectValid = true → w.watch.sys.debug.dm.pendingTransfer = false
  restored : w.start.isSome = true → w.reset i = false → w.Restored i

instance : Decidable (w.Restored i) :=
  decidable_of_iff ((_ → _) ∧ (_ → _ → _) ∧ (_ → _ → _) ∧ (_ → _ → _) ∧ (_ → _ → _))
    ⟨fun h => ⟨h.1, h.2.1, h.2.2.1, h.2.2.2.1, h.2.2.2.2⟩,
      fun h => ⟨h.bus, h.heard, h.saved, h.tracked, h.left⟩⟩

instance : Decidable (w.Allowed i) :=
  decidable_of_iff ((_ → _) ∧ (_ → _ → _)) ⟨fun h => ⟨h.1, h.2⟩, fun h => ⟨h.command, h.restored⟩⟩

/-- What the debugger relies on after a reset. -/
structure Clean : Prop where
  first : w.reset i = false → w.watch.accepts i = true → ∀ r, w.start = some r →
    w.core.fetch.currentIp0 = c.resetAddress ∧ w.core.fetch.currentWord0 ∈ r.words
  dpc : w.start.isSome = true → w.core.hart.state = .halted →
    w.core.csr.dpc ++ 0#2 = c.resetAddress

variable {w i}

/-- The watch of the first instruction, whether it is a reset or a resume that starts it. -/
def view (w : ResetWatch c) : ResumeWatch c := { w.watch with resumed := w.start }

/-- The cycle after the reset: nothing has been asked for. -/
structure Starting (w : ResetWatch c) : Prop where
  fetch : w.core.fetch = Fetch.reset c
  owed : w.watch.owed = none
  jump : w.core.backend.execute.jumpR = false
  decode : w.core.backend.decode.valid = false

structure Started (w : ResetWatch c) (r : Awaited) : Prop where
  pc : r.pc = c.resetAddress
  dpc : w.core.csr.dpc = resetDpc c
  starting : w.core.fetch.run = false → w.Starting
  running : w.core.fetch.run = true →
    w.view.Inv ∧ (w.core.hart.update.weDpc = true → w.core.hart.update.dpc = resetDpc c)

structure Inv (w : ResetWatch c) : Prop where
  handshake : w.watch.sys.Handshake
  command : w.core.hart.state ≠ .halted → w.core.hart.redirectValid = false →
    w.watch.sys.debug.dm.pendingTransfer = false
  leaving : w.core.hart.redirectValid = true →
    w.core.hart.state = .running ∨ w.core.hart.state = .stepIssue
  started : ∀ r, w.start = some r → w.Started r

theorem inv_init : (machine c).init.Inv where
  handshake := DebugSystem.handshake_reset
  command _ _ := rfl
  leaving h := absurd h Bool.false_ne_true
  started _ h := absurd h.symm (Option.some_ne_none _)

theorem step_hart : (w.step i).core.hart = w.core.hart.step w.watch.sys.control w.core.csr
    (w.core.events c (w.watch.coreInput i)) :=
  ResumeWatch.step_hart.trans DebugSystem.step_hart

theorem step_reset (hr : w.reset i = true) :
    (w.step i).core = w.core.resetStep c (w.watch.coreInput i) ∧ (w.step i).watch.owed = none ∧
      (w.step i).start = some { pc := c.resetAddress } := by
  have hr' : w.watch.sys.coreReset i.sys = true := hr
  refine ⟨?_, by simp [step, ResumeWatch.step, hr'], by simp [step, hr]⟩
  rw [core, step, ResumeWatch.step_system, DebugSystem.step, hr']
  rfl

theorem started_reset (hr : w.reset i = true) (r : Awaited) (hs : (w.step i).start = some r) :
    (w.step i).Started r := by
  obtain ⟨hcore, howed, hstart⟩ := step_reset hr
  obtain rfl := Option.some.inj (hstart.symm.trans hs)
  refine ⟨rfl, by rw [hcore]; rfl, fun _ => ?_, fun hrun => ?_⟩
  · constructor <;> first | exact howed | (rw [hcore]; rfl)
  · rw [hcore] at hrun
    exact absurd hrun Bool.false_ne_true

section NoReset
variable (hr : w.reset i = false)
include hr

theorem step_core : (w.step i).core = w.core.step c (w.watch.coreInput i) :=
  ResumeWatch.step_sys hr

/-- The start that is still awaited was awaited before. -/
theorem step_start {r : Awaited} (hs : (w.step i).start = some r) :
    w.watch.accepts i = false ∧ w.writesDpc i = false ∧
      ∃ r', w.start = some r' ∧ r = { r' with words := i.mem r'.pc :: r'.words } := by
  rw [step, hr, if_neg Bool.false_ne_true] at hs
  split_ifs at hs with hend
  rw [Bool.or_eq_true, not_or, Bool.not_eq_true, Bool.not_eq_true] at hend
  obtain ⟨r', hs', rfl⟩ := Option.map_eq_some_iff.1 hs
  exact ⟨hend.1, hend.2, r', hs', rfl⟩

/-- dpc stays where no CSR instruction writes it and no other pc was saved. -/
theorem step_dpc (hdpc : w.core.csr.dpc = resetDpc c)
    (hsaved : w.core.hart.update.weDpc = true → w.core.hart.update.dpc = resetDpc c)
    (hw : w.writesDpc i = false) : (w.step i).core.csr.dpc = resetDpc c := by
  rw [step_core hr]
  show (Csr.stepDebug _ _ _ w.core.csr w.core.hart.update).dpc = resetDpc c
  rw [writesDpc, Bool.and_eq_false_iff, decide_eq_false_iff_not] at hw
  unfold Csr.stepDebug
  rcases hw with hwe | hreg
  · rw [hwe, if_neg Bool.false_ne_true, DebugCsr.update]
    dsimp only
    split_ifs with hsave
    · exact hsaved hsave
    · exact hdpc
  · split_ifs with hwe
    · unfold DebugCsr.write
      rw [if_neg hreg]
      split_ifs <;> exact hdpc
    · rw [DebugCsr.update]
      dsimp only
      split_ifs with hsave
      · exact hsaved hsave
      · exact hdpc

end NoReset

/-- Between the reset and the first instruction Decode is empty, and a jump that Execute holds
leads to the reset address. -/
structure Calm (w : ResetWatch c) : Prop where
  decode : w.core.backend.decode.valid = false
  jump : w.core.backend.execute.jumpR = true →
    w.core.backend.execute.jumpDestR = c.resetAddress

theorem Started.calm {r : Awaited} (h : w.Started r) (hs : w.start = some r)
    (hh : w.core.hart.state ≠ .halted) (hv : w.core.hart.redirectValid = false) : w.Calm := by
  cases hrun : w.core.fetch.run with
  | false =>
    have hstart := h.starting hrun
    exact ⟨hstart.decode, fun hj => absurd (hstart.jump.symm.trans hj) Bool.false_ne_true⟩
  | true =>
    cases (h.running hrun).1.settled hh hv with
    | leads fresh awaits =>
      have hquiet := (awaits r hs).2
      exact ⟨hquiet.decode, fun hj => (hquiet.jump hj).1.trans h.pc⟩
    | waits pc target waits decode jump dest =>
      exact ⟨decode, fun _ => dest.trans ((target r hs).symm.trans h.pc)⟩

theorem Calm.nextPc (h : w.Calm)
    (ht : w.core.adapter.architecturalNextPc.extractLsb' 2 30 = resetDpc c) :
    (w.core.events c (w.watch.coreInput i)).nextPc.extractLsb' 2 30 = resetDpc c := by
  obtain ⟨-, -, hjump, hdest⟩ :=
    Backend.jump_of_empty (c := c) (i := w.core.unflushed (w.watch.coreInput i)) h.decode
  simp only [DebugCore.events]
  split_ifs with hb
  · simp only [DebugCore.boundaryJump, DebugCore.executeJump, Bool.and_eq_true] at hb
    rw [DebugCore.executeJumpDest, hdest, h.jump (hjump.symm.trans hb.2)]
    rfl
  · exact ht

theorem Calm.no_ebreak (h : w.Calm) : (w.core.events c (w.watch.coreInput i)).ebreak = false := by
  have htaken : w.core.backend.execute.taken c (w.core.executeInput c (w.watch.coreInput i)) =
      false := (Backend.jump_of_empty h.decode).1
  rw [DebugCore.events, DebugCore.jumpOut, Execute.jumpOut, htaken]
  rfl

/-- A halt before the first instruction saves the reset address. -/
theorem Inv.saves (hinv : w.Inv) (h : w.Restored i) {r : Awaited} (hs : w.start = some r)
    (hw : (w.step i).core.hart.update.weDpc = true) :
    (w.step i).core.hart.update.dpc = resetDpc c := by
  rw [step_hart] at hw ⊢
  obtain ⟨hhalts, hdpc⟩ := HartDebug.step_saves hw
  rw [hdpc]
  have hh : w.core.hart.state ≠ .halted := by
    intro h'
    simp [HartDebug.halts, h'] at hhalts
  cases hv : w.core.hart.redirectValid with
  | true =>
    -- the hart runs again, and neither a request nor a step halts it
    have he : (w.core.events c (w.watch.coreInput i)).ebreak = true := by
      rcases hinv.leaving hv with h' | h' <;> simpa [HartDebug.halts, h'] using hhalts
    rw [he, if_pos rfl]
    exact h.left hv he
  | false =>
    have hcalm := (hinv.started r hs).calm hs hh hv
    have he : (w.core.events c (w.watch.coreInput i)).ebreak = false := hcalm.no_ebreak
    rw [he, if_neg Bool.false_ne_true]
    exact hcalm.nextPc (h.tracked hv hhalts)

theorem step_view : (w.step i).view = { w.view.step i with resumed := (w.step i).start } := by
  cases hr : w.watch.sys.coreReset i.sys <;> simp only [view, step, ResumeWatch.step, hr] <;> rfl

/-- The watch of another start, in a cycle in which none has to be settled. -/
theorem retarget {u : ResumeWatch c} (h : u.Inv) {start : Option Awaited}
    (htarget : u.hart.redirectValid = true → ∀ r, start = some r → r.pc = u.hart.redirectPc)
    (hsettled : u.hart.state ≠ .halted → u.hart.redirectValid = false → start = u.resumed) :
    ResumeWatch.Inv { u with resumed := start } where
  handshake := h.handshake
  ledger := h.ledger
  start := h.start
  command := h.command
  target := htarget
  settled hh hv := hsettled hh hv ▸ h.settled hh hv

/-- The redirect out of a halt leads to the reset address. -/
theorem step_target (halign : WordAligned c.resetAddress) {r r' : Awaited}
    (h : w.Started r) (hr' : r'.pc = r.pc) (hv : (w.step i).core.hart.redirectValid = true) :
    r'.pc = (w.step i).core.hart.redirectPc := by
  have hstep : (w.step i).core.hart = w.core.hart.resume w.core.csr := by
    have hv' : (w.watch.sys.step i.sys).core.hart.redirectValid = true := by
      rw [← ResumeWatch.step_hart]
      exact hv
    obtain ⟨hh, hreq⟩ := DebugSystem.redirect_iff.1 hv'
    exact ResumeWatch.step_hart.trans (DebugSystem.step_resumed hh hreq)
  rw [hstep, hr', h.pc]
  show _ = w.core.csr.dpc ++ 0#2
  rw [h.dpc, resetDpc, halign.append_extract]

section NoReset
variable (hr : w.reset i = false)
include hr

/-- Where no word is accepted and dpc is not written, a running hart is watched alike. -/
theorem step_resumed {r : Awaited} (hs : (w.step i).start = some r)
    (hh : w.core.hart.state ≠ .halted) : (w.step i).start = (w.view.step i).resumed := by
  obtain ⟨hacc, hwrites, -⟩ := step_start hr hs
  rw [ResumeWatch.step_resumed (w := w.view) hr hh, show w.view.accepts i = false from hacc,
    step, hr, hacc, hwrites]
  rfl

theorem Starting.step_fetch (h : w.Starting) :
    (w.step i).core.fetch = { Fetch.reset c with run := true } ∧ (w.step i).watch.owed = none := by
  have hfetch : w.watch.fetch = Fetch.reset c := h.fetch
  constructor
  · rw [step_core hr]
    show w.core.fetch.step _ = _
    rw [h.fetch, Fetch.step_starting rfl]
    simp [Fetch.reset]
  · refine (ResumeWatch.step_owed (w := w.watch) hr).trans ?_
    have hen : (w.watch.fetch.request (w.watch.fetchInput i)).en = false :=
      Fetch.en_off (.inr (.inr (.inr (by rw [hfetch]; rfl))))
    rw [stepOwed_waiting (by rw [hen, Bool.false_and]), h.owed]
    exact ite_self none

theorem Starting.step_backend (h : w.Starting) (hinv : w.Inv) (hok : w.Allowed i)
    (hh : w.core.hart.state ≠ .halted) : (w.step i).core.backend.decode.valid = false ∧
      (w.step i).core.backend.execute.jumpR = false := by
  have hp := hinv.handshake.not_issuing (i := i.sys) hh
  have hcommand : w.watch.sys.debug.dm.pendingTransfer = false := by
    cases hv : w.core.hart.redirectValid with
    | true => exact hok.command hv
    | false => exact hinv.command hh hv
  rw [step_core hr]
  constructor
  · refine DebugCore.step_decode_empty (DebugSystem.transfer_off hcommand) (.inr ⟨h.decode, ?_⟩)
    have hvalid : w.core.fetch.valid = false := by
      rw [h.fetch]
      rfl
    rw [DebugCore.sourceValid, show (w.watch.coreInput i).control.progbufValid = false from hp,
      hvalid]
    rfl
  · have htaken := (Backend.jump_of_empty (c := c)
      (i := w.core.unflushed (w.watch.coreInput i)) h.decode).1
    rw [DebugCore.step_jumpR, Execute.holdsJump]
    exact (if_neg (Bool.eq_false_iff.1 htaken)).trans h.jump

end NoReset

theorem Inv.step_command (hinv : w.Inv) (h : w.Allowed i)
    (hh : (w.step i).core.hart.state ≠ .halted)
    (hv : (w.step i).core.hart.redirectValid = false) :
    (w.step i).watch.sys.debug.dm.pendingTransfer = false := by
  have hrun : w.core.hart.state ≠ .halted := ResumeWatch.was_running hh hv
  have hcommand : w.watch.sys.debug.dm.pendingTransfer = false := by
    cases hv : w.core.hart.redirectValid with
    | true => exact h.command hv
    | false => exact hinv.command hrun hv
  rw [ResetWatch.step, ResumeWatch.step_system]
  exact DebugModule.step_running (decide_eq_false hrun) hcommand

theorem Inv.step_handshake (hinv : w.Inv) : (w.step i).watch.sys.Handshake :=
  ResumeWatch.step_system w.watch i ▸ hinv.handshake.step

/-- The cycle after the reset leads into the watch of the first instruction. -/
theorem Starting.step_view (halign : WordAligned c.resetAddress) (hr : w.reset i = false)
    (h : w.Starting) (hinv : w.Inv) (hok : w.Allowed i) {r : Awaited} (hstarted : w.Started r)
    (hpc : ∀ r', (w.step i).start = some r' → r'.pc = r.pc) : (w.step i).view.Inv := by
  obtain ⟨hfetch, howed⟩ := h.step_fetch hr
  have hfetch' : (w.step i).view.fetch = _ := hfetch
  have howed' : (w.step i).view.owed = none := howed
  refine ⟨hinv.step_handshake, ?_, fun hno => ?_, hinv.step_command hok, fun hv r' hs' => ?_,
    fun hh hv => ?_⟩
  · rw [hfetch', howed']
    exact ⟨fun ho => absurd ho Bool.false_ne_true, fun hb => absurd hb Bool.false_ne_true,
      fun _ => ⟨rfl, rfl, rfl⟩⟩
  · rw [hfetch'] at hno
    exact absurd hno.symm Bool.false_ne_true
  · exact step_target halign hstarted (hpc r' hs') hv
  · have hrun : w.core.hart.state ≠ .halted := ResumeWatch.was_running hh hv
    obtain ⟨hdecode, hjump⟩ := h.step_backend hr hinv hok hrun
    refine ResumeWatch.settled_of_empty (fun r' hs' => (hpc r' hs').trans hstarted.pc)
      howed' ?_ ?_ ?_ hdecode fun hj => absurd (hjump.symm.trans hj) Bool.false_ne_true
    all_goals
      rw [hfetch']
      rfl

theorem step_view_running (halign : WordAligned c.resetAddress) (hr : w.reset i = false)
    (hrun : w.core.fetch.run = true) (hview : w.view.Inv) (hok : w.Allowed i) {r r' : Awaited}
    (hs : w.start = some r) (hstarted : w.Started r) (hs' : (w.step i).start = some r') :
    (w.step i).view.Inv := by
  have hrestored := hok.restored (by rw [hs]; rfl) hr
  have hheard (hv : w.core.hart.redirectValid = true) : w.view.Heard i :=
    ⟨(hrestored.heard hrun hv).target, (hrestored.heard hrun hv).fetch⟩
  have hnext : (w.view.step i).Inv :=
    hview.step ⟨hrestored.bus hrun, hok.command, fun hv _ => hheard hv⟩
  obtain ⟨-, -, r'', hs'', rfl⟩ := step_start hr hs'
  obtain rfl := Option.some.inj (hs''.symm.trans hs)
  have hhart : (w.view.step i).hart = (w.step i).core.hart := by
    rw [ResumeWatch.step_hart, step_hart]
    exact DebugSystem.step_hart
  rw [step_view]
  refine retarget hnext (fun hv r' hr' => ?_) fun hh hv => ?_
  · rw [hs'] at hr'
    obtain rfl := Option.some.inj hr'
    rw [hhart] at hv ⊢
    exact step_target halign hstarted rfl hv
  · exact step_resumed hr hs' (ResumeWatch.was_running (w := w.view) hh hv)

theorem Inv.step (halign : WordAligned c.resetAddress) (hinv : w.Inv) (hok : w.Allowed i) :
    (w.step i).Inv where
  handshake := hinv.step_handshake
  command := hinv.step_command hok
  leaving hv := by
    rw [step_hart] at hv ⊢
    exact HartDebug.step_redirects hv
  started r' hs' := by
    cases hr : w.reset i with
    | true => exact started_reset hr r' hs'
    | false =>
      obtain ⟨-, hwrites, r, hs, hr'⟩ := step_start hr hs'
      have hstarted := hinv.started r hs
      have hrestored := hok.restored (by rw [hs]; rfl) hr
      have hpc : r'.pc = r.pc := by rw [hr']
      have hrun' : (w.step i).core.fetch.run = true := by
        rw [step_core hr]
        exact Fetch.step_run _ _
      refine ⟨hpc.trans hstarted.pc, ?_, fun hno => ?_, fun _ => ⟨?_, hinv.saves hrestored hs⟩⟩
      · refine step_dpc hr hstarted.dpc (fun hsave => ?_) hwrites
        cases hrun : w.core.fetch.run with
        | false => exact hrestored.saved hrun hsave
        | true => exact (hstarted.running hrun).2 hsave
      · exact absurd (hrun'.symm.trans hno) (by decide)
      · cases hrun : w.core.fetch.run with
        | false =>
          refine (hstarted.starting hrun).step_view halign hr hinv hok hstarted fun r'' hs'' => ?_
          obtain rfl := Option.some.inj (hs''.symm.trans hs')
          exact hpc
        | true =>
          exact step_view_running halign hr hrun (hstarted.running hrun).1 hok hs hstarted hs'

theorem Inv.clean (halign : WordAligned c.resetAddress) (hinv : w.Inv) : w.Clean i where
  first _ hacc r hs := by
    have hstarted := hinv.started r hs
    have hrun : w.core.fetch.run = true := by
      by_contra hrun
      have hvalid := (DebugCore.accepted_of_normal hacc).2.1
      have hfetch := (hstarted.starting (by simpa using hrun)).fetch
      rw [show w.watch.sys.core.fetch = _ from hfetch] at hvalid
      exact Bool.false_ne_true hvalid
    have hfirst := ((hstarted.running hrun).1.restarts i).first hacc r hs
    exact ⟨hfirst.1.trans hstarted.pc, hfirst.2⟩
  dpc hs _ := by
    obtain ⟨r, hs⟩ := Option.isSome_iff_exists.1 hs
    rw [(hinv.started r hs).dpc, resetDpc, halign.append_extract]

/-- In every run in which no halt before the first instruction after a reset finds the tracker
elsewhere, the hart starts at the reset address and the debugger reads it in dpc. -/
theorem reset_clean (halign : WordAligned c.resetAddress) (is : List (ResumeInput c))
    (h : (machine c).Along Allowed (machine c).init is) :
    (machine c).Along Clean (machine c).init is :=
  h.mono Inv (fun _ _ => Inv.step halign) (fun _ _ hinv _ => hinv.clean halign) inv_init

section Runs
open ResumeWatch (nopCycle writeDmi)

/-- The debugger makes a request of the running hart together with `ndmreset`. -/
def resetRun (request : Word) : List (ResumeInput defaultConfig) :=
  [nopCycle (writeDmi Dmi.DMCONTROL 1) {}, nopCycle {} {},
    nopCycle (writeDmi Dmi.DMCONTROL request) ResumeWatch.answered,
    nopCycle {} ResumeWatch.answered, nopCycle {} ResumeWatch.answered]

/-- The hart halts before or in the reset, and is resumed after it. -/
theorem reset_clean_halted : (machine defaultConfig).Along Clean (machine defaultConfig).init
    (resetRun 0x80000003 ++ [nopCycle {} {}, nopCycle {} {}, nopCycle (writeDmi Dmi.DMCONTROL 1) {},
      nopCycle {} {}, nopCycle {} {}, nopCycle (writeDmi Dmi.DMCONTROL 0x40000001) {},
      nopCycle {} {}, nopCycle {} {}, nopCycle {} {}, nopCycle {} ResumeWatch.answered,
      nopCycle {} ResumeWatch.answered]) :=
  reset_clean (by decide) _ (by decide +kernel)

/-- With the halt requested at the release of the reset, dpc reads 8, where the hart was before the
reset. -/
theorem reset_stale :
    let is := resetRun 3 ++ [nopCycle {} {}, nopCycle (writeDmi Dmi.DMCONTROL 0x80000001) {},
      nopCycle {} {}, nopCycle {} {}, nopCycle {} {}]
    let w := (machine defaultConfig).run is
    (machine defaultConfig).Along
      (fun w i => w.reset i = false → ReadsInOrder i.mem w.watch.owed
        (w.watch.fetch.request (w.watch.fetchInput i)) i.sys.ibus)
      (machine defaultConfig).init is ∧
    w.start.isSome = true ∧ w.core.hart.state = .halted ∧ w.core.csr.dpc ++ 0#2 = 8 ∧
      ¬ w.Clean (nopCycle {} {}) := by
  intro is w
  have hstart : w.start.isSome = true := by decide +kernel
  have hhalted : w.core.hart.state = .halted := by decide +kernel
  have hdpc : w.core.csr.dpc ++ 0#2 = 8 := by decide +kernel
  refine ⟨by decide +kernel, hstart, hhalted, hdpc, fun h => ?_⟩
  exact absurd (hdpc.symm.trans (h.dpc hstart hhalted)) (by decide)

end Runs

end ResetWatch
end BonfireCore
