import BonfireCore.DataHazards
import BonfireCore.Program
import BonfireCore.ProgramOrder

/-! The core between its two buses runs the program: the words it takes, the registers it
writes and what it does to the data memory are those of the instruction set. -/
namespace BonfireCore

open Rv32i (writeWord)

/-- The core with both records of what it takes, its data memory, the request the memory works
on, and the writes it has performed, latest first. -/
structure Executed where
  followed : Followed
  traced : Traced := {}
  mem : BitVec 30 → Word
  pending : Option (DbusRequest 32) := none
  stores : List (DbusRequest 32) := []

namespace Executed
variable (c : CoreConfig) (imem : Word → Word) (s : Executed) (i : CoreInput)

def core : Core := s.followed.core

def input : BackendInput := s.core.backendInput i

def taken : Bool := s.core.taken c i

/-- The words taken, the latest first. -/
def words : List (Word × Word) := s.followed.taken.map fun v => (v.pc, v.word)

def request : DbusRequest 32 := s.core.backend.execute.ls.request

/-- The request the data memory works on in this cycle. -/
def current : Option (DbusRequest 32) :=
  if s.request.en && !i.dbus.stall then some s.request else s.pending

def step : Executed where
  followed := s.followed.step c i
  traced := s.traced.step c (s.input i)
  mem :=
    match s.current i with
    | some m => if i.dbus.ack then writeWord s.mem m.adr m.we m.dbWr else s.mem
    | none => s.mem
  pending := if i.dbus.answers then none else s.current i
  stores :=
    if i.dbus.ack then (s.current i).toList.filter (·.we ≠ 0) ++ s.stores else s.stores

def init (c : CoreConfig) (mem : BitVec 30 → Word) : Executed where
  followed := { core := Core.reset c }
  mem := mem

def machine (mem : BitVec 30 → Word) : Clocked Executed CoreInput where
  init := init c mem
  step := step c

/-- A program of legal instructions without faults, an instruction bus with one request at a
time and a data bus that answers what it has accepted, each with what its memory holds. -/
structure Lawful : Prop where
  ibus : s.followed.Serves c imem i
  dbus : Traced.LegalStep c s.traced (s.input i)
  data : i.dbus.ack = true → ∀ m ∈ s.current i, m.we = 0 →
    i.dbus.dbRd = s.mem (m.adr.extractLsb' 2 30)

/-- No instruction reads the cycle counter, without the bypass Fetch can be emptied when a jump
has been taken, and a jump finds no request that the bus has not accepted. -/
structure Regular : Prop where
  emptied : s.followed.Emptied i
  owes : s.followed.Owes c i
  cycle : s.taken c i = true → s.core.backend.decode.op.readsCycle = false

instance : Decidable (s.Lawful c imem i) :=
  decidable_of_iff (_ ∧ _ ∧ (_ → ∀ m ∈ s.current i, m.we = 0 →
      i.dbus.dbRd = s.mem (m.adr.extractLsb' 2 30)))
    ⟨fun h => ⟨h.1, h.2.1, h.2.2⟩, fun h => ⟨h.ibus, h.dbus, h.data⟩⟩

instance : Decidable (s.followed.Emptied i) := inferInstanceAs (Decidable (_ → _ → _ → _))

instance : Decidable (s.followed.Owes c i) := inferInstanceAs (Decidable (_ → _ → _))

instance : Decidable (s.Regular c i) :=
  decidable_of_iff (_ ∧ _ ∧ (_ → _))
    ⟨fun h => ⟨h.1, h.2.1, h.2.2⟩, fun h => ⟨h.emptied, h.owes, h.cycle⟩⟩

variable {c imem s i}

/-- The two records are of the same core and the same bus. -/
structure Linked (s : Executed) : Prop where
  backend : s.traced.backend = s.core.backend
  owes : s.traced.owes = s.pending.isSome
  nextIp : s.core.backend.decode.valid = true →
    s.core.backend.decode.op.nextIp = s.core.backend.decode.op.debugCurrentIp + 4

/-- The request of the access. -/
structure Asks (l : LsInput) (m : DbusRequest 32) : Prop where
  en : m.en = true
  adr : m.adr = l.adr
  we : m.we = if l.store then l.byteEnables else 0
  dbWr : l.store = true → m.dbWr = l.op2Shifted

/-- After these instructions the program is in the state that it has after `n`. -/
structure Reaches (c : CoreConfig) (imem : Word → Word) (p : ProgramState) (s : Executed) (n : ℕ)
    (ts : List Issued) : Prop where
  arch : Arch.after c ts = (p.after c imem n).arch
  mem : s.mem = (p.after c imem n).mem
  stores : s.stores = p.log c imem (fun p => (p.store imem).toList) n
  writes : Arch.writes c ts = p.log c imem (fun p => (p.write c imem).toList) n

/-- Where the program is, while Execute has this in progress. -/
def Follows (c : CoreConfig) (imem : Word → Word) (p : ProgramState) (s : Executed) :
    Pending → Prop
  | .access l => ∃ n t ts, s.words.length = n + 1 ∧ s.traced.taken = t :: ts ∧
      t.fetched = (p.after c imem n).fetched imem ∧ s.Reaches c imem p n ts ∧
      ∀ m ∈ s.pending, Asks l m
  | _ => s.Reaches c imem p s.words.length s.traced.taken ∧ s.pending = none

structure Inv (c : CoreConfig) (imem : Word → Word) (p : ProgramState) (s : Executed) : Prop where
  followed : s.followed.Inv c imem
  known : s.followed.Known
  linked : s.Linked
  clean : s.traced.backend.execute.ls.pipeInvalidOp = false
  words : s.words = p.log c imem (ProgramState.visited imem) s.words.length
  pc : Visit.nextPc c.resetAddress s.followed.taken = (p.after c imem s.words.length).pc
  phase : ∃ a, Traced.Inv c s.traced a ∧ s.Follows c imem p a

theorem inv_init (mem : BitVec 30 → Word) :
    (init c mem).Inv c imem { pc := c.resetAddress, mem := mem } where
  followed := Followed.inv_init c imem
  known := ⟨⟨fun h => absurd h Bool.false_ne_true, fun h => absurd h Bool.false_ne_true⟩,
    fun _ hv => absurd hv List.not_mem_nil⟩
  linked := ⟨rfl, rfl, fun h => absurd h Bool.false_ne_true⟩
  clean := rfl
  words := rfl
  pc := rfl
  phase := ⟨.none, Traced.inv_init c, ⟨rfl, rfl, rfl, rfl⟩, rfl⟩

section Links

theorem decode_nextIp (h : s.core.backend.decode.valid = true →
      s.core.backend.decode.op.nextIp = s.core.backend.decode.op.debugCurrentIp + 4)
    (hv : (s.followed.step c i).core.backend.decode.valid = true) :
    (s.followed.step c i).core.backend.decode.op.nextIp =
      (s.followed.step c i).core.backend.decode.op.debugCurrentIp + 4 := by
  have hstep : (s.followed.step c i).core.backend.decode =
      s.core.backend.decode.step (s.core.backend.executeBusy c (s.core.backendInput i))
        (s.followed.kill c i) s.core.fetch.bundle {} := rfl
  rw [hstep] at hv ⊢
  unfold Decode.step at hv ⊢
  simp only [Bool.false_and, Bool.false_eq_true, if_false] at hv ⊢
  split_ifs at hv ⊢ with hk hb he
  · simp only [Decode.busy, Bool.and_eq_true] at hb
    exact h hb.1
  · obtain ⟨-, hip, hnext, -⟩ := DecodedOp.decodeWord_fetched s.core.backend.decode.op
      s.core.fetch.bundle.word s.core.fetch.bundle.currentIp s.core.fetch.bundle.nextIp
    exact hnext.trans (congrArg (· + 4) hip.symm)

theorem Linked.step (h : s.Linked) : (s.step c i).Linked where
  backend := by
    show s.traced.backend.step c (s.input i) = s.core.backend.step c (s.input i)
    rw [h.backend]
  owes := by
    show nextOwes s.traced.owes s.traced.backend.execute.ls.request i.dbus =
      (if i.dbus.answers then none else s.current i : Option _).isSome
    rw [h.owes, h.backend, nextOwes, current, request]
    cases i.dbus.answers <;> cases s.core.backend.execute.ls.request.en <;>
      cases i.dbus.stall <;> cases s.pending <;> rfl
  nextIp := decode_nextIp h.nextIp

/-- A request the data bus accepts, or has accepted, is what it answers. -/
theorem Linked.answers (h : s.Linked) (hok : s.Lawful c imem i) (ha : i.dbus.answers = true) :
    ∃ m, s.current i = some m ∧ (s.pending = some m ∨ m = s.request ∧ s.request.en = true) := by
  have hbus := hok.dbus.bus.1 ha
  rw [h.owes, h.backend] at hbus
  cases hreq : s.request.en && !i.dbus.stall with
  | true =>
    rw [Bool.and_eq_true] at hreq
    exact ⟨s.request, by simp [current, hreq], .inr ⟨rfl, hreq.1⟩⟩
  | false =>
    have hpending : s.pending.isSome = true := by
      refine hbus.resolve_right fun ⟨hen, hst⟩ => ?_
      have hst : i.dbus.stall = false := hst
      simp [show s.request.en = true from hen, hst] at hreq
    obtain ⟨m, hm⟩ := Option.isSome_iff_exists.1 hpending
    exact ⟨m, by simp [current, hreq, hm], .inl hm⟩

end Links

section Steps
variable {p : ProgramState}

/-- Where no request is on the data bus nothing happens there. -/
theorem quiet_bus (h : s.Linked) (hok : s.Lawful c imem i) (hreq : s.request.en = false)
    (hpending : s.pending = none) :
    i.dbus.answers = false ∧ (s.step c i).mem = s.mem ∧ (s.step c i).pending = none ∧
      (s.step c i).stores = s.stores := by
  have hans : i.dbus.answers = false := by
    by_contra ha
    obtain ⟨m, -, hm | ⟨-, hm⟩⟩ := h.answers hok (by simpa using ha)
    · simp [hpending] at hm
    · exact Bool.false_ne_true (hreq.symm.trans hm)
  have hcurrent : s.current i = none := by simp [current, hreq, hpending]
  have hack : i.dbus.ack = false := by
    simp only [DbusResponse.answers, Bool.or_eq_false_iff] at hans
    exact hans.1
  exact ⟨hans, by simp [step, hcurrent], by simp [step, hcurrent], by simp [step, hack]⟩

theorem Reaches.congr {n : ℕ} {ts : List Issued} (h : s.Reaches c imem p n ts)
    (hmem : (s.step c i).mem = s.mem) (hstores : (s.step c i).stores = s.stores) :
    (s.step c i).Reaches c imem p n ts :=
  ⟨h.arch, hmem.trans h.mem, hstores.trans h.stores, h.writes⟩

/-- One more instruction. -/
theorem Reaches.succ {t : Executed} {n : ℕ} {ts : List Issued} (h : s.Reaches c imem p n ts)
    {u : Issued} (hf : u.fetched = (p.after c imem n).fetched imem)
    (hcycle : (Arch.op u.fetched).readsCycle = false)
    (hanswer : (Arch.op u.fetched).loadCmd = true → u.answer = (p.after c imem n).answer imem)
    (hmem : t.mem = (p.after c imem (n + 1)).mem)
    (hstores : t.stores = ((p.after c imem n).store imem).toList ++ s.stores) :
    t.Reaches c imem p (n + 1) (u :: ts) where
  arch := by
    show (Arch.after c ts).exec c u.fetched u.mcycle u.answer = _
    rw [Arch.exec_congr (k := 0) hcycle hanswer, h.arch, hf]
    rfl
  mem := hmem
  stores := by
    rw [hstores, h.stores]
    rfl
  writes := by
    show ((Arch.after c ts).write c u.fetched u.mcycle u.answer).toList ++ Arch.writes c ts = _
    rw [Arch.write_congr (k := 0) hcycle hanswer, h.writes, h.arch, hf]
    rfl

/-- Where no word is taken. -/
theorem step_words (ht : s.taken c i = false) :
    (s.step c i).followed.taken = s.followed.taken ∧ (s.step c i).words = s.words := by
  have htakes : s.followed.takes c i = false := ht
  have htaken : (s.step c i).followed.taken = s.followed.taken :=
    if_neg (Bool.eq_false_iff.1 htakes)
  exact ⟨htaken, congrArg (List.map fun v : Visit => (v.pc, v.word)) htaken⟩

variable (hc : Execute.Qualified c)
include hc

theorem Inv.followed_step (h : s.Inv c imem p) (hserves : s.followed.Serves c imem i)
    (hempty : s.followed.Emptied i) :
    (s.followed.step c i).Inv c imem ∧ (s.followed.step c i).Known :=
  ⟨Followed.inv_step h.followed hserves.bus hserves.later (fun hf _ => h.known.offer hf)
    (fun hm => absurd hm hc.shifter) hempty, h.known.step hserves⟩

theorem Inv.step_followed (h : s.Inv c imem p) (hok : s.Lawful c imem i)
    (hregular : s.Regular c i) :
    (s.followed.step c i).Inv c imem ∧ (s.followed.step c i).Known :=
  h.followed_step hc hok.ibus hregular.emptied

/-- The word taken is the one the program is at. -/
theorem Inv.taken_eq (h : s.Inv c imem p) (hserves : s.followed.Serves c imem i)
    (hempty : s.followed.Emptied i) (ht : s.taken c i = true) :
    (Traced.issued c s.traced.backend).fetched =
        (p.after c imem s.words.length).fetched imem ∧
      (s.step c i).words =
        ProgramState.visited imem (p.after c imem s.words.length) ++ s.words := by
  obtain ⟨hinv', hknown'⟩ := h.followed_step hc hserves hempty
  have htakes : s.followed.takes c i = true := ht
  have hpath := hknown'.taken hinv'
  rw [show (s.followed.step c i).taken = _ from if_pos htakes] at hpath
  obtain ⟨hpc, hword, -, -⟩ := hpath
  have hpc' : s.core.backend.decode.op.debugCurrentIp = (p.after c imem s.words.length).pc :=
    hpc.trans h.pc
  have hword' : s.core.backend.decode.op.debugWord =
      imem (p.after c imem s.words.length).pc := by
    rw [← hpc']
    exact hword
  have hv : s.core.backend.decode.valid = true := by
    rw [Followed.takes_eq, Bool.and_eq_true] at htakes
    exact htakes.1
  constructor
  · rw [h.linked.backend, Traced.issued, ProgramState.fetched, h.linked.nextIp hv, hpc', hword']
  · have htaken : (s.step c i).followed.taken = _ := if_pos htakes
    rw [Executed.words, htaken, List.map_cons]
    show (s.core.backend.decode.op.debugCurrentIp, s.core.backend.decode.op.debugWord) ::
      s.words = _
    rw [hword', hpc']
    rfl

section Taken
variable (h : s.Inv c imem p) (hok : s.Lawful c imem i) (hregular : s.Regular c i)
  (ht : s.taken c i = true)
include h hok hregular ht

theorem Inv.fetched_eq : (Traced.issued c s.traced.backend).fetched =
      (p.after c imem s.words.length).fetched imem ∧
    (s.step c i).words = ProgramState.visited imem (p.after c imem s.words.length) ++ s.words :=
  h.taken_eq hc hok.ibus hregular.emptied ht

/-- Execute decides the branch as the program does. -/
theorem Inv.nextPc_eq (hphase : Traced.Inv c s.traced .none)
    (hreach : s.Reaches c imem p s.words.length s.traced.taken) :
    Visit.nextPc c.resetAddress (s.step c i).followed.taken =
      (p.after c imem (s.words.length + 1)).pc := by
  obtain ⟨hf, -⟩ := h.fetched_eq hc hok hregular ht
  have htakes : s.followed.takes c i = true := ht
  have ht' : s.traced.backend.taken c (s.input i) = true := by
    rw [h.linked.backend]
    exact ht
  have hdec : Traced.Decoded s.traced.backend := hphase.decode_of_taken ht'
  have hag := hdec.agrees (c := c)
  have hops := Traced.operand_exact hphase rfl ht'
  have hjump : s.followed.jumpOut c i =
      s.traced.backend.decode.op.jump (s.traced.backend.op1 c) (s.traced.backend.op2 c)
        s.traced.backend.execute.csr.trap := by
    have hcore : s.traced.backend = s.followed.core.backend := h.linked.backend
    rw [hcore]
    refine Execute.jumpOut_taken hc.shifter ?_ ?_ ⟨rfl, rfl⟩ ht
    · rw [← hcore]
      exact hphase.phase.1
    · show s.followed.core.backend.decode.op.WellFormed
      rw [← hcore]
      exact hdec.wellFormed
  obtain ⟨hj, hdest, -⟩ := hag.jump_eq hops hdec.wellFormed s.traced.backend.execute.csr.trap
  rw [hphase.trap, hreach.arch, hf] at hj hdest
  rw [hphase.trap, hreach.arch] at hjump
  have hnextIp : (p.after c imem s.words.length).pc + 4 =
      s.core.backend.decode.op.debugCurrentIp + 4 := by
    have hpc := congrArg Fetched.currentIp hf
    rw [h.linked.backend] at hpc
    exact congrArg (· + 4) hpc.symm
  have htaken : (s.step c i).followed.taken = _ := if_pos htakes
  rw [htaken]
  show (s.followed.target c i).getD (s.core.backend.decode.op.debugCurrentIp + 4) =
    (p.after c imem s.words.length).arch.nextPc _
  rw [Arch.nextPc, ← hj]
  simp only [Followed.target, Followed.jumps, htakes, Bool.true_and, hjump]
  split_ifs with hjmp
  · exact hdest hjmp
  · exact hnextIp.symm

end Taken

end Steps

section Memory
variable {p : ProgramState} {n : ℕ} {t : Issued} {ts : List Issued} {l : LsInput}
  {m : DbusRequest 32}

theorem lanes_congr {a b : LsInput} (hf : a.funct3 = b.funct3) (hadr : a.adr = b.adr) :
    a.byteEnables = b.byteEnables ∧ (a.op2 = b.op2 → a.op2Shifted = b.op2Shifted) := by
  refine ⟨?_, fun h2 => ?_⟩
  · unfold LsInput.byteEnables LsInput.wordMode LsInput.hwordMode LsInput.byteMode
    rw [hf, hadr]
  · rw [LsInput.op2Shifted, LsInput.op2Shifted, h2, hadr]

theorem byteEnables_ne_zero (hinv : l.invalidOp = false) : l.byteEnables ≠ 0#4 := by
  simp only [LsInput.invalidOp, Bool.or_eq_false_iff, Bool.not_eq_false'] at hinv
  unfold LsInput.byteEnables
  split_ifs
  all_goals first
    | decide
    | simp_all

/-- The request of the access is the program's write, or no write. -/
theorem Asks.store_eq {q : ProgramState} (h : Asks l m)
    (hsame : Traced.SameAccess (q.op imem) (q.arch.op1 (q.fetched imem))
      (q.arch.op2 (q.fetched imem)) l) :
    q.store imem = if l.store then some m else none := by
  have hadr : l.adr = (q.access imem).adr := hsame.adr
  obtain ⟨hlanes, hshift⟩ := lanes_congr (b := q.access imem) hsame.funct3 hadr
  rw [ProgramState.store, ← hsame.store]
  cases hst : l.store with
  | false => rfl
  | true =>
    have hop2 : l.op2 = (q.access imem).op2 := hsame.op2 (hsame.store.symm.trans hst)
    have hwe : m.we = l.byteEnables := by simp [h.we, hst]
    rw [if_pos rfl, if_pos rfl, ← hadr, ← hlanes, ← hshift hop2, ← h.adr, ← hwe, ← h.dbWr hst,
      ← h.en]

/-- The answer ends the access as the program's memory does. -/
theorem Reaches.answered (h : s.Reaches c imem p n ts)
    (hf : t.fetched = (p.after c imem n).fetched imem)
    (hsame : Traced.SameAccess (Arch.op t.fetched) ((Arch.after c ts).op1 t.fetched)
      ((Arch.after c ts).op2 t.fetched) l) (hinv : l.invalidOp = false)
    (hcurrent : s.current i = some m) (hasks : Asks l m) (hack : i.dbus.ack = true)
    (hdata : m.we = 0 → i.dbus.dbRd = s.mem (m.adr.extractLsb' 2 30)) :
    (s.step c i).Reaches c imem p (n + 1)
      ({ t with answer := some i.dbus.dbRd, error := i.dbus.error } :: ts) := by
  have hw : (Arch.op t.fetched).WellFormed := DecodedOp.decodeWord_wellFormed _ _ _ _
  have hcycle := hw.readsCycle_mem hsame.mem
  have hop : Arch.op t.fetched = (p.after c imem n).op imem := by rw [hf]; rfl
  have hx1 : (Arch.after c ts).op1 t.fetched =
      (p.after c imem n).arch.op1 ((p.after c imem n).fetched imem) := by rw [h.arch, hf]
  have hx2 : (Arch.after c ts).op2 t.fetched =
      (p.after c imem n).arch.op2 ((p.after c imem n).fetched imem) := by rw [h.arch, hf]
  rw [hop, hx1, hx2] at hsame
  have hstore := hasks.store_eq hsame
  have hmem' : (s.step c i).mem = writeWord s.mem m.adr m.we m.dbWr := by
    simp [step, hcurrent, hack]
  have hstores' : (s.step c i).stores = [m].filter (·.we ≠ 0) ++ s.stores := by
    simp only [step, hcurrent, hack, if_true]
    rfl
  refine h.succ hf hcycle (fun hload => ?_) ?_ ?_
  · -- a load reads what the memory holds
    have hst : l.store = false := by
      rw [hsame.store, ← hop]
      exact (hw.load hload).1
    have hwe : m.we = 0 := by simp [hasks.we, hst]
    have hadr : l.adr = ((p.after c imem n).access imem).adr := hsame.adr
    rw [hop] at hload
    rw [ProgramState.answer, if_pos hload, hdata hwe, h.mem, hasks.adr, hadr]
  · rw [hmem', h.mem]
    show _ = ((p.after c imem n).step c imem).mem
    rw [ProgramState.step, hstore]
    cases hst : l.store with
    | true => rfl
    | false =>
      have hwe : m.we = 0 := by simp [hasks.we, hst]
      rw [writeWord, hwe, byteMerge_zero, Function.update_eq_self]
      rfl
  · rw [hstores', hstore]
    cases hst : l.store with
    | true =>
      have hkeep : m.we ≠ 0#4 := by
        rw [hasks.we, hst]
        exact byteEnables_ne_zero hinv
      simp [hkeep]
    | false =>
      have hwe : m.we = 0 := by simp [hasks.we, hst]
      simp [hwe]

end Memory

section Preservation
variable {p : ProgramState} (hc : Execute.Qualified c)
include hc

theorem Inv.contained (h : s.Inv c imem p) (hok : s.Lawful c imem i) {a : Pending}
    (hphase : Traced.Inv c s.traced a) : Traced.Contained c s.traced (s.input i) :=
  hok.dbus.contained hc ⟨⟨a, hphase⟩, h.clean⟩

theorem Inv.taken_none (h : s.Inv c imem p) (ht : s.taken c i = true) {a : Pending}
    (hphase : Traced.Inv c s.traced a) : a = .none := by
  refine hphase.none_of_taken (i := s.input i) hc ?_
  rw [h.linked.backend]
  exact ht

theorem Inv.phase_taken (h : s.Inv c imem p) (hok : s.Lawful c imem i)
    (hregular : s.Regular c i) (ht : s.taken c i = true) (hphase : Traced.Inv c s.traced .none)
    (hreach : s.Reaches c imem p s.words.length s.traced.taken) (hpending : s.pending = none) :
    ∃ a, Traced.Inv c (s.step c i).traced a ∧ (s.step c i).Follows c imem p a := by
  have ht' : s.traced.backend.taken c (s.input i) = true := by
    rw [h.linked.backend]
    exact ht
  obtain ⟨hf, hwords⟩ := h.fetched_eq hc hok hregular ht
  have hcount : (s.step c i).words.length = s.words.length + 1 := by
    rw [hwords]
    simp [ProgramState.visited]
  have htaken : (s.step c i).traced.taken = Traced.issued c s.traced.backend :: s.traced.taken :=
    if_pos ht'
  have hag := (hphase.decode_of_taken ht').agrees (c := c)
  have hreq : s.request.en = false := by
    rw [request, ← h.linked.backend]
    exact hphase.phase.2.1.busEn
  obtain ⟨-, hmem', hpending', hstores'⟩ := quiet_bus h.linked hok hreq hpending
  refine ⟨_, hphase.step_taken hc (h.contained hc hok hphase) ht', ?_⟩
  have hnext (hmem : (s.traced.backend.decode.op.loadCmd ||
      s.traced.backend.decode.op.storeCmd) = false) :
      (s.step c i).Reaches c imem p (s.step c i).words.length (s.step c i).traced.taken := by
    rw [Bool.or_eq_false_iff] at hmem
    rw [hcount, htaken]
    have hstore : (p.after c imem s.words.length).store imem = none := by
      have hcmd : ((p.after c imem s.words.length).op imem).storeCmd = false := by
        rw [ProgramState.op, ← hf, ← hag.classes.2.2.1]
        exact hmem.2
      rw [ProgramState.store, hcmd, if_neg Bool.false_ne_true]
    refine hreach.succ hf ?_ (fun hload => ?_) ?_ ?_
    · rw [← hag.readsCycle_eq, h.linked.backend]
      exact hregular.cycle ht
    · rw [← hag.classes.2.1, hmem.1] at hload
      exact absurd hload Bool.false_ne_true
    · rw [hmem', hreach.mem]
      show _ = ((p.after c imem s.words.length).step c imem).mem
      rw [ProgramState.step, hstore]
    · rw [hstores', hstore]
      rfl
  unfold Execute.nextPending
  cases hmem : (s.traced.backend.executeInput c (s.input i)).op.loadCmd ||
      (s.traced.backend.executeInput c (s.input i)).op.storeCmd with
  | true =>
    refine ⟨s.words.length, _, _, hcount, htaken, hf, hreach.congr hmem' hstores', ?_⟩
    intro m hm
    rw [hpending'] at hm
    cases hm
  | false =>
    rw [if_neg Bool.false_ne_true]
    split_ifs <;> exact ⟨hnext hmem, hpending'⟩

theorem Inv.phase_idle (h : s.Inv c imem p) (hok : s.Lawful c imem i) (ht : s.taken c i = false)
    {a : Pending} (hphase : Traced.Inv c s.traced a) (hfollows : s.Follows c imem p a) :
    ∃ a, Traced.Inv c (s.step c i).traced a ∧ (s.step c i).Follows c imem p a := by
  have ht' : s.traced.backend.taken c (s.input i) = false := by
    rw [h.linked.backend]
    exact ht
  obtain ⟨-, hwords⟩ := step_words ht
  have htaken : (s.step c i).traced.taken =
      if s.traced.backend.execute.ls.confirm i.dbus then Traced.answered i.dbus s.traced.taken
      else s.traced.taken :=
    if_neg (Bool.eq_false_iff.1 ht')
  refine ⟨_, hphase.step_idle hc (h.contained hc hok hphase) ht', ?_⟩
  -- nothing is on the data bus, unless an access is in progress
  have hquiet (hout : s.traced.backend.execute.ls.outstanding = false)
      (hen : s.traced.backend.execute.ls.busEn = false)
      (hreach : s.Reaches c imem p s.words.length s.traced.taken) (hpending : s.pending = none) :
      (s.step c i).Reaches c imem p (s.step c i).words.length (s.step c i).traced.taken ∧
        (s.step c i).pending = none := by
    have hreq : s.request.en = false := by
      rw [request, ← h.linked.backend]
      exact hen
    obtain ⟨-, hmem', hpending', hstores'⟩ := quiet_bus h.linked hok hreq hpending
    rw [hwords, htaken, if_neg (by simp [LoadStore.confirm, hout])]
    exact ⟨hreach.congr hmem' hstores', hpending'⟩
  cases a with
  | none => exact hquiet hphase.phase.2.1.outstanding hphase.phase.2.1.busEn hfollows.1 hfollows.2
  | shift res =>
    have hidle := hphase.phase.2.2.2.2.1
    exact hquiet hidle.outstanding hidle.busEn hfollows.1 hfollows.2
  | done store value =>
    exact hquiet hphase.phase.2.1.outstanding hphase.phase.2.1.busEn hfollows.1 hfollows.2
  | access l =>
    obtain ⟨n, t, ts, hcount, hissued, hf, hreach, hasks⟩ := hfollows
    have hls : s.traced.backend.execute.ls.Access l s.traced.owes := hphase.phase.2.1
    have hrequest : s.request = s.traced.backend.execute.ls.request := by
      rw [request, h.linked.backend]
    have hcurrent (m : DbusRequest 32) (hm : s.current i = some m) : Asks l m := by
      unfold current at hm
      split_ifs at hm with hen
      · obtain rfl := Option.some.inj hm
        rw [Bool.and_eq_true] at hen
        rw [hrequest] at hen ⊢
        exact ⟨hen.1, hls.adr, hls.we, hls.dbWr⟩
      · exact hasks m hm
    have hconfirm : s.traced.backend.execute.ls.confirm i.dbus = i.dbus.answers := by
      simp [LoadStore.confirm, hls.outstanding, DbusResponse.answers]
    rw [hconfirm] at htaken
    cases hans : i.dbus.answers with
    | false =>
      have hack : i.dbus.ack = false := by
        simp only [DbusResponse.answers, Bool.or_eq_false_iff] at hans
        exact hans.1
      have hmem' : (s.step c i).mem = s.mem := by
        show (match s.current i with
          | some m => if i.dbus.ack then writeWord s.mem m.adr m.we m.dbWr else s.mem
          | none => s.mem) = s.mem
        cases s.current i <;> simp [hack]
      have hstores' : (s.step c i).stores = s.stores := by simp [step, hack]
      have hpending' : (s.step c i).pending = s.current i := by simp [step, hans]
      have hstay : (Pending.access l).next c (s.input i).dbus = .access l :=
        if_neg (Bool.eq_false_iff.1 hans)
      rw [hstay]
      refine ⟨n, t, ts, hwords ▸ hcount, ?_, hf, hreach.congr hmem' hstores', fun m hm => ?_⟩
      · rw [htaken, hans, if_neg Bool.false_ne_true, hissued]
      · rw [hpending'] at hm
        exact hcurrent m hm
    | true =>
      have herror : i.dbus.error = false := hok.dbus.noError
      have hack : i.dbus.ack = true := by simpa [DbusResponse.answers, herror] using hans
      obtain ⟨m, hm, -⟩ := h.linked.answers hok hans
      have hinv : l.invalidOp = false := hls.invalidOp.symm.trans h.clean
      have haccess := hphase.access l rfl
      rw [hissued] at haccess
      have hdone := hreach.answered hf haccess.2.2.1 hinv hm (hcurrent m hm) hack
        (hok.data hack m hm)
      have hpending' : (s.step c i).pending = none := by simp [step, hans]
      have hreach' : (s.step c i).Reaches c imem p (s.step c i).words.length
          (s.step c i).traced.taken := by
        rw [hwords, hcount, htaken, hans, if_pos rfl, hissued, Traced.answered, hack, if_pos rfl]
        exact hdone
      have hans' : (s.input i).dbus.answers = true := hans
      rw [Pending.next, hans', if_pos rfl]
      split_ifs <;> exact ⟨hreach', hpending'⟩

theorem Inv.step (h : s.Inv c imem p) (hok : s.Lawful c imem i) (hregular : s.Regular c i) :
    (s.step c i).Inv c imem p := by
  obtain ⟨hfollowed, hknown⟩ := h.step_followed hc hok hregular
  obtain ⟨a, hphase, hfollows⟩ := h.phase
  have hclean := Traced.Clean.step (t := s.traced) hc ⟨⟨a, hphase⟩, h.clean⟩ hok.dbus
  cases ht : s.taken c i with
  | true =>
    obtain rfl := h.taken_none hc ht hphase
    obtain ⟨hreach, hpending⟩ := hfollows
    obtain ⟨-, hwords⟩ := h.fetched_eq hc hok hregular ht
    have hcount : (s.step c i).words.length = s.words.length + 1 := by
      rw [hwords]
      simp [ProgramState.visited]
    refine ⟨hfollowed, hknown, h.linked.step, hclean.2, ?_, ?_,
      h.phase_taken hc hok hregular ht hphase hreach hpending⟩
    · rw [hcount, hwords, ProgramState.log, ← h.words]
    · rw [hcount]
      exact h.nextPc_eq hc hok hregular ht hphase hreach
  | false =>
    obtain ⟨htaken, hwords⟩ := step_words ht
    refine ⟨hfollowed, hknown, h.linked.step, hclean.2, ?_, ?_,
      h.phase_idle hc hok ht hphase hfollows⟩
    · rw [hwords]
      exact h.words
    · rw [hwords, htaken]
      exact h.pc

/-- The run of a legal program that no defect meets is a run of the instruction set. -/
theorem inv_run (mem : BitVec 30 → Word) {is : List CoreInput}
    (hlaw : (machine c mem).Along (Lawful c imem) (init c mem) is)
    (hregular : (machine c mem).Along (Regular c) (init c mem) is) :
    ((machine c mem).run is).Inv c imem { pc := c.resetAddress, mem := mem } :=
  (hlaw.and hregular).invariant (Inv c imem { pc := c.resetAddress, mem := mem })
    (fun _ _ h hok => h.step hc hok.1 hok.2) (inv_init mem)

end Preservation

end Executed
end BonfireCore
