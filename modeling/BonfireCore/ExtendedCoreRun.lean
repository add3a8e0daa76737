import BonfireCore.ExtendedCore
import BonfireCore.NestedInterconnect

/-! The extended core runs the program in its block RAM. -/
namespace BonfireCore

open Rv32i (byteLane writeWord)

namespace ExtendedCore
variable {n a : ℕ} (c : CoreConfig) (map : AddressMap n 32) (bram : Fin n) (s : ExtendedCore n a)
  (others : Fin n → DbusResponse 32)

/-- The words of the RAM as a program. -/
def program (image : BitVec a → Word) : Word → Word := fun adr => image (index a adr)

/-- Between two edges: the ports have what the core waits for, the RAM shows the data memory, and
its text is as it was. -/
structure Inv (c : CoreConfig) (bram : Fin n) (base : ℕ) (text : BitVec a → Prop)
    (image : BitVec a → Word) (s : ExtendedCore n a) : Prop where
  executed : s.executed.Inv c (program image) { pc := c.resetAddress, mem := memory image }
  outstanding : s.core.fetch.outstanding = s.portA.ackRd
  owed : s.executed.followed.owed.isSome = s.portA.ackRd
  fetched : ∀ adr, s.executed.followed.owed = some adr →
    text (index a adr) ∧ s.ram.dboutA = image (index a adr)
  busy : s.ic.busy = s.executed.pending.isSome
  target : s.ic.busy = true → s.ic.sEnR = single bram
  ackRd : s.portB.ackRd = s.executed.pending.isSome
  loading : ∀ m, s.executed.pending = some m →
    m.we = 0 ∧ s.ram.dboutB = s.executed.mem (m.adr.extractLsb' 2 30)
  shown : ∀ adr, InWindow a base adr →
    s.executed.mem (adr.extractLsb' 2 30) = s.ram.ram (index a adr)
  text : ∀ w, text w → s.ram.ram w = image w

section Answers
variable {s}

theorem bramRequest_off (hdirect : map.registered bram = false)
    (hen : s.core.dbusRequest.en = false) : (s.bramRequest map bram).en = false := by
  simp [bramRequest, Interconnect.toSlave, hdirect, Interconnect.sEn, hen]

/-- Without a request or a load in progress the data bus is silent. -/
theorem dbus_quiet (hen : s.core.dbusRequest.en = false) (hbusy : s.ic.busy = false) :
    (s.coreInput map bram others).dbus = {} ∧ (s.step c map bram others).ic.busy = false := by
  have hsel : Interconnect.sEn map s.core.dbusRequest = fun _ => false := Interconnect.sEn_idle hen
  have hmux : s.ic.muxSel map s.core.dbusRequest = fun _ => false := by
    funext j
    rw [Interconnect.muxSel, hbusy, if_neg Bool.false_ne_true, hsel]
  refine ⟨?_, Interconnect.step_busy_of_none hbusy hsel _⟩
  refine (Interconnect.toMaster_none hmux).trans ?_
  rw [hen, Interconnect.selectionStall, hbusy]
  rfl

/-- The answer of the block RAM goes to the core. -/
theorem dbus_bram (hdirect : map.registered bram = false)
    (hmux : s.ic.muxSel map s.core.dbusRequest = single bram)
    (hstall : s.ic.selectionStall map s.core.dbusRequest = false) :
    (s.coreInput map bram others).dbus =
      s.portB.response false (s.bramRequest map bram) s.ram.dboutB := by
  have hslave : s.ic.muxSlave map (s.slaves map bram others) bram =
      s.portB.response false (s.bramRequest map bram) s.ram.dboutB := by
    rw [Interconnect.muxSlave, if_neg (by simp [hdirect]), slaves, Function.update_self]
  refine (Interconnect.toMaster_single hmux).trans ?_
  rw [hslave, hstall]
  rfl

/-- The word of a load that is in progress. -/
theorem dbus_loaded (hdirect : map.registered bram = false)
    (hen : s.core.dbusRequest.en = false) (hbusy : s.ic.busy = true)
    (htarget : s.ic.sEnR = single bram) (hack : s.portB.ackRd = true) :
    (s.coreInput map bram others).dbus = { ack := true, dbRd := s.ram.dboutB } ∧
      (s.step c map bram others).ic.busy = false := by
  have hmux : s.ic.muxSel map s.core.dbusRequest = single bram := by
    funext j
    rw [Interconnect.muxSel, hbusy, if_pos rfl, htarget]
  have hdbus : (s.coreInput map bram others).dbus = { ack := true, dbRd := s.ram.dboutB } := by
    rw [dbus_bram map bram others hdirect hmux (by simp [Interconnect.selectionStall, hen]),
      DbusToRamPort.response, hack, Bool.true_or]
  refine ⟨hdbus, ?_⟩
  obtain ⟨hbusy', -⟩ := Interconnect.step_busy_of_busy map s.core.dbusRequest hbusy
    (s.slaves map bram others)
  refine hbusy'.trans ?_
  show (!(s.coreInput map bram others).dbus.ack) = false
  rw [hdbus]
  rfl

/-- A new request to the block RAM: a write is done in this cycle. -/
theorem dbus_asked (hdirect : map.registered bram = false)
    (hsel : (map.adrmask bram).selects s.core.dbusRequest.adr = true)
    (hen : s.core.dbusRequest.en = true) (hbusy : s.ic.busy = false)
    (hack : s.portB.ackRd = false) :
    s.bramRequest map bram = s.core.dbusRequest ∧
      (s.coreInput map bram others).dbus =
        { ack := decide (s.core.dbusRequest.we ≠ 0), dbRd := s.ram.dboutB } ∧
      (s.step c map bram others).ic.busy = decide (s.core.dbusRequest.we = 0) ∧
      (s.step c map bram others).ic.sEnR = single bram := by
  have hsEn : Interconnect.sEn map s.core.dbusRequest bram = true := by
    rw [Interconnect.sEn, hsel, hen]
    rfl
  have hsingle := Interconnect.sEn_eq_single hsEn
  have hstall : s.ic.selectionStall map s.core.dbusRequest = false := by
    simp [Interconnect.selectionStall, hbusy]
  have hmux : s.ic.muxSel map s.core.dbusRequest = single bram := by
    funext j
    rw [Interconnect.muxSel, hbusy, if_neg Bool.false_ne_true, hsingle]
  have hrequest : s.bramRequest map bram = s.core.dbusRequest :=
    Interconnect.toSlave_direct hdirect hsEn hstall
  have hdbus : (s.coreInput map bram others).dbus =
      { ack := decide (s.core.dbusRequest.we ≠ 0), dbRd := s.ram.dboutB } := by
    rw [dbus_bram map bram others hdirect hmux hstall, hrequest, DbusToRamPort.response, hack, hen,
      DbusToRamPort.we, Bool.not_false, Bool.true_and, Bool.and_true, Bool.false_or]
  obtain ⟨hbusy', htarget⟩ := Interconnect.step_busy_of_free hbusy hsingle
    (s.slaves map bram others)
  refine ⟨hrequest, hdbus, hbusy'.trans ?_, htarget⟩
  show (!(s.coreInput map bram others).dbus.ack) = _
  rw [hdbus, decide_not, Bool.not_not]

end Answers

section Cycle
variable {c map bram s} {base : ℕ} {text : BitVec a → Prop} {image : BitVec a → Word}

theorem refines_hart : ProgramState.Refines { pc := c.resetAddress, mem := memory image }
    (hart c image) :=
  ⟨rfl, rfl, show TrapCsr.file {} = {} by decide, rfl⟩

theorem proceeds (ha : a ≤ 30) {k : ℕ} (hs : ∀ j ≤ k, Stays base text ((hart c image).after j)) :
    ProgramState.Proceeds (program image) ((hart c image).after k) :=
  ⟨(Stays.word c ha k hs).symm, (hs k le_rfl).orderly⟩

variable (ha : a ≤ 30) (h : s.Inv c bram base text image)
  (hs : ∀ k ≤ s.executed.words.length, Stays base text ((hart c image).after k))
include ha h hs

/-- The hart keeps its requests in the RAM, and its writes off the text. -/
theorem Inv.request_inWindow (hen : s.core.dbusRequest.en = true) :
    InWindow a base s.core.dbusRequest.adr ∧
      (s.core.dbusRequest.we ≠ 0 → ¬ text (index a s.core.dbusRequest.adr)) := by
  obtain ⟨n, ins, acc, hcount, hi, hacc, hreq⟩ := h.executed.request_hart refines_hart
    (fun k hk => proceeds ha fun j hj => hs j (hj.trans hk.le)) hen
  have hn := hs n (by omega)
  cases acc with
  | load kind adr =>
    obtain ⟨-, hadr, hwe⟩ := hreq
    have hadr : s.core.dbusRequest.adr = adr := hadr
    rw [hadr]
    exact ⟨hn.access ins hi _ hacc, fun hne => absurd hwe hne⟩
  | store kind adr data =>
    obtain ⟨-, hadr, -⟩ := hreq
    have hadr : s.core.dbusRequest.adr = adr := hadr
    obtain ⟨hin, hoff⟩ := hn.access ins hi _ hacc
    rw [hadr]
    exact ⟨hin, fun _ => hoff⟩

/-- Fetch asks for the text only. -/
theorem Inv.fetch_text (hen : (s.ibusRequest c map bram others).en = true) :
    text (index a (s.ibusRequest c map bram others).adr) := by
  obtain ⟨j, hj, hadr⟩ := h.executed.request_near hen
  have hadr : (s.ibusRequest c map bram others).adr = _ := hadr
  have hr := refines_hart.after (c := c) (n := s.executed.words.length) fun _ hk =>
    proceeds ha fun j hj => hs j (hj.trans hk.le)
  rw [hadr, hr.pc]
  exact (hs _ le_rfl).fetched j hj

omit ha hs in
variable (map) in
theorem Inv.ibus_eq : (s.coreInput map bram others).ibus =
    { ack := s.executed.followed.owed.isSome, dbRd := s.ram.dboutA } := by
  show DbusToRamPort.response true s.portA ({} : DbusRequest 32) s.ram.dboutA = _
  rw [DbusToRamPort.response, h.owed, DbusToRamPort.we]
  simp

/-- What the interconnect and the block RAM make of the cycle, seen from the data memory. -/
structure Answered (c : CoreConfig) (map : AddressMap n 32) (bram : Fin n)
    (others : Fin n → DbusResponse 32) (s : ExtendedCore n a) : Prop where
  noError : (s.coreInput map bram others).dbus.error = false
  noStall : (s.coreInput map bram others).dbus.stall = false
  ack : (s.coreInput map bram others).dbus.ack =
    (s.executed.pending.isSome || s.core.dbusRequest.en && decide (s.core.dbusRequest.we ≠ 0))
  data : s.executed.pending.isSome = true →
    (s.coreInput map bram others).dbus.dbRd = s.ram.dboutB
  asked : s.core.dbusRequest.en = true → s.bramRequest map bram = s.core.dbusRequest
  off : s.core.dbusRequest.en = false → (s.bramRequest map bram).en = false
  busy : (s.step c map bram others).ic.busy =
    (s.core.dbusRequest.en && decide (s.core.dbusRequest.we = 0))
  target : s.core.dbusRequest.en = true → (s.step c map bram others).ic.sEnR = single bram

variable (hdirect : map.registered bram = false)
  (hwindow : ∀ adr, InWindow a base adr → (map.adrmask bram).selects adr = true)

section Answers
include ha h hs hdirect hwindow

theorem Inv.answered : s.Answered c map bram others := by
  have hoff (hen : s.core.dbusRequest.en = false) := bramRequest_off map bram hdirect hen
  cases hp : s.executed.pending with
  | some m =>
    have hpending : s.executed.pending.isSome = true := by rw [hp]; rfl
    have hen : s.core.dbusRequest.en = false := h.executed.request_off hpending
    have hbusy : s.ic.busy = true := h.busy.trans hpending
    obtain ⟨hdbus, hbusy'⟩ := dbus_loaded c map bram others hdirect hen hbusy (h.target hbusy)
      (h.ackRd.trans hpending)
    constructor
    all_goals first
      | rw [hdbus, hpending]; rfl
      | simp [hdbus, hen, hoff, hbusy']
  | none =>
    have hpending : s.executed.pending.isSome = false := by rw [hp]; rfl
    have hbusy : s.ic.busy = false := h.busy.trans hpending
    cases hen : s.core.dbusRequest.en with
    | false =>
      obtain ⟨hdbus, hbusy'⟩ := dbus_quiet c map bram others hen hbusy
      constructor <;> simp [hdbus, hpending, hen, hoff, hbusy']
    | true =>
      obtain ⟨hrequest, hdbus, hbusy', htarget⟩ := dbus_asked c map bram others hdirect
        (hwindow _ (h.request_inWindow ha hs hen).1) hen hbusy (h.ackRd.trans hpending)
      constructor <;> simp [hdbus, hpending, hen, hrequest, hbusy', htarget]

omit ha hs hdirect hwindow in
/-- The instruction bus answers with the program's words. -/
theorem Inv.serves_text (htext : Decodes image text) :
    s.executed.followed.Serves c (program image) (s.coreInput map bram others) := by
  have hibus := h.ibus_eq map others
  refine ⟨⟨?_, ?_, ?_⟩, ?_, ?_⟩
  · intro hack
    rw [hibus] at hack
    exact .inl hack
  · intro hack
    rw [hibus] at hack ⊢
    obtain ⟨adr, hadr⟩ := Option.isSome_iff_exists.1 hack
    rw [hadr]
    exact (h.fetched adr hadr).2
  · intro _ _
    rw [hibus]
    cases s.executed.followed.owed with
    | none => exact .inr rfl
    | some adr => exact .inl rfl
  · intro hack
    rwa [hibus] at hack
  · intro hack
    rw [hibus] at hack ⊢
    obtain ⟨adr, hadr⟩ := Option.isSome_iff_exists.1 hack
    obtain ⟨hin, hword⟩ := h.fetched adr hadr
    show (opClass s.ram.dboutA).isSome = true
    rw [hword]
    exact htext _ hin

/-- The data bus answers what is asked for. -/
theorem Inv.answersAccepted : AnswersAccepted s.executed.traced.owes
    s.executed.traced.backend.execute.ls.request (s.coreInput map bram others).dbus := by
  have hans := h.answered others ha hs hdirect hwindow
  have hlinked := h.executed.linked
  refine ⟨fun hanswers => ?_, fun hboth => ?_⟩
  · rw [hlinked.owes, hlinked.backend]
    rw [DbusResponse.answers, hans.noError, Bool.or_false, hans.ack, Bool.or_eq_true,
      Bool.and_eq_true] at hanswers
    exact hanswers.imp_right fun hen => ⟨hen.1, hans.noStall⟩
  · exact Bool.false_ne_true (hans.noError.symm.trans hboth.2)

/-- A load is answered with the word of the data memory. -/
theorem Inv.loads (hack : (s.coreInput map bram others).dbus.ack = true) :
    ∀ m ∈ s.executed.current (s.coreInput map bram others), m.we = 0 →
      (s.coreInput map bram others).dbus.dbRd = s.executed.mem (m.adr.extractLsb' 2 30) := by
  have hans := h.answered others ha hs hdirect hwindow
  intro m hm hwe
  cases hp : s.executed.pending with
  | some m' =>
    have hpending : s.executed.pending.isSome = true := by rw [hp]; rfl
    have hen : s.executed.request.en = false := h.executed.request_off hpending
    have hcurrent : s.executed.current (s.coreInput map bram others) = some m' := by
      rw [Executed.current, hen, Bool.false_and, if_neg Bool.false_ne_true, hp]
    obtain rfl : m' = m := Option.some.inj (hcurrent.symm.trans hm)
    rw [hans.data hpending]
    exact (h.loading m' hp).2
  | none =>
    -- the answer to a request of this cycle is to a write
    rw [hans.ack, hp] at hack
    simp only [Option.isSome_none, Bool.false_or, Bool.and_eq_true, decide_eq_true_eq] at hack
    have hcurrent :
        s.executed.current (s.coreInput map bram others) = some s.executed.request := by
      have hen : s.executed.request.en = true := hack.1
      rw [Executed.current, hen, hans.noStall]
      rfl
    obtain rfl : s.executed.request = m := Option.some.inj (hcurrent.symm.trans hm)
    exact absurd hwe hack.2

/-- The buses serve the core. -/
theorem Inv.served (htext : Decodes image text) :
    s.executed.Served c (program image) (s.coreInput map bram others) := by
  have hibus := h.ibus_eq map others
  have howed : s.core.fetch.outstanding = s.executed.followed.owed.isSome :=
    h.outstanding.trans h.owed.symm
  constructor
  · exact h.serves_text others htext
  · intro _ _ _
    rw [hibus]
    cases hout : s.core.fetch.outstanding with
    | false => exact .inl hout
    | true => exact .inr (howed.symm.trans hout)
  · intro _ hout
    exact howed.symm.trans hout
  · exact h.answersAccepted others ha hs hdirect hwindow
  · exact (h.answered others ha hs hdirect hwindow).noError
  · exact h.loads others ha hs hdirect hwindow

/-- Neither bus makes the core wait. -/
theorem Inv.not_waits : s.executed.waits c (s.coreInput map bram others) = false := by
  have hans := h.answered others ha hs hdirect hwindow
  have hibus := h.ibus_eq map others
  rw [Executed.waits, hibus, hans.noStall, DbusResponse.answers, hans.noError, hans.ack]
  cases s.executed.pending <;> cases s.executed.followed.owed <;> simp

/-- A read is in progress after the cycle that asks for it. -/
theorem Inv.pending_step : (s.step c map bram others).executed.pending =
    if s.core.dbusRequest.en && decide (s.core.dbusRequest.we = 0) then some s.core.dbusRequest
    else none := by
  have hans := h.answered others ha hs hdirect hwindow
  show (if (s.coreInput map bram others).dbus.answers then none
    else s.executed.current (s.coreInput map bram others) : Option _) = _
  rw [DbusResponse.answers, hans.noError, Bool.or_false, hans.ack, Executed.current, hans.noStall]
  show (if _ then none else if s.core.dbusRequest.en && !false then some s.core.dbusRequest
    else s.executed.pending : Option _) = _
  cases hp : s.executed.pending with
  | some m =>
    have hen : s.core.dbusRequest.en = false := h.executed.request_off (by rw [hp]; rfl)
    simp [hen]
  | none =>
    rw [decide_not]
    cases decide (s.core.dbusRequest.we = 0) <;> cases s.core.dbusRequest.en <;> rfl

/-- The data memory changes with a write. -/
theorem Inv.mem_step : (s.step c map bram others).executed.mem =
    if s.core.dbusRequest.en && decide (s.core.dbusRequest.we ≠ 0) then
      writeWord s.executed.mem s.core.dbusRequest.adr s.core.dbusRequest.we s.core.dbusRequest.dbWr
    else s.executed.mem := by
  have hans := h.answered others ha hs hdirect hwindow
  show (s.executed.step c (s.coreInput map bram others)).mem = _
  rw [Executed.step]
  dsimp only
  rw [hans.ack, Executed.current, hans.noStall,
    show s.executed.request = s.core.dbusRequest from rfl]
  cases hp : s.executed.pending with
  | some m =>
    have hen : s.core.dbusRequest.en = false := h.executed.request_off (by rw [hp]; rfl)
    have hkeep : writeWord s.executed.mem m.adr m.we m.dbWr = s.executed.mem := by
      rw [writeWord, (h.loading m hp).1, byteMerge_zero, Function.update_eq_self]
    simp [hen, hkeep]
  | none => cases hen : s.core.dbusRequest.en <;> simp

/-- And so does the RAM. -/
theorem Inv.ram_step : (s.step c map bram others).ram.ram =
    if s.core.dbusRequest.en && decide (s.core.dbusRequest.we ≠ 0) then
      Function.update s.ram.ram (index a s.core.dbusRequest.adr)
        (byteMerge s.core.dbusRequest.we (s.ram.ram (index a s.core.dbusRequest.adr))
          s.core.dbusRequest.dbWr)
    else s.ram.ram := by
  have hans := h.answered others ha hs hdirect hwindow
  show RamPort.write false (DbusToRamPort.port (s.bramRequest map bram))
    (RamPort.write true (DbusToRamPort.port (s.ibusRequest c map bram others)) s.ram.ram) = _
  have hport : RamPort.write true (DbusToRamPort.port (s.ibusRequest c map bram others))
      s.ram.ram = s.ram.ram := by
    rw [RamPort.write, Bool.not_true, Bool.and_false, if_neg Bool.false_ne_true]
  rw [hport, RamPort.write, Bool.not_false, Bool.and_true]
  cases hen : s.core.dbusRequest.en with
  | false =>
    have hoff : (DbusToRamPort.port (s.bramRequest map bram) : RamPort a 32).en = false :=
      hans.off hen
    simp [hoff]
  | true =>
    have hon : (DbusToRamPort.port s.core.dbusRequest : RamPort a 32).en = true := hen
    rw [hans.asked hen, hon, if_pos rfl]
    rw [Bool.true_and]
    by_cases hwe : s.core.dbusRequest.we = 0
    · have hkeep (old : Word) : byteMerge (0 : BitVec (32 / 8)) old s.core.dbusRequest.dbWr = old :=
        byteMerge_zero _ _
      rw [decide_eq_false (not_not_intro hwe), if_neg Bool.false_ne_true]
      simp only [DbusToRamPort.port, hwe, hkeep, Function.update_eq_self]
    · rw [decide_eq_true hwe, if_pos rfl]
      rfl

theorem Inv.shown_step : ∀ adr, InWindow a base adr →
    (s.step c map bram others).executed.mem (adr.extractLsb' 2 30) =
      (s.step c map bram others).ram.ram (index a adr) := by
  intro adr hadr
  rw [h.mem_step others ha hs hdirect hwindow, h.ram_step others ha hs hdirect hwindow]
  cases hw : s.core.dbusRequest.en && decide (s.core.dbusRequest.we ≠ 0) with
  | false => exact h.shown adr hadr
  | true =>
    rw [Bool.and_eq_true] at hw
    have hin := (h.request_inWindow ha hs hw.1).1
    rw [if_pos rfl, if_pos rfl, writeWord]
    by_cases hsame : adr.extractLsb' 2 30 = s.core.dbusRequest.adr.extractLsb' 2 30
    · rw [index_congr (Rv32i.word_eq_iff.1 hsame), hsame, Function.update_self,
        Function.update_self, h.shown _ hin]
    · rw [Function.update_of_ne hsame, Function.update_of_ne fun hidx => hsame ?_, h.shown adr hadr]
      exact word_of_index hadr hin hidx

theorem Inv.text_step : ∀ w, text w → (s.step c map bram others).ram.ram w = image w := by
  intro w hw
  rw [h.ram_step others ha hs hdirect hwindow]
  split_ifs with hwrite
  · simp only [Bool.and_eq_true, decide_eq_true_eq] at hwrite
    have hoff := (h.request_inWindow ha hs hwrite.1).2 hwrite.2
    have hne : w ≠ index a s.core.dbusRequest.adr := fun hidx => hoff (hidx ▸ hw)
    rw [Function.update_of_ne hne]
    exact h.text w hw
  · exact h.text w hw

theorem Inv.step (hc : Execute.Qualified c) (htext : Decodes image text) :
    (s.step c map bram others).Inv c bram base text image ∧
      s.executed.Lawful c (program image) (s.coreInput map bram others) ∧
      s.executed.Regular c (s.coreInput map bram others) := by
  have hans := h.answered others ha hs hdirect hwindow
  have hibus := h.ibus_eq map others
  have hserved := h.served others ha hs hdirect hwindow htext
  have hlaw := h.executed.lawful hc hserved fun _ =>
    ⟨_, refines_hart.after fun _ hk => proceeds ha fun j hj => hs j (hj.trans hk.le),
      proceeds ha hs⟩
  have hpending := h.pending_step others ha hs hdirect hwindow
  have hsome : (s.step c map bram others).executed.pending.isSome =
      (s.core.dbusRequest.en && decide (s.core.dbusRequest.we = 0)) := by
    rw [hpending]
    cases s.core.dbusRequest.en && decide (s.core.dbusRequest.we = 0) <;> rfl
  have howed : (s.step c map bram others).executed.followed.owed =
      if (s.ibusRequest c map bram others).en then some (s.ibusRequest c map bram others).adr
      else none := by
    refine Fetch.nextOwed_prompt ?_ ?_ <;> rw [hibus]
  have hportA : (s.step c map bram others).portA.ackRd = (s.ibusRequest c map bram others).en := by
    show (_ && !(DbusToRamPort.we true _)) = _
    simp [DbusToRamPort.we]
  refine ⟨?_, hlaw⟩
  constructor
  · exact h.executed.step hc hlaw.1 hlaw.2
  · rw [hportA]
    refine Fetch.step_outstanding ?_
    show (s.coreInput map bram others).ibus.ack = s.core.fetch.outstanding
    rw [hibus, h.outstanding, h.owed]
  · rw [howed, hportA]
    cases (s.ibusRequest c map bram others).en <;> rfl
  · intro adr hadr
    rw [howed] at hadr
    split_ifs at hadr with hen
    · obtain rfl := Option.some.inj hadr
      have hin := h.fetch_text others ha hs hen
      refine ⟨hin, ?_⟩
      show (if (s.ibusRequest c map bram others).en then
        s.ram.ram (index a (s.ibusRequest c map bram others).adr) else s.ram.dboutA) = _
      rw [hen, if_pos rfl, h.text _ hin]
  · rw [hans.busy, hsome]
  · intro hbusy
    rw [hans.busy, Bool.and_eq_true] at hbusy
    exact hans.target hbusy.1
  · rw [hsome]
    show ((s.bramRequest map bram).en && !(DbusToRamPort.we false (s.bramRequest map bram))) = _
    cases hen : s.core.dbusRequest.en with
    | false => rw [hans.off hen, Bool.false_and, Bool.false_and]
    | true =>
      rw [hans.asked hen, hen, DbusToRamPort.we, Bool.not_false, Bool.true_and, decide_not,
        Bool.true_and, Bool.true_and, Bool.not_not]
  · intro m hm
    rw [hpending] at hm
    split_ifs at hm with hread
    obtain rfl := Option.some.inj hm
    simp only [Bool.and_eq_true, decide_eq_true_eq] at hread
    refine ⟨hread.2, ?_⟩
    have hmem := h.mem_step others ha hs hdirect hwindow
    rw [decide_eq_false (not_not_intro hread.2), Bool.and_false, if_neg Bool.false_ne_true] at hmem
    rw [hmem, h.shown _ (h.request_inWindow ha hs hread.1).1]
    show (if (s.bramRequest map bram).en then s.ram.ram (index a (s.bramRequest map bram).adr)
      else s.ram.dboutB) = _
    rw [hans.asked hread.1, hread.1, if_pos rfl]
  · exact h.shown_step others ha hs hdirect hwindow
  · exact h.text_step others ha hs hdirect hwindow

end Answers

end Cycle

section Run
variable {c map bram}

theorem inv_init {base : ℕ} {text : BitVec a → Prop} {image : BitVec a → Word} (ha : a ≤ 30) :
    (machine c map bram image).init.Inv c bram base text image where
  executed := Executed.inv_init (memory image)
  outstanding := rfl
  owed := rfl
  fetched := by
    intro _ h
    cases h
  busy := rfl
  target := fun h => absurd h Bool.false_ne_true
  ackRd := rfl
  loading := by
    intro _ h
    cases h
  shown := fun adr _ => congrArg image (index_word ha adr)
  text := fun _ _ => rfl

/-- Not more than one word in each cycle. -/
theorem words_run (c : CoreConfig) (map : AddressMap n 32) (bram : Fin n)
    (image : BitVec a → Word) (s : ExtendedCore n a)
    (is : List (Fin n → DbusResponse 32)) :
    ((machine c map bram image).runFrom s is).executed.words.length ≤
      s.executed.words.length + is.length := by
  induction is generalizing s with
  | nil => exact le_rfl
  | cons i is ih =>
    have hrest := ih (s.step c map bram i)
    have hfirst : (s.step c map bram i).executed.words.length = s.executed.words.length +
      if s.executed.taken c (s.coreInput map bram i) then 1 else 0 := Executed.words_step
    rw [List.length_cons]
    have hstep : (machine c map bram image).runFrom s (i :: is) =
      (machine c map bram image).runFrom (s.step c map bram i) is := rfl
    rw [hstep]
    split_ifs at hfirst <;> omega

/-- The core runs the hart's program: it does what the hart does, the RAM holds the hart's
memory, but for a store to come, and a word is taken at least every eleven cycles. -/
structure Runs (c : CoreConfig) (base : ℕ) (image : BitVec a → Word) (cycles : ℕ)
    (s : ExtendedCore n a) : Prop where
  follows : s.executed.FollowsHart c (hart c image)
  ram : ∃ k, k ≤ s.executed.words.length ∧ s.executed.words.length ≤ k + 1 ∧
    ∀ adr, InWindow a base adr →
      byteLane (s.ram.ram (index a adr)) (adr.toNat % 4) = ((hart c image).after k).mem adr
  progress : cycles ≤ 11 * (s.executed.words.length + 1)

/-- Never more words than cycles. -/
theorem words_below (c : CoreConfig) (map : AddressMap n 32) (bram : Fin n)
    (image : BitVec a → Word) (s : ExtendedCore n a) (is : List (Fin n → DbusResponse 32)) :
    (machine c map bram image).Along (fun t _ => t.executed.words.length <
      s.executed.words.length + is.length + 1) s is := by
  induction is generalizing s with
  | nil => trivial
  | cons i is ih =>
    refine ⟨by omega, Clocked.Along.mono (fun _ => True) (fun _ _ _ _ => trivial)
      (fun t j _ hok => ?_) trivial (ih ((machine c map bram image).step s i))⟩
    have hfirst : ((machine c map bram image).step s i).executed.words.length ≤
        s.executed.words.length + [i].length := words_run c map bram image s [i]
    rw [List.length_singleton] at hfirst
    rw [List.length_cons]
    omega

section Programs
variable (c : CoreConfig) (hregistered : c.registeredReadStage = true)
  (hshifter : c.shifterMode ≠ .behavioral) (ha : a ≤ 30) (map : AddressMap n 32) (bram : Fin n)
  (hdirect : map.registered bram = false) (base : ℕ)
  (hwindow : ∀ adr, InWindow a base adr → (map.adrmask bram).selects adr = true)
  (text : BitVec a → Prop) (image : BitVec a → Word) (htext : Decodes image text)
include hregistered hshifter ha hdirect hwindow htext

/-- The program, as far as the hart stays in its RAM: until `m` words are taken. -/
theorem runs_below {m : ℕ} (hs : ∀ k < m, Stays base text ((hart c image).after k))
    (is : List (Fin n → DbusResponse 32))
    (hbelow : (machine c map bram image).Along (fun s _ => s.executed.words.length < m)
      (machine c map bram image).init is) :
    ((machine c map bram image).run is).Runs c base image is.length := by
  have hc : Execute.Qualified c := ⟨hregistered, hshifter⟩
  have hinit : (machine c map bram image).init.Inv c bram base text image ∧
      (machine c map bram image).init.executed.words.length ≤ m := ⟨inv_init ha, Nat.zero_le m⟩
  have hstays (s : ExtendedCore n a) (hlt : s.executed.words.length < m) :
      ∀ k ≤ s.executed.words.length, Stays base text ((hart c image).after k) :=
    fun k hk => hs k (hk.trans_lt hlt)
  have hpres : ∀ (s : ExtendedCore n a) (i : Fin n → DbusResponse 32),
      s.Inv c bram base text image ∧ s.executed.words.length ≤ m →
      s.executed.words.length < m →
      (s.step c map bram i).Inv c bram base text image ∧
        (s.step c map bram i).executed.words.length ≤ m := by
    intro s i hinv hlt
    refine ⟨(hinv.1.step i ha (hstays s hlt) hdirect hwindow hc htext).1, ?_⟩
    have hone : (s.step c map bram i).executed.words.length ≤
        s.executed.words.length + [i].length := words_run c map bram image s [i]
    exact hone.trans hlt
  obtain ⟨hinv, hbound⟩ : ((machine c map bram image).run is).Inv c bram base text image ∧
      ((machine c map bram image).run is).executed.words.length ≤ m := hbelow.invariant
    (fun s => s.Inv c bram base text image ∧ s.executed.words.length ≤ m) hpres hinit
  have hp : ∀ k < ((machine c map bram image).run is).executed.words.length,
      ProgramState.Proceeds (program image) ((hart c image).after k) := fun k hk =>
    proceeds ha fun j hj => hs j (hj.trans_lt (hk.trans_le hbound))
  have hfollows := hinv.executed.followsHart hc refines_hart hp
  refine ⟨hfollows, ?_, ?_⟩
  · obtain ⟨k, hk, hlen, hmem⟩ := hfollows.mem
    refine ⟨k, hk, hlen, fun adr hadr => ?_⟩
    rw [← hmem, ← hinv.shown adr hadr]
    rfl
  · have hcount : Executed.progress c (machine c map bram image).init.executed +
        ((machine c map bram image).labels (fun _ _ => true)
          (machine c map bram image).init is).count true ≤
        Executed.progress c ((machine c map bram image).run is).executed := by
      refine hbelow.count_le
        (fun s => s.Inv c bram base text image ∧ s.executed.words.length ≤ m) hpres
        (φ := fun s => s.executed.progress c) (fun s i hs hlt => ?_) hinit
      have hstep := hs.1.step i ha (hstays s hlt) hdirect hwindow hc htext
      have hprogress := hs.1.executed.progress_step hc hstep.2.1 hstep.2.2
      rw [hs.1.not_waits i ha (hstays s hlt) hdirect hwindow] at hprogress
      exact hprogress
    rw [Clocked.labels_const, List.count_replicate_self, Executed.progress, Executed.progress]
      at hcount
    omega

theorem runs_program (is : List (Fin n → DbusResponse 32))
    (hs : ∀ k ≤ is.length, Stays base text ((hart c image).after k)) :
    ((machine c map bram image).run is).Runs c base image is.length := by
  have hbelow := words_below c map bram image (machine c map bram image).init is
  rw [show (machine c map bram image).init.executed.words.length = 0 from rfl, Nat.zero_add]
    at hbelow
  exact runs_below c hregistered hshifter ha map bram hdirect base hwindow text image htext
    (fun k hk => hs k (Nat.le_of_lt_succ hk)) is hbelow

end Programs

/-- `lui x1, 0xc0000`, `sw x1, 64(x1)`, `lw x2, 64(x1)` and a jump to itself, in a RAM of 32
words. -/
def storeLoadImage : BitVec 5 → Word :=
  fun w =>
    if w = 0 then 0xc00000b7 else if w = 1 then 0x0410a023 else if w = 2 then 0x0400a103
    else if w = 3 then 0x6f else 0x13

theorem runs_program_store :
    let c : CoreConfig := { resetAddress := 0xc0000000 }
    let s := (machine c soc 0 storeLoadImage).run (List.replicate 18 fun _ => {})
    s.Runs c (0xc0000000 / 128) storeLoadImage 18 ∧
      s.executed.traced.writes = [(2, 0xc0000000), (1, 0xc0000000)] ∧
      s.ram.ram 16 = 0xc0000000 := by
  refine ⟨runs_program _ rfl (by decide) (by decide) soc 0 rfl _ (fun adr hadr => ?_)
    (fun w => w < 8) storeLoadImage (fun w hw => ?_) (List.replicate 18 fun _ => {})
    (by decide +kernel), by decide +kernel, by decide +kernel⟩
  · have hadr : adr.toNat / 128 = 0xc0000000 / 128 := hadr
    have hlt := adr.isLt
    show ((adr.extractLsb' 28 4).toNat == 0xc) = true
    rw [beq_iff_eq, BitVec.extractLsb'_toNat, Nat.shiftRight_eq_div_pow]
    omega
  · unfold storeLoadImage
    split_ifs <;> decide

end Run

end ExtendedCore
end BonfireCore
