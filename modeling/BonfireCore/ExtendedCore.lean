import BonfireCore.DbusToRamPort
import BonfireCore.HartRefinement
import BonfireCore.InterconnectReady

/-! The extended core on its block RAM: instructions come from one port, data through the
interconnect from the other. No condition on a bus is left; a hart that stays in its RAM and
does not write its own text runs. -/
namespace BonfireCore

open Rv32i (Instr Access Bytes bytesOf byteLane writeWord)

namespace Executed
variable {c : CoreConfig} {imem : Word → Word} {s : Executed} {i : CoreInput} {p : ProgramState}
  {h : Hart}

/-- The request on the data bus is the one of the access of the hart's last instruction. -/
theorem Inv.request_hart (hinv : s.Inv c imem p) (hr : p.Refines h)
    (hp : ∀ k < s.words.length, ProgramState.Proceeds imem (h.after k))
    (hen : s.request.en = true) : ∃ n ins a, s.words.length = n + 1 ∧
      (h.after n).instr = some ins ∧ ((h.after n).effect ins).access = some a ∧
      a.Requests s.request := by
  obtain ⟨pend, hphase, hfollows⟩ := hinv.phase
  have hlink : s.traced.backend.execute.ls.busEn = true := by
    rw [hinv.linked.backend]
    exact hen
  have hoff (hidle : s.traced.backend.execute.ls.busEn = false) : False :=
    Bool.false_ne_true (hidle.symm.trans hlink)
  cases pend with
  | none => exact (hoff hphase.phase.2.1.busEn).elim
  | shift res => exact (hoff hphase.phase.2.2.2.2.1.busEn).elim
  | done store value => exact (hoff hphase.phase.2.1.busEn).elim
  | access l =>
    obtain ⟨n, t, ts, hcount, hissued, hf, hreach, -⟩ := hfollows
    obtain ⟨ins, hi, hin⟩ := (hp n (by omega)).orderly
    have hw : imem (h.after n).pc = ins.encode :=
      (hp n (by omega)).word.trans (Instr.encode_of_decode hi).symm
    have hn : (p.after c imem n).Refines (h.after n) := hr.after fun k hk => hp k (by omega)
    have hissue := hphase.access l rfl
    rw [hissued] at hissue
    have hsame := hissue.2.2.1
    rw [hf, hreach.arch, hn.op hw, hn.op1 hw, hn.op2 hw] at hsame
    obtain ⟨a, ha⟩ := access_of_decoded ((h.after n).x1 ins) ((h.after n).x2 ins) hsame.mem
    have hasked := (decoded_access (d := {}) ins ha).2
    have hasks : a.Asks l := by
      cases a with
      | load kind adr =>
        exact ⟨hsame.store.trans hasked.1, hsame.funct3.trans hasked.2.1,
          hsame.adr.trans hasked.2.2⟩
      | store kind adr data =>
        exact ⟨hsame.store.trans hasked.1, hsame.funct3.trans hasked.2.1,
          hsame.adr.trans hasked.2.2.1, (hsame.op2 hasked.1).trans hasked.2.2.2⟩
    have hls := hphase.phase.2.1
    refine ⟨n, ins, a, hcount, hi, ha, ?_⟩
    rw [request, ← hinv.linked.backend]
    exact hasks.requests (hin.1.1 a ha) ⟨hlink, hls.adr, hls.we, hls.dbWr⟩

end Executed

namespace Fetch
variable {f : Fetch} {owed : Option Word} {imem : Word → Word} {pc : Word}

/-- Fetch requests the word behind those it has and the one it waits for. -/
theorem Streams.ip_near (h : f.Streams imem owed pc) (hb : f.busy = false) :
    ∃ j ≤ 2, f.ip = pc + BitVec.ofNat 32 (4 * j) := by
  have horder := h.order
  cases hv : f.valid <;> cases owed <;>
    simp only [upcoming, hv, hb, if_true, if_false, Bool.false_eq_true, Option.toList,
      List.nil_append, List.cons_append, Consecutive] at horder
  · exact ⟨0, by omega, by simpa using horder.1⟩
  · exact ⟨1, by omega, by simpa using horder.2.1⟩
  · exact ⟨1, by omega, by simpa using horder.2.1⟩
  · refine ⟨2, by omega, ?_⟩
    rw [horder.2.2.1, BitVec.add_assoc]
    rfl

end Fetch

namespace Executed
variable {c : CoreConfig} {imem : Word → Word} {s : Executed} {i : CoreInput} {p : ProgramState}

/-- The path goes on at the program's next word, or one behind it. -/
theorem Inv.accepted_near (hinv : s.Inv c imem p)
    (hpath : Visit.Path c.resetAddress imem s.followed.accepted) :
    ∃ j ≤ 1, Visit.nextPc c.resetAddress s.followed.accepted =
      (p.after c imem s.words.length).pc + BitVec.ofNat 32 (4 * j) := by
  have hsettled : s.followed.taken = s.followed.settled := by
    rw [hinv.followed.taken, List.filter_eq_self]
    intro v hv
    have hmem : v ∈ s.followed.accepted := by
      unfold Followed.settled at hv
      split_ifs at hv
      · exact List.mem_of_mem_tail hv
      · exact hv
    simp [hinv.known.accepted v hmem]
  have hpc := hinv.pc
  rw [hsettled] at hpc
  cases hv : s.followed.core.backend.decode.valid with
  | false =>
    have hsame : s.followed.settled = s.followed.accepted := if_neg (Bool.eq_false_iff.1 hv)
    exact ⟨0, by omega, by rw [← hsame, hpc]; simp⟩
  | true =>
    obtain ⟨v, hacc, hholds⟩ := hinv.followed.head hv
    rw [hacc] at hpath ⊢
    refine ⟨1, le_rfl, ?_⟩
    show v.next = _
    rw [Visit.next, hholds.target, ← hpc, ← hpath.1]
    rfl

/-- A request on the instruction bus is for one of the four words from the program's next one
on: in the cycles between a jump and its redirect there is none. -/
theorem Inv.request_near (hinv : s.Inv c imem p) (hen : (s.core.ibusRequest c i).en = true) :
    ∃ j ≤ 3, (s.core.ibusRequest c i).adr =
      (p.after c imem s.words.length).pc + BitVec.ofNat 32 (4 * j) := by
  have hen : s.core.fetch.en (s.core.fetchInput c i) = true := hen
  simp only [Fetch.en, Bool.and_eq_true, Bool.not_eq_true'] at hen
  obtain ⟨⟨⟨hb, -⟩, -⟩, hn⟩ := hen
  have hstream (hpath : Visit.Path c.resetAddress imem s.followed.accepted)
      (hstr : s.followed.core.fetch.Streams imem s.followed.owed
        (Visit.nextPc c.resetAddress s.followed.accepted)) :
      ∃ j ≤ 3, s.core.fetch.ip =
        (p.after c imem s.words.length).pc + BitVec.ofNat 32 (4 * j) := by
    obtain ⟨j, hj, hip⟩ := hstr.ip_near hb
    obtain ⟨k, hk, hnext⟩ := hinv.accepted_near hpath
    refine ⟨k + j, by omega, ?_⟩
    rw [Nat.mul_add, ← BitVec.ofNat_add_ofNat, ← BitVec.add_assoc, ← hnext]
    exact hip
  have hjump (hjumpR : s.core.backend.execute.jumpR = true) (hjt : s.core.fetch.jumpTaken = false)
      (ht : s.followed.takes c i = false) : False := by
    have hjump : (s.core.fetchInput c i).jump = _ := Followed.jumpO_eq
    rw [Fetch.newJump, hjump, ht, hjt, show s.followed.core.backend.execute.jumpR = true from
      hjumpR] at hn
    exact absurd hn (by simp)
  cases hinv.followed.phase with
  | sequential hpath hstr => exact hstream hpath hstr
  | redirected _ hpath hstr => exact hstream hpath hstr
  | doomed _ hp hjt hbusy =>
    have ht : s.followed.takes c i = false := by
      simp [Followed.takes, Core.taken, Backend.taken, Execute.taken, Execute.busy, hbusy]
    exact (hjump hp.jumpR hjt ht).elim
  | waiting hp hv _ hw =>
    have ht : s.followed.takes c i = false := by
      rw [Followed.takes_eq, hv, Bool.false_and]
    exact (hjump hp.jumpR hw.jumpTaken ht).elim

end Executed

namespace Fetch
variable {f : Fetch} {i : FetchInput} {owed : Option Word}

/-- On a bus that answers each request in the next cycle. -/
theorem step_outstanding (hack : i.ibus.ack = f.outstanding) :
    (f.step i).outstanding = f.en i := by
  show (if f.en i && !i.ibus.ack then true else if !f.en i && i.ibus.ack then false
    else f.outstanding) = f.en i
  rw [hack]
  cases f.en i <;> cases f.outstanding <;> rfl

theorem nextOwed_prompt {q : DbusRequest 32} {r : DbusResponse 32} (hack : r.ack = owed.isSome)
    (hstall : r.stall = false) : nextOwed owed q r = if q.en then some q.adr else none := by
  cases owed <;> cases hen : q.en <;> simp [nextOwed, hack, hstall, hen]

end Fetch

namespace Executed
variable {c : CoreConfig} {imem : Word → Word} {s : Executed} {p : ProgramState}

/-- While the data memory works on a request there is no other. -/
theorem Inv.request_off (hinv : s.Inv c imem p) (hpending : s.pending.isSome = true) :
    s.request.en = false := by
  obtain ⟨pend, hphase, hfollows⟩ := hinv.phase
  rw [request, ← hinv.linked.backend]
  cases pend with
  | none => exact hphase.phase.2.1.busEn
  | shift res => exact hphase.phase.2.2.2.2.1.busEn
  | done store value => exact hphase.phase.2.1.busEn
  | access l =>
    have hbus := hphase.phase.2.1.busEn
    rw [hinv.linked.owes, hpending] at hbus
    exact hbus

end Executed

/-- `bonfireCoreExtendedInterface` with its block RAM: the core, with the record of what it
does, the interconnect of its data bus, and the two ports. -/
structure ExtendedCore (n a : ℕ) where
  executed : Executed
  ic : Interconnect n 32 := {}
  portA : DbusToRamPort := {}
  portB : DbusToRamPort := {}
  ram : DualportedRam a 32

namespace ExtendedCore
variable {n a : ℕ} (c : CoreConfig) (map : AddressMap n 32) (bram : Fin n) (s : ExtendedCore n a)
  (others : Fin n → DbusResponse 32)

def core : Core := s.executed.core

/-- What the block RAM is asked through the interconnect. -/
def bramRequest : DbusRequest 32 := s.ic.toSlave map s.core.dbusRequest bram

/-- What the slaves answer: the block RAM, and any others. -/
def slaves : Fin n → DbusResponse 32 :=
  Function.update others bram (s.portB.response false (s.bramRequest map bram) s.ram.dboutB)

/-- The read-only port does not look at the request of the cycle. -/
def coreInput : CoreInput where
  ibus := s.portA.response true ({} : DbusRequest 32) s.ram.dboutA
  dbus := s.ic.toMaster map s.core.dbusRequest (s.slaves map bram others)

def ibusRequest : DbusRequest 32 := s.core.ibusRequest c (s.coreInput map bram others)

def step : ExtendedCore n a where
  executed := s.executed.step c (s.coreInput map bram others)
  ic := s.ic.step map s.core.dbusRequest (s.slaves map bram others)
  portA := .step true (s.ibusRequest c map bram others)
  portB := .step false (s.bramRequest map bram)
  ram := s.ram.step { readOnlyA := true }
    (DbusToRamPort.port (s.ibusRequest c map bram others))
    (DbusToRamPort.port (s.bramRequest map bram))

/-- The word of the RAM at an address, whichever of its images the address is in. -/
def index (a : ℕ) (adr : Word) : BitVec a := adr.extractLsb' 2 a

/-- The data memory that the RAM shows at every address. -/
def memory (image : BitVec a → Word) : BitVec 30 → Word := fun w => image (w.extractLsb' 0 a)

def machine (image : BitVec a → Word) : Clocked (ExtendedCore n a) (Fin n → DbusResponse 32) where
  init := { executed := Executed.init c (memory image), ram := { ram := image } }
  step s others := s.step c map bram others

/-- The hart after a reset, with the image in its memory. -/
def hart (image : BitVec a → Word) : Hart := Executed.hart c (memory image)

/-- The addresses at which a program uses the RAM: one image of it. -/
def InWindow (a base : ℕ) (adr : Word) : Prop := adr.toNat / 2 ^ (a + 2) = base

instance (a base : ℕ) (adr : Word) : Decidable (InWindow a base adr) :=
  inferInstanceAs (Decidable (_ = _))

/-- The access is in the RAM, and a store is not to the text. -/
def KeepsTo (base : ℕ) (text : BitVec a → Prop) : Access → Prop
  | .load _ adr => InWindow a base adr
  | .store _ adr _ => InWindow a base adr ∧ ¬ text (index a adr)

instance decidableKeepsTo (base : ℕ) (text : BitVec a → Prop) [DecidablePred text] :
    ∀ acc, Decidable (KeepsTo base text acc)
  | .load _ adr => inferInstanceAs (Decidable (InWindow a base adr))
  | .store _ adr _ => inferInstanceAs (Decidable (InWindow a base adr ∧ ¬ text (index a adr)))

/-- The hart stays in the RAM: it is at an aligned word of its text, like the three behind it,
which Fetch may ask for, and its instruction is in order and keeps to the RAM. -/
structure Stays (base : ℕ) (text : BitVec a → Prop) (h : Hart) : Prop where
  aligned : h.pc.toNat % 4 = 0
  inWindow : InWindow a base h.pc
  fetched : ∀ j ≤ 3, text (index a (h.pc + BitVec.ofNat 32 (4 * j)))
  orderly : h.Orderly
  access : ∀ ins ∈ h.instr, ∀ acc ∈ (h.effect ins).access, KeepsTo base text acc

instance decidableStays (base : ℕ) (text : BitVec a → Prop) [DecidablePred text] (h : Hart) :
    Decidable (Stays base text h) :=
  decidable_of_iff (h.pc.toNat % 4 = 0 ∧ InWindow a base h.pc ∧
      (∀ j ≤ 3, text (index a (h.pc + BitVec.ofNat 32 (4 * j)))) ∧ h.Orderly ∧
      ∀ ins ∈ h.instr, ∀ acc ∈ (h.effect ins).access, KeepsTo base text acc)
    ⟨fun h => ⟨h.1, h.2.1, h.2.2.1, h.2.2.2.1, h.2.2.2.2⟩,
      fun h => ⟨h.aligned, h.inWindow, h.fetched, h.orderly, h.access⟩⟩

/-- The image is the program: its text decodes. -/
def Decodes (image : BitVec a → Word) (text : BitVec a → Prop) : Prop :=
  ∀ w, text w → (opClass (image w)).isSome = true

section Text
variable {base : ℕ} {text : BitVec a → Prop} {image : BitVec a → Word} {h : Hart}

theorem index_word (ha : a ≤ 30) (adr : Word) :
    (adr.extractLsb' 2 30).extractLsb' 0 a = index a adr := by
  apply BitVec.eq_of_getLsbD_eq
  intro i hi
  have h30 : i < 30 := by omega
  simp [index, hi, h30]

theorem index_congr {x y : Word} (h : x.toNat / 4 = y.toNat / 4) : index a x = index a y := by
  apply BitVec.eq_of_toNat_eq
  simp only [index, BitVec.extractLsb'_toNat, Nat.shiftRight_eq_div_pow, Nat.reducePow, h]

/-- In one image of the RAM a word has one address. -/
theorem word_of_index {x y : Word} (hx : InWindow a base x) (hy : InWindow a base y)
    (h : index a x = index a y) : x.extractLsb' 2 30 = y.extractLsb' 2 30 := by
  rw [Rv32i.word_eq_iff]
  have hmod := congrArg BitVec.toNat h
  simp only [index, BitVec.extractLsb'_toNat, Nat.shiftRight_eq_div_pow, Nat.reducePow] at hmod
  have hdiv (z : Word) : z.toNat / 2 ^ (a + 2) = z.toNat / 4 / 2 ^ a := by
    rw [show 4 = 2 ^ 2 from rfl, Nat.div_div_eq_div_mul, ← pow_add, Nat.add_comm]
  have hhigh : x.toNat / 4 / 2 ^ a = y.toNat / 4 / 2 ^ a := by
    rw [← hdiv, ← hdiv]
    exact hx.trans hy.symm
  rw [← Nat.div_add_mod (x.toNat / 4) (2 ^ a), ← Nat.div_add_mod (y.toNat / 4) (2 ^ a), hmod, hhigh]

/-- The bytes of an aligned access are in one word. -/
theorem div_of_near {x adr : Word} {size : ℕ} (hsize : size = 1 ∨ size = 2 ∨ size = 4)
    (ha : adr.toNat % size = 0) (hx : (x - adr).toNat < size) : x.toNat / 4 = adr.toNat / 4 := by
  have h1 := x.isLt
  have h2 := adr.isLt
  have hsub : (x - adr).toNat = (2 ^ 32 - adr.toNat + x.toNat) % 2 ^ 32 := BitVec.toNat_sub _ _
  rcases hsize with h | h | h <;> rw [h] at ha hx <;> omega

/-- No instruction changes the text. -/
theorem Stays.next (hs : Stays base text h) {b : Word} (hb : text (index a b)) :
    h.next.mem b = h.mem b := by
  unfold Hart.next
  cases hi : h.instr with
  | none => rfl
  | some ins =>
    show (h.exec ins).mem b = h.mem b
    rw [Hart.exec]
    cases hacc : (h.effect ins).access with
    | none => rfl
    | some acc =>
      cases acc with
      | load => rfl
      | store kind adr data =>
        obtain ⟨ins', hi', hin⟩ := hs.orderly
        obtain rfl := Option.some.inj (hi.symm.trans hi')
        have hal : adr.toNat % kind.size = 0 := hin.1.1 _ hacc
        have hfar : ¬ (b - adr).toNat < kind.size := fun hnear =>
          (hs.access ins hi _ hacc).2
            (index_congr (div_of_near kind.size_le hal hnear) ▸ hb)
        exact if_neg hfar

theorem Stays.after (n : ℕ) (hs : ∀ k < n, Stays base text (h.after k)) {b : Word}
    (hb : text (index a b)) : (h.after n).mem b = h.mem b := by
  induction n with
  | zero => rfl
  | succ n ih =>
    exact ((hs n n.lt_succ_self).next hb).trans (ih fun k hk => hs k (hk.trans n.lt_succ_self))

/-- An aligned word of the memory. -/
theorem word_image (ha : a ≤ 30) {adr : Word} (hal : adr.toNat % 4 = 0) :
    (Rv32i.LoadKind.lw.value fun k => bytesOf (memory image) (adr + BitVec.ofNat 32 k)) =
      image (index a adr) := by
  have hread : (Access.load .lw adr).read (bytesOf (memory image)) = _ :=
    Access.read_bytesOf (memory image) hal
  refine (Option.some.inj hread).trans ?_
  rw [hal]
  simp only [Nat.zero_add]
  rw [memory, index_word ha]
  exact byteLane_word _

/-- What the hart is at is in the image. -/
theorem Stays.word (ha : a ≤ 30) (n : ℕ) (hs : ∀ k ≤ n, Stays base text ((hart c image).after k)) :
    ((hart c image).after n).word = image (index a ((hart c image).after n).pc) := by
  have hpc := (hs n le_rfl).aligned
  have htext : text (index a ((hart c image).after n).pc) := by
    simpa using (hs n le_rfl).fetched 0 (by omega)
  have hbytes : ∀ k < Rv32i.LoadKind.lw.size,
      ((hart c image).after n).mem (((hart c image).after n).pc + BitVec.ofNat 32 k) =
        bytesOf (memory image) (((hart c image).after n).pc + BitVec.ofNat 32 k) := by
    intro k hk
    refine Stays.after n (fun j hj => hs j hj.le) ?_
    simp only [Rv32i.LoadKind.size] at hk
    have hlane : (((hart c image).after n).pc + BitVec.ofNat 32 k).toNat =
        ((hart c image).after n).pc.toNat + k := Rv32i.add_lane (by omega)
    have hsame : index a (((hart c image).after n).pc + BitVec.ofNat 32 k) =
        index a ((hart c image).after n).pc := index_congr (by omega)
    rwa [hsame]
  rw [Hart.word, Rv32i.LoadKind.value_congr _ hbytes]
  exact word_image ha hpc

end Text

end ExtendedCore
end BonfireCore
