import BonfireCore.BitArith
import BonfireCore.Clocked
import BonfireCore.Csr
import BonfireCore.Rv32i
import Mathlib.Tactic.IntervalCases

/-! The CSRs as a program names them: each has an address, a value and the bits a write
changes. The CSR unit is compared with that file over sequences of CSR operations. -/
namespace BonfireCore

open Rv32i (CsrOp)

inductive CsrName
  | mstatus | misa | mtvec | mscratch | mepc | mcause | mtval | mcycle | mcycleh | dcsr | dpc
  | mvendorid | marchid | mimpid | mhartid | mbonfirecfg
  deriving DecidableEq, Repr

namespace CsrName

def all : List CsrName :=
  [mstatus, misa, mtvec, mscratch, mepc, mcause, mtval, mcycle, mcycleh, dcsr, dpc, mvendorid,
    marchid, mimpid, mhartid, mbonfirecfg]

def address : CsrName → BitVec 12
  | mstatus => 0x300
  | misa => 0x301
  | mtvec => 0x305
  | mscratch => 0x340
  | mepc => 0x341
  | mcause => 0x342
  | mtval => 0x343
  | mcycle => 0xb00
  | mcycleh => 0xb80
  | dcsr => 0x7b0
  | dpc => 0x7b1
  | mvendorid => 0xf11
  | marchid => 0xf12
  | mimpid => 0xf13
  | mhartid => 0xf14
  | mbonfirecfg => 0xfc0

/-- The top address bits of a read-only CSR are set. -/
def readOnly (n : CsrName) : Bool := n.address.extractLsb' 10 2 = 0b11#2

def isDebug (n : CsrName) : Bool := n = dcsr || n = dpc

/-- The bits a write changes. -/
def writable : CsrName → Word
  | mstatus => 0x88
  | mtvec | mepc | dpc => 0xfffffffc
  | mscratch | mtval | mcycle | mcycleh => 0xffffffff
  | mcause => 0x3f
  | dcsr => 0x8004
  | _ => 0

def store (n : CsrName) (old new : Word) : Word := new &&& n.writable ||| old &&& ~~~n.writable

/-- The CSR at an address, with or without the debug CSRs. -/
def ofAddress (debug : Bool) (adr : BitVec 12) : Option CsrName :=
  all.find? fun n => n.address = adr && (debug || !n.isDebug)

end CsrName

/-- The CSR unit of a core with or without a debug module. -/
structure CsrUnit where
  csr : Csr := {}
  debug : Option DebugCsr := none
  deriving DecidableEq, Repr

namespace CsrUnit
variable (c : CoreConfig) (s : CsrUnit) (i : CsrInput)

def out : CsrOutput := s.csr.out c s.debug i

/-- A cycle without a trap or a debug event. -/
def step : CsrUnit where
  csr := s.csr.step c s.debug i {}
  debug := s.debug.map fun d => s.csr.stepDebug c i d {}

def machine (debug : Bool) : Clocked CsrUnit CsrInput where
  init := { debug := if debug then some {} else none }
  step := step c

def value : CsrName → Word
  | .mstatus =>
    (BitVec.ofBool s.csr.trap.mpie).setWidth 32 <<< 7 |||
      (BitVec.ofBool s.csr.trap.mie).setWidth 32 <<< 3 ||| 0x1800
  | .misa => 0x40000000
  | .mtvec => s.csr.trap.mtvec ++ 0#2
  | .mscratch => s.csr.trap.mscratch
  | .mepc => s.csr.trap.mepc ++ 0#2
  | .mcause => s.csr.trap.mcause.setWidth 32
  | .mtval => s.csr.trap.mtval
  | .mcycle => s.csr.mcycle.extractLsb' 0 32
  | .mcycleh => s.csr.mcycle.extractLsb' 32 32
  | .dcsr =>
    let d := s.debug.getD {}
    0x40000000 ||| (BitVec.ofBool d.ebreakm).setWidth 32 <<< 15 ||| d.cause.setWidth 32 <<< 6 |||
      (BitVec.ofBool d.step).setWidth 32 <<< 2 ||| 3
  | .dpc => (s.debug.getD {}).dpc ++ 0#2
  | .mvendorid | .marchid | .mhartid => 0
  | .mimpid => 0x8000
  | .mbonfirecfg => c.bonfirecfg

/-- The operation and the CSR of an instruction that is in order. -/
def accepted : Option (CsrOp × CsrName) :=
  if i.en then
    match CsrOp.ofFunct3 i.funct3, CsrName.ofAddress s.debug.isSome i.csrAdr with
    | some op, some n => if n.readOnly && op.writes i.source then none else some (op, n)
    | _, _ => none
  else none

/-- The CSR that is written, and what the instruction stores in it. -/
def written : Option (CsrName × Word) :=
  match s.accepted i with
  | some (op, n) =>
    if op.writes i.source then some (n, op.eval (s.value c n) i.op1) else none
  | none => none

/-- One cycle of the unit is one cycle of the file. -/
structure Conforms : Prop where
  rejects : (s.out c i).invalidOp = (i.en && (s.accepted i).isNone)
  completes : (s.out c i).valid = (s.accepted i).isSome
  returns : ∀ op n, s.accepted i = some (op, n) → (s.out c i).result = s.value c n
  stores : ∀ n, n ≠ .mcycle → n ≠ .mcycleh →
    (s.step c i).value c n =
      match s.written c i with
      | some (m, new) => if m = n then n.store (s.value c n) new else s.value c n
      | none => s.value c n
  counts : (s.step c i).csr.mcycle =
    match s.written c i with
    | some (.mcycle, new) => s.value c .mcycleh ++ new
    | some (.mcycleh, new) => new ++ s.value c .mcycle
    | _ => s.csr.mcycle + 1

/-- The low byte of a debug CSR's address, in the group of the trap CSRs. -/
def Aliased : Prop :=
  s.debug.isSome = true ∧ i.en = true ∧ i.invOp = false ∧
    (i.csrAdr = 0x3b0#12 ∨ i.csrAdr = 0x3b1#12)

instance : Decidable (s.Aliased i) := inferInstanceAs (Decidable (_ ∧ _))

end CsrUnit

/-- The address is decoded as three fields. -/
theorem split_address (a : BitVec 12) :
    a.extractLsb' 10 2 ++ a.extractLsb' 8 2 ++ a.extractLsb' 0 8 = a := by
  have h := a.isLt
  apply BitVec.eq_of_toNat_eq
  rw [toNat_append_eq, toNat_append_eq]
  simp only [BitVec.extractLsb'_toNat, Nat.shiftRight_eq_div_pow]
  omega

namespace CsrInput
variable {i : CsrInput}

/-- The operation of the low `funct3` bits, and the one the encoding names. -/
theorem ofFunct3_spec (i : CsrInput) :
    match CsrOp.ofFunct3 i.funct3 with
    | some op => i.invOp = false ∧ (∀ old, i.csrOut old = op.eval old i.op1) ∧
        i.writeRequested = op.writes i.source
    | none => i.invOp = true ∧ i.writeRequested = false := by
  have hcases : ∀ f : BitVec 3, f = 0#3 ∨ f = 1#3 ∨ f = 2#3 ∨ f = 3#3 ∨ f = 4#3 ∨ f = 5#3 ∨
      f = 6#3 ∨ f = 7#3 := by decide
  rcases hcases i.funct3 with hf | hf | hf | hf | hf | hf | hf | hf <;>
    simp [hf, CsrOp.ofFunct3, CsrOp.funct3, List.find?, invOp, op, writeRequested, csrOut,
      CsrOp.eval, CsrOp.writes]

end CsrInput

namespace CsrUnit
variable {c : CoreConfig} {s : CsrUnit} {i : CsrInput}

theorem address_of_ofAddress {debug : Bool} {adr : BitVec 12} {n : CsrName}
    (h : CsrName.ofAddress debug adr = some n) :
    adr = n.address ∧ (n.isDebug = true → debug = true) := by
  have hn := List.find?_some h
  simp only [Bool.and_eq_true, decide_eq_true_eq, Bool.or_eq_true, Bool.not_eq_true'] at hn
  refine ⟨hn.1.symm, fun hd => ?_⟩
  rcases hn.2 with h | h
  · exact h
  · rw [h] at hd
    exact absurd hd Bool.false_ne_true

theorem ne_address_of_ofAddress {debug : Bool} {adr : BitVec 12}
    (h : CsrName.ofAddress debug adr = none) (n : CsrName) (hd : n.isDebug = true → debug = true) :
    adr ≠ n.address := by
  have hn := List.find?_eq_none.1 h n (by cases n <;> decide)
  rintro rfl
  cases hdn : n.isDebug <;> simp_all

/-- A CSR instruction writes the registers behind this name. -/
def stored (n : CsrName) : Bool :=
  n ≠ .misa && n ≠ .mcycle && n ≠ .mcycleh && !n.readOnly

theorem select_name {n : CsrName}
    (h : CsrName.ofAddress s.debug.isSome i.csrAdr = some n) :
    (s.csr.select c s.debug i).invReg = (n.readOnly && i.writeRequested) ∧
      ((n.readOnly && i.writeRequested) = false →
        (s.csr.select c s.debug i).csrIn = s.value c n) ∧
      (s.csr.select c s.debug i).csrWe = (stored n && (i.en && i.writeRequested)) ∧
      (s.csr.select c s.debug i).mcycleLowWe = (n = .mcycle && (i.en && i.writeRequested)) ∧
      (s.csr.select c s.debug i).mcycleHighWe = (n = .mcycleh && (i.en && i.writeRequested)) := by
  obtain ⟨hadr, hdebug⟩ := address_of_ofAddress h
  have hrw : i.rw = n.address.extractLsb' 10 2 := by rw [CsrInput.rw, hadr]
  have hpriv : i.priv = n.address.extractLsb' 8 2 := by rw [CsrInput.priv, hadr]
  have hreg : i.reg = n.address.extractLsb' 0 8 := by rw [CsrInput.reg, hadr]
  cases n
  case dcsr | dpc =>
    obtain ⟨d, hd⟩ := Option.isSome_iff_exists.1 (hdebug rfl)
    simp [CsrName.address] at hrw hpriv hreg
    simp [Csr.select, Csr.select.readDebug, DebugCsr.read, hd, hrw, hpriv, hreg, CsrAdr.dcsr,
      CsrAdr.dpc, CsrName.readOnly, CsrName.address, value, stored]
  all_goals
    simp [CsrName.address] at hrw hpriv hreg
    simp [Csr.select, hrw, hpriv, hreg, TrapCsr.read, CsrAdr.isa, CsrAdr.tvec, CsrAdr.scratch,
      CsrAdr.epc, CsrAdr.cause, CsrAdr.tval, CsrAdr.status, CsrAdr.vendorid, CsrAdr.archid,
      CsrAdr.hartid, CsrAdr.impid, CsrAdr.mbonfirecfg, CsrAdr.mcycle, CsrAdr.mcycleh,
      CsrName.readOnly, CsrName.address, value, stored]
  -- what is left are the read-only CSRs, where a write request is refused
  all_goals cases i.writeRequested <;> simp

theorem select_none (h : CsrName.ofAddress s.debug.isSome i.csrAdr = none)
    (halias : s.debug.isSome = true → i.csrAdr ≠ 0x3b0#12 ∧ i.csrAdr ≠ 0x3b1#12) :
    s.csr.select c s.debug i = { invReg := true } := by
  -- no address the group of the CSR and its low byte select is that of a CSR
  have hreg (n : CsrName) (hd : n.isDebug = true → s.debug.isSome = true)
      (hrw : i.rw = n.address.extractLsb' 10 2) (hpriv : i.priv = n.address.extractLsb' 8 2) :
      i.reg ≠ n.address.extractLsb' 0 8 := by
    intro hreg
    apply ne_address_of_ofAddress h n hd
    rw [← split_address i.csrAdr, ← split_address n.address, ← hrw, ← hpriv, ← hreg]
    rfl
  have hplain (n : CsrName) (hd : n.isDebug = false) :=
    hreg n fun h => absurd (hd.symm.trans h) Bool.false_ne_true
  have hread (h00 : i.rw = 0b00#2) (h3 : i.priv = 0b11#2) : s.csr.trap.read i.reg = none := by
    have htvec : i.reg ≠ CsrAdr.tvec := hplain .mtvec rfl h00 h3
    have hscratch : i.reg ≠ CsrAdr.scratch := hplain .mscratch rfl h00 h3
    have hepc : i.reg ≠ CsrAdr.epc := hplain .mepc rfl h00 h3
    have hcause : i.reg ≠ CsrAdr.cause := hplain .mcause rfl h00 h3
    have htval : i.reg ≠ CsrAdr.tval := hplain .mtval rfl h00 h3
    have hstatus : i.reg ≠ CsrAdr.status := hplain .mstatus rfl h00 h3
    simp only [TrapCsr.read, htvec, hscratch, hepc, hcause, htval, hstatus, if_false]
  have hdebug (h3 : i.priv = 0b11#2) (h01 : i.rw = 0b00#2 ∨ i.rw = 0b01#2) :
      Csr.select.readDebug s.debug i = { invReg := true } := by
    cases hd : s.debug with
    | none => rfl
    | some d =>
      rw [hd] at hreg halias
      have hdcsr : i.reg ≠ CsrAdr.dcsr := by
        rcases h01 with h00 | h01
        · intro hr
          apply (halias rfl).1
          rw [← split_address i.csrAdr]
          exact congrArg₂ _ (congrArg₂ _ h00 h3) hr
        · exact hreg .dcsr (fun _ => rfl) h01 h3
      have hdpc : i.reg ≠ CsrAdr.dpc := by
        rcases h01 with h00 | h01
        · intro hr
          apply (halias rfl).2
          rw [← split_address i.csrAdr]
          exact congrArg₂ _ (congrArg₂ _ h00 h3) hr
        · exact hreg .dpc (fun _ => rfl) h01 h3
      simp [Csr.select.readDebug, DebugCsr.read, hdcsr, hdpc]
  unfold Csr.select
  by_cases h3 : i.priv = 0b11#2
  · have hrw : ∀ r : BitVec 2, r = 0b11#2 ∨ r = 0b00#2 ∨ r = 0b10#2 ∨ r = 0b01#2 := by decide
    rcases hrw i.rw with hr | hr | hr | hr
    · have hvendor : i.reg ≠ CsrAdr.vendorid := hplain .mvendorid rfl hr h3
      have harch : i.reg ≠ CsrAdr.archid := hplain .marchid rfl hr h3
      have himp : i.reg ≠ CsrAdr.impid := hplain .mimpid rfl hr h3
      have hhart : i.reg ≠ CsrAdr.hartid := hplain .mhartid rfl hr h3
      have hcfg : i.reg ≠ CsrAdr.mbonfirecfg := hplain .mbonfirecfg rfl hr h3
      simp [h3, hr, hvendor, harch, himp, hhart, hcfg]
    · have hisa : i.reg ≠ CsrAdr.isa := hplain .misa rfl hr h3
      simp [h3, hr, hisa, hread hr h3, hdebug h3 (.inl hr)]
    · have hcycle : i.reg ≠ CsrAdr.mcycle := hplain .mcycle rfl hr h3
      have hcycleh : i.reg ≠ CsrAdr.mcycleh := hplain .mcycleh rfl hr h3
      simp [h3, hr, hcycle, hcycleh]
    · simp [h3, hr, hdebug h3 (.inr hr)]
  · simp [h3]

section Store
variable (new : Word)

theorem store_mstatus (mpie mie : Bool) :
    (BitVec.ofBool (new.getLsbD 7)).setWidth 32 <<< 7 |||
        (BitVec.ofBool (new.getLsbD 3)).setWidth 32 <<< 3 ||| 0x1800#32 =
      CsrName.mstatus.store ((BitVec.ofBool mpie).setWidth 32 <<< 7 |||
        (BitVec.ofBool mie).setWidth 32 <<< 3 ||| 0x1800#32) new := by
  apply BitVec.eq_of_getLsbD_eq
  intro k hk
  interval_cases k <;> simp [CsrName.store, CsrName.writable]

theorem getLsbD_append_zero (x : BitVec 30) (k : ℕ) :
    (x ++ 0#2 : Word).getLsbD k = if k < 2 then false else x.getLsbD (k - 2) :=
  BitVec.getLsbD_append.trans (by simp)

/-- The CSRs that hold an address without its low two bits. -/
theorem store_aligned {n : CsrName} (h : n.writable = 0xfffffffc#32) (old : BitVec 30) :
    new.extractLsb' 2 30 ++ 0#2 = n.store (old ++ 0#2) new := by
  apply BitVec.eq_of_getLsbD_eq
  intro k hk
  rw [CsrName.store, h, BitVec.getLsbD_or, BitVec.getLsbD_and, BitVec.getLsbD_and,
    getLsbD_append_zero, getLsbD_append_zero]
  interval_cases k <;> simp

theorem store_mcause (old : BitVec 6) :
    (new.setWidth 6).setWidth 32 = CsrName.mcause.store (old.setWidth 32) new := by
  apply BitVec.eq_of_getLsbD_eq
  intro k hk
  interval_cases k <;> simp [CsrName.store, CsrName.writable]

theorem store_all {n : CsrName} (h : n.writable = 0xffffffff#32) (old : Word) :
    new = n.store old new := by
  apply BitVec.eq_of_getLsbD_eq
  intro k hk
  rw [CsrName.store, h, BitVec.getLsbD_or, BitVec.getLsbD_and, BitVec.getLsbD_and]
  interval_cases k <;> simp

theorem store_dcsr (ebreakm step : Bool) (cause : BitVec 3) :
    0x40000000#32 ||| (BitVec.ofBool (new.getLsbD 15)).setWidth 32 <<< 15 |||
        cause.setWidth 32 <<< 6 ||| (BitVec.ofBool (new.getLsbD 2)).setWidth 32 <<< 2 ||| 3#32 =
      CsrName.dcsr.store (0x40000000#32 ||| (BitVec.ofBool ebreakm).setWidth 32 <<< 15 |||
        cause.setWidth 32 <<< 6 ||| (BitVec.ofBool step).setWidth 32 <<< 2 ||| 3#32) new := by
  apply BitVec.eq_of_getLsbD_eq
  intro k hk
  interval_cases k <;> simp [CsrName.store, CsrName.writable]

/-- A write behind one name changes the value of that name only. -/
theorem value_write {s' : CsrUnit} {m : CsrName} (hm : stored m = true)
    (hdebug : m.isDebug = true → s.debug.isSome = true)
    (htrap : s'.csr.trap = s.csr.trap.write (m.address.extractLsb' 0 8) new)
    (hd : s'.debug = s.debug.map (·.write (m.address.extractLsb' 0 8) new)) (n : CsrName)
    (hn : n ≠ .mcycle ∧ n ≠ .mcycleh) :
    s'.value c n = if m = n then n.store (s.value c n) new else s.value c n := by
  obtain ⟨hn1, hn2⟩ := hn
  have hnone (h : m.isDebug = false) : s'.debug = s.debug := by
    rw [hd]
    cases s.debug with
    | none => rfl
    | some d => cases m <;> first | rfl | exact absurd h (by decide)
  cases m
  case misa | mcycle | mcycleh | mvendorid | marchid | mimpid | mhartid | mbonfirecfg =>
    exact absurd hm (by decide)
  case mstatus =>
    have ht : s'.csr.trap = { s.csr.trap with mie := new.getLsbD 3, mpie := new.getLsbD 7 } := htrap
    cases n <;> simp only [value, ht, hnone rfl, reduceCtorEq, if_false, if_true]
    case mcycle => exact absurd rfl hn1
    case mcycleh => exact absurd rfl hn2
    exact store_mstatus new _ _
  case mtvec =>
    have ht : s'.csr.trap = { s.csr.trap with mtvec := new.extractLsb' 2 30 } := htrap
    cases n <;> simp only [value, ht, hnone rfl, reduceCtorEq, if_false, if_true]
    case mcycle => exact absurd rfl hn1
    case mcycleh => exact absurd rfl hn2
    exact store_aligned new rfl _
  case mscratch =>
    have ht : s'.csr.trap = { s.csr.trap with mscratch := new } := htrap
    cases n <;> simp only [value, ht, hnone rfl, reduceCtorEq, if_false, if_true]
    case mcycle => exact absurd rfl hn1
    case mcycleh => exact absurd rfl hn2
    exact store_all new rfl _
  case mepc =>
    have ht : s'.csr.trap = { s.csr.trap with mepc := new.extractLsb' 2 30 } := htrap
    cases n <;> simp only [value, ht, hnone rfl, reduceCtorEq, if_false, if_true]
    case mcycle => exact absurd rfl hn1
    case mcycleh => exact absurd rfl hn2
    exact store_aligned new rfl _
  case mcause =>
    have ht : s'.csr.trap = { s.csr.trap with mcause := new.setWidth 6 } := htrap
    cases n <;> simp only [value, ht, hnone rfl, reduceCtorEq, if_false, if_true]
    case mcycle => exact absurd rfl hn1
    case mcycleh => exact absurd rfl hn2
    exact store_mcause new _
  case mtval =>
    have ht : s'.csr.trap = { s.csr.trap with mtval := new } := htrap
    cases n <;> simp only [value, ht, hnone rfl, reduceCtorEq, if_false, if_true]
    case mcycle => exact absurd rfl hn1
    case mcycleh => exact absurd rfl hn2
    exact store_all new rfl _
  case dcsr =>
    obtain ⟨d, hs⟩ := Option.isSome_iff_exists.1 (hdebug rfl)
    have ht : s'.csr.trap = s.csr.trap := htrap
    have hs' : s'.debug = some { d with ebreakm := new.getLsbD 15, step := new.getLsbD 2 } := by
      rw [hd, hs]
      rfl
    cases n <;> simp only [value, ht, hs, hs', Option.getD_some, reduceCtorEq, if_false, if_true]
    case mcycle => exact absurd rfl hn1
    case mcycleh => exact absurd rfl hn2
    exact store_dcsr new _ _ _
  case dpc =>
    obtain ⟨d, hs⟩ := Option.isSome_iff_exists.1 (hdebug rfl)
    have ht : s'.csr.trap = s.csr.trap := htrap
    have hs' : s'.debug = some { d with dpc := new.extractLsb' 2 30 } := by
      rw [hd, hs]
      rfl
    cases n <;> simp only [value, ht, hs, hs', Option.getD_some, reduceCtorEq, if_false, if_true]
    case mcycle => exact absurd rfl hn1
    case mcycleh => exact absurd rfl hn2
    exact store_aligned new rfl _

end Store

theorem step_of_not_write (h : (s.csr.select c s.debug i).csrWe = false) :
    (s.step c i).csr.trap = s.csr.trap ∧ (s.step c i).debug = s.debug := by
  constructor
  · simp [step, Csr.step, h, TrapCsr.update]
  · cases hd : s.debug with
    | none => simp [step, hd]
    | some d =>
      rw [hd] at h
      simp [step, hd, Csr.stepDebug, h, DebugCsr.update]

theorem value_congr {s' : CsrUnit} (ht : s'.csr.trap = s.csr.trap) (hd : s'.debug = s.debug)
    (n : CsrName) (hn : n ≠ .mcycle ∧ n ≠ .mcycleh) : s'.value c n = s.value c n := by
  cases n <;> simp only [value, ht, hd]
  case mcycle => exact absurd rfl hn.1
  case mcycleh => exact absurd rfl hn.2

/-- Nothing is written: the file keeps its values and the counter goes on. -/
theorem Conforms.of_rejected (ha : s.accepted i = none)
    (hout : (s.out c i).invalidOp = i.en ∧ (s.out c i).valid = false)
    (hwe : (s.csr.select c s.debug i).csrWe = false ∧
      (s.csr.select c s.debug i).mcycleLowWe = false ∧
      (s.csr.select c s.debug i).mcycleHighWe = false) : s.Conforms c i where
  rejects := by simp [ha, hout]
  completes := by simp [ha, hout]
  returns op n h := by simp [ha] at h
  stores n h1 h2 := by
    obtain ⟨ht, hd⟩ := step_of_not_write hwe.1
    simpa [written, ha] using value_congr ht hd n ⟨h1, h2⟩
  counts := by simp [written, ha, step, Csr.step, hwe]

theorem Conforms.of_accepted {op : CsrOp} {n : CsrName} (hen : i.en = true)
    (hop : CsrOp.ofFunct3 i.funct3 = some op)
    (hn : CsrName.ofAddress s.debug.isSome i.csrAdr = some n)
    (hro : (n.readOnly && op.writes i.source) = false) : s.Conforms c i := by
  have hspec := i.ofFunct3_spec
  rw [hop] at hspec
  obtain ⟨hinv, heval, hreq⟩ := hspec
  have ha : s.accepted i = some (op, n) := by simp [accepted, hen, hop, hn, hro]
  obtain ⟨hreg, hin, hwe, hlow, hhigh⟩ := select_name (c := c) hn
  rw [hreq] at hreg hin hwe hlow hhigh
  rw [hen, Bool.true_and] at hwe hlow hhigh
  have hnew : s.csr.csrOut c s.debug i = op.eval (s.value c n) i.op1 := by
    rw [Csr.csrOut, hin hro, heval]
  constructor
  · simp [out, Csr.out, hinv, hreg, hro, ha]
  · simp [out, Csr.out, hinv, hreg, hro, ha, hen]
  · intro op' n' h
    rw [ha] at h
    cases h
    exact hin hro
  · intro m h1 h2
    cases hw : op.writes i.source with
    | false =>
      obtain ⟨ht, hd⟩ := step_of_not_write (c := c) (s := s) (i := i) (by simp [hwe, hw])
      simpa [written, ha, hw] using value_congr ht hd m ⟨h1, h2⟩
    | true =>
      have hwritten : s.written c i = some (n, op.eval (s.value c n) i.op1) := by
        simp [written, ha, hw]
      rw [hwritten]
      cases hst : stored n with
      | true =>
        have hadr := (address_of_ofAddress hn).1
        have hwe' : (s.csr.select c s.debug i).csrWe = true := by simp [hwe, hst, hw]
        apply value_write _ hst (address_of_ofAddress hn).2
        · rw [← hadr, ← hnew]
          show (if (s.csr.select c s.debug i).csrWe then _ else _) = _
          rw [if_pos hwe']
          rfl
        · rw [← hadr, ← hnew]
          cases hd : s.debug with
          | none => simp [step, hd]
          | some d =>
            rw [hd] at hwe'
            simp only [step, hd, Option.map_some, Csr.stepDebug, if_pos hwe']
            rfl
        · exact ⟨h1, h2⟩
      | false =>
        obtain ⟨ht, hd⟩ := step_of_not_write (c := c) (s := s) (i := i) (by simp [hwe, hst])
        show (s.step c i).value c m = if n = m then m.store (s.value c m) _ else s.value c m
        rw [value_congr ht hd m ⟨h1, h2⟩]
        split_ifs with hnm
        · subst hnm
          have hmisa : n = .misa := by
            rw [hw, Bool.and_true] at hro
            simpa [stored, h1, h2, hro] using hst
          rw [hmisa, CsrName.store]
          simp only [CsrName.writable, BitVec.ofNat_eq_ofNat, BitVec.and_zero, BitVec.not_zero,
            BitVec.and_allOnes, BitVec.zero_or]
        · rfl
  · have hcount : (s.step c i).csr.mcycle =
        if n = .mcycle && op.writes i.source then s.value c .mcycleh ++ op.eval (s.value c n) i.op1
        else if n = .mcycleh && op.writes i.source then
          op.eval (s.value c n) i.op1 ++ s.value c .mcycle
        else s.csr.mcycle + 1 := by
      rw [← hnew, ← hlow, ← hhigh]
      rfl
    rw [hcount, written, ha]
    cases hw : op.writes i.source with
    | false => simp [hw]
    | true => cases n <;> simp [hw]

theorem conforms_of_not_aliased (h : ¬ s.Aliased i) : s.Conforms c i := by
  have hspec := i.ofFunct3_spec
  cases hen : i.en with
  | false =>
    exact .of_rejected (by simp [accepted, hen]) (by simp [out, Csr.out, hen]) (Csr.select_en hen)
  | true =>
    cases hop : CsrOp.ofFunct3 i.funct3 with
    | none =>
      rw [hop] at hspec
      exact .of_rejected (by simp [accepted, hen, hop]) (by simp [out, Csr.out, hen, hspec.1])
        (Csr.select_unrequested (by simp [hspec.2]))
    | some op =>
      rw [hop] at hspec
      cases hn : CsrName.ofAddress s.debug.isSome i.csrAdr with
      | none =>
        have hsel : s.csr.select c s.debug i = { invReg := true } := by
          apply select_none hn
          intro hd
          constructor <;> intro hadr
          · exact h ⟨hd, hen, hspec.1, .inl hadr⟩
          · exact h ⟨hd, hen, hspec.1, .inr hadr⟩
        exact .of_rejected (by simp [accepted, hen, hop, hn]) (by simp [out, Csr.out, hen, hsel])
          (by simp [hsel])
      | some n =>
        cases hro : n.readOnly && op.writes i.source with
        | true =>
          obtain ⟨hreg, -, hwe, hlow, hhigh⟩ := select_name (c := c) hn
          have hr : n.readOnly = true := (Bool.and_eq_true _ _ ▸ hro).1
          rw [hspec.2.2, hro] at hreg
          have hst : stored n = false := by simp [stored, hr]
          refine .of_rejected ?_ (by simp [out, Csr.out, hen, hreg]) ?_
          · rw [accepted, if_pos hen, hop, hn]
            exact if_pos hro
          · refine ⟨by simp [hwe, hst], ?_, ?_⟩
            · cases n <;> first | exact absurd hr (by decide) | simp [hlow]
            · cases n <;> first | exact absurd hr (by decide) | simp [hhigh]
        | false => exact .of_accepted hen hop hn hro

/-- Whatever is not an alias of a debug CSR is decoded as the address it is. -/
theorem conforms_iff : s.Conforms c i ↔ ¬ s.Aliased i := by
  refine ⟨?_, conforms_of_not_aliased⟩
  rintro h ⟨hd, hen, hinv, hadr⟩
  obtain ⟨d, hd⟩ := Option.isSome_iff_exists.1 hd
  have hsel : (s.csr.select c s.debug i).invReg = false := by
    have hrw : i.rw = 0b00#2 := by rcases hadr with h | h <;> rw [CsrInput.rw, h] <;> rfl
    have hpriv : i.priv = 0b11#2 := by rcases hadr with h | h <;> rw [CsrInput.priv, h] <;> rfl
    have hreg : i.reg = CsrAdr.dcsr ∨ i.reg = CsrAdr.dpc := by
      rcases hadr with h | h
      · exact .inl (by rw [CsrInput.reg, h]; rfl)
      · exact .inr (by rw [CsrInput.reg, h]; rfl)
    rcases hreg with hreg | hreg <;>
      simp [Csr.select, Csr.select.readDebug, hrw, hpriv, hreg, hd, TrapCsr.read, DebugCsr.read,
        CsrAdr.isa, CsrAdr.tvec, CsrAdr.scratch, CsrAdr.epc, CsrAdr.cause, CsrAdr.tval,
        CsrAdr.status, CsrAdr.dcsr, CsrAdr.dpc]
  have hname : CsrName.ofAddress s.debug.isSome i.csrAdr = none := by
    rw [hd, Option.isSome_some]
    rcases hadr with h | h <;> rw [h] <;> decide
  have ha : s.accepted i = none := by
    rw [accepted, if_pos hen, hname]
    cases CsrOp.ofFunct3 i.funct3 <;> rfl
  have hrej := h.rejects
  simp [out, Csr.out, hinv, hsel, ha, hen] at hrej

/-- A sequence of CSR operations keeps to the file exactly as long as no operation reaches
a debug CSR through its alias. -/
theorem csr_file_iff (c : CoreConfig) (debug : Bool) (is : List CsrInput) :
    (machine c debug).Along (Conforms c) (machine c debug).init is ↔
      (machine c debug).Along (fun s i => ¬ s.Aliased i) (machine c debug).init is :=
  Clocked.along_congr fun _ _ => conforms_iff

/-- CSRRW of x6 to the address 0x3b1 sets `dpc`. -/
theorem dpc_aliased :
    ¬ (machine defaultConfig true).Along (Conforms defaultConfig)
      (machine defaultConfig true).init [⟨1, 0x80, 0x3b1, 6, true⟩] := by
  intro h
  have hrej := h.1.rejects
  revert hrej
  decide

end CsrUnit
end BonfireCore
