import BonfireCore.BitArith
import BonfireCore.Csr

/-! The 64-bit cycle counter, which the monitor reads and resets in halves. -/
namespace BonfireCore

/-- A cycle of the CSR unit. -/
structure CsrCycle where
  debug : Option DebugCsr := none
  input : CsrInput
  update : TrapCsrUpdate := {}

/-- No machine counter is written. -/
def CsrCycle.Quiet (k : CsrCycle) : Prop :=
  (k.input.en && k.input.writeRequested) = false ∨ k.input.rw ≠ 0b10#2

/-- What the core does before each CSR instruction of the monitor, and in its cycle. -/
structure CsrBus where
  others : ℕ → List CsrCycle
  debug : ℕ → Option DebugCsr := fun _ => none
  update : ℕ → TrapCsrUpdate := fun _ => {}

/-- The CSR unit under the monitor, with the cycles gone by. -/
structure CsrHost where
  csr : Csr := {}
  accesses : ℕ := 0
  clock : ℕ := 0

def csrr (adr : BitVec 12) : CsrInput :=
  { funct3 := 0b010, op1 := 0, csrAdr := adr, source := 0, en := true }

def csrw (adr : BitVec 12) (rs1 : BitVec 5) (value : Word) : CsrInput :=
  { funct3 := 0b001, op1 := value, csrAdr := adr, source := rs1, en := true }

def Csr.pass (c : CoreConfig) (s : Csr) (ks : List CsrCycle) : Csr :=
  ks.foldl (fun s k => s.step c k.debug k.input k.update) s

namespace CsrHost
variable (c : CoreConfig) (w : CsrBus)

def access (i : CsrInput) (s : CsrHost) : Word × CsrHost :=
  let csr := s.csr.pass c (w.others s.accesses)
  ((csr.out c (w.debug s.accesses) i).result,
    { csr := csr.step c (w.debug s.accesses) i (w.update s.accesses)
      accesses := s.accesses + 1
      clock := s.clock + (w.others s.accesses).length + 1 })

def readMcycleLow (s : CsrHost) : Word × CsrHost := s.access c w (csrr 0xb00)

def readMcycleHigh (s : CsrHost) : Word × CsrHost := s.access c w (csrr 0xb80)

/-- `read_mcycle`, with fuel for its loop: high, low. -/
def readMcycle : ℕ → CsrHost → Option (Word × Word × CsrHost)
  | 0, _ => none
  | fuel + 1, s =>
    let before := s.readMcycleHigh c w
    let low := before.2.readMcycleLow c w
    let after := low.2.readMcycleHigh c w
    if before.1 = after.1 then some (after.1, low.1, after.2) else readMcycle fuel after.2

/-- The three instructions of `reset_mcycle`; the first has its operand in `rs1`. -/
def resetMcycle (rs1 : BitVec 5) (s : CsrHost) : CsrHost :=
  (((s.access c w (csrw 0xb00 rs1 0xffffffff)).2.access c w (csrw 0xb80 0 0)).2.access c w
    (csrw 0xb00 0 0)).2

end CsrHost

namespace Csr
variable {c : CoreConfig} {s : Csr} {debug : Option DebugCsr} {i : CsrInput}

theorem select_low (hadr : i.csrAdr = 0xb00#12) : s.select c debug i =
    { csrIn := s.mcycle.extractLsb' 0 32, mcycleLowWe := i.en && i.writeRequested } := by
  have hpriv : i.priv = 0b11#2 := by rw [CsrInput.priv, hadr]; decide
  have hrw : i.rw = 0b10#2 := by rw [CsrInput.rw, hadr]; decide
  have hreg : i.reg = CsrAdr.mcycle := by rw [CsrInput.reg, hadr]; decide
  simp [select, hpriv, hrw, hreg]

theorem select_high (hadr : i.csrAdr = 0xb80#12) : s.select c debug i =
    { csrIn := s.mcycle.extractLsb' 32 32, mcycleHighWe := i.en && i.writeRequested } := by
  have hpriv : i.priv = 0b11#2 := by rw [CsrInput.priv, hadr]; decide
  have hrw : i.rw = 0b10#2 := by rw [CsrInput.rw, hadr]; decide
  have hreg : i.reg = CsrAdr.mcycleh := by rw [CsrInput.reg, hadr]; decide
  simp [select, hpriv, hrw, hreg, CsrAdr.mcycle, CsrAdr.mcycleh]

theorem select_group (h : i.rw ≠ 0b10#2) : (s.select c debug i).mcycleLowWe = false ∧
    (s.select c debug i).mcycleHighWe = false := by
  unfold select select.readDebug
  split_ifs
  all_goals first
    | exact ⟨rfl, rfl⟩
    | contradiction
    | (cases s.trap.read i.reg <;> cases debug.bind (·.read i.reg) <;> exact ⟨rfl, rfl⟩)

/-- The counter counts. -/
theorem mcycle_quiet {k : CsrCycle} (h : k.Quiet) :
    (s.step c k.debug k.input k.update).mcycle = s.mcycle + 1 := by
  have hwe : (s.select c k.debug k.input).mcycleLowWe = false ∧
      (s.select c k.debug k.input).mcycleHighWe = false := by
    rcases h with h | h
    · exact (select_unrequested h).2
    · exact select_group h
  rw [step, hwe.1, hwe.2]
  rfl

theorem mcycle_pass {ks : List CsrCycle} (h : ∀ k ∈ ks, k.Quiet) :
    (s.pass c ks).mcycle = s.mcycle + BitVec.ofNat 64 ks.length := by
  induction ks generalizing s with
  | nil => exact (BitVec.add_zero _).symm
  | cons k ks ih =>
    have hrest := ih (s := s.step c k.debug k.input k.update) fun j hj =>
      h j (List.mem_cons_of_mem k hj)
    rw [mcycle_quiet (h k List.mem_cons_self)] at hrest
    refine hrest.trans ?_
    rw [List.length_cons, Nat.add_comm ks.length 1, BitVec.ofNat_add, ← BitVec.add_assoc]
    rfl

end Csr

namespace CsrHost
variable {c : CoreConfig} {w : CsrBus} (hquiet : ∀ n, ∀ k ∈ w.others n, k.Quiet) (s : CsrHost)

/-- The cycles before the next access. -/
def gap (w : CsrBus) (s : CsrHost) : ℕ := (w.others s.accesses).length

include hquiet

theorem mcycle_others : (s.csr.pass c (w.others s.accesses)).mcycle =
    s.csr.mcycle + BitVec.ofNat 64 (s.gap w) := Csr.mcycle_pass (hquiet s.accesses)

/-- An access that does not write the counter. -/
theorem mcycle_access {i : CsrInput} (h : i.writeRequested = false) :
    (s.access c w i).2.csr.mcycle = s.csr.mcycle + BitVec.ofNat 64 (s.gap w + 1) := by
  have hread : CsrCycle.Quiet ⟨w.debug s.accesses, i, w.update s.accesses⟩ :=
    .inl (by rw [h, Bool.and_false])
  refine (Csr.mcycle_quiet hread).trans ?_
  rw [mcycle_others hquiet, BitVec.add_assoc, BitVec.ofNat_add]
  rfl

theorem readMcycleLow_eq : (s.readMcycleLow c w).1 =
    (s.csr.mcycle + BitVec.ofNat 64 (s.gap w)).extractLsb' 0 32 := by
  rw [← mcycle_others (c := c) hquiet]
  show ((s.csr.pass c (w.others s.accesses)).select c (w.debug s.accesses) (csrr 0xb00)).csrIn = _
  rw [Csr.select_low rfl]

theorem readMcycleHigh_eq : (s.readMcycleHigh c w).1 =
    (s.csr.mcycle + BitVec.ofNat 64 (s.gap w)).extractLsb' 32 32 := by
  rw [← mcycle_others (c := c) hquiet]
  show ((s.csr.pass c (w.others s.accesses)).select c (w.debug s.accesses) (csrr 0xb80)).csrIn = _
  rw [Csr.select_high rfl]

omit hquiet in
variable (c w) in
/-- After the three reads of a turn. -/
def afterTurn : CsrHost := (((s.readMcycleHigh c w).2.readMcycleLow c w).2.readMcycleHigh c w).2

omit hquiet in
variable (c w) in
/-- The cycles from the first read of a turn to its second. -/
def toLow : ℕ := (s.readMcycleHigh c w).2.gap w + 1

omit hquiet in
variable (c w) in
/-- And to its third. -/
def toAfter : ℕ := s.toLow c w + (((s.readMcycleHigh c w).2.readMcycleLow c w).2.gap w + 1)

omit hquiet in
theorem toNat_high (m : BitVec 64) (n : ℕ) : ((m + BitVec.ofNat 64 n).extractLsb' 32 32).toNat =
    (m.toNat + n) % 2 ^ 64 / 2 ^ 32 := by
  rw [BitVec.extractLsb'_toNat, Nat.shiftRight_eq_div_pow, BitVec.toNat_add, BitVec.toNat_ofNat]
  omega

omit hquiet in
theorem toNat_low (m : BitVec 64) (n : ℕ) : ((m + BitVec.ofNat 64 n).extractLsb' 0 32).toNat =
    (m.toNat + n) % 2 ^ 64 % 2 ^ 32 := by
  rw [BitVec.extractLsb'_toNat, Nat.shiftRight_zero, BitVec.toNat_add, BitVec.toNat_ofNat]
  omega

theorem low_eq : ((s.readMcycleHigh c w).2.readMcycleLow c w).1 =
    (s.csr.mcycle + BitVec.ofNat 64 (s.gap w + s.toLow c w)).extractLsb' 0 32 := by
  have hfirst : (s.readMcycleHigh c w).2.csr.mcycle = _ := mcycle_access hquiet s rfl
  rw [readMcycleLow_eq hquiet, hfirst, BitVec.add_assoc, ← BitVec.ofNat_add, toLow]
  congr 3
  omega

theorem mcycle_toAfter : ((s.readMcycleHigh c w).2.readMcycleLow c w).2.csr.mcycle =
    s.csr.mcycle + BitVec.ofNat 64 (s.gap w + s.toLow c w + 1) := by
  have hfirst : (s.readMcycleHigh c w).2.csr.mcycle = _ := mcycle_access hquiet s rfl
  have hsecond : ((s.readMcycleHigh c w).2.readMcycleLow c w).2.csr.mcycle = _ :=
    mcycle_access hquiet (s.readMcycleHigh c w).2 rfl
  rw [hsecond, hfirst, BitVec.add_assoc, ← BitVec.ofNat_add, toLow]
  congr 2
  omega

theorem after_eq : (((s.readMcycleHigh c w).2.readMcycleLow c w).2.readMcycleHigh c w).1 =
    (s.csr.mcycle + BitVec.ofNat 64 (s.gap w + s.toAfter c w)).extractLsb' 32 32 := by
  rw [readMcycleHigh_eq hquiet, mcycle_toAfter hquiet, BitVec.add_assoc, ← BitVec.ofNat_add,
    toAfter]
  congr 3
  omega

theorem mcycle_afterTurn : (s.afterTurn c w).csr.mcycle =
    s.csr.mcycle + BitVec.ofNat 64 (s.gap w + s.toAfter c w + 1) := by
  have hthird : (s.afterTurn c w).csr.mcycle = _ :=
    mcycle_access hquiet ((s.readMcycleHigh c w).2.readMcycleLow c w).2 rfl
  rw [hthird, mcycle_toAfter hquiet, BitVec.add_assoc, ← BitVec.ofNat_add, toAfter]
  congr 2
  omega

omit hquiet in
theorem clock_afterTurn : (s.afterTurn c w).clock = s.clock + s.gap w + s.toAfter c w + 1 := by
  show s.clock + (s.gap w + 1) + ((s.readMcycleHigh c w).2.gap w + 1) +
    (((s.readMcycleHigh c w).2.readMcycleLow c w).2.gap w + 1) = _
  rw [toAfter, toLow]
  omega

/-- The two reads of the high half agree. -/
theorem before_eq_after : (s.readMcycleHigh c w).1 =
      (((s.readMcycleHigh c w).2.readMcycleLow c w).2.readMcycleHigh c w).1 ↔
    (s.csr.mcycle.toNat + s.gap w) % 2 ^ 64 / 2 ^ 32 =
      (s.csr.mcycle.toNat + (s.gap w + s.toAfter c w)) % 2 ^ 64 / 2 ^ 32 := by
  rw [readMcycleHigh_eq hquiet, after_eq hquiet, BitVec.toNat_eq, toNat_high, toNat_high]

/-- A turn that ends the loop has read a value of the counter. -/
theorem readMcycle_turn (fuel : ℕ) (hshort : s.toAfter c w ≤ 2 ^ 32)
    (hsame : (s.csr.mcycle.toNat + s.gap w) % 2 ^ 64 / 2 ^ 32 =
      (s.csr.mcycle.toNat + (s.gap w + s.toAfter c w)) % 2 ^ 64 / 2 ^ 32) :
    ∃ high low, readMcycle c w (fuel + 1) s = some (high, low, s.afterTurn c w) ∧
      high ++ low = s.csr.mcycle + BitVec.ofNat 64 (s.gap w + s.toLow c w) := by
  refine ⟨_, _, if_pos ((before_eq_after hquiet s).2 hsame), ?_⟩
  have hle : s.toLow c w ≤ s.toAfter c w := Nat.le_add_right _ _
  have hlt := s.csr.mcycle.isLt
  apply BitVec.eq_of_toNat_eq
  rw [toNat_append_eq, low_eq hquiet, after_eq hquiet, toNat_high, toNat_low, BitVec.toNat_add,
    BitVec.toNat_ofNat]
  omega

/-- After a turn with a carry comes one without, as long as the next carry is far away. -/
theorem agrees_next (hcarry : ¬ (s.csr.mcycle.toNat + s.gap w) % 2 ^ 64 / 2 ^ 32 =
      (s.csr.mcycle.toNat + (s.gap w + s.toAfter c w)) % 2 ^ 64 / 2 ^ 32)
    (hshort : s.toAfter c w + 1 + (s.afterTurn c w).gap w + (s.afterTurn c w).toAfter c w ≤
      2 ^ 32) :
    ((s.afterTurn c w).csr.mcycle.toNat + (s.afterTurn c w).gap w) % 2 ^ 64 / 2 ^ 32 =
      ((s.afterTurn c w).csr.mcycle.toNat +
        ((s.afterTurn c w).gap w + (s.afterTurn c w).toAfter c w)) % 2 ^ 64 / 2 ^ 32 := by
  have hlt := s.csr.mcycle.isLt
  have hnat : (s.afterTurn c w).csr.mcycle.toNat =
      (s.csr.mcycle.toNat + (s.gap w + s.toAfter c w + 1)) % 2 ^ 64 := by
    rw [mcycle_afterTurn hquiet, BitVec.toNat_add, BitVec.toNat_ofNat]
    omega
  rw [hnat]
  omega

/-- No value is torn: what the monitor reads is the counter at a time during the reads, and the
loop takes two turns at most. -/
theorem readMcycle_consistent (hgap : ∀ n, 5 * ((w.others n).length + 1) ≤ 2 ^ 32) (fuel : ℕ)
    (hfuel : 2 ≤ fuel) : ∃ high low d t, readMcycle c w fuel s = some (high, low, d) ∧
      d.accesses ≤ s.accesses + 6 ∧ s.clock ≤ t ∧ t < d.clock ∧
      high ++ low = s.csr.mcycle + BitVec.ofNat 64 (t - s.clock) := by
  obtain ⟨fuel, rfl⟩ := Nat.exists_eq_add_of_le' hfuel
  have hle (s : CsrHost) : s.toLow c w ≤ s.toAfter c w := Nat.le_add_right _ _
  have hturn (s : CsrHost) : 5 * s.toAfter c w ≤ 2 * 2 ^ 32 := by
    have h1 := hgap (s.readMcycleHigh c w).2.accesses
    have h2 := hgap ((s.readMcycleHigh c w).2.readMcycleLow c w).2.accesses
    simp only [toAfter, toLow, gap]
    omega
  have hfirst := hturn s
  by_cases hsame : (s.csr.mcycle.toNat + s.gap w) % 2 ^ 64 / 2 ^ 32 =
      (s.csr.mcycle.toNat + (s.gap w + s.toAfter c w)) % 2 ^ 64 / 2 ^ 32
  · obtain ⟨high, low, hread, hvalue⟩ := readMcycle_turn hquiet s (fuel + 1) (by omega)
      hsame
    have hthree : (s.afterTurn c w).accesses = s.accesses + 3 := rfl
    refine ⟨high, low, s.afterTurn c w, s.clock + (s.gap w + s.toLow c w), hread, by omega,
      Nat.le_add_right _ _, ?_, ?_⟩
    · have h := hle s
      rw [clock_afterTurn]
      omega
    · rw [hvalue, Nat.add_sub_cancel_left]
  · have hnext := hturn (s.afterTurn c w)
    have hwait := hgap (s.afterTurn c w).accesses
    have hmcycle := mcycle_afterTurn (c := c) hquiet s
    have hwait : 5 * ((s.afterTurn c w).gap w + 1) ≤ 2 ^ 32 := hwait
    have hsame' := agrees_next hquiet s hsame (by omega)
    obtain ⟨high, low, hread, hvalue⟩ := readMcycle_turn hquiet (s.afterTurn c w) fuel
      (by omega) hsame'
    refine ⟨high, low, (s.afterTurn c w).afterTurn c w,
      (s.afterTurn c w).clock + ((s.afterTurn c w).gap w + (s.afterTurn c w).toLow c w),
      (if_neg ((before_eq_after hquiet s).not.2 hsame)).trans hread, le_rfl, ?_, ?_, ?_⟩
    · rw [clock_afterTurn]
      omega
    · have h := hle (s.afterTurn c w)
      rw [clock_afterTurn (s.afterTurn c w)]
      omega
    · rw [hvalue, hmcycle, BitVec.add_assoc, ← BitVec.ofNat_add, clock_afterTurn]
      congr 2
      omega

omit hquiet s in
/-- A carry between the reads: the first turn is repeated. -/
theorem readMcycle_consistent_carry :
    let w : CsrBus := { others := fun _ => [{ input := { csrr 0xb00 with en := false } }] }
    ∃ high low d t, readMcycle {} w 2 { csr := { mcycle := 0xfffffffd } } = some (high, low, d) ∧
      d.accesses ≤ 0 + 6 ∧ 0 ≤ t ∧ t < d.clock ∧
      high ++ low = 0xfffffffd#64 + BitVec.ofNat 64 (t - 0) := by
  intro w
  have hquiet (n : ℕ) : ∀ k ∈ w.others n, k.Quiet := fun k hk => by
    rw [List.mem_singleton.1 hk]
    exact .inl rfl
  exact readMcycle_consistent hquiet { csr := { mcycle := 0xfffffffd } }
    (fun n => by show 5 * 2 ≤ 2 ^ 32; decide) 2 le_rfl

theorem mcycle_writeLow (rs1 : BitVec 5) (v : Word) :
    (s.access c w (csrw 0xb00 rs1 v)).2.csr.mcycle =
      (s.csr.mcycle + BitVec.ofNat 64 (s.gap w)).extractLsb' 32 32 ++ v := by
  rw [← mcycle_others (c := c) hquiet]
  show (Csr.step c _ (w.debug s.accesses) (csrw 0xb00 rs1 v) (w.update s.accesses)).mcycle = _
  rw [Csr.step, Csr.csrOut, Csr.select_low rfl]
  rfl

theorem mcycle_writeHigh (rs1 : BitVec 5) (v : Word) :
    (s.access c w (csrw 0xb80 rs1 v)).2.csr.mcycle =
      v ++ (s.csr.mcycle + BitVec.ofNat 64 (s.gap w)).extractLsb' 0 32 := by
  rw [← mcycle_others (c := c) hquiet]
  show (Csr.step c _ (w.debug s.accesses) (csrw 0xb80 rs1 v) (w.update s.accesses)).mcycle = _
  rw [Csr.step, Csr.csrOut, Csr.select_high rfl]
  rfl

/-- The low half is to overflow before the high half is cleared. Where the two writes come in
successive cycles it does so after, if the third write is not the next again. -/
theorem resetMcycle_eq (rs1 : BitVec 5)
    (hgap : (w.others (s.accesses + 1)).length + (w.others (s.accesses + 2)).length ≤ 2 ^ 32) :
    (s.resetMcycle c w rs1).csr.mcycle =
      if w.others (s.accesses + 1) = [] ∧ w.others (s.accesses + 2) ≠ [] then 2 ^ 32 else 0 := by
  let s1 := (s.access c w (csrw 0xb00 rs1 0xffffffff)).2
  let s2 := (s1.access c w (csrw 0xb80 0 0)).2
  have h1 := mcycle_writeLow (c := c) hquiet s rs1 0xffffffff
  have h2 := mcycle_writeHigh (c := c) hquiet s1 0 0
  have h3 := mcycle_writeLow (c := c) hquiet s2 0 0
  have hg1 : s1.gap w = (w.others (s.accesses + 1)).length := rfl
  have hg2 : s2.gap w = (w.others (s.accesses + 2)).length := rfl
  have hlow1 : s1.csr.mcycle.toNat % 2 ^ 32 = 2 ^ 32 - 1 := by
    rw [h1, toNat_append_eq, Nat.mul_comm, Nat.mul_add_mod]
    rfl
  have hlow2 : s2.csr.mcycle.toNat = (2 ^ 32 - 1 + s1.gap w) % 2 ^ 32 := by
    have hlt := s1.csr.mcycle.isLt
    rw [h2, toNat_append_eq, toNat_low]
    show 0 * 2 ^ 32 + _ = _
    omega
  have hnil (l : List CsrCycle) : l = [] ↔ l.length = 0 := List.length_eq_zero_iff.symm
  refine h3.trans (BitVec.eq_of_toNat_eq ?_)
  rw [toNat_append_eq, toNat_high, hlow2, hg1, hg2]
  split_ifs with hcarry
  · rw [ne_eq, hnil, hnil] at hcarry
    show _ * 2 ^ 32 + 0 = 2 ^ 32
    omega
  · rw [ne_eq, hnil, hnil] at hcarry
    show _ * 2 ^ 32 + 0 = 0
    omega

omit hquiet s in
theorem resetMcycle_eq_stall :
    let w : CsrBus :=
      { others := fun n => if n = 2 then [{ input := { csrr 0xb00 with en := false } }] else [] }
    (resetMcycle {} w 5 {}).csr.mcycle = 2 ^ 32 := by
  intro w
  have hquiet (n : ℕ) : ∀ k ∈ w.others n, k.Quiet := fun k hk => by
    have hk : k ∈ if n = 2 then [_] else [] := hk
    split_ifs at hk
    · rw [List.mem_singleton.1 hk]
      exact .inl rfl
    · exact absurd hk List.not_mem_nil
  refine (resetMcycle_eq hquiet {} 5 (by show 0 + 1 ≤ 2 ^ 32; decide)).trans (if_pos ⟨rfl, ?_⟩)
  exact List.cons_ne_nil _ _

end CsrHost
end BonfireCore
