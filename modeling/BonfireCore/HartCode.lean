import BonfireCore.Hart

/-! Code in the memory of a hart: what its instructions make of the state, and runs through a
piece of code with a condition on the accesses it makes. -/
namespace BonfireCore

open Rv32i (Instr Access LoadKind StoreKind Bytes Reg)

namespace Hart

section Updates
variable (h : Hart) (r : Reg) (adr v pc : Word)

def set : Hart := { h with regs := if r = 0 then h.regs else Function.update h.regs r v }

def goto : Hart := { h with pc := pc }

/-- A word is stored. -/
def put : Hart := { h with mem := (Access.store .sw adr v).write h.mem }

@[simp] theorem goto_reg (x : Reg) : (h.goto pc).reg x = h.reg x := rfl

@[simp] theorem put_reg (x : Reg) : (h.put adr v).reg x = h.reg x := rfl

theorem set_regs_of_ne (hr : r ≠ 0) : (h.set r v).regs = Function.update h.regs r v := if_neg hr

theorem set_zero : h.set 0 v = h := rfl

theorem set_reg (hr : r ≠ 0) (x : Reg) : (h.set r v).reg x = if x = r then v else h.reg x := by
  rw [reg, set_regs_of_ne h r v hr]
  by_cases hx : x = r
  · rw [if_pos hx, hx, if_neg hr, Function.update_self]
  · rw [if_neg hx, Function.update_of_ne hx]
    rfl

@[simp] theorem goto_goto (pc' : Word) : (h.goto pc).goto pc' = h.goto pc' := rfl

@[simp] theorem goto_set : (h.goto pc).set r v = (h.set r v).goto pc := rfl

@[simp] theorem goto_put : (h.goto pc).put adr v = (h.put adr v).goto pc := rfl

@[simp] theorem set_put (w : Word) : (h.set r v).put adr w = (h.put adr w).set r v := rfl

@[simp] theorem set_set (w : Word) : (h.set r v).set r w = h.set r w := by
  unfold set
  split_ifs with hr <;> simp [Function.update_idem]

theorem set_self (hr : r ≠ 0) : h.set r (h.reg r) = h := by
  rw [set, if_neg hr, reg, if_neg hr, Function.update_eq_self]

theorem set_comm {x y : Reg} (hxy : x ≠ y) (w : Word) :
    (h.set x v).set y w = (h.set y w).set x v := by
  unfold set
  split_ifs <;> simp [Function.update_comm hxy]

end Updates

section Exec
variable (h : Hart)

theorem x1_eq (ins : Instr) {r : Reg} (hr : ins.rs1 = some r) : h.x1 ins = h.reg r := by
  rw [x1, (encode_registers ins).2.1 r hr]

theorem x2_eq (ins : Instr) {r : Reg} (hr : ins.rs2 = some r) : h.x2 ins = h.reg r := by
  rw [x2, (encode_registers ins).2.2 r hr]

/-- An instruction with a result and no access. -/
theorem exec_result {ins : Instr} {rd : Reg} {v : Word} (hc : ins.computes = true)
    (hrd : ins.rd = some rd) (hacc : (h.effect ins).access = none)
    (hres : (h.effect ins).result = some v) :
    h.exec ins = (h.set rd v).goto ((h.effect ins).nextPc h.pc) := by
  have hvalue : h.value ins = some v := by
    cases ins <;> first
      | exact absurd hc Bool.false_ne_true
      | (unfold value computed; simp only [hacc, hres])
  have htrap : h.trap.exec h.pc (h.x1 ins) ins = h.trap ∧ h.trap.target ins = none := by
    cases ins <;> first | exact ⟨rfl, rfl⟩ | exact absurd hc Bool.false_ne_true
  rw [exec, htrap.1, htrap.2, hacc, write, hrd, hvalue, Option.bind_some, regWrite]
  by_cases h0 : rd = 0
  · rw [if_pos h0, h0]
    rfl
  · rw [if_neg h0, set, if_neg h0]
    rfl

theorem exec_auipc (rd : Reg) (imm : BitVec 20) :
    h.exec (.auipc rd imm) = (h.set rd (h.pc + (imm ++ 0#12))).goto (h.pc + 4) :=
  h.exec_result rfl rfl rfl rfl

theorem exec_addi (rd rs1 : Reg) (imm : BitVec 12) :
    h.exec (.aluImm .add rd rs1 imm) =
      (h.set rd (h.reg rs1 + imm.signExtend 32)).goto (h.pc + 4) := by
  rw [← h.x1_eq (.aluImm .add rd rs1 imm) rfl]
  exact h.exec_result rfl rfl rfl rfl

theorem exec_jal (rd : Reg) (offset : BitVec 20) :
    h.exec (.jal rd offset) =
      (h.set rd (h.pc + 4)).goto (h.pc + Rv32i.byteOffset offset) :=
  h.exec_result rfl rfl rfl rfl

theorem exec_jalr (rd rs1 : Reg) (imm : BitVec 12) :
    h.exec (.jalr rd rs1 imm) =
      (h.set rd (h.pc + 4)).goto ((h.reg rs1 + imm.signExtend 32) &&& ~~~1) := by
  rw [← h.x1_eq (.jalr rd rs1 imm) rfl]
  exact h.exec_result rfl rfl rfl rfl

theorem exec_branch (cond : Rv32i.Cond) (rs1 rs2 : Reg) (offset : BitVec 12) :
    h.exec (.branch cond rs1 rs2 offset) =
      h.goto (if cond.holds (h.reg rs1) (h.reg rs2) then h.pc + Rv32i.byteOffset offset
        else h.pc + 4) := by
  rw [← h.x1_eq (.branch cond rs1 rs2 offset) rfl,
    ← h.x2_eq (.branch cond rs1 rs2 offset) rfl]
  cases hb : cond.holds (h.x1 (.branch cond rs1 rs2 offset))
    (h.x2 (.branch cond rs1 rs2 offset)) <;>
    simp [exec, effect, Rv32i.Instr.effect, Rv32i.Effect.nextPc, write, Rv32i.Instr.rd, goto, hb,
      TrapFile.exec, TrapFile.written, TrapFile.target]

theorem exec_sw (rs2 rs1 : Reg) (imm : BitVec 12) :
    h.exec (.store .sw rs2 rs1 imm) =
      (h.put (h.reg rs1 + imm.signExtend 32) (h.reg rs2)).goto (h.pc + 4) := by
  rw [← h.x1_eq (.store .sw rs2 rs1 imm) rfl, ← h.x2_eq (.store .sw rs2 rs1 imm) rfl]
  rfl

/-- The word at an address. -/
def wordAt (adr : Word) : Word := LoadKind.lw.value fun k => h.mem (adr + BitVec.ofNat 32 k)

theorem exec_lw (rd rs1 : Reg) (imm : BitVec 12) :
    h.exec (.load .lw rd rs1 imm) =
      (h.set rd (h.wordAt (h.reg rs1 + imm.signExtend 32))).goto (h.pc + 4) := by
  have hwrite : h.write (.load .lw rd rs1 imm) = regWrite rd
      (some (h.wordAt (h.x1 (.load .lw rd rs1 imm) + imm.signExtend 32))) := rfl
  rw [← h.x1_eq (.load .lw rd rs1 imm) rfl, exec, hwrite, regWrite]
  by_cases h0 : rd = 0
  · rw [if_pos h0, h0]
    rfl
  · rw [if_neg h0, set, if_neg h0]
    rfl

end Exec

section Runs
variable {ok : Hart → Prop} {h g f : Hart}

theorem after_add (h : Hart) (n m : ℕ) : h.after (n + m) = (h.after n).after m := by
  induction m with
  | zero => rfl
  | succ m ih => exact congrArg next ih

/-- In `n` instructions the hart comes from `h` to `g`, and `ok` holds where each begins. -/
structure Leads (ok : Hart → Prop) (h : Hart) (n : ℕ) (g : Hart) : Prop where
  after : h.after n = g
  ok : ∀ k < n, ok (h.after k)

theorem Leads.trans {n m : ℕ} (hg : Leads ok h n g) (hf : Leads ok g m f) :
    Leads ok h (n + m) f where
  after := by rw [after_add, hg.after, hf.after]
  ok k hk := by
    by_cases hn : k < n
    · exact hg.ok k hn
    · obtain ⟨j, rfl⟩ := Nat.exists_eq_add_of_le (Nat.le_of_not_lt hn)
      rw [after_add, hg.after]
      exact hf.ok j (by omega)

end Runs

/-- The address of instruction `k`. -/
def label (base : Word) (k : ℕ) : Word := base + BitVec.ofNat 32 (4 * k)

theorem label_succ (base : Word) (k : ℕ) : label base k + 4 = label base (k + 1) := by
  rw [label, label, BitVec.add_assoc, Nat.mul_succ, BitVec.ofNat_add]
  rfl

theorem label_add {base delta : Word} {k k' : ℕ}
    (h : BitVec.ofNat 32 (4 * k) + delta = BitVec.ofNat 32 (4 * k')) :
    label base k + delta = label base k' := by
  rw [label, BitVec.add_assoc, h]
  rfl

/-- The offset field of a jump over `d` instructions. -/
def offset {w : ℕ} (d : ℤ) : BitVec w := BitVec.ofInt w (2 * d)

/-- `%pcrel_hi`. -/
def pcrelHi (pc sym : Word) : BitVec 20 := (sym - pc + 0x800).extractLsb' 12 20

/-- `%pcrel_lo`. -/
def pcrelLo (pc sym : Word) : BitVec 12 := (sym - pc).extractLsb' 0 12

/-- The low part is signed, and the high part makes up for it. -/
theorem pcrel_eq (pc sym : Word) :
    pc + (pcrelHi pc sym ++ 0#12) + (pcrelLo pc sym).signExtend 32 = sym := by
  have hsum : (pcrelHi pc sym ++ 0#12) + (pcrelLo pc sym).signExtend 32 = sym - pc := by
    unfold pcrelHi pcrelLo
    generalize sym - pc = d
    have hd := d.isLt
    apply BitVec.eq_of_toNat_eq
    have hhigh : ((d + 0x800).extractLsb' 12 20 ++ 0#12).toNat =
        (d.toNat + 2048) % 2 ^ 32 / 4096 * 4096 := by
      rw [toNat_append_eq, BitVec.extractLsb'_toNat, Nat.shiftRight_eq_div_pow, BitVec.toNat_add]
      simp
      omega
    have hlow : ((d.extractLsb' 0 12).signExtend 32).toNat =
        if d.toNat % 4096 < 2048 then d.toNat % 4096 else d.toNat % 4096 + (2 ^ 32 - 4096) := by
      rw [BitVec.toNat_signExtend, BitVec.toNat_setWidth, BitVec.extractLsb'_toNat,
        BitVec.msb_eq_decide, BitVec.extractLsb'_toNat, Nat.shiftRight_zero]
      split_ifs <;> simp_all <;> omega
    rw [BitVec.toNat_add, hhigh, hlow]
    split_ifs <;> omega
  rw [BitVec.add_assoc, hsum, BitVec.add_comm, BitVec.sub_add_cancel]

section Code
variable {base : Word} {code : List Instr} {k : ℕ}

/-- The code is in memory from `base` on. -/
def Holds (m : Bytes) (base : Word) (code : List Instr) : Prop :=
  ∀ k ins, code[k]? = some ins →
    (LoadKind.lw.value fun j => m (label base k + BitVec.ofNat 32 j)) = ins.encode

/-- The hart is at an instruction of the code, which is in order and makes no access but those
that `may` allows. -/
def AtCode (base : Word) (code : List Instr) (may : Access → Prop) (h : Hart) : Prop :=
  ∃ k ins, code[k]? = some ins ∧ h.pc = label base k ∧ h.instr = some ins ∧ h.InOrder ins ∧
    ∀ acc ∈ (h.effect ins).access, may acc

section Step
variable (may : Access → Prop) (h : Hart) (hm : Holds h.mem base code) (hpc : h.pc = label base k)
include hm hpc

theorem leads_exec {ins : Instr} (hk : code[k]? = some ins) (hin : h.InOrder ins)
    (hmay : ∀ acc ∈ (h.effect ins).access, may acc) :
    h.Leads (AtCode base code may) 1 (h.exec ins) := by
  have hword : h.word = ins.encode := by
    rw [word, hpc]
    exact hm k ins hk
  have hinstr : h.instr = some ins := by rw [instr, hword, Instr.decode_encode]
  constructor
  · show h.next = h.exec ins
    rw [next, hinstr]
  · intro j hj
    obtain rfl : j = 0 := by omega
    exact ⟨k, ins, hk, hpc, hinstr, hin, hmay⟩

theorem leads_auipc {rd : Reg} {imm : BitVec 20} (hk : code[k]? = some (.auipc rd imm)) :
    h.Leads (AtCode base code may) 1
      ((h.set rd (label base k + (imm ++ 0#12))).goto (label base (k + 1))) := by
  have hleads := leads_exec may h hm hpc hk ⟨⟨nofun, trivial⟩, trivial⟩ nofun
  rwa [exec_auipc, hpc, label_succ] at hleads

theorem leads_addi {rd rs1 : Reg} {imm : BitVec 12}
    (hk : code[k]? = some (.aluImm .add rd rs1 imm)) :
    h.Leads (AtCode base code may) 1
      ((h.set rd (h.reg rs1 + imm.signExtend 32)).goto (label base (k + 1))) := by
  have hleads := leads_exec may h hm hpc hk ⟨⟨nofun, trivial⟩, trivial⟩ nofun
  rwa [exec_addi, hpc, label_succ] at hleads

theorem leads_jal {rd : Reg} {imm : BitVec 20} {k' : ℕ} (hk : code[k]? = some (.jal rd imm))
    (hto : label base k + Rv32i.byteOffset imm = label base k') :
    h.Leads (AtCode base code may) 1
      ((h.set rd (label base (k + 1))).goto (label base k')) := by
  have hleads := leads_exec may h hm hpc hk ⟨⟨nofun, trivial⟩, trivial⟩ nofun
  rwa [exec_jal, hpc, label_succ, hto] at hleads

theorem leads_branch {cond : Rv32i.Cond} {rs1 rs2 : Reg} {imm : BitVec 12} {k' : ℕ}
    (hk : code[k]? = some (.branch cond rs1 rs2 imm))
    (hto : label base k + Rv32i.byteOffset imm = label base k') :
    h.Leads (AtCode base code may) 1
      (h.goto (label base (if cond.holds (h.reg rs1) (h.reg rs2) then k' else k + 1))) := by
  have hleads := leads_exec may h hm hpc hk ⟨⟨nofun, trivial⟩, trivial⟩ nofun
  rw [exec_branch, hpc, label_succ, hto] at hleads
  split_ifs at hleads ⊢ <;> exact hleads

theorem leads_jalr {rd rs1 : Reg} {imm : BitVec 12} {dest : Word}
    (hk : code[k]? = some (.jalr rd rs1 imm)) (hdest : h.reg rs1 + imm.signExtend 32 = dest)
    (heven : dest.getLsbD 0 = false) :
    h.Leads (AtCode base code may) 1 ((h.set rd (label base (k + 1))).goto dest) := by
  have hx : h.x1 (.jalr rd rs1 imm) = h.reg rs1 := h.x1_eq _ rfl
  have hin : h.InOrder (.jalr rd rs1 imm) := by
    refine ⟨⟨nofun, ?_⟩, trivial⟩
    show (h.x1 (.jalr rd rs1 imm) + imm.signExtend 32).getLsbD 0 = false
    rw [hx, hdest, heven]
  have hleads := leads_exec may h hm hpc hk hin nofun
  rwa [exec_jalr, hpc, label_succ, hdest, and_not_one heven] at hleads

theorem leads_sw {rs2 rs1 : Reg} {imm : BitVec 12} {adr : Word}
    (hk : code[k]? = some (.store .sw rs2 rs1 imm)) (hadr : h.reg rs1 + imm.signExtend 32 = adr)
    (hal : adr.toNat % 4 = 0) (hmay : may (.store .sw adr (h.reg rs2))) :
    h.Leads (AtCode base code may) 1
      ((h.put adr (h.reg rs2)).goto (label base (k + 1))) := by
  have hacc : (h.effect (.store .sw rs2 rs1 imm)).access = some (.store .sw adr (h.reg rs2)) := by
    rw [← hadr, ← h.x1_eq (.store .sw rs2 rs1 imm) rfl,
      ← h.x2_eq (.store .sw rs2 rs1 imm) rfl]
    rfl
  have hin : h.InOrder (.store .sw rs2 rs1 imm) := by
    refine ⟨⟨fun a ha => ?_, trivial⟩, trivial⟩
    obtain rfl := Option.some.inj (hacc.symm.trans ha)
    exact hal
  have hleads := leads_exec may h hm hpc hk hin fun acc ha => by
    obtain rfl := Option.some.inj (hacc.symm.trans ha)
    exact hmay
  rwa [exec_sw, hpc, label_succ, hadr] at hleads

theorem leads_lw {rd rs1 : Reg} {imm : BitVec 12} {adr : Word}
    (hk : code[k]? = some (.load .lw rd rs1 imm)) (hadr : h.reg rs1 + imm.signExtend 32 = adr)
    (hal : adr.toNat % 4 = 0) (hmay : may (.load .lw adr)) :
    h.Leads (AtCode base code may) 1
      ((h.set rd (h.wordAt adr)).goto (label base (k + 1))) := by
  have hacc : (h.effect (.load .lw rd rs1 imm)).access = some (.load .lw adr) := by
    rw [← hadr, ← h.x1_eq (.load .lw rd rs1 imm) rfl]
    rfl
  have hin : h.InOrder (.load .lw rd rs1 imm) := by
    refine ⟨⟨fun a ha => ?_, trivial⟩, trivial⟩
    obtain rfl := Option.some.inj (hacc.symm.trans ha)
    exact hal
  have hleads := leads_exec may h hm hpc hk hin fun acc ha => by
    obtain rfl := Option.some.inj (hacc.symm.trans ha)
    exact hmay
  rwa [exec_lw, hpc, label_succ, hadr] at hleads

/-- The pseudo-instruction `la`. -/
theorem leads_la (rd : Reg) (sym : Word) (hrd : rd ≠ 0)
    (h0 : code[k]? = some (.auipc rd (pcrelHi (label base k) sym)))
    (h1 : code[k + 1]? = some (.aluImm .add rd rd (pcrelLo (label base k) sym))) :
    h.Leads (AtCode base code may) 2 ((h.set rd sym).goto (label base (k + 2))) := by
  have hhigh := leads_auipc may h hm hpc h0
  have hlow := leads_addi may 
    ((h.set rd (label base k + (pcrelHi (label base k) sym ++ 0#12))).goto (label base (k + 1)))
    hm rfl h1
  rw [goto_reg, set_reg h rd _ hrd, if_pos rfl, pcrel_eq] at hlow
  have hboth := hhigh.trans hlow
  rwa [goto_set, goto_goto, set_set] at hboth

/-- The pseudo-instruction `call`. -/
theorem leads_call (sym : Word) (heven : sym.getLsbD 0 = false)
    (h0 : code[k]? = some (.auipc 1 (pcrelHi (label base k) sym)))
    (h1 : code[k + 1]? = some (.jalr 1 1 (pcrelLo (label base k) sym))) :
    h.Leads (AtCode base code may) 2 ((h.set 1 (label base (k + 2))).goto sym) := by
  have hhigh := leads_auipc may h hm hpc h0
  have hjump := leads_jalr may
    ((h.set 1 (label base k + (pcrelHi (label base k) sym ++ 0#12))).goto (label base (k + 1)))
    hm rfl h1 (by rw [goto_reg, set_reg h 1 _ (by decide), if_pos rfl, pcrel_eq]) heven
  have hboth := hhigh.trans hjump
  rwa [goto_set, goto_goto, set_set] at hboth

/-- Neither of its two instructions writes to memory. -/
theorem call_mem (sym : Word) (heven : sym.getLsbD 0 = false)
    (h0 : code[k]? = some (.auipc 1 (pcrelHi (label base k) sym)))
    (h1 : code[k + 1]? = some (.jalr 1 1 (pcrelLo (label base k) sym))) :
    (h.after 1).mem = h.mem ∧ (h.after 2).mem = h.mem := by
  rw [(leads_auipc (fun _ => True) h hm hpc h0).after,
    (leads_call (fun _ => True) h hm hpc sym heven h0 h1).after]
  exact ⟨rfl, rfl⟩

end Step

/-- No byte of the code is among the `n` from `adr` on. -/
def Apart (base : Word) (code : List Instr) (adr : Word) (n : ℕ) : Prop :=
  ∀ k < code.length, ∀ j < 4, ¬ (label base k + BitVec.ofNat 32 j - adr).toNat < n

theorem Holds.congr {m m' : Bytes} {adr : Word} {n : ℕ} (hm : Holds m base code)
    (hapart : Apart base code adr n) (hsame : ∀ a, ¬ (a - adr).toNat < n → m' a = m a) :
    Holds m' base code := by
  intro k ins hk
  rw [← hm k ins hk]
  refine LoadKind.value_congr .lw fun j hj => hsame _ ?_
  exact hapart k (List.getElem?_eq_some_iff.1 hk).1 j hj

theorem Apart.mono {adr : Word} {n m : ℕ} (h : Apart base code adr n) (hle : m ≤ n) :
    Apart base code adr m :=
  fun k hk j hj hlt => h k hk j hj (hlt.trans_le hle)

end Code

section Blocks
variable (h : Hart) (adr src : Word) (n : ℕ)

/-- `n` bytes are cleared. -/
def zero : Hart := { h with mem := fun a => if (a - adr).toNat < n then 0 else h.mem a }

/-- `n` bytes are copied. -/
def copy : Hart :=
  { h with mem := fun a => if (a - adr).toNat < n then h.mem (src + (a - adr)) else h.mem a }

@[simp] theorem set_zeroed (r : Reg) (v : Word) :
    (h.set r v).zero adr n = (h.zero adr n).set r v := rfl

@[simp] theorem goto_zeroed (pc : Word) : (h.goto pc).zero adr n = (h.zero adr n).goto pc := rfl

@[simp] theorem set_copy (r : Reg) (v : Word) :
    (h.set r v).copy adr src n = (h.copy adr src n).set r v := rfl

@[simp] theorem goto_copy (pc : Word) :
    (h.goto pc).copy adr src n = (h.copy adr src n).goto pc := rfl

@[simp] theorem zero_reg (x : Reg) : (h.zero adr n).reg x = h.reg x := rfl

theorem zero_nil : h.zero adr 0 = h := by
  simp [zero]

theorem copy_nil : h.copy adr src 0 = h := by
  simp [copy]

variable {adr src n}

/-- Addresses from one to the next word on. -/
theorem sub_step {a : Word} (hfit : adr.toNat + (n + 4) < 2 ^ 32) :
    (a - adr).toNat < n + 4 ↔ (a - adr).toNat < 4 ∨ (a - (adr + 4)).toNat < n := by
  have ha := a.isLt
  have hsub : (a - adr).toNat = (2 ^ 32 - adr.toNat + a.toNat) % 2 ^ 32 := BitVec.toNat_sub _ _
  have hnext : (a - (adr + 4)).toNat = (2 ^ 32 - (adr + 4).toNat + a.toNat) % 2 ^ 32 :=
    BitVec.toNat_sub _ _
  have hfour : (adr + 4).toNat = adr.toNat + 4 := by
    rw [BitVec.toNat_add]
    show (adr.toNat + 4) % 2 ^ 32 = _
    omega
  rw [hfour] at hnext
  omega

theorem Apart.next {base : Word} {code : List Instr} (hfit : adr.toNat + (n + 4) < 2 ^ 32)
    (h : Apart base code adr (n + 4)) : Apart base code (adr + 4) n :=
  fun k hk j hj hlt => h k hk j hj ((sub_step hfit).2 (.inr hlt))

theorem Holds.put {base : Word} {code : List Instr} {h : Hart} (hm : Holds h.mem base code)
    (hapart : Apart base code adr 4) (v : Word) : Holds (h.put adr v).mem base code :=
  hm.congr hapart fun _ hlt => if_neg hlt

theorem byteLane_zero (k : ℕ) : Rv32i.byteLane 0 k = 0 := by
  simp [Rv32i.byteLane]

theorem zero_put (hfit : adr.toNat + (n + 4) < 2 ^ 32) :
    (h.put adr 0).zero (adr + 4) n = h.zero adr (n + 4) := by
  have hmem : ((h.put adr 0).zero (adr + 4) n).mem = (h.zero adr (n + 4)).mem := by
    funext a
    show (if (a - (adr + 4)).toNat < n then 0 else
      if (a - adr).toNat < 4 then Rv32i.byteLane 0 (a - adr).toNat else h.mem a) =
        if (a - adr).toNat < n + 4 then 0 else h.mem a
    have hstep := sub_step (a := a) hfit
    rw [byteLane_zero]
    split_ifs <;> first | rfl | omega
  exact congrArg (fun m => { h with mem := m }) hmem

theorem byteLane_wordAt {k : ℕ} (hk : k < 4) :
    Rv32i.byteLane (h.wordAt src) k = h.mem (src + BitVec.ofNat 32 k) := by
  have hcases : k = 0 ∨ k = 1 ∨ k = 2 ∨ k = 3 := by omega
  have h0 := (h.mem (src + BitVec.ofNat 32 0)).isLt
  have h1 := (h.mem (src + BitVec.ofNat 32 1)).isLt
  have h2 := (h.mem (src + BitVec.ofNat 32 2)).isLt
  have h3 := (h.mem (src + BitVec.ofNat 32 3)).isLt
  apply BitVec.eq_of_toNat_eq
  simp only [wordAt, Rv32i.byteLane, LoadKind.value, BitVec.extractLsb'_toNat, toNat_append_eq,
    Nat.shiftRight_eq_div_pow]
  rcases hcases with rfl | rfl | rfl | rfl <;> omega

/-- No byte of the source is among those written. -/
def Disjoint (src adr : Word) (n : ℕ) : Prop :=
  ∀ i < n, ¬ (src + BitVec.ofNat 32 i - adr).toNat < n

theorem Disjoint.next (hfit : adr.toNat + (n + 4) < 2 ^ 32) (h : Disjoint src adr (n + 4)) :
    Disjoint (src + 4) (adr + 4) n := by
  intro i hi hlt
  refine h (i + 4) (Nat.add_lt_add_right hi 4) ((sub_step hfit).2 (.inr ?_))
  rwa [Nat.add_comm, BitVec.ofNat_add, ← BitVec.add_assoc]

theorem copy_put (hfit : adr.toNat + (n + 4) < 2 ^ 32) (hdis : Disjoint src adr (n + 4)) :
    (h.put adr (h.wordAt src)).copy (adr + 4) (src + 4) n = h.copy adr src (n + 4) := by
  have hmem : ((h.put adr (h.wordAt src)).copy (adr + 4) (src + 4) n).mem =
      (h.copy adr src (n + 4)).mem := by
    funext a
    show (if (a - (adr + 4)).toNat < n then
        if (src + 4 + (a - (adr + 4)) - adr).toNat < 4 then
          Rv32i.byteLane (h.wordAt src) (src + 4 + (a - (adr + 4)) - adr).toNat
        else h.mem (src + 4 + (a - (adr + 4)))
      else if (a - adr).toNat < 4 then Rv32i.byteLane (h.wordAt src) (a - adr).toNat
      else h.mem a) = if (a - adr).toNat < n + 4 then h.mem (src + (a - adr)) else h.mem a
    have hstep := sub_step (a := a) hfit
    have hsame : src + 4 + (a - (adr + 4)) = src + (a - adr) := by bv_omega
    rw [hsame]
    by_cases hrest : (a - (adr + 4)).toNat < n
    · have hin : (a - adr).toNat < n + 4 := hstep.2 (.inr hrest)
      have hout := hdis _ hin
      rw [BitVec.ofNat_toNat, BitVec.setWidth_eq] at hout
      rw [if_pos hrest, if_pos hin, if_neg (by omega)]
    · by_cases hfirst : (a - adr).toNat < 4
      · rw [if_neg hrest, if_pos hfirst, if_pos (by omega), byteLane_wordAt h hfirst,
          BitVec.ofNat_toNat, BitVec.setWidth_eq]
      · rw [if_neg hrest, if_neg hfirst, if_neg (by omega)]
  exact congrArg (fun m => { h with mem := m }) hmem

end Blocks

section Loops
variable {base : Word} {code : List Instr} {may : Access → Prop} {k : ℕ} {x y : Reg}

theorem add_word (adr : Word) (m : ℕ) :
    adr + BitVec.ofNat 32 (4 * (m + 1)) = adr + 4 + BitVec.ofNat 32 (4 * m) := by
  rw [BitVec.add_assoc, Nat.mul_succ, Nat.add_comm, BitVec.ofNat_add]
  rfl

theorem toNat_add_word {adr : Word} {n : ℕ} (hfit : adr.toNat + n < 2 ^ 32) :
    (adr + BitVec.ofNat 32 n).toNat = adr.toNat + n := by
  rw [BitVec.toNat_add, BitVec.toNat_ofNat]
  omega

/-- Before the end comes another turn. -/
theorem ltu_end {adr : Word} {m : ℕ} (hfit : adr.toNat + 4 * m < 2 ^ 32) :
    Rv32i.Cond.ltu.holds adr (adr + BitVec.ofNat 32 (4 * m)) = decide (0 < m) := by
  show adr.ult (adr + BitVec.ofNat 32 (4 * m)) = _
  rw [BitVec.ult_eq_decide, toNat_add_word hfit]
  exact decide_eq_decide.2 (by omega)

section Zero
variable (hx : x ≠ 0) (hxy : y ≠ x) (h0 : code[k]? = some (.store .sw 0 x 0))
  (h1 : code[k + 1]? = some (.aluImm .add x x 4))
  (h2 : code[k + 2]? = some (.branch .ltu x y (offset (-2)))) {m : ℕ} {h : Hart} {adr : Word}
  (hm : Holds h.mem base code) (hpc : h.pc = label base k) (hadr : h.reg x = adr)
  (hend : h.reg y = adr + BitVec.ofNat 32 (4 * (m + 1)))
  (hfit : adr.toNat + 4 * (m + 1) < 2 ^ 32) (hal : adr.toNat % 4 = 0)
  (hapart : Apart base code adr (4 * (m + 1)))
  (hmay : ∀ a, a.toNat % 4 = 0 → (a - adr).toNat < 4 * (m + 1) → may (.store .sw a 0))
include hx hxy h0 h1 h2 hm hpc hadr hend hfit hal hapart hmay

/-- A turn of the loop that clears words. -/
theorem leads_zero_turn : h.Leads (AtCode base code may) 3
    (((h.put adr 0).set x (adr + 4)).goto (label base (if 0 < m then k else k + 3))) := by
  have hself : (adr - adr).toNat = 0 := by
    rw [BitVec.sub_self]
    rfl
  have hfour : (adr + 4).toNat = adr.toNat + 4 := toNat_add_word (n := 4) (by omega)
  have hword := hm.put (hapart.mono (by omega)) 0
  have hzero : h.reg x + BitVec.signExtend 32 (0 : BitVec 12) = adr := by
    rw [hadr]
    exact BitVec.add_zero adr
  have hto : label base (k + 2) + Rv32i.byteOffset (offset (w := 12) (-2)) = label base k := by
    rw [show Rv32i.byteOffset (offset (w := 12) (-2)) = -8#32 by decide, label, label]
    bv_omega
  have hstore := leads_sw may h hm hpc h0 hzero hal (hmay adr hal (by omega))
  have hadd := leads_addi may ((h.put adr 0).goto (label base (k + 1))) hword rfl h1
  rw [goto_reg, put_reg, hadr, goto_set, goto_goto] at hadd
  have hback := leads_branch may
    (((h.put adr 0).set x (adr + 4)).goto (label base (k + 2))) hword rfl h2 hto
  rw [goto_reg, goto_reg, set_reg _ x _ hx, set_reg _ x _ hx, if_pos rfl, if_neg hxy, put_reg,
    goto_goto, hend, add_word, ltu_end (by omega)] at hback
  have hall := (hstore.trans hadd).trans hback
  simpa only [decide_eq_true_eq] using hall

/-- The loop that clears words up to the end. -/
theorem leads_zero : h.Leads (AtCode base code may) (3 * (m + 1))
    (((h.zero adr (4 * (m + 1))).set x (adr + BitVec.ofNat 32 (4 * (m + 1)))).goto
      (label base (k + 3))) := by
  induction m generalizing h adr with
  | zero =>
    have hturn := leads_zero_turn hx hxy h0 h1 h2 hm hpc hadr hend hfit hal hapart hmay
    rw [if_neg (Nat.lt_irrefl 0)] at hturn
    have hput : h.zero adr 4 = h.put adr 0 := by
      rw [← zero_put (n := 0) h (by omega), zero_nil]
    rw [show 4 * (0 + 1) = 4 from rfl, hput]
    exact hturn
  | succ m ih =>
    have hturn := leads_zero_turn hx hxy h0 h1 h2 hm hpc hadr hend hfit hal hapart hmay
    rw [if_pos (Nat.succ_pos m)] at hturn
    have hfit' : adr.toNat + (4 * (m + 1) + 4) < 2 ^ 32 := by omega
    have hfour : (adr + 4).toNat = adr.toNat + 4 := toNat_add_word (n := 4) (by omega)
    have hrest := @ih (((h.put adr 0).set x (adr + 4)).goto (label base k)) (adr + 4)
      (hm.put (hapart.mono (by omega)) 0) rfl
      (by rw [goto_reg, set_reg _ x _ hx, if_pos rfl])
      (by rw [goto_reg, set_reg _ x _ hx, if_neg hxy, put_reg, hend, add_word])
      (by omega) (by omega) (Apart.next hfit' hapart)
      (fun a ha hlt => hmay a ha ((sub_step hfit').2 (.inr hlt)))
    rw [goto_zeroed, goto_set, goto_goto, set_zeroed, set_set, zero_put h hfit', ← add_word]
      at hrest
    rw [show 3 * (m + 1 + 1) = 3 + 3 * (m + 1) by omega]
    exact hturn.trans hrest

end Zero

section Copy
variable {z t : Reg} (hx : x ≠ 0) (hy : y ≠ 0) (ht : t ≠ 0) (hxy : x ≠ y) (hxt : x ≠ t)
  (hyt : y ≠ t) (hzx : z ≠ x) (hzy : z ≠ y) (hzt : z ≠ t)
  (h0 : code[k]? = some (.branch .eq y z (offset 6)))
  (h1 : code[k + 1]? = some (.load .lw t x 0)) (h2 : code[k + 2]? = some (.store .sw t y 0))
  (h3 : code[k + 3]? = some (.aluImm .add x x 4)) (h4 : code[k + 4]? = some (.aluImm .add y y 4))
  (h5 : code[k + 5]? = some (.jal 0 (offset (-5)))) {m : ℕ} {h : Hart} {adr src : Word}
  (hm : Holds h.mem base code) (hpc : h.pc = label base k) (hsrc : h.reg x = src)
  (hadr : h.reg y = adr) (hsal : src.toNat % 4 = 0) (hal : adr.toNat % 4 = 0)
include hx hy ht hxy hxt hyt hzx hzy hzt h0 h1 h2 h3 h4 h5 hm hpc hsrc hadr hsal hal

omit hy hzx hzy hzt in
/-- A turn of the loop that copies words. -/
theorem leads_copy_turn (hend : h.reg z = adr + BitVec.ofNat 32 (4 * (m + 1)))
    (hfit : adr.toNat + 4 * (m + 1) < 2 ^ 32) (hapart : Apart base code adr (4 * (m + 1)))
    (hload : may (.load .lw src)) (hstore : ∀ v, may (.store .sw adr v)) :
    h.Leads (AtCode base code may) 6
      (((((h.put adr (h.wordAt src)).set t (h.wordAt src)).set x (src + 4)).set y (adr + 4)).goto
        (label base k)) := by
  have himm (a : Word) : a + BitVec.signExtend 32 (0 : BitVec 12) = a := BitVec.add_zero a
  have hexit : label base k + Rv32i.byteOffset (offset (w := 12) 6) = label base (k + 6) := by
    rw [show Rv32i.byteOffset (offset (w := 12) 6) = 24#32 by decide, label, label]
    bv_omega
  have hback : label base (k + 5) + Rv32i.byteOffset (offset (w := 20) (-5)) = label base k := by
    rw [show Rv32i.byteOffset (offset (w := 20) (-5)) = -20#32 by decide, label, label]
    bv_omega
  have hne : Rv32i.Cond.eq.holds (h.reg y) (h.reg z) = false := by
    have hsum := toNat_add_word hfit
    show decide (h.reg y = h.reg z) = false
    rw [hadr, hend, decide_eq_false_iff_not]
    intro heq
    rw [← heq] at hsum
    omega
  have hword := hm.put (hapart.mono (by omega)) (h.wordAt src)
  have henter := leads_branch may h hm hpc h0 hexit
  rw [hne, if_neg Bool.false_ne_true] at henter
  have hread := leads_lw may (h.goto (label base (k + 1))) hm rfl h1
    (by rw [goto_reg, hsrc, himm]) hsal hload
  have hwrite := leads_sw may
    ((h.set t (h.wordAt src)).goto (label base (k + 2))) hm rfl h2
    (by rw [goto_reg, set_reg _ t _ ht, if_neg hyt, hadr, himm]) hal (hstore _)
  rw [goto_reg, set_reg _ t _ ht, if_pos rfl, goto_put, goto_goto, set_put] at hwrite
  have hsource := leads_addi may
    (((h.put adr (h.wordAt src)).set t (h.wordAt src)).goto (label base (k + 3))) hword rfl h3
  rw [goto_reg, set_reg _ t _ ht, if_neg hxt, put_reg, hsrc, goto_set, goto_goto] at hsource
  have hdest := leads_addi may
    ((((h.put adr (h.wordAt src)).set t (h.wordAt src)).set x (src + 4)).goto
      (label base (k + 4))) hword rfl h4
  rw [goto_reg, set_reg _ x _ hx, if_neg hxy.symm, set_reg _ t _ ht, if_neg hyt, put_reg, hadr,
    goto_set, goto_goto] at hdest
  have hjump := leads_jal may
    (((((h.put adr (h.wordAt src)).set t (h.wordAt src)).set x (src + 4)).set y
      (adr + 4)).goto (label base (k + 5))) hword rfl h5 hback
  rw [set_zero, goto_goto] at hjump
  exact ((((henter.trans hread).trans hwrite).trans hsource).trans hdest).trans hjump

/-- The loop that copies words up to the end. -/
theorem leads_copy (hend : h.reg z = adr + BitVec.ofNat 32 (4 * m))
    (hfit : adr.toNat + 4 * m < 2 ^ 32) (hsfit : src.toNat + 4 * m < 2 ^ 32)
    (hapart : Apart base code adr (4 * m)) (hdis : Disjoint src adr (4 * m))
    (hload : ∀ a, a.toNat % 4 = 0 → (a - src).toNat < 4 * m → may (.load .lw a))
    (hstore : ∀ a v, a.toNat % 4 = 0 → (a - adr).toNat < 4 * m → may (.store .sw a v)) :
    ∃ v, h.Leads (AtCode base code may) (6 * m + 1)
      (((((h.copy adr src (4 * m)).set t v).set x (src + BitVec.ofNat 32 (4 * m))).set y
        (adr + BitVec.ofNat 32 (4 * m))).goto (label base (k + 6))) := by
  induction m generalizing h adr src with
  | zero =>
    have hexit : label base k + Rv32i.byteOffset (offset (w := 12) 6) = label base (k + 6) := by
      rw [show Rv32i.byteOffset (offset (w := 12) 6) = 24#32 by decide, label, label]
      bv_omega
    have hleave := leads_branch may h hm hpc h0 hexit
    have heq : Rv32i.Cond.eq.holds (h.reg y) (h.reg z) = true := by
      show decide (h.reg y = h.reg z) = true
      rw [hadr, hend, decide_eq_true_eq]
      exact (BitVec.add_zero adr).symm
    rw [heq, if_pos rfl] at hleave
    refine ⟨h.reg t, ?_⟩
    have hsrc' : src + BitVec.ofNat 32 (4 * 0) = h.reg x := (BitVec.add_zero src).trans hsrc.symm
    have hadr' : adr + BitVec.ofNat 32 (4 * 0) = h.reg y := (BitVec.add_zero adr).trans hadr.symm
    rw [hsrc', hadr', copy_nil, set_self h t ht, set_self h x hx, set_self h y hy]
    exact hleave
  | succ m ih =>
    have hself : (src - src).toNat = 0 ∧ (adr - adr).toNat = 0 := by
      rw [BitVec.sub_self, BitVec.sub_self]
      exact ⟨rfl, rfl⟩
    have hsfour : (src + 4).toNat = src.toNat + 4 := toNat_add_word (n := 4) (by omega)
    have hfour : (adr + 4).toNat = adr.toNat + 4 := toNat_add_word (n := 4) (by omega)
    have hturn := leads_copy_turn hx ht hxy hxt hyt h0 h1 h2 h3 h4 h5 hm hpc hsrc hadr hsal hal
      hend hfit hapart (hload src hsal (by omega)) (fun v => hstore adr v hal (by omega))
    have hsfit' : src.toNat + (4 * m + 4) < 2 ^ 32 := by omega
    have hfit' : adr.toNat + (4 * m + 4) < 2 ^ 32 := by omega
    obtain ⟨v, hrest⟩ := @ih
      (((((h.put adr (h.wordAt src)).set t (h.wordAt src)).set x (src + 4)).set y
        (adr + 4)).goto (label base k)) (adr + 4) (src + 4)
      (hm.put (hapart.mono (by omega)) (h.wordAt src)) rfl
      (by rw [goto_reg, set_reg _ y _ hy, if_neg hxy, set_reg _ x _ hx, if_pos rfl])
      (by rw [goto_reg, set_reg _ y _ hy, if_pos rfl]) (by omega) (by omega)
      (by rw [goto_reg, set_reg _ y _ hy, if_neg hzy, set_reg _ x _ hx, if_neg hzx,
        set_reg _ t _ ht, if_neg hzt, put_reg, hend, add_word])
      (by omega) (by omega) (Apart.next hfit' hapart) (Disjoint.next hfit' hdis)
      (fun a ha hlt => hload a ha ((sub_step hsfit').2 (.inr hlt)))
      (fun a v ha hlt => hstore a v ha ((sub_step hfit').2 (.inr hlt)))
    -- the registers are set anew
    have hsets (g : Hart) (v' a a' b b' w : Word) :
        (((((g.set t v').set x a').set y b').set t w).set x a).set y b =
          ((g.set t w).set x a).set y b := by
      rw [set_comm _ b' hyt, set_comm _ a' hxt, set_set, set_comm _ b' hxy.symm, set_set,
        set_set]
    rw [goto_copy, set_copy, set_copy, set_copy, copy_put h hfit' hdis, goto_set, goto_set,
      goto_set, goto_goto, hsets, ← add_word, ← add_word] at hrest
    refine ⟨v, ?_⟩
    rw [show 6 * (m + 1) + 1 = 6 + (6 * m + 1) by omega]
    exact hturn.trans hrest

end Copy

end Loops

end Hart
end BonfireCore
