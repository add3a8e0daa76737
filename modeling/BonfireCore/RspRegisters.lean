import BonfireCore.RspMemory

/-! What the memory packets leave in the registers of the program: the byte accesses go
through `x8` and `x9`, which only the CSR accesses put back. -/
namespace BonfireCore

/-- A byte access of the debugger. -/
inductive ByteAccess
  | read (adr : Word)
  | write (adr : Word) (value : Byte)
  deriving DecidableEq, Repr

namespace ByteAccess

def perform (h : HaltedHart) : ByteAccess → HaltedHart
  | read adr =>
    (h.setGpr 8 ((h.mem adr).setWidth 32)).scratch ((h.mem adr).setWidth 32) 0x00044403
  | write adr value =>
    (((h.setGpr 8 adr).setGpr 9 (value.setWidth 32)).storeByte adr value).scratch
      (value.setWidth 32) 0x00940023

/-- `x8` and `x9` are already what the access leaves there. -/
def Settled (h : HaltedHart) : ByteAccess → Prop
  | read adr => h.gpr 8 = (h.mem adr).setWidth 32
  | write adr value => h.gpr 8 = adr ∧ h.gpr 9 = value.setWidth 32

instance (h : HaltedHart) (a : ByteAccess) : Decidable (a.Settled h) :=
  match a with
  | read _ => inferInstanceAs (Decidable (_ = _))
  | write _ _ => inferInstanceAs (Decidable (_ ∧ _))

def reads (addr : ℕ) : ℕ → List ByteAccess
  | 0 => []
  | size + 1 => .read (BitVec.ofNat 32 addr) :: reads (addr + 1) size

def writes (addr : ℕ) : List Byte → List ByteAccess
  | [] => []
  | value :: data => .write (BitVec.ofNat 32 addr) value :: writes (addr + 1) data

theorem perform_regs_of_ne (h : HaltedHart) (a : ByteAccess) {r : BitVec 5} (h8 : r ≠ 8#5)
    (h9 : r ≠ 9#5) : (a.perform h).regs r = h.regs r := by
  cases a <;> simp [perform, HaltedHart.setGpr, RegFile.writeReg, h8, h9]

theorem performs_regs_of_ne (h : HaltedHart) (as : List ByteAccess) {r : BitVec 5} (h8 : r ≠ 8#5)
    (h9 : r ≠ 9#5) : (as.foldl perform h).regs r = h.regs r := by
  induction as generalizing h with
  | nil => rfl
  | cons a as ih => exact (ih _).trans (perform_regs_of_ne h a h8 h9)

theorem perform_read_mem (h : HaltedHart) (adr : Word) : (perform h (read adr)).mem = h.mem := rfl

theorem perform_read_regs (h : HaltedHart) (adr : Word) :
    (perform h (read adr)).regs = Function.update h.regs 8#5 ((h.mem adr).setWidth 32) := rfl

theorem perform_write_regs (h : HaltedHart) (adr : Word) (value : Byte) :
    (perform h (write adr value)).regs =
      Function.update (Function.update h.regs 8#5 adr) 9#5 (value.setWidth 32) := rfl

/-- After a write at the end only `x8` and `x9` count. -/
theorem performs_write_iff (h : HaltedHart) (as : List ByteAccess) (adr : Word) (value : Byte) :
    ((as ++ [write adr value]).foldl perform h).regs = h.regs ↔ Settled h (write adr value) := by
  rw [List.foldl_append, List.foldl_cons, List.foldl_nil, perform_write_regs]
  constructor
  · intro heq
    exact ⟨(congrFun heq 8).symm, (congrFun heq 9).symm⟩
  · rintro ⟨h8, h9⟩
    have h8' : h.regs 8 = adr := h8
    have h9' : h.regs 9 = value.setWidth 32 := h9
    funext r
    by_cases hr9 : r = 9#5
    · subst hr9
      exact h9'.symm
    · by_cases hr8 : r = 8#5
      · subst hr8
        exact h8'.symm
      · rw [Function.update_of_ne hr9, Function.update_of_ne hr8]
        exact performs_regs_of_ne h as hr8 hr9

theorem performs_reads (h : HaltedHart) (addr size : ℕ) :
    ((reads addr size).foldl perform h).mem = h.mem ∧
      ∀ r, r ≠ 8#5 → ((reads addr size).foldl perform h).regs r = h.regs r := by
  induction size generalizing h addr with
  | zero => exact ⟨rfl, fun _ _ => rfl⟩
  | succ size ih =>
    obtain ⟨hmem, hregs⟩ := ih (perform h (read (BitVec.ofNat 32 addr))) (addr + 1)
    refine ⟨hmem, fun r hr => (hregs r hr).trans ?_⟩
    rw [perform_read_regs, Function.update_of_ne hr]

theorem reads_succ (addr size : ℕ) :
    reads addr (size + 1) = reads addr size ++ [.read (BitVec.ofNat 32 (addr + size))] := by
  induction size generalizing addr with
  | zero => rfl
  | succ size ih =>
    rw [reads, ih (addr + 1), reads, List.cons_append, Nat.add_right_comm,
      Nat.add_assoc addr size 1]

/-- After reads `x8` holds the last byte. -/
theorem performs_reads_iff (h : HaltedHart) (addr size : ℕ) :
    ((reads addr (size + 1)).foldl perform h).regs = h.regs ↔
      Settled h (read (BitVec.ofNat 32 (addr + size))) := by
  obtain ⟨hmem, hregs⟩ := performs_reads h addr size
  rw [reads_succ, List.foldl_append, List.foldl_cons, List.foldl_nil, perform_read_regs, hmem]
  constructor
  · intro heq
    exact (congrFun heq 8).symm
  · intro h8
    have h8' : h.regs 8 = _ := h8
    funext r
    by_cases hr : r = 8#5
    · subst hr
      exact h8'.symm
    · rw [Function.update_of_ne hr]
      exact hregs r hr

theorem writes_last (addr : ℕ) {data : List Byte} (h : data ≠ []) :
    ∃ front adr value, writes addr data = front ++ [.write adr value] := by
  induction data generalizing addr with
  | nil => exact absurd rfl h
  | cons value data ih =>
    cases data with
    | nil => exact ⟨[], _, value, rfl⟩
    | cons value' data =>
      obtain ⟨front, adr, last, hlast⟩ := ih (addr + 1) (List.cons_ne_nil value' data)
      exact ⟨.write (BitVec.ofNat 32 addr) value :: front, adr, last, by rw [writes, hlast]; rfl⟩

/-- Reads alone, or something that ends in a write. -/
def Regular (as : List ByteAccess) : Prop :=
  (∃ addr size, as = reads addr size) ∨ ∃ front adr value, as = front ++ [.write adr value]

theorem regular_nil : Regular [] := .inl ⟨0, 0, rfl⟩

theorem regular_writes (front : List ByteAccess) (addr : ℕ) {data : List Byte} (h : data ≠ []) :
    Regular (front ++ writes addr data) := by
  obtain ⟨front', adr, value, hlast⟩ := writes_last addr h
  exact .inr ⟨front ++ front', adr, value, by rw [hlast, List.append_assoc]⟩

/-- The registers are as before just when the last access leaves what is there. -/
theorem performs_regs_iff (h : HaltedHart) {as : List ByteAccess} (has : Regular as) :
    (as.foldl perform h).regs = h.regs ↔ ∀ a ∈ as.getLast?, Settled h a := by
  rcases has with ⟨addr, size, rfl⟩ | ⟨front, adr, value, rfl⟩
  · cases size with
    | zero => simp [reads]
    | succ size =>
      rw [performs_reads_iff, reads_succ, List.getLast?_concat]
      simp
  · rw [performs_write_iff, List.getLast?_concat]
    simp

end ByteAccess

namespace RspState
open ByteAccess

theorem readMemoryBytes_eq (h : HaltedHart) (addr size : ℕ) :
    ∃ values, readMemoryBytes h addr size = some (values, (reads addr size).foldl perform h) := by
  induction size generalizing h addr with
  | zero => exact ⟨[], rfl⟩
  | succ size ih =>
    obtain ⟨values, hvalues⟩ := ih (perform h (read (BitVec.ofNat 32 addr))) (addr + 1)
    refine ⟨(h.mem (BitVec.ofNat 32 addr)).setWidth 32 :: values, ?_⟩
    rw [readMemoryBytes, DebugApi.readMemory_byte, Option.bind_eq_bind, Option.bind_some]
    change (readMemoryBytes (perform h (read (BitVec.ofNat 32 addr))) (addr + 1) size).bind _ = _
    rw [hvalues]
    rfl

theorem writeMemoryBytes_eq (h : HaltedHart) (addr : ℕ) (data : List Byte) :
    writeMemoryBytes h addr data = some ((writes addr data).foldl perform h) := by
  induction data generalizing h addr with
  | nil => rfl
  | cons value data ih =>
    have hbyte : (value.setWidth 32).setWidth 8 = value := by
      simp
    rw [writeMemoryBytes, DebugApi.writeMemory_byte, Option.bind_eq_bind, Option.bind_some, hbyte]
    exact ih (perform h (write (BitVec.ofNat 32 addr) value)) (addr + 1)

theorem readCsr_dcsr (h : HaltedHart) : ∃ value, h.readCsr dcsr = some value := ⟨_, rfl⟩

theorem updateDcsr_keeps (h : HaltedHart) (ebreakm step : Option Bool) :
    ∃ h', updateDcsr h ebreakm step = some h' ∧ h'.regs = h.regs ∧ h'.mem = h.mem := by
  obtain ⟨value, hvalue⟩ := readCsr_dcsr h
  have hscratch : CSR_SCRATCH_GPR ≠ 0#5 := by decide
  unfold updateDcsr
  rw [DebugApi.readCSR_eq dcsr hscratch, hvalue, Option.map_some, Option.bind_eq_bind,
    Option.bind_some]
  dsimp only
  rw [DebugApi.writeCSR_eq dcsr _ hscratch, HaltedHart.scratch_readCsr, hvalue]
  exact ⟨_, rfl, rfl, rfl⟩

/-- The byte accesses that a packet asks for, in order. -/
def accesses (s : RspState) (p : MemoryPacket) : List ByteAccess :=
  match p.cmd with
  | .m =>
    match addrSize p.subcmd with
    | some (addr, size) =>
      if s.memoryRangeValid addr size then reads addr.toNat size.toNat else []
    | none => []
  | .M =>
    match addrSizeHex p.subcmd with
    | some (addr, size, hexstring) =>
      if s.memoryRangeValid addr size ∧ size * 2 = hexstring.length then
        writes addr.toNat ((fromHex hexstring).getD [])
      else []
    | none => []
  | .X =>
    match p.subcmd.idxOf? 0x3a with
    | some colon =>
      match addrSize (p.subcmd.take colon) with
      | some (addr, size) =>
        let data := (p.subcmd.drop (colon + 1)).take size.toNat
        if s.memoryRangeValid addr size ∧ data.length = size.toNat then writes addr.toNat data
        else []
      | none => []
    | none => []
  | .Z =>
    match kindAddrSize p.subcmd with
    | some (kind, addr, size) =>
      if kind = ascii "0" ∧ s.memoryRangeValid addr size ∧
          s.breakpoints.lookup addr.toNat = none then
        reads addr.toNat size.toNat ++ writes addr.toNat (ebreakBytes.take size.toNat)
      else []
    | none => []
  | .z =>
    match kindAddrSize p.subcmd with
    | some (kind, addr, size) =>
      if kind = ascii "0" ∧ s.memoryRangeValid addr size then
        writes addr.toNat ((s.breakpoints.lookup addr.toNat).getD [])
      else []
    | none => []

/-- The state after a packet; one that raises leaves it as it is. -/
def after (s : RspState) (r : Handled) : RspState := r.elim s Prod.snd

variable (s : RspState) (subcmd : List Byte)

theorem handle_m_regs : (s.after (s.handle_m subcmd)).hart.regs =
    ((s.accesses ⟨.m, subcmd⟩).foldl perform s.hart).regs := by
  cases hfields : addrSize subcmd with
  | none => simp [handle_m, accesses, after, hfields]
  | some fields =>
    obtain ⟨addr, size⟩ := fields
    obtain ⟨values, hvalues⟩ := readMemoryBytes_eq s.hart addr.toNat size.toNat
    cases hvalid : s.memoryRangeValid addr size <;>
      simp [handle_m, accesses, after, hfields, hvalid, hvalues]

theorem handle_M_regs : (s.after (s.handle_M subcmd)).hart.regs =
    ((s.accesses ⟨.M, subcmd⟩).foldl perform s.hart).regs := by
  cases hfields : addrSizeHex subcmd with
  | none => simp [handle_M, accesses, after, hfields]
  | some fields =>
    obtain ⟨addr, size, hexstring⟩ := fields
    cases hvalid : s.memoryRangeValid addr size with
    | false => simp [handle_M, accesses, after, hfields, hvalid]
    | true =>
      by_cases hlength : size * 2 = hexstring.length
      · cases hdata : fromHex hexstring with
        | none => simp [handle_M, accesses, after, hfields, hvalid, hlength, hdata, writes]
        | some data =>
          simp [handle_M, accesses, after, hfields, hvalid, hlength, hdata, writeMemoryBytes_eq]
      · simp [handle_M, accesses, after, hfields, hvalid, hlength]

theorem handle_X_regs : (s.after (s.handle_X subcmd)).hart.regs =
    ((s.accesses ⟨.X, subcmd⟩).foldl perform s.hart).regs := by
  cases hcolon : subcmd.idxOf? 0x3a#8 with
  | none => simp [handle_X, accesses, after, hcolon]
  | some colon =>
    cases hfields : addrSize (subcmd.take colon) with
    | none => simp [handle_X, accesses, after, hcolon, hfields]
    | some fields =>
      obtain ⟨addr, size⟩ := fields
      by_cases hzero : size = 0
      · simp [handle_X, accesses, after, hcolon, hfields, hzero, writes]
      · cases hvalid : s.memoryRangeValid addr size with
        | false => simp [handle_X, accesses, after, hcolon, hfields, hzero, hvalid]
        | true =>
          by_cases hlength : ((subcmd.length - (colon + 1) : ℕ) : ℤ) < size
          · simp [handle_X, accesses, after, hcolon, hfields, hzero, hvalid, hlength,
              not_le.mpr hlength]
          · simp [handle_X, accesses, after, hcolon, hfields, hzero, hvalid, hlength,
              not_lt.mp hlength, writeMemoryBytes_eq]

theorem handle_Z_regs : (s.after (s.handle_Z subcmd)).hart.regs =
    ((s.accesses ⟨.Z, subcmd⟩).foldl perform s.hart).regs := by
  cases hfields : kindAddrSize subcmd with
  | none => simp [handle_Z, accesses, after, hfields]
  | some fields =>
    obtain ⟨kind, addr, size⟩ := fields
    by_cases hkind : kind = ascii "0"
    · cases hvalid : s.memoryRangeValid addr size with
      | false => simp [handle_Z, accesses, after, hfields, hkind, hvalid]
      | true =>
        cases hold : s.breakpoints.lookup addr.toNat with
        | some original => simp [handle_Z, accesses, after, hfields, hkind, hvalid, hold]
        | none =>
          obtain ⟨values, hvalues⟩ := readMemoryBytes_eq s.hart addr.toNat size.toNat
          simp [handle_Z, accesses, after, hfields, hkind, hvalid, hold, hvalues,
            writeMemoryBytes_eq]
    · simp [handle_Z, accesses, after, hfields, hkind]

theorem handle_z_regs : (s.after (s.handle_z subcmd)).hart.regs =
    ((s.accesses ⟨.z, subcmd⟩).foldl perform s.hart).regs := by
  cases hfields : kindAddrSize subcmd with
  | none => simp [handle_z, accesses, after, hfields]
  | some fields =>
    obtain ⟨kind, addr, size⟩ := fields
    by_cases hkind : kind = ascii "0"
    · cases hvalid : s.memoryRangeValid addr size with
      | false => simp [handle_z, accesses, after, hfields, hkind, hvalid]
      | true =>
        have hdata := writeMemoryBytes_eq s.hart addr.toNat
          ((s.breakpoints.lookup addr.toNat).getD [])
        have hwrites : s.accesses ⟨.z, subcmd⟩ =
            writes addr.toNat ((s.breakpoints.lookup addr.toNat).getD []) := by
          simp [accesses, hfields, hkind, hvalid]
        rw [hwrites]
        generalize (writes addr.toNat ((s.breakpoints.lookup addr.toNat).getD [])).foldl
          perform s.hart = hart at hdata ⊢
        obtain ⟨hart', hdcsr, hregs, -⟩ := updateDcsr_keeps hart (some false) none
        simp only [handle_z, hfields, hkind, hvalid, hdata, ne_eq, not_true, if_false,
          Bool.not_true, Bool.false_eq_true, Option.bind_eq_bind, Option.bind_some]
        rw [hdcsr]
        split_ifs
        · exact hregs
        · rfl
    · simp [handle_z, accesses, after, hfields, hkind]

theorem handle_regs (p : MemoryPacket) : (s.after (s.handle p)).hart.regs =
    ((s.accesses p).foldl perform s.hart).regs := by
  obtain ⟨cmd, subcmd⟩ := p
  cases cmd with
  | m => exact handle_m_regs s subcmd
  | M => exact handle_M_regs s subcmd
  | X => exact handle_X_regs s subcmd
  | Z => exact handle_Z_regs s subcmd
  | z => exact handle_z_regs s subcmd

theorem ebreakBytes_take {size : ℕ} (h : size ≠ 0) : ebreakBytes.take size ≠ [] := by
  obtain ⟨size, rfl⟩ := Nat.exists_eq_succ_of_ne_zero h
  exact List.cons_ne_nil _ _

theorem regular_writes_any (addr : ℕ) (data : List Byte) : Regular (writes addr data) := by
  cases data with
  | nil => exact regular_nil
  | cons value data => exact regular_writes [] addr (List.cons_ne_nil value data)

theorem accesses_regular (p : MemoryPacket) : Regular (s.accesses p) := by
  obtain ⟨cmd, subcmd⟩ := p
  cases cmd with
  | m =>
    unfold accesses
    dsimp only
    split
    · split_ifs
      · exact .inl ⟨_, _, rfl⟩
      · exact regular_nil
    · exact regular_nil
  | M =>
    unfold accesses
    dsimp only
    split
    · split_ifs
      · exact regular_writes_any _ _
      · exact regular_nil
    · exact regular_nil
  | X =>
    unfold accesses
    dsimp only
    split
    · split
      · split_ifs
        · exact regular_writes_any _ _
        · exact regular_nil
      · exact regular_nil
    · exact regular_nil
  | Z =>
    unfold accesses
    dsimp only
    split
    · rename_i size _
      split_ifs
      · by_cases hsize : size.toNat = 0
        · rw [hsize]
          exact regular_nil
        · exact regular_writes _ _ (ebreakBytes_take hsize)
      · exact regular_nil
    · exact regular_nil
  | z =>
    unfold accesses
    dsimp only
    split
    · split_ifs
      · exact regular_writes_any _ _
      · exact regular_nil
    · exact regular_nil

end RspState

/-- What the server does to the hart between two looks at the registers: a memory packet, or
a CSR access on behalf of another packet. -/
inductive RspAction
  | packet (p : MemoryPacket)
  | readCSR (csrAdr : BitVec 12)
  | writeCSR (csrAdr : BitVec 12) (value : Word)

namespace RspAction

/-- The state after the action; one that raises leaves it as it is. -/
def next (s : RspState) : RspAction → RspState
  | packet p => s.after (s.handle p)
  | readCSR csrAdr =>
    match DebugApi.readCSR s.hart csrAdr CSR_SCRATCH_GPR with
    | some (_, hart) => { s with hart }
    | none => s
  | writeCSR csrAdr value =>
    match DebugApi.writeCSR s.hart csrAdr value CSR_SCRATCH_GPR with
    | some hart => { s with hart }
    | none => s

def accesses (s : RspState) : RspAction → List ByteAccess
  | packet p => s.accesses p
  | _ => []

/-- The action moves no byte, or `x8` and `x9` are what its last access leaves there. -/
def Settled (s : RspState) (a : RspAction) : Prop :=
  ∀ access ∈ (a.accesses s).getLast?, access.Settled s.hart

def KeepsRegisters (s : RspState) (a : RspAction) : Prop := (a.next s).hart.regs = s.hart.regs

theorem keeps_iff (s : RspState) (a : RspAction) : a.KeepsRegisters s ↔ a.Settled s := by
  have hscratch : CSR_SCRATCH_GPR ≠ 0#5 := by decide
  cases a with
  | packet p =>
    unfold KeepsRegisters
    rw [next, s.handle_regs p]
    exact ByteAccess.performs_regs_iff s.hart (s.accesses_regular p)
  | readCSR csrAdr =>
    refine iff_of_true ?_ nofun
    unfold KeepsRegisters
    rw [next, DebugApi.readCSR_eq csrAdr hscratch]
    cases s.hart.readCsr csrAdr <;> rfl
  | writeCSR csrAdr value =>
    refine iff_of_true ?_ nofun
    unfold KeepsRegisters
    rw [next, DebugApi.writeCSR_eq csrAdr value hscratch]
    cases s.hart.readCsr csrAdr <;> rfl

end RspAction

def rspSession (s : RspState) : Clocked RspState RspAction where
  init := s
  step := fun s a => a.next s

/-- Over a session every action keeps the registers just when every one is settled. -/
theorem registers_kept_iff (s : RspState) (as : List RspAction) :
    (rspSession s).Along (fun s a => a.KeepsRegisters s) s as ↔
      (rspSession s).Along (fun s a => a.Settled s) s as :=
  Clocked.along_congr RspAction.keeps_iff

/-- Writing one byte leaves its address in `x8`. -/
theorem write_clobbers_x8 :
    ¬ (rspSession {}).Along (fun s a => a.KeepsRegisters s) {}
      [.packet ⟨.M, ascii "10,1:ab"⟩] := by
  intro h
  have h8 : (RspAction.next {} (.packet ⟨.M, ascii "10,1:ab"⟩)).hart.regs 8 = 0 :=
    congrFun h.1 8
  revert h8
  decide +kernel

end BonfireCore
