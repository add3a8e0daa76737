import BonfireCore.RspRegisters
import BonfireCore.UndoLog

/-! Software breakpoints and the memory under them. The server keeps what every breakpoint
covers and puts it back at its removal, whatever was written meanwhile and whichever other
breakpoint covers the same bytes. -/
namespace BonfireCore

/-- What a memory packet asks for. -/
inductive MemoryRequest
  | write (addr : ℕ) (data : List Byte)
  | insert (addr size : ℕ)
  | remove (addr size : ℕ)
  deriving DecidableEq, Repr

/-- The request of an `M`, `X`, `Z0` or `z0` packet. -/
def MemoryPacket.request (p : MemoryPacket) : Option MemoryRequest :=
  match p.cmd with
  | .m => none
  | .M => do
    let (addr, size, hexstring) ← RspState.addrSizeHex p.subcmd
    let data ← fromHex hexstring
    if 0 ≤ addr ∧ size = data.length ∧ hexstring.length = 2 * data.length then
      return .write addr.toNat data
    else none
  | .X => do
    let colon ← p.subcmd.idxOf? 0x3a
    let (addr, size) ← RspState.addrSize (p.subcmd.take colon)
    let data := (p.subcmd.drop (colon + 1)).take size.toNat
    if 0 ≤ addr ∧ size = data.length then return .write addr.toNat data else none
  | .Z => do
    let (kind, addr, size) ← RspState.kindAddrSize p.subcmd
    if kind = ascii "0" ∧ 0 ≤ addr ∧ 0 ≤ size then return .insert addr.toNat size.toNat else none
  | .z => do
    let (kind, addr, size) ← RspState.kindAddrSize p.subcmd
    if kind = ascii "0" ∧ 0 ≤ addr ∧ 0 ≤ size then return .remove addr.toNat size.toNat else none

/-- Some byte from `addr` is one from `addr'`. -/
def Overlap (addr size addr' size' : ℕ) : Prop := addr < addr' + size' ∧ addr' < addr + size

instance (addr size addr' size' : ℕ) : Decidable (Overlap addr size addr' size') :=
  inferInstanceAs (Decidable (_ ∧ _))

/-- Inserted breakpoints with the bytes they cover, the newest first. -/
abbrev BreakpointTable := List (ℕ × List Byte)

namespace BreakpointTable

/-- No breakpoint of the table has one of these bytes. -/
def Clear (table : BreakpointTable) (addr size : ℕ) : Prop :=
  ∀ b ∈ table, ¬ Overlap addr size b.1 b.2.length

instance (table : BreakpointTable) (addr size : ℕ) : Decidable (table.Clear addr size) :=
  inferInstanceAs (Decidable (∀ b ∈ table, _))

/-- The breakpoints that were inserted after the one at `addr`. -/
def newer (table : BreakpointTable) (addr : ℕ) : BreakpointTable :=
  table.takeWhile fun b => b.1 ≠ addr

end BreakpointTable

/-- The bytes exist, and the server accepts their addresses. -/
def Fits (memorySizeBytes : Option ℕ) (addr size : ℕ) : Prop :=
  addr + size ≤ 2 ^ 32 ∧ addr + size ≤ memorySizeBytes.getD (2 ^ 32)

namespace MemoryRequest

def InRange (memorySizeBytes : Option ℕ) : MemoryRequest → Prop
  | write addr data => Fits memorySizeBytes addr data.length
  | insert addr size | remove addr size => Fits memorySizeBytes addr size ∧ 1 ≤ size ∧ size ≤ 4

/-- No write to a byte of an inserted breakpoint; no breakpoint removed, or inserted again,
while a newer one shares its bytes; none inserted again with more bytes. -/
def Safe (table : BreakpointTable) : MemoryRequest → Prop
  | write addr data => table.Clear addr data.length
  | insert addr size =>
    match table.lookup addr with
    | none => True
    | some original => size ≤ original.length ∧ (table.newer addr).Clear addr size
  | remove addr _ =>
    match table.lookup addr with
    | none => True
    | some original => (table.newer addr).Clear addr original.length

instance (memorySizeBytes : Option ℕ) : ∀ r : MemoryRequest, Decidable (r.InRange memorySizeBytes)
  | write _ _ => inferInstanceAs (Decidable (_ ∧ _))
  | insert _ _ | remove _ _ => inferInstanceAs (Decidable ((_ ∧ _) ∧ _))

instance (table : BreakpointTable) : ∀ r : MemoryRequest, Decidable (r.Safe table)
  | write addr data => inferInstanceAs (Decidable (table.Clear addr data.length))
  | insert addr size =>
    match h : table.lookup addr with
    | none => .isTrue (by simp only [Safe, h])
    | some original =>
      decidable_of_iff (size ≤ original.length ∧ (table.newer addr).Clear addr size)
        (by simp only [Safe, h])
  | remove addr _ =>
    match h : table.lookup addr with
    | none => .isTrue (by simp only [Safe, h])
    | some original =>
      decidable_of_iff ((table.newer addr).Clear addr original.length) (by simp only [Safe, h])

end MemoryRequest

/-- The cells that `data` fills. -/
def cells (addr : ℕ) : List Byte → List (Word × Byte)
  | [] => []
  | value :: data => (BitVec.ofNat 32 addr, value) :: cells (addr + 1) data

def bytesAt (mem : Word → Byte) (addr : ℕ) : ℕ → List Byte
  | 0 => []
  | size + 1 => mem (BitVec.ofNat 32 addr) :: bytesAt mem (addr + 1) size

/-- The first bytes of the `EBREAK` encoding. -/
def ebreak (size : ℕ) : List Byte :=
  (List.range size).map fun i => EBREAK_INSN.extractLsb' (8 * i) 8

/-- The first `size` bytes of `EBREAK` are in memory at `addr`. -/
def Armed (mem : Word → Byte) (addr size : ℕ) : Prop := bytesAt mem addr size = ebreak size

namespace MemoryRequest

/-- What the packet of a request makes of the memory and the table. -/
def perform (mem : Word → Byte) (table : BreakpointTable) :
    MemoryRequest → (Word → Byte) × BreakpointTable
  | write addr data => (UndoLog.writes mem (cells addr data), table)
  | insert addr size =>
    match table.lookup addr with
    | some _ => (mem, table)
    | none =>
      (UndoLog.writes mem (cells addr (ebreak size)), (addr, bytesAt mem addr size) :: table)
  | remove addr _ =>
    (UndoLog.writes mem (cells addr ((table.lookup addr).getD [])),
      table.filter fun b => b.1 ≠ addr)

/-- What it makes of a memory without breakpoints. -/
def written (mem : Word → Byte) : MemoryRequest → (Word → Byte)
  | write addr data => UndoLog.writes mem (cells addr data)
  | insert _ _ | remove _ _ => mem

end MemoryRequest

@[simp] theorem cells_length (addr : ℕ) (data : List Byte) :
    (cells addr data).length = data.length := by
  induction data generalizing addr with
  | nil => rfl
  | cons value data ih => simp [cells, ih]

@[simp] theorem bytesAt_length (mem : Word → Byte) (addr size : ℕ) :
    (bytesAt mem addr size).length = size := by
  induction size generalizing addr with
  | zero => rfl
  | succ size ih => simp [bytesAt, ih]

@[simp] theorem ebreak_length (size : ℕ) : (ebreak size).length = size := by
  simp [ebreak]

theorem ebreakBytes_take_eq {size : ℕ} (h : size ≤ 4) : ebreakBytes.take size = ebreak size := by
  rw [ebreakBytes, ← List.map_take, List.take_range, min_eq_left h, ebreak]

theorem cells_keys_congr {data data' : List Byte} (addr : ℕ) (h : data.length = data'.length) :
    (cells addr data).map Prod.fst = (cells addr data').map Prod.fst := by
  induction data generalizing addr data' with
  | nil => rw [List.length_eq_zero_iff.mp h.symm]
  | cons value data ih =>
    cases data' with
    | nil => exact absurd h (Nat.succ_ne_zero _)
    | cons value' data' =>
      exact congrArg (_ :: ·) (ih (addr + 1) (Nat.succ.inj h))

/-- The address of a cell. -/
theorem mem_cells {addr : ℕ} {data : List Byte} {c : Word × Byte} (h : c ∈ cells addr data) :
    ∃ i < data.length, c.1 = BitVec.ofNat 32 (addr + i) := by
  induction data generalizing addr with
  | nil => exact absurd h List.not_mem_nil
  | cons value data ih =>
    rcases List.mem_cons.mp h with rfl | h
    · exact ⟨0, Nat.succ_pos _, rfl⟩
    · obtain ⟨i, hi, hc⟩ := ih h
      exact ⟨i + 1, Nat.succ_lt_succ hi, by rw [hc, Nat.add_assoc, Nat.add_comm 1]⟩

theorem ofNat_inj {a b : ℕ} (ha : a < 2 ^ 32) (hb : b < 2 ^ 32)
    (h : BitVec.ofNat 32 a = BitVec.ofNat 32 b) : a = b := by
  have h := congrArg BitVec.toNat h
  rwa [BitVec.toNat_ofNat, BitVec.toNat_ofNat, Nat.mod_eq_of_lt ha, Nat.mod_eq_of_lt hb] at h

/-- Bytes that do not overlap are different cells. -/
theorem cells_apart {addr addr' : ℕ} {data data' : List Byte}
    (h : ¬ Overlap addr data.length addr' data'.length) (hfits : addr + data.length ≤ 2 ^ 32)
    (hfits' : addr' + data'.length ≤ 2 ^ 32) :
    UndoLog.Apart (cells addr data) (cells addr' data') := by
  intro c hc c' hc' heq
  obtain ⟨i, hi, hci⟩ := mem_cells hc
  obtain ⟨j, hj, hcj⟩ := mem_cells hc'
  have hsame := ofNat_inj (by omega) (by omega) (hci.symm.trans (heq.trans hcj))
  exact h ⟨by omega, by omega⟩

theorem cells_nodup {addr : ℕ} {data : List Byte} (hfits : addr + data.length ≤ 2 ^ 32) :
    ((cells addr data).map Prod.fst).Nodup := by
  induction data generalizing addr with
  | nil => exact List.nodup_nil
  | cons value data ih =>
    have hlength : (value :: data).length = data.length + 1 := rfl
    refine List.nodup_cons.mpr ⟨fun hmem => ?_, ih (by omega)⟩
    obtain ⟨c, hc, heq⟩ := List.mem_map.mp hmem
    obtain ⟨i, hi, hci⟩ := mem_cells hc
    have hsame := ofNat_inj (by omega) (by omega) (hci.symm.trans heq)
    omega

theorem cells_bytesAt {mem : Word → Byte} {addr size : ℕ} {data : List Byte}
    (h : data.length = size) :
    cells addr (bytesAt mem addr size) = UndoLog.covered mem (cells addr data) := by
  induction data generalizing addr size with
  | nil =>
    subst h
    rfl
  | cons value data ih =>
    subst h
    exact congrArg (_ :: ·) (ih rfl)

theorem holds_cells_iff {mem : Word → Byte} {addr : ℕ} {data : List Byte} :
    UndoLog.Holds mem (cells addr data) ↔ bytesAt mem addr data.length = data := by
  induction data generalizing addr with
  | nil => exact iff_of_true nofun rfl
  | cons value data ih =>
    show (∀ c ∈ _ :: cells (addr + 1) data, mem c.1 = c.2) ↔ _ :: bytesAt mem (addr + 1) _ = _
    rw [List.forall_mem_cons, List.cons.injEq]
    exact and_congr_right fun _ => ih

theorem cells_take {addr size : ℕ} {data : List Byte} {c : Word × Byte}
    (h : c ∈ cells addr (data.take size)) : c ∈ cells addr data := by
  induction data generalizing addr size with
  | nil =>
    rw [List.take_nil] at h
    exact h
  | cons value data ih =>
    cases size with
    | zero => exact absurd h List.not_mem_nil
    | succ size =>
      rcases List.mem_cons.mp h with rfl | h
      · exact List.mem_cons_self
      · exact List.mem_cons_of_mem _ (ih h)

/-- A breakpoint as a patch of the memory. -/
def breakpointPatch (b : ℕ × List Byte) : UndoLog.Patch Word Byte where
  new := cells b.1 (ebreak b.2.length)
  old := cells b.1 b.2
  keys := cells_keys_congr b.1 (ebreak_length _).symm

namespace BreakpointTable

def log (table : BreakpointTable) : List (UndoLog.Patch Word Byte) := table.map breakpointPatch

/-- With all breakpoints undone the memory is as intended, and each is as it was inserted once
the newer ones are undone. -/
structure Consistent (table : BreakpointTable) (mem intended : Word → Byte) : Prop where
  unwind : UndoLog.unwind mem table.log = intended
  intact : UndoLog.Intact mem table.log
  distinct : (table.map Prod.fst).Nodup
  fits : ∀ b ∈ table, b.1 + b.2.length ≤ 2 ^ 32

variable {table : BreakpointTable} {mem intended : Word → Byte}

theorem Consistent.empty : Consistent [] mem mem where
  unwind := rfl
  intact := trivial
  distinct := List.nodup_nil
  fits := nofun

theorem clear_apart {addr : ℕ} {data : List Byte} (hclear : table.Clear addr data.length)
    (hfits : addr + data.length ≤ 2 ^ 32) (htable : ∀ b ∈ table, b.1 + b.2.length ≤ 2 ^ 32) :
    ∀ p ∈ table.log, UndoLog.Apart (cells addr data) p.new := by
  intro p hp
  obtain ⟨b, hb, rfl⟩ := List.mem_map.mp hp
  refine cells_apart ?_ hfits ?_
  · rw [ebreak_length]
    exact hclear b hb
  · rw [ebreak_length]
    exact htable b hb

/-- The entry of an inserted breakpoint splits the table. -/
theorem lookup_split {addr : ℕ} {original : List Byte} (h : table.lookup addr = some original) :
    ∃ older, table = table.newer addr ++ (addr, original) :: older := by
  induction table with
  | nil => exact absurd h (by simp)
  | cons b table ih =>
    by_cases hb : b.1 = addr
    · have hlookup : (b :: table).lookup addr = some b.2 := by
        rw [← hb]
        exact List.lookup_cons_self
      have horiginal : b.2 = original := Option.some.inj (hlookup.symm.trans h)
      refine ⟨table, ?_⟩
      rw [newer, List.takeWhile_cons_of_neg (by simpa using hb), ← hb, ← horiginal]
      rfl
    · have hlookup : (b :: table).lookup addr = table.lookup addr := by
        have hne : (addr == b.1) = false := beq_false_of_ne fun heq => hb heq.symm
        rw [show b = (b.1, b.2) from rfl, List.lookup_cons, hne]
      obtain ⟨older, holder⟩ := ih (hlookup.symm.trans h)
      refine ⟨older, ?_⟩
      rw [newer, List.takeWhile_cons_of_pos (by simpa using hb), List.cons_append]
      exact congrArg (b :: ·) holder

theorem lookup_none {addr : ℕ} (h : table.lookup addr = none) : addr ∉ table.map Prod.fst := by
  intro hmem
  obtain ⟨b, hb, rfl⟩ := List.mem_map.mp hmem
  have hne := List.lookup_eq_none_iff.mp h b hb
  simp at hne

/-- Removing an entry leaves the others. -/
theorem filter_split {newer older : BreakpointTable} {addr : ℕ} {original : List Byte}
    (h : ((newer ++ (addr, original) :: older).map Prod.fst).Nodup) :
    (newer ++ (addr, original) :: older).filter (fun b => b.1 ≠ addr) = newer ++ older := by
  rw [List.map_append, List.map_cons, List.nodup_append, List.nodup_cons] at h
  obtain ⟨-, ⟨holder, -⟩, hnewer⟩ := h
  have hkeepNewer : newer.filter (fun b => b.1 ≠ addr) = newer := by
    refine List.filter_eq_self.mpr fun b hb => ?_
    simpa using hnewer b.1 (List.mem_map_of_mem hb) addr List.mem_cons_self
  have hkeepOlder : older.filter (fun b => b.1 ≠ addr) = older := by
    refine List.filter_eq_self.mpr fun b hb => ?_
    have hne : b.1 ≠ addr := by
      rintro rfl
      have hmem : b.1 ∈ older.map Prod.fst := List.mem_map_of_mem hb
      exact holder hmem
    simpa using hne
  rw [List.filter_append, hkeepNewer, List.filter_cons_of_neg (by simp), hkeepOlder]

variable {addr size : ℕ}

theorem Consistent.write {data : List Byte} (h : table.Consistent mem intended)
    (hfits : addr + data.length ≤ 2 ^ 32) (hclear : table.Clear addr data.length) :
    table.Consistent (UndoLog.writes mem (cells addr data))
      (UndoLog.writes intended (cells addr data)) where
  unwind := by
    rw [UndoLog.unwind_writes mem (clear_apart hclear hfits h.fits), h.unwind]
  intact := UndoLog.intact_writes mem (clear_apart hclear hfits h.fits) h.intact
  distinct := h.distinct
  fits := h.fits

theorem breakpointPatch_bytesAt (mem : Word → Byte) (addr size : ℕ) :
    breakpointPatch (addr, bytesAt mem addr size) =
      UndoLog.Patch.apply mem (cells addr (ebreak size)) := by
  unfold breakpointPatch UndoLog.Patch.apply
  congr 1
  · rw [bytesAt_length]
  · exact cells_bytesAt (ebreak_length size)

theorem Consistent.insert (h : table.Consistent mem intended) (hfits : addr + size ≤ 2 ^ 32)
    (hnew : table.lookup addr = none) :
    Consistent ((addr, bytesAt mem addr size) :: table)
      (UndoLog.writes mem (cells addr (ebreak size))) intended where
  unwind := by
    rw [log, List.map_cons, breakpointPatch_bytesAt, UndoLog.unwind_apply]
    exact h.unwind
  intact := by
    rw [log, List.map_cons, breakpointPatch_bytesAt]
    exact UndoLog.intact_apply mem (cells_nodup (by rwa [ebreak_length])) h.intact
  distinct := List.nodup_cons.mpr ⟨lookup_none hnew, h.distinct⟩
  fits := by
    intro b hb
    rcases List.mem_cons.mp hb with rfl | hb
    · rwa [bytesAt_length]
    · exact h.fits b hb

/-- The newer breakpoints leave the bytes of one alone. -/
theorem newer_apart {data : List Byte} (h : table.Consistent mem intended)
    (hfits : addr + data.length ≤ 2 ^ 32) (hclear : (table.newer addr).Clear addr data.length) :
    ∀ p ∈ (table.newer addr).log, UndoLog.Apart (cells addr data) p.new :=
  clear_apart hclear hfits fun b hb => h.fits b ((List.takeWhile_sublist _).mem hb)

theorem Consistent.remove {original : List Byte} (h : table.Consistent mem intended)
    (hentry : table.lookup addr = some original)
    (hclear : (table.newer addr).Clear addr original.length) :
    Consistent (table.filter fun b => b.1 ≠ addr)
      (UndoLog.writes mem (cells addr original)) intended := by
  obtain ⟨older, hsplit⟩ := lookup_split hentry
  have hfits : addr + original.length ≤ 2 ^ 32 :=
    h.fits (addr, original) (hsplit ▸ List.mem_append_right _ List.mem_cons_self)
  have hapart : ∀ p ∈ (table.newer addr).log,
      UndoLog.Apart (breakpointPatch (addr, original)).new p.new :=
    newer_apart h (by rwa [ebreak_length]) (by rwa [ebreak_length])
  have hlog : table.log =
      (table.newer addr).log ++ breakpointPatch (addr, original) :: log older := by
    conv_lhs => rw [hsplit]
    exact List.map_append
  have hrest : table.filter (fun b => b.1 ≠ addr) = table.newer addr ++ older := by
    conv_lhs => rw [hsplit]
    exact filter_split (hsplit ▸ h.distinct)
  have hrestLog : log (table.newer addr ++ older) = (table.newer addr).log ++ log older :=
    List.map_append
  have hunwind := h.unwind
  have hintact := h.intact
  rw [hlog] at hunwind hintact
  rw [hrest]
  refine ⟨?_, ?_, ?_, ?_⟩
  · rw [hrestLog]
    exact (UndoLog.unwind_remove mem hapart).trans hunwind
  · rw [hrestLog]
    exact UndoLog.intact_remove mem hapart hintact
  · rw [← hrest]
    exact h.distinct.sublist (List.filter_sublist.map Prod.fst)
  · rw [← hrest]
    exact fun b hb => h.fits b (List.mem_of_mem_filter hb)

/-- A breakpoint whose first bytes no newer one shares is in memory. -/
theorem Consistent.armed {original : List Byte} (h : table.Consistent mem intended)
    (hentry : table.lookup addr = some original) (hsize : size ≤ original.length)
    (hfits : addr + size ≤ 2 ^ 32) (hclear : (table.newer addr).Clear addr size) :
    Armed mem addr size := by
  obtain ⟨older, hsplit⟩ := lookup_split hentry
  have htake : (ebreak original.length).take size = ebreak size := by
    rw [ebreak, ← List.map_take, List.take_range, min_eq_left hsize, ebreak]
  have hcells : ∀ c ∈ cells addr (ebreak size),
      c ∈ (breakpointPatch (addr, original)).new := by
    intro c hc
    rw [← htake] at hc
    exact cells_take hc
  have hintact := h.intact
  rw [hsplit, log, List.map_append, List.map_cons] at hintact
  have hholds := UndoLog.holds_of_intact mem hcells
    (newer_apart h (by rwa [ebreak_length]) (by rwa [ebreak_length])) hintact
  have hbytes := holds_cells_iff.mp hholds
  rwa [ebreak_length] at hbytes

end BreakpointTable

namespace MemoryRequest
open BreakpointTable
variable {table : BreakpointTable} {mem intended : Word → Byte} {r : MemoryRequest}
  {memorySizeBytes : Option ℕ}

/-- A safe request keeps the table consistent, with only writes changing what is intended. -/
theorem perform_consistent (h : table.Consistent mem intended) (hrange : r.InRange memorySizeBytes)
    (hsafe : r.Safe table) :
    Consistent (r.perform mem table).2 (r.perform mem table).1 (r.written intended) := by
  cases r with
  | write addr data => exact h.write hrange.1 hsafe
  | insert addr size =>
    cases hentry : table.lookup addr with
    | some original =>
      simp only [perform, hentry]
      exact h
    | none =>
      simp only [perform, hentry]
      exact h.insert hrange.1.1 hentry
  | remove addr size =>
    cases hentry : table.lookup addr with
    | some original =>
      have hclear : (table.newer addr).Clear addr original.length := by
        simpa only [Safe, hentry] using hsafe
      simp only [perform, hentry, Option.getD_some]
      exact h.remove hentry hclear
    | none =>
      have hnone : table.filter (fun b => b.1 ≠ addr) = table := by
        refine List.filter_eq_self.mpr fun b hb => ?_
        have hne : b.1 ≠ addr := by
          rintro rfl
          exact lookup_none hentry (List.mem_map_of_mem hb)
        simpa using hne
      simp only [perform, hentry, Option.getD_none, hnone]
      exact h

/-- After a safe insertion the `EBREAK` is there. -/
theorem perform_armed {addr size : ℕ} (h : table.Consistent mem intended)
    (hrange : (insert addr size).InRange memorySizeBytes) (hsafe : (insert addr size).Safe table) :
    Armed ((insert addr size).perform mem table).1 addr size := by
  have hfits : addr + size ≤ 2 ^ 32 := hrange.1.1
  cases hentry : table.lookup addr with
  | some original =>
    have hclear : size ≤ original.length ∧ (table.newer addr).Clear addr size := by
      simpa only [Safe, hentry] using hsafe
    simp only [perform, hentry]
    exact h.armed hentry hclear.1 hfits hclear.2
  | none =>
    have hfits' : addr + (ebreak size).length ≤ 2 ^ 32 := by rwa [ebreak_length]
    have hbytes := holds_cells_iff.mp (UndoLog.holds_writes mem (cells_nodup hfits'))
    simp only [perform, hentry]
    rwa [ebreak_length] at hbytes

end MemoryRequest

namespace ByteAccess

theorem performs_writes_mem (h : HaltedHart) (addr : ℕ) (data : List Byte) :
    ((writes addr data).foldl perform h).mem = UndoLog.writes h.mem (cells addr data) := by
  induction data generalizing h addr with
  | nil => rfl
  | cons value data ih => exact ih _ (addr + 1)

end ByteAccess

namespace RspState
open ByteAccess

/-- What `handle_Z` reads before it writes. -/
theorem readMemoryBytes_bytes (h : HaltedHart) (addr size : ℕ) :
    ∃ values h', readMemoryBytes h addr size = some (values, h') ∧ h'.mem = h.mem ∧
      values.map (BitVec.setWidth 8) = bytesAt h.mem addr size := by
  induction size generalizing h addr with
  | zero => exact ⟨[], h, rfl, rfl, rfl⟩
  | succ size ih =>
    obtain ⟨values, h', hread, hmem, hvalues⟩ :=
      ih (perform h (.read (BitVec.ofNat 32 addr))) (addr + 1)
    refine ⟨(h.mem (BitVec.ofNat 32 addr)).setWidth 32 :: values, h', ?_, hmem, ?_⟩
    · rw [readMemoryBytes, DebugApi.readMemory_byte, Option.bind_eq_bind, Option.bind_some]
      change (readMemoryBytes (perform h (.read (BitVec.ofNat 32 addr))) (addr + 1) size).bind _ = _
      rw [hread]
      rfl
    · rw [List.map_cons, hvalues, perform_read_mem, bytesAt]
      congr 1
      simp

/-- The packet is answered with `OK` and does to memory and table what it asks for. -/
structure Performs (s : RspState) (p : MemoryPacket) (r : MemoryRequest) : Prop where
  reply : (s.handle p).map Prod.fst = some (ascii "OK")
  performed : ((s.after (s.handle p)).hart.mem, (s.after (s.handle p)).breakpoints) =
    r.perform s.hart.mem s.breakpoints
  memorySize : (s.after (s.handle p)).memorySizeBytes = s.memorySizeBytes

variable {s : RspState} {subcmd : List Byte} {r : MemoryRequest}

theorem memoryRangeValid_of_fits {addr size : ℤ} (h : Fits s.memorySizeBytes addr.toNat size.toNat)
    (haddr : 0 ≤ addr) (hsize : 0 ≤ size) : s.memoryRangeValid addr size = true := by
  obtain ⟨-, hsize'⟩ := h
  unfold memoryRangeValid
  rw [if_neg (by omega)]
  cases hmemory : s.memorySizeBytes with
  | none => rfl
  | some memorySize =>
    rw [hmemory, Option.getD_some] at hsize'
    simp only [decide_eq_true_eq]
    omega

/-- A handler that writes and leaves the table alone. -/
theorem performs_write {addr : ℕ} {data : List Byte} {p : MemoryPacket}
    (h : s.handle p =
      (writeMemoryBytes s.hart addr data).map fun hart => (ascii "OK", { s with hart })) :
    s.Performs p (.write addr data) := by
  rw [writeMemoryBytes_eq, Option.map_some] at h
  refine ⟨by rw [h]; rfl, ?_, by rw [h]; rfl⟩
  rw [h]
  exact congrArg (·, s.breakpoints) (performs_writes_mem s.hart addr data)

theorem handle_M_performs (h : (MemoryPacket.mk .M subcmd).request = some r)
    (hrange : r.InRange s.memorySizeBytes) : s.Performs ⟨.M, subcmd⟩ r := by
  cases hfields : addrSizeHex subcmd with
  | none => simp [MemoryPacket.request, hfields] at h
  | some fields =>
    obtain ⟨addr, size, hexstring⟩ := fields
    cases hdata : fromHex hexstring with
    | none => simp [MemoryPacket.request, hfields, hdata] at h
    | some data =>
      simp only [MemoryPacket.request, hfields, hdata, Option.bind_eq_bind, Option.bind_some,
        Option.ite_none_right_eq_some, Option.pure_def, Option.some.injEq] at h
      obtain ⟨⟨haddr, rfl, hlength⟩, rfl⟩ := h
      have hvalid : s.memoryRangeValid addr data.length = true :=
        memoryRangeValid_of_fits hrange haddr (Int.natCast_nonneg data.length)
      have hdouble : (data.length : ℤ) * 2 = hexstring.length := by omega
      refine performs_write ?_
      simp [handle, handle_M, hfields, hvalid, hdouble, hdata, Option.map_eq_bind]

theorem handle_X_performs (h : (MemoryPacket.mk .X subcmd).request = some r)
    (hrange : r.InRange s.memorySizeBytes) : s.Performs ⟨.X, subcmd⟩ r := by
  cases hcolon : subcmd.idxOf? 0x3a#8 with
  | none => simp [MemoryPacket.request, hcolon] at h
  | some colon =>
    cases hfields : addrSize (subcmd.take colon) with
    | none => simp [MemoryPacket.request, hcolon, hfields] at h
    | some fields =>
      obtain ⟨addr, size⟩ := fields
      have hcolon' : subcmd.idxOf? 0x3a = some colon := hcolon
      simp only [MemoryPacket.request, hcolon', hfields, Option.bind_eq_bind, Option.bind_some,
        Option.ite_none_right_eq_some, Option.pure_def, Option.some.injEq] at h
      obtain ⟨⟨haddr, hsize⟩, rfl⟩ := h
      generalize hdata : (subcmd.drop (colon + 1)).take size.toNat = data at *
      refine performs_write ?_
      by_cases hzero : size = 0
      · have hnil : data = [] := List.length_eq_zero_iff.mp (by omega)
        subst hnil
        simp [handle, handle_X, hcolon, hfields, hzero, writeMemoryBytes]
      · have hlength : data.length = size.toNat := by omega
        have hfits : Fits s.memorySizeBytes addr.toNat size.toNat := hlength ▸ hrange
        have hvalid := memoryRangeValid_of_fits hfits haddr (by omega)
        have htake := congrArg List.length hdata
        rw [List.length_take, List.length_drop] at htake
        have hlong : ¬ ((subcmd.length - (colon + 1) : ℕ) : ℤ) < size := by omega
        simp [handle, handle_X, hcolon, hfields, hzero, hvalid, hdata, hlong, Option.map_eq_bind]

/-- The request of a `Z` or `z` packet. -/
theorem kindAddrSize_request {f : ℕ → ℕ → MemoryRequest} {fields : Option (List Byte × ℤ × ℤ)}
    (h : (fields.bind fun t =>
      if t.1 = ascii "0" ∧ 0 ≤ t.2.1 ∧ 0 ≤ t.2.2 then some (f t.2.1.toNat t.2.2.toNat) else none) =
        some r) :
    ∃ addr size, fields = some (ascii "0", addr, size) ∧ 0 ≤ addr ∧ 0 ≤ size ∧
      f addr.toNat size.toNat = r := by
  obtain ⟨⟨kind, addr, size⟩, hfields, h⟩ := Option.bind_eq_some_iff.mp h
  obtain ⟨⟨hkind, haddr, hsize⟩, hr⟩ := Option.ite_none_right_eq_some.mp h
  exact ⟨addr, size, hkind ▸ hfields, haddr, hsize, Option.some.inj hr⟩

theorem handle_Z_performs (h : (MemoryPacket.mk .Z subcmd).request = some r)
    (hrange : r.InRange s.memorySizeBytes) : s.Performs ⟨.Z, subcmd⟩ r := by
  obtain ⟨addr, size, hfields, haddr, hsize, rfl⟩ := kindAddrSize_request h
  obtain ⟨hfits, -, hsize4⟩ := hrange
  have hvalid := memoryRangeValid_of_fits hfits haddr hsize
  cases hentry : s.breakpoints.lookup addr.toNat with
  | some original =>
    have hhandle : s.handle ⟨.Z, subcmd⟩ = some (ascii "OK", s) := by
      simp [handle, handle_Z, hfields, hvalid, hentry]
    refine ⟨by rw [hhandle]; rfl, ?_, by rw [hhandle]; rfl⟩
    rw [hhandle]
    simp only [MemoryRequest.perform, hentry]
    rfl
  | none =>
    obtain ⟨values, hart, hread, hmem, hvalues⟩ :=
      readMemoryBytes_bytes s.hart addr.toNat size.toNat
    have hhandle : s.handle ⟨.Z, subcmd⟩ = some (ascii "OK", { s with
        hart := (writes addr.toNat (ebreak size.toNat)).foldl perform hart
        breakpoints :=
          (addr.toNat, bytesAt s.hart.mem addr.toNat size.toNat) :: s.breakpoints }) := by
      simp [handle, handle_Z, hfields, hvalid, hentry, hread, ebreakBytes_take_eq hsize4,
        writeMemoryBytes_eq, ← hvalues]
    refine ⟨by rw [hhandle]; rfl, ?_, by rw [hhandle]; rfl⟩
    rw [hhandle]
    simp only [MemoryRequest.perform, hentry]
    refine congrArg (·, _) ?_
    exact (performs_writes_mem hart addr.toNat _).trans (by rw [hmem])

theorem handle_z_performs (h : (MemoryPacket.mk .z subcmd).request = some r)
    (hrange : r.InRange s.memorySizeBytes) : s.Performs ⟨.z, subcmd⟩ r := by
  obtain ⟨addr, size, hfields, haddr, hsize, rfl⟩ := kindAddrSize_request h
  have hvalid := memoryRangeValid_of_fits hrange.1 haddr hsize
  have hwrite := writeMemoryBytes_eq s.hart addr.toNat
    ((s.breakpoints.lookup addr.toNat).getD [])
  have hmem := performs_writes_mem s.hart addr.toNat
    ((s.breakpoints.lookup addr.toNat).getD [])
  generalize (writes addr.toNat ((s.breakpoints.lookup addr.toNat).getD [])).foldl
    perform s.hart = hart at hwrite hmem
  obtain ⟨hart', hdcsr, -, hmem'⟩ := updateDcsr_keeps hart (some false) none
  have hhandle : ∃ hart'', hart''.mem = hart.mem ∧ s.handle ⟨.z, subcmd⟩ =
      some (ascii "OK", { s with
        hart := hart''
        breakpoints := s.breakpoints.filter fun b => b.1 ≠ addr.toNat }) := by
    simp only [handle, handle_z, hfields, hvalid, hwrite, ne_eq, not_true, if_false,
      Bool.not_true, Bool.false_eq_true, Option.bind_eq_bind, Option.bind_some]
    split_ifs
    · exact ⟨hart', hmem', by rw [hdcsr]; rfl⟩
    · exact ⟨hart, rfl, rfl⟩
  obtain ⟨hart'', hmem'', hhandle⟩ := hhandle
  refine ⟨by rw [hhandle]; rfl, ?_, by rw [hhandle]; rfl⟩
  rw [hhandle]
  exact congrArg (·, _) (hmem''.trans hmem)

theorem handle_performs {p : MemoryPacket} (h : p.request = some r)
    (hrange : r.InRange s.memorySizeBytes) : s.Performs p r := by
  obtain ⟨cmd, subcmd⟩ := p
  cases cmd with
  | m => exact absurd h nofun
  | M => exact handle_M_performs h hrange
  | X => exact handle_X_performs h hrange
  | Z => exact handle_Z_performs h hrange
  | z => exact handle_z_performs h hrange

end RspState

/-- The server over a sequence of memory packets. -/
def memorySession : Clocked RspState MemoryPacket where
  init := {}
  step := fun s p => s.after (s.handle p)

namespace MemoryPacket

/-- One of `M`, `X`, `Z0` and `z0`, with addresses that are in range. -/
def InRange (memorySizeBytes : Option ℕ) (p : MemoryPacket) : Prop :=
  match p.request with
  | some r => r.InRange memorySizeBytes
  | none => False

def Safe (s : RspState) (p : MemoryPacket) : Prop :=
  match p.request with
  | some r => r.Safe s.breakpoints
  | none => False

instance (memorySizeBytes : Option ℕ) (p : MemoryPacket) : Decidable (p.InRange memorySizeBytes) :=
  match h : p.request with
  | some r => decidable_of_iff (r.InRange memorySizeBytes) (by simp only [InRange, h])
  | none => .isFalse (by simp only [InRange, h, not_false_eq_true])

instance (s : RspState) (p : MemoryPacket) : Decidable (p.Safe s) :=
  match h : p.request with
  | some r => decidable_of_iff (r.Safe s.breakpoints) (by simp only [Safe, h])
  | none => .isFalse (by simp only [Safe, h, not_false_eq_true])

end MemoryPacket

/-- The initial memory with just the writes, in order. -/
def intendedMemory (mem : Word → Byte) (ps : List MemoryPacket) : Word → Byte :=
  (ps.filterMap MemoryPacket.request).foldl MemoryRequest.written mem

/-- Without a breakpoint left the memory is as intended, and an insertion that is answered `OK`
leaves the first bytes of `EBREAK` at its address. -/
structure Transparent (s : RspState) (ps : List MemoryPacket) : Prop where
  restored : ∀ front, front <+: ps → (memorySession.runFrom s front).breakpoints = [] →
    (memorySession.runFrom s front).hart.mem = intendedMemory s.hart.mem front
  armed : ∀ front p addr size, front ++ [p] <+: ps → p.request = some (.insert addr size) →
    ((memorySession.runFrom s front).handle p).map Prod.fst = some (ascii "OK") →
    Armed (memorySession.runFrom s (front ++ [p])).hart.mem addr size

section Run
variable {s : RspState} {ps : List MemoryPacket} {intended : Word → Byte}

/-- What a packet in range asks for. -/
theorem MemoryPacket.InRange.request {p : MemoryPacket} {memorySizeBytes : Option ℕ}
    (h : p.InRange memorySizeBytes) : ∃ r, p.request = some r ∧ r.InRange memorySizeBytes := by
  unfold MemoryPacket.InRange at h
  cases hr : p.request with
  | none =>
    rw [hr] at h
    exact h.elim
  | some r =>
    rw [hr] at h
    exact ⟨r, rfl, h⟩

theorem run_consistent (h : BreakpointTable.Consistent s.breakpoints s.hart.mem intended)
    (hrange : ∀ p ∈ ps, p.InRange s.memorySizeBytes)
    (hsafe : memorySession.Along MemoryPacket.Safe s ps) :
    BreakpointTable.Consistent (memorySession.runFrom s ps).breakpoints
        (memorySession.runFrom s ps).hart.mem (intendedMemory intended ps) ∧
      (memorySession.runFrom s ps).memorySizeBytes = s.memorySizeBytes := by
  induction ps generalizing s intended with
  | nil => exact ⟨h, rfl⟩
  | cons p ps ih =>
    obtain ⟨hsafe, hrest⟩ := hsafe
    obtain ⟨r, hr, hrangeR⟩ := (hrange p List.mem_cons_self).request
    have hsafeR : r.Safe s.breakpoints := by
      simpa only [MemoryPacket.Safe, hr] using hsafe
    obtain ⟨-, hperformed, hsize⟩ := RspState.handle_performs hr hrangeR
    have hstep := MemoryRequest.perform_consistent h hrangeR hsafeR
    rw [← hperformed] at hstep
    have hintended : intendedMemory intended (p :: ps) =
        intendedMemory (r.written intended) ps := by
      rw [intendedMemory, List.filterMap_cons_some hr]
      rfl
    obtain ⟨hconsistent, hsize'⟩ := ih hstep
      (fun q hq => hsize ▸ hrange q (List.mem_cons_of_mem p hq)) hrest
    rw [hintended]
    exact ⟨hconsistent, hsize'.trans hsize⟩

/-- In a run of safe packets breakpoints do not show in the memory. -/
theorem breakpoints_transparent (hnone : s.breakpoints = [])
    (hrange : ∀ p ∈ ps, p.InRange s.memorySizeBytes)
    (hsafe : memorySession.Along MemoryPacket.Safe s ps) : Transparent s ps := by
  have hstart : BreakpointTable.Consistent s.breakpoints s.hart.mem s.hart.mem :=
    hnone ▸ BreakpointTable.Consistent.empty
  refine ⟨?_, ?_⟩
  · rintro front ⟨rest, rfl⟩ hempty
    have hfront := (run_consistent hstart
      (fun p hp => hrange p (List.mem_append_left rest hp)) (Clocked.along_append.mp hsafe).1).1
    rw [hempty] at hfront
    exact hfront.unwind
  · rintro front p addr size ⟨rest, rfl⟩ hr -
    have hp := (hrange p (by simp)).request
    obtain ⟨hsafe, -⟩ := Clocked.along_append.mp hsafe
    obtain ⟨hsafe, hsafeP, -⟩ := Clocked.along_append.mp hsafe
    obtain ⟨hfront, hsize⟩ := run_consistent hstart
      (fun p hp => hrange p (by simp [hp])) hsafe
    obtain ⟨r, hr', hrangeR⟩ := hp
    obtain rfl := Option.some.inj (hr'.symm.trans hr)
    have hsafeR : (MemoryRequest.insert addr size).Safe
        (memorySession.runFrom s front).breakpoints := by
      simpa only [MemoryPacket.Safe, hr] using hsafeP
    have hperformed := (RspState.handle_performs (s := memorySession.runFrom s front) hr
      (hsize ▸ hrangeR)).performed
    have harmed := MemoryRequest.perform_armed hfront hrangeR hsafeR
    rw [← hperformed] at harmed
    rw [Clocked.runFrom_append]
    exact harmed

end Run

/-- Two breakpoints that share bytes, inserted twice and removed in the right order, with writes
beside them. -/
def nestedBreakpoints : List MemoryPacket :=
  [⟨.Z, ascii "0,10,4"⟩, ⟨.Z, ascii "0,12,4"⟩, ⟨.M, ascii "20,2:abcd"⟩, ⟨.Z, ascii "0,12,2"⟩,
    ⟨.Z, ascii "0,10,2"⟩, ⟨.z, ascii "0,12,4"⟩, ⟨.X, ascii "12345678,1:!"⟩, ⟨.z, ascii "0,10,4"⟩]

theorem breakpoints_transparent_nested : Transparent {} nestedBreakpoints :=
  breakpoints_transparent rfl (by decide +kernel) (by decide +kernel)

/-- A write over a breakpoint. -/
def overwritten : List MemoryPacket :=
  [⟨.Z, ascii "0,10,4"⟩, ⟨.M, ascii "10,1:ab"⟩, ⟨.z, ascii "0,10,4"⟩]

/-- Two breakpoints removed in the order of their insertion. -/
def crossed : List MemoryPacket :=
  [⟨.Z, ascii "0,10,4"⟩, ⟨.Z, ascii "0,12,4"⟩, ⟨.z, ascii "0,10,4"⟩, ⟨.z, ascii "0,12,4"⟩]

/-- A breakpoint inserted again with more bytes. -/
def enlarged : List MemoryPacket := [⟨.Z, ascii "0,10,2"⟩, ⟨.Z, ascii "0,10,4"⟩]

theorem unsafe_orders_show :
    ((∀ p ∈ overwritten, p.InRange none) ∧ ¬ Transparent {} overwritten) ∧
      ((∀ p ∈ crossed, p.InRange none) ∧ ¬ Transparent {} crossed) ∧
      ((∀ p ∈ enlarged, p.InRange none) ∧ ¬ Transparent {} enlarged) := by
  refine ⟨⟨by decide +kernel, fun h => ?_⟩, ⟨by decide +kernel, fun h => ?_⟩,
    ⟨by decide +kernel, fun h => ?_⟩⟩
  · have hlost := congrFun (h.restored _ (List.prefix_refl _) (by decide +kernel)) 0x10
    revert hlost
    decide +kernel
  · have hleft := congrFun (h.restored _ (List.prefix_refl _) (by decide +kernel)) 0x12
    revert hleft
    decide +kernel
  · have hshort := h.armed [⟨.Z, ascii "0,10,2"⟩] ⟨.Z, ascii "0,10,4"⟩ 16 4
      (List.prefix_refl _) (by decide +kernel) (by decide +kernel)
    revert hshort
    unfold Armed
    decide +kernel

end BonfireCore
