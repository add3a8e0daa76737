import BonfireCore.HartCode

/-! The startup code of the SoC programs, as the assembler makes it: `_start` of `crt0.S` and of
`crt0_runtime.S`, and the state in which they call the C program. -/
namespace BonfireCore.Startup

open Rv32i (Instr Access Reg)
open Hart (label offset pcrelHi pcrelLo Holds AtCode Leads Apart)

def zero : Reg := 0
def ra : Reg := 1
def sp : Reg := 2
def gp : Reg := 3
def t0 : Reg := 5
def t1 : Reg := 6
def t2 : Reg := 7
def t3 : Reg := 28

/-- `la` at instruction `k`. -/
def la (base : Word) (k : ℕ) (rd : Reg) (sym : Word) : List Instr :=
  [.auipc rd (pcrelHi (label base k) sym), .aluImm .add rd rd (pcrelLo (label base k) sym)]

def call (base : Word) (k : ℕ) (sym : Word) : List Instr :=
  [.auipc ra (pcrelHi (label base k) sym), .jalr ra ra (pcrelLo (label base k) sym)]

/-- The symbols of `crt0.S`, as the linker gives them. -/
structure Symbols where
  stacktop : Word
  fbss : Word
  ebss : Word
  main : Word

/-- `crt0.S`. -/
def crt0 (base : Word) (s : Symbols) : List Instr :=
  la base 0 sp s.stacktop ++ la base 2 t0 s.fbss ++ la base 4 t1 s.ebss ++
  [.branch .eq t0 t1 (offset 4),
   .store .sw zero t0 0,
   .aluImm .add t0 t0 4,
   .branch .ltu t0 t1 (offset (-2))] ++
  call base 10 s.main ++
  [.jal zero 0]

/-- The symbols of `crt0_runtime.S`. -/
structure RuntimeSymbols where
  globalPointer : Word
  stacktop : Word
  dataSource : Word
  dataStart : Word
  dataEnd : Word
  bssStart : Word
  bssEnd : Word
  libcInitArray : Word
  main : Word

/-- `crt0_runtime.S`. -/
def crt0Runtime (base : Word) (s : RuntimeSymbols) : List Instr :=
  la base 0 gp s.globalPointer ++ la base 2 sp s.stacktop ++ la base 4 t0 s.dataSource ++
  la base 6 t1 s.dataStart ++ la base 8 t2 s.dataEnd ++
  [.branch .eq t0 t1 (offset 7),
   .branch .eq t1 t2 (offset 6),
   .load .lw t3 t0 0,
   .store .sw t3 t1 0,
   .aluImm .add t0 t0 4,
   .aluImm .add t1 t1 4,
   .jal zero (offset (-5))] ++
  la base 17 t0 s.bssStart ++ la base 19 t1 s.bssEnd ++
  [.branch .eq t0 t1 (offset 4),
   .store .sw zero t0 0,
   .aluImm .add t0 t0 4,
   .branch .ltu t0 t1 (offset (-2))] ++
  call base 25 s.libcInitArray ++ call base 27 s.main ++
  [.jal zero 0]

/-- A section of whole words. -/
structure Section (start stop : Word) : Prop where
  start_aligned : start.toNat % 4 = 0
  stop_aligned : stop.toNat % 4 = 0
  le : start.toNat ≤ stop.toNat

/-- The word at `adr` is in the section. -/
def Within (start stop adr : Word) : Prop :=
  start.toNat ≤ adr.toNat ∧ adr.toNat + 4 ≤ stop.toNat

/-- What the accesses of a code may touch. -/
def Touches (loads stores : Word → Prop) : Access → Prop
  | .load _ adr => loads adr
  | .store _ adr _ => stores adr

section Sections
variable {start stop : Word}

def bytes (start stop : Word) : ℕ := stop.toNat - start.toNat

theorem Section.words (h : Section start stop) :
    bytes start stop = 4 * (bytes start stop / 4) := by
  obtain ⟨h1, h2, h3⟩ := h
  simp only [bytes]
  omega

theorem Section.stop_eq (h : Section start stop) :
    stop = start + BitVec.ofNat 32 (bytes start stop) := by
  have hlt := stop.isLt
  have hle := h.le
  apply BitVec.eq_of_toNat_eq
  rw [Hart.toNat_add_word] <;> simp only [bytes] <;> omega

/-- An aligned word that begins in the section is within it. -/
theorem Section.within (h : Section start stop) {adr : Word} (hal : adr.toNat % 4 = 0)
    (hin : (adr - start).toNat < bytes start stop) : Within start stop adr := by
  have hlt := adr.isLt
  have hsub : (adr - start).toNat = (2 ^ 32 - start.toNat + adr.toNat) % 2 ^ 32 :=
    BitVec.toNat_sub _ _
  obtain ⟨h1, h2, h3⟩ := h
  have hs := stop.isLt
  simp only [bytes] at hin
  constructor <;> omega

end Sections

section Blocks
variable {base : Word} {code : List Instr} {k : ℕ}

/-- An instruction of a block that stands at `k` in the code. -/
theorem block_get {block : List Instr} {n : ℕ} (h : (code.drop k).take n = block) (j : ℕ)
    (hj : j < n) : code[k + j]? = block[j]? := by
  rw [← h, List.getElem?_take_of_lt hj, List.getElem?_drop]

/-- The clearing of a section. -/
def clear (base : Word) (k : ℕ) (start stop : Word) : List Instr :=
  la base k t0 start ++ la base (k + 2) t1 stop ++
  [.branch .eq t0 t1 (offset 4),
   .store .sw zero t0 0,
   .aluImm .add t0 t0 4,
   .branch .ltu t0 t1 (offset (-2))]

section Clear
variable {start stop : Word} (hcode : (code.drop k).take 8 = clear base k start stop)
  (may : Access → Prop) (h : Hart) (hm : Holds h.mem base code)
include hcode hm

/-- The bounds of the section. -/
theorem leads_bounds (hpc : h.pc = label base k) :
    h.Leads (AtCode base code may) 4
      (((h.set t0 start).set t1 stop).goto (label base (k + 4))) := by
  have hget := block_get hcode
  have hstart := Hart.leads_la may h hm hpc t0 start (by decide) (hget 0 (by decide))
    (hget 1 (by decide))
  have hstop := Hart.leads_la may ((h.set t0 start).goto (label base (k + 2))) hm rfl t1 stop
    (by decide) (hget 2 (by decide)) (hget 3 (by decide))
  rw [Hart.goto_set, Hart.goto_goto] at hstop
  exact hstart.trans hstop

/-- The loop between them, which an empty section does not enter. -/
theorem leads_clear_loop (hpc : h.pc = label base (k + 4)) (h0 : h.reg t0 = start)
    (h1 : h.reg t1 = stop) (hsec : Section start stop)
    (hapart : Apart base code start (bytes start stop))
    (hmay : ∀ adr, Within start stop adr → may (.store .sw adr 0)) :
    h.Leads (AtCode base code may) (1 + 3 * (bytes start stop / 4))
      (((h.zero start (bytes start stop)).set t0 stop).goto (label base (k + 8))) := by
  have hget := block_get hcode
  have hexit : label base (k + 4) + Rv32i.byteOffset (offset (w := 12) 4) = label base (k + 8) := by
    rw [show Rv32i.byteOffset (offset (w := 12) 4) = 16#32 by decide, label, label]
    bv_omega
  have hbranch := Hart.leads_branch may h hm hpc (hget 4 (by decide)) hexit
  rw [h0, h1] at hbranch
  have hwords := hsec.words
  have hend := hsec.stop_eq
  have hle := hsec.le
  have hlt := stop.isLt
  cases hcount : bytes start stop / 4 with
  | zero =>
    rw [hcount] at hwords
    have hsame : stop = start := by
      rw [hend, hwords]
      exact BitVec.add_zero start
    have htaken : Rv32i.Cond.eq.holds start stop = true := by
      rw [hsame]
      exact decide_eq_true rfl
    rw [htaken, if_pos rfl] at hbranch
    rw [hwords, Hart.zero_nil, hsame, ← h0, Hart.set_self h t0 (by decide)]
    exact hbranch
  | succ m =>
    rw [hcount] at hwords
    have hnot : Rv32i.Cond.eq.holds start stop = false := by
      refine decide_eq_false fun heq => ?_
      rw [← heq] at hwords
      simp [bytes] at hwords
    rw [hnot, if_neg Bool.false_ne_true] at hbranch
    have hfit : start.toNat + 4 * (m + 1) < 2 ^ 32 := by
      simp only [bytes] at hwords
      omega
    have hmem : Holds (h.goto (label base (k + 5))).mem base code := hm
    have hloop := Hart.leads_zero (show t0 ≠ 0 by decide) (show t1 ≠ t0 by decide)
      (hget 5 (by decide)) (hget 6 (by decide)) (hget 7 (by decide)) hmem rfl h0
      (by rw [← hwords, ← hend]; exact h1) hfit hsec.start_aligned
      (by rwa [hwords] at hapart) (fun a ha hlt => hmay a (hsec.within ha (by rwa [hwords])))
    rw [← hwords, ← hend, Hart.goto_zeroed, Hart.goto_set, Hart.goto_goto] at hloop
    exact hbranch.trans hloop

theorem leads_clear (hpc : h.pc = label base k) (hsec : Section start stop)
    (hapart : Apart base code start (bytes start stop))
    (hmay : ∀ adr, Within start stop adr → may (.store .sw adr 0)) :
    h.Leads (AtCode base code may) (5 + 3 * (bytes start stop / 4))
      ((((h.zero start (bytes start stop)).set t1 stop).set t0 stop).goto
        (label base (k + 8))) := by
  have hbounds := leads_bounds hcode may h hm hpc
  have hloop := leads_clear_loop hcode may
    (((h.set t0 start).set t1 stop).goto (label base (k + 4))) hm rfl
    (by rw [Hart.goto_reg, Hart.set_reg _ t1 _ (by decide), if_neg (by decide),
      Hart.set_reg _ t0 _ (by decide), if_pos rfl])
    (by rw [Hart.goto_reg, Hart.set_reg _ t1 _ (by decide), if_pos rfl]) hsec hapart hmay
  rw [Hart.goto_zeroed, Hart.set_zeroed, Hart.set_zeroed, Hart.goto_set, Hart.goto_goto,
    Hart.set_comm (h.zero start _) start (show t0 ≠ t1 by decide), Hart.set_set] at hloop
  rw [show 5 + 3 * (bytes start stop / 4) = 4 + (1 + 3 * (bytes start stop / 4)) by omega]
  exact hbounds.trans hloop

end Clear

end Blocks

section Crt0
variable {base : Word} {s : Symbols} {h : Hart}

/-- The instructions up to the call. -/
def crt0Count (s : Symbols) : ℕ := 7 + 3 * (bytes s.fbss s.ebss / 4)

/-- The state in which `main` is called. -/
def crt0Ready (s : Symbols) (h : Hart) : Hart :=
  (((h.zero s.fbss (bytes s.fbss s.ebss)).set sp s.stacktop).set t1 s.ebss).set t0 s.ebss

/-- `_start` of `crt0.S`, up to the call and with it. -/
theorem leads_crt0 (hm : Holds h.mem base (crt0 base s)) (hpc : h.pc = base)
    (hbss : Section s.fbss s.ebss)
    (hapart : Apart base (crt0 base s) s.fbss (bytes s.fbss s.ebss)) :
    h.Leads (AtCode base (crt0 base s) (Touches (fun _ => False) (Within s.fbss s.ebss)))
        (crt0Count s) ((crt0Ready s h).goto (label base 10)) ∧
      Holds (crt0Ready s h).mem base (crt0 base s) := by
  have hlabel : label base 0 = base := BitVec.add_zero base
  let may := Touches (fun _ => False) (Within s.fbss s.ebss)
  have hsp := Hart.leads_la may h hm (hpc.trans hlabel.symm) sp s.stacktop (by decide) rfl rfl
  have hclear := leads_clear rfl may ((h.set sp s.stacktop).goto (label base 2)) hm rfl hbss hapart
    fun _ hin => hin
  rw [Hart.goto_zeroed, Hart.set_zeroed, Hart.goto_set, Hart.goto_set, Hart.goto_goto] at hclear
  constructor
  · rw [show crt0Count s = 2 + (5 + 3 * (bytes s.fbss s.ebss / 4)) by unfold crt0Count; omega]
    exact hsp.trans hclear
  · exact hm.congr hapart fun a ha => if_neg ha

end Crt0

section Runtime
variable {base : Word} {s : RuntimeSymbols} {h : Hart}

/-- The sections are whole words, and data that has to be copied comes from elsewhere. -/
structure Linked (s : RuntimeSymbols) : Prop where
  data : Section s.dataStart s.dataEnd
  bss : Section s.bssStart s.bssEnd
  source_aligned : s.dataSource.toNat % 4 = 0
  source_fits : s.dataSource.toNat + bytes s.dataStart s.dataEnd < 2 ^ 32
  source : s.dataSource ≠ s.dataStart →
    Hart.Disjoint s.dataSource s.dataStart (bytes s.dataStart s.dataEnd)

/-- What the runtime's startup loads and stores. -/
def RuntimeTouches (s : RuntimeSymbols) : Access → Prop :=
  Touches (fun adr => s.dataSource.toNat ≤ adr.toNat ∧
      adr.toNat + 4 ≤ s.dataSource.toNat + bytes s.dataStart s.dataEnd)
    (fun adr => Within s.dataStart s.dataEnd adr ∨ Within s.bssStart s.bssEnd adr)

/-- The data section from its load address, and a clear bss section. -/
def runtimeMemory (s : RuntimeSymbols) (m : Rv32i.Bytes) : Rv32i.Bytes := fun a =>
  if (a - s.bssStart).toNat < bytes s.bssStart s.bssEnd then 0
  else if (a - s.dataStart).toNat < bytes s.dataStart s.dataEnd then
    m (s.dataSource + (a - s.dataStart))
  else m a

/-- The data section at its place. -/
theorem leads_data (hm : Holds h.mem base (crt0Runtime base s)) (hpc : h.pc = label base 10)
    (hl : Linked s) (hapart : Apart base (crt0Runtime base s) s.dataStart
      (bytes s.dataStart s.dataEnd)) (h0 : h.reg t0 = s.dataSource) (h1 : h.reg t1 = s.dataStart)
    (h2 : h.reg t2 = s.dataEnd) :
    ∃ n g, h.Leads (AtCode base (crt0Runtime base s) (RuntimeTouches s)) n g ∧
      n ≤ 2 + 6 * (bytes s.dataStart s.dataEnd / 4) ∧ g.pc = label base 17 ∧
      (∀ r, r ≠ t0 → r ≠ t1 → r ≠ t3 → g.reg r = h.reg r) ∧
      g.mem = (h.copy s.dataStart s.dataSource (bytes s.dataStart s.dataEnd)).mem := by
  have hexit : label base 10 + Rv32i.byteOffset (offset (w := 12) 7) = label base 17 :=
    Hart.label_add (by decide)
  have hbranch := Hart.leads_branch (RuntimeTouches s) h hm hpc rfl hexit
  rw [h0, h1] at hbranch
  by_cases hsame : s.dataSource = s.dataStart
  · have htaken : Rv32i.Cond.eq.holds s.dataSource s.dataStart = true := decide_eq_true hsame
    rw [htaken, if_pos rfl] at hbranch
    refine ⟨1, _, hbranch, by omega, rfl, fun r _ _ _ => rfl, ?_⟩
    funext a
    show h.mem a = if _ then h.mem (s.dataSource + (a - s.dataStart)) else h.mem a
    have hplace : s.dataStart + (a - s.dataStart) = a := by
      rw [BitVec.add_comm, BitVec.sub_add_cancel]
    rw [hsame, hplace, ite_self]
  · have hnot : Rv32i.Cond.eq.holds s.dataSource s.dataStart = false := decide_eq_false hsame
    rw [hnot, if_neg Bool.false_ne_true] at hbranch
    have hwords := hl.data.words
    have hend := hl.data.stop_eq
    have hle := hl.data.le
    have hlt := s.dataEnd.isLt
    have hsfit := hl.source_fits
    have hmem : Holds (h.goto (label base 11)).mem base (crt0Runtime base s) := hm
    have hload : ∀ a : Word, a.toNat % 4 = 0 →
        (a - s.dataSource).toNat < 4 * (bytes s.dataStart s.dataEnd / 4) →
        RuntimeTouches s (.load .lw a) := by
      intro a ha hin
      have hsrc := hl.source_aligned
      have hsub : (a - s.dataSource).toNat = (2 ^ 32 - s.dataSource.toNat + a.toNat) % 2 ^ 32 :=
        BitVec.toNat_sub _ _
      have halt := a.isLt
      show s.dataSource.toNat ≤ a.toNat ∧
        a.toNat + 4 ≤ s.dataSource.toNat + bytes s.dataStart s.dataEnd
      omega
    obtain ⟨v, hcopy⟩ := Hart.leads_copy
      (show t0 ≠ 0 by decide) (show t1 ≠ 0 by decide) (show t3 ≠ 0 by decide)
      (show t0 ≠ t1 by decide) (show t0 ≠ t3 by decide) (show t1 ≠ t3 by decide)
      (show t2 ≠ t0 by decide) (show t2 ≠ t1 by decide) (show t2 ≠ t3 by decide)
      rfl rfl rfl rfl rfl rfl hmem rfl h0 h1 hl.source_aligned hl.data.start_aligned
      (by rw [← hwords, ← hend]; exact h2) (by rw [← hwords]; simp only [bytes]; omega)
      (by rwa [← hwords]) (by rwa [← hwords])
      (by rw [← hwords]; exact hl.source hsame) hload
      (fun a v ha hin => .inl (hl.data.within ha (by rwa [hwords])))
    rw [← hwords] at hcopy
    refine ⟨_, _, hbranch.trans hcopy, by omega, rfl, fun r hr0 hr1 hr3 => ?_, rfl⟩
    rw [Hart.goto_reg, Hart.set_reg _ t1 _ (by decide), if_neg hr1,
      Hart.set_reg _ t0 _ (by decide), if_neg hr0, Hart.set_reg _ t3 _ (by decide), if_neg hr3]
    rfl

def runtimeCount (s : RuntimeSymbols) : ℕ :=
  17 + 6 * (bytes s.dataStart s.dataEnd / 4) + 3 * (bytes s.bssStart s.bssEnd / 4)

/-- `_start` of `crt0_runtime.S`, up to the call of `__libc_init_array`. -/
theorem leads_crt0Runtime (hm : Holds h.mem base (crt0Runtime base s)) (hpc : h.pc = base)
    (hl : Linked s)
    (hdata : Apart base (crt0Runtime base s) s.dataStart (bytes s.dataStart s.dataEnd))
    (hbss : Apart base (crt0Runtime base s) s.bssStart (bytes s.bssStart s.bssEnd)) :
    ∃ n g, h.Leads (AtCode base (crt0Runtime base s) (RuntimeTouches s)) n g ∧
      n ≤ runtimeCount s ∧ g.pc = label base 25 ∧ g.reg gp = s.globalPointer ∧
      g.reg sp = s.stacktop ∧ g.mem = runtimeMemory s h.mem ∧
      Holds g.mem base (crt0Runtime base s) := by
  have hlabel : label base 0 = base := BitVec.add_zero base
  have hgp := Hart.leads_la (RuntimeTouches s) h hm (hpc.trans hlabel.symm) gp s.globalPointer
    (by decide) rfl rfl
  have hsp := Hart.leads_la (RuntimeTouches s) ((h.set gp s.globalPointer).goto (label base 2))
    hm rfl sp s.stacktop (by decide) rfl rfl
  rw [Hart.goto_set, Hart.goto_goto] at hsp
  let x := (h.set gp s.globalPointer).set sp s.stacktop
  have ht0 := Hart.leads_la (RuntimeTouches s) (x.goto (label base 4)) hm rfl t0 s.dataSource
    (by decide) rfl rfl
  have ht1 := Hart.leads_la (RuntimeTouches s) ((x.set t0 s.dataSource).goto (label base 6)) hm rfl
    t1 s.dataStart (by decide) rfl rfl
  have ht2 := Hart.leads_la (RuntimeTouches s)
    (((x.set t0 s.dataSource).set t1 s.dataStart).goto (label base 8)) hm rfl t2 s.dataEnd
    (by decide) rfl rfl
  rw [Hart.goto_set, Hart.goto_goto] at ht0 ht1 ht2
  let y := ((x.set t0 s.dataSource).set t1 s.dataStart).set t2 s.dataEnd
  have hy (r : Reg) : (y.goto (label base 10)).reg r =
      if r = t2 then s.dataEnd else if r = t1 then s.dataStart else if r = t0 then s.dataSource
      else if r = sp then s.stacktop else if r = gp then s.globalPointer else h.reg r := by
    rw [Hart.goto_reg, Hart.set_reg _ t2 _ (by decide), Hart.set_reg _ t1 _ (by decide),
      Hart.set_reg _ t0 _ (by decide), Hart.set_reg _ sp _ (by decide),
      Hart.set_reg _ gp _ (by decide)]
  obtain ⟨n, g, hcopy, hn, hgpc, hkeep, hgmem⟩ := leads_data (h := y.goto (label base 10)) hm rfl hl
    hdata (hy t0) (hy t1) (hy t2)
  have hgm : Holds g.mem base (crt0Runtime base s) := by
    rw [hgmem]
    exact hm.congr hdata fun a ha => if_neg ha
  have hclear := leads_clear rfl (RuntimeTouches s) g hgm hgpc hl.bss hbss
    fun _ hin => .inr hin
  refine ⟨_, _, ((((hgp.trans hsp).trans ht0).trans ht1).trans ht2).trans (hcopy.trans hclear), ?_,
    rfl, ?_, ?_, ?_, ?_⟩
  · unfold runtimeCount
    omega
  · rw [Hart.goto_reg, Hart.set_reg _ t0 _ (by decide), if_neg (by decide),
      Hart.set_reg _ t1 _ (by decide), if_neg (by decide), Hart.zero_reg,
      hkeep gp (by decide) (by decide) (by decide), hy]
    rfl
  · rw [Hart.goto_reg, Hart.set_reg _ t0 _ (by decide), if_neg (by decide),
      Hart.set_reg _ t1 _ (by decide), if_neg (by decide), Hart.zero_reg,
      hkeep sp (by decide) (by decide) (by decide), hy]
    rfl
  · funext a
    show (if (a - s.bssStart).toNat < bytes s.bssStart s.bssEnd then 0 else g.mem a) = _
    rw [hgmem]
    rfl
  · exact hgm.congr hbss fun a ha => if_neg ha

end Runtime

end BonfireCore.Startup
