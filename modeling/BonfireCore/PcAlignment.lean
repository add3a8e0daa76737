import BonfireCore.AluResult
import BonfireCore.DebugCore
import BonfireCore.InstructionSemantics
import BonfireCore.RegisterStrobe

/-! The word alignment of every copy of the program counter. -/
namespace BonfireCore

/-- A multiple of four. -/
def WordAligned (a : Word) : Prop := a.toNat % 4 = 0

instance (a : Word) : Decidable (WordAligned a) := inferInstanceAs (Decidable (_ = _))

section Addresses
variable {a : Word}

theorem WordAligned.add_four (h : WordAligned a) : WordAligned (a + 4) := by
  have h4 : (4 : Word).toNat = 4 := rfl
  simp only [WordAligned, BitVec.toNat_add, h4] at h ⊢
  omega

theorem wordAligned_append (x : BitVec 30) : WordAligned (x ++ 0#2) := by
  rw [WordAligned, toNat_append_eq]
  simp

/-- The upper bits of an aligned address are the whole of it. -/
theorem WordAligned.append_extract (h : WordAligned a) : a.extractLsb' 2 30 ++ 0#2 = a := by
  apply BitVec.eq_of_toNat_eq
  have hlt := a.isLt
  simp only [WordAligned] at h
  rw [toNat_append_eq, BitVec.extractLsb'_toNat, Nat.shiftRight_eq_div_pow, BitVec.toNat_ofNat]
  omega

end Addresses

section Fetch

structure Fetch.Aligned (s : Fetch) : Prop where
  ip : WordAligned s.ip
  currentIp0 : WordAligned s.currentIp0
  currentIp1 : WordAligned s.currentIp1
  currentIp2 : WordAligned s.currentIp2

variable {s : Fetch} {i : FetchInput}

theorem Fetch.Aligned.advance (h : s.Aligned) : (s.advance i).Aligned := by
  have hip := h.ip
  have hnext := hip.add_four
  have h0 := h.currentIp0
  have h1 := h.currentIp1
  have h2 := h.currentIp2
  unfold Fetch.advance
  constructor <;> split_ifs <;> dsimp only <;> (try split_ifs) <;> assumption

/-- The addresses are those of the chosen branch of `fetch_proc`; the accounting of
requests touches none. -/
theorem Fetch.Aligned.of_eq {t : Fetch} (h : t.Aligned) {b : Bool} :
    { t with outstanding := b }.Aligned :=
  ⟨h.ip, h.currentIp0, h.currentIp1, h.currentIp2⟩

theorem Fetch.Aligned.step (h : s.Aligned) (hj : i.jump = true → WordAligned i.jumpDest) :
    (s.step i).Aligned := by
  unfold Fetch.step
  apply Fetch.Aligned.of_eq
  split_ifs with hrun hjump
  · exact ⟨h.ip, h.currentIp0, h.currentIp1, h.currentIp2⟩
  · simp only [newJump, Bool.and_eq_true] at hjump
    exact ⟨hj hjump.2.1, h.currentIp0, h.currentIp1, h.currentIp2⟩
  · have hadv := h.advance (i := i)
    exact ⟨hadv.ip, hadv.currentIp0, hadv.currentIp1, hadv.currentIp2⟩

end Fetch

section Decode

/-- The decoded jumps lead where their word says, and the addresses beside them are aligned. -/
structure DecodedOp.Fetched (op : DecodedOp) : Prop where
  mepc : WordAligned op.mepc
  nextIp : WordAligned op.nextIp
  branch : op.branchCmd = true → opClass op.debugWord = some .branch ∧
    op.jumpDest = op.debugCurrentIp + (getSBImmediate op.debugWord).signExtend 32
  jump : op.jumpCmd = true → opClass op.debugWord = some .jal ∧
    op.jumpDest = op.debugCurrentIp + (getUJImmediate op.debugWord).signExtend 32
  jumpr : op.jumprCmd = true → opClass op.debugWord = some .jalr ∧ op.funct7.getLsbD 5 = false ∧
    op.rs2Immediate = true ∧ op.rs2ImmValue = (getIImmediate op.debugWord).signExtend 32

/-- Where the specification takes a branch, JAL or JALR. -/
def DecodedOp.target (op : DecodedOp) (rs1 : Word) : Option Word :=
  match opClass op.debugWord with
  | some .branch => some (op.debugCurrentIp + (getSBImmediate op.debugWord).signExtend 32)
  | some .jal => some (op.debugCurrentIp + (getUJImmediate op.debugWord).signExtend 32)
  | some .jalr => some ((rs1 + (getIImmediate op.debugWord).signExtend 32) &&& ~~~1)
  | _ => none

theorem DecodedOp.Fetched.target_branch {op : DecodedOp} (h : op.Fetched) (rs1 : Word)
    (hb : op.branchCmd = true) : op.target rs1 = some op.jumpDest := by
  obtain ⟨hcls, hdest⟩ := h.branch hb
  simp only [DecodedOp.target, hcls, hdest]

theorem DecodedOp.Fetched.target_jump {op : DecodedOp} (h : op.Fetched) (rs1 : Word)
    (hj : op.jumpCmd = true) : op.target rs1 = some op.jumpDest := by
  obtain ⟨hcls, hdest⟩ := h.jump hj
  simp only [DecodedOp.target, hcls, hdest]

theorem DecodedOp.Fetched.target_jumpr {op : DecodedOp} (h : op.Fetched) (rs1 : Word)
    (hj : op.jumprCmd = true) :
    op.target rs1 = some ((rs1 + (getIImmediate op.debugWord).signExtend 32) &&& ~~~1) := by
  obtain ⟨hcls, -⟩ := h.jumpr hj
  simp only [DecodedOp.target, hcls]

theorem decodeWord_jumps (d : DecodedOp) {word currentIp nextIp : Word}
    (hc : WordAligned currentIp) (hn : WordAligned nextIp) :
    (d.decodeWord word currentIp nextIp).Fetched := by
  unfold DecodedOp.decodeWord
  cases hcls : opClass word with
  | none => constructor <;> simp [DecodedOp.base, hc, hn]
  | some cls =>
    cases cls with
    | system =>
      by_cases hpriv : word.extractLsb' 12 3 = Funct3.PRIV
      · constructor <;> simp [DecodedOp.decodeSystem, DecodedOp.base, hpriv, hc, hn]
      · cases h14 : word[14] <;> constructor <;>
          simp [DecodedOp.decodeSystem, DecodedOp.base, hpriv, h14, hc, hn]
    | _ => constructor <;> simp [DecodedOp.base, DecodedOp.decodeUpper, hc, hn, hcls]

theorem decode_fetched {d : Decode} (h : d.op.Fetched) (stall kill : Bool) {i : DecodeInput}
    (transfer : RegisterTransfer) (hc : WordAligned i.currentIp) (hn : WordAligned i.nextIp) :
    (d.step stall kill i transfer).op.Fetched := by
  have hclear (b f : Bool) : { d.op with invalidOpcode := b, fenceCmd := f }.Fetched :=
    ⟨h.mepc, h.nextIp, h.branch, h.jump, h.jumpr⟩
  unfold Decode.step
  split_ifs
  · constructor <;> simp [Decode.transferOp, h.mepc, h.nextIp]
  · exact hclear _ _
  · exact h
  · exact decodeWord_jumps _ hc hn
  · exact hclear _ _

end Decode

section Backend

namespace Backend
variable (c : CoreConfig) (b : Backend) (i : BackendInput)

/-- A control transfer that is executed has an aligned target. -/
def TargetAligned : Prop :=
  (b.jumpOut c i).jump = true → ∀ t ∈ b.decode.op.target (b.op1 c), WordAligned t

/-- A JALR that is executed computes an even sum. -/
def EvenJalr : Prop :=
  b.taken c i = true → opClass b.decode.op.debugWord = some .jalr →
    (b.op1 c + (getIImmediate b.decode.op.debugWord).signExtend 32).getLsbD 0 = false

instance : Decidable (b.TargetAligned c i) :=
  decidable_of_iff ((b.jumpOut c i).jump = true →
    (b.decode.op.target (b.op1 c)).all (WordAligned ·) = true) (by
      simp [TargetAligned, Option.all_eq_true])

instance : Decidable (b.EvenJalr c i) := inferInstanceAs (Decidable (_ → _ → _))

/-- The register file is written a link value. -/
def writesLink : Bool :=
  match c.pipelineLength with
  | .three => (b.jumpOut c i).jumpWe
  | .four => b.wb.jumpValid

/-- The copies of the program counter that a cycle shows: handed to Decode, written as a link
and saved by a trap. -/
structure PcAligned : Prop where
  currentIp : WordAligned i.fetch.currentIp
  nextIp : WordAligned i.fetch.nextIp
  link : b.writesLink c i = true → WordAligned (b.writePort c i).wd
  mepc : (b.jumpOut c i).update.weMepc = true →
    WordAligned b.decode.op.mepc ∧ (b.jumpOut c i).update.mepc ++ 0#2 = b.decode.op.mepc

structure Aligned : Prop where
  fetched : b.decode.op.Fetched
  wellFormed : b.decode.op.WellFormed
  jumpDestR : b.execute.jumpR = true → WordAligned b.execute.jumpDestR
  shifter : b.execute.alu.readyO = true → b.execute.alu.busyO = true
  link : b.wb.jumpValid = true →
    b.wb.aluValid = false ∧ b.wb.loadValid = false ∧ WordAligned b.wb.jumpData

variable {c} {b} {i}

theorem op2_immediate (hw : b.decode.op.WellFormed) (h : b.decode.op.rs2Immediate = true) :
    b.op2 c = b.decode.op.rs2ImmValue := by
  have huses : b.usesRs2 = false := by rw [usesRs2, hw.rs2Immediate h, Bool.and_false]
  simp [op2, forwarded, huses, Writeback.matchesSource, DecodedOp.op2, h]

/-- The ALU is JALR's adder. -/
theorem Aligned.jalr_res (h : b.Aligned) (hr : b.decode.op.jumprCmd = true)
    (ht : b.taken c i = true) :
    (b.execute.aluOut c (b.executeInput c i)).res =
      b.op1 c + (getIImmediate b.decode.op.debugWord).signExtend 32 := by
  obtain ⟨-, h7, himm, hval⟩ := h.fetched.jumpr hr
  obtain ⟨halu, h3⟩ := h.wellFormed.jumpr hr
  have hready : b.execute.alu.readyO = false := by
    cases hready : b.execute.alu.readyO with
    | false => rfl
    | true =>
      have hbusy := h.shifter hready
      simp [taken, Execute.taken, Execute.busy, hbusy] at ht
  generalize hk : b.execute.aluInput c (b.executeInput c i) = k
  have hf : k.funct3 = Funct3.ADD_SUB := by rw [← hk]; exact h3
  have hshift : k.isShift = false := by
    simp [AluInput.isShift, hf, Funct3.ADD_SUB, Funct3.SLL, Funct3.SRL_SRA]
  have hsub : k.subtract = false := by
    have hen : k.en = true := by
      rw [← hk]
      simp only [Execute.aluInput, DecodedOp.aluInput, Bool.and_eq_true]
      exact ⟨halu, ht⟩
    have hf7 : k.funct7_6 = false := by rw [← hk]; exact h7
    simp [AluInput.subtract, hen, hf, hf7]
  have hvalid : b.execute.alu.shiftValid c.shifterMode k = false := by
    cases c.shifterMode <;> simp [AluState.shiftValid, AluInput.shiftEn, hshift, hready]
  have hres : (b.execute.aluOut c (b.executeInput c i)).res = k.logic := by
    simp [Execute.aluOut, AluState.out, hk, hvalid]
  have h1 : k.op1 = b.op1 c := by rw [← hk]; rfl
  have h2 : k.op2 = b.op2 c := by rw [← hk]; rfl
  rw [hres, AluInput.logic, if_pos hf, AluInput.adder_add hsub, h1, h2,
    op2_immediate h.wellFormed himm, hval]

/-- Whatever the instruction does, the address beside the update is its own. -/
theorem jumpComb_mepc (op : DecodedOp) (alu : AluOutput) (trap : TrapCsr)
    (ebreakm progbufActive : Bool) :
    (jumpComb op alu trap ebreakm progbufActive).update.mepc = op.mepc.extractLsb' 2 30 := by
  unfold jumpComb
  cases branchTaken op.funct3 alu <;> dsimp only <;> split_ifs <;> rfl

/-- Every jump of Execute is to an aligned address. -/
theorem Aligned.jumpDest (h : b.Aligned) (ha : b.TargetAligned c i) (he : b.EvenJalr c i)
    (hj : (b.jumpOut c i).jump = true) : WordAligned (b.jumpOut c i).jumpDest := by
  have ht : b.taken c i = true := by
    cases ht : b.taken c i with
    | true => rfl
    | false =>
      have ht' : b.execute.taken c (b.executeInput c i) = false := ht
      simp [jumpOut, Execute.jumpOut, ht'] at hj
  have ha := ha hj
  have hout : b.jumpOut c i = jumpComb b.decode.op (b.execute.aluOut c (b.executeInput c i))
      b.execute.csr.trap (i.debug.debugCsr.any (·.ebreakm)) i.debug.progbufActive := if_pos ht
  rw [hout] at hj ⊢
  unfold jumpComb at hj ⊢
  cases hb : b.decode.op.branchCmd with
  | true =>
    have hbranch : WordAligned b.decode.op.jumpDest := ha _ (h.fetched.target_branch _ hb)
    rw [if_pos rfl]
    split <;> exact hbranch
  | false =>
    cases hjal : b.decode.op.jumpCmd with
    | true =>
      exact ha _ (h.fetched.target_jump _ hjal)
    | false =>
      cases hjalr : b.decode.op.jumprCmd with
      | true =>
        have htarget := ha _ (h.fetched.target_jumpr _ hjalr)
        rw [and_not_one (he ht (h.fetched.jumpr hjalr).1), ← h.jalr_res hjalr ht] at htarget
        exact htarget
      | false =>
        simp only [hb, hjal, hjalr, Bool.false_eq_true, if_false] at hj ⊢
        split_ifs at hj ⊢ <;> exact wordAligned_append _

theorem Aligned.jumpDestO (h : b.Aligned) (ha : b.TargetAligned c i) (he : b.EvenJalr c i)
    (hj : b.jumpO c i = true) : WordAligned (b.jumpDestO c i) := by
  simp only [jumpO, Backend.jumpDestO, Execute.jumpO, Execute.jumpDestO] at hj ⊢
  split_ifs at hj ⊢
  · exact h.jumpDest ha he hj
  · rw [Bool.and_eq_true] at hj
    exact h.jumpDestR hj.1

theorem Aligned.step (h : b.Aligned) (ha : b.TargetAligned c i) (he : b.EvenJalr c i)
    (hc : WordAligned i.fetch.currentIp) (hn : WordAligned i.fetch.nextIp) :
    (b.step c i).Aligned where
  fetched := decode_fetched h.fetched _ _ _ hc hn
  wellFormed := Watched.decode_wellFormed h.wellFormed _ _ _ _
  jumpDestR := by
    have hdest := h.jumpDest ha he
    show (if b.taken c i then (b.jumpOut c i).jump else b.execute.jumpR) = true →
      WordAligned (if b.taken c i then (b.jumpOut c i).jumpDest else b.execute.jumpDestR)
    split_ifs
    · exact hdest
    · exact h.jumpDestR
  shifter := by
    have hready := h.shifter
    have hen : (b.execute.aluInput c (b.executeInput c i)).shiftEn = true →
        b.execute.alu.readyO = false := by
      intro hshift
      cases hr : b.execute.alu.readyO with
      | false => rfl
      | true =>
        simp [Execute.aluInput, AluInput.shiftEn, DecodedOp.aluInput, Execute.taken, Execute.busy,
          hready hr] at hshift
    show (b.execute.alu.step _ _).readyO = true → (b.execute.alu.step _ _).busyO = true
    unfold AluState.step
    cases c.shifterMode with
    | pipelined =>
      intro hs
      simp only [Bool.and_eq_true, Bool.not_eq_true']
      exact ⟨hs, hen hs⟩
    | _ => exact hready
  link := by
    have hwb : (b.step c i).wb = if c.pipelineLength = .four then
        .capture c b.execute (b.executeInput c i) else b.wb := rfl
    rw [hwb]
    split_ifs with hp
    · intro hl
      have hl : (b.execute.jumpOut c (b.executeInput c i)).jumpWe = true := hl
      refine ⟨?_, ?_, h.fetched.nextIp⟩ <;> simp [Writeback.capture, hl]
    · exact h.link

theorem Aligned.pcAligned (h : b.Aligned) (hc : WordAligned i.fetch.currentIp)
    (hn : WordAligned i.fetch.nextIp) : b.PcAligned c i where
  currentIp := hc
  nextIp := hn
  link := by
    unfold writesLink writePort
    cases hp : c.pipelineLength with
    | three =>
      intro hl
      have hl : (b.execute.jumpOut c (b.executeInput c i)).jumpWe = true := hl
      simp only [Execute.resultO, hl, if_true]
      exact h.fetched.nextIp
    | four =>
      intro hl
      have hl : b.wb.jumpValid = true := hl
      obtain ⟨halu, hload, hdata⟩ := h.link hl
      simp only [Writeback.data, halu, hload, hl, Bool.false_eq_true, if_false, if_true]
      exact hdata
  mepc := by
    intro hm
    have hupdate : (b.jumpOut c i).update.mepc = b.decode.op.mepc.extractLsb' 2 30 := by
      unfold jumpOut Execute.jumpOut
      split_ifs
      · exact jumpComb_mepc _ _ _ _ _
      · rfl
    rw [hupdate]
    exact ⟨h.fetched.mepc, h.fetched.mepc.append_extract⟩

theorem aligned_init : ({} : Backend).Aligned where
  fetched := by constructor <;> simp [WordAligned]
  wellFormed := by constructor <;> simp [DecodedOp.usesRs1, DecodedOp.usesRs2]
  jumpDestR := fun h => absurd h Bool.false_ne_true
  shifter := id
  link := fun h => absurd h Bool.false_ne_true

end Backend
end Backend

section Runs

/-- Along a run every copy of the program counter is aligned. -/
structure Core.PcAligned (c : CoreConfig) (s : Core) (i : CoreInput) : Prop where
  request : WordAligned (s.ibusRequest c i).adr
  backend : s.backend.PcAligned c (s.backendInput i)
  mepc : WordAligned (s.backend.execute.csr.trap.mepc ++ 0#2)

def Core.TargetAligned (c : CoreConfig) (s : Core) (i : CoreInput) : Prop :=
  s.backend.TargetAligned c (s.backendInput i)

def Core.EvenJalr (c : CoreConfig) (s : Core) (i : CoreInput) : Prop :=
  s.backend.EvenJalr c (s.backendInput i)

instance (c : CoreConfig) (s : Core) (i : CoreInput) : Decidable (s.TargetAligned c i) :=
  inferInstanceAs (Decidable (s.backend.TargetAligned c _))

instance (c : CoreConfig) (s : Core) (i : CoreInput) : Decidable (s.EvenJalr c i) :=
  inferInstanceAs (Decidable (s.backend.EvenJalr c _))

/-- With a debug module, also the addresses a halt saves and the one a resume goes to. -/
structure DebugCore.PcAligned (c : CoreConfig) (s : DebugCore) (i : DebugCoreInput) : Prop where
  request : WordAligned (s.ibusRequest c i).adr
  backend : s.backend.PcAligned c (s.backendInput c i)
  mepc : WordAligned (s.backend.execute.csr.trap.mepc ++ 0#2)
  dpc : WordAligned (s.csr.dpc ++ 0#2)
  nextPc : WordAligned (s.events c i).nextPc
  ebreakPc : WordAligned (s.events c i).ebreakPc

def DebugCore.TargetAligned (c : CoreConfig) (s : DebugCore) (i : DebugCoreInput) : Prop :=
  s.backend.TargetAligned c (s.backendInput c i)

def DebugCore.EvenJalr (c : CoreConfig) (s : DebugCore) (i : DebugCoreInput) : Prop :=
  s.backend.EvenJalr c (s.backendInput c i)

instance (c : CoreConfig) (s : DebugCore) (i : DebugCoreInput) : Decidable (s.TargetAligned c i) :=
  inferInstanceAs (Decidable (s.backend.TargetAligned c _))

instance (c : CoreConfig) (s : DebugCore) (i : DebugCoreInput) : Decidable (s.EvenJalr c i) :=
  inferInstanceAs (Decidable (s.backend.EvenJalr c _))

structure Core.Aligned (s : Core) : Prop where
  fetch : s.fetch.Aligned
  backend : s.backend.Aligned

structure DebugCore.Aligned (s : DebugCore) : Prop where
  fetch : s.fetch.Aligned
  backend : s.backend.Aligned
  redirectPc : WordAligned s.hart.redirectPc
  nextPc : WordAligned s.adapter.architecturalNextPc

variable {c : CoreConfig}

theorem Fetch.aligned_reset (h : WordAligned c.resetAddress) : (Fetch.reset c).Aligned where
  ip := h
  currentIp0 := Nat.zero_mod 4
  currentIp1 := Nat.zero_mod 4
  currentIp2 := Nat.zero_mod 4

section Plain
variable {s : Core} {i : CoreInput}

theorem Core.Aligned.step (h : s.Aligned) (ha : s.TargetAligned c i) (he : s.EvenJalr c i) :
    (s.step c i).Aligned where
  fetch := h.fetch.step fun hj => h.backend.jumpDestO ha he hj
  backend := h.backend.step ha he h.fetch.currentIp0 h.fetch.currentIp0.add_four

theorem Core.Aligned.pcAligned (h : s.Aligned) : s.PcAligned c i where
  request := h.fetch.ip
  backend := h.backend.pcAligned h.fetch.currentIp0 h.fetch.currentIp0.add_four
  mepc := wordAligned_append _

end Plain

section Debug
variable {s : DebugCore} {i : DebugCoreInput}

/-- The flush changes nothing that Execute reads. -/
theorem DebugCore.jumpDestO_aligned (h : s.Aligned) (ha : s.TargetAligned c i)
    (he : s.EvenJalr c i) (hj : s.executeJump c i = true) :
    WordAligned (s.executeJumpDest c i) :=
  h.backend.jumpDestO (i := s.backendInput c i) ha he hj

theorem HartDebug.step_redirectPc {t : HartDebug} {h : HartControl} {csr : DebugCsr}
    {e : DebugPipelineEvents} (ht : WordAligned t.redirectPc) :
    WordAligned (t.step h csr e).redirectPc := by
  unfold HartDebug.step HartDebug.halt
  cases t.state <;> dsimp only <;> split_ifs <;> first | exact ht | exact wordAligned_append _

theorem DebugCore.Aligned.nextPc_aligned (h : s.Aligned) (ha : s.TargetAligned c i)
    (he : s.EvenJalr c i) : WordAligned (s.events c i).nextPc := by
  show WordAligned (if s.boundaryJump c i then _ else _)
  split_ifs with hb
  · simp only [boundaryJump, Bool.and_eq_true] at hb
    exact DebugCore.jumpDestO_aligned h ha he hb.2
  · exact h.nextPc

theorem DebugCore.Aligned.step (h : s.Aligned) (ha : s.TargetAligned c i) (he : s.EvenJalr c i) :
    (s.step c i).Aligned where
  fetch := by
    refine h.fetch.step fun hj => ?_
    show WordAligned (if s.hart.redirectValid then _ else _)
    split_ifs with hr
    · exact h.redirectPc
    · refine DebugCore.jumpDestO_aligned h ha he ?_
      simpa [DebugCore.fetchInput, hr] using hj
  backend := h.backend.step ha he h.fetch.currentIp0 h.fetch.currentIp0.add_four
  redirectPc := HartDebug.step_redirectPc h.redirectPc
  nextPc := by
    have hnext := h.nextPc_aligned ha he
    have hfetch := h.fetch.currentIp0.add_four
    have hpc : (s.adapterStep c i).architecturalNextPc =
        if s.hart.redirectValid then s.hart.redirectPc
        else if s.accepted c i && !progbufSource i then s.fetch.currentIp0 + 4
        else (s.events c i).nextPc := by
      unfold adapterStep events source
      split_ifs <;> rfl
    show WordAligned (s.adapterStep c i).architecturalNextPc
    rw [hpc]
    split_ifs
    · exact h.redirectPc
    · exact hfetch
    · exact hnext

theorem DebugCore.Aligned.pcAligned (h : s.Aligned) (ha : s.TargetAligned c i)
    (he : s.EvenJalr c i) : s.PcAligned c i where
  request := h.fetch.ip
  backend := h.backend.pcAligned h.fetch.currentIp0 h.fetch.currentIp0.add_four
  mepc := wordAligned_append _
  dpc := wordAligned_append _
  nextPc := h.nextPc_aligned ha he
  ebreakPc := h.backend.fetched.mepc

end Debug

/-- Without and with a debug module. -/
theorem pc_aligned (c : CoreConfig) (hreset : WordAligned c.resetAddress) :
    (∀ is : List CoreInput,
      (Core.machine c).Along (Core.TargetAligned c) (Core.reset c) is →
      (Core.machine c).Along (Core.EvenJalr c) (Core.reset c) is →
        (Core.machine c).Along (Core.PcAligned c) (Core.reset c) is) ∧
    ∀ is : List DebugCoreInput,
      (DebugCore.machine c).Along (DebugCore.TargetAligned c) (DebugCore.reset c) is →
      (DebugCore.machine c).Along (DebugCore.EvenJalr c) (DebugCore.reset c) is →
        (DebugCore.machine c).Along (DebugCore.PcAligned c) (DebugCore.reset c) is := by
  constructor
  · intro is ha he
    refine (ha.and he).mono Core.Aligned ?_ ?_ ?_
    · intro s i h hok
      exact h.step hok.1 hok.2
    · intro s i h hok
      exact h.pcAligned
    · exact ⟨Fetch.aligned_reset hreset, Backend.aligned_init⟩
  · intro is ha he
    refine (ha.and he).mono DebugCore.Aligned ?_ ?_ ?_
    · intro s i h hok
      exact h.step hok.1 hok.2
    · intro s i h hok
      exact h.pcAligned hok.1 hok.2
    · exact ⟨Fetch.aligned_reset hreset, Backend.aligned_init, Nat.zero_mod 4, hreset⟩

/-- The words of a program, each answered in the cycle after its request. -/
def answered (words : List Word) : List (DbusResponse 32) :=
  {} :: {} :: words.map fun w => { ack := true, dbRd := w }

/-- `jalr x1, x0, 8`. -/
def jalrEven : List (DbusResponse 32) := answered [0x008000e7, 0x13, 0x13]

/-- `jalr x1, x0, 1`: the specification goes to address 0. -/
def jalrOdd : List (DbusResponse 32) := answered [0x001000e7, 0x13, 0x13]

def silent : CoreInput := {}

/-- A jump, then a halt and a resume. -/
def haltedRun : List DebugCoreInput :=
  jalrEven.map (fun r => { ibus := r }) ++
    List.replicate 4 { control := { dmactive := true, haltreq := true } } ++
    List.replicate 4 { control := { dmactive := true, resumereq := true } }

theorem pc_aligned_jalr :
    (Core.machine {}).Along (Core.PcAligned {}) (Core.reset {})
        (jalrEven.map fun r => { ibus := r }) ∧
      (DebugCore.machine {}).Along (DebugCore.PcAligned {}) (DebugCore.reset {}) haltedRun :=
  ⟨(pc_aligned {} rfl).1 _ (by decide +kernel) (by decide +kernel),
    (pc_aligned {} rfl).2 _ (by decide +kernel) (by decide +kernel)⟩

theorem jalr_misaligns :
    WordAligned ({} : CoreConfig).resetAddress ∧
      (Core.machine {}).Along (Core.TargetAligned {}) (Core.reset {})
        (jalrOdd.map (fun r => { ibus := r }) ++ [silent]) ∧
      ¬ (Core.machine {}).Along (Core.PcAligned {}) (Core.reset {})
        (jalrOdd.map (fun r => { ibus := r }) ++ [silent]) := by
  refine ⟨rfl, by decide +kernel, fun h => ?_⟩
  have hlast := (Clocked.along_append.1 h).2.1.request
  exact absurd hlast (by decide +kernel)

end Runs

end BonfireCore
