import BonfireCore.InstructionEffect

/-! The words that encode no instruction, on their way through Decode and Execute. -/
namespace BonfireCore

open Rv32i (Instr AluOp ImmOp ShiftOp Cond LoadKind StoreKind CsrOp Legal)

section Reassembly
variable (w : Word)

/-- The bits of `w` filled in up to `lo` stay when the next slice is filled in. -/
theorem getLsbD_setSlice_extract {n : ℕ} {v w : BitVec n} (lo l : ℕ) (hn : lo + l ≤ n)
    (h : ∀ j < lo, v.getLsbD j = w.getLsbD j) :
    ∀ j < lo + l, (setSlice v lo (w.extractLsb' lo l)).getLsbD j = w.getLsbD j := by
  intro j hj
  have hjn : j < n := by omega
  rw [getLsbD_setSlice]
  by_cases hlo : lo ≤ j
  · have h1 : j - lo < l := by omega
    have h2 : lo + (j - lo) = j := by omega
    rw [if_pos ⟨hlo, hj⟩, BitVec.getLsbD_extractLsb', h2]
    simp [hjn, h1]
  · rw [if_neg (fun h' => hlo h'.1), h j (by omega)]
    simp [hjn]

theorem base_extract : ∀ j < 20,
    (Rv32i.base (w.extractLsb' 0 7) (w.extractLsb' 7 5) (w.extractLsb' 12 3)
      (w.extractLsb' 15 5)).getLsbD j = w.getLsbD j := by
  have h7 := getLsbD_setSlice_extract (v := 0) (w := w) 0 7 (by decide)
    (fun _ hj => absurd hj (Nat.not_lt_zero _))
  have h12 := getLsbD_setSlice_extract (0 + 7) 5 (by decide) h7
  have h15 := getLsbD_setSlice_extract (0 + 7 + 5) 3 (by decide) h12
  exact getLsbD_setSlice_extract (0 + 7 + 5 + 3) 5 (by decide) h15

theorem rType_extract :
    Rv32i.rType (w.extractLsb' 0 7) (w.extractLsb' 7 5) (w.extractLsb' 12 3) (w.extractLsb' 15 5)
      (w.extractLsb' 20 5) (w.extractLsb' 25 7) = w := by
  have h25 := getLsbD_setSlice_extract 20 5 (by decide) (base_extract w)
  have h32 := getLsbD_setSlice_extract (20 + 5) 7 (by decide) h25
  exact BitVec.eq_of_getLsbD_eq h32

theorem iType_extract :
    Rv32i.iType (w.extractLsb' 0 7) (w.extractLsb' 7 5) (w.extractLsb' 12 3) (w.extractLsb' 15 5)
      (w.extractLsb' 20 12) = w := by
  have h32 := getLsbD_setSlice_extract 20 12 (by decide) (base_extract w)
  exact BitVec.eq_of_getLsbD_eq h32

theorem uType_extract :
    Rv32i.uType (w.extractLsb' 0 7) (w.extractLsb' 7 5) (w.extractLsb' 12 20) = w := by
  have h7 := getLsbD_setSlice_extract (v := 0) (w := w) 0 7 (by decide)
    (fun _ hj => absurd hj (Nat.not_lt_zero _))
  have h12 := getLsbD_setSlice_extract (0 + 7) 5 (by decide) h7
  have h32 := getLsbD_setSlice_extract (0 + 7 + 5) 20 (by decide) h12
  exact BitVec.eq_of_getLsbD_eq h32

theorem sType_extract :
    Rv32i.sType (w.extractLsb' 0 7) (w.extractLsb' 12 3) (w.extractLsb' 15 5) (w.extractLsb' 20 5)
      (getSImmediate w) = w := by
  have hlo : (getSImmediate w).extractLsb' 0 5 = w.extractLsb' 7 5 :=
    BitVec.extractLsb'_append_eq_right
  have hhi : (getSImmediate w).extractLsb' 5 7 = w.extractLsb' 25 7 :=
    BitVec.extractLsb'_append_eq_left
  rw [Rv32i.sType, hlo, hhi, rType_extract]

/-- `imm[12:1]` of a branch. -/
def branchOffset : BitVec 12 :=
  w.extractLsb' 31 1 ++ w.extractLsb' 7 1 ++ w.extractLsb' 25 6 ++ w.extractLsb' 8 4

theorem bType_extract :
    Rv32i.bType (w.extractLsb' 0 7) (w.extractLsb' 12 3) (w.extractLsb' 15 5) (w.extractLsb' 20 5)
      (branchOffset w) = w := by
  have h0 : (branchOffset w).extractLsb' 0 4 = w.extractLsb' 8 4 :=
    BitVec.extractLsb'_append_eq_right
  have h4 : (branchOffset w).extractLsb' 4 6 = w.extractLsb' 25 6 := by
    rw [branchOffset, BitVec.extractLsb'_append_eq_of_le (by decide)]
    exact BitVec.extractLsb'_append_eq_right
  have h10 : (branchOffset w).extractLsb' 10 1 = w.extractLsb' 7 1 := by
    rw [branchOffset, BitVec.extractLsb'_append_eq_of_le (by decide),
      BitVec.extractLsb'_append_eq_of_le (by decide)]
    exact BitVec.extractLsb'_append_eq_right
  have h11 : (branchOffset w).extractLsb' 11 1 = w.extractLsb' 31 1 := by
    rw [branchOffset, BitVec.extractLsb'_append_eq_of_le (by decide),
      BitVec.extractLsb'_append_eq_of_le (by decide)]
    exact BitVec.extractLsb'_append_eq_left
  have hrd : w.extractLsb' 8 4 ++ w.extractLsb' 7 1 = w.extractLsb' 7 5 :=
    BitVec.extractLsb'_append_extractLsb'_eq_extractLsb' (by decide)
  have hf7 : w.extractLsb' 31 1 ++ w.extractLsb' 25 6 = w.extractLsb' 25 7 :=
    BitVec.extractLsb'_append_extractLsb'_eq_extractLsb' (by decide)
  rw [Rv32i.bType, h0, h4, h10, h11, hrd, hf7, rType_extract]

/-- `imm[20:1]` of a jump. -/
def jumpOffset : BitVec 20 :=
  w.extractLsb' 31 1 ++ w.extractLsb' 12 8 ++ w.extractLsb' 20 1 ++ w.extractLsb' 21 10

theorem jType_extract :
    Rv32i.jType (w.extractLsb' 0 7) (w.extractLsb' 7 5) (jumpOffset w) = w := by
  have h0 : (jumpOffset w).extractLsb' 0 10 = w.extractLsb' 21 10 :=
    BitVec.extractLsb'_append_eq_right
  have h10 : (jumpOffset w).extractLsb' 10 1 = w.extractLsb' 20 1 := by
    rw [jumpOffset, BitVec.extractLsb'_append_eq_of_le (by decide)]
    exact BitVec.extractLsb'_append_eq_right
  have h11 : (jumpOffset w).extractLsb' 11 8 = w.extractLsb' 12 8 := by
    rw [jumpOffset, BitVec.extractLsb'_append_eq_of_le (by decide),
      BitVec.extractLsb'_append_eq_of_le (by decide)]
    exact BitVec.extractLsb'_append_eq_right
  have h19 : (jumpOffset w).extractLsb' 19 1 = w.extractLsb' 31 1 := by
    rw [jumpOffset, BitVec.extractLsb'_append_eq_of_le (by decide),
      BitVec.extractLsb'_append_eq_of_le (by decide)]
    exact BitVec.extractLsb'_append_eq_left
  have h22 : w.extractLsb' 31 1 ++ w.extractLsb' 21 10 = w.extractLsb' 21 11 :=
    BitVec.extractLsb'_append_extractLsb'_eq_extractLsb' (by decide)
  have h20 : w.extractLsb' 21 11 ++ w.extractLsb' 20 1 = w.extractLsb' 20 12 :=
    BitVec.extractLsb'_append_extractLsb'_eq_extractLsb' (by decide)
  have h12 : w.extractLsb' 20 12 ++ w.extractLsb' 12 8 = w.extractLsb' 12 20 :=
    BitVec.extractLsb'_append_extractLsb'_eq_extractLsb' (by decide)
  rw [Rv32i.jType, h0, h10, h11, h19, h22, h20, h12, uType_extract]

end Reassembly

section Legality
variable {w : Word}

/-- The opcode field of the words of a class. -/
def OpClass.opcode : OpClass → BitVec 7
  | op => 0b0110011
  | imm => 0b0010011
  | branch => 0b1100011
  | jal => 0b1101111
  | jalr => 0b1100111
  | lui => 0b0110111
  | auipc => 0b0010111
  | store => 0b0100011
  | load => 0b0000011
  | fence => 0b0001111
  | system => 0b1110011

theorem opcode_of_opClass {cls : OpClass} (h : opClass w = some cls) :
    w.extractLsb' 0 7 = cls.opcode := by
  have hsplit : w.extractLsb' 2 5 ++ w.extractLsb' 0 2 = w.extractLsb' 0 7 :=
    BitVec.extractLsb'_append_extractLsb'_eq_extractLsb' (by decide)
  rw [← hsplit]
  revert h
  unfold opClass
  generalize w.extractLsb' 2 5 = hi
  generalize w.extractLsb' 0 2 = lo
  revert hi lo
  cases cls <;> decide

/-- The fields that decide whether a word of the class is an encoding. -/
def LegalFields (w : Word) : OpClass → Prop
  | .op => ∃ op, AluOp.ofFunct (w.extractLsb' 25 7) (w.extractLsb' 12 3) = some op
  | .imm => (∃ op, ImmOp.ofFunct3 (w.extractLsb' 12 3) = some op) ∨
      ∃ op, ShiftOp.ofFunct (w.extractLsb' 25 7) (w.extractLsb' 12 3) = some op
  | .branch => ∃ cond, Cond.ofFunct3 (w.extractLsb' 12 3) = some cond
  | .jalr => w.extractLsb' 12 3 = 0
  | .store => ∃ kind, StoreKind.ofFunct3 (w.extractLsb' 12 3) = some kind
  | .load => ∃ kind, LoadKind.ofFunct3 (w.extractLsb' 12 3) = some kind
  | .fence => w.extractLsb' 12 3 = 0 ∨ w.extractLsb' 12 3 = 1
  | .system => (∃ op, CsrOp.ofFunct3 (w.extractLsb' 12 3) = some op) ∨
      w.extractLsb' 7 5 = 0 ∧ w.extractLsb' 12 3 = 0 ∧ w.extractLsb' 15 5 = 0 ∧
        w.extractLsb' 20 12 ∈ [PrivFunct12.ECALL, PrivFunct12.EBREAK, PrivFunct12.ERET]
  | .jal | .lui | .auipc => True

theorem legal_iType (ins : Instr) {opcode : BitVec 7} {rd rs1 : BitVec 5} {f3 : BitVec 3}
    {imm : BitVec 12} (h : ins.encode = Rv32i.iType opcode rd f3 rs1 imm)
    (hop : w.extractLsb' 0 7 = opcode) (hrd : w.extractLsb' 7 5 = rd)
    (h3 : w.extractLsb' 12 3 = f3) (hrs1 : w.extractLsb' 15 5 = rs1)
    (himm : w.extractLsb' 20 12 = imm) : Legal w :=
  ⟨ins, by rw [h, ← hop, ← hrd, ← h3, ← hrs1, ← himm, iType_extract]⟩

theorem legal_of_fields {cls : OpClass} (hc : opClass w = some cls) (h : LegalFields w cls) :
    Legal w := by
  have hop : w.extractLsb' 0 7 = cls.opcode := opcode_of_opClass hc
  cases cls with
  | op =>
    obtain ⟨op, hfind⟩ := h
    have hf : op.funct7 = w.extractLsb' 25 7 ∧ op.funct3 = w.extractLsb' 12 3 := by
      simpa using List.find?_some hfind
    refine ⟨.alu op (w.extractLsb' 7 5) (w.extractLsb' 15 5) (w.extractLsb' 20 5), ?_⟩
    have hword := rType_extract w
    rw [hop] at hword
    rw [Instr.encode, hf.1, hf.2]
    exact hword
  | imm =>
    rcases h with ⟨op, hfind⟩ | ⟨op, hfind⟩
    · have h3 : op.toAlu.funct3 = w.extractLsb' 12 3 := by simpa using List.find?_some hfind
      exact legal_iType (.aluImm op _ _ _) rfl hop rfl h3.symm rfl rfl
    · have hf : op.toAlu.funct7 = w.extractLsb' 25 7 ∧ op.toAlu.funct3 = w.extractLsb' 12 3 := by
        simpa using List.find?_some hfind
      refine ⟨.shiftImm op (w.extractLsb' 7 5) (w.extractLsb' 15 5) (w.extractLsb' 20 5), ?_⟩
      have hword := rType_extract w
      rw [hop] at hword
      rw [Instr.encode, hf.1, hf.2]
      exact hword
  | branch =>
    obtain ⟨cond, hfind⟩ := h
    have h3 : cond.funct3 = w.extractLsb' 12 3 := by simpa using List.find?_some hfind
    refine ⟨.branch cond (w.extractLsb' 15 5) (w.extractLsb' 20 5) (branchOffset w), ?_⟩
    have hword := bType_extract w
    rw [hop] at hword
    rw [Instr.encode, h3]
    exact hword
  | jal =>
    refine ⟨.jal (w.extractLsb' 7 5) (jumpOffset w), ?_⟩
    have hword := jType_extract w
    rw [hop] at hword
    exact hword
  | jalr => exact legal_iType (.jalr _ _ _) rfl hop rfl h rfl rfl
  | lui =>
    refine ⟨.lui (w.extractLsb' 7 5) (w.extractLsb' 12 20), ?_⟩
    have hword := uType_extract w
    rw [hop] at hword
    exact hword
  | auipc =>
    refine ⟨.auipc (w.extractLsb' 7 5) (w.extractLsb' 12 20), ?_⟩
    have hword := uType_extract w
    rw [hop] at hword
    exact hword
  | store =>
    obtain ⟨kind, hfind⟩ := h
    have h3 : kind.funct3 = w.extractLsb' 12 3 := by simpa using List.find?_some hfind
    refine ⟨.store kind (w.extractLsb' 20 5) (w.extractLsb' 15 5) (getSImmediate w), ?_⟩
    have hword := sType_extract w
    rw [hop] at hword
    rw [Instr.encode, h3]
    exact hword
  | load =>
    obtain ⟨kind, hfind⟩ := h
    have h3 : kind.funct3 = w.extractLsb' 12 3 := by simpa using List.find?_some hfind
    exact legal_iType (.load kind _ _ _) rfl hop rfl h3.symm rfl rfl
  | fence =>
    rcases h with h3 | h3
    · exact legal_iType (.fence false _ _ _) rfl hop rfl h3 rfl rfl
    · exact legal_iType (.fence true _ _ _) rfl hop rfl h3 rfl rfl
  | system =>
    rcases h with ⟨op, hfind⟩ | ⟨hrd, h3, hrs1, himm⟩
    · have h3 : op.funct3 = w.extractLsb' 12 3 := by simpa using List.find?_some hfind
      exact legal_iType (.csr op _ _ _) rfl hop rfl h3.symm rfl rfl
    · simp only [List.mem_cons, List.not_mem_nil, or_false] at himm
      rcases himm with himm | himm | himm
      · exact legal_iType .ecall rfl hop hrd h3 hrs1 himm
      · exact legal_iType .ebreak rfl hop hrd h3 hrs1 himm
      · exact legal_iType .mret rfl hop hrd h3 hrs1 himm

theorem fields_of_legal (ins : Instr) : LegalFields ins.encode ins.opClass := by
  cases ins with
  | lui | auipc | jal => trivial
  | jalr rd rs1 imm => exact (Rv32i.iType_fields _ _ _ _ _).2.2.1
  | branch cond rs1 rs2 offset =>
    refine ⟨cond, ?_⟩
    rw [Instr.encode, Rv32i.bType, (Rv32i.rType_fields _ _ _ _ _ _).2.2.1]
    cases cond <;> rfl
  | load kind rd rs1 imm =>
    refine ⟨kind, ?_⟩
    rw [Instr.encode, (Rv32i.iType_fields _ _ _ _ _).2.2.1]
    cases kind <;> rfl
  | store kind rs2 rs1 imm =>
    refine ⟨kind, ?_⟩
    rw [Instr.encode, Rv32i.sType, (Rv32i.rType_fields _ _ _ _ _ _).2.2.1]
    cases kind <;> rfl
  | aluImm op rd rs1 imm =>
    refine .inl ⟨op, ?_⟩
    rw [Instr.encode, (Rv32i.iType_fields _ _ _ _ _).2.2.1]
    cases op <;> rfl
  | shiftImm op rd rs1 shamt =>
    refine .inr ⟨op, ?_⟩
    obtain ⟨-, -, h3, -, -, h7⟩ :=
      Rv32i.rType_fields 0b0010011 rd rs1 shamt op.toAlu.funct3 op.toAlu.funct7
    rw [Instr.encode, h3, h7]
    cases op <;> rfl
  | alu op rd rs1 rs2 =>
    refine ⟨op, ?_⟩
    obtain ⟨-, -, h3, -, -, h7⟩ := Rv32i.rType_fields 0b0110011 rd rs1 rs2 op.funct3 op.funct7
    rw [Instr.encode, h3, h7]
    cases op <;> rfl
  | fence instructions rd rs1 imm =>
    have h3 := (Rv32i.iType_fields 0b0001111 rd rs1 (if instructions then 1 else 0) imm).2.2.1
    cases instructions with
    | false => exact .inl h3
    | true => exact .inr h3
  | csr op rd source adr =>
    refine .inl ⟨op, ?_⟩
    rw [Instr.encode, (Rv32i.iType_fields _ _ _ _ _).2.2.1]
    cases op <;> rfl
  | ecall =>
    obtain ⟨-, hrd, h3, hrs1, himm⟩ := Rv32i.iType_fields 0b1110011 0 0 0 0
    exact .inr ⟨hrd, h3, hrs1, by rw [Instr.encode, himm]; decide⟩
  | ebreak =>
    obtain ⟨-, hrd, h3, hrs1, himm⟩ := Rv32i.iType_fields 0b1110011 0 0 0 1
    exact .inr ⟨hrd, h3, hrs1, by rw [Instr.encode, himm]; decide⟩
  | mret =>
    obtain ⟨-, hrd, h3, hrs1, himm⟩ := Rv32i.iType_fields 0b1110011 0 0 0 0x302
    exact .inr ⟨hrd, h3, hrs1, by rw [Instr.encode, himm]; decide⟩

instance : ∀ cls, Decidable (LegalFields w cls)
  | .op => decidable_of_iff _ Option.isSome_iff_exists
  | .imm => decidable_of_iff _ (or_congr Option.isSome_iff_exists Option.isSome_iff_exists)
  | .branch | .store | .load => decidable_of_iff _ Option.isSome_iff_exists
  | .jalr => inferInstanceAs (Decidable (w.extractLsb' 12 3 = 0))
  | .fence => inferInstanceAs (Decidable (w.extractLsb' 12 3 = 0 ∨ w.extractLsb' 12 3 = 1))
  | .system => decidable_of_iff _ (or_congr Option.isSome_iff_exists Iff.rfl)
  | .jal | .lui | .auipc => inferInstanceAs (Decidable True)

/-- The words that are encodings, by the fields of their class. -/
theorem legal_iff : Legal w ↔ ∃ cls, opClass w = some cls ∧ LegalFields w cls := by
  refine ⟨?_, fun ⟨_, hc, hf⟩ => legal_of_fields hc hf⟩
  rintro ⟨ins, rfl⟩
  exact ⟨ins.opClass, opClass_encode ins, fields_of_legal ins⟩

theorem not_legal (cls : OpClass) (hc : opClass w = some cls) (hf : ¬ LegalFields w cls) :
    ¬ Legal w := by
  rw [legal_iff]
  rintro ⟨cls', hc', hf'⟩
  rw [hc] at hc'
  exact hf (Option.some.inj hc' ▸ hf')

end Legality

section Kinds
variable (w : Word)

/-- The word is no encoding because of fields that the core does not decode. -/
def ignoresFields : Bool :=
  match opClass w with
  | some .op => (AluOp.ofFunct (w.extractLsb' 25 7) (w.extractLsb' 12 3)).isNone
  | some .imm => (ImmOp.ofFunct3 (w.extractLsb' 12 3)).isNone &&
      (ShiftOp.ofFunct (w.extractLsb' 25 7) (w.extractLsb' 12 3)).isNone
  | some .jalr => w.extractLsb' 12 3 ≠ 0
  | some .fence => w.extractLsb' 12 3 ≠ 0 && w.extractLsb' 12 3 ≠ 1
  | some .system => w.extractLsb' 12 3 = 0 &&
      w.extractLsb' 20 12 ∈ [PrivFunct12.ECALL, PrivFunct12.EBREAK, PrivFunct12.ERET] &&
      (w.extractLsb' 7 5 ≠ 0 || w.extractLsb' 15 5 ≠ 0)
  | _ => false

/-- The accesses that the check of the load/store unit misses or does not stop: an unsigned
load of a word, and stores with a sign bit. -/
def missedAccess : Bool :=
  match opClass w with
  | some .load => w.extractLsb' 12 3 = 6
  | some .store => w.extractLsb' 12 3 ∈ [4#3, 5#3, 6#3]
  | _ => false

/-- The words that Decode, Execute, the CSR unit or the load/store unit rejects. -/
def rejected : Bool :=
  match opClass w with
  | none => true
  | some .branch => w.extractLsb' 12 3 ∈ [2#3, 3#3]
  | some .load | some .store => w.extractLsb' 12 3 ∈ [3#3, 7#3]
  | some .system => w.extractLsb' 12 3 = 4 || w.extractLsb' 12 3 = 0 &&
      w.extractLsb' 20 12 ∉ [PrivFunct12.ECALL, PrivFunct12.EBREAK, PrivFunct12.ERET]
  | _ => false

variable {w}

theorem rejected_of_illegal (h : ¬ Legal w) (hi : ignoresFields w = false)
    (hm : missedAccess w = false) : rejected w = true := by
  cases hc : opClass w with
  | none => simp [rejected, hc]
  | some cls =>
    have hf : ¬ LegalFields w cls := fun hf => h (legal_of_fields hc hf)
    simp only [ignoresFields, missedAccess, hc] at hi hm
    cases cls with
    | jal | lui | auipc => exact absurd trivial hf
    | op => exact absurd (Option.isSome_iff_exists.1 (by simpa using hi)) hf
    | imm =>
      refine absurd ?_ hf
      rw [LegalFields, ← Option.isSome_iff_exists, ← Option.isSome_iff_exists]
      cases h1 : ImmOp.ofFunct3 (w.extractLsb' 12 3) <;> simp_all
    | jalr =>
      have h3 : w.extractLsb' 12 3 = 0#3 := by simpa using hi
      exact absurd h3 hf
    | fence =>
      refine absurd ?_ hf
      simp only [LegalFields]
      by_contra hne
      simp_all
    | branch =>
      rw [LegalFields, ← Option.isSome_iff_exists] at hf
      simp only [rejected, hc]
      revert hf
      generalize w.extractLsb' 12 3 = f3
      revert f3
      decide
    | load =>
      rw [LegalFields, ← Option.isSome_iff_exists] at hf
      simp only [rejected, hc]
      revert hf hm
      generalize w.extractLsb' 12 3 = f3
      revert f3
      decide
    | store =>
      rw [LegalFields, ← Option.isSome_iff_exists] at hf
      simp only [rejected, hc]
      revert hf hm
      generalize w.extractLsb' 12 3 = f3
      revert f3
      decide
    | system =>
      have hcsr : CsrOp.ofFunct3 (w.extractLsb' 12 3) = none := by
        by_contra hne
        exact hf (.inl (Option.ne_none_iff_exists'.1 hne))
      have h3 : w.extractLsb' 12 3 = 0 ∨ w.extractLsb' 12 3 = 4 := by
        revert hcsr
        generalize w.extractLsb' 12 3 = f3
        revert f3
        decide
      simp only [rejected, hc]
      rcases h3 with h3 | h3
      · by_cases himm :
            w.extractLsb' 20 12 ∈ [PrivFunct12.ECALL, PrivFunct12.EBREAK, PrivFunct12.ERET]
        · have hregs : w.extractLsb' 7 5 = 0#5 ∧ w.extractLsb' 15 5 = 0#5 := by
            simpa [h3, himm] using hi
          exact absurd (.inr ⟨hregs.1, h3, hregs.2, himm⟩) hf
        · simp [h3, himm]
      · simp [h3]

end Kinds

namespace Execute

/-- Execute alone, run on what Decode and the data bus show it. -/
def machine (c : CoreConfig) : Clocked Execute ExecuteInput where
  init := {}
  step := step c

section Definitions
variable (c : CoreConfig) (s : Execute) (i : ExecuteInput) (js : List ExecuteInput)

/-- The cycle writes no CSR but the running cycle counter and nothing else, except that in some
configurations the write strobe of the register file does not belong to any operation. -/
structure Effectless : Prop where
  jump : (s.jumpOut c i).jump = false
  csrWe : (s.csr.select c i.debugCsr (s.csrInput c i)).csrWe = false
  csr : (s.step c i).csr = { s.csr with mcycle := s.csr.mcycle + 1 }
  memory : (s.step c i).ls.request.en = true → (s.step c i).ls.request.we = 0
  register : c.shifterMode ≠ .behavioral →
    c.registeredReadStage = true ∨ c.pipelineLength = .four → (s.writePort c i).we = false

/-- One of the four signals tells of the word that is offered in the first cycle. -/
def Raises : Prop :=
  i.op.invalidOpcode = true ∨ (s.jumpOut c i).invalidOpcodeFault = true ∨
    (s.csrOutput c i).invalidOp = true ∨
    ((machine c).runFrom s (i :: js)).ls.invalidOpO = true

end Definitions

/-- The decoded word is offered, unless Decode has found it invalid, and then nothing more. -/
structure Passes (d : DecodedOp) (i : ExecuteInput) (js : List ExecuteInput) : Prop where
  op : i.op = d
  valid : i.valid = !d.invalidOpcode
  hazard : i.hazard = false
  alone : ∀ j ∈ js, j.valid = false

variable {c : CoreConfig} {s : Execute} {i j : ExecuteInput} {js : List ExecuteInput}

/-- What a rejected word leaves behind: at most a read that the load/store unit flags. -/
structure Inert (c : CoreConfig) (s : Execute) : Prop where
  alu : s.alu.Quiet
  reads : s.ls.busEn = true → s.ls.weO = 0
  invalid : s.ls.outstanding = true → s.ls.pipeInvalidOp = true
  validReg : c.registeredReadStage = true → s.ls.validReg = true → s.ls.earlyTerm c = true

theorem Clear.inert (h : s.Clear c) : s.Inert c where
  alu := h.alu
  reads hb := absurd hb (by simp [h.ls.busEn])
  invalid ho := absurd ho (by simp [h.ls.outstanding])
  validReg := h.ls.validReg

theorem Inert.validComb {r : DbusResponse 32} (h : s.Inert c) : s.ls.validComb r = false := by
  cases ho : s.ls.outstanding with
  | false => simp [LoadStore.validComb, LoadStore.confirm, ho]
  | true => simp [LoadStore.validComb, h.invalid ho]

theorem Inert.strobes {r : DbusResponse 32} (h : s.Inert c) :
    s.ls.validO c r = false ∧ (c.registeredReadStage = true → s.ls.writeO c = false) := by
  have hv := h.validReg
  constructor
  · cases hreg : c.registeredReadStage <;> cases he : s.ls.earlyTerm c <;>
      simp_all [LoadStore.validO, h.validComb]
  · intro hreg
    cases hval : s.ls.validReg with
    | false => simp [LoadStore.writeO, hreg, hval]
    | true =>
      have hst : s.ls.pipeStore = true := by
        have he := hv hreg hval
        simp only [LoadStore.earlyTerm, Bool.and_eq_true] at he
        exact he.1
      simp [LoadStore.writeO, hreg, hst]

/-- No unit has a result and nothing jumps. -/
theorem Inert.register (h : s.Inert c)
    (halu : c.shifterMode ≠ .behavioral → (s.aluOut c i).valid = false)
    (hcsr : (s.csrOutput c i).valid = false) (hjump : (s.jumpOut c i).jumpWe = false)
    (hm : c.shifterMode ≠ .behavioral)
    (hq : c.registeredReadStage = true ∨ c.pipelineLength = .four) :
    (s.writePort c i).we = false := by
  obtain ⟨hvalid, hwrite⟩ := h.strobes (r := i.dbus)
  rcases hq with hreg | hp
  · cases hp : c.pipelineLength <;>
      simp [writePort, hp, regWeO, validO, halu hm, hcsr, hjump, hwrite hreg]
  · simp [writePort_four hp, validO, halu hm, hcsr, hjump, hvalid]

theorem trap_update_off (t : TrapCsr) {u : TrapCsrUpdate} (h : u.weMepc = false)
    (h1 : u.weMcause = false) (h2 : u.mstatusTrapEnter = false) (h3 : u.mstatusTrapExit = false)
    (h4 : u.mtval = 0) : t.update u = t := by
  simp [TrapCsr.update, h, h1, h2, h3, h4]

theorem csr_step_off {u : TrapCsrUpdate} (debug : Option DebugCsr) {k : CsrInput}
    (hk : (k.en && k.writeRequested) = false) (hu : s.csr.trap.update u = s.csr.trap) :
    (s.csr.select c debug k).csrWe = false ∧
      s.csr.step c debug k u = { s.csr with mcycle := s.csr.mcycle + 1 } := by
  obtain ⟨hwe, hlow, hhigh⟩ : (s.csr.select c debug k).csrWe = false ∧
      (s.csr.select c debug k).mcycleLowWe = false ∧
      (s.csr.select c debug k).mcycleHighWe = false := Csr.select_unrequested hk
  exact ⟨hwe, by simp [Csr.step, hwe, hlow, hhigh, hu]⟩

/-- A cycle in which nothing is taken. -/
theorem Inert.idle (h : s.Inert c) (ht : s.taken c i = false) :
    s.Effectless c i ∧ (s.step c i).Inert c := by
  have hls : (s.lsInput c i).en = false := by simp [lsInput, DecodedOp.lsInput, ht]
  have hcsr : (s.csrInput c i).en = false := by simp [csrInput, DecodedOp.csrInput, ht]
  have hjump : s.jumpOut c i = { update := i.op.trapUpdate } := by simp [jumpOut, ht]
  have hu : s.csr.trap.update (s.jumpOut c i).update = s.csr.trap := by
    rw [hjump]
    exact trap_update_off _ rfl rfl rfl rfl rfl
  obtain ⟨hwe, hstep⟩ := csr_step_off (c := c) (s := s) i.debugCsr (k := s.csrInput c i)
    (by simp [hcsr]) hu
  have hbus : (s.step c i).ls.busEn = true → (s.step c i).ls.weO = 0 := by
    intro hb
    have hb' : s.ls.busEn = true := by
      simp only [step, LoadStore.step, hls, Bool.false_and, Bool.false_eq_true, if_false] at hb
      split at hb
      · exact hb
      · cases hb
    simpa [step, LoadStore.step, hls] using h.reads hb'
  refine ⟨⟨by rw [hjump], hwe, hstep, hbus, fun hm hq => ?_⟩, ?_, hbus, ?_, ?_⟩
  · exact h.register (fun hm => aluOut_idle hm h.alu ht) (csrOutput_idle ht) (jumpOut_idle ht).2
      hm hq
  · exact h.alu.step fun _ => by simp [aluInput, DecodedOp.aluInput, AluInput.shiftEn, ht]
  · intro ho
    have ho' : s.ls.outstanding = true := by
      simp only [step, LoadStore.step, hls, Bool.false_and, Bool.not_false, Bool.true_and,
        Bool.false_eq_true, if_false] at ho
      split at ho
      · cases ho
      · exact ho
    simpa [step, LoadStore.step, hls] using h.invalid ho'
  · intro _ hv
    have : s.ls.validComb i.dbus = true := hv
    simp [h.validComb] at this

/-- What Decode makes of a word that has no effect: a unit refuses it, or none is asked. -/
structure Harmless (op : DecodedOp) : Prop where
  alu : op.aluCmd = false
  jump : op.jumpCmd = false ∧ op.jumprCmd = false
  branch : op.branchCmd = true → op.funct3 = 2 ∨ op.funct3 = 3
  system : op.sysCmd = true → op.branchCmd = false ∧
    op.privFunct12 ∉ [PrivFunct12.ECALL, PrivFunct12.EBREAK, PrivFunct12.ERET]
  csr : op.csrCmd = true → op.funct3 = 4
  access : (op.storeCmd || op.loadCmd) = true → op.funct3 = 3 ∨ op.funct3 = 7

/-- A unit is asked that can refuse. -/
def commands (op : DecodedOp) : Bool :=
  op.branchCmd || op.sysCmd || op.csrCmd || (op.storeCmd || op.loadCmd)

theorem rejected_decode {word : Word} (h : rejected word = true) (d : DecodedOp)
    (currentIp nextIp : Word) (hv : (d.decodeWord word currentIp nextIp).invalidOpcode = false) :
    Harmless (d.decodeWord word currentIp nextIp) ∧
      commands (d.decodeWord word currentIp nextIp) = true := by
  unfold DecodedOp.decodeWord at hv ⊢
  cases hc : opClass word with
  | none => simp [hc] at hv
  | some cls =>
    simp only [rejected, hc] at h
    cases cls with
    | system =>
      by_cases h3 : word.extractLsb' 12 3 = 0#3
      · have h12 : word.extractLsb' 20 12 ∉
            [PrivFunct12.ECALL, PrivFunct12.EBREAK, PrivFunct12.ERET] := by
          simpa [h3] using h
        refine ⟨?_, by simp [commands, DecodedOp.decodeSystem, DecodedOp.base, Funct3.PRIV, h3]⟩
        constructor <;> simp_all [DecodedOp.decodeSystem, DecodedOp.base, Funct3.PRIV]
      · have h4 : word.extractLsb' 12 3 = 4#3 := by simpa [h3] using h
        refine ⟨?_, ?_⟩
        · cases h14 : word[14] <;> constructor <;>
            simp [DecodedOp.decodeSystem, DecodedOp.base, Funct3.PRIV, h4, h14]
        · cases h14 : word[14] <;>
            simp [commands, DecodedOp.decodeSystem, DecodedOp.base, Funct3.PRIV, h4, h14]
    | branch => exact ⟨by constructor <;> simp_all [DecodedOp.base], by simp [commands]⟩
    | load => exact ⟨by constructor <;> simp_all [DecodedOp.base], by simp [commands]⟩
    | store => exact ⟨by constructor <;> simp_all [DecodedOp.base], by simp [commands]⟩
    | _ => cases h

theorem fence_decode {word : Word} (h : opClass word = some .fence) (d : DecodedOp)
    (currentIp nextIp : Word) : Harmless (d.decodeWord word currentIp nextIp) ∧
      (d.decodeWord word currentIp nextIp).invalidOpcode = false := by
  unfold DecodedOp.decodeWord
  simp only [h]
  exact ⟨by constructor <;> simp [DecodedOp.base], rfl⟩

section Taken
variable {op : DecodedOp}

theorem Harmless.jumpComb (h : Harmless op) (alu : AluOutput) (trap : TrapCsr)
    (ebreakm progbufActive : Bool) :
    let out := jumpComb op alu trap ebreakm progbufActive
    out.jump = false ∧ out.jumpWe = false ∧ out.update = op.trapUpdate ∧
      out.invalidOpcodeFault = (op.branchCmd || op.sysCmd) := by
  obtain ⟨hj, hjr⟩ := h.jump
  cases hb : op.branchCmd with
  | true =>
    rcases h.branch hb with h3 | h3 <;>
      simp [BonfireCore.jumpComb, hb, branchTaken, h3, Funct3.BEQ, Funct3.BGE, Funct3.BGEU,
        Funct3.BLT, Funct3.BLTU, Funct3.BNE]
  | false =>
    cases hs : op.sysCmd with
    | false => simp [BonfireCore.jumpComb, hb, hj, hjr, hs]
    | true =>
      have h12 := (h.system hs).2
      simp only [List.mem_cons, List.not_mem_nil, or_false, not_or] at h12
      simp [BonfireCore.jumpComb, hb, hj, hjr, hs, h12]

theorem Harmless.csrInput (h : Harmless op) (taken : Bool) (op1 : Word) :
    ((op.csrInput taken op1).en && (op.csrInput taken op1).writeRequested) = false ∧
      (op.csrCmd = true → (op.csrInput taken op1).invOp = true) := by
  cases hc : op.csrCmd with
  | false => simp [DecodedOp.csrInput, hc]
  | true =>
    have h3 := h.csr hc
    refine ⟨?_, fun _ => ?_⟩
    · simp [DecodedOp.csrInput, CsrInput.writeRequested, CsrInput.op, h3]
    · simp [DecodedOp.csrInput, CsrInput.invOp, CsrInput.op, h3]

theorem Harmless.lsInput (h : Harmless op) (hmem : (op.storeCmd || op.loadCmd) = true)
    (taken : Bool) (op1 op2 : Word) :
    (op.lsInput taken op1 op2).misalign = false ∧ (op.lsInput taken op1 op2).invalidOp = true ∧
      (op.lsInput taken op1 op2).byteEnables = 0 := by
  rcases h.access hmem with h3 | h3 <;>
    simp [DecodedOp.lsInput, LsInput.misalign, LsInput.invalidOp, LsInput.byteEnables,
      LsInput.byteMode, LsInput.hwordMode, LsInput.wordMode, h3]

/-- The cycle that takes such a word. -/
theorem Clear.reject (h : s.Clear c) (ht : s.taken c i = true) (hr : Harmless i.op) :
    s.Effectless c i ∧ (s.step c i).Inert c ∧
      (commands i.op = true →
        (s.jumpOut c i).invalidOpcodeFault = true ∨ (s.csrOutput c i).invalidOp = true ∨
          (i.op.storeCmd || i.op.loadCmd) = true ∧ (s.step c i).ls.outstanding = true) := by
  obtain ⟨hjump, hjumpWe, hupd, hfault⟩ := hr.jumpComb (s.aluOut c i) s.csr.trap
    (i.debugCsr.any (·.ebreakm)) i.progbufActive
  have hout : s.jumpOut c i = BonfireCore.jumpComb i.op (s.aluOut c i) s.csr.trap
      (i.debugCsr.any (·.ebreakm)) i.progbufActive := by simp [jumpOut, ht]
  rw [← hout] at hjump hjumpWe hupd hfault
  have hu : s.csr.trap.update (s.jumpOut c i).update = s.csr.trap := by
    rw [hupd]
    exact trap_update_off _ rfl rfl rfl rfl rfl
  obtain ⟨hwe, hstep⟩ := csr_step_off (c := c) (s := s) i.debugCsr (k := s.csrInput c i)
    (hr.csrInput _ _).1 hu
  have hcsr : (s.csrOutput c i).valid = false := by
    cases hc : i.op.csrCmd with
    | false => exact csrOutput_noCsr hc
    | true =>
      have hinv : (s.csrInput c i).invOp = true := (hr.csrInput _ _).2 hc
      simp [csrOutput, Csr.out, hinv]
  have halu : (s.step c i).alu.Quiet := h.alu.step fun _ => by
    simp [aluInput, DecodedOp.aluInput, AluInput.shiftEn, hr.alu]
  have hinert : (s.step c i).Inert c ∧
      ((i.op.storeCmd || i.op.loadCmd) = true → (s.step c i).ls.outstanding = true) := by
    cases hmem : i.op.storeCmd || i.op.loadCmd with
    | false =>
      have hen : (s.lsInput c i).en = false := by simp [lsInput, DecodedOp.lsInput, hmem]
      have hfree : (s.step c i).ls.Free c := h.ls.step_free hen
      exact ⟨⟨halu, fun hb => absurd hb (by simp [hfree.busEn]),
        fun ho => absurd ho (by simp [hfree.outstanding]), hfree.validReg⟩, fun h' => by cases h'⟩
    | true =>
      obtain ⟨hmis, hinv, hbe⟩ := hr.lsInput hmem (s.taken c i) i.op1 i.op2
      have hen : (s.lsInput c i).en = true := by simp [lsInput, DecodedOp.lsInput, hmem, ht]
      obtain ⟨hserving, hdriven⟩ := h.ls.step_issue (r := i.dbus) hen hmis
      have hread : (s.step c i).ls.weO = 0 := by
        refine hdriven.we.trans ?_
        split
        · exact hbe
        · rfl
      exact ⟨⟨halu, fun _ => hread, fun _ => hserving.invalidOp.trans hinv,
        fun hreg hv => absurd ((hserving.validReg hreg).symm.trans hv) Bool.false_ne_true⟩,
        fun _ => hserving.outstanding⟩
  refine ⟨⟨hjump, hwe, hstep, hinert.1.reads, fun hm hq => ?_⟩, hinert.1, fun hcmd => ?_⟩
  · exact h.inert.register (fun hm => aluOut_noAlu hm h.alu hr.alu) hcsr hjumpWe hm hq
  · cases hbs : i.op.branchCmd || i.op.sysCmd with
    | true => exact .inl (hfault.trans hbs)
    | false =>
      cases hc : i.op.csrCmd with
      | true =>
        have hinv : (s.csrInput c i).invOp = true := (hr.csrInput _ _).2 hc
        have hen : (s.csrInput c i).en = true := by
          simp [Execute.csrInput, DecodedOp.csrInput, hc, ht]
        exact .inr (.inl (by simp [csrOutput, Csr.out, hinv, hen]))
      | false =>
        have hmem : (i.op.storeCmd || i.op.loadCmd) = true := by
          rwa [commands, hbs, hc, Bool.false_or, Bool.false_or] at hcmd
        exact .inr (.inr ⟨hmem, hinert.2 hmem⟩)

end Taken

section Runs

theorem Inert.run (h : s.Inert c) (hj : ∀ j ∈ js, j.valid = false) :
    (machine c).Along (Effectless c) s js := by
  induction js generalizing s with
  | nil => trivial
  | cons j js ih =>
    obtain ⟨hnone, hinert⟩ := h.idle (not_taken_of_valid (hj j List.mem_cons_self))
    exact ⟨hnone, ih hinert fun k hk => hj k (List.mem_cons_of_mem j hk)⟩

/-- Without an access nothing changes the flag of the load/store unit. -/
theorem flag_kept (ho : s.ls.outstanding = false) (hj : ∀ j ∈ js, j.valid = false) :
    ((machine c).runFrom s js).ls.invalidOpO = s.ls.invalidOpO := by
  induction js generalizing s with
  | nil => rfl
  | cons j js ih =>
    have ht : s.taken c j = false := not_taken_of_valid (hj j List.mem_cons_self)
    have hstep : (s.step c j).ls.outstanding = false ∧
        (s.step c j).ls.invalidOpO = s.ls.invalidOpO := by
      simp [step, LoadStore.step, lsInput, DecodedOp.lsInput, ht, LoadStore.confirm, ho]
    exact (ih hstep.1 fun k hk => hj k (List.mem_cons_of_mem j hk)).trans hstep.2

/-- The answer to the access sets it. -/
theorem Inert.flagged (h : s.Inert c) (ho : s.ls.outstanding = true)
    (hj : ∀ j ∈ js, j.valid = false) (hans : ∃ j ∈ js, j.dbus.answers = true) :
    ((machine c).runFrom s js).ls.invalidOpO = true := by
  induction js generalizing s with
  | nil =>
    obtain ⟨j, hmem, -⟩ := hans
    cases hmem
  | cons j js ih =>
    have ht : s.taken c j = false := not_taken_of_valid (hj j List.mem_cons_self)
    have hjs : ∀ k ∈ js, k.valid = false := fun k hk => hj k (List.mem_cons_of_mem j hk)
    have hconf : s.ls.confirm j.dbus = j.dbus.answers := by
      simp [LoadStore.confirm, ho, DbusResponse.answers]
    cases hr : j.dbus.answers with
    | true =>
      have hstep : (s.step c j).ls.outstanding = false ∧ (s.step c j).ls.invalidOpO = true := by
        simp [step, LoadStore.step, lsInput, DecodedOp.lsInput, ht, hconf, hr, h.invalid ho]
      exact (flag_kept hstep.1 hjs).trans hstep.2
    | false =>
      have hstep : (s.step c j).ls.outstanding = true := by
        simp [step, LoadStore.step, lsInput, DecodedOp.lsInput, ht, hconf, hr, ho]
      refine ih (h.idle ht).2 hstep hjs ?_
      obtain ⟨k, hk, hkr⟩ := hans
      rcases List.mem_cons.1 hk with rfl | hk
      · rw [hr] at hkr
        cases hkr
      · exact ⟨k, hk, hkr⟩

end Runs

section Words
variable {word currentIp nextIp : Word} {d : DecodedOp}

theorem Passes.taken (hp : Passes (d.decodeWord word currentIp nextIp) i js) (hs : s.Clear c) :
    s.taken c i = !i.op.invalidOpcode := by
  rw [hp.op, ← hp.valid]
  cases hv : i.valid with
  | true => exact hs.taken hv hp.hazard
  | false => exact not_taken_of_valid hv

theorem rejected_effectless (h : rejected word = true)
    (hp : Passes (d.decodeWord word currentIp nextIp) i js) (hs : s.Clear c) :
    (machine c).Along (Effectless c) s (i :: js) ∧
      (((i.op.storeCmd || i.op.loadCmd) = true → ∃ j ∈ js, j.dbus.answers = true) →
        s.Raises c i js) := by
  have ht := hp.taken hs
  cases hv : i.op.invalidOpcode with
  | true =>
    rw [hv] at ht
    obtain ⟨hnone, hinert⟩ := hs.inert.idle ht
    exact ⟨⟨hnone, hinert.run hp.alone⟩, fun _ => .inl hv⟩
  | false =>
    rw [hv] at ht
    have hr : Harmless i.op ∧ commands i.op = true := by
      rw [hp.op] at hv ⊢
      exact rejected_decode h d currentIp nextIp hv
    obtain ⟨hnone, hinert, hraise⟩ := hs.reject ht hr.1
    refine ⟨⟨hnone, hinert.run hp.alone⟩, fun hans => ?_⟩
    rcases hraise hr.2 with hfault | hcsr | ⟨hmem, ho⟩
    · exact .inr (.inl hfault)
    · exact .inr (.inr (.inl hcsr))
    · exact .inr (.inr (.inr (hinert.flagged ho hp.alone (hans hmem))))

/-- What Decode makes of a word with fields it does not look at: no signal depends on them. -/
theorem ignored_decode (h : ignoresFields word = true) (d : DecodedOp)
    (currentIp nextIp : Word) :
    let op := d.decodeWord word currentIp nextIp
    op.invalidOpcode = false ∧ op.branchCmd = false ∧ op.csrCmd = false ∧
      (op.storeCmd || op.loadCmd) = false ∧
      (op.sysCmd = true →
        op.privFunct12 ∈ [PrivFunct12.ECALL, PrivFunct12.EBREAK, PrivFunct12.ERET]) := by
  unfold DecodedOp.decodeWord
  cases hc : opClass word with
  | none => simp [ignoresFields, hc] at h
  | some cls =>
    simp only [ignoresFields, hc] at h
    cases cls with
    | system =>
      simp only [Bool.and_eq_true, decide_eq_true_eq] at h
      obtain ⟨⟨h3, h12⟩, -⟩ := h
      simpa [DecodedOp.decodeSystem, DecodedOp.base, h3, Funct3.PRIV] using h12
    | branch | store | load => cases h
    | _ => simp [DecodedOp.base, DecodedOp.decodeUpper]

theorem ignored_not_raised (h : ignoresFields word = true)
    (hp : Passes (d.decodeWord word currentIp nextIp) i js) (hs : s.Clear c)
    (hf : s.ls.invalidOpO = false) : ¬ s.Raises c i js := by
  obtain ⟨hinv, hbranch, hcsr, hmem, hsys⟩ :=
    ignored_decode h d currentIp nextIp
  rw [← hp.op] at hinv hbranch hcsr hmem hsys
  have hen : (s.lsInput c i).en = false := by simp [lsInput, DecodedOp.lsInput, hmem]
  have hkeep : (s.step c i).ls.invalidOpO = false := by
    simp [step, LoadStore.step, hen, LoadStore.confirm, hs.ls.outstanding, hf]
  have hout : (s.step c i).ls.outstanding = false := (hs.ls.step_free hen).outstanding
  rintro (hr | hr | hr | hr)
  · rw [hinv] at hr
    cases hr
  · have hfault : (s.jumpOut c i).invalidOpcodeFault = false := by
      simp only [jumpOut, BonfireCore.jumpComb, hbranch, Bool.false_eq_true, if_false]
      simp only [List.mem_cons, List.not_mem_nil, or_false] at hsys
      split_ifs <;> simp_all
    rw [hfault] at hr
    cases hr
  · simp [csrOutput, Csr.out, csrInput, DecodedOp.csrInput, hcsr] at hr
  · have : ((machine c).runFrom s (i :: js)).ls.invalidOpO = false :=
      (flag_kept hout hp.alone).trans hkeep
    rw [this] at hr
    cases hr

theorem fence_effectless (h : opClass word = some .fence)
    (hp : Passes (d.decodeWord word currentIp nextIp) i js) (hs : s.Clear c) :
    (machine c).Along (Effectless c) s (i :: js) := by
  obtain ⟨hr, hv⟩ := fence_decode h d currentIp nextIp
  rw [← hp.op] at hr hv
  have ht : s.taken c i = true := by simp [hp.taken hs, hv]
  obtain ⟨hnone, hinert, -⟩ := hs.reject ht hr
  exact ⟨hnone, hinert.run hp.alone⟩

end Words

end Execute

/-- A word that is no encoding, and not an access that the load/store unit fails to stop, is
signalled exactly if it is wrong in a field that the core decodes. Then it has no effect, and
neither has a FENCE with a reserved `funct3`. -/
theorem illegal_word (c : CoreConfig) (s : Execute) (d : DecodedOp) (word currentIp nextIp : Word)
    (i : ExecuteInput) (js : List ExecuteInput) (hw : ¬ Legal word)
    (hm : missedAccess word = false) (hs : s.Clear c) (hf : s.ls.invalidOpO = false)
    (hp : Execute.Passes (d.decodeWord word currentIp nextIp) i js)
    (hans : (i.op.storeCmd || i.op.loadCmd) = true → ∃ j ∈ js, j.dbus.answers = true) :
    (s.Raises c i js ↔ ignoresFields word = false) ∧
      (s.Raises c i js ∨ opClass word = some .fence →
        (Execute.machine c).Along (Execute.Effectless c) s (i :: js)) := by
  have hraise : ignoresFields word = false →
      (Execute.machine c).Along (Execute.Effectless c) s (i :: js) ∧ s.Raises c i js := by
    intro hi
    obtain ⟨hnone, hraise⟩ := Execute.rejected_effectless (rejected_of_illegal hw hi hm) hp hs
    exact ⟨hnone, hraise hans⟩
  have hiff : s.Raises c i js ↔ ignoresFields word = false := by
    refine ⟨fun hr => ?_, fun hi => (hraise hi).2⟩
    by_contra hi
    exact Execute.ignored_not_raised (by simpa using hi) hp hs hf hr
  refine ⟨hiff, ?_⟩
  rintro (hr | hfence)
  · exact (hraise (hiff.1 hr)).1
  · exact Execute.fence_effectless hfence hp hs

/-- A multiplication of x2 and x3 into x1. -/
def mulWord : Word := 0x023100b3

def mulOffered : ExecuteInput where
  valid := true
  op := ({} : DecodedOp).decodeWord mulWord 0 4
  op1 := 6
  op2 := 7
  dbus := {}

/-- It is not signalled, and writes the sum. -/
theorem mul_adds : ¬ Legal mulWord ∧
    Execute.Passes (({} : DecodedOp).decodeWord mulWord 0 4) mulOffered [] ∧
      ¬ ({} : Execute).Raises {} mulOffered [] ∧
      ({} : Execute).writePort {} mulOffered = ⟨true, 1, 13⟩ := by
  refine ⟨not_legal .op (by decide +kernel) (by decide +kernel),
    ⟨rfl, rfl, rfl, by simp⟩, ?_, by decide +kernel⟩
  rintro (h | h | h | h) <;> exact absurd h (by decide +kernel)

/-- A load of a double word, and what is offered of it. -/
def ldWord : Word := 0x00013083

def ldOffered : ExecuteInput where
  valid := true
  op := ({} : DecodedOp).decodeWord ldWord 0 4
  op1 := 0x100
  op2 := 0
  dbus := {}

def ldAnswer : ExecuteInput := { ldOffered with valid := false, dbus := { ack := true } }

theorem illegal_word_ld : ({} : Execute).Raises {} ldOffered [ldAnswer] ∧
    (Execute.machine {}).Along (Execute.Effectless {}) {} [ldOffered, ldAnswer] := by
  obtain ⟨hiff, hnone⟩ := illegal_word {} {} {} ldWord 0 4 ldOffered [ldAnswer]
    (not_legal .load (by decide +kernel) (by decide +kernel)) (by decide +kernel)
    ⟨⟨rfl, rfl⟩, ⟨rfl, rfl, fun _ h => by cases h⟩, ⟨rfl, rfl⟩, rfl⟩ rfl
    ⟨rfl, rfl, rfl, by simp [ldAnswer]⟩ (fun _ => ⟨ldAnswer, by simp, rfl⟩)
  have hr := hiff.2 (by decide +kernel)
  exact ⟨hr, hnone (.inl hr)⟩

end BonfireCore
