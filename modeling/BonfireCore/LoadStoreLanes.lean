import BonfireCore.AluResult
import BonfireCore.LoadStoreAccess

/-! The byte lanes of the load/store unit against the loads and stores of the base set. -/
namespace BonfireCore

open Rv32i (LoadKind StoreKind Access byteLane)

variable {l : LsInput}

theorem adr_lane (adr : Word) : (adr.extractLsb' 0 2).toNat = adr.toNat % 4 := by
  simp [BitVec.extractLsb'_toNat]

theorem getLsbD_lane (adr : Word) {k : ℕ} (hk : k < 2) :
    adr.getLsbD k = (adr.extractLsb' 0 2).getLsbD k := by
  simp [hk]

theorem op2Shifted_eq (l : LsInput) : l.op2Shifted = l.op2 <<< (8 * (l.adr.toNat % 4)) := by
  have hsum (u : BitVec 2) : FillShift.chosen (fun k => u.getLsbD k) 3 2 = 8 * u.toNat := by
    revert u
    decide
  have hlane : leftShiftComb l.op2 (fun k => l.adr.getLsbD k) false 5 3 =
      leftShiftComb l.op2 (fun k => (l.adr.extractLsb' 0 2).getLsbD k) false 5 3 :=
    leftShiftComb_congr _ _ fun k hk => getLsbD_lane _ hk
  rw [LsInput.op2Shifted, hlane, leftShiftComb_eq, hsum, adr_lane]
  simp [FillShift.left]

theorem byteLane_shift (w : Word) {lane k : ℕ} (hk : k < 4) (hl : lane ≤ k) :
    byteLane (w <<< (8 * lane)) k = byteLane w (k - lane) := by
  apply BitVec.eq_of_getLsbD_eq
  intro b hb
  have h1 : 8 * k + b < 32 := by omega
  have h2 : ¬ 8 * k + b < 8 * lane := by omega
  have h3 : 8 * k + b - 8 * lane = 8 * (k - lane) + b := by omega
  simp only [byteLane, BitVec.getLsbD_extractLsb', BitVec.getLsbD_shiftLeft, hb, h1, h2, h3,
    decide_true, decide_false, Bool.true_and, Bool.not_false]

/-- Two neighbouring bytes. -/
theorem byteLane_append (w : Word) (k : ℕ) :
    byteLane w (k + 1) ++ byteLane w k = w.extractLsb' (8 * k) 16 :=
  BitVec.extractLsb'_append_extractLsb'_eq_extractLsb' (by omega)

theorem byteLane_word (w : Word) :
    byteLane w 3 ++ byteLane w 2 ++ byteLane w 1 ++ byteLane w 0 = w := by
  rw [byteLane_append w 2]
  have h24 : w.extractLsb' (8 * 2) 16 ++ byteLane w 1 = w.extractLsb' (8 * 1) 24 :=
    BitVec.extractLsb'_append_extractLsb'_eq_extractLsb' (by omega)
  have h32 : w.extractLsb' (8 * 1) 24 ++ byteLane w 0 = w.extractLsb' (8 * 0) 32 :=
    BitVec.extractLsb'_append_extractLsb'_eq_extractLsb' (by omega)
  rw [h24, h32]
  exact extractLsb'_zero_self w

/-- An aligned store enables the bytes it covers. -/
theorem store_lanes {kind : StoreKind} (h3 : l.funct3 = kind.funct3)
    (ha : l.adr.toNat % kind.size = 0) :
    l.misalign = false ∧ l.invalidOp = false ∧ ∀ k < 4,
      l.byteEnables.getLsbD k =
        decide (l.adr.toNat % 4 ≤ k ∧ k < l.adr.toNat % 4 + kind.size) := by
  have hsize : l.adr.toNat % kind.size = (l.adr.extractLsb' 0 2).toNat % kind.size := by
    rw [adr_lane]
    cases kind <;> simp only [StoreKind.size] <;> omega
  rw [hsize] at ha
  rw [← adr_lane, LsInput.misalign, LsInput.invalidOp, LsInput.byteEnables, LsInput.byteMode,
    LsInput.hwordMode, LsInput.wordMode, h3, getLsbD_lane _ (by decide : 0 < 2),
    getLsbD_lane _ (by decide : 1 < 2)]
  revert ha
  generalize l.adr.extractLsb' 0 2 = lo
  revert lo
  cases l.store <;> cases kind <;> decide

/-- The half word the read mux takes. -/
theorem hword_select (w : Word) {lo : BitVec 2} (ha : lo.toNat % 2 = 0) :
    (if lo.getLsbD 1 then w.extractLsb' 16 16 else w.extractLsb' 0 16) =
      byteLane w (lo.toNat + 1) ++ byteLane w lo.toNat := by
  have hlo : lo = 0#2 ∨ lo = 2#2 := by
    revert lo
    decide
  rw [byteLane_append]
  rcases hlo with rfl | rfl <;> rfl

/-- An aligned load takes the bytes it addresses from the word read. -/
theorem load_value {kind : LoadKind} (h3 : l.funct3 = kind.funct3) (hs : l.store = false)
    (ha : l.adr.toNat % kind.size = 0) :
    l.misalign = false ∧ l.invalidOp = false ∧ ∀ w,
      l.rdMux w = kind.value fun k => byteLane w (l.adr.toNat % 4 + k) := by
  have hsize : l.adr.toNat % kind.size = (l.adr.extractLsb' 0 2).toNat % kind.size := by
    rw [adr_lane]
    cases kind <;> simp only [LoadKind.size] <;> omega
  rw [hsize] at ha
  have h1 : l.adr.getLsbD 1 = (l.adr.extractLsb' 0 2).getLsbD 1 := getLsbD_lane _ (by decide)
  have h0 : l.adr.getLsbD 0 = (l.adr.extractLsb' 0 2).getLsbD 0 := getLsbD_lane _ (by decide)
  refine ⟨?_, ?_, fun w => ?_⟩
  · rw [LsInput.misalign, LsInput.hwordMode, LsInput.wordMode, h3, h0]
    revert ha
    generalize l.adr.extractLsb' 0 2 = lo
    revert lo
    cases kind <;> decide
  · rw [LsInput.invalidOp, LsInput.byteMode, LsInput.hwordMode, LsInput.wordMode, h3, hs]
    cases kind <;> decide
  · rw [LsInput.rdMux, LsInput.byteMode, LsInput.hwordMode, h3, ← adr_lane]
    cases kind with
    | lb => rfl
    | lbu => rfl
    | lh => exact congrArg (BitVec.signExtend 32) (hword_select w ha)
    | lhu => exact congrArg (BitVec.setWidth 32) (hword_select w ha)
    | lw =>
      have hlo : (l.adr.extractLsb' 0 2).toNat = 0 := by
        have hlt := (l.adr.extractLsb' 0 2).isLt
        simp only [LoadKind.size] at ha
        omega
      rw [hlo]
      exact (byteLane_word w).symm

/-- The load/store unit is asked for this access. -/
def Rv32i.Access.Asks (l : LsInput) : Access → Prop
  | .load kind adr => l.store = false ∧ l.funct3 = kind.funct3 ∧ l.adr = adr
  | .store kind adr data =>
    l.store = true ∧ l.funct3 = kind.funct3 ∧ l.adr = adr ∧ l.op2 = data

/-- The bus request of an access: the bytes a store covers are enabled, and hold its data. -/
def Rv32i.Access.Requests (m : DbusRequest 32) : Access → Prop
  | .load _ adr => m.en = true ∧ m.adr = adr ∧ m.we = 0
  | .store kind adr data => m.en = true ∧ m.adr = adr ∧ ∀ k < 4,
      m.we.getLsbD k = decide (adr.toNat % 4 ≤ k ∧ k < adr.toNat % 4 + kind.size) ∧
      (m.we.getLsbD k = true → byteLane m.dbWr k = byteLane data (k - adr.toNat % 4))

/-- What the unit is asked for is legal and aligned, and goes to the bus unchanged. -/
theorem Rv32i.Access.Asks.requests {a : Access} {l : LsInput} {u : LoadStore} (h : a.Asks l)
    (ha : a.Aligned) (hd : u.Driven l false) : a.Requests u.request := by
  cases a with
  | load kind adr =>
    obtain ⟨hst, -, hadr⟩ := h
    exact ⟨hd.busEn, hd.adr.trans hadr, by simp [LoadStore.request, hd.we, hst]⟩
  | store kind adr data =>
    obtain ⟨hst, h3, hadr, hop2⟩ := h
    subst hadr hop2
    obtain ⟨-, -, hlanes⟩ := store_lanes h3 ha
    have hwe : u.weO = l.byteEnables := by simp [hd.we, hst]
    have hwr : u.dbWr = l.op2Shifted := hd.dbWr hst
    refine ⟨hd.busEn, hd.adr, fun k hk => ⟨?_, fun hen => ?_⟩⟩
    · rw [LoadStore.request, hwe, hlanes k hk]
    · have hlane : l.adr.toNat % 4 ≤ k := by
        rw [LoadStore.request, hwe, hlanes k hk, decide_eq_true_eq] at hen
        exact hen.1
      rw [LoadStore.request, hwr, op2Shifted_eq, byteLane_shift _ hk hlane]

theorem Rv32i.Access.Asks.legal {a : Access} {l : LsInput} (h : a.Asks l) (ha : a.Aligned) :
    l.misalign = false ∧ l.invalidOp = false := by
  cases a with
  | load kind adr =>
    obtain ⟨hst, h3, rfl⟩ := h
    obtain ⟨hm, hi, -⟩ := load_value h3 hst ha
    exact ⟨hm, hi⟩
  | store kind adr data =>
    obtain ⟨-, h3, rfl, -⟩ := h
    obtain ⟨hm, hi, -⟩ := store_lanes h3 ha
    exact ⟨hm, hi⟩

end BonfireCore
