import BonfireCore.ByteMerge
import BonfireCore.Rv32i

/-! A byte-addressed memory under loads and stores, and a memory of words with byte enables
that holds the same bytes. -/
namespace BonfireCore.Rv32i

abbrev Bytes := BitVec 32 → BitVec 8

namespace Access

def write (m : Bytes) : Access → Bytes
  | .load .. => m
  | .store kind adr data =>
    fun a => if (a - adr).toNat < kind.size then byteLane data (a - adr).toNat else m a

def read (m : Bytes) : Access → Option (BitVec 32)
  | .load kind adr => some (kind.value fun k => m (adr + BitVec.ofNat 32 k))
  | .store .. => none

/-- The memory after the accesses, the latest of which comes first. -/
def after (m : Bytes) : List Access → Bytes
  | [] => m
  | a :: as => a.write (after m as)

/-- What each of them returns. -/
def results (m : Bytes) : List Access → List (Option (BitVec 32))
  | [] => []
  | a :: as => a.read (after m as) :: results m as

end Access

section Words

/-- The bytes of a memory of words, the least significant first. -/
def bytesOf (mem : BitVec 30 → BitVec 32) : Bytes :=
  fun a => byteLane (mem (a.extractLsb' 2 30)) (a.toNat % 4)

/-- A byte-enabled write of the word at `adr`. -/
def writeWord (mem : BitVec 30 → BitVec 32) (adr : BitVec 32) (we : BitVec 4)
    (data : BitVec 32) : BitVec 30 → BitVec 32 :=
  Function.update mem (adr.extractLsb' 2 30) (byteMerge we (mem (adr.extractLsb' 2 30)) data)

theorem byteLane_byteMerge (we : BitVec 4) (old new : BitVec 32) (k : ℕ) :
    byteLane (byteMerge we old new) k = if we.getLsbD k then byteLane new k else byteLane old k := by
  apply BitVec.eq_of_getLsbD_eq
  intro b hb
  have hidx : (8 * k + b) / 8 = k := by omega
  cases hwe : we.getLsbD k <;>
    simp only [byteLane, BitVec.getLsbD_extractLsb', getLsbD_byteMerge, hidx, hwe, if_true,
      Bool.false_eq_true, if_false]

theorem toNat_word (a : BitVec 32) : (a.extractLsb' 2 30).toNat = a.toNat / 4 := by
  have h := a.isLt
  rw [BitVec.extractLsb'_toNat, Nat.shiftRight_eq_div_pow]
  omega

theorem word_eq_iff {a b : BitVec 32} :
    a.extractLsb' 2 30 = b.extractLsb' 2 30 ↔ a.toNat / 4 = b.toNat / 4 := by
  rw [← BitVec.toNat_inj, toNat_word, toNat_word]

/-- A byte within the word of an aligned address. -/
theorem add_lane {adr : BitVec 32} {k : ℕ} (h : adr.toNat % 4 + k < 4) :
    (adr + BitVec.ofNat 32 k).toNat = adr.toNat + k := by
  have h1 := adr.isLt
  rw [BitVec.toNat_add, BitVec.toNat_ofNat]
  omega

theorem bytesOf_add (mem : BitVec 30 → BitVec 32) {adr : BitVec 32} {k : ℕ}
    (h : adr.toNat % 4 + k < 4) :
    bytesOf mem (adr + BitVec.ofNat 32 k) =
      byteLane (mem (adr.extractLsb' 2 30)) (adr.toNat % 4 + k) := by
  have hword : (adr + BitVec.ofNat 32 k).extractLsb' 2 30 = adr.extractLsb' 2 30 := by
    rw [word_eq_iff, add_lane h]
    omega
  have hlane : (adr + BitVec.ofNat 32 k).toNat % 4 = adr.toNat % 4 + k := by
    rw [add_lane h]
    omega
  rw [bytesOf, hword, hlane]

theorem LoadKind.size_le (kind : LoadKind) : kind.size = 1 ∨ kind.size = 2 ∨ kind.size = 4 := by
  cases kind <;> simp [size]

theorem StoreKind.size_le (kind : StoreKind) : kind.size = 1 ∨ kind.size = 2 ∨ kind.size = 4 := by
  cases kind <;> simp [size]

theorem LoadKind.value_congr (kind : LoadKind) {f g : ℕ → BitVec 8}
    (h : ∀ k < kind.size, f k = g k) : kind.value f = kind.value g := by
  cases kind with
  | lb | lbu => simp only [value, h 0 (by decide)]
  | lh | lhu => simp only [value, h 0 (by decide), h 1 (by decide)]
  | lw => simp only [value, h 0 (by decide), h 1 (by decide), h 2 (by decide), h 3 (by decide)]

/-- An aligned load finds its bytes in one word. -/
theorem Access.read_bytesOf (mem : BitVec 30 → BitVec 32) {kind : LoadKind} {adr : BitVec 32}
    (ha : adr.toNat % kind.size = 0) :
    (Access.load kind adr).read (bytesOf mem) =
      some (kind.value fun k => byteLane (mem (adr.extractLsb' 2 30)) (adr.toNat % 4 + k)) := by
  refine congrArg some (kind.value_congr fun k hk => bytesOf_add mem ?_)
  rcases kind.size_le with h | h | h <;> rw [h] at ha hk <;> omega

/-- The enabled bytes of the word are the ones a store covers. -/
theorem Access.write_bytesOf (mem : BitVec 30 → BitVec 32) {kind : StoreKind}
    {adr data wr : BitVec 32} {we : BitVec 4} (ha : adr.toNat % kind.size = 0)
    (hwe : ∀ k < 4, we.getLsbD k = decide (adr.toNat % 4 ≤ k ∧ k < adr.toNat % 4 + kind.size))
    (hwr : ∀ k < 4, we.getLsbD k = true → byteLane wr k = byteLane data (k - adr.toNat % 4)) :
    bytesOf (writeWord mem adr we wr) = (Access.store kind adr data).write (bytesOf mem) := by
  funext a
  have h1 := a.isLt
  have h2 := adr.isLt
  have hsub : (a - adr).toNat = (2 ^ 32 - adr.toNat + a.toNat) % 2 ^ 32 := BitVec.toNat_sub _ _
  have hlane : a.toNat % 4 < 4 := Nat.mod_lt _ (by decide)
  show byteLane (writeWord mem adr we wr (a.extractLsb' 2 30)) (a.toNat % 4) = if _ then _ else _
  by_cases hword : a.extractLsb' 2 30 = adr.extractLsb' 2 30
  · have hdiv : a.toNat / 4 = adr.toNat / 4 := word_eq_iff.1 hword
    rw [writeWord, hword, Function.update_self, byteLane_byteMerge]
    by_cases hin : adr.toNat % 4 ≤ a.toNat % 4 ∧ a.toNat % 4 < adr.toNat % 4 + kind.size
    · have hen : we.getLsbD (a.toNat % 4) = true := by rw [hwe _ hlane, decide_eq_true hin]
      have hd : (a - adr).toNat = a.toNat % 4 - adr.toNat % 4 := by omega
      have hlt : (a - adr).toNat < kind.size := by omega
      rw [if_pos hen, if_pos hlt, hwr _ hlane hen, hd]
    · have hen : ¬ we.getLsbD (a.toNat % 4) = true := by
        rw [hwe _ hlane, decide_eq_true_eq]
        exact hin
      have hge : ¬ (a - adr).toNat < kind.size := by
        rcases kind.size_le with h | h | h <;> rw [h] at hin ha ⊢ <;> omega
      rw [if_neg hen, if_neg hge, bytesOf, hword]
  · have hdiv : a.toNat / 4 ≠ adr.toNat / 4 := fun h => hword (word_eq_iff.2 h)
    have hge : ¬ (a - adr).toNat < kind.size := by
      rcases kind.size_le with h | h | h <;> rw [h] at ha ⊢ <;> omega
    rw [writeWord, Function.update_of_ne hword, if_neg hge, bytesOf]

end Words
end BonfireCore.Rv32i
