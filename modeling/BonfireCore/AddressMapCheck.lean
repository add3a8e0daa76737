import BonfireCore.InterconnectReady
import Mathlib.Data.List.ProdSigma

/-! The check of an address map before an interconnect is built from it: two slots overlap in
the sense of the source exactly where some address selects both. -/
namespace BonfireCore

namespace AdrMask
variable {xlen : ℕ} {a b : AdrMask} {adr : BitVec xlen}

/-- `mapped_range`: the first and the last address. -/
def mappedRange (xlen : ℕ) (a : AdrMask) : ℕ × ℕ :=
  (a.baseAddress, a.baseAddress ||| (((1 <<< xlen) - 1) ^^^ a.addressMask xlen))

/-- The bits of the field. -/
def Covers (a : AdrMask) (j : ℕ) : Prop := a.lower ≤ j ∧ j < a.upper

instance (a : AdrMask) (j : ℕ) : Decidable (a.Covers j) := inferInstanceAs (Decidable (_ ∧ _))

theorem testBit_ones (n i : ℕ) : (1 <<< n - 1).testBit i = decide (i < n) := by
  rw [Nat.one_shiftLeft, Nat.testBit_two_pow_sub_one]

theorem testBit_addressMask_covers (ha : a.Valid xlen) (j : ℕ) :
    (a.addressMask xlen).testBit j = decide (a.Covers j) := testBit_addressMask ha j

/-- The base address has bits in the field only. -/
theorem covers_of_testBit (ha : a.Valid xlen) {j : ℕ} (h : a.baseAddress.testBit j = true) :
    a.Covers j := by
  rw [baseAddress, Nat.testBit_shiftLeft] at h
  simp only [Bool.and_eq_true, decide_eq_true_eq] at h
  obtain ⟨hlo, hbit⟩ := h
  refine ⟨hlo, ?_⟩
  by_contra hup
  have hsmall : a.mask < 2 ^ (j - a.lower) :=
    ha.mask_lt.trans_le (Nat.pow_le_pow_right (by decide) (by omega))
  rw [Nat.testBit_lt_two_pow hsmall] at hbit
  exact Bool.false_ne_true hbit

theorem selects_iff (ha : a.Valid xlen) :
    a.selects adr = true ↔ ∀ j, a.Covers j → adr.getLsbD j = a.baseAddress.testBit j := by
  have hlt := ha.lower_lt
  constructor
  · intro h j hj
    have hc : a.lower ≤ j ∧ j < a.upper := hj
    simp [testBit_baseAddress ha h, hc]
  · intro h
    apply beq_iff_eq.mpr
    apply Nat.eq_of_testBit_eq
    intro k
    rw [BitVec.testBit_toNat, BitVec.getLsbD_extractLsb']
    by_cases hk : k < a.upper - a.lower
    · have hcover : a.Covers (a.lower + k) := ⟨Nat.le_add_right _ _, by omega⟩
      have hbit := h _ hcover
      rw [baseAddress, Nat.testBit_shiftLeft] at hbit
      simpa [hk] using hbit
    · have hsmall : a.mask < 2 ^ k :=
        ha.mask_lt.trans_le (Nat.pow_le_pow_right (by decide) (by omega))
      simp [hk, Nat.testBit_lt_two_pow hsmall]

/-- The test compares the values on the bits that both fields have. -/
theorem overlap_iff_agree (ha : a.Valid xlen) (hb : b.Valid xlen) :
    a.overlap xlen b = true ↔
      ∀ j, a.Covers j → b.Covers j → a.baseAddress.testBit j = b.baseAddress.testBit j := by
  have hwidth (j : ℕ) (hj : a.Covers j) : min a.lower b.lower + (j - min a.lower b.lower) = j ∧
      j - min a.lower b.lower < max a.upper b.upper - min a.lower b.lower := by
    obtain ⟨hlo, hup⟩ := hj
    omega
  unfold overlap
  rw [beq_iff_eq]
  constructor
  · intro h j hja hjb
    obtain ⟨hj, hlt⟩ := hwidth j hja
    have hbit := congrArg (fun x => x.testBit (j - min a.lower b.lower)) h
    simp only [Nat.testBit_and, Nat.testBit_shiftRight, testBit_ones, testBit_addressMask_covers ha,
      testBit_addressMask_covers hb, hj, hlt] at hbit
    simpa [hja, hjb] using hbit
  · intro h
    apply Nat.eq_of_testBit_eq
    intro k
    simp only [Nat.testBit_and, Nat.testBit_shiftRight, testBit_ones, testBit_addressMask_covers ha,
      testBit_addressMask_covers hb]
    by_cases hca : a.Covers (min a.lower b.lower + k)
    · by_cases hcb : b.Covers (min a.lower b.lower + k)
      · rw [h _ hca hcb, decide_eq_true hca, decide_eq_true hcb]
      · have hzero : b.baseAddress.testBit (min a.lower b.lower + k) = false :=
          Bool.eq_false_iff.2 fun hbit => hcb (covers_of_testBit hb hbit)
        rw [hzero, decide_eq_false hcb]
        simp
    · have hzero : a.baseAddress.testBit (min a.lower b.lower + k) = false :=
        Bool.eq_false_iff.2 fun hbit => hca (covers_of_testBit ha hbit)
      rw [hzero, decide_eq_false hca]
      simp

/-- Where the fields agree, the bits of both values make an address that both select. -/
theorem overlap_iff (ha : a.Valid xlen) (hb : b.Valid xlen) :
    a.overlap xlen b = true ↔
      ∃ adr : BitVec xlen, a.selects adr = true ∧ b.selects adr = true := by
  constructor
  · intro h
    have hagree := (overlap_iff_agree ha hb).1 h
    have hval (j : ℕ) (hj : j < xlen) :
        (BitVec.ofNat xlen (a.baseAddress ||| b.baseAddress)).getLsbD j =
          (a.baseAddress.testBit j || b.baseAddress.testBit j) := by
      rw [BitVec.getLsbD_ofNat, Nat.testBit_or, decide_eq_true hj, Bool.true_and]
    refine ⟨BitVec.ofNat xlen (a.baseAddress ||| b.baseAddress), ?_, ?_⟩
    · refine (selects_iff ha).2 fun j hj => ?_
      rw [hval j (hj.2.trans_le ha.upper_le)]
      cases hbit : b.baseAddress.testBit j with
      | false => rw [Bool.or_false]
      | true => rw [hagree j hj (covers_of_testBit hb hbit), hbit, Bool.or_true]
    · refine (selects_iff hb).2 fun j hj => ?_
      rw [hval j (hj.2.trans_le hb.upper_le)]
      cases hbit : a.baseAddress.testBit j with
      | false => rw [Bool.false_or]
      | true => rw [← hagree j (covers_of_testBit ha hbit) hj, hbit, Bool.true_or]
  · rintro ⟨adr, hsa, hsb⟩
    exact overlap_of_selects ha hb hsa hsb

section Range

/-- The last address of a field that reaches the top: everything below the field is one. -/
theorem mappedRange_eq (ha : a.Valid xlen) (htop : a.upper = xlen) :
    a.mappedRange xlen = (a.mask * 2 ^ a.lower, a.mask * 2 ^ a.lower + (2 ^ a.lower - 1)) := by
  have hlt := ha.lower_lt
  have hfree : ((1 <<< xlen) - 1) ^^^ a.addressMask xlen = 2 ^ a.lower - 1 := by
    apply Nat.eq_of_testBit_eq
    intro j
    rw [Nat.testBit_xor, testBit_ones, testBit_addressMask ha, Nat.testBit_two_pow_sub_one]
    by_cases hlo : a.lower ≤ j
    · have h1 : ¬ j < a.lower := by omega
      by_cases hup : j < xlen <;> simp [htop, hlo, hup, h1]
    · have h1 : j < a.lower := by omega
      have h2 : j < xlen := by omega
      simp [hlo, h1, h2]
  have hpos : 0 < 2 ^ a.lower := Nat.two_pow_pos _
  have hor := Nat.shiftLeft_add_eq_or_of_lt (show 2 ^ a.lower - 1 < 2 ^ a.lower by omega) a.mask
  rw [mappedRange, baseAddress, hfree, ← hor, Nat.shiftLeft_eq]

/-- A field that reaches the top of the address selects one range. -/
theorem selects_iff_mappedRange (ha : a.Valid xlen) (htop : a.upper = xlen) :
    a.selects adr = true ↔
      (a.mappedRange xlen).1 ≤ adr.toNat ∧ adr.toNat ≤ (a.mappedRange xlen).2 := by
  have hlt := ha.lower_lt
  have hpos : 0 < 2 ^ a.lower := Nat.two_pow_pos _
  have hfield : adr.toNat / 2 ^ a.lower < 2 ^ (a.upper - a.lower) := by
    refine Nat.div_lt_of_lt_mul ?_
    rw [← Nat.pow_add, Nat.add_sub_cancel' hlt.le, htop]
    exact adr.isLt
  rw [mappedRange_eq ha htop, selects, beq_iff_eq, BitVec.extractLsb'_toNat,
    Nat.shiftRight_eq_div_pow, Nat.mod_eq_of_lt hfield]
  constructor
  · intro h
    have hdiv := Nat.div_add_mod adr.toNat (2 ^ a.lower)
    have hmod := Nat.mod_lt adr.toNat hpos
    rw [h, Nat.mul_comm] at hdiv
    dsimp only
    omega
  · rintro ⟨hlo, hhi⟩
    refine Nat.div_eq_of_lt_le hlo ?_
    rw [Nat.succ_mul]
    dsimp only at hhi
    omega

end Range

/-- `"{:x}"`. -/
def hex (n : ℕ) : String := String.ofList (Nat.toDigits 16 n)

/-- `"{:08x}"`. -/
def hex08 (n : ℕ) : String := String.ofList ((Nat.toDigits 16 n).leftpad 8 '0')

/-- `_validate_adrmask`. -/
def validate (xlen : ℕ) (label : String) (a : AdrMask) : Except String Unit :=
  let width := a.upper - a.lower
  if ¬ (a.lower < a.upper ∧ a.upper ≤ xlen) then
    .error s!"{label} invalid address mask bit range: upper={a.upper} lower={a.lower} xlen={xlen}"
  else if ¬ a.mask < 1 <<< width then
    .error s!"{label} invalid address mask value: mask=0x{hex a.mask} does not fit in {width} bits"
  else .ok ()

theorem validate_ok {label : String} :
    (a.validate xlen label).isOk = true ↔ a.Valid xlen := by
  unfold validate
  dsimp only
  rw [Nat.one_shiftLeft]
  by_cases hrange : a.lower < a.upper ∧ a.upper ≤ xlen
  · rw [if_neg (not_not.2 hrange)]
    by_cases hvalue : a.mask < 2 ^ (a.upper - a.lower)
    · rw [if_neg (not_not.2 hvalue)]
      exact iff_of_true rfl ⟨hrange.1, hrange.2, hvalue⟩
    · rw [if_pos hvalue]
      exact iff_of_false Bool.false_ne_true fun h => hvalue h.mask_lt
  · rw [if_pos hrange]
    exact iff_of_false Bool.false_ne_true fun h => hrange ⟨h.lower_lt, h.upper_le⟩

end AdrMask

variable {σ : Type*}

/-- One position of the parallel lists a map is given as. -/
structure MapSlot (σ : Type*) where
  slave : Option σ
  adrmask : Option AdrMask
  name : String
  registered : Bool

/-- An entry of `active`. -/
structure ActiveSlot (σ : Type*) where
  index : ℕ
  slave : σ
  adrmask : AdrMask
  name : String

theorem isOk_map {ε α β : Type*} (f : α → β) (e : Except ε α) : (e.map f).isOk = e.isOk := by
  cases e <;> rfl

namespace MapSlot
variable (interconnectName : String) (xlen : ℕ)

def active (i : ℕ) (s : MapSlot σ) : Option (ActiveSlot σ) :=
  s.slave.bind fun slave => s.adrmask.map fun a => ⟨i, slave, a, s.name⟩

def mappingLine (i : ℕ) (s : MapSlot σ) (a : AdrMask) : String :=
  let range := a.mappedRange xlen
  s!"{interconnectName}:   slot {i} {s.name} active: bits [{a.upper - 1}:{a.lower}] == " ++
    s!"0x{AdrMask.hex a.mask}, base=0x{AdrMask.hex08 range.1}, " ++
    s!"addr_mask=0x{AdrMask.hex08 (a.addressMask xlen)}, " ++
    s!"range=0x{AdrMask.hex08 range.1}..0x{AdrMask.hex08 range.2}, " ++
    if s.registered then "registered" else "combinational"

/-- One turn of the first loop: the line that is logged, or the assertion that fails. -/
def check (i : ℕ) (s : MapSlot σ) : Except String String :=
  let slot := s!"{interconnectName} slot {i} {s.name}"
  match s.slave, s.adrmask with
  | none, some _ => .error s!"{slot} is disabled but has an address mask"
  | none, none =>
    if s.registered then .error s!"{slot} is disabled but is configured as registered"
    else .ok s!"{interconnectName}:   slot {i} {s.name} disabled"
  | some _, none => .error s!"{slot} has a slave but no address mask"
  | some _, some a =>
    (a.validate xlen slot).map fun _ => s.mappingLine interconnectName xlen i a

/-- A disabled slot has neither mask nor register stage, any other one a valid mask. -/
def Consistent (s : MapSlot σ) : Prop :=
  match s.slave with
  | none => s.adrmask = none ∧ s.registered = false
  | some _ => ∃ a, s.adrmask = some a ∧ a.Valid xlen

variable {interconnectName} {xlen}

theorem check_ok {i : ℕ} {s : MapSlot σ} :
    (s.check interconnectName xlen i).isOk = true ↔ s.Consistent xlen := by
  unfold check Consistent
  cases hs : s.slave with
  | none =>
    cases ha : s.adrmask with
    | none => cases hr : s.registered <;> simp [Except.isOk, Except.toBool]
    | some a => simp [Except.isOk, Except.toBool]
  | some slave =>
    cases ha : s.adrmask with
    | none => simp [Except.isOk, Except.toBool]
    | some a =>
      have hvalid : (a.validate xlen s!"{interconnectName} slot {i} {s.name}").isOk = true ↔
          a.Valid xlen := AdrMask.validate_ok
      simpa [isOk_map] using hvalid

end MapSlot

section Validation

def mapSlots : List (Option σ) → List (Option AdrMask) → List String → List Bool →
    List (MapSlot σ)
  | s :: slaves, a :: adrmasks, n :: names, r :: registered =>
    ⟨s, a, n, r⟩ :: mapSlots slaves adrmasks names registered
  | _, _, _, _ => []

variable (interconnectName : String) (xlen : ℕ)

/-- The first loop over the slots from `i` on, with the lines it logs. -/
def checkSlots : ℕ → List (MapSlot σ) → Except String (List String)
  | _, [] => .ok []
  | i, s :: slots =>
    match s.check interconnectName xlen i with
    | .error e => .error e
    | .ok line => (checkSlots (i + 1) slots).map (line :: ·)

/-- `active` after that loop. -/
def activeSlots : ℕ → List (MapSlot σ) → List (ActiveSlot σ)
  | _, [] => []
  | i, s :: slots => (s.active i).toList ++ activeSlots (i + 1) slots

/-- The second loop: the first pair that fails its assertion. -/
def firstOverlap (active : List (ActiveSlot σ)) : Option (ActiveSlot σ × ActiveSlot σ) :=
  (active.product active).find? fun p =>
    decide (p.1.index < p.2.index) && p.1.adrmask.overlap xlen p.2.adrmask

/-- `_validate_and_log_mapping`: the lines of an accepted map, or the message of the assertion
that fails; the assertions about the lengths have none. -/
def validateAndLogMapping (slaves : List (Option σ)) (adrmasks : List (Option AdrMask))
    (names : List String) (registeredSlaves : List Bool) : Except String (List String) :=
  if slaves.length ≠ adrmasks.length ∨ slaves.length ≠ names.length ∨
      slaves.length ≠ registeredSlaves.length then .error ""
  else
    let slots := mapSlots slaves adrmasks names registeredSlaves
    match checkSlots interconnectName xlen 0 slots with
    | .error e => .error e
    | .ok lines =>
      match firstOverlap xlen (activeSlots 0 slots) with
      | some (a, b) =>
        .error (s!"{interconnectName} slots {a.index} {a.name} and {b.index} {b.name}" ++
          " have overlapping address decode")
      | none => .ok (s!"{interconnectName}: DBUS address map" :: lines)

variable {interconnectName} {xlen} {slots : List (MapSlot σ)}

theorem checkSlots_ok {i : ℕ} : (checkSlots interconnectName xlen i slots).isOk = true ↔
    ∀ s ∈ slots, s.Consistent xlen := by
  induction slots generalizing i with
  | nil => simp [checkSlots, Except.isOk, Except.toBool]
  | cons s slots ih =>
    have hcheck : (s.check interconnectName xlen i).isOk = true ↔ s.Consistent xlen :=
      MapSlot.check_ok
    have hrest : (checkSlots interconnectName xlen (i + 1) slots).isOk = true ↔
      ∀ s ∈ slots, s.Consistent xlen := ih
    rw [List.forall_mem_cons, ← hrest, ← hcheck, checkSlots]
    cases s.check interconnectName xlen i with
    | error e => exact iff_of_false Bool.false_ne_true fun h => Bool.false_ne_true h.1
    | ok line =>
      dsimp only
      rw [isOk_map]
      exact (and_iff_right rfl).symm

theorem mem_activeSlots {i : ℕ} {x : ActiveSlot σ} : x ∈ activeSlots i slots ↔
    ∃ (k : ℕ) (s : MapSlot σ), slots[k]? = some s ∧ s.active (i + k) = some x := by
  induction slots generalizing i with
  | nil => simp [activeSlots]
  | cons s slots ih =>
    rw [activeSlots, List.mem_append, Option.mem_toList, ih]
    constructor
    · rintro (h | ⟨k, t, hk, ht⟩)
      · exact ⟨0, s, rfl, h⟩
      · exact ⟨k + 1, t, hk, by rwa [Nat.add_right_comm] at ht⟩
    · rintro ⟨k, t, hk, ht⟩
      cases k with
      | zero =>
        left
        cases hk
        exact ht
      | succ k => exact .inr ⟨k, t, hk, by rwa [Nat.add_right_comm]⟩

/-- Slot `k` is active and its mask matches the address. -/
def SlotMatches (slots : List (MapSlot σ)) (k : ℕ) (adr : BitVec xlen) : Prop :=
  ∃ (s : MapSlot σ) (x : ActiveSlot σ),
    slots[k]? = some s ∧ s.active k = some x ∧ x.adrmask.selects adr = true

/-- No address matches two slots. -/
def Separate (xlen : ℕ) (slots : List (MapSlot σ)) : Prop :=
  ∀ (adr : BitVec xlen) (j k : ℕ), SlotMatches slots j adr → SlotMatches slots k adr → j = k

theorem MapSlot.active_eq {s : MapSlot σ} {i : ℕ} {x : ActiveSlot σ}
    (h : s.active i = some x) :
    x.index = i ∧ s.slave.isSome = true ∧ s.adrmask = some x.adrmask := by
  simp only [active, Option.bind_eq_some_iff, Option.map_eq_some_iff] at h
  obtain ⟨slave, hs, a, ha, rfl⟩ := h
  exact ⟨rfl, by simp [hs], ha⟩

theorem MapSlot.Consistent.valid {s : MapSlot σ} (h : s.Consistent xlen) {i : ℕ}
    {x : ActiveSlot σ} (hx : s.active i = some x) : x.adrmask.Valid xlen := by
  obtain ⟨-, hslave, hmask⟩ := MapSlot.active_eq hx
  obtain ⟨slave, hs⟩ := Option.isSome_iff_exists.1 hslave
  simp only [Consistent, hs] at h
  obtain ⟨a, ha, hvalid⟩ := h
  cases hmask.symm.trans ha
  exact hvalid

/-- The pairs that are compared decide about all addresses. -/
theorem firstOverlap_none (hc : ∀ s ∈ slots, s.Consistent xlen) :
    firstOverlap xlen (activeSlots 0 slots) = none ↔ Separate xlen slots := by
  have hvalid {k : ℕ} {s : MapSlot σ} {x : ActiveSlot σ} (hk : slots[k]? = some s)
      (hx : s.active (0 + k) = some x) : x.adrmask.Valid xlen :=
    (hc s (List.mem_of_getElem? hk)).valid hx
  unfold firstOverlap
  rw [List.find?_eq_none]
  constructor
  · intro h adr j k hj hk
    have hlt {j k : ℕ} (hj : SlotMatches slots j adr) (hk : SlotMatches slots k adr) : ¬ j < k := by
      obtain ⟨s, x, hs, hx, hselx⟩ := hj
      obtain ⟨t, y, ht, hy, hsely⟩ := hk
      rw [← Nat.zero_add j] at hx
      rw [← Nat.zero_add k] at hy
      have hpair := h (x, y) (List.pair_mem_product.2
        ⟨mem_activeSlots.2 ⟨j, s, hs, hx⟩, mem_activeSlots.2 ⟨k, t, ht, hy⟩⟩)
      have hov := AdrMask.overlap_of_selects (hvalid hs hx) (hvalid ht hy) hselx hsely
      simpa [hov, (MapSlot.active_eq hx).1, (MapSlot.active_eq hy).1] using hpair
    exact Nat.le_antisymm (Nat.not_lt.1 (hlt hk hj)) (Nat.not_lt.1 (hlt hj hk))
  · rintro h ⟨x, y⟩ hmem hpair
    obtain ⟨hx, hy⟩ := List.pair_mem_product.1 hmem
    obtain ⟨j, s, hs, hx⟩ := mem_activeSlots.1 hx
    obtain ⟨k, t, ht, hy⟩ := mem_activeSlots.1 hy
    simp only [Bool.and_eq_true, decide_eq_true_eq] at hpair
    obtain ⟨hindex, hov⟩ := hpair
    obtain ⟨adr, hselx, hsely⟩ := (AdrMask.overlap_iff (hvalid hs hx) (hvalid ht hy)).1 hov
    rw [Nat.zero_add] at hx hy
    have heq := h adr j k ⟨s, x, hs, hx, hselx⟩ ⟨t, y, ht, hy, hsely⟩
    rw [(MapSlot.active_eq hx).1, (MapSlot.active_eq hy).1] at hindex
    exact hindex.ne heq

section Accepted
variable {slaves : List (Option σ)} {adrmasks : List (Option AdrMask)} {names : List String}
  {registeredSlaves : List Bool}

/-- The lists belong together, and so do the entries of each slot. -/
structure ConsistentMap (xlen : ℕ) (slaves : List (Option σ)) (adrmasks : List (Option AdrMask))
    (names : List String) (registeredSlaves : List Bool) : Prop where
  masksLength : slaves.length = adrmasks.length
  namesLength : slaves.length = names.length
  registeredLength : slaves.length = registeredSlaves.length
  slots : ∀ s ∈ mapSlots slaves adrmasks names registeredSlaves, s.Consistent xlen

theorem validateAndLogMapping_isOk :
    (validateAndLogMapping interconnectName xlen slaves adrmasks names registeredSlaves).isOk =
      true ↔ ConsistentMap xlen slaves adrmasks names registeredSlaves ∧
        Separate xlen (mapSlots slaves adrmasks names registeredSlaves) := by
  unfold validateAndLogMapping
  split_ifs with hlen
  · refine iff_of_false Bool.false_ne_true fun h => ?_
    rcases hlen with h' | h' | h'
    · exact h' h.1.masksLength
    · exact h' h.1.namesLength
    · exact h' h.1.registeredLength
  · push Not at hlen
    obtain ⟨hmasks, hnames, hreg⟩ := hlen
    have hscan : (checkSlots interconnectName xlen 0
        (mapSlots slaves adrmasks names registeredSlaves)).isOk = true ↔
        ∀ s ∈ mapSlots slaves adrmasks names registeredSlaves, s.Consistent xlen := checkSlots_ok
    dsimp only
    cases hlines : checkSlots interconnectName xlen 0
        (mapSlots slaves adrmasks names registeredSlaves) with
    | error e =>
      rw [hlines] at hscan
      exact iff_of_false Bool.false_ne_true fun h => Bool.false_ne_true (hscan.2 h.1.slots)
    | ok lines =>
      rw [hlines] at hscan
      have hslots := hscan.1 rfl
      have hsep := firstOverlap_none hslots
      rw [← hsep]
      cases firstOverlap xlen (activeSlots 0 (mapSlots slaves adrmasks names registeredSlaves)) with
      | none => exact iff_of_true rfl ⟨⟨hmasks, hnames, hreg, hslots⟩, rfl⟩
      | some p => exact iff_of_false Bool.false_ne_true fun h => nomatch h.2

end Accepted

/-- The masks of the active slots and their register flags, as the interconnect is given them. -/
def activeMasks (slots : List (MapSlot σ)) : List (AdrMask × Bool) :=
  slots.filterMap fun s => s.slave.bind fun _ => s.adrmask.map fun a => (a, s.registered)

theorem active_of_mask {s : MapSlot σ} {p : AdrMask × Bool}
    (h : (s.slave.bind fun _ => s.adrmask.map fun a => (a, s.registered)) = some p) (k : ℕ) :
    ∃ x, s.active k = some x ∧ x.adrmask = p.1 := by
  simp only [Option.bind_eq_some_iff, Option.map_eq_some_iff] at h
  obtain ⟨slave, hs, a, ha, rfl⟩ := h
  exact ⟨⟨k, slave, a, s.name⟩, by simp [MapSlot.active, hs, ha], rfl⟩

theorem valid_activeMasks (hc : ∀ s ∈ slots, s.Consistent xlen) :
    ∀ p ∈ activeMasks slots, p.1.Valid xlen := by
  intro p hp
  obtain ⟨s, hs, hp⟩ := List.mem_filterMap.1 hp
  obtain ⟨x, hx, hmask⟩ := active_of_mask hp 0
  exact hmask ▸ (hc s hs).valid hx

theorem pairwise_activeMasks (hc : ∀ s ∈ slots, s.Consistent xlen) (hsep : Separate xlen slots) :
    (activeMasks slots).Pairwise fun p q => p.1.overlap xlen q.1 = false ∧
      q.1.overlap xlen p.1 = false := by
  rw [activeMasks, List.pairwise_filterMap, List.pairwise_iff_getElem]
  intro j k hj hk hjk p hp q hq
  obtain ⟨x, hx, hmaskx⟩ := active_of_mask hp j
  obtain ⟨y, hy, hmasky⟩ := active_of_mask hq k
  have hgetj := List.getElem?_eq_getElem hj
  have hgetk := List.getElem?_eq_getElem hk
  have hvalidx := (hc _ (List.getElem_mem hj)).valid hx
  have hvalidy := (hc _ (List.getElem_mem hk)).valid hy
  have hnot (adr : BitVec xlen) : ¬ (x.adrmask.selects adr = true ∧ y.adrmask.selects adr = true) :=
    fun ⟨hselx, hsely⟩ =>
      hjk.ne (hsep adr j k ⟨_, x, hgetj, hx, hselx⟩ ⟨_, y, hgetk, hy, hsely⟩)
  rw [← hmaskx, ← hmasky]
  constructor
  · refine Bool.eq_false_iff.2 fun hov => ?_
    obtain ⟨adr, hsel⟩ := (AdrMask.overlap_iff hvalidx hvalidy).1 hov
    exact hnot adr hsel
  · refine Bool.eq_false_iff.2 fun hov => ?_
    obtain ⟨adr, hsel⟩ := (AdrMask.overlap_iff hvalidy hvalidx).1 hov
    exact hnot adr hsel.symm

/-- The map an interconnect decodes with, from slots whose check has succeeded. -/
def AddressMap.ofSlots (slots : List (MapSlot σ)) (hc : ∀ s ∈ slots, s.Consistent xlen)
    (hsep : Separate xlen slots) : AddressMap (activeMasks slots).length xlen where
  adrmask i := (activeMasks slots)[i].1
  registered i := (activeMasks slots)[i].2
  valid i := valid_activeMasks hc _ (List.getElem_mem i.isLt)
  disjoint i j hij := by
    have hpair := List.pairwise_iff_getElem.1 (pairwise_activeMasks hc hsep)
    rcases Nat.lt_or_gt_of_ne (Fin.val_ne_of_ne hij) with h | h
    · exact (hpair i j i.isLt j.isLt h).1
    · exact (hpair j i j.isLt i.isLt h).2

def AddressMap.ofAccepted {slaves : List (Option σ)} {adrmasks : List (Option AdrMask)}
    {names : List String} {registeredSlaves : List Bool}
    (h : (validateAndLogMapping interconnectName xlen slaves adrmasks names
      registeredSlaves).isOk = true) :
    AddressMap (activeMasks (mapSlots slaves adrmasks names registeredSlaves)).length xlen :=
  .ofSlots _ (validateAndLogMapping_isOk.1 h).1.slots (validateAndLogMapping_isOk.1 h).2

/-- The check of an address map is exact: for two masks, for a list of slots, and for the
decoder behind an accepted list; the range that is logged is the set of addresses of a mask that
reaches the top. -/
theorem address_map_exact (xlen : ℕ) :
    (∀ a b : AdrMask, a.Valid xlen → b.Valid xlen →
      (a.overlap xlen b = true ↔
        ∃ adr : BitVec xlen, a.selects adr = true ∧ b.selects adr = true)) ∧
    (∀ (interconnectName : String) (slaves : List (Option σ)) (adrmasks : List (Option AdrMask))
      (names : List String) (registeredSlaves : List Bool),
      ConsistentMap xlen slaves adrmasks names registeredSlaves →
      ((validateAndLogMapping interconnectName xlen slaves adrmasks names registeredSlaves).isOk =
        true ↔ Separate xlen (mapSlots slaves adrmasks names registeredSlaves))) ∧
    (∀ (interconnectName : String) (slaves : List (Option σ)) (adrmasks : List (Option AdrMask))
      (names : List String) (registeredSlaves : List Bool)
      (h : (validateAndLogMapping interconnectName xlen slaves adrmasks names
        registeredSlaves).isOk = true) (m : DbusRequest xlen) (i j : Fin _),
      Interconnect.sEn (AddressMap.ofAccepted h) m i = true →
        Interconnect.sEn (AddressMap.ofAccepted h) m j = true → i = j) ∧
    (∀ a : AdrMask, a.Valid xlen → a.upper = xlen → ∀ adr : BitVec xlen,
      (a.selects adr = true ↔
        (a.mappedRange xlen).1 ≤ adr.toNat ∧ adr.toNat ≤ (a.mappedRange xlen).2)) := by
  refine ⟨fun a b ha hb => AdrMask.overlap_iff ha hb, ?_, ?_, ?_⟩
  · intro interconnectName slaves adrmasks names registeredSlaves hc
    exact validateAndLogMapping_isOk.trans (and_iff_right hc)
  · intro interconnectName slaves adrmasks names registeredSlaves h m i j hi hj
    exact single_injective ((Interconnect.sEn_eq_single hi).symm.trans
      (Interconnect.sEn_eq_single hj))
  · intro a ha htop adr
    exact AdrMask.selects_iff_mappedRange ha htop

/-- The LED and UART registers of the SoC. -/
theorem ledUart_isOk : (validateAndLogMapping "io" 32 [some (), some ()]
    [some ⟨32, 16, 0x8000⟩, some ⟨32, 16, 0x8001⟩] ["led", "uart"] [false, false]).isOk = true := by
  decide

theorem address_map_exact_uart :
    let led : AdrMask := ⟨32, 16, 0x8000⟩
    let uart : AdrMask := ⟨32, 16, 0x8001⟩
    let m : DbusRequest 32 := { en := true, adr := 0x80010004 }
    (¬ ∃ adr : BitVec 32, led.selects adr = true ∧ uart.selects adr = true) ∧
      Separate 32
        (mapSlots [some (), some ()] [some led, some uart] ["led", "uart"] [false, false]) ∧
      Interconnect.sEn (AddressMap.ofAccepted ledUart_isOk) m ⟨0, by decide⟩ = false ∧
      uart.selects 0x8001ffff#32 = true := by
  intro led uart m
  obtain ⟨hoverlap, haccept, hslot, hrange⟩ := address_map_exact (σ := Unit) 32
  refine ⟨?_, ?_, ?_, ?_⟩
  · rw [← hoverlap led uart (by decide) (by decide)]
    decide
  · exact (haccept "io" _ _ _ _ (validateAndLogMapping_isOk.1 ledUart_isOk).1).1 ledUart_isOk
  · rw [← Bool.not_eq_true]
    intro hled
    have hone := hslot "io" _ _ _ _ ledUart_isOk m ⟨0, by decide⟩ ⟨1, by decide⟩ hled (by decide)
    exact absurd hone (by decide)
  · exact (hrange uart (by decide) rfl _).2 (by decide)

end Validation
end BonfireCore
