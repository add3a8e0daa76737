import BonfireCore.RspHandlers

/-! The register packets. `g` and `G` take a register as four bytes, the low one first; `P`
takes it as a number, the high digit first. -/
namespace BonfireCore

/-- Eight hex digits. -/
structure HexField where
  digits : List Byte
  length : digits.length = 8
  hex : ∀ c ∈ digits, (hexValue c).isSome = true

/-- Register `n` of a reply to `g`. -/
def registerField (reply : List Byte) (n : ℕ) : List Byte := (reply.drop (8 * n)).take 8

/-- The bytes that are left of a value in register `n`: `x0` is zero and the pc even. -/
def settleBytes (n : ℕ) (bytes : List Byte) : List Byte :=
  if n = 0 then [0, 0, 0, 0]
  else if n = 32 then bytes.modifyHead (· &&& 0xfc)
  else bytes

namespace GdbState

/-- After `P` the register reads as the bytes that were sent, and the others as before. -/
def WriteRoundTrips (s : GdbState) (n : ℕ) (number : List Byte) (v : HexField) : Prop :=
  ∀ before s₀ s₁ reply s₂, s.handle_g [] = some ([before], s₀) →
    s.handle_P (number ++ 0x3d :: v.digits) = some ([ascii "OK"], s₁) →
    s₁.handle_g [] = some ([reply], s₂) →
    fromHex (registerField reply n) = (fromHex v.digits).map (settleBytes n) ∧
      ∀ m < 33, m ≠ n → registerField reply m = registerField before m

/-- After `G` every register reads as the bytes that were sent. -/
def AllRoundTrip (s : GdbState) (fields : Fin 33 → HexField) : Prop :=
  ∀ s₁ reply s₂, s.handle_G ((List.finRange 33).flatMap fun i => (fields i).digits) =
      some ([ascii "OK"], s₁) →
    s₁.handle_g [] = some ([reply], s₂) →
    ∀ i : Fin 33, fromHex (registerField reply i) =
      (fromHex (fields i).digits).map (settleBytes i)

end GdbState

/-- The digits read the same byte by byte from either end. -/
def HexField.Symmetric (v : HexField) : Prop := ∃ a b, fromHex v.digits = some [a, b, b, a]

section Hex

theorem hexValue_lt {c : Byte} {d : ℕ} (h : hexValue c = some d) : d < 16 := by
  have hall : ∀ c : Byte, ∀ d ∈ hexValue c, d < 16 := by decide
  exact hall c d h

/-- What a hex digit is not. -/
theorem hexValue_quiet {c : Byte} (h : (hexValue c).isSome = true) :
    isSpace c = false ∧ isSpaceLatin1 c = false ∧ c ≠ 0x2b#8 ∧ c ≠ 0x2d#8 ∧ c ≠ 0x5f ∧
      c ≠ 0x78#8 ∧ c ≠ 0x58#8 ∧ c ≠ 0x3d := by
  revert c
  decide

theorem hexNumber_cons {c : Byte} {d : ℕ} (h : hexValue c = some d) (acc : ℕ) (underscore : Bool)
    (cs : List Byte) : hexNumber acc underscore (c :: cs) = hexNumber (16 * acc + d) false cs := by
  have hc : c ≠ 0x5f := (hexValue_quiet (by rw [h]; rfl)).2.2.2.2.1
  rw [hexNumber, if_neg hc, h]
  rfl

theorem fromHex_cons {c d : Byte} {hi lo : ℕ} (hc : hexValue c = some hi)
    (hd : hexValue d = some lo) (cs : List Byte) :
    fromHex (c :: d :: cs) = (fromHex cs).map (BitVec.ofNat 8 (16 * hi + lo) :: ·) := by
  have hspace : isSpace c = false := (hexValue_quiet (by rw [hc]; rfl)).1
  rw [fromHex, hspace, if_neg Bool.false_ne_true, hc, hd]
  cases fromHex cs <;> rfl

theorem ofNat_digits {hi lo : ℕ} (hhi : hi < 16) (hlo : lo < 16) :
    (BitVec.ofNat 8 (16 * hi + lo)).toNat = 16 * hi + lo := by
  rw [BitVec.toNat_ofNat, Nat.mod_eq_of_lt (by omega)]

/-- Hex digits in pairs: the bytes, and the number they make with the first one on top. -/
theorem hexNumber_fromHex (k : ℕ) {ds : List Byte}
    (hex : ∀ c ∈ ds, (hexValue c).isSome = true) (hlength : ds.length = 2 * k) (acc : ℕ) :
    ∃ bytes, fromHex ds = some bytes ∧ bytes.length = k ∧
      hexNumber acc false ds = some (bytes.foldl (fun acc b => 256 * acc + b.toNat) acc) := by
  induction k generalizing ds acc with
  | zero =>
    rw [List.length_eq_zero_iff.mp hlength]
    exact ⟨[], rfl, rfl, rfl⟩
  | succ k ih =>
    match ds, hlength with
    | c :: d :: cs, hlength =>
      have hdc : d ∈ c :: d :: cs := List.mem_cons_of_mem c List.mem_cons_self
      obtain ⟨hi, hhi⟩ := Option.isSome_iff_exists.mp (hex c List.mem_cons_self)
      obtain ⟨lo, hlo⟩ := Option.isSome_iff_exists.mp (hex d hdc)
      obtain ⟨bytes, hbytes, hk, hnumber⟩ := ih
        (fun x hx => hex x (List.mem_cons_of_mem c (List.mem_cons_of_mem d hx)))
        (Nat.add_right_cancel (m := 2) hlength) (16 * (16 * acc + hi) + lo)
      have hacc : 256 * acc + (16 * hi + lo) = 16 * (16 * acc + hi) + lo := by omega
      refine ⟨BitVec.ofNat 8 (16 * hi + lo) :: bytes, ?_, congrArg Nat.succ hk, ?_⟩
      · rw [fromHex_cons hhi hlo, hbytes]
        rfl
      · rw [hexNumber_cons hhi, hexNumber_cons hlo, hnumber, List.foldl_cons,
          ofNat_digits (hexValue_lt hhi) (hexValue_lt hlo), hacc]

theorem strip_eq {p : Byte → Bool} {s : List Byte} (h : ∀ c ∈ s, p c = false) :
    (s.dropWhile p).rdropWhile p = s := by
  have hdrop : s.dropWhile p = s := by
    cases s with
    | nil => rfl
    | cons c s => rw [List.dropWhile_cons_of_neg (by rw [h c List.mem_cons_self]; decide)]
  rw [hdrop, List.rdropWhile_eq_self_iff]
  intro hne
  rw [h _ (List.getLast_mem hne)]
  decide

/-- `int` of plain digits. -/
theorem int16_digits {s : List Byte} (hne : s ≠ [])
    (hex : ∀ c ∈ s, (hexValue c).isSome = true) :
    int16 s = (hexNumber 0 false s).map fun n : ℕ => (n : ℤ) := by
  obtain ⟨c, s, rfl⟩ := List.exists_cons_of_ne_nil hne
  obtain ⟨-, -, h2b, h2d, h5f, -⟩ := hexValue_quiet (hex c List.mem_cons_self)
  have hdigits : hexDigits (c :: s) = hexNumber 0 false (c :: s) := by
    have hsecond : ∀ d s', s = d :: s' → d ≠ 0x78#8 ∧ d ≠ 0x58#8 := by
      rintro d s' rfl
      have hd : d ∈ c :: d :: s' := List.mem_cons_of_mem c List.mem_cons_self
      exact ⟨(hexValue_quiet (hex d hd)).2.2.2.2.2.1, (hexValue_quiet (hex d hd)).2.2.2.2.2.2.1⟩
    unfold hexDigits
    split
    · exact absurd rfl (hsecond _ _ (List.cons.inj ‹_›).2).1
    · exact absurd rfl (hsecond _ _ (List.cons.inj ‹_›).2).2
    · exact absurd rfl (hsecond _ _ (List.cons.inj ‹_›).2).1
    · exact absurd rfl (hsecond _ _ (List.cons.inj ‹_›).2).2
    · rw [if_neg]
      rintro (h | h)
      · exact absurd h (List.cons_ne_nil c s)
      · exact h5f (Option.some.inj h)
  unfold int16
  rw [strip_eq fun x hx => (hexValue_quiet (hex x hx)).2.1]
  split
  · exact absurd (List.cons.inj ‹_›).1 h2b
  · exact absurd (List.cons.inj ‹_›).1 h2d
  · rw [hdigits]
    cases hexNumber 0 false (c :: s) <;> rfl

theorem hexNumber_plain {acc n : ℕ} {underscore : Bool} {s : List Byte}
    (h : hexNumber acc underscore s = some n) : 0x3d ∉ s := by
  induction s generalizing acc underscore with
  | nil => exact List.not_mem_nil
  | cons c s ih =>
    by_cases hc : c = 0x5f
    · subst hc
      rw [hexNumber, if_pos rfl] at h
      cases underscore with
      | true => exact absurd h nofun
      | false => exact List.not_mem_cons_of_ne_of_not_mem (by decide) (ih h)
    · rw [hexNumber, if_neg hc] at h
      obtain ⟨d, hd, h⟩ := Option.bind_eq_some_iff.mp h
      have hplain := (hexValue_quiet (by rw [hd]; rfl)).2.2.2.2.2.2.2
      exact List.not_mem_cons_of_ne_of_not_mem (Ne.symm hplain) (ih h)

theorem hexDigits_plain {n : ℕ} {s : List Byte} (h : hexDigits s = some n) : 0x3d ∉ s := by
  have hbody : ∀ s : List Byte,
      (if s = [] ∨ s.head? = some 0x5f then none else hexNumber 0 false s) = some n → 0x3d ∉ s := by
    intro s h
    exact hexNumber_plain (Option.ite_none_left_eq_some.mp h).2
  have hcons : ∀ (b : Byte) (s : List Byte), 0x3d ≠ b → 0x3d ∉ s → 0x3d ∉ b :: s :=
    fun _ _ hb hs => List.not_mem_cons_of_ne_of_not_mem hb hs
  unfold hexDigits at h
  split at h
  · exact hcons _ _ (by decide) (hcons _ _ (by decide) (hcons _ _ (by decide) (hbody _ h)))
  · exact hcons _ _ (by decide) (hcons _ _ (by decide) (hcons _ _ (by decide) (hbody _ h)))
  · exact hcons _ _ (by decide) (hcons _ _ (by decide) (hbody _ h))
  · exact hcons _ _ (by decide) (hcons _ _ (by decide) (hbody _ h))
  · exact hbody _ h

theorem mem_strip {p : Byte → Bool} {b : Byte} {s : List Byte} (hb : p b = false) (h : b ∈ s) :
    b ∈ (s.dropWhile p).rdropWhile p := by
  have hdrop : ∀ s : List Byte, b ∈ s → b ∈ s.dropWhile p := by
    intro s hs
    induction s with
    | nil => exact hs
    | cons c s ih =>
      by_cases hc : p c = true
      · rw [List.dropWhile_cons_of_pos hc]
        refine ih ((List.mem_cons.mp hs).resolve_left ?_)
        rintro rfl
        exact absurd hc (by rw [hb]; decide)
      · rw [List.dropWhile_cons_of_neg hc]
        exact hs
  rw [List.rdropWhile, List.mem_reverse]
  exact hdrop _ (List.mem_reverse.mpr (hdrop s h))

/-- What `int` takes has no `=` in it. -/
theorem int16_plain {s : List Byte} {n : ℤ} (h : int16 s = some n) : 0x3d ∉ s := by
  intro hmem
  have hstrip : (0x3d : Byte) ∈ (s.dropWhile isSpaceLatin1).rdropWhile isSpaceLatin1 :=
    mem_strip (by decide) hmem
  have hmap : ∀ {f : ℤ → ℤ} {t : List Byte},
      ((hexDigits t).bind fun k => some (k : ℤ)).map f = some n → (0x3d : Byte) ∉ t := by
    intro f t ht
    obtain ⟨k, hk, -⟩ := Option.map_eq_some_iff.mp ht
    obtain ⟨k, hk, -⟩ := Option.bind_eq_some_iff.mp hk
    exact hexDigits_plain hk
  unfold int16 at h
  split at h
  · rename_i t hs
    rw [hs] at hstrip
    exact hmap h ((List.mem_cons.mp hstrip).resolve_left (by decide))
  · rename_i t hs
    rw [hs] at hstrip
    exact hmap h ((List.mem_cons.mp hstrip).resolve_left (by decide))
  · exact hmap h hstrip

/-- A byte and its two digits. -/
theorem fromHex_hexText (data : List Byte) : fromHex (hexText data) = some data := by
  induction data with
  | nil => rfl
  | cons b data ih =>
    have hb := b.isLt
    have hwidth : (b.setWidth 32).toNat = b.toNat := by
      rw [BitVec.toNat_setWidth, Nat.mod_eq_of_lt (by omega)]
    have hsum : 16 * (b.toNat / 16 % 16) + b.toNat % 16 = b.toNat := by omega
    show fromHex (hexByte (b.setWidth 32) ++ hexText data) = _
    rw [hexByte, List.cons_append, List.cons_append, List.nil_append,
      fromHex_cons (hexValue_hexDigit _ _) (hexValue_hexDigit _ _), ih, Option.map_some]
    dsimp only
    rw [hwidth, hsum, BitVec.ofNat_toNat, BitVec.setWidth_eq]

@[simp] theorem hexText_length (data : List Byte) : (hexText data).length = 2 * data.length := by
  induction data with
  | nil => rfl
  | cons b data ih =>
    have hcons : hexText (b :: data) = hexByte (b.setWidth 32) ++ hexText data := rfl
    rw [hcons, List.length_append, ih, List.length_cons, Nat.mul_succ, Nat.add_comm]
    rfl

end Hex

section Bytes

@[simp] theorem pack_length (value : Word) : (pack value).length = 4 := rfl

theorem pack_eq (value : Word) : pack value = [value.extractLsb' 0 8, value.extractLsb' 8 8,
    value.extractLsb' 16 8, value.extractLsb' 24 8] := rfl

/-- Four bytes, the low one first. -/
theorem pack_fromLittle (b0 b1 b2 b3 : Byte) :
    pack (BitVec.ofNat 32 (fromLittle [b0, b1, b2, b3])) = [b0, b1, b2, b3] := by
  have h0 := b0.isLt
  have h1 := b1.isLt
  have h2 := b2.isLt
  have h3 := b3.isLt
  simp only [pack_eq, fromLittle, List.cons.injEq, and_true]
  refine ⟨?_, ?_, ?_, ?_⟩
  all_goals
    apply BitVec.eq_of_toNat_eq
    rw [BitVec.extractLsb'_toNat, BitVec.toNat_ofNat, Nat.shiftRight_eq_div_pow]
    omega

/-- A pc loses its low bits in the first byte. -/
theorem pack_even (value : Word) : pack (value.extractLsb' 2 30 ++ 0#2) =
    (pack value).modifyHead (· &&& 0xfc) := by
  simp only [pack_eq, List.modifyHead_cons, List.cons.injEq, and_true]
  refine ⟨?_, ?_, ?_, ?_⟩
  all_goals
    apply BitVec.eq_of_getLsbD_eq
    intro i hi
    simp only [BitVec.getLsbD_extractLsb', BitVec.getLsbD_append, BitVec.getLsbD_and]
    interval_cases i <;> simp

end Bytes

/-- Register `n` as the server numbers them, with the pc behind the general registers. -/
def HaltedHart.register (h : HaltedHart) (n : ℕ) : Word :=
  if n = 32 then h.debug.dpc ++ 0#2 else h.gpr (BitVec.ofNat 5 n)

/-- What is left of a value in register `n`. -/
def settle (n : ℕ) (value : Word) : Word :=
  if n = 0 then 0 else if n = 32 then value.extractLsb' 2 30 ++ 0#2 else value

theorem pack_settle (n : ℕ) (value : Word) :
    pack (settle n value) = settleBytes n (pack value) := by
  unfold settle settleBytes
  split_ifs
  · rfl
  · exact pack_even value
  · rfl

/-- The reply to `g`. -/
def registerText (h : HaltedHart) : List Byte :=
  (List.range 33).flatMap fun n => hexText (pack (h.register n))

/-- Fields of one length are cut out again. -/
theorem flatMap_slice {ι : Type*} {f : ι → List Byte} {k : ℕ} (l : List ι)
    (hf : ∀ x, (f x).length = k) {i : ℕ} (hi : i < l.length) :
    ((l.flatMap f).drop (k * i)).take k = f l[i] := by
  induction l generalizing i with
  | nil => exact absurd hi (Nat.not_lt_zero i)
  | cons x l ih =>
    rw [List.flatMap_cons]
    cases i with
    | zero => exact List.take_left' (hf x)
    | succ i =>
      have hskip : k * (i + 1) = (f x).length + k * i := by rw [hf, Nat.mul_succ, Nat.add_comm]
      rw [hskip, List.drop_length_add_append]
      exact ih (Nat.lt_of_succ_lt_succ hi)

theorem registerField_registerText (h : HaltedHart) {n : ℕ} (hn : n < 33) :
    registerField (registerText h) n = hexText (pack (h.register n)) := by
  have hslice := flatMap_slice (List.range 33) (f := fun n => hexText (pack (h.register n)))
    (k := 8) (fun x => by rw [hexText_length, pack_length]) (by rwa [List.length_range])
  rw [List.getElem_range] at hslice
  exact hslice

namespace GdbState
variable {s : GdbState}

theorem readGprs_eq (h : HaltedHart) (l : List (BitVec 5)) :
    ∃ data0, readGprs h l = some (l.map h.gpr, h.scratch data0 h.progbuf0) := by
  induction l generalizing h with
  | nil => exact ⟨h.data0, rfl⟩
  | cons regno l ih =>
    obtain ⟨data0, hread⟩ := ih (h.scratch (h.gpr regno) h.progbuf0)
    refine ⟨data0, ?_⟩
    rw [readGprs, DebugApi.readGPR_eq, Option.bind_eq_bind, Option.bind_some]
    dsimp only
    rw [hread]
    rfl

theorem scratchReg_ne : CSR_SCRATCH_GPR ≠ 0#5 := by decide

theorem readCsr_dpc (h : HaltedHart) : h.readCsr dpc = some (h.debug.dpc ++ 0#2) := rfl

theorem handle_g_eq : ∃ hart, s.handle_g [] = some ([registerText s.hart], { s with hart }) := by
  obtain ⟨data0, hread⟩ := readGprs_eq s.hart gprs
  refine ⟨s.hart.scratch (s.hart.gpr CSR_SCRATCH_GPR) (encodeCsrr CSR_SCRATCH_GPR dpc), ?_⟩
  rw [handle_g, if_pos rfl, hread, Option.bind_eq_bind, Option.bind_some]
  dsimp only
  rw [DebugApi.readCSR_eq dpc scratchReg_ne, HaltedHart.scratch_readCsr, readCsr_dpc]
  rfl

/-- The registers after a write to one of them. -/
def Wrote (h h' : HaltedHart) (n : ℕ) (value : Word) : Prop :=
  ∀ m < 33, h'.register m = if m = n then settle n value else h.register m

theorem register_setGpr (h : HaltedHart) {n : ℕ} (hn : n < 32) (value data0 : Word) :
    Wrote h ((h.setGpr (BitVec.ofNat 5 n) value).scratch data0 h.progbuf0) n value := by
  intro m hm
  unfold HaltedHart.register settle
  by_cases hpc : m = 32
  · rw [if_pos hpc, if_neg (by omega), if_pos hpc]
    rfl
  · rw [if_neg hpc, if_neg hpc, HaltedHart.scratch_gpr, HaltedHart.gpr_setGpr]
    by_cases hmn : m = n
    · subst hmn
      rw [if_pos rfl, if_neg hpc]
      by_cases h0 : m = 0
      · subst h0
        rw [if_neg (by decide), if_pos rfl]
        rfl
      · have hzero : BitVec.ofNat 5 m ≠ 0 := by
          intro heq
          have hnat := congrArg BitVec.toNat heq
          rw [BitVec.toNat_ofNat, Nat.mod_eq_of_lt (by omega)] at hnat
          exact h0 hnat
        rw [if_pos ⟨rfl, hzero⟩, if_neg h0]
    · have hne : BitVec.ofNat 5 n ≠ BitVec.ofNat 5 m := by
        intro heq
        have hnat := congrArg BitVec.toNat heq
        rw [BitVec.toNat_ofNat, BitVec.toNat_ofNat, Nat.mod_eq_of_lt (by omega),
          Nat.mod_eq_of_lt (by omega)] at hnat
        exact hmn hnat.symm
      rw [if_neg (fun h => hne h.1), if_neg hmn]

theorem register_writeCSR (h : HaltedHart) (value : Word) :
    ∃ h', DebugApi.writeCSR h dpc value CSR_SCRATCH_GPR = some h' ∧ Wrote h h' 32 value := by
  refine ⟨_, by rw [DebugApi.writeCSR_eq dpc value scratchReg_ne, readCsr_dpc]; rfl, ?_⟩
  intro m hm
  unfold HaltedHart.register
  by_cases hpc : m = 32
  · rw [if_pos hpc, if_pos hpc]
    rfl
  · rw [if_neg hpc, if_neg hpc, if_neg hpc]
    rfl

/-- `P` writes the number that it reads, high digit first. -/
theorem handle_P_eq {n value : ℕ} {number digits : List Byte} (hn : n < 33)
    (hnumber : int16 number = some (n : ℤ)) (hvalue : int16 digits = some (value : ℤ)) :
    ∃ s', s.handle_P (number ++ 0x3d :: digits) = some ([ascii "OK"], s') ∧
      Wrote s.hart s'.hart n (BitVec.ofNat 32 value) := by
  have hsplit : (number ++ 0x3d :: digits).splitOn 0x3d = [number, digits] := by
    have hplain : ∀ s : List Byte, 0x3d ∉ s → ∀ b ∈ s, (b == 0x3d) = false := by
      intro s hs b hb
      exact beq_false_of_ne fun heq => hs (heq ▸ hb)
    unfold List.splitOn
    rw [List.splitOnP_append_cons_of_forall_mem (hplain number (int16_plain hnumber)) _ rfl,
      List.splitOnP_eq_singleton (hplain digits (int16_plain hvalue))]
  have hfields : regnumValue (number ++ 0x3d :: digits) = some ((n : ℤ), (value : ℤ)) := by
    unfold regnumValue
    rw [hsplit]
    dsimp only
    rw [hnumber, hvalue]
    rfl
  unfold handle_P
  rw [hfields, Option.bind_eq_bind, Option.bind_some]
  dsimp only
  rw [BitVec.ofInt_natCast, BitVec.ofInt_natCast]
  by_cases hpc : n = 32
  · subst hpc
    obtain ⟨hart, hwrite, hwrote⟩ := register_writeCSR s.hart (BitVec.ofNat 32 value)
    refine ⟨{ s with hart, pendingResumeAddr := none }, ?_, hwrote⟩
    rw [if_neg (by omega), if_pos (Nat.cast_ofNat), hwrite]
    rfl
  · have hgpr : (0 : ℤ) ≤ n ∧ (n : ℤ) < 32 := by omega
    have hwrote := register_setGpr s.hart (n := n) (by omega) (BitVec.ofNat 32 value)
      (BitVec.ofNat 32 value)
    refine ⟨{ s with hart := _ }, ?_, hwrote⟩
    rw [if_pos hgpr, DebugApi.writeReg_eq]
    rfl

/-- The registers of a list are written, the others kept. -/
theorem writeGprs_eq (h : HaltedHart) (l : List (BitVec 5 × ℕ)) (hl : (l.map Prod.fst).Nodup) :
    ∃ h', writeGprs h l = some h' ∧ h'.debug = h.debug ∧
      (∀ r, r ∉ l.map Prod.fst → h'.gpr r = h.gpr r) ∧
      ∀ w ∈ l, w.1 ≠ 0 → h'.gpr w.1 = BitVec.ofNat 32 w.2 := by
  induction l generalizing h with
  | nil => exact ⟨h, rfl, rfl, fun _ _ => rfl, nofun⟩
  | cons w l ih =>
    obtain ⟨hw, hl⟩ := List.nodup_cons.mp hl
    obtain ⟨h', hwrite, hdebug, hkept, hwritten⟩ :=
      ih ((h.setGpr w.1 (BitVec.ofNat 32 w.2)).scratch (BitVec.ofNat 32 w.2) h.progbuf0) hl
    refine ⟨h', ?_, hdebug, ?_, ?_⟩
    · rw [writeGprs, DebugApi.writeReg_eq, Option.bind_eq_bind, Option.bind_some, hwrite]
    · intro r hr
      have hne : w.1 ≠ r := fun heq => hr (List.mem_cons.mpr (.inl heq.symm))
      have hr' : r ∉ l.map Prod.fst := fun hmem => hr (List.mem_cons_of_mem _ hmem)
      rw [hkept r hr', HaltedHart.scratch_gpr, HaltedHart.gpr_setGpr, if_neg fun h => hne h.1]
    · intro w' hw' hzero
      rcases List.mem_cons.mp hw' with rfl | hw'
      · rw [hkept w'.1 hw, HaltedHart.scratch_gpr, HaltedHart.gpr_setGpr, if_pos ⟨rfl, hzero⟩]
      · exact hwritten w' hw' hzero

theorem mapM_eq_some {ι κ : Type*} {f : ι → Option κ} {g : ι → κ} {l : List ι}
    (h : ∀ x ∈ l, f x = some (g x)) : l.mapM f = some (l.map g) := by
  induction l with
  | nil => rfl
  | cons x l ih =>
    rw [List.mapM_cons, h x List.mem_cons_self, ih fun y hy => h y (List.mem_cons_of_mem x hy)]
    rfl

/-- `G` writes every register, low byte first. -/
theorem handle_G_eq {subcmd : List Byte} {values : ℕ → ℕ} (hlength : subcmd.length = 33 * 8)
    (hvalues : ∀ i < 33,
      (fromHex ((subcmd.drop (8 * i)).take 8)).map fromLittle = some (values i)) :
    ∃ s', s.handle_G subcmd = some ([ascii "OK"], s') ∧
      ∀ n < 33, s'.hart.register n = settle n (BitVec.ofNat 32 (values n)) := by
  have hread : registerValues subcmd = some ((List.range 33).map values) :=
    mapM_eq_some fun i hi => hvalues i (List.mem_range.mp hi)
  have hzip : gprs.zip ((List.range 33).map values).tail =
      (List.range' 1 31).map fun i => (BitVec.ofNat 5 i, values i) := rfl
  have hkeys : ((gprs.zip ((List.range 33).map values).tail).map Prod.fst).Nodup := by
    have hgprs : ((List.range' 1 31).map (BitVec.ofNat 5)).Nodup := by decide
    rw [hzip, List.map_map]
    exact hgprs
  obtain ⟨hart, hwrite, hdebug, -, hwritten⟩ := writeGprs_eq s.hart _ hkeys
  obtain ⟨hart', hcsr, hwrote⟩ := register_writeCSR hart (BitVec.ofNat 32 (values 32))
  refine ⟨{ s with
    hart := hart'
    pendingResumeAddr := none }, ?_, ?_⟩
  · rw [handle_G, if_neg (by omega), hread]
    dsimp only
    rw [hwrite, Option.bind_eq_bind, Option.bind_some]
    show (DebugApi.writeCSR hart dpc (BitVec.ofNat 32 (values 32)) CSR_SCRATCH_GPR).bind _ = _
    rw [hcsr]
    rfl
  · intro n hn
    have hn' := hwrote n hn
    by_cases hpc : n = 32
    · subst hpc
      exact hn'
    · rw [hn', if_neg hpc]
      unfold HaltedHart.register settle
      rw [if_neg hpc, if_neg hpc]
      by_cases h0 : n = 0
      · subst h0
        rfl
      · have hmem : (BitVec.ofNat 5 n, values n) ∈
            gprs.zip ((List.range 33).map values).tail := by
          rw [hzip]
          exact List.mem_map_of_mem (f := fun i => (BitVec.ofNat 5 i, values i))
            (List.mem_range'_1.mpr ⟨by omega, by omega⟩)
        have hzero : BitVec.ofNat 5 n ≠ 0 := by
          intro heq
          have hnat := congrArg BitVec.toNat heq
          rw [BitVec.toNat_ofNat, Nat.mod_eq_of_lt (by omega)] at hnat
          exact h0 hnat
        rw [if_neg h0]
        exact hwritten _ hmem hzero

end GdbState

namespace HexField
variable (v : HexField)

/-- The four bytes of a field, and the number that `int` takes it for. -/
theorem bytes_eq : ∃ b0 b1 b2 b3, fromHex v.digits = some [b0, b1, b2, b3] ∧
    int16 v.digits = some (fromLittle [b3, b2, b1, b0] : ℤ) := by
  obtain ⟨bytes, hbytes, hfour, hnumber⟩ := hexNumber_fromHex 4 v.hex v.length 0
  have hne : v.digits ≠ [] := List.ne_nil_of_length_pos (by rw [v.length]; decide)
  match bytes, hfour with
  | [b0, b1, b2, b3], _ =>
    refine ⟨b0, b1, b2, b3, hbytes, ?_⟩
    rw [int16_digits hne v.hex, hnumber]
    simp only [List.foldl_cons, List.foldl_nil, Option.map_some, fromLittle, Option.some.injEq,
      Nat.cast_inj]
    omega

end HexField

/-- `P` and `g` agree on a field just when its bytes read the same from either end. -/
theorem settleBytes_reverse_iff (n : ℕ) (b0 b1 b2 b3 : Byte) :
    settleBytes n [b3, b2, b1, b0] = settleBytes n [b0, b1, b2, b3] ↔
      n = 0 ∨ b0 = b3 ∧ b1 = b2 := by
  unfold settleBytes
  split_ifs with h0 hpc
  · exact iff_of_true rfl (.inl h0)
  · simp only [List.modifyHead_cons, List.cons.injEq, and_true, h0, false_or]
    constructor
    · rintro ⟨-, h21, -, h03⟩
      exact ⟨h03, h21.symm⟩
    · rintro ⟨rfl, rfl⟩
      exact ⟨rfl, rfl, rfl, rfl⟩
  · simp only [List.cons.injEq, and_true, h0, false_or]
    constructor
    · rintro ⟨-, h21, -, h03⟩
      exact ⟨h03, h21.symm⟩
    · rintro ⟨rfl, rfl⟩
      exact ⟨rfl, rfl, rfl, rfl⟩

namespace GdbState
variable (s : GdbState)

theorem registerField_reply {before : List Byte} {s₀ : GdbState} {n : ℕ}
    (h : s.handle_g [] = some ([before], s₀)) (hn : n < 33) :
    registerField before n = hexText (pack (s.hart.register n)) := by
  obtain ⟨hart, hg⟩ := s.handle_g_eq
  obtain ⟨⟨⟩, -⟩ := Prod.mk.inj (Option.some.inj (hg.symm.trans h))
  exact registerField_registerText s.hart hn

/-- `G` and `g` agree on every value. -/
theorem all_round_trip (fields : Fin 33 → HexField) : s.AllRoundTrip fields := by
  intro s₁ reply s₂ hG hg i
  have hfield : ∀ i : Fin 33, ∃ b0 b1 b2 b3, fromHex (fields i).digits = some [b0, b1, b2, b3] := by
    intro i
    obtain ⟨b0, b1, b2, b3, hbytes, -⟩ := (fields i).bytes_eq
    exact ⟨b0, b1, b2, b3, hbytes⟩
  let values : ℕ → ℕ := fun n =>
    if hn : n < 33 then fromLittle ((fromHex (fields ⟨n, hn⟩).digits).getD []) else 0
  have hslice : ∀ n, (hn : n < 33) →
      ((((List.finRange 33).flatMap fun i => (fields i).digits).drop (8 * n)).take 8) =
        (fields ⟨n, hn⟩).digits := by
    intro n hn
    have hcut := flatMap_slice (List.finRange 33) (f := fun i => (fields i).digits) (k := 8)
      (fun i => (fields i).length) (by rwa [List.length_finRange] : n < _)
    rw [List.getElem_finRange] at hcut
    exact hcut
  have hlength : ((List.finRange 33).flatMap fun i => (fields i).digits).length = 33 * 8 := by
    simp [List.length_flatMap, (fields _).length]
  have hvalues : ∀ n < 33,
      (fromHex ((((List.finRange 33).flatMap fun i => (fields i).digits).drop (8 * n)).take 8)).map
        fromLittle = some (values n) := by
    intro n hn
    obtain ⟨b0, b1, b2, b3, hbytes⟩ := hfield ⟨n, hn⟩
    simp only [hslice n hn, hbytes, values, hn, dif_pos, Option.map_some, Option.getD_some]
  obtain ⟨s', hs', hregister⟩ := s.handle_G_eq hlength hvalues
  obtain ⟨-, rfl⟩ := Prod.mk.inj (Option.some.inj (hs'.symm.trans hG))
  obtain ⟨b0, b1, b2, b3, hbytes⟩ := hfield i
  have hvalue : values i = fromLittle [b0, b1, b2, b3] := by
    simp only [values, i.isLt, dif_pos, Fin.eta, hbytes, Option.getD_some]
  rw [registerField_reply _ hg i.isLt, fromHex_hexText, hregister i i.isLt, hvalue, pack_settle,
    pack_fromLittle, hbytes]
  rfl

/-- `P` and `g` agree on the values that read the same from either end. -/
theorem write_round_trips_iff {n : ℕ} (hn : n < 33) {number : List Byte}
    (hnumber : int16 number = some (n : ℤ)) (v : HexField) :
    s.WriteRoundTrips n number v ↔ n = 0 ∨ v.Symmetric := by
  obtain ⟨b0, b1, b2, b3, hbytes, hvalue⟩ := v.bytes_eq
  obtain ⟨s', hP, hwrote⟩ := s.handle_P_eq hn hnumber hvalue
  have hsymmetric : v.Symmetric ↔ b0 = b3 ∧ b1 = b2 := by
    unfold HexField.Symmetric
    rw [hbytes]
    constructor
    · rintro ⟨a, b, hab⟩
      simp only [Option.some.injEq, List.cons.injEq, and_true] at hab
      obtain ⟨rfl, rfl, rfl, rfl⟩ := hab
      exact ⟨rfl, rfl⟩
    · rintro ⟨rfl, rfl⟩
      exact ⟨_, _, rfl⟩
  have hread : ∀ reply s₂, s'.handle_g [] = some ([reply], s₂) →
      fromHex (registerField reply n) = some (settleBytes n [b3, b2, b1, b0]) := by
    intro reply s₂ hg
    rw [registerField_reply _ hg hn, fromHex_hexText, hwrote n hn, if_pos rfl, pack_settle,
      pack_fromLittle]
  rw [hsymmetric, ← settleBytes_reverse_iff]
  constructor
  · intro h
    obtain ⟨_, hbefore⟩ := s.handle_g_eq
    obtain ⟨_, hafter⟩ := s'.handle_g_eq
    have hfield := (h _ _ _ _ _ hbefore hP hafter).1
    rw [hread _ _ hafter, hbytes] at hfield
    exact Option.some.inj hfield
  · intro h before s₀ s₁ reply s₂ hbefore hP' hg
    obtain ⟨-, rfl⟩ := Prod.mk.inj (Option.some.inj (hP.symm.trans hP'))
    refine ⟨?_, fun m hm hne => ?_⟩
    · rw [hread _ _ hg, hbytes, h]
      rfl
    · rw [registerField_reply _ hg hm, registerField_reply _ hbefore hm, hwrote m hm, if_neg hne]

end GdbState

/-- The register packets round-trip for `x0`, and for the values whose bytes read the same from
either end. -/
theorem registers_round_trip_iff (s : GdbState) (n : Fin 33) {number : List Byte}
    (hnumber : int16 number = some (n : ℤ)) (v : HexField) (fields : Fin 33 → HexField) :
    s.WriteRoundTrips n number v ∧ s.AllRoundTrip fields ↔ n = 0 ∨ v.Symmetric := by
  rw [and_iff_left (s.all_round_trip fields), s.write_round_trips_iff n.isLt hnumber v,
    Fin.ext_iff]
  rfl

/-- One in the low byte. -/
def oneLittle : HexField := ⟨ascii "01000000", rfl, by decide⟩

theorem registers_round_trip_one :
    GdbState.WriteRoundTrips {} 5 (ascii "5") oneLittle ∧
        GdbState.AllRoundTrip {} (fun _ => oneLittle) ↔
      (5 : Fin 33) = 0 ∨ oneLittle.Symmetric :=
  registers_round_trip_iff {} 5 (by decide) oneLittle fun _ => oneLittle

/-- `P` with one in the low byte leaves it in the high byte. -/
theorem write_reversed : ¬ GdbState.WriteRoundTrips {} 5 (ascii "5") oneLittle := by
  have hbytes : fromHex oneLittle.digits = some [0x01, 0x00, 0x00, 0x00] := by decide
  rw [GdbState.write_round_trips_iff (n := 5) {} (by decide) (by decide) oneLittle]
  rintro (h | ⟨a, b, h⟩)
  · exact absurd h (by decide)
  · rw [hbytes, Option.some.injEq, List.cons.injEq, List.cons.injEq, List.cons.injEq,
      List.cons.injEq] at h
    exact absurd (h.1.trans h.2.2.2.1.symm) (by decide)

end BonfireCore
