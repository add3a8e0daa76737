import BonfireCore.Snprintf

/-! What a format says with its arguments, and that the buffer gets it: cut to its size, and
with the full length returned. -/
namespace BonfireCore

/-- The decimal numeral. -/
def numeral (n : ℕ) : List CChar := literal (Nat.toDigits 10 n)

def signedNumeral (v : ℤ) : List CChar :=
  if v < 0 then 0x2d :: numeral v.natAbs else numeral v.natAbs

/-- The hexadecimal numeral of eight digits. -/
def hexNumeral (n : ℕ) : List CChar := literal ((Nat.toDigits 16 n).leftpad 8 '0')

namespace Snprintf

/-- A conversion character, with the arguments it leaves. -/
def conversion (longarg : Bool) (c : CChar) (args : List VaArg) :
    Option (List CChar × List VaArg) :=
  if c = 0x70 then
    (vaPointer args).map fun (v, args) => (literal ['0', 'x'] ++ hexNumeral v.toNat, args)
  else if c = 0x78 then (vaNumber longarg args).map fun (v, args) => (hexNumeral v.toNat, args)
  else if c = 0x75 then (vaNumber longarg args).map fun (v, args) => (numeral v.toNat, args)
  else if c = 0x64 then (vaNumber longarg args).map fun (v, args) => (signedNumeral v.toInt, args)
  else if c = 0x73 then (vaString args).map fun (v, args) => (v.chars, args)
  else if c = 0x63 then (vaInt args).map fun (v, args) => ([v.setWidth 8], args)
  else if c = 0x25 then some ([0x25], args)
  else some ([], args)

mutual

/-- The full expansion of a format; `none`: the arguments do not match its conversions. -/
def expand : List CChar → List VaArg → Option (List CChar)
  | [], _ => some []
  | c :: format, args =>
    if c = 0x25 then directive false format args
    else (expand format args).map fun text => c :: text

/-- The expansion behind a percent sign and the length modifiers so far. -/
def directive (longarg : Bool) : List CChar → List VaArg → Option (List CChar)
  | [], _ => some []
  | c :: format, args =>
    if c = 0x6c then directive true format args
    else (conversion longarg c args).bind fun r =>
      (expand format r.2).map fun text => r.1 ++ text

end

section Digits

theorem digit_eq {i : ℕ} (hi : i < 16) :
    digit (BitVec.ofNat 32 i) = BitVec.ofNat 8 (Nat.digitChar i).toNat := by
  have hall : ∀ i < 16, digit (BitVec.ofNat 32 i) = BitVec.ofNat 8 (Nat.digitChar i).toNat := by
    decide
  exact hall i hi

theorem literal_append (s t : List Char) : literal (s ++ t) = literal s ++ literal t :=
  List.map_append

theorem literal_digit {v : BitVec 32} {i : ℕ} (hv : v.toNat = i) (hi : i < 16) :
    literal [Nat.digitChar i] = [digit v] := by
  have hof : v = BitVec.ofNat 32 i := by
    apply BitVec.eq_of_toNat_eq
    rw [hv, BitVec.toNat_ofNat, Nat.mod_eq_of_lt (by omega)]
  rw [hof, digit_eq hi]
  rfl

theorem decimalBuffer_eq (value : BitVec 32) :
    (decimalBuffer value).reverse = numeral value.toNat := by
  fun_induction decimalBuffer value with
  | case1 value ih =>
    obtain ⟨hdiv, hmod⟩ := divmod10_eq value
    have hlast : literal [Nat.digitChar (value.toNat % 10)] = [digit (divmod10 value).2] :=
      literal_digit hmod ((Nat.mod_lt _ (by decide)).trans (by decide))
    rw [List.reverse_cons, ← hlast]
    unfold numeral
    rw [Nat.toDigits_eq_if (by decide)]
    by_cases hq : (divmod10 value).1 = 0
    · have hsmall : value.toNat < 10 := by
        have hzero : value.toNat / 10 = 0 := by rw [← hdiv, hq]; rfl
        omega
      rw [if_pos hsmall, if_neg (not_not.2 hq), Nat.mod_eq_of_lt hsmall]
      rfl
    · have hlarge : ¬ value.toNat < 10 := fun hsmall =>
        hq (BitVec.eq_of_toNat_eq (hdiv.trans (Nat.div_eq_of_lt hsmall)))
      have hrest := ih hq
      rw [if_neg hlarge, if_pos hq, literal_append, hrest, hdiv]
      rfl

/-- The local buffer of `put_unsigned` has room for every numeral. -/
theorem length_decimalBuffer_le (value : BitVec 32) :
    (decimalBuffer value).length ≤ 3 * sizeofLong := by
  have hten : (Nat.toDigits 10 value.toNat).length ≤ 10 :=
    Nat.toDigits_length 10 value.toNat 10 (by decide) (value.isLt.trans (by decide))
  have hlen := congrArg List.length (decimalBuffer_eq value)
  rw [List.length_reverse, numeral, literal, List.length_map] at hlen
  rw [hlen]
  exact hten.trans (by decide)

theorem leftpad_concat {α : Type*} (k : ℕ) (a c : α) (l : List α) :
    (l ++ [c]).leftpad (k + 1) a = l.leftpad k a ++ [c] := by
  simp [List.leftpad, List.append_assoc]

/-- A padded numeral, digit by digit from the left. -/
theorem leftpad_toDigits (k : ℕ) : ∀ n < 16 ^ (k + 1),
    (Nat.toDigits 16 n).leftpad (k + 1) '0' =
      (List.range (k + 1)).reverse.map fun i => Nat.digitChar (n / 16 ^ i % 16) := by
  induction k with
  | zero =>
    intro n hn
    have hsmall : n < 16 := by simpa using hn
    rw [Nat.toDigits_of_lt_base hsmall]
    simp [List.leftpad, Nat.mod_eq_of_lt hsmall]
  | succ k ih =>
    intro n hn
    have hrest := ih (n / 16) (by
      rw [Nat.pow_succ] at hn
      exact Nat.div_lt_of_lt_mul (by rwa [Nat.mul_comm] at hn))
    have hdigits : (Nat.toDigits 16 n).leftpad (k + 2) '0' =
        (Nat.toDigits 16 (n / 16)).leftpad (k + 1) '0' ++ [Nat.digitChar (n % 16)] := by
      rw [Nat.toDigits_eq_if (by decide) (n := n)]
      split_ifs with hsmall
      · rw [Nat.div_eq_of_lt hsmall, Nat.toDigits_zero, Nat.mod_eq_of_lt hsmall]
        simp [List.leftpad, List.replicate_succ']
      · exact leftpad_concat (k + 1) '0' _ _
    rw [hdigits, hrest, List.range_succ_eq_map (n := k + 1), List.reverse_cons, List.map_append]
    congr 1
    · rw [← List.map_reverse, List.map_map]
      refine List.map_congr_left fun i _ => ?_
      rw [Function.comp_apply, Nat.div_div_eq_div_mul, Nat.succ_eq_add_one, Nat.pow_succ,
        Nat.mul_comm 16]
    · simp

theorem hexDigits_eq (value : BitVec 32) : hexDigits value 8 = hexNumeral value.toNat := by
  unfold hexDigits hexNumeral
  rw [leftpad_toDigits 7 value.toNat (value.isLt.trans_le (by decide)), literal, List.map_map]
  refine List.map_congr_left fun i _ => ?_
  have hval : (value >>> (4 * i) &&& 0x0f).toNat = value.toNat / 16 ^ i % 16 := by
    have hmask : (0x0f : BitVec 32).toNat = 2 ^ 4 - 1 := rfl
    rw [BitVec.toNat_and, hmask, Nat.and_two_pow_sub_one_eq_mod, BitVec.toNat_ushiftRight,
      Nat.shiftRight_eq_div_pow, Nat.pow_mul]
  have hdigit := literal_digit hval (Nat.mod_lt _ (by decide))
  exact (List.cons.inj hdigit).1.symm

end Digits

section Run
variable {n : BitVec 32}

theorem putAll_append (s : Out) (cs ds : List CChar) :
    putAll n s (cs ++ ds) = putAll n (putAll n s cs) ds := List.foldl_append

theorem putUnsigned_decimal (s : Out) (v : BitVec 32) (longarg : Bool) :
    putUnsigned n s v 10 false longarg = putAll n s (numeral v.toNat) := by
  rw [← decimalBuffer_eq]
  rfl

theorem putUnsigned_hex (s : Out) (v : BitVec 32) (longarg : Bool) :
    putUnsigned n s v 16 false longarg = putAll n s (hexNumeral v.toNat) := by
  rw [← hexDigits_eq]
  cases longarg <;> rfl

theorem putUnsigned_pointer (s : Out) (v : BitVec 32) :
    putUnsigned n s v 16 true true = putAll n s (literal ['0', 'x'] ++ hexNumeral v.toNat) := by
  rw [← hexDigits_eq, putAll_append]
  rfl

/-- The sign and the digits of the negated value; the least value is its own negation. -/
theorem signedNumeral_neg {v : BitVec 32} (h : v.slt 0 = true) :
    signedNumeral v.toInt = 0x2d :: numeral (-v).toNat := by
  have hneg : v.toInt < 0 := by simpa [BitVec.slt] using h
  have habs : v.toInt.natAbs = (-v).toNat := by
    have hlt := v.isLt
    rw [BitVec.toNat_neg]
    rw [BitVec.toInt_eq_toNat_cond] at hneg ⊢
    split_ifs at hneg ⊢ with hsmall <;> omega
  rw [signedNumeral, if_pos hneg, habs]

theorem signedNumeral_nonneg {v : BitVec 32} (h : v.slt 0 = false) :
    signedNumeral v.toInt = numeral v.toNat := by
  have hnonneg : ¬ v.toInt < 0 := by simpa [BitVec.slt] using h
  have habs : v.toInt.natAbs = v.toNat := by
    rw [BitVec.toInt_eq_toNat_cond] at hnonneg ⊢
    split_ifs at hnonneg ⊢ with hsmall <;> omega
  rw [signedNumeral, if_neg hnonneg, habs]

/-- A conversion character puts out what the conversion says. -/
theorem step_conversion {s : State} {c : CChar} (hf : s.inFormat = true) (hl : c ≠ 0x6c) :
    step n s c =
      (conversion s.longarg c s.args).map fun r => s.done (putAll n s.out r.1) r.2 := by
  unfold step conversion
  rw [if_neg (by simp [hf]), if_neg hl]
  split_ifs
  · simp [Option.map_map, Function.comp_def, putUnsigned_pointer]
  · simp [Option.map_map, Function.comp_def, putUnsigned_hex]
  · simp [Option.map_map, Function.comp_def, putUnsigned_decimal]
  · rw [Option.map_map]
    congr 1
    funext r
    dsimp only [Function.comp_apply]
    cases hs : r.1.slt 0 with
    | true => rw [if_pos rfl, putUnsigned_decimal, signedNumeral_neg hs]; rfl
    | false => rw [if_neg Bool.false_ne_true, putUnsigned_decimal, signedNumeral_nonneg hs]
  · simp [Option.map_map, Function.comp_def, putString]
  · simp [Option.map_map, Function.comp_def, putAll]
  · rfl
  · rfl

/-- The loop over the format, from the text and from within a conversion. -/
theorem foldlM_step (format : List CChar) :
    (∀ s : State, s.inFormat = false → s.longarg = false →
      (format.foldlM (step n) s).map State.out =
        (expand format s.args).map (putAll n s.out)) ∧
    (∀ s : State, s.inFormat = true →
      (format.foldlM (step n) s).map State.out =
        (directive s.longarg format s.args).map (putAll n s.out)) := by
  induction format with
  | nil => exact ⟨fun s _ _ => rfl, fun s _ => rfl⟩
  | cons c format ih =>
    obtain ⟨ihtext, ihdir⟩ := ih
    constructor
    · intro s hf hl
      rw [List.foldlM_cons, expand]
      by_cases hc : c = 0x25
      · have hstep : step n s c = some { s with inFormat := true } := by simp [step, hf, hc]
        rw [hstep, if_pos hc]
        refine (ihdir _ rfl).trans ?_
        rw [hl]
      · have hstep : step n s c = some { s with out := putChar n s.out c } := by
          unfold step
          rw [if_pos (by simp [hf]), if_neg hc]
        rw [hstep, if_neg hc, Option.map_map]
        exact ihtext _ hf hl
    · intro s hf
      rw [List.foldlM_cons, directive]
      by_cases hc : c = 0x6c
      · have hstep : step n s c = some { s with longarg := true } := by simp [step, hf, hc]
        rw [hstep, if_pos hc]
        exact ihdir _ hf
      · rw [step_conversion hf hc, if_neg hc]
        cases conversion s.longarg c s.args with
        | none => rfl
        | some r =>
          refine (ihtext (s.done (putAll n s.out r.1) r.2) rfl rfl).trans ?_
          rw [Option.bind_some, Option.map_map]
          congr 1
          funext text
          exact (putAll_append s.out r.1 text).symm

end Run

section Buffer

/-- The writes of a text from index 0 on, the last one first. -/
def stored (text : List CChar) : List (BitVec 32 × CChar) :=
  (text.zipIdx.map fun x => (BitVec.ofNat 32 x.2, x.1)).reverse

theorem stored_concat (text : List CChar) (c : CChar) :
    stored (text ++ [c]) = (BitVec.ofNat 32 text.length, c) :: stored text := by
  simp [stored, List.zipIdx_append]

variable {n : BitVec 32}

theorem ofNat_lt_iff {k : ℕ} (hk : k < 2 ^ 32) : BitVec.ofNat 32 k < n ↔ k < n.toNat := by
  rw [BitVec.lt_def, BitVec.toNat_ofNat, Nat.mod_eq_of_lt hk]

theorem pos_putAll (text : List CChar) : (putAll n {} text).pos = BitVec.ofNat 32 text.length := by
  induction text using List.reverseRecOn with
  | nil => rfl
  | append_singleton text c ih =>
    rw [putAll_append]
    show (putAll n {} text).pos + 1 = _
    rw [ih, List.length_append, BitVec.ofNat_add]
    rfl

/-- As long as the position does not wrap, the buffer has the text up to its last cell. -/
theorem writes_putAll (text : List CChar) (hlen : text.length < 2 ^ 32) :
    (putAll n {} text).writes = stored (text.take (n.toNat - 1)) := by
  induction text using List.reverseRecOn with
  | nil => simp [putAll, stored]
  | append_singleton text c ih =>
    rw [List.length_append, List.length_singleton] at hlen
    have hwrites := ih (by omega)
    have hpos := pos_putAll (n := n) text
    have hnext : (putAll n {} text).pos + 1 = BitVec.ofNat 32 (text.length + 1) := by
      rw [hpos, BitVec.ofNat_add]
      rfl
    have hback : (putAll n {} text).pos + 1 - 1 = BitVec.ofNat 32 text.length := by
      rw [hpos, BitVec.add_sub_cancel]
    rw [putAll_append]
    show (if (putAll n {} text).pos + 1 < n then
      ((putAll n {} text).pos + 1 - 1, c) :: (putAll n {} text).writes
      else (putAll n {} text).writes) = _
    rw [hback, hnext, hwrites]
    split_ifs with hroom <;> rw [ofNat_lt_iff hlen] at hroom
    · have hall : (text ++ [c]).take (n.toNat - 1) = text ++ [c] :=
        List.take_of_length_le (by rw [List.length_append, List.length_singleton]; omega)
      rw [hall, List.take_of_length_le (by omega), stored_concat]
    · rw [List.take_append_of_le_length (by omega)]

/-- With the terminator. -/
theorem terminate_putAll (text : List CChar) (hlen : text.length < 2 ^ 32) :
    (terminate n (putAll n {} text)).writes =
      if n = 0 then [] else stored (text.take (n.toNat - 1) ++ [0]) := by
  have hpos := pos_putAll (n := n) text
  have hwrites := writes_putAll (n := n) text hlen
  unfold terminate
  rw [hpos, hwrites, stored_concat]
  by_cases hzero : n = 0
  · subst hzero
    rw [if_neg (by simp [BitVec.lt_def]), if_neg (by simp), if_pos rfl, hwrites]
    rfl
  · have hn : 0 < n.toNat := Nat.pos_of_ne_zero fun h0 => hzero (BitVec.eq_of_toNat_eq h0)
    rw [if_neg hzero]
    split_ifs with hroom <;> rw [ofNat_lt_iff hlen] at hroom
    · rw [List.take_of_length_le (by omega)]
    · have hlast : (text.take (n.toNat - 1)).length = n.toNat - 1 := by
        rw [List.length_take]
        omega
      have hcell : n - 1 = BitVec.ofNat 32 (n.toNat - 1) := by
        apply BitVec.eq_of_toNat_eq
        have hlt := n.isLt
        have hone : (1 : BitVec 32).toNat = 1 := rfl
        rw [BitVec.toNat_sub, hone, BitVec.toNat_ofNat]
        omega
      rw [hlast, hcell]

theorem lt_of_mem_stored {text : List CChar} {m : ℕ} (hm : text.length ≤ m) (hlt : m < 2 ^ 32) :
    ∀ w ∈ stored text, w.1.toNat < m := by
  intro w hw
  simp only [stored, List.mem_reverse, List.mem_map] at hw
  obtain ⟨⟨c, k⟩, hmem, rfl⟩ := hw
  have hk : k < text.length := (List.mem_zipIdx' hmem).1
  rw [BitVec.toNat_ofNat, Nat.mod_eq_of_lt (by omega)]
  omega

/-- What the writes leave in their cells. -/
theorem replay_stored (out : BitVec 32 → CChar) (text : List CChar) (hlen : text.length < 2 ^ 32) :
    (List.range text.length).map (fun k =>
      WriteLog.replay out (stored text) (BitVec.ofNat 32 k)) = text := by
  induction text using List.reverseRecOn with
  | nil => rfl
  | append_singleton text c ih =>
    rw [List.length_append, List.length_singleton] at hlen
    rw [List.length_append, List.length_singleton, List.range_succ, List.map_append, stored_concat]
    have hrest := ih (by omega)
    congr 1
    · refine Eq.trans (List.map_congr_left fun k hk => ?_) hrest
      have hk : k < text.length := List.mem_range.1 hk
      have hne : BitVec.ofNat 32 k ≠ BitVec.ofNat 32 text.length := by
        intro heq
        have hnat := congrArg BitVec.toNat heq
        rw [BitVec.toNat_ofNat, BitVec.toNat_ofNat, Nat.mod_eq_of_lt (by omega),
          Nat.mod_eq_of_lt (by omega)] at hnat
        omega
      rw [WriteLog.replay_cons, Function.update_of_ne hne]
    · rw [List.map_singleton, WriteLog.replay_cons, Function.update_self]

end Buffer

/-- The output of the expansion, terminated. -/
theorem vsnprintf_eq {n : BitVec 32} {format : CString} {args : List VaArg} {text : List CChar}
    (h : expand format.chars args = some text) :
    vsnprintf n format args =
      some ((terminate n (putAll n {} text)).writes, (BitVec.ofNat 32 text.length).toInt) := by
  have hrun := (foldlM_step (n := n) format.chars).1 { args := args } rfl rfl
  rw [h, Option.map_some, Option.map_eq_some_iff] at hrun
  obtain ⟨s, hs, hout⟩ := hrun
  rw [vsnprintf, hs, Option.map_some, hout, pos_putAll]

/-- `vsnprintf` cuts the expansion to the buffer and returns its length, as an `int`. -/
theorem vsnprintf_expands (n : BitVec 32) (format : CString) (args : List VaArg)
    (text : List CChar) (h : expand format.chars args = some text) :
    ∃ writes returned, vsnprintf n format args = some (writes, returned) ∧
      returned = (BitVec.ofNat 32 text.length).toInt ∧
      (text.length < 2 ^ 31 → returned = text.length) ∧
      (text.length < 2 ^ 32 → (∀ w ∈ writes, w.1 < n) ∧
        (n ≠ 0 → ∀ out : BitVec 32 → CChar,
          (List.range (min text.length (n.toNat - 1) + 1)).map (fun k =>
            WriteLog.replay out writes (BitVec.ofNat 32 k)) =
              text.take (n.toNat - 1) ++ [0])) := by
  refine ⟨_, _, vsnprintf_eq h, rfl, ?_, ?_⟩
  · intro hlen
    have hnat : (BitVec.ofNat 32 text.length).toNat = text.length := by
      rw [BitVec.toNat_ofNat, Nat.mod_eq_of_lt (by omega)]
    rw [BitVec.toInt_eq_toNat_of_lt (by omega), hnat]
  · intro hlen
    rw [terminate_putAll text hlen]
    have hn32 := n.isLt
    split_ifs with hzero
    · exact ⟨nofun, fun hne => absurd hzero hne⟩
    · have hn : 0 < n.toNat := Nat.pos_of_ne_zero fun h0 => hzero (BitVec.eq_of_toNat_eq h0)
      have hsize : (text.take (n.toNat - 1) ++ [0]).length = min text.length (n.toNat - 1) + 1 := by
        rw [List.length_append, List.length_take, Nat.min_comm, List.length_singleton]
      refine ⟨lt_of_mem_stored (by omega) hn32, fun _ out => ?_⟩
      rw [← hsize]
      exact replay_stored out _ (by omega)

/-- The least `int` in a buffer of four characters. -/
theorem vsnprintf_expands_least :
    ∃ writes returned, vsnprintf 4 ⟨[0x25, 0x64], by decide⟩ [.int 0x80000000] =
        some (writes, returned) ∧ returned = 11 ∧
      (∀ w ∈ writes, w.1 < 4) ∧
      ∀ out : BitVec 32 → CChar, (List.range 4).map (fun k =>
        WriteLog.replay out writes (BitVec.ofNat 32 k)) = literal ['-', '2', '1'] ++ [0] := by
  have htext : expand [0x25, 0x64] [.int 0x80000000] =
      some (literal ['-', '2', '1', '4', '7', '4', '8', '3', '6', '4', '8']) := by decide
  obtain ⟨writes, returned, hrun, -, hlen, hbuf⟩ :=
    vsnprintf_expands 4 ⟨[0x25, 0x64], by decide⟩ [.int 0x80000000] _ htext
  obtain ⟨hbound, hcells⟩ := hbuf (by decide)
  exact ⟨writes, returned, hrun, hlen (by decide), hbound, hcells (by decide)⟩

section Overflow

/-- `m` times `"%s"`. -/
def strings (m : ℕ) : CString where
  chars := (List.replicate m [0x25, 0x73]).flatten
  nonzero := by
    intro c hc
    obtain ⟨l, hl, hc⟩ := List.mem_flatten.1 hc
    rw [(List.mem_replicate.1 hl).2] at hc
    have hall : ∀ c ∈ ([0x25, 0x73] : List CChar), c ≠ 0 := by decide
    exact hall c hc

/-- `k` times `"a"`. -/
def letters (k : ℕ) : CString where
  chars := List.replicate k 0x61
  nonzero := by
    intro c hc
    rw [(List.mem_replicate.1 hc).2]
    decide

theorem expand_strings (m : ℕ) (s : CString) :
    expand (strings m).chars (List.replicate m (.string s)) =
      some (List.replicate m s.chars).flatten := by
  show expand (List.replicate m [0x25, 0x73]).flatten (List.replicate m (.string s)) = _
  induction m with
  | zero => rfl
  | succ m ih =>
    rw [List.replicate_succ, List.replicate_succ, List.replicate_succ, List.flatten_cons,
      List.flatten_cons]
    show expand (0x25 :: 0x73 :: (List.replicate m [0x25, 0x73]).flatten) _ = _
    rw [expand, if_pos rfl, directive, if_neg (by decide)]
    show (expand _ (List.replicate m (.string s))).map (fun text => s.chars ++ text) = _
    rw [ih]
    rfl

theorem flatten_letters (m k : ℕ) :
    (List.replicate m (letters k).chars).flatten = List.replicate (m * k) 0x61 :=
  List.flatten_replicate_replicate

/-- Where the position wraps, the character goes in front of the buffer. -/
theorem mem_writes_wrapped {n : BitVec 32} (hn : 0 < n) {text : List CChar} (c : CChar)
    (hlen : text.length + 1 = 2 ^ 32) :
    (0xffffffff, c) ∈ (putAll n {} (text ++ [c])).writes := by
  have hpos : (putAll n {} text).pos = 0xffffffff := by
    rw [pos_putAll, show text.length = 2 ^ 32 - 1 by omega]
    rfl
  rw [putAll_append]
  show (0xffffffff, c) ∈ if (putAll n {} text).pos + 1 < n then
    ((putAll n {} text).pos + 1 - 1, c) :: (putAll n {} text).writes
    else (putAll n {} text).writes
  rw [hpos, show (0xffffffff : BitVec 32) + 1 = 0 from rfl, if_pos hn]
  exact List.mem_cons_self

theorem mem_terminate {n : BitVec 32} {s : Out} {w : BitVec 32 × CChar} (h : w ∈ s.writes) :
    w ∈ (terminate n s).writes := by
  unfold terminate
  split_ifs
  · exact List.mem_cons_of_mem _ h
  · exact List.mem_cons_of_mem _ h
  · exact h

/-- Two strings of `2 ^ 30` characters are too long for an `int`, and with four of them the
position wraps: in a buffer of one character, the last of them is written in front of it. -/
theorem vsnprintf_overflows :
    (∃ text, expand (strings 2).chars (List.replicate 2 (.string (letters (2 ^ 30)))) = some text ∧
      text.length = 2 ^ 31 ∧
      ∃ writes, vsnprintf 1 (strings 2) (List.replicate 2 (.string (letters (2 ^ 30)))) =
        some (writes, -2 ^ 31)) ∧
    ∃ writes returned, vsnprintf 1 (strings 4) (List.replicate 4 (.string (letters (2 ^ 30)))) =
      some (writes, returned) ∧ (0xffffffff, 0x61) ∈ writes := by
  have htwo := expand_strings 2 (letters (2 ^ 30))
  have hfour := expand_strings 4 (letters (2 ^ 30))
  rw [flatten_letters] at htwo hfour
  have hlast : List.replicate (4 * 2 ^ 30) (0x61 : CChar) =
      List.replicate (2 ^ 32 - 1) 0x61 ++ [0x61] := List.replicate_succ'
  constructor
  · have hresult := vsnprintf_eq (n := 1) htwo
    rw [List.length_replicate] at hresult
    exact ⟨_, htwo, List.length_replicate, _, hresult⟩
  · refine ⟨_, _, vsnprintf_eq hfour, mem_terminate ?_⟩
    rw [hlast]
    have hlen : (List.replicate (2 ^ 32 - 1) (0x61 : CChar)).length + 1 = 2 ^ 32 :=
      congrArg (· + 1) List.length_replicate
    exact mem_writes_wrapped (by decide) 0x61 hlen

end Overflow
end Snprintf
end BonfireCore
