import BonfireCore.Rsp

/-! A packet in its frame, between noise and whatever follows it: what `receive` makes of it
for every pair of checksum bytes. -/
namespace BonfireCore

/-- `#`, `$`, `*` and the escape byte itself are escaped. -/
def WireChar.ofByte (b : Byte) : WireChar :=
  if h : b = 0x23 ∨ b = 0x24 ∨ b = 0x2a ∨ b = 0x7d then .escaped (b ^^^ 0x20)
  else .raw b ⟨fun h1 => h (.inl h1), fun h1 => h (.inr (.inl h1)),
    fun h1 => h (.inr (.inr (.inr h1)))⟩

/-- A payload as it stands between `$` and `#`. -/
def escapePayload (p : List Byte) : List Byte := (p.map WireChar.ofByte).flatMap WireChar.bytes

/-- The checksum covers the escaped bytes. -/
def payloadChecksum (p : List Byte) : Byte := (escapePayload p).sum

/-- A chunk with one framed packet; `x` and `y` stand for its checksum. -/
structure FramedPacket where
  noise : List Byte := []
  payload : List Byte
  x : Byte
  y : Byte
  trailing : List Byte := []
  quiet : ∀ b ∈ noise, b ≠ 0x03 ∧ b ≠ 0x24
  deriving Repr

namespace FramedPacket
variable (f : FramedPacket)

def bytes : List Byte :=
  f.noise ++ 0x24 :: escapePayload f.payload ++ 0x23 :: f.x :: f.y :: f.trailing

/-- Two hex digits with the value of the checksum. -/
def Checked : Prop :=
  ∃ hi lo, hexValue f.x = some hi ∧ hexValue f.y = some lo ∧
    (payloadChecksum f.payload).toNat = 16 * hi + lo

/-- The packet is received if its checksum is right, and not received otherwise; a break in
place of the packet is a break. -/
structure Read : Prop where
  good : f.Checked → RSPHandler.receive f.bytes = .good f.payload
  only : ∀ packet, RSPHandler.receive f.bytes = .good packet → f.Checked
  break_ : ∀ rest, RSPHandler.receive (f.noise ++ 0x03 :: rest) = .break

/-- The right checksum in one digit, with a sign or a blank for the other. -/
def Loose : Prop :=
  (isSpace f.x = true ∨ f.x = 0x2b) ∧
      hexValue f.y = some (payloadChecksum f.payload).toNat ∨
    hexValue f.x = some (payloadChecksum f.payload).toNat ∧ isSpace f.y = true ∨
    f.x = 0x2d ∧ hexValue f.y = some 0 ∧ payloadChecksum f.payload = 0

end FramedPacket

theorem hexValue_plain {b : Byte} {v : ℕ} (h : hexValue b = some v) :
    isSpace b = false ∧ b ≠ 0x2b ∧ b ≠ 0x2d := by
  have hall : ∀ b : Byte, (hexValue b).isSome = true →
      isSpace b = false ∧ b ≠ 0x2b ∧ b ≠ 0x2d := by decide
  exact hall b (by rw [h]; rfl)

theorem WireChar.char_ofByte (b : Byte) : (WireChar.ofByte b).char = b := by
  unfold WireChar.ofByte
  split_ifs with h
  · show b ^^^ 0x20 ^^^ 0x20 = b
    rw [BitVec.xor_assoc, BitVec.xor_self, BitVec.xor_zero]
  · rfl

/-- Noise is skipped. -/
theorem findingSop_noise {noise : List Byte} (h : ∀ b ∈ noise, b ≠ 0x03 ∧ b ≠ 0x24)
    (netin : List Byte) :
    RSPHandler.findingSop (noise ++ netin) = RSPHandler.findingSop netin := by
  induction noise with
  | nil => rfl
  | cons b noise ih =>
    obtain ⟨h3, h24⟩ := h b List.mem_cons_self
    rw [List.cons_append, RSPHandler.findingSop, if_neg h3, if_neg h24]
    exact ih fun c hc => h c (List.mem_cons_of_mem b hc)

/-- What `int(.., 16)` makes of two bytes. -/
theorem parseChecksum_pair (x y : Byte) : parseChecksum [x, y] =
    if isSpace x then (if isSpace y then none else (hexValue y).map fun v => (v : ℤ))
    else if isSpace y then (hexValue x).map fun v => (v : ℤ)
    else if x = 0x2b then (hexValue y).map fun v => (v : ℤ)
    else if x = 0x2d then (hexValue y).map fun v => -(v : ℤ)
    else (do
      let hi ← hexValue x
      let lo ← hexValue y
      return 16 * (hi : ℤ) + lo) := by
  cases hx : isSpace x <;> cases hy : isSpace y <;>
    simp [parseChecksum, List.rdropWhile, hx, hy]

namespace FramedPacket
variable {f : FramedPacket}

/-- The frame comes off, and the two bytes are left. -/
theorem receive_bytes : RSPHandler.receive f.bytes =
    RSPHandler.endOfPacket (payloadChecksum f.payload) f.payload (f.x :: f.y :: f.trailing) := by
  have hpayload : (f.payload.map WireChar.ofByte).map WireChar.char = f.payload := by
    rw [List.map_map]
    exact (List.map_congr_left fun b _ => WireChar.char_ofByte b).trans (List.map_id _)
  have hstart : RSPHandler.receive f.bytes = RSPHandler.findingEop false 0 []
      (escapePayload f.payload ++ 0x23 :: f.x :: f.y :: f.trailing) := by
    show RSPHandler.findingSop (f.noise ++ 0x24 :: escapePayload f.payload ++ _) = _
    rw [List.append_assoc, findingSop_noise f.quiet]
    rfl
  rw [hstart, escapePayload, RspPacket.findingEop_chars, RSPHandler.findingEop_stop, hpayload,
    List.nil_append, zero_add]
  rfl

/-- The packet is received exactly when `int` finds the checksum in the two bytes. -/
theorem receive_good_iff (packet : List Byte) : RSPHandler.receive f.bytes = .good packet ↔
    packet = f.payload ∧
      parseChecksum [f.x, f.y] = some ((payloadChecksum f.payload).toNat : ℤ) := by
  rw [receive_bytes]
  cases hparse : parseChecksum [f.x, f.y] with
  | none => simp [RSPHandler.endOfPacket, hparse]
  | some v =>
    by_cases hv : ((payloadChecksum f.payload).toNat : ℤ) = v
    · simp [RSPHandler.endOfPacket, hparse, hv, eq_comm]
    · have hv' : ¬ v = ((payloadChecksum f.payload).toNat : ℤ) := fun h => hv h.symm
      simp [RSPHandler.endOfPacket, hparse, hv, hv']

theorem map_cast_iff (o : Option ℕ) (n : ℕ) :
    (o.map fun v => (v : ℤ)) = some (n : ℤ) ↔ o = some n := by
  cases o <;> simp

theorem map_neg_iff (o : Option ℕ) (n : ℕ) :
    (o.map fun v => -(v : ℤ)) = some (n : ℤ) ↔ o = some 0 ∧ n = 0 := by
  cases o with
  | none => simp
  | some v =>
    show some (-(v : ℤ)) = some (n : ℤ) ↔ some v = some 0 ∧ n = 0
    rw [Option.some.injEq, Option.some.injEq]
    omega

theorem parse_iff : parseChecksum [f.x, f.y] = some ((payloadChecksum f.payload).toNat : ℤ) ↔
    f.Checked ∨ f.Loose := by
  have hblank (b : Byte) (h : isSpace b = true) : hexValue b = none ∧ b ≠ 0x2b ∧ b ≠ 0x2d := by
    revert b
    decide
  have hplus : hexValue 0x2b = none := by decide
  have hminus : hexValue 0x2d = none := by decide
  have hzero : (payloadChecksum f.payload).toNat = 0 ↔ payloadChecksum f.payload = 0 :=
    ⟨fun h => BitVec.eq_of_toNat_eq h, fun h => by rw [h]; rfl⟩
  rw [parseChecksum_pair]
  unfold Checked Loose
  generalize payloadChecksum f.payload = c at hzero ⊢
  cases hx : isSpace f.x with
  | true =>
    obtain ⟨hxv, hxp, hxm⟩ := hblank f.x hx
    cases hy : isSpace f.y with
    | true => simp [hxv, (hblank f.y hy).1]
    | false =>
      simp only [if_true, Bool.false_eq_true, if_false, map_cast_iff, hxv, hxm]
      simp
  | false =>
    cases hy : isSpace f.y with
    | true =>
      simp only [if_true, Bool.false_eq_true, if_false, map_cast_iff, (hblank f.y hy).1]
      simp
    | false =>
      by_cases hp : f.x = 0x2b
      · have hne : ¬ (0x2b : Byte) = 0x2d := by decide
        simp only [if_true, Bool.false_eq_true, if_false, map_cast_iff, hp, hplus, hne]
        simp
      · by_cases hm : f.x = 0x2d
        · have hne : ¬ (0x2d : Byte) = 0x2b := by decide
          simp only [if_true, Bool.false_eq_true, if_false, map_neg_iff, hm, hminus, hne, hzero]
          simp
        · simp only [Bool.false_eq_true, if_false, hp, hm]
          cases hexValue f.x with
          | none => simp
          | some hi =>
            cases hexValue f.y with
            | none => simp
            | some lo =>
              simp
              omega

theorem not_loose_of_checked (h : f.Checked) : ¬ f.Loose := by
  obtain ⟨hi, lo, hx, hy, -⟩ := h
  obtain ⟨hxs, hxp, hxm⟩ := hexValue_plain hx
  obtain ⟨hys, -, -⟩ := hexValue_plain hy
  rintro (⟨hs | hp, -⟩ | ⟨-, hs⟩ | ⟨hm, -⟩)
  · rw [hxs] at hs
    contradiction
  · exact hxp hp
  · rw [hys] at hs
    contradiction
  · exact hxm hm

/-- Every packet is read as it was framed, whatever stands around it, unless its two checksum
bytes are not hex digits and spell the checksum all the same. -/
theorem read_iff (f : FramedPacket) : f.Read ↔ ¬ f.Loose := by
  constructor
  · intro h hloose
    have hgood := (receive_good_iff f.payload).2 ⟨rfl, parse_iff.2 (.inr hloose)⟩
    exact not_loose_of_checked (h.only _ hgood) hloose
  · intro h
    refine ⟨fun hc => ?_, fun packet hp => ?_, fun rest => ?_⟩
    · exact (receive_good_iff f.payload).2 ⟨rfl, parse_iff.2 (.inl hc)⟩
    · exact (parse_iff.1 ((receive_good_iff packet).1 hp).2).resolve_right h
    · show RSPHandler.findingSop _ = _
      rw [findingSop_noise f.quiet]
      rfl

/-- An empty packet with the checksum `+0`. -/
theorem sign_for_a_digit : ¬ ∀ f : FramedPacket, f.Read := by
  intro h
  have hread := h ⟨[], [], 0x2b, 0x30, [], by simp⟩
  obtain ⟨hi, lo, hx, -⟩ := hread.only [] (by decide)
  have hsign : hexValue 0x2b = none := by decide
  rw [show hexValue 0x2b = some hi from hx] at hsign
  contradiction

end FramedPacket
end BonfireCore
