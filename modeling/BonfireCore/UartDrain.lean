import BonfireCore.UartTransmit

/-! How long the transmitter is busy with what it has accepted: the clocks until the buffer is
free, and until the line rests with every frame sent. -/
namespace BonfireCore

open SerialLine (Waveform)

variable {fifoBits : ℕ}

/-- The clocks that the frame on the line still takes. -/
def UartTx.frameLeft (t : UartTx) (divider : BitVec 16) : ℕ :=
  if t.busy then (9 - t.bitIndex.toNat) * (divider.toNat + 1) + t.divCount.toNat + 1 else 0

namespace TxBench

/-- The clocks until nothing is left to send. -/
def left (s : TxBench fifoBits) : ℕ :=
  s.uart.tx.frameLeft s.uart.regs.txDivider + if s.uart.tx.bufferValid then 10 * s.ticks else 0

variable {s t : TxBench fifoBits} {i : UartInput}

section Left
variable {frames : List (ℕ × BitVec 8)} {l : List Bool} {b : BitVec 8} {j r : ℕ}

theorem Idle.left (h : s.Idle frames l) : s.left = 0 := by
  rw [TxBench.left, UartTx.frameLeft, h.rests.busy, h.bufferValid]
  rfl

/-- What is left with the age of the frame on the line: that frame, and one for a byte that
waits. -/
theorem OnLine.left (h : s.OnLine frames l b j r) : s.left + (j * s.ticks + r) =
    10 * s.ticks + if s.uart.tx.bufferValid then 10 * s.ticks else 0 := by
  have hframe := h.inFrame
  have hcount := hframe.divCount
  have hrows : (9 - j) * s.ticks + j * s.ticks = 9 * s.ticks := by
    have hlt := hframe.lt
    rw [← Nat.add_mul, Nat.sub_add_cancel (by omega)]
  rw [TxBench.left, UartTx.frameLeft, hframe.busy, if_pos rfl, hframe.bitIndex]
  simp only [ticks] at hrows ⊢
  omega

theorem OnLine.left_frames (h : s.OnLine frames l b j r) : s.left + (j * s.ticks + r) =
    10 * s.ticks * (s.accepted.length - frames.length) := by
  rw [h.left, h.length_missing, Nat.mul_add, Nat.mul_one]
  cases s.uart.tx.bufferValid <;> simp

theorem Fresh.left (h : s.Fresh frames l) :
    s.left = 10 * s.ticks * (s.accepted.length - frames.length) := by
  rcases h with hidle | ⟨b, honline⟩
  · rw [hidle.left, hidle.accepted, Nat.sub_self, Nat.mul_zero]
  · have hleft := honline.left_frames
    omega

/-- The frame on the line takes from one to `10 * ticks` clocks. -/
theorem OnLine.left_bounds (h : s.OnLine frames l b j r) :
    (if s.uart.tx.bufferValid then 10 * s.ticks else 0) < s.left ∧
      s.left ≤ 10 * s.ticks + if s.uart.tx.bufferValid then 10 * s.ticks else 0 := by
  have hleft := h.left
  have hage := h.age_lt
  omega

/-- The buffer is in use as long as more than one frame is left. -/
theorem Inv.bufferValid_iff (h : s.Inv) : s.uart.tx.bufferValid = true ↔ 10 * s.ticks < s.left := by
  obtain ⟨frames, l, -, hidle | ⟨b, j, r, honline⟩⟩ := h
  · rw [hidle.left, hidle.bufferValid]
    simp
  · have hbounds := honline.left_bounds
    cases hv : s.uart.tx.bufferValid with
    | true =>
      rw [hv, if_pos rfl] at hbounds
      exact iff_of_true rfl hbounds.1
    | false =>
      rw [hv, if_neg Bool.false_ne_true] at hbounds
      exact iff_of_false Bool.false_ne_true (Nat.not_lt.2 hbounds.2)

theorem Inv.busy_iff (h : s.Inv) : s.uart.tx.busy = true ↔ 0 < s.left := by
  obtain ⟨frames, l, -, hidle | ⟨b, j, r, honline⟩⟩ := h
  · rw [hidle.left, hidle.rests.busy]
    simp
  · have hbounds := honline.left_bounds
    simp only [honline.inFrame.busy, true_iff]
    omega

theorem Inv.left_le (h : s.Inv) : s.left ≤ 20 * s.ticks := by
  obtain ⟨frames, l, -, hidle | ⟨b, j, r, honline⟩⟩ := h
  · rw [hidle.left]
    exact Nat.zero_le _
  · have hbounds := honline.left_bounds
    split_ifs at hbounds <;> omega

/-- With nothing left the line has carried every accepted byte. -/
theorem Inv.sent (h : s.Inv) (hleft : s.left = 0) : Waveform s.accepted s.line := by
  obtain ⟨frames, l, hl, hidle | ⟨b, j, r, honline⟩⟩ := h
  · rwa [hidle.accepted, hidle.line]
  · have hbounds := honline.left_bounds
    omega

end Left

section Quiet
variable (hq : i.writeCycle = false)
include hq

theorem quiet_accepts : s.accepts i = false := by
  rw [accepts, UartInput.txWrite, hq, Bool.false_and, Bool.false_and]

theorem quiet_controlWrite : i.controlWrite = false := by
  rw [UartInput.controlWrite, hq, Bool.false_and]

theorem quiet_divider : (s.step i).uart.regs.txDivider = s.uart.regs.txDivider := by
  rw [step_divider, quiet_controlWrite hq, if_neg Bool.false_ne_true]

theorem quiet_ticks : (s.step i).ticks = s.ticks := ticks_of_divider (quiet_divider hq)

theorem quiet_accepted : (s.step i).accepted = s.accepted := by
  rw [step_accepted, quiet_accepts hq, if_neg Bool.false_ne_true, List.append_nil]

theorem Inv.quiet (h : s.Inv) : (s.step i).Inv :=
  h.step fun hc => absurd ((quiet_controlWrite hq).symm.trans hc) Bool.false_ne_true

end Quiet

/-- A clock brings the transmitter one clock nearer to its rest, and a byte it accepts adds a
frame. -/
theorem Inv.step_left (h : s.Inv) (hc : i.controlWrite = false) :
    (s.step i).left = s.left - 1 + if s.accepts i then 10 * s.ticks else 0 := by
  have hticks : (s.step i).ticks = s.ticks := ticks_of_divider (by
    rw [step_divider, hc, if_neg Bool.false_ne_true])
  have ha : s.Allowed i := fun hcontrol => absurd (hc.symm.trans hcontrol) Bool.false_ne_true
  have hgrown : (s.step i).accepted.length = s.accepted.length + (s.accepts i).toNat := by
    rw [step_accepted]
    cases s.accepts i <;> simp
  have hadds : 10 * s.ticks * (s.accepts i).toNat = if s.accepts i then 10 * s.ticks else 0 := by
    cases s.accepts i <;> simp
  obtain ⟨frames, l, -, hidle | ⟨b, j, r, honline⟩⟩ := h
  · rw [hidle.next.left, hticks, hidle.left, hgrown, hidle.accepted, Nat.add_sub_cancel_left,
      hadds, Nat.zero_sub, Nat.zero_add]
  · have hleft := honline.left_frames
    have hage := honline.age_lt
    have hcount := honline.length_accepted
    obtain ⟨m, hm⟩ : ∃ m, s.accepted.length = frames.length + 1 + m := ⟨_, hcount⟩
    have hmissing : s.accepted.length - frames.length = m + 1 := by omega
    rw [hmissing, Nat.mul_succ] at hleft
    rcases honline.next ha with ⟨j', r', honline', hage'⟩ | ⟨hlast, hfresh⟩
    · -- the frame has had a clock more
      have hleft' := honline'.left_frames
      have hmissing' : (s.step i).accepted.length - frames.length =
          m + 1 + (s.accepts i).toNat := by omega
      rw [hmissing', hticks, Nat.mul_add, Nat.mul_succ, hadds] at hleft'
      omega
    · -- one clock was left of it
      have hmissing' : (s.step i).accepted.length - (frames ++ [(s.ticks, b)]).length =
          m + (s.accepts i).toNat := by
        rw [List.length_append, List.length_singleton]
        omega
      rw [hfresh.left, hmissing', hticks, Nat.mul_add, hadds]
      omega

/-- `t` is reached from `s` in `n` clocks without a write. -/
structure Rolls (s t : TxBench fifoBits) (n : ℕ) : Prop where
  inv : t.Inv
  accepted : t.accepted = s.accepted
  ticks : t.ticks = s.ticks
  left : t.left = s.left - n

theorem Inv.rolls (h : s.Inv) : s.Rolls s 0 := ⟨h, rfl, rfl, rfl⟩

theorem Rolls.step {n : ℕ} (h : s.Rolls t n) (hq : i.writeCycle = false) :
    s.Rolls (t.step i) (n + 1) where
  inv := h.inv.quiet hq
  accepted := (quiet_accepted hq).trans h.accepted
  ticks := (quiet_ticks hq).trans h.ticks
  left := by
    rw [h.inv.step_left (quiet_controlWrite hq), quiet_accepts hq, if_neg Bool.false_ne_true,
      h.left, Nat.sub_sub, Nat.add_zero]

theorem Rolls.trans {u : TxBench fifoBits} {n m : ℕ} (h : s.Rolls t n) (h' : t.Rolls u m) :
    s.Rolls u (n + m) where
  inv := h'.inv
  accepted := h'.accepted.trans h.accepted
  ticks := h'.ticks.trans h.ticks
  left := by rw [h'.left, h.left, Nat.sub_sub]

end TxBench
end BonfireCore
