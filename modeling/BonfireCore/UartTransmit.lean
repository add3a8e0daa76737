import BonfireCore.SerialLine
import BonfireCore.Uart

/-! The transmitter over runs: what the line carries is what was written while the buffer was
free. -/
namespace BonfireCore

open SerialLine (Waveform)

variable {fifoBits : ℕ}

/-- A UART with the history of its data register and of its line. -/
structure TxBench (fifoBits : ℕ) where
  uart : Uart fifoBits := {}
  /-- The bytes written while the buffer was free, with the clocks for each bit. -/
  accepted : List (ℕ × BitVec 8) := []
  /-- `tx` in each clock. -/
  line : List Bool := []
  deriving DecidableEq, Repr

/-- Where the transmitter stands: the frames that are complete, the one on the line with the
clocks it has had, and the byte that waits. -/
structure Sending where
  frames : List (ℕ × BitVec 8)
  current : Option (ℕ × BitVec 8 × ℕ)
  waiting : Option (ℕ × BitVec 8)
  deriving DecidableEq, Repr

namespace Sending
variable (x : Sending)

def bytes : List (ℕ × BitVec 8) :=
  x.frames ++ (x.current.map fun c => (c.1, c.2.1)).toList ++ x.waiting.toList

/-- The line so far: frames and idle time, and the first clocks of the current frame. -/
def Line (line : List Bool) : Prop :=
  ∃ l, Waveform x.frames l ∧
    match x.current with
    | none => line = l ∧ x.waiting = none
    | some (ticks, b, k) =>
      k < 10 * ticks ∧ line = l ++ (SerialLine.frame ticks b).take k

/-- The level on the line now: the next one of the current frame. -/
def Level (level : Bool) : Prop :=
  match x.current with
  | none => level = true
  | some (ticks, b, k) => (SerialLine.frame ticks b)[k]? = some level

theorem Line.frames {line : List Bool} {x : Sending} (h : x.Line line) :
    ∃ l, Waveform x.frames l ∧ l <+: line := by
  obtain ⟨l, hl, hline⟩ := h
  refine ⟨l, hl, ?_⟩
  cases hc : x.current with
  | none =>
    simp only [hc] at hline
    exact hline.1 ▸ List.prefix_rfl
  | some c =>
    simp only [hc] at hline
    exact ⟨_, hline.2.symm⟩

end Sending

namespace UartTx
variable {t : UartTx} {divider : BitVec 16} {b : BitVec 8} {j r : ℕ} (regWrite : Bool)
  (data : BitVec 8)

def waiting (t : UartTx) : Option (BitVec 8) := if t.bufferValid then some t.buffer else none

/-- Symbol `j` of `b` is on the line, `r` clocks old. -/
structure InFrame (t : UartTx) (divider : BitVec 16) (b : BitVec 8) (j r : ℕ) : Prop where
  busy : t.busy = true
  shift : t.shift = b
  bitIndex : t.bitIndex.toNat = j
  divCount : t.divCount.toNat + r = divider.toNat
  line : t.line = SerialLine.symbol b j
  lt : j < 10

/-- Between frames. -/
structure Rests (t : UartTx) : Prop where
  busy : t.busy = false
  line : t.line = true
  waiting : t.waiting = none

/-- A write is put into the buffer. -/
def store (t : UartTx) (regWrite : Bool) (data : BitVec 8) : UartTx :=
  if regWrite then { t with buffer := data, bufferValid := true } else t

theorem waiting_store :
    (t.store regWrite data).waiting = if regWrite then some data else t.waiting := by
  cases regWrite <;> rfl

theorem InFrame.store (h : t.InFrame divider b j r) :
    (t.store regWrite data).InFrame divider b j r := by
  cases regWrite with
  | false => exact h
  | true => exact ⟨h.busy, h.shift, h.bitIndex, h.divCount, h.line, h.lt⟩

/-- A clock within a symbol. -/
theorem InFrame.step_within (h : t.InFrame divider b j r) (hr : r < divider.toNat) :
    (t.step divider regWrite data).InFrame divider b j (r + 1) ∧
      (t.step divider regWrite data).waiting = if regWrite then some data else t.waiting := by
  have hsum := h.divCount
  have hcount : t.divCount ≠ 0#16 := by
    intro h0
    rw [h0] at hsum
    simp at hsum
    omega
  have hstep : t.step divider regWrite data =
      UartTx.store { t with divCount := t.divCount - 1 } regWrite data := by
    simp [UartTx.step, h.busy, hcount, UartTx.store]
  have hpred : (t.divCount - 1).toNat + 1 = t.divCount.toNat := by
    bv_omega
  rw [hstep, waiting_store]
  refine ⟨InFrame.store _ _ ⟨h.busy, h.shift, h.bitIndex, ?_, h.line, h.lt⟩, rfl⟩
  show (t.divCount - 1).toNat + (r + 1) = divider.toNat
  omega

/-- The last clock of a symbol that is not the stop bit. -/
theorem InFrame.step_symbol (h : t.InFrame divider b j divider.toNat) (hj : j < 9) :
    (t.step divider regWrite data).InFrame divider b (j + 1) 0 ∧
      (t.step divider regWrite data).waiting = if regWrite then some data else t.waiting := by
  have hcount : t.divCount = 0#16 := by
    have := h.divCount
    apply BitVec.eq_of_toNat_eq
    simp
    omega
  have hindex := h.bitIndex
  have hne9 : t.bitIndex ≠ 9#4 := by
    intro h9
    rw [h9] at hindex
    simp at hindex
    omega
  have hnext : (t.bitIndex + 1).toNat = j + 1 := by bv_omega
  by_cases h8 : j = 8
  · have heq : t.bitIndex = 8#4 := by
      apply BitVec.eq_of_toNat_eq
      rw [hindex, h8]
      rfl
    have hstep : t.step divider regWrite data =
        UartTx.store { t with divCount := divider, line := true, bitIndex := 9 } regWrite data := by
      simp [UartTx.step, h.busy, hcount, heq, UartTx.store]
    rw [hstep, waiting_store]
    refine ⟨InFrame.store _ _ ⟨h.busy, h.shift, ?_, rfl, ?_, by omega⟩, rfl⟩
    · rw [h8]
      rfl
    · rw [h8]
      rfl
  · have hlt : t.bitIndex < 8#4 := by
      rw [BitVec.lt_def, hindex]
      show j < 8
      omega
    have hstep : t.step divider regWrite data =
        UartTx.store
          { t with
            divCount := divider
            line := b.getLsbD j
            bitIndex := t.bitIndex + 1 } regWrite data := by
      simp [UartTx.step, h.busy, hcount, hlt, hne9, h.shift, hindex, UartTx.store]
    rw [hstep, waiting_store]
    refine ⟨InFrame.store _ _ ⟨h.busy, h.shift, hnext, rfl, ?_, by omega⟩, rfl⟩
    simp [SerialLine.symbol, show j + 1 ≤ 8 by omega]

/-- The last clock of a frame. -/
theorem InFrame.step_last (h : t.InFrame divider b 9 divider.toNat)
    (hw : regWrite = true → t.bufferValid = false) :
    match (if regWrite then some data else t.waiting) with
    | some next => (t.step divider regWrite data).InFrame divider next 0 0 ∧
        (t.step divider regWrite data).waiting = none
    | none => (t.step divider regWrite data).Rests := by
  have hcount : t.divCount = 0#16 := by
    have := h.divCount
    apply BitVec.eq_of_toNat_eq
    simp
    omega
  have heq : t.bitIndex = 9#4 := BitVec.eq_of_toNat_eq h.bitIndex
  have hbusy := h.busy
  cases regWrite with
  | true =>
    have hv := hw rfl
    refine ⟨⟨?_, ?_, ?_, ?_, ?_, by omega⟩, ?_⟩ <;>
      simp [UartTx.step, hbusy, hcount, heq, hv, waiting, SerialLine.symbol]
  | false =>
    cases hv : t.bufferValid with
    | true =>
      simp only [waiting, hv, if_true, Bool.false_eq_true, if_false]
      refine ⟨⟨?_, ?_, ?_, ?_, ?_, by omega⟩, ?_⟩ <;>
        simp [UartTx.step, hbusy, hcount, heq, hv, SerialLine.symbol]
    | false =>
      simp only [waiting, hv, Bool.false_eq_true, if_false]
      constructor <;> simp [UartTx.step, hbusy, hcount, heq, hv, waiting]

theorem Rests.step (h : t.Rests) (divider : BitVec 16) :
    if regWrite then
      (t.step divider regWrite data).InFrame divider data 0 0 ∧
        (t.step divider regWrite data).waiting = none
    else (t.step divider regWrite data).Rests := by
  have hbusy := h.busy
  have hwaiting := h.waiting
  cases regWrite with
  | false =>
    have hstep : t.step divider false data = t := by simp [UartTx.step, hbusy]
    rw [hstep]
    simpa using h
  | true =>
    have hstep : t.step divider true data =
        { t with
          busy := true
          shift := data
          line := false
          bitIndex := 0
          divCount := divider } := by
      simp [UartTx.step, hbusy]
    rw [hstep]
    exact ⟨⟨rfl, rfl, rfl, rfl, rfl, by omega⟩, hwaiting⟩

end UartTx

namespace TxBench
variable (s : TxBench fifoBits) (i : UartInput)

def accepts : Bool := i.txWrite && !s.uart.tx.bufferValid

def ticks : ℕ := s.uart.regs.txDivider.toNat + 1

def step : TxBench fifoBits where
  uart := s.uart.step i
  accepted :=
    if s.accepts i then s.accepted ++ [(s.ticks, i.dbus.dbWr.extractLsb' 0 8)] else s.accepted
  line := s.line ++ [s.uart.tx.line]

def machine (fifoBits : ℕ) : Clocked (TxBench fifoBits) UartInput where
  init := {}
  step := step

/-- The divider is written before the transmission: not while a frame is on the line. -/
def Allowed : Prop :=
  i.controlWrite = true → s.uart.tx.busy = true → i.divider = s.uart.regs.txDivider

instance : Decidable (s.Allowed i) := inferInstanceAs (Decidable (_ → _))

/-- The status register, as a read of offset 4 shows it. -/
def status : BitVec 32 := s.uart.readData { dbus := { adr := 4 } }

/-- `x` tells where the transmitter stands: what it has accepted, its line up to now, and the
status bits. -/
structure Shows (x : Sending) : Prop where
  bytes : x.bytes = s.accepted
  line : x.Line s.line
  level : x.Level s.uart.tx.line
  ready : s.status.getLsbD 1 = x.waiting.isNone
  active : s.status.getLsbD 2 = x.current.isSome

/-- The time of a frame for each byte that is on the line or waits, as the status bits tell. -/
def outstanding : ℕ :=
  10 * s.ticks * ((s.status.getLsbD 2).toNat + (!s.status.getLsbD 1).toNat)

/-- Nothing is lost and nothing sent twice, and the status bits tell what there is to do. -/
structure Transmits : Prop where
  sends : ∃ x, s.Shows x
  ready : ∀ i : UartInput, i.txWrite = true → (s.status.getLsbD 1 = true ↔ s.accepts i = true)
  full : ∀ i : UartInput, i.txWrite = true → s.accepts i = false →
    s.step i = s.step { i with dbus := {} }

variable {s i}

/-- No frame is on the line. -/
structure Idle (s : TxBench fifoBits) (frames : List (ℕ × BitVec 8)) (l : List Bool) : Prop where
  rests : s.uart.tx.Rests
  line : s.line = l
  accepted : s.accepted = frames

/-- Symbol `j` of a frame is on the line. -/
structure OnLine (s : TxBench fifoBits) (frames : List (ℕ × BitVec 8)) (l : List Bool)
    (b : BitVec 8) (j r : ℕ) : Prop where
  inFrame : s.uart.tx.InFrame s.uart.regs.txDivider b j r
  line : s.line = l ++ SerialLine.start s.ticks b j r
  accepted : s.accepted =
    frames ++ (s.ticks, b) :: (s.uart.tx.waiting.map fun next => (s.ticks, next)).toList

def Inv (s : TxBench fifoBits) : Prop :=
  ∃ frames l, Waveform frames l ∧ (s.Idle frames l ∨ ∃ b j r, s.OnLine frames l b j r)

theorem step_divider : (s.step i).uart.regs.txDivider =
    if i.controlWrite then i.divider else s.uart.regs.txDivider := by
  show (s.uart.regs.step i).txDivider = _
  unfold UartRegs.step UartInput.controlWrite
  cases i.writeCycle with
  | false => rfl
  | true =>
    by_cases h2 : i.reg = 2#2
    · simp [h2]
    · by_cases h3 : i.reg = 3#2
      · simp [h3]
      · simp [h2, h3]

theorem step_tx : (s.step i).uart.tx =
    s.uart.tx.step s.uart.regs.txDivider (s.accepts i) (i.dbus.dbWr.extractLsb' 0 8) := rfl

theorem step_accepted : (s.step i).accepted = s.accepted ++
    if s.accepts i then [(s.ticks, i.dbus.dbWr.extractLsb' 0 8)] else [] := by
  show (if s.accepts i then _ else s.accepted) = _
  cases s.accepts i <;> simp

/-- A byte is not written together with the divider. -/
theorem not_control_of_accepts (h : s.accepts i = true) : i.controlWrite = false := by
  have hreg : i.reg = 0 := by
    simp only [accepts, UartInput.txWrite, Bool.and_eq_true, decide_eq_true_eq] at h
    exact h.1.2
  simp [UartInput.controlWrite, hreg]

theorem step_line : (s.step i).line = s.line ++ [s.uart.tx.line] := rfl

theorem ticks_of_divider {s t : TxBench fifoBits}
    (h : t.uart.regs.txDivider = s.uart.regs.txDivider) : t.ticks = s.ticks := by
  rw [ticks, h]
  rfl

/-- The line is free for the next frame, or it has just begun. -/
def Fresh (s : TxBench fifoBits) (frames : List (ℕ × BitVec 8)) (l : List Bool) : Prop :=
  s.Idle frames l ∨ ∃ b, s.OnLine frames l b 0 0

section Step
variable {frames : List (ℕ × BitVec 8)} {l : List Bool} {b : BitVec 8} {j r : ℕ}

theorem Idle.next (h : s.Idle frames l) : (s.step i).Fresh frames (l ++ [true]) := by
  have hline : (s.step i).line = l ++ [true] := by
    rw [step_line, h.line, h.rests.line]
  have hacc := step_accepted (s := s) (i := i)
  have hnext := h.rests.step (s.accepts i) (i.dbus.dbWr.extractLsb' 0 8) s.uart.regs.txDivider
  rw [← step_tx] at hnext
  cases hw : s.accepts i with
  | false =>
    rw [hw] at hnext hacc
    exact .inl ⟨by simpa using hnext, hline, by simpa [h.accepted] using hacc⟩
  | true =>
    rw [hw, if_pos rfl] at hnext
    rw [hw, if_pos rfl] at hacc
    have hdiv : (s.step i).uart.regs.txDivider = s.uart.regs.txDivider := by
      rw [step_divider, not_control_of_accepts hw, if_neg Bool.false_ne_true]
    refine .inr ⟨i.dbus.dbWr.extractLsb' 0 8, ?_, ?_, ?_⟩
    · rw [hdiv]
      exact hnext.1
    · rw [hline, SerialLine.start_zero, List.append_nil]
    · rw [hacc, h.accepted, hnext.2, ticks_of_divider hdiv]
      rfl

theorem OnLine.step_divider (h : s.OnLine frames l b j r) (ha : s.Allowed i) :
    (s.step i).uart.regs.txDivider = s.uart.regs.txDivider := by
  rw [TxBench.step_divider]
  split_ifs with hc
  · exact ha hc h.inFrame.busy
  · rfl

/-- A frame on the line gets one clock older, until it has had all of them. -/
theorem OnLine.next (h : s.OnLine frames l b j r) (ha : s.Allowed i) :
    (∃ j' r', (s.step i).OnLine frames l b j' r' ∧ j' * s.ticks + r' = j * s.ticks + r + 1) ∨
      j * s.ticks + r + 1 = 10 * s.ticks ∧
        (s.step i).Fresh (frames ++ [(s.ticks, b)]) (l ++ SerialLine.frame s.ticks b) := by
  have hframe := h.inFrame
  have hdiv := h.step_divider ha
  have hticks := ticks_of_divider hdiv
  have hfree : s.accepts i = true → s.uart.tx.bufferValid = false := by
    simp [accepts]
  have hline : (s.step i).line =
      l ++ (SerialLine.start s.ticks b j r ++ [SerialLine.symbol b j]) := by
    rw [step_line, h.line, hframe.line, List.append_assoc]
  -- a byte that is accepted is the one that waits from now on
  have hacc : (s.step i).accepted = frames ++ (s.ticks, b) ::
      (((if s.accepts i then some (i.dbus.dbWr.extractLsb' 0 8) else s.uart.tx.waiting).map
        fun next => (s.ticks, next)).toList) := by
    rw [step_accepted, h.accepted]
    cases hw : s.accepts i with
    | false => simp
    | true => simp [UartTx.waiting, hfree hw]
  by_cases hr : r < s.uart.regs.txDivider.toNat
  · obtain ⟨hnext, hwait⟩ := hframe.step_within (s.accepts i)
      (i.dbus.dbWr.extractLsb' 0 8) hr
    rw [← step_tx] at hnext hwait
    refine .inl ⟨j, r + 1, ⟨?_, ?_, ?_⟩, (Nat.add_assoc _ _ _).symm⟩
    · rwa [hdiv]
    · rw [hline, hticks, SerialLine.start_succ]
    · rw [hacc, hticks, hwait]
  · have hsum := hframe.divCount
    obtain rfl : r = s.uart.regs.txDivider.toNat := by omega
    have hpos : 0 < s.ticks := Nat.succ_pos _
    have hage : j * s.ticks + s.uart.regs.txDivider.toNat + 1 = (j + 1) * s.ticks := by
      rw [Nat.succ_mul, Nat.add_assoc]
      rfl
    have hrow : SerialLine.start s.ticks b j s.uart.regs.txDivider.toNat ++
        [SerialLine.symbol b j] = SerialLine.start s.ticks b (j + 1) 0 :=
      (SerialLine.start_next hpos).symm
    rw [hrow] at hline
    by_cases hj : j < 9
    · obtain ⟨hnext, hwait⟩ := hframe.step_symbol (s.accepts i)
        (i.dbus.dbWr.extractLsb' 0 8) hj
      rw [← step_tx] at hnext hwait
      refine .inl ⟨j + 1, 0, ⟨?_, ?_, ?_⟩, hage.symm⟩
      · rwa [hdiv]
      · rw [hline, hticks]
      · rw [hacc, hticks, hwait]
    · have hlt := hframe.lt
      obtain rfl : j = 9 := by omega
      have hnext := hframe.step_last (s.accepts i) (i.dbus.dbWr.extractLsb' 0 8) hfree
      rw [← step_tx] at hnext
      rw [SerialLine.start_all] at hline
      refine .inr ⟨hage, ?_⟩
      cases hw : (if s.accepts i then some (i.dbus.dbWr.extractLsb' 0 8)
        else s.uart.tx.waiting) with
      | none =>
        rw [hw] at hnext hacc
        exact .inl ⟨hnext, hline, by simpa using hacc⟩
      | some next =>
        rw [hw] at hnext hacc
        refine .inr ⟨next, ?_, ?_, ?_⟩
        · rw [hdiv]
          exact hnext.1
        · rw [hline, SerialLine.start_zero, List.append_nil]
        · rw [hacc, hnext.2, hticks]
          simp

theorem OnLine.lt_ticks (h : s.OnLine frames l b j r) : r < s.ticks := by
  have hcount := h.inFrame.divCount
  simp only [ticks]
  omega

/-- The age of the frame on the line. -/
theorem OnLine.age_lt (h : s.OnLine frames l b j r) : j * s.ticks + r < 10 * s.ticks :=
  calc j * s.ticks + r < j * s.ticks + s.ticks := Nat.add_lt_add_left h.lt_ticks _
    _ = (j + 1) * s.ticks := (Nat.succ_mul j s.ticks).symm
    _ ≤ 10 * s.ticks := Nat.mul_le_mul_right _ h.inFrame.lt

/-- One byte is on the line, and one more may wait. -/
theorem OnLine.length_accepted (h : s.OnLine frames l b j r) :
    s.accepted.length = frames.length + 1 + s.uart.tx.bufferValid.toNat := by
  have hwait : (s.uart.tx.waiting.map fun next => (s.ticks, next)).toList.length =
      s.uart.tx.bufferValid.toNat := by
    unfold UartTx.waiting
    cases s.uart.tx.bufferValid <;> rfl
  rw [h.accepted, List.length_append, List.length_cons, hwait]
  omega

/-- How many of the bytes have no complete frame yet. -/
theorem OnLine.length_missing (h : s.OnLine frames l b j r) :
    s.accepted.length - frames.length = 1 + s.uart.tx.bufferValid.toNat := by
  rw [h.length_accepted, Nat.add_assoc, Nat.add_sub_cancel_left]

theorem OnLine.accepted_prefix (h : s.OnLine frames l b j r) : frames <+: s.accepted :=
  h.accepted ▸ List.prefix_append _ _

end Step

/-- The bytes `sent` were accepted, and are sent within `n` clocks: of each byte that is not yet
there a whole frame is missing, less the age of the one on the line. -/
def Due (sent : List (ℕ × BitVec 8)) (n : ℕ) (s : TxBench fifoBits) : Prop :=
  sent <+: s.accepted ∧ ∃ frames l, Waveform frames l ∧
    (s.Idle frames l ∨ ∃ b j r, s.OnLine frames l b j r ∧
      10 * s.ticks * (sent.length - frames.length) ≤ n + (j * s.ticks + r))

section Due
variable {sent : List (ℕ × BitVec 8)} {n : ℕ}

theorem Inv.due (h : s.Inv) : s.Due [] 0 := by
  obtain ⟨frames, l, hl, hidle | ⟨b, j, r, honline⟩⟩ := h
  · exact ⟨List.nil_prefix, frames, l, hl, .inl hidle⟩
  · refine ⟨List.nil_prefix, frames, l, hl, .inr ⟨b, j, r, honline, ?_⟩⟩
    rw [List.length_nil, Nat.zero_sub, Nat.mul_zero]
    exact Nat.zero_le _

theorem Due.inv (h : s.Due sent n) : s.Inv := by
  obtain ⟨-, frames, l, hl, hidle | ⟨b, j, r, honline, -⟩⟩ := h
  · exact ⟨frames, l, hl, .inl hidle⟩
  · exact ⟨frames, l, hl, .inr ⟨b, j, r, honline⟩⟩

/-- Behind the last clock of a frame. -/
theorem Fresh.due {frames : List (ℕ × BitVec 8)} {l : List Bool} (h : s.Fresh frames l)
    (hl : Waveform frames l) (hsent : sent <+: s.accepted)
    (hn : 10 * s.ticks * (sent.length - frames.length) ≤ n) : s.Due sent n := by
  refine ⟨hsent, frames, l, hl, h.imp_right ?_⟩
  rintro ⟨b, honline⟩
  exact ⟨b, 0, 0, honline, by omega⟩

theorem Due.step (h : s.Due sent n) (ha : s.Allowed i) : (s.step i).Due sent (n - 1) := by
  obtain ⟨hsent, frames, l, hl, hdue⟩ := h
  have hnext : sent <+: (s.step i).accepted := by
    rw [step_accepted]
    exact hsent.trans (List.prefix_append _ _)
  rcases hdue with hidle | ⟨b, j, r, honline, hn⟩
  · -- everything that was accepted is on the line
    rw [hidle.accepted] at hsent
    refine hidle.next.due hl.idle hnext ?_
    rw [Nat.sub_eq_zero_of_le hsent.length_le, Nat.mul_zero]
    exact Nat.zero_le _
  · have hticks := ticks_of_divider (honline.step_divider ha)
    rcases honline.next ha with ⟨j', r', honline', hage⟩ | ⟨hage, hfresh⟩
    · refine ⟨hnext, frames, l, hl, .inr ⟨b, j', r', honline', ?_⟩⟩
      rw [hticks]
      omega
    · refine hfresh.due (hl.frame s.ticks b) hnext ?_
      rw [hticks, List.length_append, List.length_singleton, ← Nat.sub_sub, Nat.mul_sub]
      omega

end Due

theorem Inv.step (h : s.Inv) (ha : s.Allowed i) : (s.step i).Inv := (h.due.step ha).inv

/-- The two bits of the status register. -/
theorem status_bits :
    s.status.getLsbD 1 = !s.uart.tx.bufferValid ∧ s.status.getLsbD 2 = s.uart.tx.busy := by
  have hreg : ({ dbus := { adr := 4 } } : UartInput).reg = 1#2 := rfl
  unfold status Uart.readData
  rw [hreg]
  constructor <;> cases s.uart.regs.extModeEn <;>
    simp [Uart.txReady]

/-- A write while the buffer is full. -/
theorem step_full (h : i.txWrite = true) (hno : s.accepts i = false) :
    s.step i = s.step { i with dbus := {} } := by
  simp only [UartInput.txWrite, UartInput.writeCycle, Bool.and_eq_true, decide_eq_true_eq] at h
  obtain ⟨⟨hen, hwe⟩, hreg⟩ := h
  have hregs : s.uart.regs.step i = s.uart.regs.step { i with dbus := {} } := by
    have hidle : s.uart.regs.step { i with dbus := {} } = s.uart.regs := rfl
    rw [hidle]
    unfold UartRegs.step
    rw [hreg]
    cases i.writeCycle <;> rfl
  have htx : s.uart.tx.step s.uart.regs.txDivider (s.accepts i) (i.dbus.dbWr.extractLsb' 0 8) =
      s.uart.tx.step s.uart.regs.txDivider false 0 := by
    rw [hno]
    simp [UartTx.step]
  have hread : i.rxRegRead = false := by
    rw [UartInput.rxRegRead, decide_eq_false hwe, Bool.and_false, Bool.false_and]
  have hacc : (s.step i).accepted = s.accepted := by
    rw [step_accepted, hno]
    simp
  have huart : (s.step i).uart = (s.step { i with dbus := {} }).uart := by
    show (⟨s.uart.regs.step i, s.uart.tx.step _ (s.accepts i) _,
      s.uart.rx.step s.uart.regs.timing i.rx i.rxRegRead⟩ : Uart fifoBits) = _
    rw [htx, hregs, hread]
    rfl
  show (⟨(s.step i).uart, (s.step i).accepted, _⟩ : TxBench fifoBits) = _
  rw [huart, hacc]
  rfl

theorem not_bufferValid : (!s.uart.tx.bufferValid) = s.uart.tx.waiting.isNone := by
  unfold UartTx.waiting
  cases s.uart.tx.bufferValid <;> rfl

theorem Idle.bufferValid {frames : List (ℕ × BitVec 8)} {l : List Bool} (h : s.Idle frames l) :
    s.uart.tx.bufferValid = false := by
  have hfree := not_bufferValid (s := s)
  rw [h.rests.waiting] at hfree
  simpa using hfree

section Shows
variable {frames : List (ℕ × BitVec 8)} {l : List Bool} {b : BitVec 8} {j r : ℕ}

theorem Idle.shows (h : s.Idle frames l) (hl : Waveform frames l) :
    s.Shows ⟨frames, none, none⟩ where
  bytes := by simp [Sending.bytes, h.accepted]
  line := ⟨l, hl, h.line, rfl⟩
  level := h.rests.line
  ready := by
    rw [status_bits.1, not_bufferValid, h.rests.waiting]
    rfl
  active := status_bits.2.trans h.rests.busy

theorem OnLine.shows (h : s.OnLine frames l b j r) (hl : Waveform frames l) :
    s.Shows ⟨frames, some (s.ticks, b, j * s.ticks + r),
      s.uart.tx.waiting.map fun next => (s.ticks, next)⟩ where
  bytes := by simp [Sending.bytes, h.accepted]
  line := by
    refine ⟨l, hl, h.age_lt, ?_⟩
    rw [h.line, SerialLine.start_eq_take h.inFrame.lt h.lt_ticks.le]
  level := by
    have hsample := SerialLine.frame_sample (b := b) h.inFrame.lt h.lt_ticks
    rw [← h.inFrame.line] at hsample
    exact hsample
  ready := by
    rw [status_bits.1, not_bufferValid, Option.isNone_map]
  active := status_bits.2.trans h.inFrame.busy

end Shows

/-- With no time left they are sent. -/
theorem Due.sent {sent : List (ℕ × BitVec 8)} (h : s.Due sent 0) :
    ∃ x, s.Shows x ∧ sent <+: x.frames := by
  obtain ⟨hsent, frames, l, hl, hidle | ⟨b, j, r, honline, hn⟩⟩ := h
  · exact ⟨_, hidle.shows hl, hidle.accepted ▸ hsent⟩
  · have hlen : sent.length ≤ frames.length := by
      have hage := honline.age_lt
      by_contra hlong
      have hmissing : 10 * s.ticks * 1 ≤ 10 * s.ticks * (sent.length - frames.length) :=
        Nat.mul_le_mul_left _ (by omega)
      omega
    exact ⟨_, honline.shows hl,
      List.prefix_of_prefix_length_le hsent honline.accepted_prefix hlen⟩

theorem Inv.due_outstanding (h : s.Inv) : s.Due s.accepted s.outstanding := by
  obtain ⟨frames, l, hl, hidle | ⟨b, j, r, honline⟩⟩ := h
  · exact ⟨List.prefix_rfl, frames, l, hl, .inl hidle⟩
  · refine ⟨List.prefix_rfl, frames, l, hl, .inr ⟨b, j, r, honline, ?_⟩⟩
    obtain ⟨hready, hbusy⟩ := status_bits (s := s)
    rw [honline.length_missing, outstanding, hready, hbusy, honline.inFrame.busy, Bool.not_not]
    exact Nat.le_add_right _ _

theorem Inv.framesSent (h : s.Inv) : s.Transmits where
  sends := by
    obtain ⟨x, hx, -⟩ := h.due.sent
    exact ⟨x, hx⟩
  ready i hi := by
    rw [(status_bits (s := s)).1, accepts, hi, Bool.true_and]
  full i hi hno := step_full hi hno

theorem inv_init : ({} : TxBench fifoBits).Inv :=
  ⟨[], [], .nil, .inl ⟨⟨rfl, rfl, rfl⟩, rfl, rfl⟩⟩

/-- After every run, for every divider, what was written while the buffer was free is on the
line once and in order, and the frame of each byte is complete when the time of those outstanding
has passed. -/
theorem transmits {is : List UartInput} (h : (machine fifoBits).Along Allowed {} is) :
    ((machine fifoBits).run is).Transmits ∧
      ∀ js ks, is = js ++ ks → ((machine fifoBits).run js).outstanding ≤ ks.length →
        ∃ x, ((machine fifoBits).run is).Shows x ∧
          ((machine fifoBits).run js).accepted <+: x.frames := by
  have hrun {js : List UartInput} (hjs : (machine fifoBits).Along Allowed {} js) :
      ((machine fifoBits).run js).Inv :=
    hjs.invariant Inv (fun _ _ hs ha => hs.step ha) inv_init
  refine ⟨(hrun h).framesSent, ?_⟩
  rintro js ks rfl htime
  obtain ⟨hjs, hks⟩ := Clocked.along_append.1 h
  have hdue := hks.countdown (Due _) (fun _ _ _ hs ha => hs.step ha) (hrun hjs).due_outstanding
  have hend : (machine fifoBits).run (js ++ ks) =
      (machine fifoBits).runFrom ((machine fifoBits).run js) ks := Clocked.runFrom_append _ _ _ _
  rw [Nat.sub_eq_zero_of_le htime, ← hend] at hdue
  exact hdue.sent

/-- A divider, two bytes one behind the other, a third one that finds the buffer full, and the
eighty clocks of the two frames. -/
theorem transmits_two :
    let js : List UartInput := [⟨⟨true, 8, 0xf, 3⟩, true⟩, ⟨⟨true, 0, 1, 0x41⟩, true⟩,
      ⟨⟨true, 0, 1, 0x42⟩, true⟩, ⟨⟨true, 0, 1, 0x43⟩, true⟩]
    let s := (machine 5).run (js ++ List.replicate 80 ⟨{}, true⟩)
    s.Transmits ∧ ∃ x, s.Shows x ∧ [(4, 0x41), (4, 0x42)] <+: x.frames := by
  intro js s
  have hrun := transmits (show (machine 5).Along Allowed {}
    (js ++ List.replicate 80 ⟨{}, true⟩) by decide +kernel)
  exact ⟨hrun.1, hrun.2 js _ rfl (by decide +kernel)⟩

end TxBench
end BonfireCore
