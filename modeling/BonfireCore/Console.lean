import BonfireCore.PrintfExpansion
import BonfireCore.UartDrain
import Mathlib.Data.List.GetD
import Mathlib.Data.List.TakeWhile

/-! The console of the SoC runtime: the UART's driver and `printk`, on the registers of the
UART. -/
namespace BonfireCore

open SerialLine (Waveform)
open Snprintf (expand vsnprintf)

/-- What the runtime has no say in. -/
structure ConsoleBus where
  /-- The clocks before each access to the UART; the instructions and the other accesses are in
  there. -/
  gap : ℕ → ℕ := fun _ => 0
  /-- The receive line, clock by clock. -/
  rx : ℕ → Bool := fun _ => true

/-- The UART, the accesses so far, and `out` of `vprintk`. -/
structure Console (fifoBits : ℕ) where
  bench : TxBench fifoBits := {}
  accesses : ℕ := 0
  out : BitVec 32 → CChar := fun _ => 0

def uart0Base : BitVec 32 := 0x80010000
def uartTx : BitVec 32 := 0x00
def uartStatus : BitVec 32 := 0x04
def uartControl : BitVec 32 := 0x08
def uartStatusTxReady : BitVec 32 := 0x02
def uartStatusTxActive : BitVec 32 := 0x04
def uartControlEnableExtended : BitVec 32 := 0x030000
def uartControlDivisorMask : BitVec 32 := 0x0000ffff

def uartControlValue (divisor : BitVec 32) : BitVec 32 :=
  uartControlEnableExtended ||| (divisor &&& uartControlDivisorMask)

variable {fifoBits : ℕ} (w : ConsoleBus)

/-- A clock without an access. -/
def ConsoleBus.idleCycle (s : TxBench fifoBits) : TxBench fifoBits :=
  s.step { dbus := {}, rx := w.rx s.line.length }

namespace Console

section Driver
variable (c : Console fifoBits)

/-- The UART at the next access. -/
def atAccess : TxBench fifoBits := w.idleCycle^[w.gap c.accesses] c.bench

/-- An access; the UART answers in the cycle of the request. -/
def access (request : DbusRequest 32) : BitVec 32 × Console fifoBits :=
  let s := c.atAccess w
  let i : UartInput := { dbus := request, rx := w.rx s.line.length }
  ((s.uart.response i).dbRd, { c with bench := s.step i, accesses := c.accesses + 1 })

/-- `bonfire_write32`. -/
def write32 (address value : BitVec 32) : Console fifoBits :=
  (c.access w { en := true, adr := address, we := 0xf, dbWr := value }).2

/-- `bonfire_read32`. -/
def read32 (address : BitVec 32) : BitVec 32 × Console fifoBits :=
  c.access w { en := true, adr := address }

def uartInit (divisor : BitVec 32) : Console fifoBits :=
  c.write32 w (uart0Base + uartControl) (uartControlValue divisor)

end Driver

/-- Read the status register until it meets `ready`; `none`: not within `fuel` reads. -/
def pollStatus (ready : BitVec 32 → Bool) : ℕ → Console fifoBits → Option (Console fifoBits)
  | 0, _ => none
  | fuel + 1, c =>
    let (status, c) := c.read32 w (uart0Base + uartStatus)
    if ready status then some c else pollStatus ready fuel c

def waitTxReady (fuel : ℕ) (c : Console fifoBits) : Option (Console fifoBits) :=
  pollStatus w (fun status => status &&& uartStatusTxReady ≠ 0) fuel c

def waitTxComplete (fuel : ℕ) (c : Console fifoBits) : Option (Console fifoBits) :=
  (pollStatus w (fun status => status &&& uartStatusTxActive ≠ 0) fuel c).bind
    (pollStatus w (fun status =>
      status &&& (uartStatusTxReady ||| uartStatusTxActive) = uartStatusTxReady) fuel)

def putc (fuel : ℕ) (char : CChar) (c : Console fifoBits) : Option (Console fifoBits) :=
  (waitTxReady w fuel c).map fun c => c.write32 w (uart0Base + uartTx) (char.setWidth 32)

/-- `bonfire_uart_puts`; `text` is the memory, with the string at `k`. -/
def puts (text : BitVec 32 → CChar) : ℕ → BitVec 32 → Console fifoBits → Option (Console fifoBits)
  | 0, _, _ => none
  | fuel + 1, k, c =>
    if text k = 0 then some c
    else
      (if text k = 0x0a then putc w fuel 0x0d c else some c).bind fun c =>
        (putc w fuel (text k) c).bind fun c => puts text fuel (k + 1) c

/-- `printk` with `vprintk`. -/
def printk (fuel : ℕ) (format : CString) (args : List VaArg) (c : Console fifoBits) :
    Option (Console fifoBits) :=
  (vsnprintf 256 format args).bind fun (writes, _) =>
    let c := { c with out := WriteLog.replay c.out writes }
    puts w c.out fuel 0 c

end Console

/-- The calls a program makes. -/
inductive ConsoleCall
  | putc (char : CChar)
  | puts (text : CString)
  | printk (format : CString) (args : List VaArg)

namespace ConsoleCall

/-- A string constant in memory. -/
def constant (text : CString) (k : BitVec 32) : CChar := text.chars.getD k.toNat 0

def run (fuel : ℕ) (c : Console fifoBits) : ConsoleCall → Option (Console fifoBits)
  | putc char => c.putc w fuel char
  | puts text => c.puts w (constant text) fuel 0
  | printk format args => c.printk w fuel format args

/-- A carriage return in front of each line feed. -/
def crlf (text : List CChar) : List CChar :=
  text.flatMap fun c => if c = 0x0a then [0x0d, c] else [c]

/-- The bytes that a call is to send: of `printk`, what the buffer holds of the expansion, up to
the first NUL. -/
def Says : ConsoleCall → List CChar → Prop
  | putc char, bytes => bytes = [char]
  | puts text, bytes => text.chars.length < 2 ^ 32 ∧ bytes = crlf text.chars
  | printk format args, bytes => ∃ text, expand format.chars args = some text ∧
      text.length < 2 ^ 32 ∧ bytes = crlf ((text.take 255).takeWhile (· ≠ 0))

end ConsoleCall

namespace Console

/-- The program: `bonfire_uart_init` and its calls. -/
def session (fuel : ℕ) (divisor : BitVec 32) (calls : List ConsoleCall) :
    Option (Console fifoBits) :=
  calls.foldlM (ConsoleCall.run w fuel) (uartInit w {} divisor)

variable {w}

section Access
variable {c : Console fifoBits}

theorem rolls_idle {s : TxBench fifoBits} (h : s.Inv) (n : ℕ) :
    s.Rolls (w.idleCycle^[n] s) n := by
  induction n with
  | zero => exact h.rolls
  | succ n ih =>
    rw [Function.iterate_succ_apply']
    exact ih.step rfl

theorem rolls_atAccess (h : c.bench.Inv) : c.bench.Rolls (c.atAccess w) (w.gap c.accesses) :=
  rolls_idle h _

theorem rolls_read32 (h : c.bench.Inv) (address : BitVec 32) :
    c.bench.Rolls (c.read32 w address).2.bench (w.gap c.accesses + 1) :=
  (rolls_atAccess h).step rfl

/-- The status register as the driver reads it. -/
theorem read32_status : (c.read32 w (uart0Base + uartStatus)).1 = (c.atAccess w).status := by
  have hreg : ({ dbus := { adr := 4 } } : UartInput).reg = 1#2 := rfl
  have hadr : (uart0Base + uartStatus).extractLsb' 2 2 = 1#2 := rfl
  show Uart.readData _ _ = Uart.readData _ _
  unfold Uart.readData
  rw [hreg, UartInput.reg, hadr]

section Status
variable (status : BitVec 32)

theorem and_two : status &&& 0x02 = if status.getLsbD 1 then 0x02 else 0 := by
  rw [show (0x02 : BitVec 32) = BitVec.twoPow 32 1 from rfl, BitVec.and_twoPow]
  rfl

theorem and_four : status &&& 0x04 = if status.getLsbD 2 then 0x04 else 0 := by
  rw [show (0x04 : BitVec 32) = BitVec.twoPow 32 2 from rfl, BitVec.and_twoPow]
  rfl

theorem txReady_eq : decide (status &&& uartStatusTxReady ≠ 0) = status.getLsbD 1 := by
  rw [uartStatusTxReady, and_two]
  cases status.getLsbD 1 <;> rfl

theorem txActive_eq : decide (status &&& uartStatusTxActive ≠ 0) = status.getLsbD 2 := by
  rw [uartStatusTxActive, and_four]
  cases status.getLsbD 2 <;> rfl

theorem txComplete_eq :
    decide (status &&& (uartStatusTxReady ||| uartStatusTxActive) = uartStatusTxReady) =
      (status.getLsbD 1 && !status.getLsbD 2) := by
  rw [uartStatusTxReady, uartStatusTxActive, BitVec.and_or_distrib_left, and_two, and_four]
  cases status.getLsbD 1 <;> cases status.getLsbD 2 <;> rfl

end Status

variable {s : TxBench fifoBits}

theorem txReady_iff (h : s.Inv) :
    decide (s.status &&& uartStatusTxReady ≠ 0) = true ↔ s.left ≤ 10 * s.ticks := by
  rw [txReady_eq, (TxBench.status_bits (s := s)).1, Bool.not_eq_true', ← Bool.not_eq_true,
    h.bufferValid_iff, not_lt]

theorem txActive_iff (h : s.Inv) :
    decide (s.status &&& uartStatusTxActive ≠ 0) = true ↔ 0 < s.left := by
  rw [txActive_eq, (TxBench.status_bits (s := s)).2, h.busy_iff]

theorem txComplete_iff (h : s.Inv) :
    decide (s.status &&& (uartStatusTxReady ||| uartStatusTxActive) = uartStatusTxReady) = true ↔
      s.left ≤ 0 := by
  obtain ⟨hready, hbusy⟩ := TxBench.status_bits (s := s)
  have hv := h.bufferValid_iff
  have hb := h.busy_iff
  rw [txComplete_eq, hready, hbusy]
  cases hvalid : s.uart.tx.bufferValid <;> cases hbusy : s.uart.tx.busy <;>
    simp [hvalid, hbusy] at hv hb ⊢ <;> omega

end Access

section Sends
variable {c d e : Console fifoBits}

/-- From `c` to `d` these bytes are put into the transmitter; behind the last one a whole frame
is left to send. -/
structure Sends (c d : Console fifoBits) (bytes : List CChar) : Prop where
  inv : d.bench.Inv
  ticks : d.bench.ticks = c.bench.ticks
  accepted : d.bench.accepted = c.bench.accepted ++ bytes.map fun b => (c.bench.ticks, b)
  none : bytes = [] → d.bench = c.bench
  left : bytes ≠ [] → 10 * c.bench.ticks ≤ d.bench.left

theorem sends_nil (h : c.bench.Inv) (hd : d.bench = c.bench) : c.Sends d [] := by
  refine ⟨hd ▸ h, by rw [hd], by rw [hd]; simp, fun _ => hd, fun hne => absurd rfl hne⟩

theorem Sends.trans {bytes more : List CChar} (h : c.Sends d bytes) (h' : d.Sends e more) :
    c.Sends e (bytes ++ more) where
  inv := h'.inv
  ticks := h'.ticks.trans h.ticks
  accepted := by rw [h'.accepted, h.accepted, h.ticks, List.map_append, List.append_assoc]
  none hnil := by
    obtain ⟨hbytes, hmore⟩ := List.append_eq_nil_iff.1 hnil
    rw [h'.none hmore, h.none hbytes]
  left hne := by
    by_cases hmore : more = []
    · rw [h'.none hmore]
      exact h.left fun hbytes => hne (by rw [hbytes, hmore, List.append_nil])
    · rw [← h.ticks]
      exact h'.left hmore

theorem pollStatus_succ (ready : BitVec 32 → Bool) (fuel : ℕ) :
    pollStatus w ready (fuel + 1) c =
      if ready (c.atAccess w).status then some (c.read32 w (uart0Base + uartStatus)).2
      else pollStatus w ready fuel (c.read32 w (uart0Base + uartStatus)).2 := by
  rw [← read32_status]
  rfl

/-- A loop that waits until at most `m` clocks are left returns. -/
theorem pollStatus_returns (ready : BitVec 32 → Bool) {m : ℕ}
    (hready : ∀ s : TxBench fifoBits, s.Inv → s.ticks = c.bench.ticks →
      (ready s.status = true ↔ s.left ≤ m)) (h : c.bench.Inv) {fuel : ℕ}
    (hfuel : c.bench.left - m < fuel) :
    ∃ d n, pollStatus w ready fuel c = some d ∧ c.bench.Rolls d.bench n ∧ d.bench.left ≤ m := by
  induction fuel generalizing c with
  | zero => exact absurd hfuel (Nat.not_lt_zero _)
  | succ fuel ih =>
    have hat := rolls_atAccess (w := w) h
    have hread := rolls_read32 (w := w) h (uart0Base + uartStatus)
    have hcond := hready _ hat.inv hat.ticks
    rw [hat.left] at hcond
    have hrest := hread.left
    rw [pollStatus_succ]
    split_ifs with hs
    · have hle := hcond.1 hs
      exact ⟨_, _, rfl, hread, by omega⟩
    · have hle := mt hcond.2 hs
      obtain ⟨d, n, hrun, hroll, hleft⟩ := ih
        (fun s hi ht => hready s hi (ht.trans hread.ticks)) hread.inv (by omega)
      exact ⟨d, _, hrun, hread.trans hroll, hleft⟩

theorem waitTxReady_returns (h : c.bench.Inv) {fuel : ℕ} (hfuel : 10 * c.bench.ticks < fuel) :
    ∃ d n, waitTxReady w fuel c = some d ∧ c.bench.Rolls d.bench n ∧
      d.bench.left ≤ 10 * c.bench.ticks := by
  have hle := h.left_le
  refine pollStatus_returns _ (fun s hs ht => ?_) h (by omega)
  rw [txReady_iff hs, ht]

/-- A write to the data register while the buffer is free. -/
theorem write32_sends (h : c.bench.Inv) (hleft : c.bench.left ≤ 10 * c.bench.ticks)
    (char : CChar) :
    (c.write32 w (uart0Base + uartTx) (char.setWidth 32)).bench.Inv ∧
      (c.write32 w (uart0Base + uartTx) (char.setWidth 32)).bench.ticks = c.bench.ticks ∧
      (c.write32 w (uart0Base + uartTx) (char.setWidth 32)).bench.accepted =
        c.bench.accepted ++ [(c.bench.ticks, char)] ∧
      10 * c.bench.ticks ≤ (c.write32 w (uart0Base + uartTx) (char.setWidth 32)).bench.left := by
  have hat := rolls_atAccess (w := w) h
  let i : UartInput :=
    { dbus := { en := true, adr := uart0Base + uartTx, we := 0xf, dbWr := char.setWidth 32 }
      rx := w.rx (c.atAccess w).line.length }
  have hstep : (c.write32 w (uart0Base + uartTx) (char.setWidth 32)).bench =
      (c.atAccess w).step i := rfl
  have hreg : i.reg = 0#2 := by
    show (uart0Base + uartTx).extractLsb' 2 2 = 0#2
    rfl
  have hcontrol : i.controlWrite = false := by
    rw [UartInput.controlWrite, hreg]
    simp
  have hwrite : i.txWrite = true := by
    rw [UartInput.txWrite, hreg]
    rfl
  have hbyte : i.dbus.dbWr.extractLsb' 0 8 = char := by
    show (char.setWidth 32).extractLsb' 0 8 = char
    rw [BitVec.extractLsb'_setWidth_of_le (by omega), BitVec.extractLsb'_eq_self]
  have hfree : (c.atAccess w).uart.tx.bufferValid = false := by
    rw [← Bool.not_eq_true, hat.inv.bufferValid_iff, hat.ticks, hat.left]
    omega
  have haccepts : (c.atAccess w).accepts i = true := by
    rw [TxBench.accepts, hwrite, hfree]
    rfl
  have hadded := hat.inv.step_left hcontrol
  rw [haccepts, if_pos rfl, hat.ticks] at hadded
  rw [hstep, hadded, TxBench.step_accepted, haccepts, if_pos rfl, hbyte, hat.accepted, hat.ticks]
  refine ⟨hat.inv.step fun hc => absurd (hcontrol.symm.trans hc) Bool.false_ne_true, ?_, rfl,
    Nat.le_add_left _ _⟩
  rw [← hat.ticks]
  apply TxBench.ticks_of_divider
  rw [TxBench.step_divider, hcontrol, if_neg Bool.false_ne_true]

theorem putc_sends (h : c.bench.Inv) {fuel : ℕ} (hfuel : 10 * c.bench.ticks < fuel)
    (char : CChar) : ∃ d, putc w fuel char c = some d ∧ c.Sends d [char] := by
  obtain ⟨d, n, hrun, hroll, hleft⟩ := waitTxReady_returns (w := w) h hfuel
  rw [← hroll.ticks] at hleft
  obtain ⟨hinv, hticks, haccepted, hlow⟩ := write32_sends (w := w) hroll.inv hleft char
  rw [hroll.ticks] at hticks haccepted hlow
  rw [hroll.accepted] at haccepted
  rw [putc, hrun, Option.map_some]
  exact ⟨_, rfl, hinv, hticks, haccepted, nofun, fun _ => hlow⟩

end Sends

section Strings
variable {c : Console fifoBits} {text : BitVec 32 → CChar}

/-- The string at `k`, with its terminator. -/
def StringAt (text : BitVec 32 → CChar) : BitVec 32 → List CChar → Prop
  | k, [] => text k = 0
  | k, char :: chars => char ≠ 0 ∧ text k = char ∧ StringAt text (k + 1) chars

theorem puts_sends {chars : List CChar} {k : BitVec 32} (hs : StringAt text k chars)
    (h : c.bench.Inv) {fuel : ℕ} (hfuel : chars.length + 10 * c.bench.ticks < fuel) :
    ∃ d, puts w text fuel k c = some d ∧ c.Sends d (ConsoleCall.crlf chars) := by
  induction chars generalizing k c fuel with
  | nil =>
    obtain ⟨fuel, rfl⟩ := Nat.exists_eq_add_one_of_ne_zero (Nat.ne_zero_of_lt hfuel)
    rw [puts, if_pos (show text k = 0 from hs)]
    exact ⟨c, rfl, sends_nil h rfl⟩
  | cons char chars ih =>
    obtain ⟨hchar, hk, hrest⟩ := hs
    obtain ⟨fuel, rfl⟩ := Nat.exists_eq_add_one_of_ne_zero (Nat.ne_zero_of_lt hfuel)
    rw [List.length_cons] at hfuel
    rw [puts, hk, if_neg hchar]
    -- the carriage return in front of a line feed
    have hreturn : ∃ d, (if char = 0x0a then putc w fuel 0x0d c else some c) = some d ∧
        c.Sends d (if char = 0x0a then [0x0d] else []) := by
      split_ifs
      · exact putc_sends h (by omega) 0x0d
      · exact ⟨c, rfl, sends_nil h rfl⟩
    obtain ⟨d, hd, hsends⟩ := hreturn
    have hdticks := hsends.ticks
    obtain ⟨e, he, hbyte⟩ := putc_sends (w := w) hsends.inv
      (show 10 * d.bench.ticks < fuel by omega) char
    have heticks := hbyte.ticks
    obtain ⟨f, hf, htext⟩ := ih (c := e) hrest hbyte.inv
      (show chars.length + 10 * e.bench.ticks < fuel by omega)
    rw [hd, Option.bind_some, he, Option.bind_some, hf]
    have hall := (hsends.trans hbyte).trans htext
    refine ⟨f, rfl, ?_⟩
    have hcrlf : ConsoleCall.crlf (char :: chars) =
        (if char = 0x0a then [0x0d] else []) ++ [char] ++ ConsoleCall.crlf chars := by
      rw [ConsoleCall.crlf, List.flatMap_cons]
      split_ifs <;> rfl
    rwa [hcrlf]

/-- The cells from `k` on hold a string up to their first NUL. -/
theorem stringAt_of_cells {cells : List CChar} {k : BitVec 32}
    (h : ∀ j (hj : j < cells.length), text (k + BitVec.ofNat 32 j) = cells[j]) (h0 : 0 ∈ cells) :
    StringAt text k (cells.takeWhile (· ≠ 0)) := by
  induction cells generalizing k with
  | nil => exact absurd h0 List.not_mem_nil
  | cons cell cells ih =>
    have hk : text k = cell := by simpa using h 0 (Nat.succ_pos _)
    by_cases hcell : cell = 0
    · rw [List.takeWhile_cons_of_neg (by simpa using hcell)]
      rwa [hcell] at hk
    · rw [List.takeWhile_cons_of_pos (by simpa using hcell)]
      refine ⟨hcell, hk, ih (fun j hj => ?_) ?_⟩
      · have hnext := h (j + 1) (Nat.succ_lt_succ hj)
        rw [List.getElem_cons_succ, Nat.add_comm, BitVec.ofNat_add, ← BitVec.add_assoc] at hnext
        exact hnext
      · exact (List.mem_cons.1 h0).resolve_left (Ne.symm hcell)

/-- The same for cells that end in a terminator. -/
theorem stringAt_of_terminated {chars : List CChar}
    (h : ∀ j (hj : j < (chars ++ [0]).length), text (BitVec.ofNat 32 j) = (chars ++ [0])[j]) :
    StringAt text 0 (chars.takeWhile (· ≠ 0)) := by
  have hcells : StringAt text 0 ((chars ++ [0]).takeWhile (· ≠ 0)) := by
    refine stringAt_of_cells (fun j hj => ?_) (by simp)
    rw [show (0 : BitVec 32) + BitVec.ofNat 32 j = BitVec.ofNat 32 j from BitVec.zero_add _]
    exact h j hj
  have htake : (chars ++ [0]).takeWhile (· ≠ 0) = chars.takeWhile (· ≠ 0) := by
    rw [List.takeWhile_append]
    split_ifs with hall
    · rw [(List.takeWhile_prefix _).eq_of_length hall, List.takeWhile_cons_of_neg (by simp),
        List.append_nil]
    · rfl
  rwa [htake] at hcells

theorem constant_stringAt (s : CString) (hlen : s.chars.length < 2 ^ 32) :
    StringAt (ConsoleCall.constant s) 0 s.chars := by
  have hnul : s.chars.takeWhile (· ≠ 0) = s.chars :=
    List.takeWhile_eq_self_iff.2 fun char hmem => by simpa using s.nonzero char hmem
  rw [← hnul]
  refine stringAt_of_terminated fun j hj => ?_
  rw [List.length_append, List.length_singleton] at hj
  rw [ConsoleCall.constant, BitVec.toNat_ofNat, Nat.mod_eq_of_lt (by omega)]
  by_cases hin : j < s.chars.length
  · rw [List.getD_eq_getElem _ _ hin, List.getElem_append_left hin]
  · obtain rfl : j = s.chars.length := by omega
    rw [List.getD_eq_default _ _ (Nat.le_refl _)]
    simp

/-- What `vsnprintf` leaves in the buffer of `vprintk`. -/
theorem vprintk_stringAt {format : CString} {args : List VaArg} {expansion : List CChar}
    (hexpand : expand format.chars args = some expansion) (hlen : expansion.length < 2 ^ 32)
    (out : BitVec 32 → CChar) :
    ∃ writes returned, vsnprintf 256 format args = some (writes, returned) ∧
      StringAt (WriteLog.replay out writes) 0 ((expansion.take 255).takeWhile (· ≠ 0)) := by
  refine ⟨_, _, Snprintf.vsnprintf_eq hexpand, ?_⟩
  rw [Snprintf.terminate_putAll expansion hlen, if_neg (by decide)]
  refine stringAt_of_terminated fun j hj => ?_
  have hsize : (expansion.take 255 ++ [0]).length < 2 ^ 32 := by
    rw [List.length_append, List.length_take, List.length_singleton]
    omega
  have hcells := Snprintf.replay_stored out (expansion.take 255 ++ [0]) hsize
  have hcell := congrArg (·[j]?) hcells
  rw [List.getElem?_map, List.getElem?_range hj, List.getElem?_eq_getElem hj] at hcell
  exact Option.some.inj hcell

end Strings

section Calls
variable {c : Console fifoBits}

theorem length_le_crlf (text : List CChar) : text.length ≤ (ConsoleCall.crlf text).length := by
  induction text with
  | nil => exact Nat.zero_le _
  | cons c text ih =>
    rw [ConsoleCall.crlf, List.flatMap_cons, List.length_append, List.length_cons, Nat.add_comm]
    refine Nat.add_le_add ?_ ih
    split_ifs <;> simp

theorem Says.run_sends {call : ConsoleCall} {bytes : List CChar} (hs : call.Says bytes)
    (h : c.bench.Inv) {fuel : ℕ} (hfuel : bytes.length + 10 * c.bench.ticks < fuel) :
    ∃ d, call.run w fuel c = some d ∧ c.Sends d bytes := by
  cases call with
  | putc char =>
    obtain rfl : bytes = [char] := hs
    exact putc_sends h (by omega) char
  | puts text =>
    obtain ⟨hlen, rfl⟩ := hs
    have hcrlf := length_le_crlf text.chars
    exact puts_sends (constant_stringAt text hlen) h (by omega)
  | printk format args =>
    obtain ⟨expansion, hexpand, hlen, rfl⟩ := hs
    have hcrlf := length_le_crlf ((expansion.take 255).takeWhile (· ≠ 0))
    obtain ⟨writes, returned, hwrites, hat⟩ := vprintk_stringAt hexpand hlen c.out
    obtain ⟨d, hd, hsends⟩ := puts_sends (w := w) hat
      (c := { c with out := WriteLog.replay c.out writes }) h
      (show _ + 10 * c.bench.ticks < fuel by omega)
    have hstart : c.Sends { c with out := WriteLog.replay c.out writes } [] := sends_nil h rfl
    refine ⟨d, ?_, hstart.trans hsends⟩
    show (vsnprintf 256 format args).bind _ = _
    rw [hwrites]
    exact hd

theorem calls_send {fuel : ℕ} {calls : List ConsoleCall} {texts : List (List CChar)}
    (hs : List.Forall₂ ConsoleCall.Says calls texts) (h : c.bench.Inv)
    (hfuel : ∀ bytes ∈ texts, bytes.length + 10 * c.bench.ticks < fuel) :
    ∃ d, calls.foldlM (ConsoleCall.run w fuel) c = some d ∧ c.Sends d texts.flatten := by
  induction hs generalizing c with
  | nil => exact ⟨c, rfl, sends_nil h rfl⟩
  | cons hcall _ ih =>
    obtain ⟨d, hd, hfirst⟩ := Says.run_sends (w := w) hcall h (hfuel _ List.mem_cons_self)
    obtain ⟨e, he, hrest⟩ := ih hfirst.inv fun bytes hmem => by
      rw [hfirst.ticks]
      exact hfuel bytes (List.mem_cons_of_mem _ hmem)
    rw [List.foldlM_cons, hd, List.flatten_cons]
    exact ⟨e, he, hfirst.trans hrest⟩

end Calls

/-- The clocks for each bit with this divisor. -/
def uartTicks (divisor : BitVec 32) : ℕ := divisor.toNat % 2 ^ 16 + 1

theorem controlValue_divider (divisor : BitVec 32) :
    ((uartControlValue divisor).extractLsb' 0 16).toNat = divisor.toNat % 2 ^ 16 := by
  have hmask : (uartControlValue divisor).extractLsb' 0 16 = divisor.extractLsb' 0 16 := by
    rw [uartControlValue, BitVec.extractLsb'_or, BitVec.extractLsb'_and]
    show 0#16 ||| divisor.extractLsb' 0 16 &&& BitVec.allOnes 16 = _
    rw [BitVec.and_allOnes, BitVec.zero_or]
  rw [hmask, BitVec.extractLsb'_toNat, Nat.shiftRight_zero]

/-- The UART after `bonfire_uart_init`. -/
theorem uartInit_ready (w : ConsoleBus) (fifoBits : ℕ) (divisor : BitVec 32) :
    (uartInit w ({} : Console fifoBits) divisor).bench.Inv ∧
      (uartInit w ({} : Console fifoBits) divisor).bench.accepted = [] ∧
      (uartInit w ({} : Console fifoBits) divisor).bench.ticks = uartTicks divisor := by
  have hat := rolls_atAccess (c := ({} : Console fifoBits)) (w := w) TxBench.inv_init
  let s := ({} : Console fifoBits).atAccess w
  let i : UartInput :=
    { dbus :=
        { en := true
          adr := uart0Base + uartControl
          we := 0xf
          dbWr := uartControlValue divisor }
      rx := w.rx s.line.length }
  have hstep : (uartInit w ({} : Console fifoBits) divisor).bench = s.step i := rfl
  have hreg : i.reg = 2#2 := by
    show (uart0Base + uartControl).extractLsb' 2 2 = 2#2
    rfl
  have hcontrol : i.controlWrite = true := by
    rw [UartInput.controlWrite, hreg]
    rfl
  have hbusy : s.uart.tx.busy = false := by
    rw [← Bool.not_eq_true, hat.inv.busy_iff, hat.left]
    exact Nat.not_lt.2 (Nat.sub_le _ _)
  have haccepts : s.accepts i = false := by
    rw [TxBench.accepts, UartInput.txWrite, hreg]
    simp
  rw [hstep]
  refine ⟨hat.inv.step fun _ hb => ?_, ?_, ?_⟩
  · exact absurd (hbusy.symm.trans hb) Bool.false_ne_true
  · rw [TxBench.step_accepted, haccepts, hat.accepted]
    rfl
  · rw [TxBench.ticks, TxBench.step_divider, hcontrol, if_pos rfl]
    exact congrArg (· + 1) (controlValue_divider divisor)

section Session
variable {divisor : BitVec 32} {calls : List ConsoleCall} {texts : List (List CChar)} {fuel : ℕ}

theorem session_runs (w : ConsoleBus) (fifoBits : ℕ)
    (hs : List.Forall₂ ConsoleCall.Says calls texts)
    (hfuel : ∀ bytes ∈ texts, bytes.length + 10 * uartTicks divisor < fuel) :
    ∃ c : Console fifoBits, session w fuel divisor calls = some c ∧ c.bench.Inv ∧
      c.bench.ticks = uartTicks divisor ∧
      c.bench.accepted = texts.flatten.map (fun b => (uartTicks divisor, b)) ∧
      (texts.flatten ≠ [] → 10 * uartTicks divisor ≤ c.bench.left) := by
  obtain ⟨hinv, haccepted, hticks⟩ := uartInit_ready w fifoBits divisor
  rw [← hticks] at hfuel ⊢
  obtain ⟨c, hrun, hsends⟩ := calls_send (w := w) hs hinv hfuel
  refine ⟨c, hrun, hsends.inv, hsends.ticks, ?_, hsends.left⟩
  rw [hsends.accepted, haccepted, List.nil_append]

variable (w)

/-- From reset, `bonfire_uart_init` and any calls of the console, whatever the time between the
accesses: the calls return, and the line carries what they say, byte for byte and with the
divisor's bit time, once the transmitter has come to rest. -/
theorem session_transmits (fifoBits : ℕ) (hs : List.Forall₂ ConsoleCall.Says calls texts)
    (hfuel : ∀ bytes ∈ texts, bytes.length + 10 * uartTicks divisor < fuel) :
    ∃ c : Console fifoBits, session w fuel divisor calls = some c ∧ c.bench.Transmits ∧
      c.bench.accepted = texts.flatten.map (fun b => (uartTicks divisor, b)) ∧
      ∀ n, 20 * uartTicks divisor ≤ n →
        Waveform (texts.flatten.map fun b => (uartTicks divisor, b))
          (w.idleCycle^[n] c.bench).line := by
  obtain ⟨c, hrun, hinv, hticks, haccepted, -⟩ := session_runs w fifoBits hs hfuel
  refine ⟨c, hrun, hinv.framesSent, haccepted, fun n hn => ?_⟩
  have hroll := rolls_idle (w := w) hinv n
  have hle := hinv.left_le
  have hrest : (w.idleCycle^[n] c.bench).left = 0 := by
    rw [hroll.left]
    omega
  rw [← haccepted, ← hroll.accepted]
  exact hroll.inv.sent hrest

/-- A number with a line feed and the prompt, on a core with other work. -/
theorem session_transmits_number :
    ∃ c : Console 5, session { gap := fun n => n % 7 } 3000 216
        [.printk ⟨[0x25, 0x64, 0x0a], by decide⟩ [.int (-7)], .putc 0x3e] = some c ∧
      c.bench.Transmits ∧
      c.bench.accepted = [0x2d, 0x37, 0x0d, 0x0a, 0x3e].map (fun b => (217, b)) ∧
      ∀ n, 20 * 217 ≤ n → Waveform ([0x2d, 0x37, 0x0d, 0x0a, 0x3e].map fun b => (217, b))
        ((ConsoleBus.idleCycle { gap := fun n => n % 7 })^[n] c.bench).line := by
  have hsays : List.Forall₂ ConsoleCall.Says
      [.printk ⟨[0x25, 0x64, 0x0a], by decide⟩ [.int (-7)], .putc 0x3e]
      [[0x2d, 0x37, 0x0d, 0x0a], [0x3e]] :=
    .cons ⟨[0x2d, 0x37, 0x0a], by decide, by decide, by decide⟩ (.cons rfl .nil)
  exact session_transmits { gap := fun n => n % 7 } 5 hsays (by decide)

variable {w}

section Poll
variable {c d : Console fifoBits} {ready : BitVec 32 → Bool}

/-- What a loop that has returned has seen. -/
theorem pollStatus_some {n : ℕ} (h : c.bench.Inv) (hrun : pollStatus w ready n c = some d) :
    ∃ m s, w.gap c.accesses ≤ m ∧ c.bench.Rolls s m ∧ ready s.status = true ∧
      c.bench.Rolls d.bench (m + 1) := by
  induction n generalizing c with
  | zero => exact absurd hrun nofun
  | succ n ih =>
    have hat := rolls_atAccess (w := w) h
    have hread := rolls_read32 (w := w) h (uart0Base + uartStatus)
    rw [pollStatus_succ] at hrun
    split_ifs at hrun with hs
    · rw [← Option.some.inj hrun]
      exact ⟨_, _, Nat.le_refl _, hat, hs, hread⟩
    · obtain ⟨m, s, -, hseen, hready, hroll⟩ := ih hread.inv hrun
      exact ⟨_, s, by omega, hread.trans hseen, hready, hread.trans hroll⟩

/-- `bonfire_uart_wait_tx_complete` has seen the transmitter at work, and at rest. -/
theorem waitTxComplete_some {n : ℕ} (h : c.bench.Inv) (hrun : waitTxComplete w n c = some d) :
    w.gap c.accesses < c.bench.left ∧ ∃ m, c.bench.Rolls d.bench m ∧ d.bench.left = 0 := by
  rw [waitTxComplete, Option.bind_eq_some_iff] at hrun
  obtain ⟨e, hactive, hdone⟩ := hrun
  obtain ⟨m, s, hgap, hseen, hready, hroll⟩ := pollStatus_some h hactive
  obtain ⟨k, t, -, hrests, hcomplete, hlast⟩ := pollStatus_some hroll.inv hdone
  have hpos := (txActive_iff hseen.inv).1 hready
  have hzero := (txComplete_iff hrests.inv).1 hcomplete
  have hleft := hseen.left
  have hrest := hrests.left
  refine ⟨by omega, _, hroll.trans hlast, ?_⟩
  rw [hlast.left]
  omega

theorem waitTxComplete_returns {n : ℕ} (h : c.bench.Inv)
    (hgap : w.gap c.accesses < c.bench.left) (hn : c.bench.left < n) :
    ∃ d, waitTxComplete w n c = some d := by
  obtain ⟨n, rfl⟩ := Nat.exists_eq_add_one_of_ne_zero (Nat.ne_zero_of_lt hn)
  have hat := rolls_atAccess (w := w) h
  have hread := rolls_read32 (w := w) h (uart0Base + uartStatus)
  have hactive : decide ((c.atAccess w).status &&& uartStatusTxActive ≠ 0) = true := by
    rw [txActive_iff hat.inv, hat.left]
    omega
  have hleft := hread.left
  obtain ⟨d, -, hrun, -⟩ := pollStatus_returns (w := w)
    (fun status => status &&& (uartStatusTxReady ||| uartStatusTxActive) = uartStatusTxReady)
    (fun s hs _ => txComplete_iff hs) hread.inv (show _ < n + 1 by omega)
  refine ⟨d, ?_⟩
  rw [waitTxComplete, pollStatus_succ, if_pos hactive, Option.bind_some, hrun]

end Poll

variable (w)

/-- `bonfire_uart_wait_tx_complete` behind the calls returns just when its first read comes while
a frame is on the line, as it does within a frame's time of the last write; it hangs otherwise.
When it returns, the line has carried everything. -/
theorem waitTxComplete_iff (hs : List.Forall₂ ConsoleCall.Says calls texts)
    (hfuel : ∀ bytes ∈ texts, bytes.length + 10 * uartTicks divisor < fuel)
    {c : Console fifoBits} (hc : session w fuel divisor calls = some c) :
    ((∃ n d, waitTxComplete w n c = some d) ↔ (c.atAccess w).uart.tx.busy = true) ∧
      (∀ n d, waitTxComplete w n c = some d →
        Waveform (texts.flatten.map fun b => (uartTicks divisor, b)) d.bench.line) ∧
      (texts.flatten ≠ [] → w.gap c.accesses < 10 * uartTicks divisor →
        ∃ d, waitTxComplete w (20 * uartTicks divisor + 1) c = some d) := by
  obtain ⟨c', hc', hinv, hticks, haccepted, hlow⟩ := session_runs w fifoBits hs hfuel
  obtain rfl : c' = c := Option.some.inj (hc'.symm.trans hc)
  have hat := rolls_atAccess (w := w) hinv
  have hbusy : (c'.atAccess w).uart.tx.busy = true ↔ w.gap c'.accesses < c'.bench.left := by
    rw [hat.inv.busy_iff, hat.left]
    omega
  refine ⟨?_, fun n d hrun => ?_, fun hne hgap => ?_⟩
  · rw [hbusy]
    constructor
    · rintro ⟨n, d, hrun⟩
      exact (waitTxComplete_some hinv hrun).1
    · intro hgap
      exact ⟨_, waitTxComplete_returns hinv hgap (Nat.lt_succ_self _)⟩
  · obtain ⟨-, m, hroll, hzero⟩ := waitTxComplete_some hinv hrun
    rw [← haccepted, ← hroll.accepted]
    exact hroll.inv.sent hzero
  · have hle := hinv.left_le
    have hframe := hlow hne
    exact waitTxComplete_returns hinv (by omega) (by omega)

/-- The prompt of the monitor in the simulation. -/
theorem waitTxComplete_iff_prompt :
    ∃ c d : Console 5, session {} 3000 216 [.puts ⟨[0x0a, 0x3e], by decide⟩, .putc 0x1a] = some c ∧
      waitTxComplete {} 4341 c = some d ∧
      Waveform ([0x0d, 0x0a, 0x3e, 0x1a].map fun b => (217, b)) d.bench.line := by
  have hsays : List.Forall₂ ConsoleCall.Says
      [.puts ⟨[0x0a, 0x3e], by decide⟩, .putc 0x1a] [[0x0d, 0x0a, 0x3e], [0x1a]] :=
    .cons ⟨by decide, by decide⟩ (.cons rfl .nil)
  have hfuel : ∀ bytes ∈ [[0x0d, 0x0a, 0x3e], [(0x1a : CChar)]],
      bytes.length + 10 * uartTicks 216 < 3000 := by decide
  obtain ⟨c, hc, -⟩ := session_runs {} 5 hsays hfuel
  obtain ⟨-, hsent, hreturns⟩ := waitTxComplete_iff {} hsays hfuel hc
  obtain ⟨d, hd⟩ := hreturns (by decide) (show 0 < 10 * uartTicks 216 by decide)
  exact ⟨c, d, hc, hd, hsent _ d hd⟩

end Session
end Console
end BonfireCore
