import Mathlib.Algebra.BigOperators.Group.List.Basic
import Mathlib.Data.BitVec
import Mathlib.Data.List.DropRight
import Mathlib.Tactic.Common

/-! The remote serial protocol as the GDB server reads it: one packet or break out of each
chunk of the socket, and the loop that hands them to the handler. -/
namespace BonfireCore

abbrev Byte := BitVec 8

/-- What `int(.., 16)` makes of one character. -/
def hexValue (b : Byte) : Option ℕ :=
  if 0x30 ≤ b ∧ b ≤ 0x39 then some (b.toNat - 0x30)
  else if 0x61 ≤ b ∧ b ≤ 0x66 then some (b.toNat - 0x57)
  else if 0x41 ≤ b ∧ b ≤ 0x46 then some (b.toNat - 0x37)
  else none

def isSpace (b : Byte) : Bool := b == 0x20 || (0x09 ≤ b && b ≤ 0x0d)

/-- `int(s, 16)` for the at most two bytes of a checksum; `none` raises. -/
def parseChecksum (s : List Byte) : Option ℤ :=
  match (s.dropWhile isSpace).rdropWhile isSpace with
  | [a] => (hexValue a).map fun v => (v : ℤ)
  | [a, b] =>
    if a = 0x2b then (hexValue b).map fun v => (v : ℤ)
    else if a = 0x2d then (hexValue b).map fun v => -(v : ℤ)
    else do
      let hi ← hexValue a
      let lo ← hexValue b
      return 16 * hi + lo
  | _ => none

/-- How `receive` ends. -/
inductive Received
  | eof
  | break
  | good (packet : List Byte)
  | invalidChecksum
  | valueError
  deriving DecidableEq, Repr

namespace RSPHandler

/-- The state `Finding EOP` of `receive`. -/
def findingEop (escaped : Bool) (csum : Byte) (packet : List Byte) : List Byte → Received
  | [] => .eof
  | c :: netin =>
    let csum := csum + c
    if escaped then findingEop false csum (packet ++ [c ^^^ 0x20]) netin
    else if c = 0x7d then findingEop true csum packet netin
    else if c = 0x23 then
      let csum := csum - c
      match parseChecksum (netin.take 2) with
      | none => .valueError
      | some v => if (csum.toNat : ℤ) ≠ v then .invalidChecksum else .good packet
    else findingEop false csum (packet ++ [c]) netin

/-- The state `Finding SOP`. -/
def findingSop : List Byte → Received
  | [] => .eof
  | c :: netin =>
    if c = 0x03 then .break
    else if c = 0x24 then findingEop false 0 [] netin
    else findingSop netin

def receive (packetBytes : List Byte) : Received := findingSop packetBytes

variable (csum b : Byte) (packet netin : List Byte)

theorem findingEop_escaped : findingEop true csum packet (b :: netin) =
    findingEop false (csum + b) (packet ++ [b ^^^ 0x20]) netin := rfl

theorem findingEop_escape : findingEop false csum packet (0x7d :: netin) =
    findingEop true (csum + 0x7d) packet netin := rfl

theorem findingEop_raw {b : Byte} (h : b ≠ 0x23 ∧ b ≠ 0x7d) :
    findingEop false csum packet (b :: netin) =
      findingEop false (csum + b) (packet ++ [b]) netin := by
  simp only [findingEop, Bool.false_eq_true, if_false, h.1, h.2]

/-- The end of a packet with checksum `csum`. -/
def endOfPacket (csum : Byte) (packet netin : List Byte) : Received :=
  match parseChecksum (netin.take 2) with
  | none => .valueError
  | some v => if (csum.toNat : ℤ) ≠ v then .invalidChecksum else .good packet

theorem findingEop_stop : findingEop false csum packet (0x23 :: netin) =
    endOfPacket csum packet netin := by
  have hcsum : csum + 0x23 - 0x23 = csum := BitVec.add_sub_cancel csum 0x23
  have hstop : ¬ (0x23 : Byte) = 0x7d := by decide
  simp only [findingEop, hstop, Bool.false_eq_true, if_false, if_true, hcsum]
  rfl

end RSPHandler

/-- What `run_cmd` acts on. -/
inductive RspCommand
  | packet (payload : List Byte)
  | break
  deriving DecidableEq, Repr

def Received.command : Received → Option RspCommand
  | .good packet => some (.packet packet)
  | .break => some .break
  | _ => none

def Received.raises : Received → Bool
  | .invalidChecksum | .valueError => true
  | _ => false

/-- The body of `run_cmd` once a command is there: the state after it and what was sent;
without a state it raised or never returned. -/
def CommandBody (σ ρ : Type*) := σ → RspCommand → Option σ × ρ

section Server
variable {σ ρ : Type*} (body : CommandBody σ ρ)

/-- `run_cmd`: the state after it and the command it executed with its replies. -/
def runCmd (s : σ) (packetBytes : List Byte) : Option σ × List (RspCommand × ρ) :=
  let result := RSPHandler.receive packetBytes
  match result.command with
  | some cmd => ((body s cmd).1, [(cmd, (body s cmd).2)])
  | none => (if result.raises then none else some s, [])

/-- The loop of `tcp_server` over the chunks that `recv` returns. -/
def server (s : σ) : List (List Byte) → Option σ × List (RspCommand × ρ)
  | [] => (some s, [])
  | data :: chunks =>
    match runCmd body s data with
    | (none, log) => (none, log)
    | (some s', log) =>
      let rest := server s' chunks
      (rest.1, log ++ rest.2)

end Server

/-- A character of a packet on the wire, alone or after the escape byte. -/
inductive WireChar
  | raw (b : Byte) (plain : b ≠ 0x23 ∧ b ≠ 0x24 ∧ b ≠ 0x7d)
  | escaped (b : Byte)
  deriving DecidableEq, Repr

namespace WireChar

def bytes : WireChar → List Byte
  | raw b _ => [b]
  | escaped b => [0x7d, b]

def char : WireChar → Byte
  | raw b _ => b
  | escaped b => b ^^^ 0x20

end WireChar

def hexDigit (upper : Bool) (d : Fin 16) : Byte :=
  if d.val < 10 then BitVec.ofNat 8 (0x30 + d.val)
  else if upper then BitVec.ofNat 8 (0x37 + d.val)
  else BitVec.ofNat 8 (0x57 + d.val)

/-- A well-formed packet: any characters, and the case of its two checksum digits. -/
structure RspPacket where
  chars : List WireChar
  upperHi : Bool := false
  upperLo : Bool := false
  deriving DecidableEq, Repr

namespace RspPacket
variable (p : RspPacket)

def payload : List Byte := p.chars.map WireChar.char

def checksum : Byte := (p.chars.flatMap WireChar.bytes).sum

def hi : Fin 16 := ⟨p.checksum.toNat / 16, by have := p.checksum.isLt; omega⟩
def lo : Fin 16 := ⟨p.checksum.toNat % 16, Nat.mod_lt _ (by decide)⟩

def digits : List Byte := [hexDigit p.upperHi p.hi, hexDigit p.upperLo p.lo]

def bytes : List Byte := 0x24 :: p.chars.flatMap WireChar.bytes ++ 0x23 :: p.digits

end RspPacket

/-- What a client puts on the stream. -/
inductive RspItem
  | packet (p : RspPacket)
  | ack (positive : Bool)
  | break
  deriving DecidableEq, Repr

namespace RspItem

def bytes : RspItem → List Byte
  | packet p => p.bytes
  | ack positive => [if positive then 0x2b else 0x2d]
  | .break => [0x03]

def command : RspItem → Option RspCommand
  | packet p => some (.packet p.payload)
  | ack _ => none
  | .break => some .break

end RspItem

theorem hexDigit_plain (upper : Bool) (d : Fin 16) :
    isSpace (hexDigit upper d) = false ∧ hexDigit upper d ≠ 0x2b#8 ∧ hexDigit upper d ≠ 0x2d#8 := by
  revert upper d
  decide

theorem hexDigit_quiet (upper : Bool) (d : Fin 16) :
    hexDigit upper d ≠ 0x03 ∧ hexDigit upper d ≠ 0x24 := by
  revert upper d
  decide

theorem hexValue_hexDigit (upper : Bool) (d : Fin 16) :
    hexValue (hexDigit upper d) = some d.val := by
  revert upper d
  decide

theorem parseChecksum_one (upper : Bool) (d : Fin 16) :
    parseChecksum [hexDigit upper d] = some (d.val : ℤ) := by
  simp [parseChecksum, hexDigit_plain, hexValue_hexDigit, List.rdropWhile]

theorem parseChecksum_two (upper upper' : Bool) (d d' : Fin 16) :
    parseChecksum [hexDigit upper d, hexDigit upper' d'] = some (16 * d.val + d'.val : ℤ) := by
  simp [parseChecksum, hexDigit_plain, hexValue_hexDigit, List.rdropWhile]

namespace RspPacket
variable (p : RspPacket)

theorem checksum_digits : p.checksum.toNat = 16 * p.hi.val + p.lo.val := by
  simp only [hi, lo]
  omega

/-- The characters of a packet go through one by one. -/
theorem findingEop_chars (csum : Byte) (packet : List Byte) (chars : List WireChar)
    (netin : List Byte) :
    RSPHandler.findingEop false csum packet (chars.flatMap WireChar.bytes ++ netin) =
      RSPHandler.findingEop false (csum + (chars.flatMap WireChar.bytes).sum)
        (packet ++ chars.map WireChar.char) netin := by
  induction chars generalizing csum packet with
  | nil => simp
  | cons ch chars ih =>
    cases ch with
    | raw b plain =>
      simp [WireChar.bytes, WireChar.char, RSPHandler.findingEop_raw _ _ _ ⟨plain.1, plain.2.2⟩,
        ih, add_assoc]
    | escaped b =>
      have h := RSPHandler.findingEop_escape csum packet
        (b :: (chars.flatMap WireChar.bytes ++ netin))
      rw [RSPHandler.findingEop_escaped, ih] at h
      simpa [WireChar.bytes, WireChar.char, add_assoc] using h

/-- A whole packet is received, whatever follows it. -/
theorem receive_bytes (netin : List Byte) :
    RSPHandler.receive (p.bytes ++ netin) = .good p.payload := by
  have hdigits : (p.checksum.toNat : ℤ) = 16 * (p.hi.val : ℤ) + p.lo.val := by
    rw [p.checksum_digits]
    norm_cast
  have hend : RSPHandler.endOfPacket p.checksum p.payload (p.digits ++ netin) =
      .good p.payload := by
    simp [RSPHandler.endOfPacket, digits, parseChecksum_two, hdigits]
  have hstart : RSPHandler.receive (p.bytes ++ netin) =
      RSPHandler.findingEop false 0 []
        (p.chars.flatMap WireChar.bytes ++ 0x23 :: (p.digits ++ netin)) := by
    simp [RSPHandler.receive, RSPHandler.findingSop, bytes]
  rw [hstart, findingEop_chars, RSPHandler.findingEop_stop, List.nil_append, zero_add]
  exact hend

end RspPacket

/-- The stream as `recv(1024)` may deliver it. -/
structure Segmentation (stream : List Byte) where
  chunks : List (List Byte)
  flatten_eq : chunks.flatten = stream
  size : ∀ c ∈ chunks, 0 < c.length ∧ c.length ≤ 1024

end BonfireCore
