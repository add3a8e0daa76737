import BonfireCore.Clocked
import BonfireCore.DebugApi

/-! The memory and breakpoint packets of the GDB server. -/
namespace BonfireCore

def ascii (s : String) : List Byte := s.toList.map fun c => BitVec.ofNat 8 c.toNat

/-- Spaces of a latin-1 string. -/
def isSpaceLatin1 (b : Byte) : Bool := isSpace b || b == 0x85 || b == 0xa0

def hexNumber (acc : ℕ) (underscore : Bool) : List Byte → Option ℕ
  | [] => if underscore then none else some acc
  | c :: cs =>
    if c = 0x5f then if underscore then none else hexNumber acc true cs
    else do
      let d ← hexValue c
      hexNumber (16 * acc + d) false cs

/-- The digits after an optional `0x`, which one underscore may follow. -/
def hexDigits : List Byte → Option ℕ
  | 0x30#8 :: 0x78#8 :: 0x5f#8 :: s | 0x30#8 :: 0x58#8 :: 0x5f#8 :: s
  | 0x30#8 :: 0x78#8 :: s | 0x30#8 :: 0x58#8 :: s | s =>
    if s = [] ∨ s.head? = some 0x5f then none else hexNumber 0 false s

/-- `int(s, 16)` of a string; `none` raises. -/
def int16 (s : List Byte) : Option ℤ :=
  match (s.dropWhile isSpaceLatin1).rdropWhile isSpaceLatin1 with
  | 0x2b#8 :: s => (hexDigits s).map fun n => (n : ℤ)
  | 0x2d#8 :: s => (hexDigits s).map fun n => -(n : ℤ)
  | s => (hexDigits s).map fun n => (n : ℤ)

/-- `bytes.fromhex`; `none` raises. -/
def fromHex : List Byte → Option (List Byte)
  | [] => some []
  | [c] => if isSpace c then some [] else none
  | c :: d :: cs =>
    if isSpace c then fromHex (d :: cs)
    else do
      let hi ← hexValue c
      let lo ← hexValue d
      let bytes ← fromHex cs
      return BitVec.ofNat 8 (16 * hi + lo) :: bytes

/-- `"{:02X}"` of a byte. -/
def hexByte (value : Word) : List Byte :=
  [hexDigit true ⟨value.toNat / 16 % 16, Nat.mod_lt _ (by decide)⟩,
    hexDigit true ⟨value.toNat % 16, Nat.mod_lt _ (by decide)⟩]

def EBREAK_INSN : Word := 0x00100073

/-- `EBREAK_INSN.to_bytes(4, byteorder='little')`. -/
def ebreakBytes : List Byte := (List.range 4).map fun i => EBREAK_INSN.extractLsb' (8 * i) 8

structure RspState where
  hart : HaltedHart := {}
  breakpoints : List (ℕ × List Byte) := []
  memorySizeBytes : Option ℕ := none

inductive MemoryCommand
  | m | M | X | Z | z
  deriving DecidableEq, Repr

/-- A packet without its first character. -/
structure MemoryPacket where
  cmd : MemoryCommand
  subcmd : List Byte
  deriving DecidableEq, Repr

namespace RspState
variable (s : RspState)

def memoryRangeValid (addr size : ℤ) : Bool :=
  if addr < 0 ∨ size < 0 then false
  else match s.memorySizeBytes with
    | none => true
    | some memorySize => addr + size ≤ memorySize

def writeMemoryBytes (h : HaltedHart) (addr : ℕ) : List Byte → Option HaltedHart
  | [] => some h
  | value :: data => do
    let h ← DebugApi.writeMemory h (BitVec.ofNat 32 addr) (value.setWidth 32) true
    writeMemoryBytes h (addr + 1) data

/-- The loop over `readMemory` of `handle_m` and `handle_Z`. -/
def readMemoryBytes (h : HaltedHart) (addr : ℕ) : ℕ → Option (List Word × HaltedHart)
  | 0 => some ([], h)
  | size + 1 => do
    let (value, h) ← DebugApi.readMemory h (BitVec.ofNat 32 addr) true
    let (values, h) ← readMemoryBytes h (addr + 1) size
    return (value :: values, h)

def dcsr : BitVec 12 := 0x7b0

/-- `_update_dcsr`. -/
def updateDcsr (h : HaltedHart) (ebreakm step : Option Bool) : Option HaltedHart := do
  let (value, h) ← DebugApi.readCSR h dcsr CSR_SCRATCH_GPR
  let value := match ebreakm with
    | none => value
    | some true => value ||| 1#32 <<< 15
    | some false => value &&& ~~~(1#32 <<< 15)
  let value := match step with
    | none => value
    | some true => value ||| 1#32 <<< 2
    | some false => value &&& ~~~(1#32 <<< 2)
  DebugApi.writeCSR h dcsr value CSR_SCRATCH_GPR

/-- `addr, size = s.split(',')` with both as numbers. -/
def addrSize (text : List Byte) : Option (ℤ × ℤ) :=
  match text.splitOn 0x2c with
  | [addr, size] => do return (← int16 addr, ← int16 size)
  | _ => none

/-- The fields of `M`: address, size and hex digits. -/
def addrSizeHex (text : List Byte) : Option (ℤ × ℤ × List Byte) :=
  match text.splitOn 0x2c with
  | [addr, tail] =>
    match tail.splitOn 0x3a with
    | [size, hexstring] => do return (← int16 addr, ← int16 size, hexstring)
    | _ => none
  | _ => none

/-- The fields of `Z` and `z`; the source catches what raises here. -/
def kindAddrSize (text : List Byte) : Option (List Byte × ℤ × ℤ) :=
  match text.splitOn 0x2c with
  | [kind, addr, size] => do return (kind, ← int16 addr, ← int16 size)
  | _ => none

/-- What a handler sends and the state after it; `none` when it raises. -/
abbrev Handled := Option (List Byte × RspState)

def handle_m (subcmd : List Byte) : Handled := do
  let (addr, size) ← addrSize subcmd
  if !s.memoryRangeValid addr size then return (ascii "E01", s)
  let (values, hart) ← readMemoryBytes s.hart addr.toNat size.toNat
  return (values.flatMap hexByte, { s with hart })

def handle_M (subcmd : List Byte) : Handled := do
  let (addr, size, hexstring) ← addrSizeHex subcmd
  if !s.memoryRangeValid addr size then return (ascii "E01", s)
  if size * 2 ≠ hexstring.length then return (ascii "E01", s)
  match fromHex hexstring with
  | none => return (ascii "E01", s)
  | some dataBytes =>
    let hart ← writeMemoryBytes s.hart addr.toNat dataBytes
    return (ascii "OK", { s with hart })

def handle_X (subcmd : List Byte) : Handled :=
  match subcmd.idxOf? 0x3a with
  | none => some (ascii "E01", s)
  | some colon => do
    let binaryData := subcmd.drop (colon + 1)
    let (addr, size) ← addrSize (subcmd.take colon)
    if size = 0 then return (ascii "OK", s)
    if !s.memoryRangeValid addr size then return (ascii "E01", s)
    let dataBytes := binaryData.take size.toNat
    if dataBytes.length ≠ size.toNat then return (ascii "E01", s)
    let hart ← writeMemoryBytes s.hart addr.toNat dataBytes
    return (ascii "OK", { s with hart })

def handle_Z (subcmd : List Byte) : Handled :=
  match kindAddrSize subcmd with
  | none => some (ascii "E01", s)
  | some (kind, addr, size) =>
    if kind ≠ ascii "0" then some ([], s)
    else if !s.memoryRangeValid addr size then some (ascii "E01", s)
    else if (s.breakpoints.lookup addr.toNat).isSome then some (ascii "OK", s)
    else do
      let (values, hart) ← readMemoryBytes s.hart addr.toNat size.toNat
      let original := values.map (BitVec.setWidth 8)
      let hart ← writeMemoryBytes hart addr.toNat (ebreakBytes.take size.toNat)
      return (ascii "OK", { s with hart, breakpoints := (addr.toNat, original) :: s.breakpoints })

def handle_z (subcmd : List Byte) : Handled :=
  match kindAddrSize subcmd with
  | none => some (ascii "E01", s)
  | some (kind, addr, size) =>
    if kind ≠ ascii "0" then some ([], s)
    else if !s.memoryRangeValid addr size then some (ascii "E01", s)
    else do
      -- nothing goes back without a breakpoint there
      let original := (s.breakpoints.lookup addr.toNat).getD []
      let hart ← writeMemoryBytes s.hart addr.toNat original
      let breakpoints := s.breakpoints.filter fun b => b.1 ≠ addr.toNat
      let hart ← if breakpoints.isEmpty then updateDcsr hart (some false) none else some hart
      return (ascii "OK", { s with hart, breakpoints })

/-- The dispatch of `run_cmd` for these packets. -/
def handle (p : MemoryPacket) : Handled :=
  match p.cmd with
  | .m => s.handle_m p.subcmd
  | .M => s.handle_M p.subcmd
  | .X => s.handle_X p.subcmd
  | .Z => s.handle_Z p.subcmd
  | .z => s.handle_z p.subcmd

end RspState

end BonfireCore
