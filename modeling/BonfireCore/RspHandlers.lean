import BonfireCore.RspMemory

/-! The other packets of the GDB server, and `run_cmd` over all of them. The core is halted;
what a resumed or reset core comes to is left open. -/
namespace BonfireCore

/-- The handler between two packets. -/
structure GdbState extends RspState where
  pendingResumeAddr : Option ℤ := none

/-- The messages that a handler sends and the state after it; `none` when it raises. -/
abbrev Replies := Option (List (List Byte) × GdbState)

/-- What the core does on its own. -/
structure CoreControl where
  requestResume : HaltedHart → HaltedHart
  resetCore : HaltedHart → HaltedHart
  /-- `handle_c` and `handle_s`, which wait for the core to halt. -/
  resume : (step : Bool) → GdbState → List Byte → Replies

/-- `struct.pack('<I', value)`. -/
def pack (value : Word) : List Byte := (List.range 4).map fun i => value.extractLsb' (8 * i) 8

/-- `int.from_bytes(raw, byteorder='little')`. -/
def fromLittle : List Byte → ℕ
  | [] => 0
  | b :: raw => b.toNat + 256 * fromLittle raw

/-- `data.hex().upper()`. -/
def hexText (data : List Byte) : List Byte := data.flatMap fun b => hexByte (b.setWidth 32)

/-- `data.decode('ascii', errors='replace')`. -/
def decodeAscii (data : List Byte) : List Char :=
  data.map fun b => if b < 0x80 then Char.ofNat b.toNat else '\uFFFD'

/-- `_hex_encode_text`. -/
def hexEncodeText (text : List Char) : List Byte :=
  hexText (text.map fun c => if c.toNat < 0x80 then BitVec.ofNat 8 c.toNat else 0x3f)

/-- White space of an ASCII string, as `strip` sees it. -/
def isSpaceAscii (c : Char) : Bool :=
  9 ≤ c.toNat && c.toNat ≤ 13 || 28 ≤ c.toNat && c.toNat ≤ 32

/-- `text.strip().lower()`. -/
def stripLower (text : List Char) : List Char :=
  ((text.dropWhile isSpaceAscii).rdropWhile isSpaceAscii).map Char.toLower

def startsWith (s text : List Byte) : Bool := text.isPrefixOf s

/-- `checksum` and `send`. -/
def send (msg : List Byte) : List Byte :=
  let checksum := msg.sum
  0x24 :: msg ++ 0x23 :: [hexDigit false ⟨checksum.toNat / 16, by have := checksum.isLt; omega⟩,
    hexDigit false ⟨checksum.toNat % 16, Nat.mod_lt _ (by decide)⟩]

/-- The registers `x1` to `x31`. -/
def gprs : List (BitVec 5) := (List.range' 1 31).map (BitVec.ofNat 5)

def dpc : BitVec 12 := 0x7b1

/-- `regnum, value = s.split('=')` with both as numbers. -/
def regnumValue (text : List Byte) : Option (ℤ × ℤ) :=
  match text.splitOn 0x3d with
  | [regnum, value] => do return (← int16 regnum, ← int16 value)
  | _ => none

/-- The first action of `vCont`, without its thread. -/
def vContAction (actions : List Byte) : List Byte :=
  (((actions.splitOn 0x3b).headD []).splitOn 0x3a).headD []

namespace GdbState
variable (core : CoreControl) (s : GdbState) (subcmd : List Byte)

/-- Sends one message. -/
def reply (msg : List Byte) : Replies := some ([msg], s)

def handle_q : Replies :=
  if startsWith subcmd (ascii "Supported") then s.reply (ascii "PacketSize=1000;swbreak+")
  -- the core is halted already
  else if startsWith subcmd (ascii "Attached") then s.reply (ascii "0")
  else if startsWith subcmd (ascii "C") then s.reply (ascii "QC0")
  else if startsWith subcmd (ascii "Rcmd,") then
    match fromHex (subcmd.drop 5) with
    | none => s.reply (ascii "E01")
    | some data =>
      let cmdText := stripLower (decodeAscii data)
      if cmdText = "halt".toList then s.reply (ascii "OK")
      else if cmdText = "resume".toList then
        reply { s with hart := core.requestResume s.hart } (hexEncodeText "Core resumed\n".toList)
      else if cmdText = "reset".toList then
        reply { s with hart := core.resetCore s.hart, pendingResumeAddr := some 0 } (ascii "OK")
      else s.reply (hexEncodeText ("Unknown monitor command: ".toList ++ cmdText ++ ['\n']))
  else s.reply []

def handle_h : Replies := s.reply (ascii "OK")

def handle_qmark : Replies := s.reply (ascii "S05")

/-- The loop over `readGPR`. -/
def readGprs (h : HaltedHart) : List (BitVec 5) → Option (List Word × HaltedHart)
  | [] => some ([], h)
  | regno :: rest => do
    let (value, h) ← DebugApi.readGPR h regno
    let (values, h) ← readGprs h rest
    return (value :: values, h)

def handle_g : Replies :=
  if subcmd = [] then do
    let (values, hart) ← readGprs s.hart gprs
    let (pc, hart) ← DebugApi.readCSR hart dpc CSR_SCRATCH_GPR
    let registers := 0 :: values ++ [pc]
    reply { s with hart } (registers.flatMap fun r => hexText (pack r))
  else some ([], s)

def handle_P : Replies := do
  let (regnum, value) ← regnumValue subcmd
  if 0 ≤ regnum ∧ regnum < 32 then
    let hart ← DebugApi.writeReg s.hart (BitVec.ofInt 5 regnum) (BitVec.ofInt 32 value) false true
    reply { s with hart } (ascii "OK")
  else if regnum = 32 then
    let hart ← DebugApi.writeCSR s.hart dpc (BitVec.ofInt 32 value) CSR_SCRATCH_GPR
    reply { s with hart, pendingResumeAddr := none } (ascii "OK")
  else s.reply (ascii "E01")

/-- The values that `G` carries. -/
def registerValues : Option (List ℕ) :=
  (List.range 33).mapM fun i => (fromHex ((subcmd.drop (8 * i)).take 8)).map fromLittle

/-- The loop over `writeReg`. -/
def writeGprs (h : HaltedHart) : List (BitVec 5 × ℕ) → Option HaltedHart
  | [] => some h
  | (regno, value) :: rest => do
    let h ← DebugApi.writeReg h regno (BitVec.ofNat 32 value) false true
    writeGprs h rest

def handle_G : Replies :=
  if subcmd.length < 33 * 8 then s.reply (ascii "E01")
  else
    match registerValues subcmd with
    | none => s.reply (ascii "E01")
    | some values => do
      let hart ← writeGprs s.hart (gprs.zip values.tail)
      let hart ← DebugApi.writeCSR hart dpc (BitVec.ofNat 32 (values.getD 32 0)) CSR_SCRATCH_GPR
      reply { s with hart, pendingResumeAddr := none } (ascii "OK")

/-- A handler of the memory packets. -/
def lift (handled : RspState.Handled) : Replies :=
  handled.map fun (msg, memoryState) => ([msg], { s with toRspState := memoryState })

def handle_D : Replies := s.reply (ascii "OK")

def handle_v : Replies :=
  if subcmd = ascii "Cont?" then s.reply (ascii "vCont;c;s")
  else if startsWith subcmd (ascii "Cont;") then
    let action := vContAction (subcmd.drop 5)
    if action = ascii "c" then core.resume false s []
    else if action = ascii "s" then core.resume true s []
    else s.reply []
  else s.reply []

/-- The handler of a command character. -/
def dispatchers (cmd : Byte) : Option Replies :=
  match cmd with
  | 0x71#8 => some (s.handle_q core subcmd)
  | 0x48#8 => some s.handle_h
  | 0x3f#8 => some s.handle_qmark
  | 0x67#8 => some (s.handle_g subcmd)
  | 0x47#8 => some (s.handle_G subcmd)
  | 0x6d#8 => some (s.lift (s.handle_m subcmd))
  | 0x73#8 => some (core.resume true s subcmd)
  | 0x63#8 => some (core.resume false s subcmd)
  | 0x4d#8 => some (s.lift (s.handle_M subcmd))
  | 0x58#8 => some (s.lift (s.handle_X subcmd))
  | 0x50#8 => some (s.handle_P subcmd)
  | 0x5a#8 => some (s.lift (s.handle_Z subcmd))
  | 0x7a#8 => some (s.lift (s.handle_z subcmd))
  | 0x44#8 => some s.handle_D
  | 0x76#8 => some (s.handle_v core subcmd)
  | _ => none -- `k` too

/-- The body of `run_cmd`, with what goes to the client in order. -/
def gdbBody : CommandBody GdbState (List (List Byte))
  | _, .packet [] => (none, []) -- `pkt[0]` raises
  | s, .packet (cmd :: subcmd) =>
    match (s.dispatchers core subcmd cmd).getD (s.reply []) with
    | none => (none, [ascii "+"])
    | some (msgs, s') => (some s', ascii "+" :: msgs.map send)
  | s, .break => (some s, [send (ascii "T05")])

end GdbState
end BonfireCore
