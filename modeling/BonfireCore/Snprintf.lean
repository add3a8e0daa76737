import BonfireCore.ShiftSubtract
import BonfireCore.WriteLog
import Mathlib.Data.Nat.Digits.Defs

/-! The formatter of the SoC runtime, on a machine whose `int`, `long` and pointers have 32
bits: what it writes to the buffer and the length it returns. -/
namespace BonfireCore

abbrev CChar := BitVec 8

/-- The characters of a literal. -/
def literal (s : List Char) : List CChar := s.map fun c => BitVec.ofNat 8 c.toNat

/-- A NUL-terminated string: what stands before the NUL. -/
structure CString where
  chars : List CChar
  nonzero : ∀ c ∈ chars, c ≠ 0

/-- An argument as it was passed; `unsigned` has the representation of its signed type. -/
inductive VaArg
  | int (value : BitVec 32)
  | long (value : BitVec 32)
  | pointer (value : BitVec 32)
  | string (value : CString)

namespace Snprintf

def sizeofInt : ℕ := 4
def sizeofLong : ℕ := 4

/-- `pos`, and the writes to `out`, the newest first. -/
structure Out where
  pos : BitVec 32 := 0
  writes : List (BitVec 32 × CChar) := []

section Output
variable (n : BitVec 32) (s : Out)

def putChar (c : CChar) : Out :=
  let pos := s.pos + 1
  { pos := pos, writes := if pos < n then (pos - 1, c) :: s.writes else s.writes }

def putAll (cs : List CChar) : Out := cs.foldl (putChar n) s

def putString (value : CString) : Out := putAll n s value.chars

def divmod10 (value : BitVec 32) : BitVec 32 × BitVec 32 := ShiftSubtract.divMod value 10

theorem divmod10_eq (value : BitVec 32) :
    (divmod10 value).1.toNat = value.toNat / 10 ∧ (divmod10 value).2.toNat = value.toNat % 10 :=
  ShiftSubtract.divMod_eq value 10 (by decide)

/-- `digits[i]`. -/
def digit (i : BitVec 32) : CChar :=
  (literal ['0', '1', '2', '3', '4', '5', '6', '7', '8', '9', 'a', 'b', 'c', 'd', 'e', 'f']).getD
    i.toNat 0

/-- `buffer` after the loop of `put_unsigned`: the last digit first. -/
def decimalBuffer (value : BitVec 32) : List CChar :=
  digit (divmod10 value).2 ::
    if (divmod10 value).1 ≠ 0 then decimalBuffer (divmod10 value).1 else []
termination_by value.toNat
decreasing_by
  rename_i h
  have hpos : 0 < (divmod10 value).1.toNat :=
    Nat.pos_of_ne_zero fun h0 => h (BitVec.eq_of_toNat_eq h0)
  have hdiv := (divmod10_eq value).1
  omega

/-- The hexadecimal digits, the first one at the top. -/
def hexDigits (value : BitVec 32) (width : ℕ) : List CChar :=
  (List.range width).reverse.map fun i => digit (value >>> (4 * i) &&& 0x0f)

def putUnsigned (value : BitVec 32) (base : ℕ) (prefixHex longarg : Bool) : Out :=
  let s := if prefixHex then putAll n s (literal ['0', 'x']) else s
  if base = 16 then
    putAll n s (hexDigits value (2 * if longarg then sizeofLong else sizeofInt))
  else putAll n s (decimalBuffer value).reverse

end Output

section Arguments

def vaInt : List VaArg → Option (BitVec 32 × List VaArg)
  | .int v :: args => some (v, args)
  | _ => none

def vaLong : List VaArg → Option (BitVec 32 × List VaArg)
  | .long v :: args => some (v, args)
  | _ => none

def vaPointer : List VaArg → Option (BitVec 32 × List VaArg)
  | .pointer v :: args => some (v, args)
  | _ => none

def vaString : List VaArg → Option (CString × List VaArg)
  | .string v :: args => some (v, args)
  | _ => none

/-- `longarg ? va_arg(args, long) : va_arg(args, int)`. -/
def vaNumber (longarg : Bool) (args : List VaArg) : Option (BitVec 32 × List VaArg) :=
  if longarg then vaLong args else vaInt args

end Arguments

/-- The variables of `vsnprintf`. -/
structure State where
  inFormat : Bool := false
  longarg : Bool := false
  out : Out := {}
  args : List VaArg

/-- The end of a conversion. -/
def State.done (s : State) (out : Out) (args : List VaArg) : State :=
  { s with inFormat := false, longarg := false, out := out, args := args }

section Format
variable (n : BitVec 32)

/-- One turn of the loop over the format; `none`: `va_arg` finds no argument of the type. -/
def step (s : State) (c : CChar) : Option State :=
  if !s.inFormat then
    if c = 0x25 then some { s with inFormat := true } -- '%'
    else some { s with out := putChar n s.out c }
  else if c = 0x6c then some { s with longarg := true } -- 'l'
  else if c = 0x70 then -- 'p'
    (vaPointer s.args).map fun (v, args) => s.done (putUnsigned n s.out v 16 true true) args
  else if c = 0x78 then -- 'x'
    (vaNumber s.longarg s.args).map fun (v, args) =>
      s.done (putUnsigned n s.out v 16 false s.longarg) args
  else if c = 0x75 then -- 'u'
    (vaNumber s.longarg s.args).map fun (v, args) =>
      s.done (putUnsigned n s.out v 10 false s.longarg) args
  else if c = 0x64 then -- 'd'
    (vaNumber s.longarg s.args).map fun (v, args) =>
      if v.slt 0 then
        s.done (putUnsigned n (putChar n s.out 0x2d) (-v) 10 false s.longarg) args
      else s.done (putUnsigned n s.out v 10 false s.longarg) args
  else if c = 0x73 then -- 's'
    (vaString s.args).map fun (v, args) => s.done (putString n s.out v) args
  else if c = 0x63 then -- 'c'
    (vaInt s.args).map fun (v, args) => s.done (putChar n s.out (v.setWidth 8)) args
  else if c = 0x25 then some (s.done (putChar n s.out 0x25) s.args) -- '%'
  else some (s.done s.out s.args)

/-- The NUL behind the output, or at the end of the buffer. -/
def terminate (s : Out) : Out :=
  if s.pos < n then { s with writes := (s.pos, 0) :: s.writes }
  else if n ≠ 0 then { s with writes := (n - 1, 0) :: s.writes }
  else s

/-- The writes to `out` and the value returned. -/
def vsnprintf (format : CString) (args : List VaArg) : Option (List (BitVec 32 × CChar) × ℤ) :=
  (format.chars.foldlM (step n) { args := args }).map fun s =>
    ((terminate n s.out).writes, s.out.pos.toInt)

end Format
end Snprintf
end BonfireCore
