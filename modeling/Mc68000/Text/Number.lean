import Mc68000.Word
import Mc68000.Text.Digits

/-!
# Numbers that a user writes

`Number.parse?` reads an address or a count: base sixteen after `$`, `0x` or `0X`, base ten
otherwise. One plus sign may stand in front of the digits, and the number has to fit 32 bits.
-/

namespace Mc68000.Number

/-- Reads digits behind at most one plus sign. -/
def ofDigits? (base : Nat) (digit? : Char → Option Nat) (cs : List Char) : Option (BitVec 32) :=
  let digits :=
    match cs with
    | '+' :: rest => rest
    | _ => cs
  match Digits.value? base digit? digits with
  | some n => if n < Long.count then some (BitVec.ofNat 32 n) else none
  | none => none

/-- Reads a number in base sixteen. -/
def ofHex? (cs : List Char) : Option (BitVec 32) := ofDigits? 16 Digits.ofHexChar? cs

/-- Reads a number in base ten. -/
def ofDecimal? (cs : List Char) : Option (BitVec 32) := ofDigits? 10 Digits.ofDecimalChar? cs

/-- Reads a number in the base that its first characters tell. -/
def parseChars? (cs : List Char) : Option (BitVec 32) :=
  match cs with
  | '$' :: rest => ofHex? rest
  | '0' :: 'x' :: rest => ofHex? rest
  | '0' :: 'X' :: rest => ofHex? rest
  | _ => ofDecimal? cs

/-- Reads a number in the base that its first characters tell. -/
def parse? (text : String) : Option (BitVec 32) := parseChars? text.toList

end Mc68000.Number
