import Mc68000.Status

/-!
# Packed decimal

A byte as two decimal digits, the tens in the high half. Bytes with a half above nine are no
numbers, but the processor computes with them all the same, and so do these functions.

* `PackedDecimal.add`, `PackedDecimal.sub` -- the byte and the carry or borrow;
* `PackedDecimal.flags` -- the status register afterwards.
-/

namespace Mc68000.PackedDecimal

/-- The high half of a byte. -/
def tens (b : Byte) : Nat := b.toNat / 16

/-- The low half of a byte. -/
def ones (b : Byte) : Nat := b.toNat % 16

/-- The byte of two halves, of which the low four bits count. -/
def pack (tens ones : Nat) : Byte := BitVec.ofNat 8 (tens % 16 * 16 + ones % 16)

/-- The digit and the carry of a sum. -/
def addDigit (n : Nat) : Nat × Bool := if n > 9 then (n - 10, true) else (n, false)

/-- Adds two bytes and a carry. -/
def add (dst src : Byte) (extend : Bool) : Byte × Bool :=
  let low := addDigit (ones dst + ones src + extend.toNat)
  let high := addDigit (tens dst + tens src + low.2.toNat)
  (pack high.1 low.1, high.2)

/-- The digit and the borrow of a difference. -/
def subDigit (z : Int) : Int × Bool := if z < 0 then (z + 10, true) else (z, false)

/-- Subtracts a byte and a borrow from a byte. -/
def sub (dst src : Byte) (extend : Bool) : Byte × Bool :=
  let low := subDigit (ones dst - ones src - extend.toNat)
  let high := subDigit (tens dst - tens src - low.2.toNat)
  (pack (high.1 % 16).toNat (low.1 % 16).toNat, high.2)

/-- The status register after decimal arithmetic: C and X are the carry, Z is cleared by a result
    other than zero and else stays, N and V stay. -/
def flags (sr : Word) (result : Byte) (carried : Bool) : Word :=
  let sr := Status.setFlag sr Status.carry carried
  let sr := Status.setFlag sr Status.extend carried
  if result = 0 then sr else Status.setFlag sr Status.zero false

end Mc68000.PackedDecimal
