import Mc68000.FlagChange
import Mc68000.Operation

/-!
# Shifts and rotates

* `ShiftStep` -- a value on its way, with the flags that a shift keeps track of;
* `ShiftStep.next` -- one bit further;
* `ShiftStep.iterate` -- any number of bits;
* `shift` -- the value and the status register after a shift.
-/

namespace Mc68000

/-- A value in the middle of a shift. -/
structure ShiftStep where
  value : Long
  /-- The extend flag as the rotates through it see it. -/
  extend : Bool
  /-- The bit that went out last. -/
  carry : Bool
  /-- Whether an arithmetic left shift has changed the sign. -/
  overflow : Bool
  deriving DecidableEq, Repr

namespace ShiftStep

/-- The bit that goes out next. -/
def out (direction : Direction) (size : Size) (v : Long) : Bool :=
  match direction with
  | .left => size.isNegative v
  | .right => v.getLsbD 0

/-- The bit that comes in at the free end. -/
def fill (kind : ShiftKind) (direction : Direction) (size : Size) (s : ShiftStep) : Bool :=
  match kind, direction with
  | .arithmetic, .right => size.isNegative s.value
  | .arithmetic, .left => false
  | .logical, _ => false
  | .rotate, _ => out direction size s.value
  | .rotateExtend, _ => s.extend

/-- A value moved by one bit, with the given bit at the free end. -/
def move (direction : Direction) (size : Size) (v : Long) (bit : Bool) : Long :=
  match direction with
  | .left => size.truncate (v <<< 1) ||| (if bit then 1 else 0)
  | .right => (v >>> 1) ||| (if bit then size.signBit else 0)

/-- One bit further. -/
def next (kind : ShiftKind) (direction : Direction) (size : Size) (s : ShiftStep) : ShiftStep :=
  let out := out direction size s.value
  let value := move direction size s.value (fill kind direction size s)
  { value
    extend := if kind = .rotateExtend then out else s.extend
    carry := out
    overflow := s.overflow ||
      (kind = .arithmetic && direction = .left &&
        (size.isNegative s.value != size.isNegative value)) }

/-- Any number of bits further. -/
def iterate (kind : ShiftKind) (direction : Direction) (size : Size) :
    Nat → ShiftStep → ShiftStep
  | 0, s => s
  | count + 1, s => iterate kind direction size count (next kind direction size s)

/-- Before the first bit. A rotate through the extend flag starts with that flag as its carry. -/
def start (kind : ShiftKind) (size : Size) (v : Long) (sr : Word) : ShiftStep :=
  let extend := Status.hasFlag sr Status.extend
  { value := size.truncate v, extend, carry := kind = .rotateExtend && extend, overflow := false }

end ShiftStep

/-- The value and the status register after a shift. C is the bit that went out last; X follows it
    unless the shift is a plain rotate or by no bits. -/
def shift (kind : ShiftKind) (direction : Direction) (size : Size) (v : Long) (count : Nat)
    (sr : Word) : Long × Word :=
  let s := ShiftStep.iterate kind direction size count (ShiftStep.start kind size v sr)
  let sr :=
    if 0 < count && kind ≠ .rotate then Status.setFlag sr Status.extend s.carry else sr
  (s.value, Status.withNzvc sr size s.value s.overflow s.carry)

end Mc68000
