import Mc68000.Size
import Mc68000.Status

/-!
# Changes of the condition codes

* `FlagChange` -- what an instruction does to the condition codes, with the values it depends on;
* `FlagChange.apply` -- the status register afterwards;
* `Status.withNzvc` -- the four flags that nearly every instruction sets.

Carry and overflow are read off the sign bits of the operands and of the result.
-/

namespace Mc68000

/-- The status register with N and Z from a sized result and with given V and C. -/
def Status.withNzvc (sr : Word) (size : Size) (result : Long) (overflowed carried : Bool) : Word :=
  let sr := setFlag sr negative (size.isNegative result)
  let sr := setFlag sr zero (size.truncate result = 0)
  let sr := setFlag sr overflow overflowed
  setFlag sr carry carried

/-- What an instruction does to the condition codes. -/
inductive FlagChange where
  /-- Nothing. -/
  | none
  /-- N and Z from the result, V and C clear, X stays. -/
  | logical (result : Long)
  /-- The flags of `dst + src` with an extend bit added or not; X follows C. -/
  | add (src dst result : Long)
  /-- The flags of `dst - src` with an extend bit subtracted or not; X follows C. -/
  | sub (src dst result : Long)
  /-- The flags of `dst - src`; X stays. -/
  | compare (src dst result : Long)
  /-- The flags of `0 - src`: C and X unless the result is zero. -/
  | negate (src result : Long)
  /-- The flags of `0 - src` less the extend bit: C and X if a sign bit is set. -/
  | negateExtended (src result : Long)
  deriving DecidableEq, Repr

namespace FlagChange

/-- The carry of a sum with the given signs. -/
def addCarry (s d r : Bool) : Bool := (s && d) || (s && !r) || (d && !r)

/-- The overflow of a sum with the given signs. -/
def addOverflow (s d r : Bool) : Bool := s == d && s != r

/-- The borrow of a difference with the given signs. -/
def subCarry (s d r : Bool) : Bool := (s && r) || (s && !d) || (!d && r)

/-- The overflow of a difference with the given signs. -/
def subOverflow (s d r : Bool) : Bool := s == r && d != r

/-- The status register after a change for an operation of a size. -/
def apply (change : FlagChange) (size : Size) (sr : Word) : Word :=
  let sign := size.isNegative
  match change with
  | none => sr
  | logical result => Status.withNzvc sr size result false false
  | add src dst result =>
    let carried := addCarry (sign src) (sign dst) (sign result)
    let overflowed := addOverflow (sign src) (sign dst) (sign result)
    Status.setFlag (Status.withNzvc sr size result overflowed carried) Status.extend carried
  | sub src dst result =>
    let carried := subCarry (sign src) (sign dst) (sign result)
    let overflowed := subOverflow (sign src) (sign dst) (sign result)
    Status.setFlag (Status.withNzvc sr size result overflowed carried) Status.extend carried
  | compare src dst result =>
    let carried := subCarry (sign src) (sign dst) (sign result)
    let overflowed := subOverflow (sign src) (sign dst) (sign result)
    Status.withNzvc sr size result overflowed carried
  | negate src result =>
    let carried : Bool := size.truncate result ≠ 0
    let overflowed := sign src && sign result
    Status.setFlag (Status.withNzvc sr size result overflowed carried) Status.extend carried
  | negateExtended src result =>
    let carried := sign src || sign result
    let overflowed := sign src && sign result
    Status.setFlag (Status.withNzvc sr size result overflowed carried) Status.extend carried

end FlagChange

end Mc68000
