import Mc68000.Word

/-!
# The status register

The low byte holds the condition codes, the high byte the system flags:

    15  T  trace            4  X  extend
    13  S  supervisor       3  N  negative
    10-8   interrupt mask   2  Z  zero
                            1  V  overflow
                            0  C  carry

* `Status.carry` … `Status.trace` -- the flags, each as the word with its bit set;
* `Status.implemented` -- the bits that exist; the others read as zero;
* `Status.setFlag`, `Status.hasFlag`, `Status.ofWord`, `Status.withConditions` -- one flag, the
  whole register, the condition codes alone;
* `Status.flagNames` -- the names of the flags that are set.
-/

namespace Mc68000.Status

/-! ## 1. The bits -/

/-- C: carry or borrow. -/
def carry : Word := 0x0001

/-- V: two's-complement overflow. -/
def overflow : Word := 0x0002

/-- Z: the result is zero. -/
def zero : Word := 0x0004

/-- N: the result is negative. -/
def negative : Word := 0x0008

/-- X: the carry kept for extended arithmetic. -/
def extend : Word := 0x0010

/-- The interrupt mask, three bits. -/
def interruptMask : Word := 0x0700

/-- S: supervisor mode. -/
def supervisor : Word := 0x2000

/-- T: trace mode. -/
def trace : Word := 0x8000

/-- The five condition codes. -/
def conditions : Word := carry ||| overflow ||| zero ||| negative ||| extend

/-- The bits that exist. -/
def implemented : Word := trace ||| supervisor ||| interruptMask ||| conditions

/-! ## 2. Reading and writing -/

/-- Whether every bit of `flags` is set. -/
def hasFlag (sr flags : Word) : Bool := sr &&& flags = flags

/-- The register with the bits of `flags` set, as far as they exist, or cleared. -/
def setFlag (sr flags : Word) (on : Bool) : Word :=
  if on then sr ||| (flags &&& implemented) else sr &&& ~~~flags

/-- The register that a written word leaves: bits that do not exist are dropped. -/
def ofWord (w : Word) : Word := w &&& implemented

/-- The condition codes alone. -/
def conditionsOf (sr : Word) : Word := sr &&& conditions

/-- The register with other condition codes; the system byte stays. -/
def withConditions (sr w : Word) : Word := (sr &&& ~~~conditions) ||| (w &&& conditions)

/-- The flags with their names, the most significant first. -/
def names : List (Word × String) :=
  [(trace, "Trace"), (supervisor, "Supervisor"), (extend, "Extend"), (negative, "Negative"),
    (zero, "Zero"), (overflow, "Overflow"), (carry, "Carry")]

/-- The names of the flags that are set, the most significant first. -/
def flagNames (sr : Word) : List String :=
  (names.filter fun flag => sr &&& flag.1 ≠ 0).map (·.2)

/-- A written register has no bit that does not exist. -/
theorem ofWord_ofWord (w : Word) : ofWord (ofWord w) = ofWord w := by
  simp [ofWord, BitVec.and_assoc]

end Mc68000.Status
