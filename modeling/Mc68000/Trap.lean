import Mc68000.Word
import Mc68000.Text.Digits

/-!
# Traps and failures

* `Trap` -- an exception that an instruction raises, with its vector number and its class;
* `Failure` -- what stops a request to the machine: a trap, or a request that does not fit the
  memory or the loaded code;
* `Trap.message`, `Failure.message` -- their texts;
* `run_bind` -- one action behind another, if either may fail.
-/

namespace Mc68000

/-- What kind of event a trap stands for. -/
inductive TrapClass where
  | memory
  | decode
  | arithmetic
  | privilege
  | software
  deriving DecidableEq, Repr

/-- An exception raised by an instruction. -/
inductive Trap where
  /-- An access that the bus cannot serve. -/
  | busError
  /-- An odd word or long access, or one that leaves the memory. -/
  | addressError
  /-- An opcode that stands for nothing, `ILLEGAL`, or an operand that the operation refuses. -/
  | illegalInstruction
  /-- A division by zero. -/
  | divideByZero
  /-- A register outside the bounds that `CHK` gives. -/
  | chkBounds
  /-- A `TRAPV` with the overflow flag set. -/
  | trapvOverflow
  /-- A supervisor operation in user mode. -/
  | privilegeViolation
  /-- A `TRAP #n`. -/
  | software (number : Byte)
  deriving DecidableEq, Repr

namespace Trap

/-- The first of the sixteen vectors of `TRAP #n`. -/
def softwareBase : Nat := 32

/-- The exception vector of a trap. The sixteen software traps follow one another. -/
def vector : Trap → Nat
  | busError => 2
  | addressError => 3
  | illegalInstruction => 4
  | divideByZero => 5
  | chkBounds => 6
  | trapvOverflow => 7
  | privilegeViolation => 8
  | software n => softwareBase + n.toNat % 16

/-- The trap of an exception vector. -/
def ofVector? (vector : Nat) : Option Trap :=
  match vector with
  | 2 => some busError
  | 3 => some addressError
  | 4 => some illegalInstruction
  | 5 => some divideByZero
  | 6 => some chkBounds
  | 7 => some trapvOverflow
  | 8 => some privilegeViolation
  | v =>
    if softwareBase ≤ v ∧ v < softwareBase + 16 then
      some (software (BitVec.ofNat 8 (v - softwareBase)))
    else none

/-- The class of a trap. -/
def trapClass : Trap → TrapClass
  | busError | addressError => .memory
  | illegalInstruction => .decode
  | divideByZero | chkBounds | trapvOverflow => .arithmetic
  | privilegeViolation => .privilege
  | software _ => .software

/-- The text of a trap. -/
def message : Trap → String
  | busError => "bus error"
  | addressError => "address error"
  | illegalInstruction => "illegal instruction"
  | divideByZero => "integer divide by zero"
  | chkBounds => "chk bounds violation"
  | trapvOverflow => "trapv with overflow set"
  | privilegeViolation => "privilege violation"
  | software n => "trap #" ++ Digits.decimal n.toNat

end Trap

/-- What stops a request to the machine. -/
inductive Failure where
  /-- An instruction raised a trap. -/
  | trap (trap : Trap)
  /-- A load would leave the memory. -/
  | loadOutOfRange (address : Address) (length capacity : Nat)
  /-- A range of memory leaves the memory. -/
  | rangeOutOfBounds (address : Address) (length : Nat)
  /-- A word of an instruction lies past the end of the loaded code. -/
  | pastEndOfCode (pc : Address)
  deriving DecidableEq, Repr

namespace Failure

/-- The trap behind a failure. -/
def trap? : Failure → Option Trap
  | trap t => some t
  | _ => none

/-- An address as failures show it: eight digits in lower case. -/
def addressText (a : Address) : String := "0x" ++ Digits.lowerHex 8 a.toNat

/-- The text of a failure. -/
def message : Failure → String
  | trap t => t.message ++ " (vector " ++ Digits.decimal t.vector ++ ")"
  | loadOutOfRange address length capacity =>
    "loading " ++ Digits.decimal length ++ " bytes at " ++ addressText address ++
      " exceeds memory capacity of 0x" ++ Digits.lowerHex 1 capacity ++ " bytes"
  | rangeOutOfBounds address length =>
    "memory range " ++ addressText address ++ "+0x" ++ Digits.lowerHex 1 length ++
      " is out of bounds"
  | pastEndOfCode pc =>
    "program counter " ++ addressText pc ++ " ran past the end of loaded code"

end Failure

/-- What comes behind an action goes on where the action succeeds, and only there. -/
theorem run_bind {ε σ α β : Type} (x : EStateM ε σ α) (f : α → EStateM ε σ β) (s : σ) :
    (x >>= f) s =
      match x s with
      | .ok a s' => f a s'
      | .error e s' => .error e s' := by
  show EStateM.bind x f s = _
  unfold EStateM.bind
  cases x s <;> rfl

end Mc68000
