import Mc68000.Status

/-!
# Conditions

The sixteen conditions that branches, `Scc` and `DBcc` test.

* `Condition.ofField`, `Condition.ofOpcode` -- the condition of a four-bit field;
* `Condition.holds` -- its meaning on the condition codes;
* `Condition.suffix` -- its assembler suffix.
-/

namespace Mc68000

/-- A test on the condition codes. -/
inductive Condition where
  | always
  | never
  | higher
  | lowerOrSame
  | carryClear
  | carrySet
  | notEqual
  | equal
  | overflowClear
  | overflowSet
  | plus
  | minus
  | greaterOrEqual
  | lessThan
  | greaterThan
  | lessOrEqual
  deriving DecidableEq, Repr

namespace Condition

/-- The condition of a four-bit field. -/
def ofField (f : BitVec 4) : Condition :=
  match f.toNat with
  | 0 => always
  | 1 => never
  | 2 => higher
  | 3 => lowerOrSame
  | 4 => carryClear
  | 5 => carrySet
  | 6 => notEqual
  | 7 => equal
  | 8 => overflowClear
  | 9 => overflowSet
  | 10 => plus
  | 11 => minus
  | 12 => greaterOrEqual
  | 13 => lessThan
  | 14 => greaterThan
  | _ => lessOrEqual

/-- The condition that an opcode carries in bits 11 to 8. -/
def ofOpcode (opcode : Word) : Condition := ofField (opcode.extractLsb' 8 4)

/-- Whether the condition holds of the condition codes of a status register. Higher and lower
    compare unsigned numbers, greater and less two's-complement ones. -/
def holds (condition : Condition) (sr : Word) : Bool :=
  let c := Status.hasFlag sr Status.carry
  let v := Status.hasFlag sr Status.overflow
  let z := Status.hasFlag sr Status.zero
  let n := Status.hasFlag sr Status.negative
  match condition with
  | always => true
  | never => false
  | higher => !c && !z
  | lowerOrSame => c || z
  | carryClear => !c
  | carrySet => c
  | notEqual => !z
  | equal => z
  | overflowClear => !v
  | overflowSet => v
  | plus => !n
  | minus => n
  | greaterOrEqual => n == v
  | lessThan => n != v
  | greaterThan => !z && n == v
  | lessOrEqual => z || n != v

/-- The assembler suffix. -/
def suffix : Condition → String
  | always => "T"
  | never => "F"
  | higher => "HI"
  | lowerOrSame => "LS"
  | carryClear => "CC"
  | carrySet => "CS"
  | notEqual => "NE"
  | equal => "EQ"
  | overflowClear => "VC"
  | overflowSet => "VS"
  | plus => "PL"
  | minus => "MI"
  | greaterOrEqual => "GE"
  | lessThan => "LT"
  | greaterThan => "GT"
  | lessOrEqual => "LE"

end Condition

end Mc68000
