import Mc68000.Operation

/-!
# Cycle costs

An approximate price for each operation: what its register form costs. What an addressing mode or
an operand adds is left out.

* `CostClass` -- operations of one price;
* `CostClass.table` -- the prices;
* `Operation.costClass`, `Operation.cycles` -- the class and the price of an operation.
-/

namespace Mc68000

/-- Operations that share a price. -/
inductive CostClass where
  | nop
  | move
  | alu
  | aluImmediate
  | addressArithmetic
  | extended
  | decimal
  | shift
  | bitOp
  | multiply
  | divide
  | branch
  | jump
  | call
  | return
  | exceptionReturn
  | effectiveAddress
  | multipleTransfer
  | frame
  | register
  | status
  | testAndSet
  | chk
  | exception
  | stop
  | reset
  deriving DecidableEq, Repr

namespace CostClass

/-- The price of each class. -/
def table : List (CostClass × Nat) :=
  [(nop, 4), (move, 4), (alu, 4), (aluImmediate, 8), (addressArithmetic, 8), (extended, 4),
    (decimal, 6), (shift, 6), (bitOp, 6), (multiply, 70), (divide, 140), (branch, 10),
    (jump, 8), (call, 18), (.return, 16), (exceptionReturn, 20), (effectiveAddress, 4),
    (multipleTransfer, 12), (frame, 16), (register, 4), (status, 12), (testAndSet, 10),
    (chk, 10), (exception, 34), (stop, 4), (reset, 132)]

/-- The price that the table gives to a class. -/
def cost? (c : CostClass) : Option Nat :=
  (table.find? fun entry => entry.1 = c).map (·.2)

/-- Every class has a price. -/
theorem isSome_cost? (c : CostClass) : c.cost?.isSome = true := by
  cases c <;> rfl

/-- The price of a class. -/
def cost (c : CostClass) : Nat := c.cost?.get (isSome_cost? c)

end CostClass

namespace Operation

/-- The class of an operation. -/
def costClass : Operation → CostClass
  | nop => .nop
  | move | movea | moveq => .move
  | logic _ | arith _ | not | neg | tst | arithQuick _ => .alu
  | logicImmediate _ | arithImmediate _ => .aluImmediate
  | arithAddress _ => .addressArithmetic
  | arithExtended _ | cmpm | negx => .extended
  | decimal _ | nbcd => .decimal
  | shiftMemory _ _ | shiftRegister _ _ => .shift
  | bitStatic _ | bitDynamic _ => .bitOp
  | multiply _ => .multiply
  | divide _ => .divide
  | bra | bcc | dbcc => .branch
  | jmp => .jump
  | bsr | jsr => .call
  | rts | rtr => .return
  | rte => .exceptionReturn
  | lea | pea => .effectiveAddress
  | movem | movep => .multipleTransfer
  | link | unlk => .frame
  | exg | swap | ext | scc | clr => .register
  | logicToCcr _ | logicToSr _ | moveFromSr | moveToCcr | moveToSr | moveUsp => .status
  | tas => .testAndSet
  | chk => .chk
  | trap | trapv | illegal => .exception
  | stop => .stop
  | reset => .reset

/-- The price of one instruction. -/
def cycles (op : Operation) : Nat := op.costClass.cost

end Operation

end Mc68000
