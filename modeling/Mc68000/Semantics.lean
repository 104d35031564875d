import Mc68000.Semantics.Transfer
import Mc68000.Semantics.MultipleTransfer
import Mc68000.Semantics.Bitwise
import Mc68000.Semantics.Flow
import Mc68000.Semantics.System

/-!
# The meaning of an instruction

`Instruction.execute` is what an instruction does once the program counter has moved past it.
-/

namespace Mc68000

/-- What an instruction does. The program counter is already past it. -/
def Instruction.execute (i : Instruction) : Exec Unit :=
  match i.operation with
  | .logicToCcr op => Exec.logicToCcr op i
  | .logicToSr op => Exec.logicToSr op i
  | .logicImmediate op => Exec.logicImmediate op i
  | .logic op => Exec.logic op i
  | .not => Exec.not i
  | .tst => Exec.tst i
  | .tas => Exec.tas i
  | .bitStatic op => Exec.bitStatic op i
  | .bitDynamic op => Exec.bitDynamic op i
  | .arithImmediate op => Exec.arithImmediate op i
  | .arith op => Exec.arith op i
  | .arithAddress op => Exec.arithAddress op i
  | .arithQuick op => Exec.arithQuick op.arith i
  | .arithExtended op => Exec.arithExtended op.arith i
  | .cmpm => Exec.cmpm i
  | .neg => Exec.neg i
  | .negx => Exec.negx i
  | .multiply s => Exec.multiply s i
  | .divide s => Exec.divide s i
  | .decimal op => Exec.decimal op i
  | .nbcd => Exec.nbcd i
  | .shiftMemory kind direction => Exec.shiftMemory kind direction i
  | .shiftRegister kind direction => Exec.shiftRegister kind direction i
  | .move => Exec.move i
  | .movea => Exec.movea i
  | .moveq => Exec.moveq i
  | .moveFromSr => Exec.moveFromSr i
  | .moveToCcr => Exec.moveToCcr i
  | .moveToSr => Exec.moveToSr i
  | .moveUsp => Exec.moveUsp i
  | .movep => Exec.movep i
  | .movem => Exec.movem i
  | .clr => Exec.clr i
  | .ext => Exec.ext i
  | .swap => Exec.swap i
  | .exg => Exec.exg i
  | .lea => Exec.lea i
  | .pea => Exec.pea i
  | .link => Exec.link i
  | .unlk => Exec.unlk i
  | .scc => Exec.scc i
  | .bra => Exec.bra i
  | .bsr => Exec.bsr i
  | .bcc => Exec.bcc i
  | .dbcc => Exec.dbcc i
  | .jmp => Exec.jmp i
  | .jsr => Exec.jsr i
  | .rts => Exec.rts
  | .rtr => Exec.rtr
  | .rte => Exec.rte
  | .trap => Exec.trap i
  | .trapv => Exec.trapv
  | .illegal => throw .illegalInstruction
  | .chk => Exec.chk i
  | .stop => Exec.stop i
  | .reset => Exec.reset
  | .nop => return ()

end Mc68000
