import Mc68000.Semantics.Bitwise

/-!
# Status register, traps and processor control

* `Exec.logicToCcr` … `Exec.moveToCcr` -- the condition codes and the status register as operands;
* `Exec.moveUsp` -- the user stack pointer in supervisor mode;
* `Exec.trap`, `trapv`, `chk` -- traps that a program asks for;
* `Exec.stop`, `Exec.reset` -- the processor as a whole.

In user mode a privileged operation traps before it does anything else.
-/

namespace Mc68000.Exec

/-! ## 1. Status register -/

/-- Combines the condition codes with a literal: `ORI`, `ANDI`, `EORI`. -/
def logicToCcr (op : LogicOp) (i : Instruction) : Exec Unit :=
  modifyRegisters fun r => r.setConditions (op.combine r.conditions i.extension.word)

/-- Combines the status register with a literal: `ORI`, `ANDI`, `EORI`. -/
def logicToSr (op : LogicOp) (i : Instruction) : Exec Unit := do
  requireSupervisor
  modifyRegisters fun r => r.setSr (op.combine r.sr i.extension.word)

/-- Writes the status register to an operand: `MOVE`. Any mode may do this. -/
def moveFromSr (i : Instruction) : Exec Unit := do
  let dst ← destination i
  let sr ← status
  write dst .word (sr.setWidth 32)

/-- Takes the condition codes from a byte: `MOVE`. -/
def moveToCcr (i : Instruction) : Exec Unit := do
  let src ← source i
  let v ← read src .byte
  modifyRegisters (·.setConditions (v.setWidth 16))

/-- Takes the status register from a word: `MOVE`. -/
def moveToSr (i : Instruction) : Exec Unit := do
  requireSupervisor
  let src ← source i
  let v ← read src .word
  modifyRegisters (·.setSr (v.setWidth 16))

/-- Copies the user stack pointer to or from an address register: `MOVE`. Opcode bit 3 tells. -/
def moveUsp (i : Instruction) : Exec Unit := do
  requireSupervisor
  if i.opcode.getLsbD 3 then
    modifyRegisters fun r => r.writeAddress i.lowRegister r.usp .long
  else
    modifyRegisters fun r => { r with usp := r.readAddress i.lowRegister }

/-! ## 2. Traps -/

/-- Traps always: `TRAP`. -/
def trap (i : Instruction) : Exec Unit := throw (.software (i.opcode.setWidth 4 |>.setWidth 8))

/-- Traps if the overflow flag is set: `TRAPV`. -/
def trapv : Exec Unit := do
  if (← registers).flag Status.overflow then throw .trapvOverflow

/-- Traps unless the low word of a data register lies between zero and a bound: `CHK`. N tells on
    which side it lies outside. -/
def chk (i : Instruction) : Exec Unit := do
  let src ← source i
  let bound := (Size.word.signExtend (← read src .word)).toInt
  let v := (Size.word.signExtend (← readData i.highRegister)).toInt
  if v < 0 then
    setFlag Status.negative true
    throw .chkBounds
  if bound < v then
    setFlag Status.negative false
    throw .chkBounds

/-! ## 3. Processor control -/

/-- Loads the status register, which must keep supervisor mode, and waits for the host: `STOP`. -/
def stop (i : Instruction) : Exec Unit := do
  requireSupervisor
  let sr := i.extension.word
  if !Status.hasFlag sr Status.supervisor then throw .privilegeViolation
  modifyRegisters (·.setSr sr)
  modify fun m => { m with runState := .stopped }

/-- Does nothing but ask for supervisor mode, for there is no device to reset: `RESET`. -/
def reset : Exec Unit := requireSupervisor

end Mc68000.Exec
