import Mc68000.Semantics.Exec

/-!
# Flow of control

Branches, calls and returns. The machine counts the calls that have not returned; a return with
none outstanding ends the program.

* `Instruction.branchDistance` -- the distance of a branch;
* `Exec.bra` … `Exec.rte` -- the operations.
-/

namespace Mc68000

/-- The distance of a branch: the low byte of the opcode or, if that is zero, the first word of the
    operation itself. -/
def Instruction.branchDistance (i : Instruction) : Long :=
  if i.opcode.setWidth 8 = 0#8 then i.extension.word.displacement else i.opcode.byteDisplacement

namespace Exec

/-- Branches always: `BRA`. -/
def bra (i : Instruction) : Exec Unit := branch i i.branchDistance

/-- Pushes the address past an instruction and counts the call. -/
def call (i : Instruction) : Exec Unit := do
  pushLong i.nextAddress
  modify fun m => { m with callDepth := m.callDepth + 1 }

/-- Calls at a distance: `BSR`. -/
def bsr (i : Instruction) : Exec Unit := do
  call i
  branch i i.branchDistance

/-- Branches if the condition holds: `Bcc`. -/
def bcc (i : Instruction) : Exec Unit := do
  if ← holds (Condition.ofOpcode i.opcode) then
    branch i i.branchDistance

/-- Falls through if the condition holds; else counts the low word of a data register down
    and branches until it has passed zero: `DBcc`. -/
def dbcc (i : Instruction) : Exec Unit := do
  if ← holds (Condition.ofOpcode i.opcode) then
    return ()
  let counter := Size.word.truncate ((← readData i.lowRegister) - 1)
  writeData i.lowRegister counter .word
  if counter ≠ 0xFFFF then
    branch i (wordDistance i)

/-- Jumps to the address of an operand: `JMP`. -/
def jmp (i : Instruction) : Exec Unit := do
  let target ← control i.source
  jump target

/-- Calls the address of an operand, found before the push: `JSR`. -/
def jsr (i : Instruction) : Exec Unit := do
  let target ← control i.source
  call i
  jump target

/-- Returns from a call; with none outstanding, ends the program: `RTS`. -/
def rts : Exec Unit := do
  if (← get).callDepth = 0 then
    modify fun m => { m with runState := .finished }
  else
    let pc ← popLong
    jump pc
    modify fun m => { m with callDepth := m.callDepth - 1 }

/-- Takes the condition codes and the program counter off the stack, and then changes both: `RTR`.
    The count of calls goes down, but not below zero. -/
def rtr : Exec Unit := do
  let codes ← popWord
  let pc ← popLong
  modifyRegisters fun r => (r.setConditions codes).setPc pc
  modify fun m => { m with callDepth := if m.callDepth = 0 then 0 else m.callDepth - 1 }

/-- Takes the status register and the program counter off the supervisor stack: `RTE`. -/
def rte : Exec Unit := do
  requireSupervisor
  let sr ← popWord
  let pc ← popLong
  modifyRegisters fun r => (r.setSr sr).setPc pc

end Exec

end Mc68000
