import Mc68000.Machine
import Mc68000.Instruction
import Mc68000.Operand
import Mc68000.FlagChange

/-!
# Execution

What every operation is made of. An operation acts on a machine and may end in a trap; what it did
before the trap stays done.

* `Exec` -- such an action;
* `Exec.registers`, `modifyRegisters`, `readMemory`, `writeMemory` -- the parts of a machine;
* `Exec.source`, `destination`, `control` -- the operands of an instruction, resolved;
* `Exec.read`, `write` -- an operand's value;
* `Exec.pushLong`, `pushWord`, `popLong`, `popWord` -- the active stack. One that traps leaves the
  stack pointer where it was;
* `Exec.branch`, `Exec.requireSupervisor`, `Exec.changeFlags`.
-/

namespace Mc68000

/-- An action on a machine that may end in a trap. -/
abbrev Exec := EStateM Trap Machine

namespace Exec

/-! ## 1. Registers -/

/-- The registers. -/
def registers : Exec Registers := fun m => .ok m.registers m

/-- Changes the registers. -/
def modifyRegisters (f : Registers → Registers) : Exec Unit := fun m =>
  .ok () { m with registers := f m.registers }

/-- The value of a data register. -/
def readData (n : Fin 8) : Exec Long := return (← registers).readData n

/-- The value of an address register. -/
def readAddress (n : Fin 8) : Exec Long := return (← registers).readAddress n

/-- Writes the low bits of a data register. -/
def writeData (n : Fin 8) (v : Long) (size : Size) : Exec Unit :=
  modifyRegisters (·.writeData n v size)

/-- Writes a whole address register. -/
def writeAddress (n : Fin 8) (v : Long) : Exec Unit :=
  modifyRegisters (·.writeAddress n v .long)

/-- The status register. -/
def status : Exec Word := return (← registers).sr

/-- Whether the extend flag is set. -/
def extend : Exec Bool := return (← registers).flag Status.extend

/-- Whether a condition holds. -/
def holds (condition : Condition) : Exec Bool := return (← registers).holds condition

/-- Replaces the status register, as it is, by a function of it. -/
def modifyStatus (f : Word → Word) : Exec Unit := modifyRegisters fun r => { r with sr := f r.sr }

/-- Sets or clears one flag. -/
def setFlag (flag : Word) (on : Bool) : Exec Unit := modifyRegisters (·.setFlag flag on)

/-- Changes the condition codes for an operation of a size. -/
def changeFlags (change : FlagChange) (size : Size) : Exec Unit := modifyStatus (change.apply size)

/-- Writes the program counter. -/
def jump (a : Address) : Exec Unit := modifyRegisters (·.setPc a)

/-- Traps in user mode. -/
def requireSupervisor : Exec Unit := do
  if (← registers).isSupervisor then return () else throw .privilegeViolation

/-! ## 2. Memory -/

/-- Reads an operand in memory. -/
def readMemory (a : Address) (size : Size) : Exec Long := fun m =>
  match m.memory.read a size with
  | .ok v => .ok v m
  | .error t => .error t m

/-- Writes an operand in memory. -/
def writeMemory (a : Address) (size : Size) (v : Long) : Exec Unit := fun m =>
  if accessible a size m.memory.capacity then
    .ok () { m with memory := m.memory.store a.toNat size v }
  else .error .addressError m

/-- Writing to the memory of a machine is writing to a memory. -/
theorem writeMemory_eq (a : Address) (size : Size) (v : Long) (m : Machine) :
    writeMemory a size v m =
      match m.memory.write a size v with
      | .ok memory => .ok () { m with memory }
      | .error t => .error t m := by
  unfold writeMemory Memory.write
  split <;> rfl

/-! ## 3. Operands -/

/-- Resolves an operand field that the operation needs. -/
def resolve (ea : Option EffectiveAddress) (size : Size) : Exec Operand := fun m =>
  match ea with
  | none => .error .illegalInstruction m
  | some ea =>
    match ea.resolve size m.registers with
    | .ok (operand, registers) => .ok operand { m with registers }
    | .error t => .error t m

/-- Resolves the source operand. -/
def source (i : Instruction) : Exec Operand := resolve i.source i.size

/-- Resolves the destination operand. -/
def destination (i : Instruction) : Exec Operand := resolve i.destination i.size

/-- The address of an operand whose mode must move no register. -/
def control (ea : Option EffectiveAddress) : Exec Address := fun m =>
  match ea with
  | none => .error .illegalInstruction m
  | some ea =>
    match ea.controlAddress m.registers with
    | .ok a => .ok a m
    | .error t => .error t m

/-- The value of an operand, the bits above the size zero. -/
def read (operand : Operand) (size : Size) : Exec Long :=
  match operand with
  | .register reg => return size.truncate ((← registers).read reg)
  | .memory a => readMemory a size
  | .immediate v => return size.truncate v

/-- Writes the low bits of a value to an operand. A literal cannot be written. -/
def write (operand : Operand) (size : Size) (v : Long) : Exec Unit :=
  match operand with
  | .register reg => modifyRegisters (·.write reg v size)
  | .memory a => writeMemory a size v
  | .immediate _ => throw .illegalInstruction

/-! ## 4. The stack -/

/-- Pushes an operand of a size onto the active stack. -/
def push (size : Size) (v : Long) : Exec Unit := do
  let sp := (← registers).sp - BitVec.ofNat 32 size.bytes
  writeMemory sp size v
  modifyRegisters (·.setSp sp)

/-- Pops an operand of a size off the active stack. -/
def pop (size : Size) : Exec Long := do
  let sp := (← registers).sp
  let v ← readMemory sp size
  modifyRegisters (·.setSp (sp + BitVec.ofNat 32 size.bytes))
  return v

/-- Pushes a long. -/
def pushLong (v : Long) : Exec Unit := push .long v

/-- Pushes a word. -/
def pushWord (v : Word) : Exec Unit := push .word (v.setWidth 32)

/-- Pops a long. -/
def popLong : Exec Long := pop .long

/-- Pops a word. -/
def popWord : Exec Word := return (← pop .word).setWidth 16

/-! ## 5. Distances -/

/-- The distance in the first word of the operation itself. -/
def wordDistance (i : Instruction) : Long := i.extension.word.displacement

/-- Moves the program counter to a distance from the word past the opcode. -/
def branch (i : Instruction) (distance : Long) : Exec Unit := jump (i.address + 2 + distance)

end Exec

end Mc68000
