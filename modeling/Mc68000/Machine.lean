import Mc68000.Registers
import Mc68000.Memory
import Mc68000.Snapshot

/-!
# The machine

Registers and memory, and what the host sees of a program that runs on them.

* `Config`, `Machine.new` -- a fresh machine of a given memory capacity;
* `RunState` -- whether the next step executes an instruction;
* `Machine.loadProgram`, `loadData` -- put bytes into memory; a load that fails changes nothing;
* `Machine.resume`, `reset`, `applySnapshot` -- the host's other ways to change a machine;
* `Machine.atEndOfCode` -- whether the program counter has left the loaded program.
-/

namespace Mc68000

/-- What a machine is built from. -/
structure Config where
  /-- The capacity of the memory in bytes. -/
  memoryBytes : Nat
  /-- Whether a host that keeps a log should list each instruction. Execution does not depend on
      it. -/
  traceInstructions : Bool
  deriving DecidableEq, Repr

/-- Sixteen mebibytes, all that 24 address lines reach. -/
def Config.standard : Config := { memoryBytes := 0x1000000, traceInstructions := false }

/-- Whether a machine executes instructions. -/
inductive RunState where
  | running
  /-- The program has executed `STOP` and waits for the host. -/
  | stopped
  /-- The program has executed `RTS` with no call outstanding. -/
  | finished
  deriving DecidableEq, Repr

/-- A processor with its memory. -/
structure Machine where
  registers : Registers
  memory : Memory
  /-- The number of calls that have not returned. -/
  callDepth : BitVec 32
  runState : RunState
  /-- The cycles of all instructions so far. -/
  cycles : Nat
  /-- The address of the loaded program. -/
  codeStart : Address
  /-- The address past the loaded program. -/
  codeEnd : Address
  traceInstructions : Bool
  deriving DecidableEq

/-- A request to a machine. A failure leaves a machine too. -/
abbrev Request := EStateM Failure Machine

namespace Machine

/-- A machine with all registers and all memory zero and no program. -/
def new (config : Config) : Machine :=
  { registers := Registers.zeros
    memory := Memory.zeros config.memoryBytes
    callDepth := 0
    runState := .running
    cycles := 0
    codeStart := 0
    codeEnd := 0
    traceInstructions := config.traceInstructions }

/-- Whether the program counter is at the end of the loaded program or past it. -/
def atEndOfCode (m : Machine) : Bool := m.codeEnd ≤ m.registers.pc

/-- Lets a stopped machine run again. A finished one stays finished. -/
def resume (m : Machine) : Machine :=
  match m.runState with
  | .stopped => { m with runState := .running }
  | _ => m

/-- Brings a machine back to what it was when new. -/
def reset (m : Machine) : Machine :=
  { m with
    registers := Registers.zeros
    memory := m.memory.clear
    callDepth := 0
    runState := .running
    cycles := 0
    codeStart := 0
    codeEnd := 0 }

/-- Writes the values of a snapshot into the registers. -/
def applySnapshot (m : Machine) (s : Snapshot) : Machine :=
  { m with registers := s.applyTo m.registers }

/-- Loads a program and makes it the next thing to run. Registers other than the program counter
    and the cycles so far stay. A program has less than 2^32 bytes. -/
def loadProgram (bytes : List Byte) (address : Address) (clearFirst : Bool) : Request Unit :=
  fun m =>
    if Long.count ≤ bytes.length then
      .error (.loadOutOfRange address bytes.length m.memory.capacity) m
    else
      match m.memory.fill? bytes address clearFirst with
      | .error f => .error f m
      | .ok memory =>
        .ok ()
          { m with
            memory
            codeStart := address
            codeEnd := address + BitVec.ofNat 32 bytes.length
            registers := m.registers.setPc address
            callDepth := 0
            runState := .running }

/-- Loads bytes that are no program. -/
def loadData (bytes : List Byte) (address : Address) (clearFirst : Bool) : Request Unit :=
  fun m =>
    match m.memory.fill? bytes address clearFirst with
    | .error f => .error f m
    | .ok memory => .ok () { m with memory }

/-- A machine after a reset is a new one of the same capacity. -/
theorem reset_eq_new (m : Machine) :
    m.reset = new { memoryBytes := m.memory.capacity, traceInstructions := m.traceInstructions } :=
  rfl

end Machine

end Mc68000
