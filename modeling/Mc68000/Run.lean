import Mc68000.Fetch
import Mc68000.Semantics
import Mc68000.CycleCost

/-!
# Steps and runs

* `Machine.step` -- one instruction;
* `Machine.runWithLimit` -- instructions until something ends the run, but no more than a limit;
* `Machine.run?` -- the same without a limit, `none` for a run that does not end;
* `Boundary` -- what ended a run.

An instruction that traps has moved the program counter past itself; an opcode that stands for
nothing has not.
-/

namespace Mc68000

/-- What a step did. -/
inductive StepOutcome where
  /-- It executed an instruction. -/
  | retired (cycles : Nat)
  /-- Nothing: the machine is stopped. -/
  | stopped
  /-- Nothing: the program has finished. -/
  | finished
  deriving DecidableEq, Repr

/-- What ended a run. -/
inductive Boundary where
  | endOfCode
  | finished
  | stopped
  | stepLimit
  deriving DecidableEq, Repr

/-- What a run did. -/
structure RunOutcome where
  steps : Nat
  cycles : Nat
  boundary : Boundary
  deriving DecidableEq, Repr

namespace Machine

/-- The loaded code of a machine. -/
def code (m : Machine) : Code := { memory := m.memory, codeEnd := m.codeEnd }

/-- Executes one instruction, unless the machine is stopped or finished. Only an instruction that
    does not trap costs cycles. -/
def step : Request StepOutcome := fun m =>
  match m.runState with
  | .stopped => .ok .stopped m
  | .finished => .ok .finished m
  | .running =>
    match m.code.fetch m.registers.pc with
    | .error f _ => .error f m
    | .ok none _ => .error (.trap .illegalInstruction) m
    | .ok (some i) _ =>
      match i.execute { m with registers := m.registers.setPc i.nextAddress } with
      | .error t m => .error (.trap t) m
      | .ok () m =>
        .ok (.retired i.operation.cycles) { m with cycles := m.cycles + i.operation.cycles }

/-- What ends a run at a machine before any limit does. The run state comes first. -/
def boundary? (m : Machine) : Option Boundary :=
  match m.runState with
  | .stopped => some .stopped
  | .finished => some .finished
  | .running => if m.atEndOfCode then some .endOfCode else none

/-- Runs on from a number of steps and cycles. -/
def runFrom (steps cycles : Nat) : Nat → Request RunOutcome
  | limit, m =>
    match m.boundary? with
    | some boundary => .ok { steps, cycles, boundary } m
    | none =>
      match limit with
      | 0 => .ok { steps, cycles, boundary := .stepLimit } m
      | limit + 1 =>
        match step m with
        | .error f m => .error f m
        | .ok (.retired spent) m => runFrom (steps + 1) (cycles + spent) limit m
        | .ok _ m => runFrom steps cycles limit m

/-- Executes instructions until the code ends, the machine stops, the program finishes, a step
    fails, or `limit` instructions have been executed. -/
def runWithLimit (limit : Nat) : Request RunOutcome := runFrom 0 0 limit

/-- The number of step counts that 64 bits can tell: 2^64. -/
def stepCounts : Nat := 0x10000000000000000

/-- A run without a limit, `none` if it is still going after more instructions than a step count of
    64 bits can tell. -/
def run? (m : Machine) : Option (EStateM.Result Failure Machine RunOutcome) :=
  match runWithLimit stepCounts m with
  | .ok { steps := _, cycles := _, boundary := .stepLimit } _ => none
  | result => some result

end Machine

end Mc68000
