import Mc68000.Instruction
import Mc68000.Memory

/-!
# Fetching instructions

* `Code` -- a memory with the end of the code in it;
* `Code.nextWord`, `Code.nextWords` -- read words one after the other. The position is the state,
  and a read that fails leaves it at the word that could not be read;
* `Code.fetch` -- reads one instruction, or finds that its opcode stands for nothing.
-/

namespace Mc68000

/-- A memory with the address where its code ends. -/
structure Code where
  memory : Memory
  codeEnd : Address

namespace Code

/-- Reads the next word and moves past it. -/
def nextWord (c : Code) : EStateM Failure Address Word := fun pc =>
  if pc.toNat + 2 > c.codeEnd.toNat then .error (.pastEndOfCode pc) pc
  else
    match c.memory.readWord pc with
    | .ok w => .ok w (pc + 2)
    | .error t => .error (.trap t) pc

/-- Reads the next words, two at most. -/
def nextWords (c : Code) (count : Nat) : EStateM Failure Address Extension := do
  let address ← get
  match count with
  | 0 => return ⟨address, .none⟩
  | 1 =>
    let w ← c.nextWord
    return ⟨address, .one w⟩
  | _ =>
    let high ← c.nextWord
    let low ← c.nextWord
    return ⟨address, .two high low⟩

/-- Reads the words of an operand. A field that is unassigned has none. -/
def effectiveAddress (c : Code) (size : Size) (field : BitVec 6) :
    EStateM Failure Address EffectiveAddress := do
  let count := ((AddressingMode.ofField? field).map (·.extensionWords size)).getD 0
  let extension ← c.nextWords count
  return ⟨field, extension⟩

/-- Reads the words of an operand if there is one. -/
def effectiveAddress? (c : Code) (size : Size) :
    Option (BitVec 6) → EStateM Failure Address (Option EffectiveAddress)
  | none => return none
  | some field => do
    let ea ← c.effectiveAddress size field
    return some ea

/-- The operation and the layout of an opcode, `none` if it stands for nothing. -/
def decode? (opcode : Word) : Option (Operation × Layout) := do
  let operation ← Operation.ofOpcode? opcode
  let layout ← Layout.of? operation opcode
  return (operation, layout)

/-- Reads one instruction. With `none` the opcode stands for nothing, and only the opcode has been
    read. -/
def fetch (c : Code) : EStateM Failure Address (Option Instruction) := do
  let address ← get
  let opcode ← c.nextWord
  match decode? opcode with
  | none => return none
  | some (operation, layout) =>
    let extension ← c.nextWords layout.ownWords
    let source ← c.effectiveAddress? layout.size layout.source
    let destination ← c.effectiveAddress? layout.size layout.destination
    let pc ← get
    return some
      { address, opcode, operation, size := layout.size, extension, source, destination,
        length := (pc - address).toNat }

end Code

end Mc68000
