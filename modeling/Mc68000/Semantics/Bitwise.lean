import Mc68000.Semantics.Arithmetic
import Mc68000.Shift

/-!
# Bits

* `LogicOp.combine`, `Exec.logic`, `Exec.logicImmediate`, `Exec.not`, `Exec.tst`, `Exec.tas` --
  bitwise logic and tests;
* `BitOp.apply`, `Exec.bitStatic`, `Exec.bitDynamic` -- single bits;
* `Exec.shiftRegister`, `Exec.shiftMemory` -- shifts and rotates.
-/

namespace Mc68000

/-- A bitwise combination of two values. -/
def LogicOp.combine {w : Nat} (op : LogicOp) (a b : BitVec w) : BitVec w :=
  match op with
  | or => a ||| b
  | and => a &&& b
  | eor => a ^^^ b

/-- The value that a bit operation writes back, `none` if it only tests. -/
def BitOp.apply (op : BitOp) (v mask : Long) : Option Long :=
  match op with
  | test => none
  | change => some (v ^^^ mask)
  | clear => some (v &&& ~~~mask)
  | set => some (v ||| mask)

namespace Exec

/-! ## 1. Logic -/

/-- Combines two operands bitwise into the second. -/
def combineBits (op : LogicOp) (src dst : Operand) (size : Size) : Exec Unit := do
  let a ← read src size
  let b ← read dst size
  let result := size.truncate (op.combine a b)
  write dst size result
  changeFlags (.logical result) size

/-- Combines in either direction, or from a register only: `OR`, `AND`, and `EOR`. -/
def logic (op : LogicOp) (i : Instruction) : Exec Unit := do
  match op with
  | .eor =>
    let dst ← destination i
    combineBits .eor (.data i.highRegister) dst i.size
  | _ =>
    let (src, dst) ← operandPair i
    combineBits op src dst i.size

/-- Combines a literal into an operand: `ORI`, `ANDI`, `EORI`. -/
def logicImmediate (op : LogicOp) (i : Instruction) : Exec Unit := do
  let dst ← destination i
  combineBits op (literal i) dst i.size

/-- Complements every bit: `NOT`. -/
def not (i : Instruction) : Exec Unit := do
  let operand ← destination i
  let v ← read operand i.size
  let result := i.size.truncate (~~~v)
  write operand i.size result
  changeFlags (.logical result) i.size

/-- Leaves the flags of an operand: `TST`. -/
def tst (i : Instruction) : Exec Unit := do
  let operand ← destination i
  let v ← read operand i.size
  changeFlags (.logical v) i.size

/-- Leaves the flags of a byte, then sets its high bit: `TAS`. -/
def tas (i : Instruction) : Exec Unit := do
  let operand ← destination i
  let v ← read operand .byte
  changeFlags (.logical v) .byte
  write operand .byte (v ||| 0x80)

/-! ## 2. Single bits -/

/-- The bit that a bit operation means: its number counts modulo 32 in a data register and modulo
    8 anywhere else. -/
def bitMask (operand : Operand) (number : Long) : Long :=
  match operand with
  | .register (.data _) => 1 <<< (number.toNat % 32)
  | _ => 1 <<< (number.toNat % 8)

/-- Tests a bit into Z, then changes it. -/
def bit (op : BitOp) (number : Long) (i : Instruction) : Exec Unit := do
  let operand ← destination i
  let mask := bitMask operand number
  let v ← read operand i.size
  setFlag Status.zero (v &&& mask = 0)
  match op.apply v mask with
  | some result => write operand i.size result
  | none => return ()

/-- A bit operation with the bit number in the instruction. -/
def bitStatic (op : BitOp) (i : Instruction) : Exec Unit :=
  bit op (i.extension.word.setWidth 32) i

/-- A bit operation with the bit number in a data register. -/
def bitDynamic (op : BitOp) (i : Instruction) : Exec Unit := do
  let number ← readData i.highRegister
  bit op number i

/-! ## 3. Shifts and rotates -/

/-- Shifts a value and leaves the flags of it. -/
def shiftValue (kind : ShiftKind) (direction : Direction) (size : Size) (v : Long) (count : Nat) :
    Exec Long := do
  let (result, sr) := shift kind direction size v count (← status)
  modifyStatus fun _ => sr
  return result

/-- A shift of a data register, by a literal from one to eight or by another data register modulo
    64. Opcode bit 5 tells. -/
def shiftRegister (kind : ShiftKind) (direction : Direction) (i : Instruction) : Exec Unit := do
  let count ←
    if i.opcode.getLsbD 5 then
      let n ← readData i.highRegister
      pure (n.toNat % 64)
    else
      pure i.quickValue
  let v ← readData i.lowRegister
  let result ← shiftValue kind direction i.size v count
  writeData i.lowRegister result i.size

/-- A shift of a word in memory by one bit. -/
def shiftMemory (kind : ShiftKind) (direction : Direction) (i : Instruction) : Exec Unit := do
  let operand ← source i
  match operand with
  | .memory _ =>
    let v ← read operand .word
    let result ← shiftValue kind direction .word v 1
    write operand .word result
  | _ => throw .illegalInstruction

end Exec

end Mc68000
