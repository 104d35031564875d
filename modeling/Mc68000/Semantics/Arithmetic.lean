import Mc68000.Semantics.Exec
import Mc68000.PackedDecimal

/-!
# Arithmetic

* `ArithOp.compute`, `ArithOp.flags` -- sum and difference, and the flags they leave;
* `Exec.arith` … `Exec.negx` -- the integer operations;
* `quotientUnsigned?`, `quotientSigned?` -- remainder and quotient as one long, if the quotient
  fits a word;
* `Exec.multiply`, `Exec.divide` -- products and quotients;
* `Exec.decimal`, `Exec.nbcd` -- packed decimal.
-/

namespace Mc68000

/-- A sum or a difference with a third number added to what is added or subtracted. -/
def ArithOp.compute (op : ArithOp) (dst src extend : Long) : Long :=
  match op with
  | add => dst + src + extend
  | sub | cmp => dst - src - extend

/-- The flags of a sum or a difference. -/
def ArithOp.flags (op : ArithOp) (src dst result : Long) : FlagChange :=
  match op with
  | add => .add src dst result
  | sub => .sub src dst result
  | cmp => .compare src dst result

/-- The quotient in the low word and the remainder in the high word, if the quotient fits. -/
def quotientUnsigned? (dividend divisor : Long) : Option Long :=
  let quotient := dividend / divisor
  if quotient ≤ 0xFFFF then some ((dividend % divisor) <<< 16 ||| quotient) else none

/-- The same for two's-complement numbers, the quotient rounded toward zero. -/
def quotientSigned? (dividend : Long) (divisor : Word) : Option Long :=
  let quotient := dividend.toInt.tdiv divisor.toInt
  let remainder := dividend.toInt.tmod divisor.toInt
  if -32768 ≤ quotient ∧ quotient ≤ 32767 then
    some (BitVec.ofInt 16 remainder ++ BitVec.ofInt 16 quotient)
  else none

namespace Exec

/-! ## 1. Sums and differences -/

/-- Combines two operands into the second, or only compares them. The flags change last. -/
def combine (op : ArithOp) (src dst : Operand) (size : Size) : Exec Unit := do
  let s ← read src size
  let d ← read dst size
  let result := size.truncate (op.compute d s 0)
  if op ≠ .cmp then
    write dst size result
  changeFlags (op.flags s d result) size

/-- The operand field and the data register as source and destination. Opcode bit 8 tells which is
    which. -/
def operandPair (i : Instruction) : Exec (Operand × Operand) := do
  let operand ← destination i
  let dn := Operand.data i.highRegister
  if i.opcode.getLsbD 8 then return (dn, operand) else return (operand, dn)

/-- The literal in the words of the operation itself. -/
def literal (i : Instruction) : Operand := .immediate (i.size.truncate i.extension.long)

/-- Adds and subtracts in either direction, compares with a register: `ADD`, `SUB`, `CMP`. -/
def arith (op : ArithOp) (i : Instruction) : Exec Unit := do
  match op with
  | .cmp =>
    let src ← destination i
    combine .cmp src (.data i.highRegister) i.size
  | _ =>
    let (src, dst) ← operandPair i
    combine op src dst i.size

/-- Combines a literal into an operand: `ADDI`, `SUBI`, `CMPI`. -/
def arithImmediate (op : ArithOp) (i : Instruction) : Exec Unit := do
  let dst ← destination i
  combine op (literal i) dst i.size

/-- Adds or subtracts a literal from one to eight: `ADDQ`, `SUBQ`. An address register is changed as
    a whole and no flag with it. -/
def arithQuick (op : ArithOp) (i : Instruction) : Exec Unit := do
  let n := BitVec.ofNat 32 i.quickValue
  let dst ← destination i
  match dst with
  | .register (.address k) =>
    let v ← readAddress k
    writeAddress k (op.compute v n 0)
  | _ => combine op (.immediate n) dst i.size

/-- Combines a sign-extended source with a whole address register: `ADDA`, `SUBA`, `CMPA`. Only the
    comparison changes flags. -/
def arithAddress (op : ArithOp) (i : Instruction) : Exec Unit := do
  let operand ← source i
  let s := i.size.signExtend (← read operand i.size)
  let d ← readAddress i.highRegister
  let result := op.compute d s 0
  match op with
  | .cmp => changeFlags (.compare s d result) .long
  | _ => writeAddress i.highRegister result

/-- The two registers of an extended operation, or the operands below two address registers, the
    source first. Opcode bit 3 tells. -/
def extendedPair (i : Instruction) (size : Size) : Exec (Operand × Operand) := do
  let y := i.lowRegister
  let x := i.highRegister
  if i.opcode.getLsbD 3 then
    modifyRegisters (·.decrement y size)
    let src ← readAddress y
    modifyRegisters (·.decrement x size)
    let dst ← readAddress x
    return (.memory src, .memory dst)
  else
    return (.data y, .data x)

/-- Adds or subtracts with the extend flag: `ADDX`, `SUBX`. -/
def arithExtended (op : ArithOp) (i : Instruction) : Exec Unit := do
  let (src, dst) ← extendedPair i i.size
  let s ← read src i.size
  let d ← read dst i.size
  let x : Long := if ← extend then 1 else 0
  let result := i.size.truncate (op.compute d s x)
  write dst i.size result
  changeFlags (op.flags s d result) i.size

/-- Compares the operands at two address registers and moves both past them: `CMPM`. -/
def cmpm (i : Instruction) : Exec Unit := do
  let y := i.lowRegister
  let x := i.highRegister
  let src ← readAddress y
  modifyRegisters (·.increment y i.size)
  let dst ← readAddress x
  modifyRegisters (·.increment x i.size)
  combine .cmp (.memory src) (.memory dst) i.size

/-- Subtracts an operand from zero: `NEG`. -/
def neg (i : Instruction) : Exec Unit := do
  let operand ← destination i
  let v ← read operand i.size
  let result := i.size.truncate (0 - v)
  write operand i.size result
  changeFlags (.negate v result) i.size

/-- Subtracts an operand and the extend flag from zero: `NEGX`. -/
def negx (i : Instruction) : Exec Unit := do
  let operand ← destination i
  let v ← read operand i.size
  let x : Long := if ← extend then 1 else 0
  let result := i.size.truncate (0 - v - x)
  write operand i.size result
  changeFlags (.negateExtended v result) i.size

/-! ## 2. Products and quotients -/

/-- Multiplies two words to a long: `MULU`, `MULS`. -/
def multiply (s : Signedness) (i : Instruction) : Exec Unit := do
  let operand ← source i
  let src ← read operand .word
  let dst := Size.word.truncate (← readData i.highRegister)
  let result :=
    match s with
    | .unsigned => src * dst
    | .signed => Size.word.signExtend src * Size.word.signExtend dst
  writeData i.highRegister result .long
  changeFlags (.logical result) .long

/-- Divides a long by a word: `DIVU`, `DIVS`. A quotient that does not fit sets V, clears C and
    changes nothing else. -/
def divide (s : Signedness) (i : Instruction) : Exec Unit := do
  let operand ← source i
  let divisor ← read operand .word
  if divisor = 0 then throw .divideByZero
  let dividend ← readData i.highRegister
  let packed? :=
    match s with
    | .unsigned => quotientUnsigned? dividend divisor
    | .signed => quotientSigned? dividend (divisor.setWidth 16)
  match packed? with
  | some packed =>
    writeData i.highRegister packed .long
    changeFlags (.logical packed) .word
  | none =>
    setFlag Status.overflow true
    setFlag Status.carry false

/-! ## 3. Packed decimal -/

/-- Adds or subtracts packed decimals with the extend flag: `ABCD`, `SBCD`. -/
def decimal (op : AddSub) (i : Instruction) : Exec Unit := do
  let (src, dst) ← extendedPair i .byte
  let s := (← read src .byte).setWidth 8
  let d := (← read dst .byte).setWidth 8
  let x ← extend
  let (result, carried) :=
    match op with
    | .add => PackedDecimal.add d s x
    | .sub => PackedDecimal.sub d s x
  write dst .byte (result.setWidth 32)
  modifyStatus (PackedDecimal.flags · result carried)

/-- Subtracts a packed decimal and the extend flag from zero: `NBCD`. -/
def nbcd (i : Instruction) : Exec Unit := do
  let operand ← destination i
  let v := (← read operand .byte).setWidth 8
  let x ← extend
  let (result, borrowed) := PackedDecimal.sub 0 v x
  write operand .byte (result.setWidth 32)
  modifyStatus (PackedDecimal.flags · result borrowed)

end Exec

end Mc68000
