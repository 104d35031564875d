import Mc68000.Semantics.MultipleTransfer
import Mc68000.Semantics.Flow
import Mc68000.Text.Digits

/-!
# Assembler text

* `Instruction.text` -- an instruction in assembler syntax;
* `EffectiveAddress.text`, `literalText` -- its operands;
* `Instruction.branchTarget` -- the address that a branch shows;
* `registerList` -- the registers of a mask, neighbours drawn together.
-/

namespace Mc68000

/-! ## 1. Operands -/

namespace Assembly

/-- The name of a data register. -/
def dataName (n : Fin 8) : String := "D" ++ Digits.decimal n.val

/-- The name of an address register. -/
def addressName (n : Fin 8) : String := "A" ++ Digits.decimal n.val

/-- A word as a two's-complement number. -/
def signedWord (w : Word) : String := Digits.signedDecimal w.toInt

/-- The low byte of a word as a two's-complement number. -/
def signedByte (w : Word) : String := Digits.signedDecimal (w.setWidth 8).toInt

/-- A number after a dollar sign, in base sixteen with at least `width` digits. -/
def hex (width n : Nat) : String := "$" ++ Digits.upperHex width n

/-- A literal of a size, with all its digits. -/
def literalText (size : Size) (v : Long) : String :=
  "#" ++ hex (2 * size.bytes) (size.truncate v).toNat

/-- The index register of a brief index word with the width that counts. -/
def indexText (w : Word) : String :=
  let n : Fin 8 := (w.extractLsb' 12 3).toFin
  (if w.getLsbD 15 then addressName n else dataName n) ++
    (if w.getLsbD 11 then ".L" else ".W")

end Assembly

open Assembly

/-- The text of a mode that leads to memory and moves no register. -/
def ControlMode.text (mode : ControlMode) (e : Extension) : String :=
  match mode with
  | indirect n => "(" ++ addressName n ++ ")"
  | displacement n => signedWord e.word ++ "(" ++ addressName n ++ ")"
  | indexed n => signedByte e.word ++ "(" ++ addressName n ++ "," ++ indexText e.word ++ ")"
  | absoluteShort => hex 4 e.word.toNat ++ ".W"
  | absoluteLong => hex 8 e.long.toNat ++ ".L"
  | pcDisplacement => signedWord e.word ++ "(PC)"
  | pcIndexed => signedByte e.word ++ "(PC," ++ indexText e.word ++ ")"

/-- The text of a mode. -/
def AddressingMode.text (mode : AddressingMode) (e : Extension) (size : Size) : String :=
  match mode with
  | dataDirect n => dataName n
  | addressDirect n => addressName n
  | postIncrement n => "(" ++ addressName n ++ ")+"
  | preDecrement n => "-(" ++ addressName n ++ ")"
  | control mode => mode.text e
  | immediate => literalText size e.long

/-- The text of an operand; a question mark where its field is unassigned. -/
def EffectiveAddress.text (ea : EffectiveAddress) (size : Size) : String :=
  match ea.mode? with
  | some mode => mode.text ea.extension size
  | none => "?"

/-! ## 2. Register lists -/

namespace Assembly

/-- A run of registers of one bank, from the first to the last. -/
def runText (bank : String) (first last : Nat) : String :=
  if first = last then bank ++ Digits.decimal first
  else bank ++ Digits.decimal first ++ "-" ++ bank ++ Digits.decimal last

/-- The runs of neighbours among numbers in ascending order, each as its first and last number.
    `run?` is the run that the next number may continue. -/
def runsFrom (run? : Option (Nat × Nat)) : List Nat → List (Nat × Nat)
  | [] => run?.toList
  | n :: ns =>
    match run? with
    | none => runsFrom (some (n, n)) ns
    | some (first, last) =>
      if n = last + 1 then runsFrom (some (first, n)) ns
      else (first, last) :: runsFrom (some (n, n)) ns

/-- The runs of a bank of eight registers in a mask. -/
def bankRuns (bank : String) (mask : BitVec 8) : List String :=
  (runsFrom none ((List.range 8).filter mask.getLsbD)).map fun run => runText bank run.1 run.2

end Assembly

/-- The registers of a mask with D0 at bit 0, neighbours in one bank drawn together. -/
def registerList (mask : Word) : String :=
  "/".intercalate
    (bankRuns "D" (mask.extractLsb' 0 8) ++ bankRuns "A" (mask.extractLsb' 8 8))

/-! ## 3. Instructions -/

namespace Instruction

/-- The address that the text of a branch shows. -/
def branchTarget (i : Instruction) : Address :=
  let distance :=
    if i.operation = .dbcc then i.extension.word.displacement else i.branchDistance
  i.address + 2 + distance

/-- The text of an operand field; a question mark where there is none. -/
def operandText (i : Instruction) (ea : Option EffectiveAddress) : String :=
  match ea with
  | some ea => ea.text i.size
  | none => "?"

/-- The mask of `MOVEM` with D0 at bit 0, whichever way round the mode has it. -/
def movemMask (i : Instruction) : Word :=
  match i.destination.bind (·.mode?) with
  | some (.preDecrement _) => i.extension.word.reverse
  | _ => i.extension.word

/-- The instruction in assembler syntax. -/
def text (i : Instruction) : String :=
  let name := i.operation.mnemonic
  let sized := name ++ i.size.suffix
  let low := i.lowRegister
  let high := i.highRegister
  let source := i.operandText i.source
  let destination := i.operandText i.destination
  let condition := (Condition.ofOpcode i.opcode).suffix
  let target := hex 4 i.branchTarget.toNat
  match i.operation with
  | .logicToCcr _ => name ++ " #" ++ hex 2 (i.extension.word.setWidth 8).toNat ++ ",CCR"
  | .logicToSr _ => name ++ " #" ++ hex 4 i.extension.word.toNat ++ ",SR"
  | .logicImmediate _ | .arithImmediate _ =>
    sized ++ " " ++ literalText i.size i.extension.long ++ "," ++ destination
  | .bitStatic _ => name ++ " #" ++ Digits.decimal i.extension.word.toNat ++ "," ++ destination
  | .bitDynamic _ => name ++ " " ++ dataName high ++ "," ++ destination
  | .movep =>
    let place := signedWord i.extension.word ++ "(" ++ addressName low ++ ")"
    if i.opcode.getLsbD 7 then sized ++ " " ++ dataName high ++ "," ++ place
    else sized ++ " " ++ place ++ "," ++ dataName high
  | .move | .movea => sized ++ " " ++ source ++ "," ++ destination
  | .moveFromSr => name ++ " SR," ++ destination
  | .moveToCcr => name ++ " " ++ source ++ ",CCR"
  | .moveToSr => name ++ " " ++ source ++ ",SR"
  | .moveUsp =>
    if i.opcode.getLsbD 3 then name ++ " USP," ++ addressName low
    else name ++ " " ++ addressName low ++ ",USP"
  | .negx | .clr | .neg | .not | .tst => sized ++ " " ++ destination
  | .ext => sized ++ " " ++ dataName low
  | .nbcd | .tas => name ++ " " ++ destination
  | .swap => name ++ " " ++ dataName low
  | .pea | .jmp | .jsr => name ++ " " ++ source
  | .lea => name ++ " " ++ source ++ "," ++ addressName high
  | .illegal | .reset | .nop | .rte | .rts | .trapv | .rtr => name
  | .trap => name ++ " #" ++ Digits.decimal (i.opcode.setWidth 4).toNat
  | .link => name ++ " " ++ addressName low ++ ",#" ++ signedWord i.extension.word
  | .unlk => name ++ " " ++ addressName low
  | .stop => name ++ " #" ++ hex 4 i.extension.word.toNat
  | .movem =>
    let list := registerList i.movemMask
    if i.opcode.getLsbD 10 then sized ++ " " ++ destination ++ "," ++ list
    else sized ++ " " ++ list ++ "," ++ destination
  | .chk | .divide _ | .multiply _ => name ++ " " ++ source ++ "," ++ dataName high
  | .scc => name ++ condition ++ " " ++ destination
  | .dbcc => name ++ condition ++ " " ++ dataName low ++ "," ++ target
  | .bra | .bsr => name ++ " " ++ target
  | .bcc => name ++ condition ++ " " ++ target
  | .arithQuick _ => sized ++ " #" ++ Digits.decimal i.quickValue ++ "," ++ destination
  | .moveq => name ++ " #" ++ signedByte i.opcode ++ "," ++ dataName high
  | .decimal _ | .arithExtended _ =>
    let head :=
      match i.operation with
      | .decimal _ => name
      | _ => sized
    if i.opcode.getLsbD 3 then
      head ++ " -(" ++ addressName low ++ "),-(" ++ addressName high ++ ")"
    else head ++ " " ++ dataName low ++ "," ++ dataName high
  | .logic .eor => sized ++ " " ++ dataName high ++ "," ++ destination
  | .arith .cmp => sized ++ " " ++ destination ++ "," ++ dataName high
  | .logic _ | .arith _ =>
    if i.opcode.getLsbD 8 then sized ++ " " ++ dataName high ++ "," ++ destination
    else sized ++ " " ++ destination ++ "," ++ dataName high
  | .arithAddress _ => sized ++ " " ++ source ++ "," ++ addressName high
  | .cmpm => sized ++ " (" ++ addressName low ++ ")+,(" ++ addressName high ++ ")+"
  | .exg =>
    match (i.opcode.extractLsb' 3 5).toNat with
    | 0x09 => name ++ " " ++ addressName high ++ "," ++ addressName low
    | 0x11 => name ++ " " ++ dataName high ++ "," ++ addressName low
    | _ => name ++ " " ++ dataName high ++ "," ++ dataName low
  | .shiftMemory _ _ => sized ++ " " ++ source
  | .shiftRegister _ _ =>
    if i.opcode.getLsbD 5 then sized ++ " " ++ dataName high ++ "," ++ dataName low
    else sized ++ " #" ++ Digits.decimal i.quickValue ++ "," ++ dataName low

end Instruction

end Mc68000
