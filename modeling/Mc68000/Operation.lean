/-!
# Operations

What an opcode tells the processor to do, operands apart.

* `LogicOp`, `ArithOp`, `AddSub`, `BitOp`, `Signedness`, `ShiftKind`, `Direction` -- the choices
  inside a family of operations;
* `Operation` -- the families and the single operations;
* `Operation.mnemonic` -- the assembler name, without a size or a condition.
-/

namespace Mc68000

/-- A bitwise combination. -/
inductive LogicOp where
  | or
  | and
  | eor
  deriving DecidableEq, Repr

/-- A sum, a difference, or a difference of which only the flags are kept. -/
inductive ArithOp where
  | add
  | sub
  | cmp
  deriving DecidableEq, Repr

/-- A sum or a difference. -/
inductive AddSub where
  | add
  | sub
  deriving DecidableEq, Repr

/-- What happens to a tested bit. -/
inductive BitOp where
  | test
  | change
  | clear
  | set
  deriving DecidableEq, Repr

/-- Whether numbers are unsigned or two's-complement. -/
inductive Signedness where
  | unsigned
  | signed
  deriving DecidableEq, Repr

/-- What a shift brings in at the free end. -/
inductive ShiftKind where
  /-- The sign on the left, zeros on the right. -/
  | arithmetic
  /-- Zeros. -/
  | logical
  /-- The bit that went out at the other end. -/
  | rotate
  /-- The extend flag, which takes the bit that went out. -/
  | rotateExtend
  deriving DecidableEq, Repr

/-- Where a shift moves the bits. -/
inductive Direction where
  | left
  | right
  deriving DecidableEq, Repr

/-- The arithmetic of a sum or a difference. -/
def AddSub.arith : AddSub → ArithOp
  | add => .add
  | sub => .sub

/-- What an opcode tells the processor to do. -/
inductive Operation where
  /-- Literal logic on the condition codes: `ORI`, `ANDI`, `EORI`. -/
  | logicToCcr (op : LogicOp)
  /-- Literal logic on the status register: `ORI`, `ANDI`, `EORI`. -/
  | logicToSr (op : LogicOp)
  /-- Literal logic on an operand: `ORI`, `ANDI`, `EORI`. -/
  | logicImmediate (op : LogicOp)
  /-- Logic between a data register and an operand: `OR`, `AND`, `EOR`. -/
  | logic (op : LogicOp)
  | not
  | tst
  | tas
  /-- Bit operations with the number in the instruction: `BTST`, `BCHG`, `BCLR`, `BSET`. -/
  | bitStatic (op : BitOp)
  /-- Bit operations with the number in a data register: `BTST`, `BCHG`, `BCLR`, `BSET`. -/
  | bitDynamic (op : BitOp)
  /-- Arithmetic with a literal: `ADDI`, `SUBI`, `CMPI`. -/
  | arithImmediate (op : ArithOp)
  /-- Arithmetic between a data register and an operand: `ADD`, `SUB`, `CMP`. -/
  | arith (op : ArithOp)
  /-- Arithmetic on an address register: `ADDA`, `SUBA`, `CMPA`. -/
  | arithAddress (op : ArithOp)
  /-- Arithmetic with a literal from one to eight: `ADDQ`, `SUBQ`. -/
  | arithQuick (op : AddSub)
  /-- Arithmetic with the extend flag: `ADDX`, `SUBX`. -/
  | arithExtended (op : AddSub)
  | cmpm
  | neg
  | negx
  /-- Products: `MULU`, `MULS`. -/
  | multiply (s : Signedness)
  /-- Quotients: `DIVU`, `DIVS`. -/
  | divide (s : Signedness)
  /-- Packed decimal arithmetic: `ABCD`, `SBCD`. -/
  | decimal (op : AddSub)
  | nbcd
  /-- A shift of a word in memory by one bit. -/
  | shiftMemory (kind : ShiftKind) (direction : Direction)
  /-- A shift of a data register. -/
  | shiftRegister (kind : ShiftKind) (direction : Direction)
  | move
  | movea
  | moveq
  | moveFromSr
  | moveToCcr
  | moveToSr
  | moveUsp
  | movep
  | movem
  | clr
  | ext
  | swap
  | exg
  | lea
  | pea
  | link
  | unlk
  | scc
  | bra
  | bsr
  | bcc
  | dbcc
  | jmp
  | jsr
  | rts
  | rtr
  | rte
  | trap
  | trapv
  | illegal
  | chk
  | stop
  | reset
  | nop
  deriving DecidableEq, Repr

/-- The assembler name of a combination. -/
def LogicOp.name : LogicOp → String
  | or => "OR"
  | and => "AND"
  | eor => "EOR"

/-- The assembler name of an arithmetic choice. -/
def ArithOp.name : ArithOp → String
  | add => "ADD"
  | sub => "SUB"
  | cmp => "CMP"

/-- The assembler name of a bit operation. -/
def BitOp.name : BitOp → String
  | test => "BTST"
  | change => "BCHG"
  | clear => "BCLR"
  | set => "BSET"

/-- The letter that stands for a direction at the end of a shift's name. -/
def Direction.letter : Direction → String
  | left => "L"
  | right => "R"

/-- The assembler name of a kind of shift, its direction apart. -/
def ShiftKind.stem : ShiftKind → String
  | arithmetic => "AS"
  | logical => "LS"
  | rotate => "RO"
  | rotateExtend => "ROX"

namespace Operation

/-- The assembler name, without a size or a condition. -/
def mnemonic : Operation → String
  | logicToCcr op | logicToSr op | logicImmediate op => op.name ++ "I"
  | logic op => op.name
  | not => "NOT"
  | tst => "TST"
  | tas => "TAS"
  | bitStatic op | bitDynamic op => op.name
  | arithImmediate op => op.name ++ "I"
  | arith op => op.name
  | arithAddress op => op.name ++ "A"
  | arithQuick op => op.arith.name ++ "Q"
  | arithExtended op => op.arith.name ++ "X"
  | cmpm => "CMPM"
  | neg => "NEG"
  | negx => "NEGX"
  | multiply .unsigned => "MULU"
  | multiply .signed => "MULS"
  | divide .unsigned => "DIVU"
  | divide .signed => "DIVS"
  | decimal .add => "ABCD"
  | decimal .sub => "SBCD"
  | nbcd => "NBCD"
  | shiftMemory kind direction | shiftRegister kind direction => kind.stem ++ direction.letter
  | move | moveFromSr | moveToCcr | moveToSr | moveUsp => "MOVE"
  | movea => "MOVEA"
  | moveq => "MOVEQ"
  | movep => "MOVEP"
  | movem => "MOVEM"
  | clr => "CLR"
  | ext => "EXT"
  | swap => "SWAP"
  | exg => "EXG"
  | lea => "LEA"
  | pea => "PEA"
  | link => "LINK"
  | unlk => "UNLK"
  | scc => "S"
  | bra => "BRA"
  | bsr => "BSR"
  | bcc => "B"
  | dbcc => "DB"
  | jmp => "JMP"
  | jsr => "JSR"
  | rts => "RTS"
  | rtr => "RTR"
  | rte => "RTE"
  | trap => "TRAP"
  | trapv => "TRAPV"
  | illegal => "ILLEGAL"
  | chk => "CHK"
  | stop => "STOP"
  | reset => "RESET"
  | nop => "NOP"

end Operation

end Mc68000
