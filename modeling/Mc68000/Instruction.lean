import Mc68000.Opcode
import Mc68000.EffectiveAddress

/-!
# Instructions

* `Layout`, `Layout.of?` -- which operands an opcode has, and how many words of its own it takes;
* `Instruction` -- an opcode with all its words;
* `Instruction.lowRegister`, `highRegister` -- the two register fields of an opcode;
* `Instruction.nextAddress` -- where the next one starts.
-/

namespace Mc68000

/-! ## 1. Layouts -/

/-- What follows an opcode: words of the operation itself, then those of the source operand, then
    those of the destination operand. -/
structure Layout where
  size : Size
  ownWords : Nat
  source : Option (BitVec 6)
  destination : Option (BitVec 6)
  deriving DecidableEq, Repr

namespace Layout

/-- No words and no operand. -/
def bare (size : Size) : Layout := ⟨size, 0, none, none⟩

/-- Words of the operation itself and no operand. -/
def fixed (size : Size) (words : Nat) : Layout := ⟨size, words, none, none⟩

/-- A source operand. -/
def sourceOnly (size : Size) (field : BitVec 6) : Layout := ⟨size, 0, some field, none⟩

/-- Words of the operation itself and a destination operand. -/
def destinationOnly (size : Size) (words : Nat) (field : BitVec 6) : Layout :=
  ⟨size, words, none, some field⟩

/-- The size of a bit operation: a long in a data register, a byte anywhere else. -/
def bitSize (field : BitVec 6) : Size := if field.extractLsb' 3 3 = 0 then .long else .byte

/-- How many words a literal of a size takes. -/
def literalWords (size : Size) : Nat := if size = .long then 2 else 1

/-- The layout of an opcode, `none` if its size field holds no size. -/
def of? (operation : Operation) (opcode : Word) : Option Layout :=
  let field : BitVec 6 := opcode.extractLsb' 0 6
  let size? : Option Size := Size.ofField? (opcode.extractLsb' 6 2)
  match operation with
  | .logicToCcr _ => some (fixed .byte 1)
  | .logicToSr _ => some (fixed .word 1)
  | .logicImmediate _ | .arithImmediate _ =>
    size?.map fun size => destinationOnly size (literalWords size) field
  | .bitStatic _ => some (destinationOnly (bitSize field) 1 field)
  | .bitDynamic _ => some (destinationOnly (bitSize field) 0 field)
  | .movep => some (fixed (Size.longIf (opcode.getLsbD 6)) 1)
  | .move | .movea =>
    some ⟨Size.ofMoveField (opcode.extractLsb' 12 2), 0, some field,
      some (opcode.extractLsb' 6 3 ++ opcode.extractLsb' 9 3)⟩
  | .moveFromSr => some (destinationOnly .word 0 field)
  | .moveToCcr => some (sourceOnly .byte field)
  | .moveToSr => some (sourceOnly .word field)
  | .negx | .clr | .neg | .not | .tst | .arithQuick _ | .logic _ | .arith _ =>
    size?.map fun size => destinationOnly size 0 field
  | .ext => some (bare (Size.longIf (opcode.getLsbD 6)))
  | .nbcd | .tas | .scc => some (destinationOnly .byte 0 field)
  | .swap | .moveUsp | .moveq | .exg => some (bare .long)
  | .pea | .jsr | .jmp | .lea => some (sourceOnly .long field)
  | .link | .stop | .dbcc => some (fixed .word 1)
  | .illegal | .trap | .unlk | .reset | .nop | .rte | .rts | .trapv | .rtr => some (bare .word)
  | .chk | .divide _ | .multiply _ => some (sourceOnly .word field)
  | .movem => some (destinationOnly (Size.longIf (opcode.getLsbD 6)) 1 field)
  | .bra | .bsr | .bcc => some (fixed .word (if opcode.setWidth 8 = 0#8 then 1 else 0))
  | .decimal _ => some (bare .byte)
  | .arithAddress _ => some (sourceOnly (Size.longIf (opcode.getLsbD 8)) field)
  | .arithExtended _ | .cmpm | .shiftRegister _ _ => size?.map bare
  | .shiftMemory _ _ => some (sourceOnly .word field)

end Layout

/-! ## 2. Instructions -/

/-- An opcode with its words. -/
structure Instruction where
  /-- The address of the opcode. -/
  address : Address
  opcode : Word
  operation : Operation
  size : Size
  /-- The words of the operation itself. -/
  extension : Extension
  source : Option EffectiveAddress
  destination : Option EffectiveAddress
  /-- The number of bytes of the whole instruction. -/
  length : Nat
  deriving DecidableEq, Repr

namespace Instruction

/-- The address past the instruction. -/
def nextAddress (i : Instruction) : Address := i.address + BitVec.ofNat 32 i.length

/-- The register in opcode bits 2 to 0. -/
def lowRegister (i : Instruction) : Fin 8 := (i.opcode.extractLsb' 0 3).toFin

/-- The register in opcode bits 11 to 9. -/
def highRegister (i : Instruction) : Fin 8 := (i.opcode.extractLsb' 9 3).toFin

/-- The small literal in opcode bits 11 to 9, in which zero stands for eight. -/
def quickValue (i : Instruction) : Nat :=
  if i.highRegister = 0 then 8 else i.highRegister.val

/-- The words of the instruction in the order of the instruction stream. -/
def words (i : Instruction) : List Word :=
  i.opcode :: i.extension.toList ++ (i.source.map (·.extension.toList)).getD [] ++
    (i.destination.map (·.extension.toList)).getD []

end Instruction

end Mc68000
