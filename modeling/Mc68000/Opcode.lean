import Mc68000.Word
import Mc68000.Operation

/-!
# Opcodes

Which operation an opcode stands for.

* `Pattern` -- the opcodes that carry given bits under a mask, and what they stand for;
* `Pattern.group` -- the patterns of one value of the top four bits, in order of precedence;
* `Operation.ofOpcode?` -- the operation of the first pattern that an opcode fits.

Patterns of one group overlap on purpose: an encoding that would make no sense for a general
pattern is taken by a special one in front of it.
-/

namespace Mc68000

/-- A set of opcodes with one meaning. -/
structure Pattern where
  value : Word
  mask : Word
  operation : Operation
  deriving DecidableEq

namespace Pattern

/-- Whether an opcode belongs to the set. -/
def fits (p : Pattern) (opcode : Word) : Bool := opcode &&& p.mask = p.value

/-- Immediates, bit operations and `MOVEP`. -/
def immediateAndBit : List Pattern :=
  [⟨0x003C, 0xFFFF, .logicToCcr .or⟩,
   ⟨0x007C, 0xFFFF, .logicToSr .or⟩,
   ⟨0x0000, 0xFF00, .logicImmediate .or⟩,
   ⟨0x023C, 0xFFFF, .logicToCcr .and⟩,
   ⟨0x027C, 0xFFFF, .logicToSr .and⟩,
   ⟨0x0200, 0xFF00, .logicImmediate .and⟩,
   ⟨0x0400, 0xFF00, .arithImmediate .sub⟩,
   ⟨0x0600, 0xFF00, .arithImmediate .add⟩,
   ⟨0x0A3C, 0xFFFF, .logicToCcr .eor⟩,
   ⟨0x0A7C, 0xFFFF, .logicToSr .eor⟩,
   ⟨0x0A00, 0xFF00, .logicImmediate .eor⟩,
   ⟨0x0C00, 0xFF00, .arithImmediate .cmp⟩,
   ⟨0x0108, 0xF138, .movep⟩,
   ⟨0x0800, 0xFFC0, .bitStatic .test⟩,
   ⟨0x0840, 0xFFC0, .bitStatic .change⟩,
   ⟨0x0880, 0xFFC0, .bitStatic .clear⟩,
   ⟨0x08C0, 0xFFC0, .bitStatic .set⟩,
   ⟨0x0100, 0xF1C0, .bitDynamic .test⟩,
   ⟨0x0140, 0xF1C0, .bitDynamic .change⟩,
   ⟨0x0180, 0xF1C0, .bitDynamic .clear⟩,
   ⟨0x01C0, 0xF1C0, .bitDynamic .set⟩]

/-- The operations with an opcode of their own or with one operand. -/
def miscellaneous : List Pattern :=
  [⟨0x40C0, 0xFFC0, .moveFromSr⟩,
   ⟨0x44C0, 0xFFC0, .moveToCcr⟩,
   ⟨0x46C0, 0xFFC0, .moveToSr⟩,
   ⟨0x4000, 0xFF00, .negx⟩,
   ⟨0x4200, 0xFF00, .clr⟩,
   ⟨0x4400, 0xFF00, .neg⟩,
   ⟨0x4600, 0xFF00, .not⟩,
   ⟨0x4880, 0xFFB8, .ext⟩,
   ⟨0x4800, 0xFFC0, .nbcd⟩,
   ⟨0x4840, 0xFFF8, .swap⟩,
   ⟨0x4840, 0xFFC0, .pea⟩,
   ⟨0x4AFC, 0xFFFF, .illegal⟩,
   ⟨0x4AC0, 0xFFC0, .tas⟩,
   ⟨0x4A00, 0xFF00, .tst⟩,
   ⟨0x4E40, 0xFFF0, .trap⟩,
   ⟨0x4E50, 0xFFF8, .link⟩,
   ⟨0x4E58, 0xFFF8, .unlk⟩,
   ⟨0x4E60, 0xFFF0, .moveUsp⟩,
   ⟨0x4E70, 0xFFFF, .reset⟩,
   ⟨0x4E71, 0xFFFF, .nop⟩,
   ⟨0x4E72, 0xFFFF, .stop⟩,
   ⟨0x4E73, 0xFFFF, .rte⟩,
   ⟨0x4E75, 0xFFFF, .rts⟩,
   ⟨0x4E76, 0xFFFF, .trapv⟩,
   ⟨0x4E77, 0xFFFF, .rtr⟩,
   ⟨0x4E80, 0xFFC0, .jsr⟩,
   ⟨0x4EC0, 0xFFC0, .jmp⟩,
   ⟨0x4880, 0xFB80, .movem⟩,
   ⟨0x4180, 0xF1C0, .chk⟩,
   ⟨0x41C0, 0xF1C0, .lea⟩]

/-- Shifts and rotates. -/
def shifts : List Pattern :=
  [⟨0xE0C0, 0xFFC0, .shiftMemory .arithmetic .right⟩,
   ⟨0xE1C0, 0xFFC0, .shiftMemory .arithmetic .left⟩,
   ⟨0xE2C0, 0xFFC0, .shiftMemory .logical .right⟩,
   ⟨0xE3C0, 0xFFC0, .shiftMemory .logical .left⟩,
   ⟨0xE4C0, 0xFFC0, .shiftMemory .rotateExtend .right⟩,
   ⟨0xE5C0, 0xFFC0, .shiftMemory .rotateExtend .left⟩,
   ⟨0xE6C0, 0xFFC0, .shiftMemory .rotate .right⟩,
   ⟨0xE7C0, 0xFFC0, .shiftMemory .rotate .left⟩,
   ⟨0xE000, 0xF118, .shiftRegister .arithmetic .right⟩,
   ⟨0xE100, 0xF118, .shiftRegister .arithmetic .left⟩,
   ⟨0xE008, 0xF118, .shiftRegister .logical .right⟩,
   ⟨0xE108, 0xF118, .shiftRegister .logical .left⟩,
   ⟨0xE010, 0xF118, .shiftRegister .rotateExtend .right⟩,
   ⟨0xE110, 0xF118, .shiftRegister .rotateExtend .left⟩,
   ⟨0xE018, 0xF118, .shiftRegister .rotate .right⟩,
   ⟨0xE118, 0xF118, .shiftRegister .rotate .left⟩]

/-- The patterns of one value of the top four opcode bits, in order of precedence. The values 10
    and 15 are unassigned. Between the multiplications and `EXG`, the pattern `0xC180` withholds
    the one register form that is neither an exchange nor an `AND`. -/
def group (top : BitVec 4) : List Pattern :=
  match top.toNat with
  | 0 => immediateAndBit
  | 1 => [⟨0x1000, 0xF000, .move⟩]
  | 2 => [⟨0x2040, 0xF1C0, .movea⟩, ⟨0x2000, 0xF000, .move⟩]
  | 3 => [⟨0x3040, 0xF1C0, .movea⟩, ⟨0x3000, 0xF000, .move⟩]
  | 4 => miscellaneous
  | 5 =>
    [⟨0x50C8, 0xF0F8, .dbcc⟩,
     ⟨0x50C0, 0xF0C0, .scc⟩,
     ⟨0x5000, 0xF100, .arithQuick .add⟩,
     ⟨0x5100, 0xF100, .arithQuick .sub⟩]
  | 6 => [⟨0x6000, 0xFF00, .bra⟩, ⟨0x6100, 0xFF00, .bsr⟩, ⟨0x6000, 0xF000, .bcc⟩]
  | 7 => [⟨0x7000, 0xF100, .moveq⟩]
  | 8 =>
    [⟨0x80C0, 0xF1C0, .divide .unsigned⟩,
     ⟨0x81C0, 0xF1C0, .divide .signed⟩,
     ⟨0x8100, 0xF1F0, .decimal .sub⟩,
     ⟨0x8000, 0xF000, .logic .or⟩]
  | 9 =>
    [⟨0x90C0, 0xF0C0, .arithAddress .sub⟩,
     ⟨0x9100, 0xF130, .arithExtended .sub⟩,
     ⟨0x9000, 0xF000, .arith .sub⟩]
  | 11 =>
    [⟨0xB0C0, 0xF0C0, .arithAddress .cmp⟩,
     ⟨0xB108, 0xF138, .cmpm⟩,
     ⟨0xB100, 0xF100, .logic .eor⟩,
     ⟨0xB000, 0xF100, .arith .cmp⟩]
  | 12 =>
    [⟨0xC0C0, 0xF1C0, .multiply .unsigned⟩,
     ⟨0xC1C0, 0xF1C0, .multiply .signed⟩,
     ⟨0xC100, 0xF1F0, .decimal .add⟩,
     ⟨0xC180, 0xF1F8, .illegal⟩,
     ⟨0xC100, 0xF130, .exg⟩,
     ⟨0xC000, 0xF000, .logic .and⟩]
  | 13 =>
    [⟨0xD0C0, 0xF0C0, .arithAddress .add⟩,
     ⟨0xD100, 0xF130, .arithExtended .add⟩,
     ⟨0xD000, 0xF000, .arith .add⟩]
  | 14 => shifts
  | _ => []

end Pattern

namespace Operation

/-- The operation that an opcode stands for. -/
def ofOpcode? (opcode : Word) : Option Operation :=
  ((Pattern.group (opcode.extractLsb' 12 4)).find? (·.fits opcode)).map (·.operation)

/-- The number of opcodes that stand for an operation. -/
def assignedCount : Nat :=
  (List.range 65536).countP fun n => (ofOpcode? (BitVec.ofNat 16 n)).isSome

/-- An opcode stands for an operation only through a pattern that it fits. -/
theorem exists_pattern_of_ofOpcode? {opcode : Word} {op : Operation}
    (h : ofOpcode? opcode = some op) :
    ∃ p ∈ Pattern.group (opcode.extractLsb' 12 4), p.fits opcode = true ∧ p.operation = op := by
  obtain ⟨p, hp, hop⟩ := Option.map_eq_some_iff.mp h
  have hfits : p.fits opcode = true := by simpa using List.find?_some hp
  exact ⟨p, List.mem_of_find?_eq_some hp, hfits, hop⟩

end Operation

end Mc68000
