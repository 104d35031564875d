import Mc68000.EffectiveAddress
import Mc68000.Registers
import Mc68000.Trap

/-!
# Operands

Where an effective address leads.

* `Operand` -- a register, a place in memory or a literal;
* `indexedAddress` -- base, index and displacement of a brief index word;
* `ControlMode.address` -- the address of a mode that moves no register;
* `AddressingMode.operand` -- the operand of any mode, with the register that the mode moves
  already moved;
* `EffectiveAddress.resolve`, `EffectiveAddress.controlAddress` -- the same for an operand field,
  which may be unassigned.

An instruction resolves an operand once and may then both read and write it.
-/

namespace Mc68000

/-- A place that an instruction reads or writes, or a literal that it reads. -/
inductive Operand where
  | register (r : Register)
  | memory (a : Address)
  | immediate (v : Long)
  deriving DecidableEq, Repr

namespace Operand

/-- A data register as an operand. -/
abbrev data (n : Fin 8) : Operand := register (.data n)

/-- An address register as an operand. -/
abbrev address (n : Fin 8) : Operand := register (.address n)

/-- The address of an operand in memory. -/
def memoryAddress : Operand → Except Trap Address
  | memory a => .ok a
  | _ => .error .illegalInstruction

end Operand

/-- The address that a brief index word leads to: bit 15 tells the kind of the index register, bits
    14 to 12 its number, bit 11 whether all of it counts or its sign-extended low word, and the
    low byte is a displacement. -/
def indexedAddress (r : Registers) (base : Address) (w : Word) : Address :=
  let n : Fin 8 := (w.extractLsb' 12 3).toFin
  let raw := if w.getLsbD 15 then r.readAddress n else r.readData n
  let index := if w.getLsbD 11 then raw else Size.word.signExtend raw
  base + index + w.byteDisplacement

/-- The address that a mode leads to. Relative to the program counter means relative to the
    mode's own word. -/
def ControlMode.address (mode : ControlMode) (e : Extension) (r : Registers) : Address :=
  match mode with
  | indirect n => r.readAddress n
  | displacement n => r.readAddress n + e.word.displacement
  | indexed n => indexedAddress r (r.readAddress n) e.word
  | absoluteShort => e.word.displacement
  | absoluteLong => e.long
  | pcDisplacement => e.address + e.word.displacement
  | pcIndexed => indexedAddress r e.address e.word

/-- The operand that a mode leads to, and the registers after the mode has moved its own. -/
def AddressingMode.operand (mode : AddressingMode) (e : Extension) (size : Size)
    (r : Registers) : Operand × Registers :=
  match mode with
  | dataDirect n => (.data n, r)
  | addressDirect n => (.address n, r)
  | postIncrement n => (.memory (r.readAddress n), r.increment n size)
  | preDecrement n =>
    let moved := r.decrement n size
    (.memory (moved.readAddress n), moved)
  | control mode => (.memory (mode.address e r), r)
  | immediate =>
    (.immediate (if size = .long then e.long else size.truncate (e.word.setWidth 32)), r)

namespace EffectiveAddress

/-- The operand that a field leads to, and the registers after the mode has moved its own. -/
def resolve (ea : EffectiveAddress) (size : Size) (r : Registers) :
    Except Trap (Operand × Registers) :=
  match ea.mode? with
  | some mode => .ok (mode.operand ea.extension size r)
  | none => .error .illegalInstruction

/-- The address that a field leads to if its mode moves no register. -/
def controlAddress (ea : EffectiveAddress) (r : Registers) : Except Trap Address :=
  match ea.mode? with
  | some (.control mode) => .ok (mode.address ea.extension r)
  | _ => .error .illegalInstruction

end EffectiveAddress

end Mc68000
