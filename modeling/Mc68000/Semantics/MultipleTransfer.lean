import Mc68000.Semantics.Exec

/-!
# Moving many values

* `Register.ofMask` -- the registers of a `MOVEM` mask;
* `storeUp`, `storeDown`, `loadUp` -- a list of registers to and from consecutive operands;
* `Exec.movem` -- `MOVEM`;
* `storeAlternate`, `loadAlternate` -- bytes to and from every second address;
* `Exec.movep` -- `MOVEP`.

A transfer that traps has made the transfers before it, and has not yet moved the address register.
-/

namespace Mc68000

/-- The register at a position in the order D0 to D7, A0 to A7. -/
def Register.ofPosition (k : Fin 16) : Register :=
  if h : k.val < 8 then .data ⟨k.val, h⟩ else .address ⟨k.val - 8, by omega⟩

/-- All registers in the order D0 to D7, A0 to A7. -/
def Register.all : List Register := (List.finRange 16).map Register.ofPosition

/-- The positions of the bits of a mask that are set, lowest first. -/
def maskPositions (mask : Word) : List (Fin 16) :=
  (List.finRange 16).filter fun k => mask.getLsbD k.val

/-- The registers of a mask, D0 at bit 0. -/
def Register.ofMask (mask : Word) : List Register := (maskPositions mask).map Register.ofPosition

/-- The registers of a mask from A7 at bit 0 downward. -/
def Register.ofReversedMask (mask : Word) : List Register :=
  (maskPositions mask).map fun k => Register.ofPosition k.rev

namespace Exec

/-! ## 1. Lists of registers -/

/-- The value of a register. -/
def readRegister (reg : Register) : Exec Long := return (← registers).read reg

/-- Stores registers at ascending addresses and returns the address past the last. -/
def storeUp (size : Size) : List Register → Address → Exec Address
  | [], a => return a
  | reg :: regs, a => do
    let v ← readRegister reg
    writeMemory a size v
    storeUp size regs (a + BitVec.ofNat 32 size.bytes)

/-- Stores registers at descending addresses, below the given one, and returns the last address. -/
def storeDown (size : Size) : List Register → Address → Exec Address
  | [], a => return a
  | reg :: regs, a => do
    let below := a - BitVec.ofNat 32 size.bytes
    let v ← readRegister reg
    writeMemory below size v
    storeDown size regs below

/-- Loads registers from ascending addresses, sign-extended, and returns the address past the
    last. -/
def loadUp (size : Size) : List Register → Address → Exec Address
  | [], a => return a
  | reg :: regs, a => do
    let v ← readMemory a size
    modifyRegisters (·.write reg (size.signExtend v) .long)
    loadUp size regs (a + BitVec.ofNat 32 size.bytes)

/-- The mode of the operand of `MOVEM`. -/
def movemMode (i : Instruction) : Exec AddressingMode :=
  match i.destination.bind (·.mode?) with
  | some mode => return mode
  | none => throw .illegalInstruction

/-- Stores the registers of a mask: `MOVEM`. With `-(An)` they go down from A7 to D0, and `An` takes
    the last address; a mode that moves no register stores them upward. -/
def movemStore (i : Instruction) : Exec Unit := do
  let mask := i.extension.word
  match ← movemMode i with
  | .preDecrement n =>
    let start ← readAddress n
    let last ← storeDown i.size (Register.ofReversedMask mask) start
    writeAddress n last
  | _ =>
    let start ← control i.destination
    let _ ← storeUp i.size (Register.ofMask mask) start

/-- Loads the registers of a mask, upward: `MOVEM`. With `(An)+` the register takes the address past
    the last operand, even if it was loaded itself. -/
def movemLoad (i : Instruction) : Exec Unit := do
  let mask := i.extension.word
  match ← movemMode i with
  | .postIncrement n =>
    let start ← readAddress n
    let past ← loadUp i.size (Register.ofMask mask) start
    writeAddress n past
  | _ =>
    let start ← control i.destination
    let _ ← loadUp i.size (Register.ofMask mask) start

/-- Moves the registers of a mask, in the direction that opcode bit 10 tells: `MOVEM`. -/
def movem (i : Instruction) : Exec Unit :=
  if i.opcode.getLsbD 10 then movemLoad i else movemStore i

/-! ## 2. Alternate bytes -/

/-- Stores bytes at every second address. -/
def storeAlternate : List Byte → Address → Exec Unit
  | [], _ => return ()
  | b :: bs, a => do
    writeMemory a .byte (b.setWidth 32)
    storeAlternate bs (a + 2)

/-- Loads bytes from every second address onto the low end of `acc`. -/
def loadAlternate : Nat → Address → Long → Exec Long
  | 0, _, acc => return acc
  | count + 1, a, acc => do
    let b ← readMemory a .byte
    loadAlternate count (a + 2) ((acc <<< 8) ||| b)

/-- Moves a data register to or from every second byte, most significant first: `MOVEP`. -/
def movep (i : Instruction) : Exec Unit := do
  let base := (← readAddress i.lowRegister) + wordDistance i
  if i.opcode.getLsbD 7 then
    let v ← readData i.highRegister
    storeAlternate (Memory.operandBytes v i.size) base
  else
    let v ← loadAlternate i.size.bytes base 0
    writeData i.highRegister v i.size

end Exec

end Mc68000
