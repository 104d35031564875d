import Mc68000.Semantics.Exec

/-!
# Moving values

`MOVE` and its relatives, the register exchanges, addresses as values, and stack frames.
-/

namespace Mc68000.Exec

/-- Copies an operand: `MOVE`. The source is resolved and read first, then the destination is
    resolved. -/
def move (i : Instruction) : Exec Unit := do
  let src ← source i
  let v ← read src i.size
  let dst ← destination i
  write dst i.size v
  changeFlags (.logical v) i.size

/-- Copies an operand, sign-extended, to a whole address register: `MOVEA`. -/
def movea (i : Instruction) : Exec Unit := do
  let src ← source i
  let v ← read src i.size
  writeAddress i.highRegister (i.size.signExtend v)

/-- Loads the low byte of the opcode, sign-extended: `MOVEQ`. -/
def moveq (i : Instruction) : Exec Unit := do
  let v := i.opcode.byteDisplacement
  writeData i.highRegister v .long
  changeFlags (.logical v) .long

/-- Writes zero, without a read: `CLR`. -/
def clr (i : Instruction) : Exec Unit := do
  let dst ← destination i
  write dst i.size 0
  changeFlags (.logical 0) i.size

/-- Extends the sign of a byte to a word, or of a word to a long: `EXT`. -/
def ext (i : Instruction) : Exec Unit := do
  let v ← readData i.lowRegister
  if i.opcode.getLsbD 6 then
    let result := Size.word.signExtend v
    writeData i.lowRegister result .long
    changeFlags (.logical result) .long
  else
    let result := Size.byte.signExtend v
    writeData i.lowRegister result .word
    changeFlags (.logical result) .word

/-- Trades the halves of a data register: `SWAP`. -/
def swap (i : Instruction) : Exec Unit := do
  let v ← readData i.lowRegister
  let result := v.extractLsb' 0 16 ++ v.extractLsb' 16 16
  writeData i.lowRegister result .long
  changeFlags (.logical result) .long

/-- The two registers that `EXG` names. -/
def exchanged? (i : Instruction) : Option (Register × Register) :=
  match (i.opcode.extractLsb' 3 5).toNat with
  | 0x08 => some (.data i.highRegister, .data i.lowRegister)
  | 0x09 => some (.address i.highRegister, .address i.lowRegister)
  | 0x11 => some (.data i.highRegister, .address i.lowRegister)
  | _ => none

/-- Trades the values of two registers: `EXG`. -/
def exg (i : Instruction) : Exec Unit := do
  match exchanged? i with
  | none => throw .illegalInstruction
  | some (x, y) =>
    modifyRegisters fun r => (r.write x (r.read y) .long).write y (r.read x) .long

/-- Loads the address of an operand: `LEA`. -/
def lea (i : Instruction) : Exec Unit := do
  let a ← control i.source
  writeAddress i.highRegister a

/-- Pushes the address of an operand: `PEA`. -/
def pea (i : Instruction) : Exec Unit := do
  let a ← control i.source
  pushLong a

/-- Saves a frame pointer on the stack, points it there, and makes room below: `LINK`. -/
def link (i : Instruction) : Exec Unit := do
  let saved ← readAddress i.lowRegister
  pushLong saved
  let sp := (← registers).sp
  writeAddress i.lowRegister sp
  modifyRegisters (·.setSp (sp + wordDistance i))

/-- Drops all above a frame pointer and takes back the saved one: `UNLK`. -/
def unlk (i : Instruction) : Exec Unit := do
  let frame ← readAddress i.lowRegister
  modifyRegisters (·.setSp frame)
  let saved ← popLong
  writeAddress i.lowRegister saved

/-- Writes a byte of ones if the condition holds, else of zeros: `Scc`. -/
def scc (i : Instruction) : Exec Unit := do
  let v : Long := if ← holds (Condition.ofOpcode i.opcode) then 0xFF else 0
  let dst ← destination i
  write dst .byte v

end Mc68000.Exec
