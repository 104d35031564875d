import Mc68000.Size

/-!
# Effective addresses

How an instruction names an operand.

* `AddressingMode` -- the ways, and `AddressingMode.ofField?`, the way of a six-bit field;
* `ControlMode` -- those that give an address in memory and move no register;
* `AddressingMode.extensionWords` -- how many words a mode takes from the instruction stream;
* `Extension` -- at most two such words, with the address of the first;
* `EffectiveAddress` -- a field with its words.
-/

namespace Mc68000

/-- How an address in memory is found without moving a register. -/
inductive ControlMode where
  /-- The address in a register: `(An)`. -/
  | indirect (n : Fin 8)
  /-- A register and a word displacement: `d16(An)`. -/
  | displacement (n : Fin 8)
  /-- A register, an index register and a byte displacement: `d8(An,Xn)`. -/
  | indexed (n : Fin 8)
  /-- A 16-bit address, sign-extended. -/
  | absoluteShort
  /-- A 32-bit address. -/
  | absoluteLong
  /-- The program counter and a word displacement: `d16(PC)`. -/
  | pcDisplacement
  /-- The program counter, an index register and a byte displacement: `d8(PC,Xn)`. -/
  | pcIndexed
  deriving DecidableEq, Repr

/-- How an operand is found. -/
inductive AddressingMode where
  /-- A data register: `Dn`. -/
  | dataDirect (n : Fin 8)
  /-- An address register: `An`. -/
  | addressDirect (n : Fin 8)
  /-- The address in a register, which then moves up: `(An)+`. -/
  | postIncrement (n : Fin 8)
  /-- The address in a register, which first moves down: `-(An)`. -/
  | preDecrement (n : Fin 8)
  /-- An address in memory. -/
  | control (mode : ControlMode)
  /-- A literal in the instruction. -/
  | immediate
  deriving DecidableEq, Repr

/-- How many words the mode takes from the instruction stream. -/
def ControlMode.extensionWords : ControlMode → Nat
  | indirect _ => 0
  | displacement _ | indexed _ | absoluteShort | pcDisplacement | pcIndexed => 1
  | absoluteLong => 2

namespace AddressingMode

/-- The mode of a field: three bits that tell the kind and three that tell a register. Kind 7
    takes the register bits as further kinds, of which 5 to 7 are unassigned. -/
def ofField? (field : BitVec 6) : Option AddressingMode :=
  let reg : Fin 8 := (field.extractLsb' 0 3).toFin
  match (field.extractLsb' 3 3).toNat with
  | 0 => some (dataDirect reg)
  | 1 => some (addressDirect reg)
  | 2 => some (control (.indirect reg))
  | 3 => some (postIncrement reg)
  | 4 => some (preDecrement reg)
  | 5 => some (control (.displacement reg))
  | 6 => some (control (.indexed reg))
  | _ =>
    match reg.val with
    | 0 => some (control .absoluteShort)
    | 1 => some (control .absoluteLong)
    | 2 => some (control .pcDisplacement)
    | 3 => some (control .pcIndexed)
    | 4 => some immediate
    | _ => none

/-- How many words the mode takes from the instruction stream for an operand of a size. -/
def extensionWords : AddressingMode → Size → Nat
  | dataDirect _, _ | addressDirect _, _ | postIncrement _, _ | preDecrement _, _ => 0
  | control mode, _ => mode.extensionWords
  | immediate, .long => 2
  | immediate, _ => 1

/-- Whether the mode names a register and not memory. -/
def isRegister : AddressingMode → Bool
  | dataDirect _ | addressDirect _ => true
  | _ => false

theorem extensionWords_le_two (mode : AddressingMode) (s : Size) :
    mode.extensionWords s ≤ 2 := by
  rcases mode with _ | _ | _ | _ | mode | _
  case control => cases mode <;> simp [extensionWords, ControlMode.extensionWords]
  all_goals cases s <;> simp [extensionWords]

end AddressingMode

/-- At most two words. -/
inductive Extension.Words where
  | none
  | one (w : Word)
  | two (high low : Word)
  deriving DecidableEq, Repr

/-- Words of an instruction past its opcode, at most two, with the address of the first. -/
structure Extension where
  address : Address
  words : Extension.Words
  deriving DecidableEq, Repr

namespace Extension

/-- The words in order. -/
def Words.toList : Words → List Word
  | none => []
  | one w => [w]
  | two high low => [high, low]

/-- The first two words of a list. -/
def Words.ofList : List Word → Words
  | [] => none
  | [w] => one w
  | high :: low :: _ => two high low

/-- The words in order. -/
def toList (e : Extension) : List Word := e.words.toList

/-- The number of words. -/
def size (e : Extension) : Nat := e.toList.length

/-- The first word, zero if there is none. -/
def word (e : Extension) : Word :=
  match e.words with
  | .none => 0
  | .one w => w
  | .two high _ => high

/-- Two words as one long; a single word in its low half. -/
def long (e : Extension) : Long :=
  match e.words with
  | .none => 0
  | .one w => w.setWidth 32
  | .two high low => high ++ low

@[simp] theorem Words.ofList_toList (ws : Words) : Words.ofList ws.toList = ws := by
  cases ws <;> rfl

theorem Words.toList_ofList (ws : List Word) : (Words.ofList ws).toList = ws.take 2 := by
  match ws with
  | [] => rfl
  | [_] => rfl
  | _ :: _ :: _ => rfl

end Extension

/-- An operand as an instruction names it: a field of its opcode and the words of the mode. -/
structure EffectiveAddress where
  field : BitVec 6
  extension : Extension
  deriving DecidableEq, Repr

/-- The addressing mode of an operand, `none` if its field is unassigned. -/
def EffectiveAddress.mode? (ea : EffectiveAddress) : Option AddressingMode :=
  AddressingMode.ofField? ea.field

end Mc68000
