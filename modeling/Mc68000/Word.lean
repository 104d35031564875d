/-!
# Machine words

The four widths that the processor moves around, as bit vectors:

* `Byte`, `Word`, `Long` -- 8, 16 and 32 bits;
* `Address` -- a 32-bit byte address, and `Long.count`, how many there are;
* `registerCount_ne_zero` -- the registers of a bank have numbers;
* `Word.displacement` -- a word as a signed distance;
* `Word.bytes`, `Long.bytes` -- a value as bytes, most significant first.
-/

namespace Mc68000

/-- Eight bits. -/
abbrev Byte := BitVec 8

/-- Sixteen bits: the unit that instructions are made of. -/
abbrev Word := BitVec 16

/-- Thirty-two bits: the width of a register. -/
abbrev Long := BitVec 32

/-- A byte address. Address arithmetic wraps at 2^32. -/
abbrev Address := BitVec 32

/-- A bank has eight registers, and `Fin 8` holds their numbers. The zero is the one that the
    literals of `Fin` are made with. -/
instance registerCount_ne_zero : @NeZero Nat Zero.ofOfNat0 8 := ⟨by decide⟩

/-- The number of longs, and so of addresses: 2^32. -/
def Long.count : Nat := 0x100000000

theorem Long.toNat_lt_count (v : Long) : v.toNat < Long.count := v.isLt

/-- The bytes of a word in memory order. -/
def Word.bytes (w : Word) : List Byte :=
  [w.extractLsb' 8 8, w.extractLsb' 0 8]

/-- The bytes of a long in memory order. -/
def Long.bytes (v : Long) : List Byte :=
  [v.extractLsb' 24 8, v.extractLsb' 16 8, v.extractLsb' 8 8, v.extractLsb' 0 8]

/-- A word read as a signed distance. -/
def Word.displacement (w : Word) : Long := w.signExtend 32

/-- The low byte of a word read as a signed distance. -/
def Word.byteDisplacement (w : Word) : Long := (w.setWidth 8).signExtend 32

/-- The bytes of a sequence of words in memory order. -/
def wordsToBytes (ws : List Word) : List Byte := ws.flatMap Word.bytes

@[simp] theorem wordsToBytes_nil : wordsToBytes [] = [] := rfl

@[simp] theorem wordsToBytes_cons (w : Word) (ws : List Word) :
    wordsToBytes (w :: ws) = w.bytes ++ wordsToBytes ws := rfl

@[simp] theorem length_wordsToBytes (ws : List Word) :
    (wordsToBytes ws).length = 2 * ws.length := by
  induction ws with
  | nil => rfl
  | cons w ws ih => simp [ih, Word.bytes]; omega

end Mc68000
