import Mc68000.Assembly
import Mc68000.Fetch

/-!
# Listings

The assembler listing of a range of memory.

* `Listing.Row` -- one instruction, or one word that is none, and `Row.line`, its line of text;
* `Listing.rowAt` -- the row at an address;
* `Listing.rows?` -- all rows of a range, one after the other.

A word that starts no instruction inside the range is shown as data, and the listing goes on with
the word after it.
-/

namespace Mc68000.Listing

/-- One row of a listing. -/
structure Row where
  address : Address
  words : List Word
  text : String
  /-- Whether the row shows data and not an instruction. -/
  isData : Bool
  deriving DecidableEq, Repr

namespace Row

/-- The words of a row as text. -/
def wordsText (row : Row) : String :=
  " ".intercalate (row.words.map fun w => Digits.upperHex 4 w.toNat)

/-- Blanks behind a text up to a width; a longer text stays as it is. -/
def blankFill (width : Nat) (s : String) : String :=
  s ++ String.ofList (List.replicate (width - s.length) ' ')

/-- A row as a line: address, words in a column of 24 characters, text. -/
def line (row : Row) : String :=
  Digits.upperHex 8 row.address.toNat ++ "  " ++ blankFill 24 row.wordsText ++ row.text

/-- The address past a row. -/
def nextAddress (row : Row) : Address := row.address + BitVec.ofNat 32 (2 * row.words.length)

end Row

/-- The row of an instruction. -/
def instructionRow (i : Instruction) : Row :=
  { address := i.address, words := i.words, text := i.text, isData := false }

/-- The row of a word that is no instruction. -/
def dataRow (address : Address) (w : Word) : Row :=
  { address, words := [w], text := "DC.W " ++ Assembly.hex 4 w.toNat, isData := true }

/-- The row at an address of code, `none` if no word can be read there. -/
def rowAt (c : Code) (pc : Address) : Option Row :=
  match c.fetch pc with
  | .ok (some i) _ => some (instructionRow i)
  | _ =>
    match c.memory.readWord pc with
    | .ok w => some (dataRow pc w)
    | .error _ => none

/-- The rows from an address on, after those in `acc`. With `none` the listing has no end: it has
    reached the top of the address space and starts over. -/
def rowsFrom? (c : Code) (acc : Array Row) (pc : Address) : Option (List Row) :=
  if pc < c.codeEnd then
    match rowAt c pc with
    | none => some acc.toList
    | some row =>
      if pc < row.nextAddress then rowsFrom? c (acc.push row) row.nextAddress else none
  else some acc.toList
termination_by Long.count - pc.toNat
decreasing_by
  have h := Long.toNat_lt_count row.nextAddress
  simp only [BitVec.lt_def] at *
  omega

/-- The listing of a memory from `start` up to `endAddress`. It stops early where no word can be
    read. -/
def rows? (memory : Memory) (start endAddress : Address) : Option (List Row) :=
  rowsFrom? { memory, codeEnd := endAddress } #[] start

end Mc68000.Listing
