import Mc68000.Word
import Mc68000.Text.Digits

/-!
# Hex dumps

* `HexDump.rows` -- bytes in rows of sixteen, the last one shorter;
* `HexDump.line` -- a row behind its address;
* `hexDump` -- all rows as text.
-/

namespace Mc68000

namespace HexDump

/-- The number of bytes of a full row. -/
def rowLength : Nat := 16

/-- The rows of bytes behind those in `acc`. -/
def rowsFrom (acc : Array (List Byte)) (bytes : List Byte) : Array (List Byte) :=
  match bytes with
  | [] => acc
  | b :: bs => rowsFrom (acc.push ((b :: bs).take rowLength)) ((b :: bs).drop rowLength)
termination_by bytes.length
decreasing_by
  simp only [rowLength, List.length_drop, List.length_cons]
  omega

/-- Bytes in rows of sixteen. -/
def rows (bytes : List Byte) : List (List Byte) := (rowsFrom #[] bytes).toList

/-- A row of bytes behind the address of its first byte. -/
def line (address : Address) (row : List Byte) : String :=
  Digits.upperHex 8 address.toNat ++ "  " ++
    " ".intercalate (row.map fun b => Digits.upperHex 2 b.toNat) ++ "\n"

end HexDump

/-- Bytes from an address on as text, sixteen to a line. -/
def hexDump (address : Address) (bytes : List Byte) : String :=
  String.join ((HexDump.rows bytes).zipIdx.map fun (row, k) =>
    HexDump.line (address + BitVec.ofNat 32 (HexDump.rowLength * k)) row)

end Mc68000
