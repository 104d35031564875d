/-!
# Numbers as text

* `Digits.upperHex`, `Digits.lowerHex` -- base sixteen, filled with zeros up to a width;
* `Digits.decimal`, `Digits.signedDecimal` -- base ten;
* `Digits.ofHexChar?`, `Digits.ofDecimalChar?` -- the value of one digit;
* `Digits.value?` -- the number that a run of digits denotes.
-/

namespace Mc68000.Digits

/-- The value of a base-sixteen digit of either case. -/
def ofHexChar? (c : Char) : Option Nat :=
  if '0' ≤ c ∧ c ≤ '9' then some (c.toNat - 48)
  else if 'a' ≤ c ∧ c ≤ 'f' then some (c.toNat - 87)
  else if 'A' ≤ c ∧ c ≤ 'F' then some (c.toNat - 55)
  else none

/-- The value of a base-ten digit. Only the ten ASCII digits count. -/
def ofDecimalChar? (c : Char) : Option Nat :=
  if '0' ≤ c ∧ c ≤ '9' then some (c.toNat - 48) else none

/-- The number that a run of digits denotes after the digits already read gave `acc`, or `none` if
    a character is no digit. -/
def valueFrom? (base : Nat) (digit? : Char → Option Nat) (acc : Nat) : List Char → Option Nat
  | [] => some acc
  | c :: cs =>
    match digit? c with
    | some d => valueFrom? base digit? (acc * base + d) cs
    | none => none

/-- The number that a non-empty run of digits denotes. -/
def value? (base : Nat) (digit? : Char → Option Nat) : List Char → Option Nat
  | [] => none
  | cs => valueFrom? base digit? 0 cs

/-- Zeros in front of a text up to a width; a longer text stays as it is. -/
def zeroFill (width : Nat) (cs : List Char) : List Char :=
  List.replicate (width - cs.length) '0' ++ cs

/-- The base-sixteen digits of a number in lower case, the most significant first. -/
def lowerHexChars (width n : Nat) : List Char := zeroFill width (Nat.toDigits 16 n)

/-- The base-sixteen digits of a number in upper case, the most significant first. -/
def upperHexChars (width n : Nat) : List Char :=
  zeroFill width ((Nat.toDigits 16 n).map Char.toUpper)

/-- A number in base sixteen, lower case, with at least `width` digits. -/
def lowerHex (width n : Nat) : String := String.ofList (lowerHexChars width n)

/-- A number in base sixteen, upper case, with at least `width` digits. -/
def upperHex (width n : Nat) : String := String.ofList (upperHexChars width n)

/-- A number in base ten. -/
def decimal (n : Nat) : String := String.ofList (Nat.toDigits 10 n)

/-- An integer in base ten, with a minus sign if it is negative. -/
def signedDecimal (z : Int) : String :=
  if z < 0 then "-" ++ decimal z.natAbs else decimal z.natAbs

theorem length_zeroFill (width : Nat) (cs : List Char) :
    (zeroFill width cs).length = max width cs.length := by
  simp [zeroFill]; omega

end Mc68000.Digits
