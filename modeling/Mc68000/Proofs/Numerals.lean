import Mathlib.Algebra.Group.Nat.Defs
import Mathlib.Data.List.Basic
import Mc68000.Text.Digits

/-!
# Numbers and their digits

A number is read back from its digits, so no two numbers are written alike.

* `valueFrom?_toDigits` -- the digits that the library writes, read by any reader that knows them;
* `value?_upperHexChars` -- base sixteen, with zeros in front or without;
* `length_upperHexChars` -- a number that fits has exactly the digits asked for;
* `upperHex_inj`, `decimal_inj`, `signedDecimal_inj` -- **one text, one number**.
-/

namespace Mc68000.Digits

/-! ## 1. Reading back -/

theorem valueFrom?_append (base : Nat) (digit? : Char → Option Nat) (acc : Nat)
    (cs ds : List Char) :
    valueFrom? base digit? acc (cs ++ ds) =
      (valueFrom? base digit? acc cs).bind fun v => valueFrom? base digit? v ds := by
  induction cs generalizing acc with
  | nil => rfl
  | cons c cs ih =>
    rw [List.cons_append, valueFrom?, valueFrom?]
    cases digit? c with
    | none => rfl
    | some d => exact ih _

/-- Zeros in front of the digits add nothing. -/
theorem valueFrom?_zeros {base : Nat} {digit? : Char → Option Nat} (hzero : digit? '0' = some 0)
    (count : Nat) : valueFrom? base digit? 0 (List.replicate count '0') = some 0 := by
  induction count with
  | zero => rfl
  | succ count ih =>
    rw [List.replicate_succ, valueFrom?, hzero]
    simpa using ih

/-- Digits are read back by a reader that knows each of them, also in another letter case. -/
theorem valueFrom?_toDigits {base : Nat} {digit? : Char → Option Nat} (letter : Char → Char)
    (hbase : 1 < base) (hdigit : ∀ d < base, digit? (letter d.digitChar) = some d) (n : Nat) :
    valueFrom? base digit? 0 ((Nat.toDigits base n).map letter) = some n := by
  induction n using Nat.strongRecOn with
  | _ n ih =>
    rw [Nat.toDigits_eq_if hbase]
    split
    · rename_i hn
      simp [valueFrom?, hdigit n hn]
    · rename_i hn
      have hless : n / base < n := Nat.div_lt_self (by omega) hbase
      have hlast : n % base < base := Nat.mod_lt n (by omega)
      rw [List.map_append, valueFrom?_append, ih _ hless]
      simp [valueFrom?, hdigit _ hlast, Nat.div_add_mod']

theorem ofHexChar?_toUpper_digitChar (d : Nat) (hd : d < 16) :
    ofHexChar? d.digitChar.toUpper = some d := by
  revert d
  decide

theorem value?_of_ne_nil {base : Nat} {digit? : Char → Option Nat} {cs : List Char}
    (h : cs ≠ []) : value? base digit? cs = valueFrom? base digit? 0 cs := by
  cases cs with
  | nil => exact absurd rfl h
  | cons c cs => rfl

theorem upperHexChars_ne_nil (width n : Nat) : upperHexChars width n ≠ [] := by
  simp [upperHexChars, zeroFill, Nat.toDigits_ne_nil]

/-- **A number in base sixteen is read back**, whatever the number of zeros in front. -/
theorem value?_upperHexChars (width n : Nat) :
    value? 16 ofHexChar? (upperHexChars width n) = some n := by
  rw [value?_of_ne_nil (upperHexChars_ne_nil width n), upperHexChars, zeroFill, valueFrom?_append, valueFrom?_zeros rfl]
  exact valueFrom?_toDigits Char.toUpper (by decide) ofHexChar?_toUpper_digitChar n

/-! ## 2. Lengths and characters -/

/-- A number that fits has exactly as many digits as asked for. -/
theorem length_upperHexChars {width n : Nat} (hwidth : 0 < width) (hn : n < 16 ^ width) :
    (upperHexChars width n).length = width := by
  have hlength : (Nat.toDigits 16 n).length ≤ width :=
    (Nat.length_toDigits_le_iff (by decide) hwidth).mpr hn
  rw [upperHexChars, length_zeroFill, List.length_map]
  omega

/-- The sixteen digits in upper case. -/
def hexAlphabet : List Char := "0123456789ABCDEF".toList

theorem mem_hexAlphabet_of_mem_toDigits (n : Nat) :
    ∀ c ∈ Nat.toDigits 16 n, c.toUpper ∈ hexAlphabet := by
  induction n using Nat.strongRecOn with
  | _ n ih =>
    intro c hc
    have hdigit : ∀ d < 16, d.digitChar.toUpper ∈ hexAlphabet := by decide
    rw [Nat.toDigits_eq_if (by decide)] at hc
    split at hc
    · rename_i hn
      rw [List.mem_singleton.mp hc]
      exact hdigit n hn
    · rcases List.mem_append.mp hc with hc | hc
      · exact ih _ (by omega) c hc
      · rw [List.mem_singleton.mp hc]
        exact hdigit _ (by omega)

theorem mem_hexAlphabet_of_mem_upperHexChars {width n : Nat} {c : Char}
    (h : c ∈ upperHexChars width n) : c ∈ hexAlphabet := by
  rcases List.mem_append.mp h with hc | hc
  · rw [List.eq_of_mem_replicate hc]
    decide
  · obtain ⟨d, hd, rfl⟩ := List.mem_map.mp hc
    exact mem_hexAlphabet_of_mem_toDigits n d hd

/-! ## 3. One text, one number -/

theorem upperHexChars_inj {width width' n n' : Nat}
    (h : upperHexChars width n = upperHexChars width' n') : n = n' := by
  have hvalue := value?_upperHexChars width n
  rw [h, value?_upperHexChars] at hvalue
  exact (Option.some.inj hvalue).symm

theorem upperHex_inj {width width' n n' : Nat} (h : upperHex width n = upperHex width' n') :
    n = n' := upperHexChars_inj (String.ofList_inj.mp h)

theorem toDigits_ten_inj {n n' : Nat} (h : Nat.toDigits 10 n = Nat.toDigits 10 n') : n = n' := by
  rw [← Nat.ofDigitChars_ten_toDigits (n := n), h, Nat.ofDigitChars_ten_toDigits]

theorem decimal_inj {n n' : Nat} (h : decimal n = decimal n') : n = n' :=
  toDigits_ten_inj (String.ofList_inj.mp h)

/-- The characters of a signed number. -/
theorem toList_signedDecimal (z : Int) :
    (signedDecimal z).toList =
      if z < 0 then '-' :: Nat.toDigits 10 z.natAbs else Nat.toDigits 10 z.natAbs := by
  unfold signedDecimal decimal
  split <;> simp

theorem minus_not_mem_toDigits (n : Nat) : '-' ∉ Nat.toDigits 10 n := fun h =>
  absurd (Nat.isDigit_of_mem_toDigits (by decide) (by decide) h) (by decide)

theorem signedDecimal_inj {z z' : Int} (h : signedDecimal z = signedDecimal z') : z = z' := by
  have hchars := congrArg String.toList h
  rw [toList_signedDecimal, toList_signedDecimal] at hchars
  split at hchars <;> split at hchars
  · have hn := toDigits_ten_inj (List.cons.inj hchars).2
    omega
  · exact absurd (hchars ▸ List.mem_cons_self) (minus_not_mem_toDigits _)
  · exact absurd (hchars ▸ List.mem_cons_self) (minus_not_mem_toDigits _)
  · have hn := toDigits_ten_inj hchars
    omega

end Mc68000.Digits
