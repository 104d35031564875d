import Mathlib.Algebra.Order.Ring.Int
import Mc68000.Proofs.SizedNumber
import Mc68000.Semantics

/-!
# Arithmetic that is not meant to wrap

Addresses and operands are computed modulo 2^32. Besides, some operations compute with the plain
operators of fixed widths, which have no result where they leave the width: the count of calls, the
unsigned product, the quotients, the masks of bits, the register numbers of `MOVEM`, the bytes of
`MOVEP` and the digits of packed decimals.

* `Checked.add?` … `Checked.signedMod?` -- the plain operators, `none` where they have no result;
* `Checked.product?`, `quotient?`, `signedQuotient?`, `bitMask?`, `decimalSum?`,
  `decimalDifference?`, `registers?`, `storedBytes?`, `shiftedIn?` -- what the operations compute
  with them;
* `Checked.product?_eq` … `Checked.shiftedIn?_eq` -- **all of them have a result, which is the one
  of the operation.**
-/

namespace Mc68000.Checked

/-! ## 1. Plain operators -/

section

variable {w : Nat} (a b : BitVec w) (n : Nat)

/-- A sum without a carry out. -/
def add? : Option (BitVec w) := if a.uaddOverflow b then none else some (a + b)

/-- A difference without a borrow. -/
def sub? : Option (BitVec w) := if a.usubOverflow b then none else some (a - b)

/-- A product that fits. -/
def mul? : Option (BitVec w) := if a.umulOverflow b then none else some (a * b)

/-- A quotient by a divisor other than zero. -/
def div? : Option (BitVec w) := if b = 0 then none else some (a / b)

/-- A remainder by a divisor other than zero. -/
def mod? : Option (BitVec w) := if b = 0 then none else some (a % b)

/-- A sum of two's-complement numbers that is one. -/
def signedAdd? : Option (BitVec w) := if a.saddOverflow b then none else some (a + b)

/-- A difference of two's-complement numbers that is one. -/
def signedSub? : Option (BitVec w) := if a.ssubOverflow b then none else some (a - b)

/-- A quotient of two's-complement numbers that is one. -/
def signedDiv? : Option (BitVec w) :=
  if b = 0 ∨ a = BitVec.intMin w ∧ b = -1#w then none else some (a.sdiv b)

/-- The remainder of such a quotient. -/
def signedMod? : Option (BitVec w) :=
  if b = 0 ∨ a = BitVec.intMin w ∧ b = -1#w then none else some (a.srem b)

/-- A shift to the left by less than the width. -/
def shiftLeft? : Option (BitVec w) := if n < w then some (a <<< n) else none

/-- A shift to the right by less than the width. -/
def shiftRight? : Option (BitVec w) := if n < w then some (a >>> n) else none

variable {a b n}

theorem add?_of_lt (h : a.toNat + b.toNat < 2 ^ w) : add? a b = some (a + b) :=
  if_neg (by simpa [BitVec.uaddOverflow] using h)

theorem add?_eq_none_iff : add? a b = none ↔ 2 ^ w ≤ a.toNat + b.toNat := by
  unfold add? BitVec.uaddOverflow
  split <;> simp_all

theorem sub?_of_le (h : b.toNat ≤ a.toNat) : sub? a b = some (a - b) :=
  if_neg (by simpa [BitVec.usubOverflow] using h)

theorem mul?_of_lt (h : a.toNat * b.toNat < 2 ^ w) : mul? a b = some (a * b) :=
  if_neg (by simpa [BitVec.umulOverflow] using h)

theorem shiftLeft?_of_lt (h : n < w) : shiftLeft? a n = some (a <<< n) := if_pos h

theorem shiftRight?_of_lt (h : n < w) : shiftRight? a n = some (a >>> n) := if_pos h

theorem add?_ofNat {x y : Nat} (h : x + y < 2 ^ w) :
    add? (BitVec.ofNat w x) (BitVec.ofNat w y) = some (BitVec.ofNat w (x + y)) := by
  have hx : x < 2 ^ w := by omega
  have hy : y < 2 ^ w := by omega
  rw [BitVec.ofNat_add, add?_of_lt]
  rwa [BitVec.toNat_ofNat, BitVec.toNat_ofNat, Nat.mod_eq_of_lt hx, Nat.mod_eq_of_lt hy]

theorem sub?_ofNat {x y : Nat} (hx : x < 2 ^ w) (h : y ≤ x) :
    sub? (BitVec.ofNat w x) (BitVec.ofNat w y) = some (BitVec.ofNat w (x - y)) := by
  have hy : y < 2 ^ w := by omega
  rw [← BitVec.ofNat_sub_ofNat_of_le x y hy h, sub?_of_le]
  rwa [BitVec.toNat_ofNat, BitVec.toNat_ofNat, Nat.mod_eq_of_lt hx, Nat.mod_eq_of_lt hy]

end

/-- A word stands for every small integer. -/
theorem toInt_ofInt_small {x : Int} (hx : x.natAbs < 100) : (BitVec.ofInt 16 x).toInt = x :=
  BitVec.toInt_ofInt_eq_self (by decide) (by simp; omega) (by simp; omega)

theorem signedAdd?_ofInt {x y : Int} (hx : x.natAbs < 100) (hy : y.natAbs < 100) :
    signedAdd? (BitVec.ofInt 16 x) (BitVec.ofInt 16 y) = some (BitVec.ofInt 16 (x + y)) := by
  rw [BitVec.ofInt_add]
  refine if_neg ?_
  unfold BitVec.saddOverflow
  rw [toInt_ofInt_small hx, toInt_ofInt_small hy]
  simp
  omega

theorem signedSub?_ofInt {x y : Int} (hx : x.natAbs < 100) (hy : y.natAbs < 100) :
    signedSub? (BitVec.ofInt 16 x) (BitVec.ofInt 16 y) = some (BitVec.ofInt 16 (x - y)) := by
  have hsub : BitVec.ofInt 16 x - BitVec.ofInt 16 y = BitVec.ofInt 16 (x - y) :=
    BitVec.eq_of_toInt_eq (by simp [BitVec.toInt_sub, BitVec.toInt_ofInt])
  rw [← hsub]
  refine if_neg ?_
  unfold BitVec.ssubOverflow
  rw [toInt_ofInt_small hx, toInt_ofInt_small hy]
  simp
  omega

/-! ## 2. Products and quotients -/

/-- The unsigned product of two words, in 32 bits. -/
def product? (src dst : Long) : Option Long := mul? src dst

theorem product?_eq {src dst : Long} (hs : Size.word.truncate src = src)
    (hd : Size.word.truncate dst = dst) : product? src dst = some (src * dst) := by
  have hlt (v : Long) (hv : Size.word.truncate v = v) : v.toNat ≤ 65535 :=
    Nat.le_of_lt_succ (hv ▸ Size.word.unsigned_lt_count v)
  refine mul?_of_lt (Nat.lt_of_le_of_lt (Nat.mul_le_mul (hlt src hs) (hlt dst hd)) (by decide))

/-- Quotient and remainder of the unsigned division. Both are computed before the quotient is found
    to fit a word or not. -/
def quotient? (dividend divisor : Long) : Option (Option Long) := do
  let quotient ← div? dividend divisor
  let remainder ← mod? dividend divisor
  let high ← shiftLeft? remainder 16
  return if quotient ≤ 0xFFFF then some (high ||| quotient) else none

theorem quotient?_eq {dividend divisor : Long} (h : divisor ≠ 0) :
    quotient? dividend divisor = some (quotientUnsigned? dividend divisor) := by
  unfold quotient? div? mod?
  rw [if_neg h, if_neg h]
  rfl

/-- The signed ones, computed in 64 bits. -/
def signedQuotient? (dividend : Long) (divisor : Word) : Option (Option Long) := do
  let dividend : BitVec 64 := dividend.signExtend 64
  let divisor : BitVec 64 := divisor.signExtend 64
  let quotient ← signedDiv? dividend divisor
  let remainder ← signedMod? dividend divisor
  let high ← shiftLeft? (remainder.setWidth 32 &&& 0xFFFF : Long) 16
  return if -32768 ≤ quotient.toInt ∧ quotient.toInt ≤ 32767 then
    some (high ||| (quotient.setWidth 16).setWidth 32) else none

/-- A number of 64 bits cut to 16. -/
theorem setWidth_eq_ofInt (v : BitVec 64) : v.setWidth 16 = BitVec.ofInt 16 v.toInt := by
  refine BitVec.eq_of_toNat_eq ?_
  have hv : v.toNat < 18446744073709551616 := v.isLt
  rw [BitVec.toNat_setWidth, BitVec.toNat_ofInt, BitVec.toInt_eq_toNat_cond]
  split <;> omega

/-- Two words, one shifted in front of the other. -/
theorem shifted_or_eq_append (high : Long) (low : Word) :
    (high &&& 0xFFFF) <<< 16 ||| low.setWidth 32 = high.setWidth 16 ++ low := by
  refine BitVec.eq_of_getLsbD_eq fun k hk => ?_
  have hmask : (high &&& 0xFFFF).getLsbD (k - 16) =
      (high.getLsbD (k - 16) && decide (k - 16 < 16)) :=
    Size.word.getLsbD_truncate high (k - 16)
  rw [BitVec.getLsbD_or, BitVec.getLsbD_shiftLeft, hmask, BitVec.getLsbD_append,
    BitVec.getLsbD_setWidth, BitVec.getLsbD_setWidth]
  by_cases hlow : k < 16
  · simp [hk, hlow]
  · have hhigh : k - 16 < 16 := by omega
    simp [hk, hlow, hhigh, BitVec.getLsbD_of_ge low k (Nat.le_of_not_lt hlow)]

theorem signedQuotient?_eq {dividend : Long} {divisor : Word} (h : divisor ≠ 0) :
    signedQuotient? dividend divisor = some (quotientSigned? dividend divisor) := by
  have hdividend : (dividend.signExtend 64).toInt = dividend.toInt :=
    BitVec.toInt_signExtend_of_le (by decide)
  have hdivisor : (divisor.signExtend 64).toInt = divisor.toInt :=
    BitVec.toInt_signExtend_of_le (by decide)
  have hnonzero : divisor.signExtend 64 ≠ 0 := fun h0 => h (BitVec.toInt_inj.mp (by
    rw [← hdivisor, h0]
    rfl))
  -- a dividend of 32 bits is far from the least number of 64
  have hleast : dividend.signExtend 64 ≠ BitVec.intMin 64 := fun hmin => by
    have hlow := dividend.le_toInt
    have hvalue : dividend.toInt = (BitVec.intMin 64).toInt := by rw [← hdividend, hmin]
    rw [hvalue] at hlow
    exact absurd hlow (by decide)
  have hguard : ¬(divisor.signExtend 64 = 0 ∨
      dividend.signExtend 64 = BitVec.intMin 64 ∧ divisor.signExtend 64 = -1#64) :=
    fun hor => hor.elim hnonzero fun hboth => hleast hboth.1
  have hquotient : ((dividend.signExtend 64).sdiv (divisor.signExtend 64)).toInt =
      dividend.toInt.tdiv divisor.toInt := by
    rw [BitVec.toInt_sdiv_of_ne_or_ne _ _ (.inl hleast), hdividend, hdivisor]
  have hremainder : ((dividend.signExtend 64).srem (divisor.signExtend 64)).toInt =
      dividend.toInt.tmod divisor.toInt := by
    rw [BitVec.toInt_srem, hdividend, hdivisor]
  unfold signedQuotient? signedDiv? signedMod? quotientSigned?
  dsimp only
  rw [if_neg hguard, if_neg hguard]
  simp only [Option.bind_eq_bind, Option.bind_some, shiftLeft?_of_lt (by decide : 16 < 32)]
  have hword (v : BitVec 64) : (v.setWidth 32).setWidth 16 = v.setWidth 16 :=
    BitVec.setWidth_setWidth_of_le v (by decide)
  rw [shifted_or_eq_append, hword, setWidth_eq_ofInt, setWidth_eq_ofInt, hquotient, hremainder]
  rfl

/-! ## 3. Masks of bits -/

/-- The mask of a bit, its number cut to the width of the operand. -/
def bitMask? (operand : Operand) (number : Long) : Option Long :=
  let modulo : Long :=
    match operand with
    | .register (.data _) => 31
    | _ => 7
  shiftLeft? 1 (number &&& modulo).toNat

theorem shiftLeft?_one {n k : Nat} (hn : n = k) (hk : k < 32) :
    shiftLeft? (1 : Long) n = some ((1 <<< k : Nat) : Long) := by
  rw [hn, shiftLeft?_of_lt hk]
  refine congrArg some (BitVec.eq_of_toNat_eq ?_)
  rw [BitVec.toNat_shiftLeft]
  rfl

theorem bitMask?_eq (operand : Operand) (number : Long) :
    bitMask? operand number = some (Exec.bitMask operand number) := by
  have hwide : (number &&& 31).toNat = number.toNat % 32 := by
    rw [BitVec.toNat_and]
    exact Nat.and_two_pow_sub_one_eq_mod number.toNat 5
  have hnarrow : (number &&& 7).toNat = number.toNat % 8 := by
    rw [BitVec.toNat_and]
    exact Nat.and_two_pow_sub_one_eq_mod number.toNat 3
  have hdata := shiftLeft?_one hwide (Nat.mod_lt _ (by decide))
  have hother := shiftLeft?_one hnarrow (by omega)
  cases operand with
  | register reg =>
    cases reg with
    | data n => exact hdata
    | address n => exact hother
  | memory a => exact hother
  | immediate v => exact hother

/-! ## 4. Packed decimals -/

/-- The digit of a sum and its carry. -/
def sumDigit? (n : Byte) : Option (Byte × Byte) :=
  if 9 < n then (sub? n 10).map (·, 1) else some (n, 0)

/-- The sum of two packed decimals and a carry, in bytes. -/
def decimalSum? (dst src : Byte) (x : Bool) : Option (Byte × Bool) := do
  let low ← add? (← add? (dst &&& 0x0F) (src &&& 0x0F)) (BitVec.ofNat 8 x.toNat)
  let (low, carryLow) ← sumDigit? low
  let high ← add? (← add? (← shiftRight? dst 4) (← shiftRight? src 4)) carryLow
  let (high, carry) ← sumDigit? high
  let top ← shiftLeft? (high &&& 0x0F) 4
  return (top ||| (low &&& 0x0F), carry = 1)

/-- The digit of a difference and its borrow. -/
def differenceDigit? (z : Word) : Option (Word × Word) :=
  if z.slt 0 then (signedAdd? z 10).map (·, 1) else some (z, 0)

/-- The difference of two packed decimals and a borrow, in signed words. -/
def decimalDifference? (dst src : Byte) (x : Bool) : Option (Byte × Bool) := do
  let low ← signedSub?
    (← signedSub? ((dst &&& 0x0F).setWidth 16) ((src &&& 0x0F).setWidth 16))
    (BitVec.ofNat 16 x.toNat)
  let (low, borrowLow) ← differenceDigit? low
  let high ← signedSub?
    (← signedSub? ((← shiftRight? dst 4).setWidth 16) ((← shiftRight? src 4).setWidth 16))
    borrowLow
  let (high, borrow) ← differenceDigit? high
  let top ← shiftLeft? (high.setWidth 8 &&& 0x0F) 4
  return (top ||| (low.setWidth 8 &&& 0x0F), borrow = 1)

theorem ones_eq (b : Byte) : b &&& 0x0F = BitVec.ofNat 8 (PackedDecimal.ones b) := by
  refine BitVec.eq_of_toNat_eq ?_
  have hb : b.toNat < 256 := b.isLt
  rw [BitVec.toNat_and, BitVec.toNat_ofNat]
  refine (Nat.and_two_pow_sub_one_eq_mod b.toNat 4).trans ?_
  unfold PackedDecimal.ones
  omega

theorem tens_eq (b : Byte) : b >>> 4 = BitVec.ofNat 8 (PackedDecimal.tens b) := by
  refine BitVec.eq_of_toNat_eq ?_
  have hb : b.toNat < 256 := b.isLt
  rw [BitVec.toNat_ushiftRight, Nat.shiftRight_eq_div_pow, BitVec.toNat_ofNat]
  unfold PackedDecimal.tens
  omega

theorem sumDigit?_ofNat {n : Nat} (hn : n < 100) : sumDigit? (BitVec.ofNat 8 n) =
    some (BitVec.ofNat 8 (PackedDecimal.addDigit n).1,
      BitVec.ofNat 8 (PackedDecimal.addDigit n).2.toNat) := by
  have hread : (BitVec.ofNat 8 n).toNat = n := by
    rw [BitVec.toNat_ofNat]
    omega
  have hcompare : (9 : Byte) < BitVec.ofNat 8 n ↔ n > 9 := by
    rw [BitVec.lt_def, hread]
    rfl
  unfold sumDigit? PackedDecimal.addDigit
  by_cases h : n > 9
  · rw [if_pos (hcompare.mpr h), if_pos h, show (10 : Byte) = BitVec.ofNat 8 10 from rfl,
      sub?_ofNat (by omega) (by omega)]
    rfl
  · rw [if_neg (fun h' => h (hcompare.mp h')), if_neg h]
    rfl

theorem ones_ofNat (n : Nat) : PackedDecimal.ones (BitVec.ofNat 8 n) = n % 16 := by
  unfold PackedDecimal.ones
  rw [BitVec.toNat_ofNat]
  omega

theorem ones_ofInt (z : Int) :
    PackedDecimal.ones ((BitVec.ofInt 16 z).setWidth 8) = (z % 16).toNat % 16 := by
  unfold PackedDecimal.ones
  rw [BitVec.toNat_setWidth, BitVec.toNat_ofInt]
  omega

/-- Two halves are put together from the low bits of each. -/
theorem pack_eq (h l : Nat) : BitVec.ofNat 8 (h % 16) <<< 4 ||| BitVec.ofNat 8 (l % 16) =
    PackedDecimal.pack h l := by
  have hlt : l % 16 < 2 ^ 4 := Nat.mod_lt _ (by decide)
  have hfits : (h % 16) <<< 4 % 2 ^ 8 = (h % 16) <<< 4 := by
    rw [Nat.shiftLeft_eq]
    omega
  have hread (n : Nat) : (BitVec.ofNat 8 (n % 16)).toNat = n % 16 := by
    rw [BitVec.toNat_ofNat]
    omega
  refine BitVec.eq_of_toNat_eq ?_
  unfold PackedDecimal.pack
  rw [BitVec.toNat_or, BitVec.toNat_shiftLeft, hread, hread, hfits,
    ← Nat.shiftLeft_add_eq_or_of_lt hlt, Nat.shiftLeft_eq, BitVec.toNat_ofNat]
  omega

theorem digits_lt (b : Byte) : PackedDecimal.ones b < 16 ∧ PackedDecimal.tens b < 16 := by
  have hb : b.toNat < 256 := b.isLt
  unfold PackedDecimal.ones PackedDecimal.tens
  omega

theorem carry_eq (on : Bool) : decide (BitVec.ofNat 8 on.toNat = 1) = on := by
  cases on <;> rfl

theorem borrow_eq (on : Bool) : decide (BitVec.ofNat 16 on.toNat = 1) = on := by
  cases on <;> rfl

theorem decimalSum?_eq (dst src : Byte) (x : Bool) :
    decimalSum? dst src x = some (PackedDecimal.add dst src x) := by
  obtain ⟨hlow, hhigh⟩ := digits_lt dst
  obtain ⟨hlow', hhigh'⟩ := digits_lt src
  have hx := Bool.toNat_le x
  unfold decimalSum? PackedDecimal.add
  simp only [shiftRight?_of_lt (by decide : 4 < 8), shiftLeft?_of_lt (by decide : 4 < 8),
    Option.bind_eq_bind, Option.bind_some, ones_eq, tens_eq]
  rw [add?_ofNat (by omega), Option.bind_some, add?_ofNat (by omega), Option.bind_some,
    sumDigit?_ofNat (by omega), Option.bind_some]
  have hcarry := Bool.toNat_le (PackedDecimal.addDigit
    (PackedDecimal.ones dst + PackedDecimal.ones src + x.toNat)).2
  generalize PackedDecimal.addDigit
    (PackedDecimal.ones dst + PackedDecimal.ones src + x.toNat) = digit at *
  dsimp only
  rw [add?_ofNat (by omega), Option.bind_some, add?_ofNat (by omega), Option.bind_some,
    sumDigit?_ofNat (by omega), Option.bind_some]
  dsimp only
  rw [carry_eq, ones_ofNat, ones_ofNat, pack_eq]
  rfl

theorem differenceDigit?_ofInt {z : Int} (hz : z.natAbs < 90) :
    differenceDigit? (BitVec.ofInt 16 z) =
      some (BitVec.ofInt 16 (PackedDecimal.subDigit z).1,
        BitVec.ofNat 16 (PackedDecimal.subDigit z).2.toNat) := by
  have hcompare : (BitVec.ofInt 16 z).slt 0 = decide (z < 0) := by
    rw [BitVec.slt_eq_decide, toInt_ofInt_small (by omega)]
    rfl
  unfold differenceDigit? PackedDecimal.subDigit
  rw [hcompare]
  by_cases h : z < 0
  · rw [if_pos (decide_eq_true h), if_pos h, show (10 : Word) = BitVec.ofInt 16 10 from rfl,
      signedAdd?_ofInt (by omega) (by decide)]
    rfl
  · rw [if_neg (by simpa using h), if_neg h]
    rfl

theorem decimalDifference?_eq (dst src : Byte) (x : Bool) :
    decimalDifference? dst src x = some (PackedDecimal.sub dst src x) := by
  obtain ⟨hlow, hhigh⟩ := digits_lt dst
  obtain ⟨hlow', hhigh'⟩ := digits_lt src
  have hx := Bool.toNat_le x
  have hwide (n : Nat) (hn : n < 16) : (BitVec.ofNat 8 n).setWidth 16 = BitVec.ofInt 16 n := by
    refine BitVec.eq_of_toNat_eq ?_
    rw [BitVec.ofInt_natCast, BitVec.toNat_setWidth, BitVec.toNat_ofNat, BitVec.toNat_ofNat]
    omega
  unfold decimalDifference? PackedDecimal.sub
  simp only [shiftRight?_of_lt (by decide : 4 < 8), shiftLeft?_of_lt (by decide : 4 < 8),
    Option.bind_eq_bind, Option.bind_some, ones_eq, tens_eq]
  rw [hwide _ hlow, hwide _ hlow', hwide _ hhigh, hwide _ hhigh', ← BitVec.ofInt_natCast 16 x.toNat,
    signedSub?_ofInt (by omega) (by omega), Option.bind_some,
    signedSub?_ofInt (by omega) (by omega), Option.bind_some,
    differenceDigit?_ofInt (by omega), Option.bind_some]
  have hborrow := Bool.toNat_le (PackedDecimal.subDigit
    ((PackedDecimal.ones dst : Int) - PackedDecimal.ones src - x.toNat)).2
  generalize PackedDecimal.subDigit
    ((PackedDecimal.ones dst : Int) - PackedDecimal.ones src - x.toNat) = digit at *
  dsimp only
  rw [← BitVec.ofInt_natCast 16 digit.2.toNat, signedSub?_ofInt (by omega) (by omega),
    Option.bind_some, signedSub?_ofInt (by omega) (by omega), Option.bind_some,
    differenceDigit?_ofInt (by omega), Option.bind_some]
  dsimp only
  rw [borrow_eq, ones_ofInt, ones_ofInt, pack_eq]
  rfl

/-! ## 5. Register lists -/

/-- The numbers of the bits that a mask has set, each bit found by a shift of its own. -/
def select? (mask : Word) : List Byte → Option (List Byte)
  | [] => some []
  | bit :: bits => do
    let flag ← shiftLeft? (1 : Word) bit.toNat
    let rest ← select? mask bits
    return if mask &&& flag ≠ 0 then bit :: rest else rest

/-- The register of a bit number, D0 at zero and A0 at eight. -/
def register? (bit : Byte) : Option Register :=
  if bit < 8 then some (.data (bit.setWidth 3).toFin)
  else (sub? bit 8).map fun n => .address (n.setWidth 3).toFin

/-- The registers of a mask, with their numbers counted down from 15 or not. -/
def registers? (reversed : Bool) (mask : Word) : Option (List Register) := do
  let bits ← select? mask ((List.finRange 16).map fun k => BitVec.ofNat 8 k.val)
  bits.mapM fun bit => do
    let position ← if reversed then sub? 15 bit else some bit
    register? position

theorem register?_eq : ∀ k : Fin 16,
    register? (BitVec.ofNat 8 k.val) = some (Register.ofPosition k) := by decide

theorem register?_rev : ∀ k : Fin 16,
    (sub? 15 (BitVec.ofNat 8 k.val)).bind register? = some (Register.ofPosition k.rev) := by
  decide

theorem select?_eq (mask : Word) (positions : List (Fin 16)) :
    select? mask (positions.map fun k => BitVec.ofNat 8 k.val) =
      some ((positions.filter fun k => mask.getLsbD k.val).map fun k => BitVec.ofNat 8 k.val) := by
  induction positions with
  | nil => rfl
  | cons k positions ih =>
    have hread : (BitVec.ofNat 8 k.val).toNat = k.val := by
      rw [BitVec.toNat_ofNat]
      omega
    have hflag : mask &&& (1 : Word) <<< k.val ≠ 0 ↔ mask.getLsbD k.val = true := by
      rw [show (1 : Word) <<< k.val = BitVec.twoPow 16 k.val from (BitVec.twoPow_eq 16 k.val).symm,
        BitVec.and_twoPow]
      have hone : BitVec.twoPow 16 k.val ≠ 0 := fun h0 => by
        have hset := congrArg (·.getLsbD k.val) h0
        simp at hset
      cases mask.getLsbD k.val
      · simp
      · simpa using hone
    rw [List.map_cons, select?, hread, shiftLeft?_of_lt k.isLt, ih, List.filter_cons]
    simp only [Option.bind_eq_bind, Option.bind_some, hflag]
    cases mask.getLsbD k.val <;> rfl

/-- A reader that succeeds on each part of a list succeeds on all of them. -/
theorem mapM_eq_some {α β γ : Type} {f : α → β} {g : β → Option γ} {h : α → γ} {as : List α}
    (hg : ∀ a ∈ as, g (f a) = some (h a)) : (as.map f).mapM g = some (as.map h) := by
  induction as with
  | nil => rfl
  | cons a as ih =>
    obtain ⟨ha, has⟩ := List.forall_mem_cons.mp hg
    rw [List.map_cons, List.mapM_cons, ha, ih has]
    rfl

theorem registers?_eq (mask : Word) :
    registers? false mask = some (Register.ofMask mask) ∧
      registers? true mask = some (Register.ofReversedMask mask) := by
  unfold registers?
  rw [select?_eq]
  exact ⟨mapM_eq_some fun k _ => register?_eq k, mapM_eq_some fun k _ => register?_rev k⟩

/-! ## 6. Alternate bytes -/

/-- Every second address, so many of them. -/
def alternate : Nat → Address → List Address
  | 0, _ => []
  | count + 1, a => a :: alternate count (a + 2)

/-- The same, each found from the first one. -/
def alternate? (count : Nat) (base : Address) : Option (List Address) :=
  (List.range count).mapM fun i => (mul? (BitVec.ofNat 32 i) 2).map (base + ·)

/-- The bytes of an operand, most significant first, each shifted down from the whole. -/
def storedBytes? (v : Long) (size : Size) : Option (List Byte) :=
  (List.range size.bytes).reverse.mapM fun i => do
    let amount ← mul? (BitVec.ofNat 32 i) 8
    let shifted ← shiftRight? v amount.toNat
    return shifted.setWidth 8

/-- A byte on the low end of what has been loaded. -/
def shiftedIn? (acc b : Long) : Option Long := (shiftLeft? acc 8).map (· ||| b)

theorem shiftedIn?_eq (acc b : Long) : shiftedIn? acc b = some ((acc <<< 8) ||| b) := rfl

theorem alternate?_eq (size : Size) (base : Address) :
    alternate? size.bytes base = some (alternate size.bytes base) := by
  have hnext (a b c : Address) (h : b + 2 = c) : a + b + 2 = a + c := by
    rw [BitVec.add_assoc, h]
  have hbase : base + 0 = base := BitVec.add_zero base
  cases size
  · show some [base + 0] = some [base]
    rw [hbase]
  · show some [base + 0, base + 2] = some [base, base + 2]
    rw [hbase]
  · show some [base + 0, base + 2, base + 4, base + 6] =
      some [base, base + 2, base + 2 + 2, base + 2 + 2 + 2]
    rw [hbase, hnext base 2 4 rfl, hnext base 4 6 rfl]

theorem storedBytes?_eq (v : Long) (size : Size) :
    storedBytes? v size = some (Memory.operandBytes v size) := by
  have hword (k : Nat) (hk : k + 8 ≤ 16) :
      (v >>> k).setWidth 8 = (v.setWidth 16).extractLsb' k 8 := by
    refine BitVec.eq_of_getLsbD_eq fun j hj => ?_
    have hin : k + j < 16 := by omega
    simp [hj, hin]
  cases size
  · show some [(v >>> 0).setWidth 8] = some [v.setWidth 8]
    rfl
  · show some [(v >>> 8).setWidth 8, (v >>> 0).setWidth 8] = _
    rw [hword 8 (by decide), hword 0 (by decide)]
    rfl
  · rfl

end Mc68000.Checked
