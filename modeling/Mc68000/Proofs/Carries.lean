import Mathlib.Algebra.Order.Ring.Int
import Mathlib.Tactic.Ring
import Mc68000.Proofs.Comparison

/-!
# Carries and overflows of sums and differences

A sum or a difference of numbers of some width as an integer, and what is left of it: the number
that remains, and the flags.

* `AddSub.total` -- the integer; `AddSub.carries`, `AddSub.overflows` -- whether it leaves the
  numbers of the width, read without and with a sign;
* `AddSub.Leaves` -- a number and a status register are what a total leaves;
* `Leaves.behind` -- **a total of high parts behind one of low parts, linked by the extend flag, is
  the total of the whole numbers**;
* `leaves_of_flags` -- **the flags of the sign bits are those of the integers**, at every size;
* `apply_negate`, `apply_negateExtended` -- and those of a negation are those of a difference.
-/

namespace Mc68000

open Status

namespace AddSub

/-! ## 1. Totals -/

/-- A sum with a carry added, or a difference with a borrow taken off. -/
def total (op : AddSub) (d s : Int) (x : Bool) : Int :=
  match op with
  | add => d + s + x.toNat
  | sub => d - s - x.toNat

/-- Whether the total of two numbers of a width, read without a sign, is none of them: a carry out
    of the width, or a borrow. -/
def carries (op : AddSub) (width d s : Nat) (x : Bool) : Bool :=
  match op with
  | add => 2 ^ width ≤ d + s + x.toNat
  | sub => d < s + x.toNat

/-- Whether the total of two numbers of a width, read as two's complement, is none of them. -/
def overflows (op : AddSub) (width d s : Nat) (x : Bool) : Bool :=
  let t := op.total (BitVec.ofNat width d).toInt (BitVec.ofNat width s).toInt x
  t < -2 ^ (width - 1) ∨ 2 ^ (width - 1) ≤ t

/-- A number and a status register are what a total of two numbers of a width leaves: the total
    modulo the width, its carry in C and X, its overflow in V and its top bit in N. -/
structure Leaves (op : AddSub) (width d s : Nat) (x : Bool) (result : Nat) (sr : Word) : Prop where
  result_eq : (result : Int) = op.total d s x % 2 ^ width
  carry_eq : hasFlag sr carry = op.carries width d s x
  extend_eq : hasFlag sr extend = op.carries width d s x
  overflow_eq : hasFlag sr overflow = op.overflows width d s x
  negative_eq : hasFlag sr negative = result.testBit (width - 1)

variable {op : AddSub} {width w b d s d₀ d₁ s₀ s₁ r₀ r₁ result : Nat} {x : Bool} {sr sr₀ sr₁ : Word}

theorem Leaves.lt (h : op.Leaves width d s x result sr) : result < 2 ^ width := by
  have hlt : (result : Int) < 2 ^ width := by
    rw [h.result_eq]
    exact Int.emod_lt_of_pos _ (pow_pos two_pos width)
  exact_mod_cast hlt

/-- What a carry or a borrow takes off a total. -/
def carried (op : AddSub) (width : Nat) (carry : Bool) : Int :=
  match op with
  | add => carry.toNat * 2 ^ width
  | sub => -(carry.toNat * 2 ^ width)

theorem carries_eq : op.carries width d s x =
    match op with
    | add => decide ((2 : Int) ^ width ≤ op.total d s x)
    | sub => decide (op.total d s x < 0) := by
  have hcast : ((2 ^ width : Nat) : Int) = 2 ^ width := Nat.cast_pow 2 width
  unfold carries total
  cases op <;> simp only [decide_eq_decide, ← hcast] <;> omega

/-- **A total leaves the width once at most**, and then it carries. -/
theorem total_emod (hd : d < 2 ^ width) (hs : s < 2 ^ width) :
    op.total d s x % 2 ^ width = op.total d s x - op.carried width (op.carries width d s x) := by
  have hcast : ((2 ^ width : Nat) : Int) = 2 ^ width := Nat.cast_pow 2 width
  have hx : x.toNat ≤ 1 := Bool.toNat_le x
  unfold carried carries total
  generalize 2 ^ width = n at *
  rw [← hcast]
  cases op with
  | add =>
    by_cases hc : n ≤ d + s + x.toNat
    · rw [← Int.sub_emod_right, Int.emod_eq_of_lt] <;> simp [hc] <;> omega
    · rw [Int.emod_eq_of_lt] <;> simp [hc] <;> omega
  | sub =>
    by_cases hc : d < s + x.toNat
    · rw [← Int.add_emod_right, Int.emod_eq_of_lt] <;> simp [hc] <;> omega
    · rw [Int.emod_eq_of_lt] <;> simp [hc] <;> omega

/-- A number of a width as two's complement. -/
theorem toInt_ofNat_of_lt {n : Nat} (hwidth : 0 < width) (hn : n < 2 ^ width) :
    (BitVec.ofNat width n).toInt = if 2 ^ (width - 1) ≤ n then (n : Int) - 2 ^ width else n := by
  obtain ⟨k, rfl⟩ := Nat.exists_eq_add_of_lt hwidth
  have hhalf : 2 ^ (0 + k + 1) = 2 * 2 ^ (0 + k) := Nat.pow_succ'
  rw [BitVec.toInt_eq_toNat_cond, BitVec.toNat_ofNat, Nat.mod_eq_of_lt hn, Nat.add_sub_cancel,
    Nat.cast_pow, Nat.cast_ofNat]
  split <;> split <;> omega

/-- A number is a total up to the count that one carry or borrow is worth. -/
def Wraps (op : AddSub) (count d s : Nat) (x : Bool) (result : Nat) : Prop :=
  match op with
  | add =>
    (d + s + x.toNat < count ∧ result = d + s + x.toNat) ∨
      (count ≤ d + s + x.toNat ∧ result + count = d + s + x.toNat)
  | sub =>
    (s + x.toNat ≤ d ∧ result + s + x.toNat = d) ∨
      (d < s + x.toNat ∧ result + s + x.toNat = d + count)

theorem wraps_of_emod (hd : d < 2 ^ width) (hs : s < 2 ^ width)
    (hresult : (result : Int) = op.total d s x % 2 ^ width) :
    op.Wraps (2 ^ width) d s x result := by
  have hcast : ((2 ^ width : Nat) : Int) = 2 ^ width := Nat.cast_pow 2 width
  rw [total_emod hd hs] at hresult
  unfold carried total carries at hresult
  rw [← hcast] at hresult
  unfold Wraps
  cases op with
  | add => by_cases hc : 2 ^ width ≤ d + s + x.toNat <;> simp [hc] at hresult ⊢ <;> omega
  | sub => by_cases hc : d < s + x.toNat <;> simp [hc] at hresult ⊢ <;> omega

/-! ## 2. High parts behind low ones -/

/-- A number in front of a lower part is compared as the number alone. -/
theorem le_behind {n k t r : Int} (h₀ : 0 ≤ r) (hr : r < n) : n * k ≤ n * t + r ↔ k ≤ t := by
  constructor
  · intro h
    by_contra hlt
    have hnext : n * (t + 1) ≤ n * k := Int.mul_le_mul_of_nonneg_left (by omega) (by omega)
    rw [Int.mul_add, Int.mul_one] at hnext
    omega
  · intro h
    have hsame : n * k ≤ n * t := Int.mul_le_mul_of_nonneg_left h (by omega)
    omega

/-- The remainder of a number in front of a lower part is that of the number alone. -/
theorem emod_behind {n k t r : Int} (h₀ : 0 ≤ r) (hr : r < n) (hk : 0 < k) :
    (n * t + r) % (n * k) = n * (t % k) + r := by
  have hsplit : n * t + r = (n * (t % k) + r) + n * k * (t / k) := by
    calc n * t + r = n * (t % k + k * (t / k)) + r := by rw [Int.emod_add_mul_ediv]
      _ = (n * (t % k) + r) + n * k * (t / k) := by ring
  have hlow : 0 ≤ n * (t % k) := Int.mul_nonneg (by omega) (Int.emod_nonneg _ (by omega))
  have hhigh : n * (t % k) + r < n * k := by
    rw [← not_le, le_behind h₀ hr, not_le]
    exact Int.emod_lt_of_pos t hk
  rw [hsplit, Int.add_mul_emod_self_left, Int.emod_eq_of_lt (by omega) hhigh]

theorem behind_lt {n₁ n₀ : Nat} (h₁ : n₁ < 2 ^ w) (h₀ : n₀ < 2 ^ b) :
    2 ^ b * n₁ + n₀ < 2 ^ (w + b) := by
  have hnext : 2 ^ b * (n₁ + 1) ≤ 2 ^ b * 2 ^ w := Nat.mul_le_mul_left _ h₁
  rw [Nat.pow_add, Nat.mul_comm (2 ^ w)]
  rw [Nat.mul_add, Nat.mul_one] at hnext
  omega

theorem toInt_behind {n₁ n₀ : Nat} (hw : 0 < w) (h₁ : n₁ < 2 ^ w) (h₀ : n₀ < 2 ^ b) :
    (BitVec.ofNat (w + b) (2 ^ b * n₁ + n₀)).toInt = 2 ^ b * (BitVec.ofNat w n₁).toInt + n₀ := by
  have hhalf : 2 ^ (w + b - 1) = 2 ^ b * 2 ^ (w - 1) := by
    rw [← Nat.pow_add]
    congr 1
    omega
  have hsame : 2 ^ (w + b - 1) ≤ 2 ^ b * n₁ + n₀ ↔ 2 ^ (w - 1) ≤ n₁ := by
    rw [hhalf]
    exact_mod_cast le_behind (n := 2 ^ b) (k := 2 ^ (w - 1)) (t := n₁) (r := n₀) (by omega)
      (by exact_mod_cast h₀)
  rw [toInt_ofNat_of_lt (Nat.add_pos_left hw b) (behind_lt h₁ h₀), toInt_ofNat_of_lt hw h₁,
    if_congr hsame rfl rfl]
  split
  · push_cast
    ring
  · push_cast
    ring

/-- **The total of high parts, the carry of the low ones among them, stands in front of what the
    low ones leave.** -/
theorem total_behind (d₁ s₁ : Int) (hd : d₀ < 2 ^ b) (hs : s₀ < 2 ^ b)
    (hr : (r₀ : Int) = op.total d₀ s₀ x % 2 ^ b) :
    op.total (2 ^ b * d₁ + d₀) (2 ^ b * s₁ + s₀) x =
      2 ^ b * op.total d₁ s₁ (op.carries b d₀ s₀ x) + r₀ := by
  rw [hr, total_emod hd hs]
  unfold total carried
  cases op with
  | add => dsimp only; ring
  | sub => dsimp only; ring

theorem carries_behind (hd : d₀ < 2 ^ b) (hs : s₀ < 2 ^ b)
    (hr : (r₀ : Int) = op.total d₀ s₀ x % 2 ^ b) (hlt : (r₀ : Int) < 2 ^ b) :
    op.carries (w + b) (2 ^ b * d₁ + d₀) (2 ^ b * s₁ + s₀) x =
      op.carries w d₁ s₁ (op.carries b d₀ s₀ x) := by
  have htotal := total_behind d₁ s₁ hd hs hr
  have hcompare (k : Int) := le_behind (n := 2 ^ b) (k := k)
    (t := op.total d₁ s₁ (op.carries b d₀ s₀ x)) (Int.natCast_nonneg r₀) hlt
  rw [carries_eq, carries_eq]
  push_cast
  rw [htotal]
  cases op with
  | add =>
    rw [decide_eq_decide, ← hcompare, pow_add, mul_comm (2 ^ w)]
  | sub =>
    rw [decide_eq_decide, ← not_le, ← not_le, ← hcompare, mul_zero]

theorem overflows_behind (hw : 0 < w) (hd : d₀ < 2 ^ b) (hs : s₀ < 2 ^ b) (hd₁ : d₁ < 2 ^ w)
    (hs₁ : s₁ < 2 ^ w) (hr : (r₀ : Int) = op.total d₀ s₀ x % 2 ^ b) (hlt : (r₀ : Int) < 2 ^ b) :
    op.overflows (w + b) (2 ^ b * d₁ + d₀) (2 ^ b * s₁ + s₀) x =
      op.overflows w d₁ s₁ (op.carries b d₀ s₀ x) := by
  have hhalf : (2 : Int) ^ (w + b - 1) = 2 ^ b * 2 ^ (w - 1) := by
    rw [← pow_add]
    congr 1
    omega
  have hcompare (k : Int) := le_behind (n := 2 ^ b) (k := k)
    (t := op.total (BitVec.ofNat w d₁).toInt (BitVec.ofNat w s₁).toInt (op.carries b d₀ s₀ x))
    (Int.natCast_nonneg r₀) hlt
  unfold overflows
  dsimp only
  rw [toInt_behind hw hd₁ hd, toInt_behind hw hs₁ hs, total_behind _ _ hd hs hr, decide_eq_decide,
    hhalf, ← mul_neg, ← not_le, ← not_le, hcompare, hcompare]

/-- **Two totals linked by the extend flag are one.** -/
theorem Leaves.behind (hw : 0 < w) (hd : d₀ < 2 ^ b) (hs : s₀ < 2 ^ b) (hd₁ : d₁ < 2 ^ w)
    (hs₁ : s₁ < 2 ^ w) (hlow : op.Leaves b d₀ s₀ x r₀ sr₀)
    (hhigh : op.Leaves w d₁ s₁ (hasFlag sr₀ extend) r₁ sr₁) :
    op.Leaves (w + b) (2 ^ b * d₁ + d₀) (2 ^ b * s₁ + s₀) x (2 ^ b * r₁ + r₀) sr₁ := by
  rw [hlow.extend_eq] at hhigh
  have hlt : (r₀ : Int) < 2 ^ b := by exact_mod_cast hlow.lt
  have hcarries : op.carries (w + b) (2 ^ b * d₁ + d₀) (2 ^ b * s₁ + s₀) x =
      op.carries w d₁ s₁ (op.carries b d₀ s₀ x) :=
    carries_behind hd hs hlow.result_eq hlt
  have htotal := total_behind d₁ s₁ hd hs hlow.result_eq
  refine ⟨?_, ?_, ?_, ?_, ?_⟩
  · push_cast
    rw [htotal, hhigh.result_eq, pow_add, mul_comm (2 ^ w),
      emod_behind (Int.natCast_nonneg r₀) hlt (pow_pos two_pos w)]
  · rw [hhigh.carry_eq, hcarries]
  · rw [hhigh.extend_eq, hcarries]
  · rw [hhigh.overflow_eq, overflows_behind hw hd hs hd₁ hs₁ hlow.result_eq hlt]
  · rw [hhigh.negative_eq, Nat.testBit_two_pow_mul_add _ hlow.lt, if_neg (by omega)]
    congr 1
    omega

/-! ## 3. Totals of a size -/

variable (op : AddSub) (size : Size) (d s : Long) (x : Bool) (sr : Word)

/-- **The low bits of a computed sum or difference are the total modulo the size.** -/
theorem unsigned_compute :
    (size.unsigned (op.arith.compute d s (if x then 1 else 0)) : Int) =
      op.total (size.unsigned d) (size.unsigned s) x % 2 ^ size.bits := by
  have hd : d.toNat < 4294967296 := d.isLt
  have hs : s.toNat < 4294967296 := s.isLt
  have hx : (if x then 1 else 0 : Long).toNat = x.toNat := by cases x <;> rfl
  have hone := Bool.toNat_le x
  simp only [Size.unsigned_eq_mod]
  cases op with
  | add =>
    simp only [arith, ArithOp.compute, total, BitVec.toNat_add, hx]
    cases size <;> simp only [Size.count, Long.count, Size.bits, Size.bytes] <;> omega
  | sub =>
    simp only [arith, ArithOp.compute, total, BitVec.toNat_sub, hx]
    cases size <;> simp only [Size.count, Long.count, Size.bits, Size.bytes] <;> omega

theorem isNegative_eq_testBit (v : Long) :
    size.isNegative v = (size.unsigned v).testBit (size.bits - 1) :=
  (size.isNegative_truncate v).symm

/-- The carry as it is read off the signs of the source, the destination and the result. -/
def signCarry : AddSub → Bool → Bool → Bool → Bool
  | add => FlagChange.addCarry
  | sub => FlagChange.subCarry

/-- The overflow as it is read off the same signs. -/
def signOverflow : AddSub → Bool → Bool → Bool → Bool
  | add => FlagChange.addOverflow
  | sub => FlagChange.subOverflow

theorem apply_flags (result : Long) : (op.arith.flags s d result).apply size sr =
    let carry := op.signCarry (size.isNegative s) (size.isNegative d) (size.isNegative result)
    let overflow := op.signOverflow (size.isNegative s) (size.isNegative d) (size.isNegative result)
    setFlag (withNzvc sr size result overflow carry) extend carry := by
  cases op <;> rfl

theorem two_pow_bits (size : Size) : 2 ^ size.bits = 2 * size.half := by cases size <;> rfl

theorem two_pow_bits_sub_one (size : Size) : 2 ^ (size.bits - 1) = size.half := by
  cases size <;> rfl

/-- Read with a sign, a number from half way up is less by the count. -/
theorem toInt_ofNat_unsigned (v : Long) :
    (BitVec.ofNat size.bits (size.unsigned v)).toInt =
      if size.half ≤ size.unsigned v then (size.unsigned v : Int) - (2 * size.half : Nat)
      else size.unsigned v := by
  have hv := size.unsigned_lt_count v
  rw [Size.count_eq] at hv
  rw [toInt_ofNat_of_lt size.bits_pos hv, two_pow_bits_sub_one, ← two_pow_bits, Nat.cast_pow,
    Nat.cast_ofNat]

variable {op size d s x} {v : Long}

/-- A total of a size wraps at most once around its two halves. -/
theorem wraps_halves (hv : (size.unsigned v : Int) =
      op.total (size.unsigned d) (size.unsigned s) x % 2 ^ size.bits) :
    size.unsigned d < 2 * size.half ∧ size.unsigned s < 2 * size.half ∧
      op.Wraps (2 * size.half) (size.unsigned d) (size.unsigned s) x (size.unsigned v) := by
  have hd := size.unsigned_lt_count d
  have hs := size.unsigned_lt_count s
  rw [Size.count_eq] at hd hs
  have hwraps := wraps_of_emod hd hs hv
  rw [two_pow_bits] at hd hs hwraps
  exact ⟨hd, hs, hwraps⟩

/-- **The carry that the signs tell is the carry of the total.** -/
theorem signCarry_eq (hv : (size.unsigned v : Int) =
      op.total (size.unsigned d) (size.unsigned s) x % 2 ^ size.bits) :
    op.signCarry (size.isNegative s) (size.isNegative d) (size.isNegative v) =
      op.carries size.bits (size.unsigned d) (size.unsigned s) x := by
  obtain ⟨hd, hs, hwraps⟩ := wraps_halves hv
  clear hv
  have hx := Bool.toNat_le x
  unfold carries
  rw [two_pow_bits]
  simp only [Size.isNegative_eq]
  generalize size.unsigned d = d', size.unsigned s = s', size.unsigned v = v', size.half = n at *
  cases op <;> by_cases hs' : n ≤ s' <;> by_cases hd' : n ≤ d' <;> by_cases hv' : n ≤ v' <;>
    simp [signCarry, FlagChange.addCarry, FlagChange.subCarry, hs', hd', hv', Wraps]
      at hwraps ⊢ <;> omega

/-- **The overflow that the signs tell is the overflow of the total.** -/
theorem signOverflow_eq (hv : (size.unsigned v : Int) =
      op.total (size.unsigned d) (size.unsigned s) x % 2 ^ size.bits) :
    op.signOverflow (size.isNegative s) (size.isNegative d) (size.isNegative v) =
      op.overflows size.bits (size.unsigned d) (size.unsigned s) x := by
  obtain ⟨hd, hs, hwraps⟩ := wraps_halves hv
  clear hv
  have hx := Bool.toNat_le x
  have hhalf : (2 : Int) ^ (size.bits - 1) = size.half := by
    rw [← two_pow_bits_sub_one, Nat.cast_pow, Nat.cast_ofNat]
  unfold overflows total
  dsimp only
  rw [hhalf, toInt_ofNat_unsigned, toInt_ofNat_unsigned]
  simp only [Size.isNegative_eq]
  generalize size.unsigned d = d', size.unsigned s = s', size.unsigned v = v', size.half = n at *
  cases op <;> by_cases hs' : n ≤ s' <;> by_cases hd' : n ≤ d' <;> by_cases hv' : n ≤ v' <;>
    simp [signOverflow, FlagChange.addOverflow, FlagChange.subOverflow, hs', hd', hv',
      Wraps] at hwraps ⊢ <;> omega

/-- **What a sum or a difference of a size leaves is what the total leaves.** -/
theorem leaves_of_flags
    (hv : v = size.truncate (op.arith.compute d s (if x then 1 else 0))) (sr : Word) :
    op.Leaves size.bits (size.unsigned d) (size.unsigned s) x v.toNat
        ((op.arith.flags s d v).apply size sr) ∧
      hasFlag ((op.arith.flags s d v).apply size sr) zero = decide (v = 0) := by
  have hsame : size.truncate v = v := by rw [hv, Size.truncate_truncate]
  have hread : size.unsigned v = v.toNat := congrArg BitVec.toNat hsame
  have htotal : (size.unsigned v : Int) =
      op.total (size.unsigned d) (size.unsigned s) x % 2 ^ size.bits := by
    rw [← unsigned_compute, hv]
    exact congrArg (fun w : Long => (w.toNat : Int)) (size.truncate_truncate _)
  rw [apply_flags, signCarry_eq htotal, signOverflow_eq htotal]
  dsimp only
  have hother {flag : Word} (h : flag &&& ~~~extend = flag) (sr : Word) (on : Bool) :
      hasFlag (setFlag sr extend on) flag = hasFlag sr flag :=
    hasFlag_setFlag_of_disjoint h sr on
  refine ⟨⟨?_, ?_, ?_, ?_, ?_⟩, ?_⟩
  · rw [← hread, htotal]
  · rw [hother (by decide), hasFlag_carry_withNzvc]
  · exact hasFlag_setFlag (by decide) (by decide) _ _
  · rw [hother (by decide), hasFlag_overflow_withNzvc]
  · rw [hother (by decide), hasFlag_negative_withNzvc, isNegative_eq_testBit, hread]
  · rw [hother (by decide), hasFlag_zero_withNzvc, hsame]

end AddSub

/-! ## 4. Negations -/

namespace FlagChange

variable (size : Size) (v result : Long) (sr : Word)

/-- The flags of a negation with the extend flag are those of a difference from zero. -/
theorem apply_negateExtended :
    (negateExtended v result).apply size sr = (sub v 0 result).apply size sr := by
  have hzero : size.isNegative 0 = false := by cases size <;> rfl
  unfold apply subCarry subOverflow
  dsimp only
  rw [hzero]
  cases size.isNegative v <;> cases size.isNegative result <;> rfl

/-- So are those of a negation: its result is zero exactly if neither sign is set. -/
theorem apply_negate :
    (negate v (size.truncate (0 - v))).apply size sr =
      (negateExtended v (size.truncate (0 - v))).apply size sr := by
  have hborrow : decide (size.truncate (size.truncate (0 - v)) ≠ 0) =
      (size.isNegative v || size.isNegative (size.truncate (0 - v))) := by
    have hzero : size.unsigned 0 = 0 := by cases size <;> rfl
    have hnone : size.truncate (0 - v) = 0 ↔ size.unsigned (0 - v) = 0 := BitVec.toNat_inj.symm
    have hsub := size.unsigned_sub 0 v
    have hcount := size.count_eq_two_mul_half
    have hlt := size.unsigned_lt_count v
    rw [Size.truncate_truncate, Size.isNegative_truncate, Size.isNegative_eq, Size.isNegative_eq,
      ← Bool.decide_or, decide_eq_decide, Ne, hnone]
    omega
  unfold apply
  dsimp only
  rw [hborrow]

end FlagChange

end Mc68000
