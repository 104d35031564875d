import Mathlib.Algebra.Group.Nat.Defs
import Mc68000.Size

/-!
# Values as numbers

A value of a size as the number that it stands for, with and without a sign.

* `Size.unsigned`, `Size.signed` -- the two readings of a sized value;
* `isNegative_eq`, `signed_eq` -- **the sign bit tells where they part**: half way up;
* `unsigned_add`, `unsigned_sub` -- a sum of a size is the sum of the numbers, modulo their count; a
  difference is the difference of the numbers, or wraps once;
* `signed_eq_iff` -- the two readings tell the same values apart;
* `toNat_merge` -- a merged value as a number; `merge_congr`, `merge_merge` -- what of the values it
  takes.
-/

namespace Mc68000.Size

/-! ## 1. Two readings -/

/-- The sized value as a number without a sign. -/
def unsigned (size : Size) (v : Long) : Nat := (size.truncate v).toNat

/-- The sized value as a two's-complement number. -/
def signed (size : Size) (v : Long) : Int := (size.signExtend v).toInt

/-- Half the number of values: where the negative ones begin. -/
def half : Size → Nat
  | byte => 0x80
  | word => 0x8000
  | long => 0x80000000

theorem count_eq_two_mul_half (size : Size) : size.count = 2 * size.half := by
  cases size <;> rfl

theorem count_eq (size : Size) : size.count = 2 ^ size.bits := by
  cases size <;> rfl

theorem unsigned_eq_mod (size : Size) (v : Long) : size.unsigned v = v.toNat % size.count :=
  size.toNat_truncate v

theorem unsigned_lt_count (size : Size) (v : Long) : size.unsigned v < size.count := by
  rw [unsigned_eq_mod]
  exact Nat.mod_lt _ (by cases size <;> decide)

/-! ## 2. The sign -/

/-- **A value is negative from half way up.** -/
theorem isNegative_eq (size : Size) (v : Long) :
    size.isNegative v = decide (size.half ≤ size.unsigned v) := by
  have htest (k : Nat) : v.getLsbD k = decide (v.toNat / 2 ^ k % 2 = 1) := by
    rw [BitVec.getLsbD, Nat.testBit_eq_decide_div_mod_eq]
  rw [isNegative, htest, unsigned_eq_mod, decide_eq_decide]
  have hv : v.toNat < 4294967296 := v.isLt
  cases size with
  | byte => show v.toNat / 128 % 2 = 1 ↔ 128 ≤ v.toNat % 256; omega
  | word => show v.toNat / 32768 % 2 = 1 ↔ 32768 ≤ v.toNat % 65536; omega
  | long => show v.toNat / 2147483648 % 2 = 1 ↔ 2147483648 ≤ v.toNat % 4294967296; omega

/-- A sign extension keeps the number. -/
theorem signed_eq_toInt (size : Size) (v : Long) :
    size.signed v = (v.setWidth size.bits).toInt := by
  cases size with
  | byte | word => exact BitVec.toInt_signExtend_of_le (by decide)
  | long => exact congrArg BitVec.toInt (BitVec.setWidth_eq v).symm

/-- **The upper half stands for the negative numbers.** -/
theorem signed_eq (size : Size) (v : Long) :
    size.signed v =
      if size.half ≤ size.unsigned v then (size.unsigned v : Int) - size.count
      else size.unsigned v := by
  have hpow := size.count_eq
  have hhalf : 2 * size.half = 2 ^ size.bits := hpow ▸ size.count_eq_two_mul_half.symm
  have hread : (v.setWidth size.bits).toNat = size.unsigned v := by
    rw [BitVec.toNat_setWidth, unsigned_eq_mod, hpow]
  rw [signed_eq_toInt, BitVec.toInt_eq_toNat_cond, hread, hpow, ← hhalf]
  split <;> split <;> omega

/-- A value has one number of each kind. -/
theorem signed_eq_iff {size : Size} {v w : Long} :
    size.signed v = size.signed w ↔ size.unsigned v = size.unsigned w := by
  have hv := size.unsigned_lt_count v
  have hw := size.unsigned_lt_count w
  rw [signed_eq, signed_eq]
  split <;> split <;> omega

/-! ## 3. Sums and differences -/

/-- A sum of a size is the sum of the numbers, modulo the number of values. -/
theorem unsigned_add (size : Size) (d s : Long) :
    size.unsigned (d + s) = (size.unsigned d + size.unsigned s) % size.count := by
  have hd : d.toNat < 4294967296 := d.isLt
  have hs : s.toNat < 4294967296 := s.isLt
  simp only [unsigned_eq_mod, BitVec.toNat_add]
  cases size <;> simp only [count, Long.count] <;> omega

theorem unsigned_add_congr {size : Size} {v v' w w' : Long}
    (hv : size.unsigned v = size.unsigned v') (hw : size.unsigned w = size.unsigned w') :
    size.unsigned (v + w) = size.unsigned (v' + w') := by
  rw [unsigned_add, unsigned_add, hv, hw]

theorem unsigned_ofNat (size : Size) (n : Nat) :
    size.unsigned (BitVec.ofNat 32 n) = n % size.count := by
  rw [unsigned_eq_mod, BitVec.toNat_ofNat]
  cases size <;> simp only [count, Long.count] <;> omega

theorem unsigned_truncate (size : Size) (v : Long) :
    size.unsigned (size.truncate v) = size.unsigned v :=
  congrArg BitVec.toNat (size.truncate_truncate v)

/-- **A difference of a size is the difference of the numbers, or it wraps once.** -/
theorem unsigned_sub (size : Size) (d s : Long) :
    (size.unsigned s ≤ size.unsigned d ∧
      size.unsigned (d - s) + size.unsigned s = size.unsigned d) ∨
    (size.unsigned d < size.unsigned s ∧
      size.unsigned (d - s) + size.unsigned s = size.unsigned d + size.count) := by
  have hd : d.toNat < 4294967296 := d.isLt
  have hs : s.toNat < 4294967296 := s.isLt
  simp only [unsigned_eq_mod, BitVec.toNat_sub]
  cases size <;> simp only [count, Long.count] <;> omega

/-! ## 4. Merged values -/

theorem merge_truncate (size : Size) (old v : Long) :
    size.merge old (size.truncate v) = size.merge old v := by
  unfold merge
  exact congrArg (_ ||| ·) (size.truncate_truncate v)

/-- A merge takes no more of a value than its number at the size. -/
theorem merge_congr {size : Size} {v w : Long} (old : Long)
    (h : size.unsigned v = size.unsigned w) : size.merge old v = size.merge old w := by
  rw [← merge_truncate, ← merge_truncate size old w, BitVec.eq_of_toNat_eq h]

/-- **A merged value is the old number from the size up and the new one below.** -/
theorem toNat_merge (size : Size) (old v : Long) :
    (size.merge old v).toNat = size.count * (old.toNat / size.count) + size.unsigned v := by
  have hlt := size.unsigned_lt_count v
  rw [count_eq] at hlt ⊢
  refine Nat.eq_of_testBit_eq fun j => ?_
  have hmerge : (size.merge old v).toNat.testBit j = _ := size.getLsbD_merge old v j
  have hlow : (size.unsigned v).testBit j = _ := size.getLsbD_truncate v j
  rw [hmerge, Nat.testBit_two_pow_mul_add _ hlt, hlow, Nat.testBit_div_two_pow]
  by_cases hj : j < size.bits
  · simp [hj]
  · rw [if_neg hj, if_neg hj, Nat.sub_add_cancel (Nat.le_of_not_lt hj)]
    rfl

/-- What a merge has put there is read back. -/
theorem unsigned_merge (size : Size) (old v : Long) :
    size.unsigned (size.merge old v) = size.unsigned v :=
  congrArg BitVec.toNat (size.truncate_merge old v)

/-- A merge leaves the old number from the size up. -/
theorem toNat_merge_div (size : Size) (old v : Long) :
    (size.merge old v).toNat / size.count = old.toNat / size.count := by
  have hlt := size.unsigned_lt_count v
  rw [toNat_merge, Nat.mul_add_div (by omega), Nat.div_eq_of_lt hlt, Nat.add_zero]

/-- The low bits of a merged value are those of the new one. -/
theorem setWidth_merge (size : Size) (old v : Long) :
    (size.merge old v).setWidth size.bits = v.setWidth size.bits := by
  refine BitVec.eq_of_getLsbD_eq fun i hi => ?_
  rw [BitVec.getLsbD_setWidth, BitVec.getLsbD_setWidth, getLsbD_merge, if_pos hi]

theorem merge_self (size : Size) (v : Long) : size.merge v v = v := by
  refine BitVec.eq_of_toNat_eq ?_
  rw [toNat_merge, unsigned_eq_mod]
  exact Nat.div_add_mod ..

/-- Of two merges over one another the second counts. -/
theorem merge_merge (size : Size) (old v w : Long) :
    size.merge (size.merge old v) w = size.merge old w := by
  refine BitVec.eq_of_toNat_eq ?_
  rw [toNat_merge, toNat_merge_div, toNat_merge]

end Mc68000.Size
