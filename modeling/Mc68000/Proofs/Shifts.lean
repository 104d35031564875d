import Mathlib.Algebra.Order.Ring.Int
import Mc68000.Proofs.ConditionCodes
import Mc68000.Proofs.SizedNumber

/-!
# Shifts in closed form

A shift moves its value bit by bit and keeps a carry and an overflow on the way. Here is what is
left after any number of bits.

* `ShiftStep.after` -- a value after so many bits; `after_succ` -- one more bit is one more step;
* `Shifted` -- a value and a status register are what a shift leaves; `Shifted.of_after` -- **what
  it leaves is read off its last step**;
* `value_left`, `value_right`, `value_signed` -- the values on the way, and `carry_left`,
  `carry_right`, `carry_signed` -- the bits that go out;
* `overflow_left` -- **the sign has changed on the way exactly if the product does not fit**;
* `shift_closed` -- the closed form of each of the shifts.
-/

namespace Mc68000

open Status

/-! ## 1. Bit by bit -/

/-- The sign bit is the highest one of the size. -/
theorem Size.getLsbD_signBit (size : Size) (i : Nat) :
    size.signBit.getLsbD i = decide (i = size.bits - 1) := by
  have hpow : size.signBit = BitVec.twoPow 32 (size.bits - 1) := by cases size <;> rfl
  have hlt : size.bits - 1 < 32 := by cases size <;> decide
  rw [hpow, BitVec.getLsbD_twoPow, decide_eq_true hlt, Bool.true_and]
  exact decide_eq_decide.mpr eq_comm

/-- A value of the size has no bits above it. -/
theorem Size.getLsbD_of_ge {size : Size} {v : Long} {i : Nat} (h : size.truncate v = v)
    (hi : size.bits ≤ i) : v.getLsbD i = false := by
  have hnot : ¬ i < size.bits := by omega
  rw [← h, getLsbD_truncate, decide_eq_false hnot, Bool.and_false]

namespace ShiftStep

variable (kind : ShiftKind) (direction : Direction) (size : Size) (v : Long) (sr : Word)

/-- A value after so many bits of a shift. -/
def after (count : Nat) : ShiftStep :=
  iterate kind direction size count (start kind size v sr)

variable {kind direction}

theorem iterate_succ (count : Nat) (s : ShiftStep) :
    iterate kind direction size (count + 1) s =
      next kind direction size (iterate kind direction size count s) := by
  induction count generalizing s with
  | zero => rfl
  | succ count ih => exact ih (next kind direction size s)

theorem after_succ (count : Nat) : after kind direction size v sr (count + 1) =
    next kind direction size (after kind direction size v sr count) :=
  iterate_succ size count _

variable {size} (bit : Bool) (i : Nat)

theorem getLsbD_move_left : (move .left size v bit).getLsbD i =
    (decide (i < size.bits) && if i = 0 then bit else v.getLsbD (i - 1)) := by
  have hpos := size.bits_pos
  have hle := size.bits_le
  have hbit : (if bit then 1 else 0 : Long).getLsbD i = (bit && decide (i = 0)) := by
    cases bit <;> simp [BitVec.getLsbD_one]
  unfold move
  dsimp only
  rw [BitVec.getLsbD_or, Size.getLsbD_truncate, BitVec.getLsbD_shiftLeft, hbit]
  by_cases hzero : i = 0
  · simp [hzero, hpos]
  · by_cases hi : i < size.bits
    · have hlt : i < 32 := by omega
      simp [hzero, hi, hlt]
    · simp [hzero, hi]

theorem getLsbD_move_right : (move .right size v bit).getLsbD i =
    (v.getLsbD (i + 1) || (bit && decide (i = size.bits - 1))) := by
  unfold move
  dsimp only
  rw [BitVec.getLsbD_or, BitVec.getLsbD_ushiftRight, Nat.add_comm 1]
  cases bit <;> simp [Size.getLsbD_signBit]

/-- A moved value stays within the size. -/
theorem truncate_move (h : size.truncate v = v) :
    size.truncate (move direction size v bit) = move direction size v bit := by
  refine BitVec.eq_of_getLsbD_eq fun i _ => ?_
  rw [Size.getLsbD_truncate]
  by_cases hi : i < size.bits
  · rw [decide_eq_true hi, Bool.and_true]
  · have hpos := size.bits_pos
    have hlast : i ≠ size.bits - 1 := by omega
    rw [decide_eq_false hi, Bool.and_false]
    cases direction with
    | left => rw [getLsbD_move_left, decide_eq_false hi, Bool.false_and]
    | right =>
      rw [getLsbD_move_right, Size.getLsbD_of_ge h (by omega), decide_eq_false hlast,
        Bool.and_false, Bool.or_false]

theorem truncate_after (count : Nat) : size.truncate (after kind direction size v sr count).value =
    (after kind direction size v sr count).value := by
  induction count with
  | zero => exact size.truncate_truncate v
  | succ count ih =>
    rw [after_succ]
    exact truncate_move _ _ ih

end ShiftStep

/-! ## 2. What a shift leaves -/

/-- A value and a status register are what a shift leaves: a number of the size, three flags that
    depend on the kind of the shift, and N and Z as the number tells. -/
structure Shifted (size : Size) (sr : Word) (number : Int) (carried extended overflowed : Bool)
    (left : Long × Word) : Prop where
  value_eq : (left.1.toNat : Int) = number
  carry_eq : hasFlag left.2 carry = carried
  extend_eq : hasFlag left.2 extend = extended
  overflow_eq : hasFlag left.2 overflow = overflowed
  negative_eq : hasFlag left.2 negative = decide (2 ^ (size.bits - 1) ≤ number)
  zero_eq : hasFlag left.2 zero = decide (number = 0)
  systemByte_eq : systemByte left.2 = systemByte sr

theorem Size.two_pow_half (size : Size) : (2 : Int) ^ (size.bits - 1) = size.half := by
  cases size <;> rfl

theorem Size.two_pow_count (size : Size) : (2 : Int) ^ size.bits = size.count := by
  cases size <;> rfl

/-- **What a shift leaves is read off its last step.** X follows the carry unless the shift is a
    plain rotate or by no bits. -/
theorem Shifted.of_after {kind : ShiftKind} {direction : Direction} {size : Size} {v : Long}
    {count : Nat} {sr : Word} {number : Int} {carried extended overflowed : Bool}
    (hvalue : ((ShiftStep.after kind direction size v sr count).value.toNat : Int) = number)
    (hcarry : (ShiftStep.after kind direction size v sr count).carry = carried)
    (hextend : (if count = 0 ∨ kind = .rotate then hasFlag sr extend else carried) = extended)
    (hoverflow : (ShiftStep.after kind direction size v sr count).overflow = overflowed) :
    Shifted size sr number carried extended overflowed (shift kind direction size v count sr) := by
  have htruncate : size.truncate (ShiftStep.after kind direction size v sr count).value = _ :=
    ShiftStep.truncate_after v sr count
  have hmask : kind.mask &&& conditions = kind.mask := by cases kind <;> decide
  have hsystem := ((agreeOutside_shift kind direction size v count sr).mono hmask).systemByte_eq
  have hleft : shift kind direction size v count sr =
      let s := ShiftStep.after kind direction size v sr count
      let sr := if 0 < count && kind ≠ .rotate then setFlag sr extend s.carry else sr
      (s.value, withNzvc sr size s.value s.overflow s.carry) := rfl
  rw [hleft] at hsystem ⊢
  generalize ShiftStep.after kind direction size v sr count = s at *
  subst hvalue hcarry hoverflow
  have hread : size.unsigned s.value = s.value.toNat := congrArg BitVec.toNat htruncate
  refine ⟨rfl, hasFlag_carry_withNzvc .., ?_, hasFlag_overflow_withNzvc .., ?_, ?_, hsystem⟩
  · have hguard : (decide (0 < count) && decide (kind ≠ .rotate)) =
        !decide (count = 0 ∨ kind = .rotate) := by
      rw [← Bool.decide_and, ← decide_not, decide_eq_decide, not_or, Nat.pos_iff_ne_zero]
    dsimp only
    rw [hasFlag_extend_withNzvc, hguard, ← hextend]
    by_cases h : count = 0 ∨ kind = .rotate
    · rw [decide_eq_true h, if_pos h]
      rfl
    · rw [decide_eq_false h, if_neg h]
      exact hasFlag_setFlag (by decide) (by decide) _ _
  · rw [hasFlag_negative_withNzvc, Size.isNegative_eq, Size.two_pow_half, hread, decide_eq_decide,
      Int.ofNat_le]
  · rw [hasFlag_zero_withNzvc, htruncate, decide_eq_decide, Int.natCast_eq_zero]
    exact BitVec.toNat_inj.symm

/-! ## 3. To the left -/

namespace ShiftStep

variable {kind : ShiftKind} {size : Size} {v : Long} {sr : Word}

/-- No bits come in from the right. -/
theorem value_left (hkind : kind = .arithmetic ∨ kind = .logical) (count : Nat) :
    (after kind .left size v sr count).value = size.truncate (v <<< count) := by
  have hfill (s : ShiftStep) : fill kind .left size s = false := by
    rcases hkind with rfl | rfl <;> rfl
  induction count with
  | zero => rw [BitVec.shiftLeft_zero]; rfl
  | succ count ih =>
    rw [after_succ]
    unfold next
    dsimp only
    rw [hfill, ih]
    refine BitVec.eq_of_getLsbD_eq fun i hi => ?_
    rw [getLsbD_move_left, Size.getLsbD_truncate, Size.getLsbD_truncate, BitVec.getLsbD_shiftLeft,
      BitVec.getLsbD_shiftLeft]
    by_cases hzero : i = 0
    · simp [hzero]
    · have hlt : i - 1 < 32 := by omega
      have hsub : i - 1 - count = i - (count + 1) := by omega
      have hcompare : i - 1 < count ↔ i < count + 1 := by omega
      by_cases hsize : i < size.bits
      · have hsize' : i - 1 < size.bits := by omega
        simp [hzero, hi, hlt, hsub, hcompare, hsize, hsize']
      · simp [hsize]

/-- The bit that goes out last is as far from the top as the shift has gone. -/
theorem carry_left (hkind : kind = .arithmetic ∨ kind = .logical) (count : Nat) :
    (after kind .left size v sr count).carry =
      (decide (1 ≤ count ∧ count ≤ size.bits) && v.getLsbD (size.bits - count)) := by
  cases count with
  | zero => rcases hkind with rfl | rfl <;> rfl
  | succ count =>
    have hpos := size.bits_pos
    have hle := size.bits_le
    rw [after_succ]
    show size.isNegative (after kind .left size v sr count).value = _
    rw [value_left hkind, Size.isNegative_truncate, Size.isNegative, BitVec.getLsbD_shiftLeft]
    have hlt : size.bits - 1 < 32 := by omega
    have hsub : size.bits - 1 - count = size.bits - (count + 1) := by omega
    have hcompare : size.bits - 1 < count ↔ ¬ (1 ≤ count + 1 ∧ count + 1 ≤ size.bits) := by omega
    rw [hsub, decide_eq_true hlt, Bool.true_and, decide_eq_decide.mpr hcompare, decide_not,
      Bool.not_not]

end ShiftStep

namespace Size

variable (size : Size) (v : Long) (n : Nat)

/-- **A value shifted to the left is the product as a number of the size.** -/
theorem unsigned_shiftLeft :
    (size.unsigned (v <<< n) : Int) = size.unsigned v * 2 ^ n % 2 ^ size.bits := by
  have hdvd : size.count ∣ 2 ^ 32 := by cases size <;> decide
  have hnat : size.unsigned (v <<< n) = size.unsigned v * 2 ^ n % size.count := by
    rw [unsigned_eq_mod, unsigned_eq_mod, BitVec.toNat_shiftLeft, Nat.shiftLeft_eq,
      Nat.mod_mod_of_dvd _ hdvd, Nat.mod_mul_mod]
  rw [hnat, two_pow_count]
  push_cast
  rfl

/-- With a sign, a value is the one of its remainders that is nearest to zero. -/
theorem signed_eq_bmod : size.signed v = (size.unsigned v : Int).bmod size.count := by
  have hcast : (size.unsigned v : Int) = (v.toNat : Int) % size.count := by
    rw [unsigned_eq_mod, Int.natCast_emod]
  rw [signed_eq_toInt, BitVec.toInt_setWidth, hcast, Int.emod_bmod, count_eq]

/-- A product that fits is what a shift to the left stands for with a sign. -/
theorem signed_shiftLeft (hlow : -size.half ≤ size.signed v * 2 ^ n)
    (hhigh : size.signed v * 2 ^ n < size.half) :
    size.signed (v <<< n) = size.signed v * 2 ^ n := by
  have hcount := size.count_eq_two_mul_half
  calc size.signed (v <<< n)
      = (size.unsigned v * 2 ^ n : Int).bmod size.count := by
        rw [signed_eq_bmod, unsigned_shiftLeft, two_pow_count, Int.emod_bmod]
    _ = (size.signed v * 2 ^ n).bmod size.count := by
        rw [signed_eq_bmod, Int.bmod_mul_bmod]
    _ = size.signed v * 2 ^ n := Int.bmod_eq_of_le_mul_two (by omega) (by omega)

/-- **Doubling a value changes its sign exactly if the double does not fit.** -/
theorem isNegative_double : (size.isNegative v != size.isNegative (v <<< 1)) =
    decide (2 * size.signed v < -size.half ∨ size.half ≤ 2 * size.signed v) := by
  have hv := size.unsigned_lt_count v
  have hcount := size.count_eq_two_mul_half
  have hdouble : size.unsigned (v <<< 1) =
      if size.half ≤ size.unsigned v then 2 * size.unsigned v - size.count
      else 2 * size.unsigned v := by
    have hmod := size.unsigned_shiftLeft v 1
    rw [two_pow_count] at hmod
    split
    · rw [← Int.sub_emod_right, Int.emod_eq_of_lt] at hmod <;> omega
    · rw [Int.emod_eq_of_lt] at hmod <;> omega
  rw [isNegative_eq, isNegative_eq, signed_eq, hdouble]
  by_cases hhalf : size.half ≤ size.unsigned v
  · rw [if_pos hhalf, if_pos hhalf, decide_eq_true hhalf, Bool.true_bne, ← decide_not,
      decide_eq_decide]
    omega
  · rw [if_neg hhalf, if_neg hhalf, decide_eq_false hhalf, Bool.false_bne, decide_eq_decide]
    omega

end Size

/-- **The sign has changed on the way exactly if the product does not fit.** -/
theorem ShiftStep.overflow_left (size : Size) (v : Long) (sr : Word) (count : Nat) :
    (after .arithmetic .left size v sr count).overflow =
      decide (size.signed v * 2 ^ count < -size.half ∨ size.half ≤ size.signed v * 2 ^ count) := by
  have hkind : ShiftKind.arithmetic = .arithmetic ∨ ShiftKind.arithmetic = .logical := .inl rfl
  induction count with
  | zero =>
    have hrange : ¬ (size.signed v < -size.half ∨ size.half ≤ size.signed v) := by
      have hv := size.unsigned_lt_count v
      have hcount := size.count_eq_two_mul_half
      rw [Size.signed_eq]
      split <;> omega
    rw [Int.pow_zero, Int.mul_one, decide_eq_false hrange]
    rfl
  | succ count ih =>
    have hvalue : (after .arithmetic .left size v sr count).value = _ := value_left hkind count
    have hnext : (after .arithmetic .left size v sr (count + 1)).value = _ :=
      value_left hkind (count + 1)
    rw [after_succ, BitVec.shiftLeft_add] at hnext
    have hstep : (after .arithmetic .left size v sr (count + 1)).overflow =
        ((after .arithmetic .left size v sr count).overflow ||
          (size.isNegative (v <<< count) != size.isNegative (v <<< count <<< 1))) := by
      rw [after_succ, ← Size.isNegative_truncate size (v <<< count),
        ← Size.isNegative_truncate size (v <<< count <<< 1), ← hvalue, ← hnext]
      rfl
    have hdouble : size.signed v * 2 ^ (count + 1) = 2 * (size.signed v * 2 ^ count) := by
      rw [Int.pow_succ, ← Int.mul_assoc, Int.mul_comm]
    rw [hstep, ih, Size.isNegative_double, hdouble, ← Bool.decide_or, decide_eq_decide]
    by_cases hfits : size.signed v * 2 ^ count < -size.half ∨ size.half ≤ size.signed v * 2 ^ count
    · -- once the product has left the size, doubling takes it further away
      omega
    · rw [Size.signed_shiftLeft size v count (by omega) (by omega)]
      omega

/-! ## 4. To the right -/

namespace Size

variable (size : Size) (v : Long) (n i : Nat)

theorem signExtend_eq : size.signExtend v = (v.setWidth size.bits).signExtend 32 := by
  cases size with
  | byte | word => rfl
  | long =>
    show v = (v.setWidth 32).signExtend 32
    rw [BitVec.setWidth_eq, BitVec.signExtend_eq]

/-- A value extended and shifted to the right repeats its sign bit from above. -/
theorem getLsbD_signedShift (hi : i < size.bits) :
    ((size.signExtend v).sshiftRight n).getLsbD i = v.getLsbD (min (n + i) (size.bits - 1)) := by
  have hpos := size.bits_pos
  have hle := size.bits_le
  have hbit (k : Nat) (hk : k < 32) :
      (size.signExtend v).getLsbD k = v.getLsbD (min k (size.bits - 1)) := by
    have hlast : size.bits - 1 < size.bits := by omega
    rw [signExtend_eq, BitVec.getLsbD_signExtend, BitVec.msb_eq_getLsbD_last,
      BitVec.getLsbD_setWidth, BitVec.getLsbD_setWidth, decide_eq_true hk, decide_eq_true hlast]
    by_cases hin : k < size.bits
    · rw [if_pos hin, decide_eq_true hin, Nat.min_eq_left (by omega)]
      rfl
    · rw [if_neg hin, Nat.min_eq_right (by omega)]
      rfl
  have hin : ¬ 32 ≤ i := by omega
  rw [BitVec.getLsbD_sshiftRight, decide_eq_false hin, Bool.not_false, Bool.true_and]
  by_cases hfar : n + i < 32
  · rw [if_pos hfar, hbit _ hfar]
  · rw [if_neg hfar, BitVec.msb_eq_getLsbD_last, hbit _ (by decide), Nat.min_eq_right (by omega),
      Nat.min_eq_right (by omega)]

theorem unsigned_eq_toInt_emod : (size.unsigned v : Int) = v.toInt % 2 ^ size.bits := by
  have hdvd : (size.count : Int) ∣ (2 ^ 32 : Nat) := by cases size <;> decide
  calc (size.unsigned v : Int)
      = (v.toNat : Int) % size.count := by rw [unsigned_eq_mod, Int.natCast_emod]
    _ = (v.toNat : Int) % (2 ^ 32 : Nat) % size.count := (Int.emod_emod_of_dvd _ hdvd).symm
    _ = v.toInt % (2 ^ 32 : Nat) % size.count := by
        rw [BitVec.toInt_eq_toNat_bmod, Int.bmod_emod]
    _ = v.toInt % 2 ^ size.bits := by rw [Int.emod_emod_of_dvd _ hdvd, two_pow_count]

/-- **A value extended and shifted to the right is the quotient, rounded down.** -/
theorem unsigned_signedShift : (size.unsigned ((size.signExtend v).sshiftRight n) : Int) =
    size.signed v / 2 ^ n % 2 ^ size.bits := by
  rw [unsigned_eq_toInt_emod, BitVec.toInt_sshiftRight, Int.shiftRight_eq_div_pow]
  push_cast
  rfl

end Size

namespace ShiftStep

variable {size : Size} {v : Long} {sr : Word} (count : Nat)

/-- No bits come in from the left. -/
theorem value_right :
    (after .logical .right size v sr count).value = size.truncate v >>> count := by
  induction count with
  | zero => rw [BitVec.ushiftRight_zero]; rfl
  | succ count ih =>
    rw [after_succ]
    show (after .logical .right size v sr count).value >>> 1 ||| 0 = _
    rw [ih, BitVec.shiftRight_add]
    exact BitVec.or_zero

/-- The bit that goes out last is as far from the bottom as the shift has gone. -/
theorem carry_right : (after .logical .right size v sr count).carry =
    (decide (1 ≤ count ∧ count ≤ size.bits) && v.getLsbD (count - 1)) := by
  cases count with
  | zero => rfl
  | succ count =>
    have hcompare : count < size.bits ↔ 1 ≤ count + 1 ∧ count + 1 ≤ size.bits := by omega
    rw [after_succ]
    show (after .logical .right size v sr count).value.getLsbD 0 = _
    rw [value_right, BitVec.getLsbD_ushiftRight, Size.getLsbD_truncate, Nat.add_zero,
      Nat.add_sub_cancel, Bool.and_comm, decide_eq_decide.mpr hcompare]

/-- The sign comes in from the left. -/
theorem value_signed : (after .arithmetic .right size v sr count).value =
    size.truncate ((size.signExtend v).sshiftRight count) := by
  have hpos := size.bits_pos
  induction count with
  | zero =>
    refine BitVec.eq_of_getLsbD_eq fun i _ => ?_
    show (size.truncate v).getLsbD i = _
    rw [Size.getLsbD_truncate, Size.getLsbD_truncate]
    by_cases hi : i < size.bits
    · rw [Size.getLsbD_signedShift size v 0 i hi, Nat.min_eq_left (by omega), Nat.zero_add]
    · rw [decide_eq_false hi, Bool.and_false, Bool.and_false]
  | succ count ih =>
    rw [after_succ]
    show move .right size (after .arithmetic .right size v sr count).value
      (size.isNegative (after .arithmetic .right size v sr count).value) = _
    rw [ih, Size.isNegative_truncate, Size.isNegative]
    refine BitVec.eq_of_getLsbD_eq fun i _ => ?_
    rw [getLsbD_move_right, Size.getLsbD_truncate, Size.getLsbD_truncate,
      Size.getLsbD_signedShift size v count (size.bits - 1) (by omega)]
    rcases Nat.lt_trichotomy i (size.bits - 1) with hlow | rfl | hhigh
    · have hin : i < size.bits := by omega
      have hin' : i + 1 < size.bits := by omega
      have hlast : i ≠ size.bits - 1 := by omega
      rw [Size.getLsbD_signedShift size v _ _ hin, Size.getLsbD_signedShift size v _ _ hin',
        decide_eq_true hin, decide_eq_true hin', decide_eq_false hlast, Bool.and_false,
        Bool.or_false, Nat.add_assoc, Nat.add_comm 1]
    · have hin : size.bits - 1 < size.bits := by omega
      have hout : ¬ size.bits - 1 + 1 < size.bits := by omega
      rw [Size.getLsbD_signedShift size v _ _ hin, decide_eq_true hin, decide_eq_false hout,
        decide_eq_true rfl, Nat.min_eq_right (by omega), Nat.min_eq_right (by omega),
        Bool.and_false, Bool.false_or]
    · have hout : ¬ i < size.bits := by omega
      have hout' : ¬ i + 1 < size.bits := by omega
      have hlast : i ≠ size.bits - 1 := by omega
      rw [decide_eq_false hout, decide_eq_false hout', decide_eq_false hlast, Bool.and_false,
        Bool.and_false, Bool.and_false, Bool.or_false]

/-- Past the size, the bit that goes out is the sign. -/
theorem carry_signed : (after .arithmetic .right size v sr count).carry =
    (decide (1 ≤ count) && v.getLsbD (min count size.bits - 1)) := by
  have hpos := size.bits_pos
  cases count with
  | zero => rfl
  | succ count =>
    have hmin : min count (size.bits - 1) = min (count + 1) size.bits - 1 := by omega
    rw [after_succ]
    show (after .arithmetic .right size v sr count).value.getLsbD 0 = _
    rw [value_signed, Size.getLsbD_truncate, Size.getLsbD_signedShift size v count 0 hpos,
      Nat.add_zero, hmin, decide_eq_true hpos, Bool.and_true]
    simp

end ShiftStep

/-! ## 5. The closed forms -/

/-- No step but one of an arithmetic shift to the left overflows. -/
theorem ShiftStep.overflow_of_other {kind : ShiftKind} {direction : Direction} (size : Size)
    (v : Long) (sr : Word) (count : Nat) (h : kind ≠ .arithmetic ∨ direction = .right) :
    (after kind direction size v sr count).overflow = false := by
  induction count with
  | zero => rfl
  | succ count ih =>
    rw [after_succ]
    unfold next
    dsimp only
    rw [ih]
    rcases h with hkind | rfl
    · rw [decide_eq_false hkind]
      rfl
    · simp

/-- **The closed form of a shift.** To the left a shift multiplies by a power of two, modulo the
    size; to the right it divides by one and rounds down, the arithmetic one the number with its
    sign. C is the bit that went out last, and X follows it unless the shift is by no bits. V tells
    of an arithmetic shift to the left if the product with its sign does not fit the size. -/
theorem shift_closed (size : Size) (v : Long) (count : Nat) (sr : Word) :
    let b := size.bits
    let kept (carried : Bool) : Bool := if count = 0 then hasFlag sr extend else carried
    let topOut : Bool := decide (1 ≤ count ∧ count ≤ b) && v.getLsbD (b - count)
    let bottomOut : Bool := decide (1 ≤ count ∧ count ≤ b) && v.getLsbD (count - 1)
    let signOut : Bool := decide (1 ≤ count) && v.getLsbD (min count b - 1)
    let overflowed : Bool := size.signed v * 2 ^ count < -2 ^ (b - 1) ∨
      2 ^ (b - 1) ≤ size.signed v * 2 ^ count
    Shifted size sr (size.unsigned v * 2 ^ count % 2 ^ b) topOut (kept topOut) false
        (shift .logical .left size v count sr) ∧
      Shifted size sr (size.unsigned v * 2 ^ count % 2 ^ b) topOut (kept topOut) overflowed
        (shift .arithmetic .left size v count sr) ∧
      Shifted size sr (size.unsigned v / 2 ^ count) bottomOut (kept bottomOut) false
        (shift .logical .right size v count sr) ∧
      Shifted size sr (size.signed v / 2 ^ count % 2 ^ b) signOut (kept signOut) false
        (shift .arithmetic .right size v count sr) := by
  intro b kept topOut bottomOut signOut overflowed
  have hkept {kind : ShiftKind} (hkind : kind ≠ .rotate) (carried : Bool) :
      (if count = 0 ∨ kind = .rotate then hasFlag sr extend else carried) = kept carried := by
    simp [kept, hkind]
  have hleft (kind : ShiftKind) (hkind : kind = .arithmetic ∨ kind = .logical) :
      ((ShiftStep.after kind .left size v sr count).value.toNat : Int) =
        size.unsigned v * 2 ^ count % 2 ^ b := by
    rw [ShiftStep.value_left hkind]
    exact size.unsigned_shiftLeft v count
  have hright : ((ShiftStep.after .logical .right size v sr count).value.toNat : Int) =
      size.unsigned v / 2 ^ count := by
    rw [ShiftStep.value_right, BitVec.toNat_ushiftRight, Nat.shiftRight_eq_div_pow]
    push_cast
    rfl
  have hsigned : ((ShiftStep.after .arithmetic .right size v sr count).value.toNat : Int) =
      size.signed v / 2 ^ count % 2 ^ b := by
    rw [ShiftStep.value_signed]
    exact size.unsigned_signedShift v count
  have hoverflow : (ShiftStep.after .arithmetic .left size v sr count).overflow = overflowed := by
    rw [ShiftStep.overflow_left, ← Size.two_pow_half]
  refine ⟨?_, ?_, ?_, ?_⟩
  · exact .of_after (hleft _ (.inr rfl)) (ShiftStep.carry_left (.inr rfl) count)
      (hkept (by decide) _) (ShiftStep.overflow_of_other _ _ _ _ (.inl (by decide)))
  · exact .of_after (hleft _ (.inl rfl)) (ShiftStep.carry_left (.inl rfl) count)
      (hkept (by decide) _) hoverflow
  · exact .of_after hright (ShiftStep.carry_right count) (hkept (by decide) _)
      (ShiftStep.overflow_of_other _ _ _ _ (.inl (by decide)))
  · exact .of_after hsigned (ShiftStep.carry_signed count) (hkept (by decide) _)
      (ShiftStep.overflow_of_other _ _ _ _ (.inr rfl))

end Mc68000
