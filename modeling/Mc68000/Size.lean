import Mc68000.Word

/-!
# Operand sizes

* `Size` -- byte, word or long;
* `Size.ofField?`, `Size.ofMoveField` -- the two encodings of a size in an opcode;
* `Size.truncate`, `Size.merge`, `Size.signExtend`, `Size.isNegative` -- a 32-bit value seen at
  a size;
* `Size.toNat_truncate`, `Size.getLsbD_merge` -- **an operation of a size touches the bits of the
  size and no others.**
-/

namespace Mc68000

/-- The size of an operand. -/
inductive Size where
  | byte
  | word
  | long
  deriving DecidableEq, Repr

namespace Size

/-! ## 1. Sizes and values -/

/-- The number of bytes of an operand. -/
def bytes : Size → Nat
  | byte => 1
  | word => 2
  | long => 4

/-- The number of bits of an operand. -/
def bits (s : Size) : Nat := 8 * s.bytes

/-- The number of values of an operand. -/
def count : Size → Nat
  | byte => 0x100
  | word => 0x10000
  | long => Long.count

/-- The bits of a long that belong to an operand. -/
def mask : Size → Long
  | byte => 0x000000FF
  | word => 0x0000FFFF
  | long => 0xFFFFFFFF

/-- The sign bit of an operand. -/
def signBit : Size → Long
  | byte => 0x00000080
  | word => 0x00008000
  | long => 0x80000000

/-- The bits of a value that belong to the size, the others cleared. -/
def truncate (s : Size) (v : Long) : Long := v &&& s.mask

/-- The bits of `v` that belong to the size over the other bits of `old`. -/
def merge (s : Size) (old v : Long) : Long := (old &&& ~~~s.mask) ||| (v &&& s.mask)

/-- Whether the sign bit of the sized value is set. -/
def isNegative (s : Size) (v : Long) : Bool := v.getLsbD (s.bits - 1)

/-- The sized value as a two's-complement number of 32 bits. -/
def signExtend : Size → Long → Long
  | byte, v => (v.setWidth 8).signExtend 32
  | word, v => (v.setWidth 16).signExtend 32
  | long, v => v

/-- The assembler suffix. -/
def suffix : Size → String
  | byte => ".B"
  | word => ".W"
  | long => ".L"

/-- The usual size field. The value 3 is no size; it marks other encodings. -/
def ofField? (f : BitVec 2) : Option Size :=
  match f.toNat with
  | 0 => some byte
  | 1 => some word
  | 2 => some long
  | _ => none

/-- The size field of the MOVE family, which orders the sizes differently. -/
def ofMoveField (f : BitVec 2) : Size :=
  match f.toNat with
  | 1 => byte
  | 2 => long
  | _ => word

/-- Word or long, as one opcode bit tells. -/
def longIf (isLong : Bool) : Size := if isLong then long else word

/-! ## 2. The bits of a size -/

/-- The bits of a size come first. -/
theorem getLsbD_mask (s : Size) (i : Nat) : s.mask.getLsbD i = decide (i < s.bits) := by
  have h (k : Nat) (hk : k ≤ 32) :
      (BitVec.ofNat 32 (2 ^ k - 1)).getLsbD i = decide (i < k) := by
    rw [BitVec.getLsbD_ofNat, Nat.testBit_two_pow_sub_one]
    by_cases hi : i < k
    · simp [hi, Nat.lt_of_lt_of_le hi hk]
    · simp [hi]
  cases s
  · exact h 8 (by decide)
  · exact h 16 (by decide)
  · exact h 32 (by decide)

@[simp] theorem getLsbD_truncate (s : Size) (v : Long) (i : Nat) :
    (s.truncate v).getLsbD i = (v.getLsbD i && decide (i < s.bits)) := by
  rw [truncate, BitVec.getLsbD_and, getLsbD_mask]

theorem bits_le (s : Size) : s.bits ≤ 32 := by cases s <;> decide

theorem bits_pos (s : Size) : 0 < s.bits := by cases s <;> decide

/-- The truncated value is the value **modulo the size**. -/
theorem toNat_truncate (s : Size) (v : Long) : (s.truncate v).toNat = v.toNat % s.count := by
  cases s <;> rw [truncate, BitVec.toNat_and]
  · exact Nat.and_two_pow_sub_one_eq_mod v.toNat 8
  · exact Nat.and_two_pow_sub_one_eq_mod v.toNat 16
  · exact Nat.and_two_pow_sub_one_eq_mod v.toNat 32

/-- A merged value takes the bits of the size from the new value and the others from the old one. -/
theorem getLsbD_merge (s : Size) (old v : Long) (i : Nat) :
    (s.merge old v).getLsbD i = if i < s.bits then v.getLsbD i else old.getLsbD i := by
  rw [merge, BitVec.getLsbD_or, BitVec.getLsbD_and, BitVec.getLsbD_and, BitVec.getLsbD_not,
    getLsbD_mask]
  by_cases h : i < s.bits
  · simp [h]
  · by_cases hi : i < 32
    · simp [h, hi]
    · simp [h, BitVec.getLsbD_of_ge _ _ (Nat.le_of_not_lt hi)]

theorem truncate_merge (s : Size) (old v : Long) : s.truncate (s.merge old v) = s.truncate v := by
  refine BitVec.eq_of_getLsbD_eq fun i _ => ?_
  rw [getLsbD_truncate, getLsbD_truncate, getLsbD_merge]
  by_cases h : i < s.bits <;> simp [h]

theorem isNegative_truncate (s : Size) (v : Long) :
    s.isNegative (s.truncate v) = s.isNegative v := by
  have h : s.bits - 1 < s.bits := Nat.sub_lt s.bits_pos Nat.one_pos
  rw [isNegative, isNegative, getLsbD_truncate, decide_eq_true h, Bool.and_true]

@[simp] theorem truncate_long (v : Long) : long.truncate v = v := by
  show v &&& BitVec.allOnes 32 = v
  exact BitVec.and_allOnes

@[simp] theorem merge_long (old v : Long) : long.merge old v = v := by
  show (old &&& ~~~BitVec.allOnes 32) ||| (v &&& BitVec.allOnes 32) = v
  rw [BitVec.not_allOnes, BitVec.and_zero, BitVec.zero_or, BitVec.and_allOnes]

theorem truncate_truncate (s : Size) (v : Long) : s.truncate (s.truncate v) = s.truncate v := by
  simp [truncate, BitVec.and_assoc]

end Size

end Mc68000
