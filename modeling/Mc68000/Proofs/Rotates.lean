import Mc68000.Proofs.Shifts

/-!
# Rotates in closed form

A rotate moves its value bit by bit, and what goes out at one end comes in at the other: at once,
or by way of the extend flag. Here is what is left after any number of bits.

* `eq_rotateLeft_iff`, `eq_rotateRight_iff` -- a rotation by where it takes each bit;
  `rotateRight_rotateLeft` -- **one undoes the other**;
* `ShiftStep.word`, `ShiftStep.joined` -- the value at its size, alone and with the extend flag
  above it;
* `word_left`, `word_right`, `joined_left`, `joined_right` -- **so many bits of a rotate are one
  rotation by so many bits**, of the one or of the other;
* `shift_rotates` -- the closed form of each of the rotates, and what they restore.
-/

namespace Mc68000

open Status

/-! ## 1. Rotations -/

namespace Rotation

variable {w : Nat} {x y : BitVec w} {n : Nat}

/-- Bit `i` of a value goes to where `i + n` is around the width. -/
theorem getLsbD_rotateLeft_add {i : Nat} (hi : i < w) :
    (x.rotateLeft n).getLsbD ((i + n) % w) = x.getLsbD i := by
  have hr : n % w < w := Nat.mod_lt n (by omega)
  rw [BitVec.getLsbD_rotateLeft, ← Nat.add_mod_mod]
  generalize n % w = r at hr ⊢
  by_cases hin : i + r < w
  · have hnot : ¬ i + r < r := by omega
    rw [Nat.mod_eq_of_lt hin, decide_eq_false hnot, decide_eq_true hin, Nat.add_sub_cancel]
    rfl
  · have hturned : (i + r) % w = i + r - w := by
      rw [Nat.mod_eq_sub_mod (by omega), Nat.mod_eq_of_lt (by omega)]
    have hback : w - r + (i + r - w) = i := by omega
    have hlow : i + r - w < r := by omega
    rw [hturned, decide_eq_true hlow, hback]
    rfl

/-- Bit `i` of the result comes from where `i + n` is around the width. -/
theorem getLsbD_rotateRight_of_lt {i : Nat} (hi : i < w) :
    (x.rotateRight n).getLsbD i = x.getLsbD ((i + n) % w) := by
  have hr : n % w < w := Nat.mod_lt n (by omega)
  rw [BitVec.getLsbD_rotateRight, ← Nat.add_mod_mod]
  generalize n % w = r at hr ⊢
  by_cases hin : i + r < w
  · have hlow : i < w - r := by omega
    rw [Nat.mod_eq_of_lt hin, decide_eq_true hlow, Nat.add_comm r]
    rfl
  · have hturned : (i + r) % w = i - (w - r) := by
      rw [Nat.mod_eq_sub_mod (by omega), Nat.mod_eq_of_lt (by omega)]
      omega
    have hnot : ¬ i < w - r := by omega
    rw [hturned, decide_eq_false hnot, decide_eq_true hi]
    rfl

/-- Each place is where some bit goes. -/
theorem exists_turned {j : Nat} (hj : j < w) (n : Nat) : ∃ i < w, (i + n) % w = j := by
  have hr : n % w < w := Nat.mod_lt n (by omega)
  refine ⟨(j + (w - n % w)) % w, Nat.mod_lt _ (by omega), ?_⟩
  have hround : j + (w - n % w) + n % w = j + w := by omega
  rw [Nat.mod_add_mod, ← Nat.add_mod_mod, hround, Nat.add_mod_right, Nat.mod_eq_of_lt hj]

theorem eq_rotateLeft_iff :
    y = x.rotateLeft n ↔ ∀ i < w, y.getLsbD ((i + n) % w) = x.getLsbD i := by
  constructor
  · rintro rfl i hi
    exact getLsbD_rotateLeft_add hi
  · intro h
    refine BitVec.eq_of_getLsbD_eq fun j hj => ?_
    obtain ⟨i, hi, rfl⟩ := exists_turned hj n
    rw [h i hi, getLsbD_rotateLeft_add hi]

theorem eq_rotateRight_iff :
    y = x.rotateRight n ↔ ∀ i < w, y.getLsbD i = x.getLsbD ((i + n) % w) := by
  constructor
  · rintro rfl i hi
    exact getLsbD_rotateRight_of_lt hi
  · intro h
    refine BitVec.eq_of_getLsbD_eq fun i hi => ?_
    rw [h i hi, getLsbD_rotateRight_of_lt hi]

/-- **A rotation to the right undoes one to the left.** -/
theorem rotateRight_rotateLeft (x : BitVec w) (n : Nat) :
    (x.rotateLeft n).rotateRight n = x := by
  refine (eq_rotateRight_iff.mpr fun i hi => ?_).symm
  rw [getLsbD_rotateLeft_add hi]

theorem rotateLeft_succ (x : BitVec w) (n : Nat) :
    x.rotateLeft (n + 1) = (x.rotateLeft n).rotateLeft 1 := by
  refine (eq_rotateLeft_iff.mpr fun i hi => ?_).symm
  have hin : (i + n) % w < w := Nat.mod_lt _ (by omega)
  rw [← Nat.add_assoc, ← Nat.mod_add_mod, getLsbD_rotateLeft_add hin, getLsbD_rotateLeft_add hi]

theorem rotateRight_succ (x : BitVec w) (n : Nat) :
    x.rotateRight (n + 1) = (x.rotateRight n).rotateRight 1 := by
  refine (eq_rotateRight_iff.mpr fun i hi => ?_).symm
  have hin : (i + 1) % w < w := Nat.mod_lt _ (by omega)
  rw [getLsbD_rotateRight_of_lt hi, getLsbD_rotateRight_of_lt hin, Nat.mod_add_mod,
    Nat.add_assoc, Nat.add_comm 1]

theorem rotateLeft_zero (x : BitVec w) : x.rotateLeft 0 = x := by
  refine (eq_rotateLeft_iff.mpr fun i hi => ?_).symm
  rw [Nat.add_zero, Nat.mod_eq_of_lt hi]

theorem rotateRight_zero (x : BitVec w) : x.rotateRight 0 = x := by
  refine (eq_rotateRight_iff.mpr fun i hi => ?_).symm
  rw [Nat.add_zero, Nat.mod_eq_of_lt hi]

end Rotation

/-! ## 2. One bit of a rotate -/

namespace ShiftStep

/-- The value at its size. -/
def word (size : Size) (s : ShiftStep) : BitVec size.bits := s.value.setWidth size.bits

/-- The value at its size, with the extend flag above it. -/
def joined (size : Size) (s : ShiftStep) : BitVec (size.bits + 1) :=
  BitVec.cons s.extend (s.word size)

variable (size : Size) (s : ShiftStep) {i : Nat}

theorem getLsbD_word (hi : i < size.bits) : (s.word size).getLsbD i = s.value.getLsbD i := by
  rw [word, BitVec.getLsbD_setWidth, decide_eq_true hi, Bool.true_and]

variable {size s}

theorem toNat_word (h : size.truncate s.value = s.value) :
    (s.word size).toNat = s.value.toNat := by
  rw [word, BitVec.toNat_setWidth, ← Size.count_eq, ← Size.toNat_truncate, h]

variable (size s)

theorem word_next_left :
    (next .rotate .left size s).word size = (s.word size).rotateLeft 1 := by
  have hpos := size.bits_pos
  refine Rotation.eq_rotateLeft_iff.mpr fun i hi => ?_
  have hin : (i + 1) % size.bits < size.bits := Nat.mod_lt _ hpos
  rw [getLsbD_word size _ hin, getLsbD_word size _ hi]
  show (move .left size s.value (size.isNegative s.value)).getLsbD _ = _
  rw [getLsbD_move_left, decide_eq_true hin, Bool.true_and]
  by_cases hlast : i + 1 = size.bits
  · rw [hlast, Nat.mod_self, if_pos rfl, Size.isNegative, ← hlast, Nat.add_sub_cancel]
  · rw [Nat.mod_eq_of_lt (by omega), if_neg (by omega), Nat.add_sub_cancel]

theorem word_next_right (h : size.truncate s.value = s.value) :
    (next .rotate .right size s).word size = (s.word size).rotateRight 1 := by
  have hpos := size.bits_pos
  refine Rotation.eq_rotateRight_iff.mpr fun i hi => ?_
  have hin : (i + 1) % size.bits < size.bits := Nat.mod_lt _ hpos
  rw [getLsbD_word size _ hi, getLsbD_word size _ hin]
  show (move .right size s.value (s.value.getLsbD 0)).getLsbD i = _
  rw [getLsbD_move_right]
  by_cases hlast : i + 1 = size.bits
  · have htop : i = size.bits - 1 := by omega
    rw [hlast, Nat.mod_self, Size.getLsbD_of_ge h (Nat.le_refl _), decide_eq_true htop,
      Bool.false_or, Bool.and_true]
  · have htop : i ≠ size.bits - 1 := by omega
    rw [Nat.mod_eq_of_lt (by omega), decide_eq_false htop, Bool.and_false, Bool.or_false]

theorem joined_next_left :
    (next .rotateExtend .left size s).joined size = (s.joined size).rotateLeft 1 := by
  have hpos := size.bits_pos
  refine Rotation.eq_rotateLeft_iff.mpr fun i hi => ?_
  rw [joined, joined, BitVec.getLsbD_cons, BitVec.getLsbD_cons]
  by_cases htop : i = size.bits
  · -- the extend flag comes in at the bottom
    have hzero : 0 ≠ size.bits := by omega
    rw [htop, Nat.mod_self, if_neg hzero, if_pos rfl, getLsbD_word size _ hpos]
    show (move .left size s.value s.extend).getLsbD 0 = _
    rw [getLsbD_move_left, decide_eq_true hpos, if_pos rfl, Bool.true_and]
  · have hin : i < size.bits := by omega
    rw [Nat.mod_eq_of_lt (by omega), if_neg htop, getLsbD_word size s hin]
    by_cases hlast : i + 1 = size.bits
    · -- the top bit of the value becomes the extend flag
      rw [if_pos hlast]
      show s.value.getLsbD (size.bits - 1) = _
      rw [← hlast, Nat.add_sub_cancel]
    · have hnext : i + 1 < size.bits := by omega
      rw [if_neg hlast, getLsbD_word size _ hnext]
      show (move .left size s.value s.extend).getLsbD (i + 1) = _
      rw [getLsbD_move_left, decide_eq_true hnext, if_neg (by omega), Nat.add_sub_cancel,
        Bool.true_and]

theorem joined_next_right (h : size.truncate s.value = s.value) :
    (next .rotateExtend .right size s).joined size = (s.joined size).rotateRight 1 := by
  have hpos := size.bits_pos
  refine Rotation.eq_rotateRight_iff.mpr fun i hi => ?_
  rw [joined, joined, BitVec.getLsbD_cons, BitVec.getLsbD_cons]
  by_cases htop : i = size.bits
  · -- the lowest bit of the value becomes the extend flag
    have hzero : 0 ≠ size.bits := by omega
    rw [if_pos htop, htop, Nat.mod_self, if_neg hzero, getLsbD_word size _ hpos]
    rfl
  · have hin : i < size.bits := by omega
    rw [if_neg htop, getLsbD_word size _ hin, Nat.mod_eq_of_lt (by omega)]
    show (move .right size s.value s.extend).getLsbD i = _
    rw [getLsbD_move_right]
    by_cases hlast : i + 1 = size.bits
    · -- the extend flag comes in at the top
      have hsign : i = size.bits - 1 := by omega
      rw [if_pos hlast, hlast, Size.getLsbD_of_ge h (Nat.le_refl _), decide_eq_true hsign,
        Bool.false_or, Bool.and_true]
    · have hnext : i + 1 < size.bits := by omega
      have hsign : i ≠ size.bits - 1 := by omega
      rw [if_neg hlast, getLsbD_word size s hnext, decide_eq_false hsign, Bool.and_false,
        Bool.or_false]

/-! ## 3. Any number of bits -/

variable (v : Long) (sr : Word) (count : Nat)

theorem word_start (kind : ShiftKind) :
    (start kind size v sr).word size = v.setWidth size.bits := by
  show (size.truncate v).setWidth size.bits = _
  refine BitVec.eq_of_getLsbD_eq fun i hi => ?_
  rw [BitVec.getLsbD_setWidth, BitVec.getLsbD_setWidth, Size.getLsbD_truncate, decide_eq_true hi,
    Bool.and_true]

theorem joined_start (kind : ShiftKind) : (start kind size v sr).joined size =
    BitVec.cons (hasFlag sr Status.extend) (v.setWidth size.bits) := by
  rw [joined, word_start]
  rfl

theorem word_left : (after .rotate .left size v sr count).word size =
    ((start .rotate size v sr).word size).rotateLeft count := by
  induction count with
  | zero => rw [Rotation.rotateLeft_zero]; rfl
  | succ count ih => rw [after_succ, word_next_left, ih, ← Rotation.rotateLeft_succ]

theorem word_right : (after .rotate .right size v sr count).word size =
    ((start .rotate size v sr).word size).rotateRight count := by
  induction count with
  | zero => rw [Rotation.rotateRight_zero]; rfl
  | succ count ih =>
    rw [after_succ, word_next_right size _ (truncate_after v sr count), ih,
      ← Rotation.rotateRight_succ]

theorem joined_left : (after .rotateExtend .left size v sr count).joined size =
    ((start .rotateExtend size v sr).joined size).rotateLeft count := by
  induction count with
  | zero => rw [Rotation.rotateLeft_zero]; rfl
  | succ count ih => rw [after_succ, joined_next_left, ih, ← Rotation.rotateLeft_succ]

theorem joined_right : (after .rotateExtend .right size v sr count).joined size =
    ((start .rotateExtend size v sr).joined size).rotateRight count := by
  induction count with
  | zero => rw [Rotation.rotateRight_zero]; rfl
  | succ count ih =>
    rw [after_succ, joined_next_right size _ (truncate_after v sr count), ih,
      ← Rotation.rotateRight_succ]

/-- What went out last on the left has come in at the bottom. -/
theorem carry_rotate_left : (after .rotate .left size v sr count).carry =
    (decide (count ≠ 0) && ((after .rotate .left size v sr count).word size).getLsbD 0) := by
  cases count with
  | zero => rfl
  | succ count =>
    rw [after_succ, getLsbD_word size _ size.bits_pos]
    show size.isNegative (after .rotate .left size v sr count).value =
      (true && (move .left size _ (size.isNegative _)).getLsbD 0)
    rw [getLsbD_move_left, decide_eq_true size.bits_pos, if_pos rfl, Bool.true_and, Bool.true_and]

/-- What went out last on the right has come in at the top. -/
theorem carry_rotate_right : (after .rotate .right size v sr count).carry =
    (decide (count ≠ 0) && ((after .rotate .right size v sr count).word size).msb) := by
  have hpos := size.bits_pos
  cases count with
  | zero => rfl
  | succ count =>
    have htop : size.bits ≤ size.bits - 1 + 1 := by omega
    rw [after_succ, BitVec.msb_eq_getLsbD_last, getLsbD_word size _ (by omega)]
    show (after .rotate .right size v sr count).value.getLsbD 0 =
      (true && (move .right size _ (BitVec.getLsbD _ 0)).getLsbD _)
    rw [getLsbD_move_right, Size.getLsbD_of_ge (truncate_after v sr count) htop, decide_eq_true rfl,
      Bool.false_or, Bool.and_true, Bool.true_and]

/-- Through the extend flag, what went out last is that flag. -/
theorem carry_rotateExtend (direction : Direction) :
    (after .rotateExtend direction size v sr count).carry =
      ((after .rotateExtend direction size v sr count).joined size).msb := by
  rw [joined, BitVec.msb_cons]
  cases count with
  | zero => rfl
  | succ count => rw [after_succ]; rfl

end ShiftStep

/-! ## 4. The closed forms -/

section

variable {size : Size} {v : Long} {sr : Word} {left : Long × Word}
  {carried extended overflowed : Bool}

/-- What is left is a value of the size. -/
theorem Shifted.setWidth_eq {x : BitVec size.bits}
    (h : Shifted size sr x.toNat carried extended overflowed left) :
    left.1.setWidth size.bits = x := by
  refine BitVec.eq_of_toNat_eq ?_
  rw [BitVec.toNat_setWidth, Int.ofNat_inj.mp h.value_eq, Nat.mod_eq_of_lt x.isLt]

theorem Shifted.eq_truncate
    (h : Shifted size sr (v.setWidth size.bits).toNat carried extended overflowed left) :
    left.1 = size.truncate v := by
  refine BitVec.eq_of_toNat_eq ?_
  rw [Int.ofNat_inj.mp h.value_eq, Size.toNat_truncate, Size.count_eq, BitVec.toNat_setWidth]

end

namespace ShiftStep

variable (size : Size) (v : Long) (sr : Word) (count : Nat)

theorem shifted_rotate_left :
    let x := (v.setWidth size.bits).rotateLeft (count % size.bits)
    Shifted size sr x.toNat (decide (count ≠ 0) && x.getLsbD 0) (hasFlag sr Status.extend) false
      (shift .rotate .left size v count sr) := by
  intro x
  have hword : (after .rotate .left size v sr count).word size = x := by
    rw [word_left, word_start, ← BitVec.rotateLeft_mod_eq_rotateLeft]
  refine .of_after ?_ ?_ (if_pos (.inr rfl)) (overflow_of_other _ _ _ _ (.inl (by decide)))
  · rw [← hword, toNat_word (truncate_after v sr count)]
  · rw [← hword, carry_rotate_left]

theorem shifted_rotate_right :
    let x := (v.setWidth size.bits).rotateRight (count % size.bits)
    Shifted size sr x.toNat (decide (count ≠ 0) && x.msb) (hasFlag sr Status.extend) false
      (shift .rotate .right size v count sr) := by
  intro x
  have hword : (after .rotate .right size v sr count).word size = x := by
    rw [word_right, word_start, ← BitVec.rotateRight_mod_eq_rotateRight]
  refine .of_after ?_ ?_ (if_pos (.inr rfl)) (overflow_of_other _ _ _ _ (.inl (by decide)))
  · rw [← hword, toNat_word (truncate_after v sr count)]
  · rw [← hword, carry_rotate_right]

/-- A rotate through the extend flag leaves the two parts of what the run has joined. -/
theorem shifted_of_joined (direction : Direction) {x : BitVec (size.bits + 1)}
    (hjoined : (after .rotateExtend direction size v sr count).joined size = x) :
    Shifted size sr (x.setWidth size.bits).toNat x.msb x.msb false
      (shift .rotateExtend direction size v count sr) := by
  refine .of_after ?_ ?_ ?_ (overflow_of_other _ _ _ _ (.inl (by decide)))
  · rw [← hjoined, joined, BitVec.setWidth_cons, toNat_word (truncate_after v sr count)]
  · rw [carry_rotateExtend, hjoined]
  · by_cases hzero : count = 0
    · -- no bits: the flag is where it was
      subst hzero
      rw [if_pos (.inl rfl), ← hjoined]
      exact (BitVec.msb_cons).symm
    · rw [if_neg (by simp [hzero])]

theorem shifted_joined_left :
    let x := BitVec.cons (hasFlag sr Status.extend) (v.setWidth size.bits)
    let r := x.rotateLeft (count % (size.bits + 1))
    Shifted size sr (r.setWidth size.bits).toNat r.msb r.msb false
      (shift .rotateExtend .left size v count sr) := by
  intro x r
  refine shifted_of_joined size v sr count .left ?_
  rw [joined_left, joined_start, ← BitVec.rotateLeft_mod_eq_rotateLeft]

theorem shifted_joined_right :
    let x := BitVec.cons (hasFlag sr Status.extend) (v.setWidth size.bits)
    let r := x.rotateRight (count % (size.bits + 1))
    Shifted size sr (r.setWidth size.bits).toNat r.msb r.msb false
      (shift .rotateExtend .right size v count sr) := by
  intro x r
  refine shifted_of_joined size v sr count .right ?_
  rw [joined_right, joined_start, ← BitVec.rotateRight_mod_eq_rotateRight]

/-- **A plain rotate to the right puts back what one to the left has moved.** -/
theorem rotate_restores (sr' : Word) :
    (shift .rotate .right size (shift .rotate .left size v count sr).1 count sr').1 =
      size.truncate v := by
  have hleft := shifted_rotate_left size v sr count
  have hright := shifted_rotate_right size (shift .rotate .left size v count sr).1 sr' count
  dsimp only at hleft hright
  rw [hleft.setWidth_eq, Rotation.rotateRight_rotateLeft] at hright
  exact hright.eq_truncate

/-- **Through the extend flag, that flag is put back as well.** -/
theorem rotateExtend_restores :
    let moved := shift .rotateExtend .left size v count sr
    let back := shift .rotateExtend .right size moved.1 count moved.2
    back.1 = size.truncate v ∧ hasFlag back.2 Status.extend = hasFlag sr Status.extend := by
  intro moved back
  have hleft := shifted_joined_left size v sr count
  have hright := shifted_joined_right size moved.1 moved.2 count
  dsimp only at hleft hright
  rw [hleft.setWidth_eq, hleft.extend_eq, BitVec.cons_msb_setWidth,
    Rotation.rotateRight_rotateLeft, BitVec.setWidth_cons, BitVec.msb_cons] at hright
  exact ⟨hright.eq_truncate, hright.extend_eq⟩

end ShiftStep

/-- **The closed form of a rotate.** A plain rotate turns the bits of the size around, by the count
    modulo their number; X stays, and C is the bit that went around last, if one did. A rotate
    through the extend flag turns them around together with X above them, by the count modulo their
    number and one more, and leaves X and C alike. The rotates to the right put back what the ones
    to the left have moved. -/
theorem shift_rotates (size : Size) (v : Long) (count : Nat) (sr : Word) :
    let b := size.bits
    let x := hasFlag sr extend
    let left := (v.setWidth b).rotateLeft (count % b)
    let right := (v.setWidth b).rotateRight (count % b)
    let joinedLeft := (BitVec.cons x (v.setWidth b)).rotateLeft (count % (b + 1))
    let joinedRight := (BitVec.cons x (v.setWidth b)).rotateRight (count % (b + 1))
    Shifted size sr left.toNat (decide (count ≠ 0) && left.getLsbD 0) x false
        (shift .rotate .left size v count sr) ∧
      Shifted size sr right.toNat (decide (count ≠ 0) && right.msb) x false
        (shift .rotate .right size v count sr) ∧
      Shifted size sr (joinedLeft.setWidth b).toNat joinedLeft.msb joinedLeft.msb false
        (shift .rotateExtend .left size v count sr) ∧
      Shifted size sr (joinedRight.setWidth b).toNat joinedRight.msb joinedRight.msb false
        (shift .rotateExtend .right size v count sr) ∧
      (let moved := shift .rotateExtend .left size v count sr
        let back := shift .rotateExtend .right size moved.1 count moved.2
        back.1 = size.truncate v ∧ hasFlag back.2 extend = x) ∧
      ∀ sr', (shift .rotate .right size (shift .rotate .left size v count sr).1 count sr').1 =
        size.truncate v :=
  ⟨ShiftStep.shifted_rotate_left size v sr count, ShiftStep.shifted_rotate_right size v sr count,
    ShiftStep.shifted_joined_left size v sr count, ShiftStep.shifted_joined_right size v sr count,
    ShiftStep.rotateExtend_restores size v sr count, ShiftStep.rotate_restores size v sr count⟩

end Mc68000
