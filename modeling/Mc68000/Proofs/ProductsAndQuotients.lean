import Mc68000.Proofs.CheckedArithmetic
import Mc68000.Proofs.IntegerArithmetic
import Mc68000.Proofs.TrapCauses

/-!
# Products and quotients

Two words are multiplied to a long, and a long is divided by a word, with or without a sign.

* `Signedness.number` -- the integer that a sized value stands for;
* `number_product` -- **the product of two words is a long**;
* `Truncated` -- quotient and remainder of a division that rounds toward zero;
  `truncated_tdiv` -- every division has them;
* `quotient?_eq` -- **the long of a division holds the remainder in front of the quotient**;
* `Describes` -- a status register that tells of a value;
* `products_and_quotients` -- what is left of the operands, their flags included.
-/

namespace Mc68000

open Status

/-! ## 1. Products -/

namespace Size

variable (size : Size) {v : Long}

/-- A value is one of the size if it is below the count of the size. -/
theorem truncate_eq_iff : size.truncate v = v ↔ v.toNat < size.count := by
  rw [← BitVec.toNat_inj, toNat_truncate]
  constructor
  · intro h
    rw [← h]
    exact Nat.mod_lt _ (by cases size <;> decide)
  · exact Nat.mod_eq_of_lt

theorem unsigned_of_truncate (h : size.truncate v = v) : size.unsigned v = v.toNat :=
  congrArg BitVec.toNat h

theorem signed_truncate (v : Long) : size.signed (size.truncate v) = size.signed v := by
  have hread : size.unsigned (size.truncate v) = size.unsigned v :=
    congrArg BitVec.toNat (size.truncate_truncate v)
  rw [signed_eq, signed_eq, hread]

theorem natAbs_signed_le (v : Long) : (size.signed v).natAbs ≤ size.half := by
  have hlt := size.unsigned_lt_count v
  have hcount := size.count_eq_two_mul_half
  rw [signed_eq]
  split <;> omega

end Size

namespace Signedness

/-- The number of a sized value, without or with a sign. -/
def number (s : Signedness) (size : Size) (v : Long) : Int :=
  match s with
  | unsigned => size.unsigned v
  | signed => size.signed v

/-- The product of two words. -/
def product (s : Signedness) (src dst : Long) : Long :=
  match s with
  | unsigned => src * dst
  | signed => Size.word.signExtend src * Size.word.signExtend dst

theorem number_truncate (s : Signedness) (size : Size) (v : Long) :
    s.number size (size.truncate v) = s.number size v := by
  cases s with
  | unsigned => exact congrArg (Int.ofNat ∘ BitVec.toNat) (size.truncate_truncate v)
  | signed => exact size.signed_truncate v

/-- **The product of two words is a long.** -/
theorem number_product (s : Signedness) {src dst : Long} (hsrc : Size.word.truncate src = src)
    (hdst : Size.word.truncate dst = dst) :
    s.number .long (s.product src dst) = s.number .word src * s.number .word dst := by
  cases s with
  | unsigned =>
    have hlt {v : Long} (h : Size.word.truncate v = v) : v.toNat ≤ 65535 :=
      Nat.le_of_lt_succ (Size.word.truncate_eq_iff.mp h)
    have hfits : src.toNat * dst.toNat < 2 ^ 32 :=
      Nat.lt_of_le_of_lt (Nat.mul_le_mul (hlt hsrc) (hlt hdst)) (by decide)
    show (Size.long.unsigned (src * dst) : Int) = Size.word.unsigned src * Size.word.unsigned dst
    rw [Size.unsigned_of_truncate _ hsrc, Size.unsigned_of_truncate _ hdst,
      Size.unsigned_of_truncate _ (Size.truncate_long _), BitVec.toNat_mul, Nat.mod_eq_of_lt hfits]
    push_cast
    rfl
  | signed =>
    have hfits : (Size.word.signed src * Size.word.signed dst).natAbs ≤ 0x8000 * 0x8000 := by
      rw [Int.natAbs_mul]
      exact Nat.mul_le_mul (Size.natAbs_signed_le _ _) (Size.natAbs_signed_le _ _)
    show (Size.word.signExtend src * Size.word.signExtend dst).toInt =
      (Size.word.signExtend src).toInt * (Size.word.signExtend dst).toInt
    unfold Size.signed at hfits
    rw [BitVec.toInt_mul]
    exact Int.bmod_eq_of_le_mul_two (by omega) (by omega)

end Signedness

/-! ## 2. Quotients -/

/-- Quotient and remainder of a division that rounds toward zero. -/
structure Truncated (dividend divisor quotient remainder : Int) : Prop where
  dividend_eq : dividend = quotient * divisor + remainder
  remainder_lt : remainder.natAbs < divisor.natAbs
  sign_eq : remainder = 0 ∨ remainder.sign = dividend.sign

/-- **Every division by a number other than zero has them.** -/
theorem truncated_tdiv {dividend divisor : Int} (h : divisor ≠ 0) :
    Truncated dividend divisor (dividend.tdiv divisor) (dividend.tmod divisor) where
  dividend_eq := by rw [Int.mul_comm, Int.mul_tdiv_add_tmod]
  remainder_lt := by
    rw [Int.natAbs_tmod]
    exact Nat.mod_lt _ (Int.natAbs_pos.mpr h)
  sign_eq := by
    by_cases hdvd : divisor ∣ dividend
    · exact .inl (Int.tmod_eq_zero_of_dvd hdvd)
    · exact .inr (by rw [Int.sign_tmod, if_neg hdvd])

namespace Signedness

/-- A quotient that is a word. -/
def FitsWord (s : Signedness) (q : Int) : Prop :=
  match s with
  | unsigned => 0 ≤ q ∧ q < 2 ^ 16
  | signed => -2 ^ 15 ≤ q ∧ q < 2 ^ 15

instance (s : Signedness) (q : Int) : Decidable (s.FitsWord q) :=
  match s with
  | unsigned => inferInstanceAs (Decidable (0 ≤ q ∧ q < 2 ^ 16))
  | signed => inferInstanceAs (Decidable (-2 ^ 15 ≤ q ∧ q < 2 ^ 15))

/-- Remainder and quotient of a division by a word as one long, if the quotient fits. -/
def quotient? (s : Signedness) (dividend divisor : Long) : Option Long :=
  match s with
  | unsigned => quotientUnsigned? dividend divisor
  | signed => quotientSigned? dividend (divisor.setWidth 16)

theorem quotientUnsigned?_eq {dividend divisor : Long}
    (hdivisor : Size.word.truncate divisor = divisor) (hne : divisor ≠ 0) :
    quotientUnsigned? dividend divisor =
      if dividend.toNat / divisor.toNat < 2 ^ 16 then
        some (BitVec.ofNat 16 (dividend.toNat % divisor.toNat) ++
          BitVec.ofNat 16 (dividend.toNat / divisor.toNat))
      else none := by
  have hpos : 0 < divisor.toNat := Nat.pos_of_ne_zero fun h => hne (BitVec.eq_of_toNat_eq h)
  have hhigh : dividend % divisor &&& 0xFFFF = dividend % divisor := by
    refine Size.word.truncate_eq_iff.mpr ?_
    rw [BitVec.toNat_umod]
    exact (Nat.mod_lt dividend.toNat hpos).trans (Size.word.truncate_eq_iff.mp hdivisor)
  have hcompare : dividend / divisor ≤ 0xFFFF ↔ dividend.toNat / divisor.toNat < 2 ^ 16 := by
    rw [BitVec.le_def, BitVec.toNat_udiv]
    exact Nat.lt_succ_iff.symm
  unfold quotientUnsigned?
  dsimp only
  by_cases hfits : dividend.toNat / divisor.toNat < 2 ^ 16
  · have hlow : ((dividend / divisor).setWidth 16).setWidth 32 = dividend / divisor := by
      refine (Size.word.truncate_eq_setWidth _).symm.trans (Size.word.truncate_eq_iff.mpr ?_)
      rw [BitVec.toNat_udiv]
      exact hfits
    have hpacked := Checked.shifted_or_eq_append (dividend % divisor)
      ((dividend / divisor).setWidth 16)
    rw [hhigh, hlow] at hpacked
    rw [if_pos (hcompare.mpr hfits), if_pos hfits, hpacked, ← BitVec.toNat_umod,
      ← BitVec.toNat_udiv, BitVec.ofNat_toNat, BitVec.ofNat_toNat]
  · rw [if_neg fun h => hfits (hcompare.mp h), if_neg hfits]

/-- **The long of a division holds the remainder in front of the quotient**, if that is a word. -/
theorem quotient?_eq (s : Signedness) (dividend : Long) {divisor : Long}
    (hdivisor : Size.word.truncate divisor = divisor) (hne : divisor ≠ 0) :
    let q := (s.number .long dividend).tdiv (s.number .word divisor)
    let r := (s.number .long dividend).tmod (s.number .word divisor)
    s.quotient? dividend divisor =
      if s.FitsWord q then some (BitVec.ofInt 16 r ++ BitVec.ofInt 16 q) else none := by
  cases s with
  | unsigned =>
    have hq : (Size.long.unsigned dividend : Int).tdiv (Size.word.unsigned divisor) =
        ((dividend.toNat / divisor.toNat : Nat) : Int) := by
      rw [Size.unsigned_of_truncate _ hdivisor, Size.unsigned_of_truncate _ (Size.truncate_long _)]
      exact (Int.ofNat_tdiv ..).symm
    have hr : (Size.long.unsigned dividend : Int).tmod (Size.word.unsigned divisor) =
        ((dividend.toNat % divisor.toNat : Nat) : Int) := by
      rw [Size.unsigned_of_truncate _ hdivisor, Size.unsigned_of_truncate _ (Size.truncate_long _)]
      exact (Int.ofNat_tmod ..).symm
    unfold number quotient? FitsWord
    dsimp only
    rw [quotientUnsigned?_eq hdivisor hne, hq, hr, BitVec.ofInt_natCast, BitVec.ofInt_natCast]
    generalize dividend.toNat / divisor.toNat = q
    refine if_congr ?_ rfl rfl
    omega
  | signed =>
    have hread : Size.word.signed divisor = (divisor.setWidth 16).toInt :=
      Size.word.signed_eq_toInt divisor
    unfold number quotient? FitsWord quotientSigned?
    dsimp only
    rw [hread]
    refine if_congr ?_ rfl rfl
    show _ ↔ -2 ^ 15 ≤ dividend.toInt.tdiv _ ∧ dividend.toInt.tdiv _ < 2 ^ 15
    omega

theorem number_ne_zero (s : Signedness) {v : Long} (h : Size.word.truncate v = v) (hne : v ≠ 0) :
    s.number .word v ≠ 0 := by
  have hpos : Size.word.unsigned v ≠ 0 := by
    rw [Size.unsigned_of_truncate _ h]
    exact fun hzero => hne (BitVec.eq_of_toNat_eq hzero)
  have hlt := Size.word.unsigned_lt_count v
  cases s with
  | unsigned => exact Int.natCast_ne_zero.mpr hpos
  | signed =>
    show Size.word.signed v ≠ 0
    rw [Size.signed_eq]
    split <;> omega

end Signedness

/-! ## 3. The operations -/

/-- A status register tells of a value: N is its sign bit, Z tells whether it is zero, V and C are
    clear, and X and the system byte are those of another register. -/
structure Describes {w : Nat} (v : BitVec w) (sr sr' : Word) : Prop where
  negative_eq : hasFlag sr' negative = v.msb
  zero_eq : hasFlag sr' zero = decide (v = 0)
  overflow_eq : hasFlag sr' overflow = false
  carry_eq : hasFlag sr' carry = false
  extend_eq : hasFlag sr' extend = hasFlag sr extend
  systemByte_eq : systemByte sr' = systemByte sr

theorem describes_logical (size : Size) (v : Long) (sr : Word) :
    Describes (v.setWidth size.bits) sr ((FlagChange.logical v).apply size sr) where
  negative_eq := by
    have hpos := size.bits_pos
    have hlast : size.bits - 1 < size.bits := by omega
    rw [BitVec.msb_eq_getLsbD_last, BitVec.getLsbD_setWidth, decide_eq_true hlast, Bool.true_and]
    exact hasFlag_negative_withNzvc ..
  zero_eq := by
    have hzero : size.truncate v = 0 ↔ v.setWidth size.bits = 0 := by
      rw [← BitVec.toNat_inj, ← BitVec.toNat_inj, Size.toNat_truncate, BitVec.toNat_setWidth,
        Size.count_eq]
      rfl
    rw [← decide_eq_decide.mpr hzero]
    exact hasFlag_zero_withNzvc ..
  overflow_eq := hasFlag_overflow_withNzvc ..
  carry_eq := hasFlag_carry_withNzvc ..
  extend_eq := hasFlag_extend_withNzvc ..
  systemByte_eq := ((agreeOutside_withNzvc ..).mono (by decide)).systemByte_eq

theorem describes_long (v : Long) (sr : Word) :
    Describes v sr ((FlagChange.logical v).apply .long sr) := by
  have h := describes_logical .long v sr
  rw [show Size.long.bits = 32 from rfl, BitVec.setWidth_eq] at h
  exact h

/-- At word size the high word does not count. -/
theorem describes_low (high low : Word) (sr : Word) :
    Describes low sr ((FlagChange.logical (high ++ low)).apply .word sr) := by
  have h := describes_logical .word (high ++ low) sr
  rw [show Size.word.bits = 16 from rfl, BitVec.setWidth_append, dif_pos (Nat.le_refl 16),
    BitVec.setWidth_eq] at h
  exact h

theorem Registers.sr_movedBy (r : Registers) (ea? : Option EffectiveAddress) (size : Size) :
    (r.movedBy ea? size).sr = r.sr := by
  unfold movedBy fieldOperand?
  rcases ea? with _ | ea
  · rfl
  · rw [Option.bind_some]
    rcases ea.mode? with _ | mode
    · rfl
    · cases mode with
      | postIncrement k => exact sr_writeAddress ..
      | preDecrement k => exact sr_writeAddress ..
      | _ => rfl

namespace Instruction

open Exec

variable {i : Instruction} {m : Machine} {s : Signedness} {v : Long}

/-- Behind the word of the source field the rest goes on with it. -/
theorem bind_sourceWord (h : i.sourceWord? m = some v) (f : Long → Exec Unit) :
    (Exec.source i >>= fun operand => read operand .word >>= f) m =
      f v { m with registers := m.registers.movedBy i.source i.size } := by
  obtain ⟨⟨operand, r⟩, hfield, hvalue⟩ := Option.bind_eq_some_iff.mp h
  have hmoved : m.registers.movedBy i.source i.size = r := by
    unfold Registers.movedBy
    rw [hfield]
    rfl
  rw [bind_eq (source_of_field hfield), bind_eq (read_of_value? hvalue), hmoved]

theorem truncate_sourceWord (h : i.sourceWord? m = some v) : Size.word.truncate v = v := by
  obtain ⟨⟨operand, r⟩, -, hvalue⟩ := Option.bind_eq_some_iff.mp h
  exact Operand.truncate_of_value? hvalue

/-- The machine after an operation that leaves a value in the high register. -/
def leaving (i : Instruction) (m : Machine) (v : Long) (size : Size) : Machine :=
  let moved := m.registers.movedBy i.source i.size
  { m with
    registers :=
      { moved.writeData i.highRegister v .long with
        sr := (FlagChange.logical v).apply size m.registers.sr } }

theorem execute_multiply (hop : i.operation = .multiply s) (h : i.sourceWord? m = some v) :
    i.execute m = .ok () (i.leaving m
      (s.product v (Size.word.truncate (m.registers.readData i.highRegister))) .long) := by
  have hdata := m.registers.readData_movedBy i.source i.size i.highRegister
  have hsr := m.registers.sr_movedBy i.source i.size
  unfold execute leaving
  rw [hop]
  show (Exec.source i >>= fun operand => read operand .word >>= _) m = _
  rw [bind_sourceWord h, ← hdata, ← hsr]
  cases s <;> rfl

theorem execute_divide_zero (hop : i.operation = .divide s) (h : i.sourceWord? m = some 0) :
    i.execute m =
      .error .divideByZero { m with registers := m.registers.movedBy i.source i.size } := by
  unfold execute
  rw [hop]
  show (Exec.source i >>= fun operand => read operand .word >>= _) m = _
  rw [bind_sourceWord h]
  rfl

theorem execute_divide (hop : i.operation = .divide s) (h : i.sourceWord? m = some v)
    (hne : v ≠ 0) :
    i.execute m = .ok () (
      match s.quotient? (m.registers.readData i.highRegister) v with
      | some packed => i.leaving m packed .word
      | none =>
        let moved := m.registers.movedBy i.source i.size
        { m with
          registers :=
            { moved with sr := setFlag (setFlag m.registers.sr overflow true) carry false } }) := by
  have hdata := m.registers.readData_movedBy i.source i.size i.highRegister
  have hsr := m.registers.sr_movedBy i.source i.size
  unfold execute leaving
  rw [hop]
  show (Exec.source i >>= fun operand => read operand .word >>= _) m = _
  rw [bind_sourceWord h, if_neg hne, ← hdata, ← hsr]
  generalize m.registers.movedBy i.source i.size = moved
  have hread : readData i.highRegister { m with registers := moved } =
      .ok (moved.readData i.highRegister) { m with registers := moved } := rfl
  cases s with
  | unsigned =>
    unfold Signedness.quotient?
    dsimp only
    rw [bind_eq hread]
    rcases quotientUnsigned? (moved.readData i.highRegister) v with _ | packed <;> rfl
  | signed =>
    unfold Signedness.quotient?
    dsimp only
    rw [bind_eq hread]
    rcases quotientSigned? (moved.readData i.highRegister) (v.setWidth 16) with _ | packed <;> rfl

/-- **Products and quotients are exact.** The word of the source is read first, and what its field
    moves is no data register and no flag.

    A multiplication leaves the product of the two low words, which is never cut, and flags that
    tell of it. A division by zero traps and leaves the registers as the field has them. Any other
    division rounds toward zero: if the quotient is a word, it leaves the remainder in front of the
    quotient and flags that tell of the quotient; if not, it sets V, clears C and leaves all
    else. -/
theorem products_and_quotients (h : i.sourceWord? m = some v) :
    let n := i.highRegister
    let held := m.registers.readData n
    let moved := m.registers.movedBy i.source i.size
    let divisor := s.number .word v
    let q := (s.number .long held).tdiv divisor
    let r := (s.number .long held).tmod divisor
    ((∀ k, moved.readData k = m.registers.readData k) ∧ moved.sr = m.registers.sr) ∧
      (i.operation = .multiply s →
        ∃ p sr, i.execute m =
            .ok () { m with registers := { moved.writeData n p .long with sr } } ∧
          s.number .long p = s.number .word held * s.number .word v ∧
          Describes p m.registers.sr sr) ∧
      (i.operation = .divide s → v = 0 →
        i.execute m = .error .divideByZero { m with registers := moved }) ∧
      (i.operation = .divide s → v ≠ 0 →
        Truncated (s.number .long held) divisor q r ∧
          if s.FitsWord q then
            ∃ sr, i.execute m = .ok ()
                { m with
                  registers :=
                    { moved.writeData n (BitVec.ofInt 16 r ++ BitVec.ofInt 16 q) .long with sr } } ∧
              Describes (BitVec.ofInt 16 q) m.registers.sr sr
          else
            ∃ sr, i.execute m = .ok () { m with registers := { moved with sr } } ∧
              hasFlag sr overflow = true ∧ hasFlag sr carry = false ∧
              AgreeOutside (overflow ||| carry) sr m.registers.sr) := by
  intro n held moved divisor q r
  have htruncate := truncate_sourceWord h
  refine ⟨⟨m.registers.readData_movedBy i.source i.size, m.registers.sr_movedBy i.source i.size⟩,
    fun hop => ?_, fun hop hzero => ?_, fun hop hne => ?_⟩
  · refine ⟨_, _, execute_multiply hop h, ?_, describes_long _ _⟩
    rw [s.number_product htruncate (Size.word.truncate_truncate _), s.number_truncate,
      Int.mul_comm]
  · subst hzero
    exact execute_divide_zero hop h
  · refine ⟨truncated_tdiv (s.number_ne_zero htruncate hne), ?_⟩
    have hexecute := execute_divide hop h hne
    have hquotient := s.quotient?_eq held htruncate hne
    dsimp only at hquotient
    by_cases hfits : s.FitsWord q
    · rw [if_pos hfits] at hquotient ⊢
      rw [hquotient] at hexecute
      exact ⟨_, hexecute, describes_low _ _ _⟩
    · rw [if_neg hfits] at hquotient ⊢
      rw [hquotient] at hexecute
      refine ⟨_, hexecute, ?_, hasFlag_setFlag (by decide) (by decide) _ _, ?_⟩
      · rw [hasFlag_setFlag_of_disjoint (by decide), hasFlag_setFlag (by decide) (by decide)]
      · exact (agreeOutside_setFlag (by decide) _ _).trans (agreeOutside_setFlag (by decide) _ _)

/-- `MULS D1,D0`. -/
def multiplySigned : Instruction :=
  { address := 0, opcode := 0xC1C1, operation := .multiply .signed, size := .word
    extension := ⟨2, .none⟩, source := some ⟨0x01, ⟨2, .none⟩⟩, destination := none, length := 2 }

/-- `DIVS D1,D0`. -/
def divideSigned : Instruction :=
  { multiplySigned with opcode := 0x81C1, operation := .divide .signed }

/-- A machine with two operands in D0 and D1. -/
def holding (d0 d1 : Long) : Machine :=
  { Machine.new { memoryBytes := 2, traceInstructions := false } with
    registers := (Registers.zeros.writeData 0 d0 .long).writeData 1 d1 .long }

/-- -32768 times itself, -7 by 2, the least number by -1, and a division by zero. -/
theorem products_and_quotients_at_the_ends :
    (∃ m', multiplySigned.execute (holding 0x8000 0x8000) = .ok () m' ∧
        m'.registers.readData 0 = 0x40000000) ∧
      (∃ m', divideSigned.execute (holding 0xFFFFFFF9 2) = .ok () m' ∧
        m'.registers.readData 0 = 0xFFFFFFFD) ∧
      (∃ m', divideSigned.execute (holding 0x80000000 0xFFFF) = .ok () m' ∧
        m'.registers.readData 0 = 0x80000000 ∧ hasFlag m'.registers.sr overflow = true) ∧
      ∃ m', divideSigned.execute (holding 1 0) = .error .divideByZero m' := by
  refine ⟨?_, ?_, ?_, ?_⟩
  · obtain ⟨-, hmultiply, -⟩ := products_and_quotients (i := multiplySigned) (s := .signed)
      (m := holding 0x8000 0x8000) (v := 0x8000) (by decide)
    obtain ⟨p, sr, h, hproduct, -⟩ := hmultiply rfl
    have hp : p = 0x40000000 := BitVec.eq_of_toInt_eq (hproduct.trans (by decide))
    subst hp
    exact ⟨_, h, rfl⟩
  · obtain ⟨-, -, -, hdivide⟩ := products_and_quotients (i := divideSigned) (s := .signed)
      (m := holding 0xFFFFFFF9 2) (v := 2) (by decide)
    obtain ⟨-, hquotient⟩ := hdivide rfl (by decide)
    rw [if_pos (by decide)] at hquotient
    obtain ⟨sr, h, -⟩ := hquotient
    exact ⟨_, h, rfl⟩
  · obtain ⟨-, -, -, hdivide⟩ := products_and_quotients (i := divideSigned) (s := .signed)
      (m := holding 0x80000000 0xFFFF) (v := 0xFFFF) (by decide)
    obtain ⟨-, hquotient⟩ := hdivide rfl (by decide)
    rw [if_neg (by decide)] at hquotient
    obtain ⟨sr, h, hoverflow, -⟩ := hquotient
    exact ⟨_, h, rfl, hoverflow⟩
  · obtain ⟨-, -, htrap, -⟩ := products_and_quotients (i := divideSigned) (s := .signed)
      (m := holding 1 0) (v := 0) (by decide)
    exact ⟨_, htrap rfl rfl⟩

end Instruction

end Mc68000
