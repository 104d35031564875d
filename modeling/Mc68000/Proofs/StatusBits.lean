import Mc68000.FlagChange
import Mc68000.PackedDecimal
import Mc68000.Shift

/-!
# Which bits of the status register change

Every change of the condition codes has a mask: the bits that it may touch.

* `Status.AgreeOutside` -- two status registers differ in the bits of a mask at most;
* `Status.nzvc` -- the four flags of a result, without X;
* `FlagChange.mask`, `ShiftKind.mask` -- the mask of a change and of a kind of shift;
* `FlagChange.agreeOutside_apply`, `agreeOutside_shift`, `PackedDecimal.agreeOutside_flags` --
  **outside its mask a change leaves every bit alone**;
* `Status.AgreeOutside.systemByte_eq`, `hasFlag_eq` -- what such registers have in common.
-/

namespace Mc68000

namespace Status

/-! ## 1. Registers that agree outside a mask -/

/-- N, Z, V and C: the flags of a result. X is the fifth condition code. -/
def nzvc : Word := negative ||| zero ||| overflow ||| carry

/-- The system byte: trace, supervisor and interrupt mask. -/
def systemByte (sr : Word) : Byte := sr.extractLsb' 8 8

/-- Two status registers differ in the bits of `mask` at most. -/
def AgreeOutside (mask a b : Word) : Prop := a &&& ~~~mask = b &&& ~~~mask

theorem getLsbD_and_not (a mask : Word) (k : Nat) :
    (a &&& ~~~mask).getLsbD k = (a.getLsbD k && !mask.getLsbD k) := by
  rw [BitVec.getLsbD_and, BitVec.getLsbD_not]
  by_cases hk : k < 16
  · rw [decide_eq_true hk, Bool.true_and]
  · rw [BitVec.getLsbD_of_ge a k (by omega), Bool.false_and, Bool.false_and]

theorem agreeOutside_iff {mask a b : Word} :
    AgreeOutside mask a b ↔ ∀ k, mask.getLsbD k = false → a.getLsbD k = b.getLsbD k := by
  constructor
  · intro h k hk
    have hbit : (a &&& ~~~mask).getLsbD k = (b &&& ~~~mask).getLsbD k := congrArg (·.getLsbD k) h
    simpa only [getLsbD_and_not, hk, Bool.not_false, Bool.and_true] using hbit
  · intro h
    refine BitVec.eq_of_getLsbD_eq fun k _ => ?_
    rw [getLsbD_and_not, getLsbD_and_not]
    cases hk : mask.getLsbD k with
    | true => rw [Bool.not_true, Bool.and_false, Bool.and_false]
    | false => rw [h k hk]

namespace AgreeOutside

variable {mask a b c : Word}

theorem refl (mask a : Word) : AgreeOutside mask a a := rfl

theorem symm (h : AgreeOutside mask a b) : AgreeOutside mask b a := Eq.symm h

theorem trans (hab : AgreeOutside mask a b) (hbc : AgreeOutside mask b c) :
    AgreeOutside mask a c := Eq.trans hab hbc

/-- A wider mask asks for less. -/
theorem mono {wide : Word} (hmask : mask &&& wide = mask) (h : AgreeOutside mask a b) :
    AgreeOutside wide a b := by
  rw [agreeOutside_iff] at h ⊢
  intro k hk
  refine h k ?_
  rw [← hmask, BitVec.getLsbD_and, hk, Bool.and_false]

/-- The condition codes lie below the system byte. -/
theorem systemByte_eq (h : AgreeOutside conditions a b) : systemByte a = systemByte b := by
  refine BitVec.eq_of_getLsbD_eq fun k hk => ?_
  have hmask : conditions.getLsbD (8 + k) = false := by
    rw [show conditions = BitVec.setWidth 16 (0x1F : Byte) from by decide,
      BitVec.getLsbD_setWidth, BitVec.getLsbD_of_ge _ _ (by omega), Bool.and_false]
  simp only [systemByte, BitVec.getLsbD_extractLsb', hk, decide_true, Bool.true_and]
  exact agreeOutside_iff.mp h _ hmask

/-- A flag outside the mask reads the same. -/
theorem hasFlag_eq {flags : Word} (hflags : flags &&& ~~~mask = flags)
    (h : AgreeOutside mask a b) : hasFlag a flags = hasFlag b flags := by
  have hand (sr : Word) : sr &&& flags = (sr &&& ~~~mask) &&& flags := by
    rw [BitVec.and_assoc, BitVec.and_comm (~~~mask), hflags]
  rw [hasFlag, hasFlag, hand a, hand b, show a &&& ~~~mask = b &&& ~~~mask from h]

end AgreeOutside

/-! ## 2. Elementary changes -/

theorem agreeOutside_setFlag {mask flags : Word} (hflags : flags &&& mask = flags) (sr : Word)
    (on : Bool) : AgreeOutside mask (setFlag sr flags on) sr := by
  refine agreeOutside_iff.mpr fun k hk => ?_
  have hclear : flags.getLsbD k = false := by
    rw [← hflags, BitVec.getLsbD_and, hk, Bool.and_false]
  cases on with
  | true =>
    show (sr ||| (flags &&& implemented)).getLsbD k = sr.getLsbD k
    rw [BitVec.getLsbD_or, BitVec.getLsbD_and, hclear, Bool.false_and, Bool.or_false]
  | false =>
    show (sr &&& ~~~flags).getLsbD k = sr.getLsbD k
    rw [getLsbD_and_not, hclear, Bool.not_false, Bool.and_true]

theorem agreeOutside_withConditions (sr w : Word) :
    AgreeOutside conditions (withConditions sr w) sr := by
  refine agreeOutside_iff.mpr fun k hk => ?_
  rw [withConditions, BitVec.getLsbD_or, getLsbD_and_not, BitVec.getLsbD_and, hk, Bool.not_false,
    Bool.and_true, Bool.and_false, Bool.or_false]

theorem agreeOutside_withNzvc (sr : Word) (size : Size) (result : Long)
    (overflowed carried : Bool) :
    AgreeOutside nzvc (withNzvc sr size result overflowed carried) sr := by
  unfold withNzvc
  refine (agreeOutside_setFlag (by decide) _ _).trans ?_
  refine (agreeOutside_setFlag (by decide) _ _).trans ?_
  exact (agreeOutside_setFlag (by decide) _ _).trans (agreeOutside_setFlag (by decide) _ _)

end Status

open Status

/-! ## 3. The changes that instructions make -/

/-- The bits that a change of the condition codes may touch. -/
@[reducible] def FlagChange.mask : FlagChange → Word
  | none => 0
  | logical _ | compare _ _ _ => nzvc
  | add _ _ _ | sub _ _ _ | negate _ _ | negateExtended _ _ => conditions

/-- **A change of the condition codes stays inside its mask.** -/
theorem FlagChange.agreeOutside_apply (change : FlagChange) (size : Size) (sr : Word) :
    AgreeOutside change.mask (change.apply size sr) sr := by
  have hextended (result : Long) (overflowed carried : Bool) : AgreeOutside conditions
      (setFlag (withNzvc sr size result overflowed carried) extend carried) sr :=
    (agreeOutside_setFlag (by decide) _ _).trans
      ((agreeOutside_withNzvc sr size result overflowed carried).mono (by decide))
  cases change with
  | none => exact .refl _ _
  | logical result => exact agreeOutside_withNzvc ..
  | compare src dst result => exact agreeOutside_withNzvc ..
  | add src dst result => exact hextended ..
  | sub src dst result => exact hextended ..
  | negate src result => exact hextended ..
  | negateExtended src result => exact hextended ..

/-- The bits that a shift may touch: a plain rotate keeps X. -/
def ShiftKind.mask : ShiftKind → Word
  | .rotate => nzvc
  | .arithmetic | .logical | .rotateExtend => conditions

/-- **A shift stays inside its mask.** -/
theorem agreeOutside_shift (kind : ShiftKind) (direction : Direction) (size : Size) (v : Long)
    (count : Nat) (sr : Word) :
    AgreeOutside kind.mask (shift kind direction size v count sr).2 sr := by
  unfold shift
  dsimp only
  have hnzvc : nzvc &&& kind.mask = nzvc := by cases kind <;> decide
  refine ((agreeOutside_withNzvc ..).mono hnzvc).trans ?_
  split
  · rename_i h
    have hkind : kind ≠ .rotate := by simpa using (Bool.and_eq_true_iff.mp h).2
    refine agreeOutside_setFlag ?_ _ _
    cases kind with
    | rotate => exact absurd rfl hkind
    | arithmetic | logical | rotateExtend => decide
  · exact .refl _ _

/-- The flags of decimal arithmetic: N and V stay. -/
def PackedDecimal.mask : Word := carry ||| zero ||| extend

/-- **Decimal arithmetic stays inside its mask.** -/
theorem PackedDecimal.agreeOutside_flags (sr : Word) (result : Byte) (carried : Bool) :
    AgreeOutside PackedDecimal.mask (PackedDecimal.flags sr result carried) sr := by
  have hcarried : AgreeOutside PackedDecimal.mask
      (setFlag (setFlag sr carry carried) extend carried) sr :=
    (agreeOutside_setFlag (by decide) _ _).trans (agreeOutside_setFlag (by decide) _ _)
  unfold PackedDecimal.flags
  dsimp only
  split
  · exact hcarried
  · exact (agreeOutside_setFlag (by decide) _ _).trans hcarried

end Mc68000
