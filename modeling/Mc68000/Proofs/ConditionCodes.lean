import Mc68000.Proofs.Footprint.Execute
import Mc68000.Run

/-!
# The condition codes of an instruction

What every instruction that succeeds does to the status register.

* `StatusRule` -- the ways to treat it: which bits may change, and whether X ends as C;
* `Instruction.statusRule` -- the rule of an instruction. Only a shift by the value of a register
  makes it depend on more than the opcode and the operand field;
* `extendFollows_apply`, `extendFollows_flags`, `extendFollows_shift` -- **the changes after which X
  is C**;
* `Exec.EndsExtended` -- an action that ends with X as C;
* `Instruction.agree_execute`, `extendFollows_execute` -- **every instruction keeps to its rule**;
* `Instruction.status_discipline` -- what the rules mean for X and for the system byte.
-/

namespace Mc68000

open Status

/-! ## 1. Rules -/

/-- What an instruction does to the status register. -/
inductive StatusRule where
  /-- Nothing. -/
  | keeps
  /-- Z alone may change. -/
  | zero
  /-- N, Z, V and C may change. X stays. -/
  | result
  /-- The condition codes may change, and X ends as C. -/
  | extended
  /-- The condition codes may change. -/
  | codes
  /-- The system byte may change too. -/
  | whole
  deriving DecidableEq, Repr

/-- The bits that may change. -/
def StatusRule.mask : StatusRule → Word
  | keeps => 0
  | zero => Status.zero
  | result => nzvc
  | extended | codes => conditions
  | whole => BitVec.allOnes 16

/-- X is what C is. -/
def Status.ExtendFollows (sr : Word) : Prop := hasFlag sr extend = hasFlag sr carry

namespace Instruction

/-- Whether the destination is an address register as a whole. -/
def hasAddressDestination (i : Instruction) : Bool :=
  match i.destination.bind (·.mode?) with
  | some (.addressDirect _) => true
  | _ => false

/-- How many bits a shift of a data register moves. -/
def shiftCount (i : Instruction) (r : Registers) : Nat :=
  if i.opcode.getLsbD 5 then (r.readData i.highRegister).toNat % 64 else i.quickValue

/-- The rule of an instruction. -/
def statusRule (i : Instruction) (r : Registers) : StatusRule :=
  match i.operation with
  | .movea | .moveFromSr | .moveUsp | .movep | .movem | .exg | .lea | .pea | .link | .unlk | .scc
  | .bra | .bsr | .bcc | .dbcc | .jmp | .jsr | .rts | .trap | .trapv | .illegal | .reset | .nop
  | .arithAddress .add | .arithAddress .sub => .keeps
  | .bitStatic _ | .bitDynamic _ => .zero
  | .logicImmediate _ | .logic _ | .not | .tst | .tas | .move | .moveq | .clr | .ext | .swap
  | .arithImmediate .cmp | .arith .cmp | .arithAddress .cmp | .cmpm | .multiply _ | .divide _
  | .chk | .shiftMemory .rotate _ | .shiftRegister .rotate _ => .result
  | .arithQuick _ => if i.hasAddressDestination then .keeps else .extended
  | .arithImmediate _ | .arith _ | .arithExtended _ | .neg | .negx | .decimal _ | .nbcd
  | .shiftMemory _ _ | .shiftRegister .rotateExtend _ => .extended
  | .shiftRegister _ _ => if i.shiftCount r = 0 then .result else .extended
  | .logicToCcr _ | .moveToCcr | .rtr => .codes
  | .logicToSr _ | .moveToSr | .rte | .stop => .whole

end Instruction

/-! ## 2. Changes after which X is C -/

theorem Status.agreeOutside_zero {a b : Word} : AgreeOutside 0 a b ↔ a = b := by
  rw [AgreeOutside, show ~~~(0 : Word) = BitVec.allOnes 16 from rfl, BitVec.and_allOnes,
    BitVec.and_allOnes]

/-- A flag reads back as it was set. -/
theorem Status.hasFlag_setFlag {flags : Word} (hflags : flags &&& implemented = flags)
    (hnone : flags ≠ 0) (sr : Word) (on : Bool) : hasFlag (setFlag sr flags on) flags = on := by
  cases on with
  | true =>
    show decide ((sr ||| (flags &&& implemented)) &&& flags = flags) = true
    rw [hflags, decide_eq_true_iff]
    refine BitVec.eq_of_getLsbD_eq fun k _ => ?_
    rw [BitVec.getLsbD_and, BitVec.getLsbD_or]
    cases flags.getLsbD k <;> simp
  | false =>
    show decide ((sr &&& ~~~flags) &&& flags = flags) = false
    rw [decide_eq_false_iff_not, BitVec.and_assoc, BitVec.and_comm (~~~flags), BitVec.and_not_self]
    simpa using hnone.symm

/-- A flag reads as it was after another one has been set. -/
theorem Status.hasFlag_setFlag_of_disjoint {flags others : Word}
    (h : flags &&& ~~~others = flags) (sr : Word) (on : Bool) :
    hasFlag (setFlag sr others on) flags = hasFlag sr flags := by
  have hagree : AgreeOutside others (setFlag sr others on) sr :=
    agreeOutside_setFlag BitVec.and_self sr on
  exact hagree.hasFlag_eq h

theorem Status.hasFlag_carry_withNzvc (sr : Word) (size : Size) (result : Long)
    (overflowed carried : Bool) :
    hasFlag (withNzvc sr size result overflowed carried) carry = carried :=
  hasFlag_setFlag (by decide) (by decide) _ _

theorem Status.hasFlag_overflow_withNzvc (sr : Word) (size : Size) (result : Long)
    (overflowed carried : Bool) :
    hasFlag (withNzvc sr size result overflowed carried) overflow = overflowed := by
  unfold withNzvc
  dsimp only
  rw [hasFlag_setFlag_of_disjoint (by decide)]
  exact hasFlag_setFlag (by decide) (by decide) _ _

theorem Status.hasFlag_zero_withNzvc (sr : Word) (size : Size) (result : Long)
    (overflowed carried : Bool) :
    hasFlag (withNzvc sr size result overflowed carried) zero =
      decide (size.truncate result = 0) := by
  unfold withNzvc
  dsimp only
  rw [hasFlag_setFlag_of_disjoint (by decide), hasFlag_setFlag_of_disjoint (by decide)]
  exact hasFlag_setFlag (by decide) (by decide) _ _

theorem Status.hasFlag_negative_withNzvc (sr : Word) (size : Size) (result : Long)
    (overflowed carried : Bool) :
    hasFlag (withNzvc sr size result overflowed carried) negative = size.isNegative result := by
  unfold withNzvc
  dsimp only
  rw [hasFlag_setFlag_of_disjoint (by decide), hasFlag_setFlag_of_disjoint (by decide),
    hasFlag_setFlag_of_disjoint (by decide)]
  exact hasFlag_setFlag (by decide) (by decide) _ _

theorem Status.hasFlag_extend_withNzvc (sr : Word) (size : Size) (result : Long)
    (overflowed carried : Bool) :
    hasFlag (withNzvc sr size result overflowed carried) extend = hasFlag sr extend :=
  (agreeOutside_withNzvc sr size result overflowed carried).hasFlag_eq (by decide)

/-- X set to what C has been set to. -/
theorem Status.extendFollows_setFlag {sr : Word} {carried : Bool} (h : hasFlag sr carry = carried) :
    ExtendFollows (setFlag sr extend carried) := by
  have hagree : AgreeOutside extend (setFlag sr extend carried) sr :=
    agreeOutside_setFlag (by decide) sr carried
  have hcarry : hasFlag (setFlag sr extend carried) carry = hasFlag sr carry :=
    hagree.hasFlag_eq (by decide)
  rw [ExtendFollows, hcarry, h]
  exact hasFlag_setFlag (by decide) (by decide) sr carried

/-- **A change that reaches X makes it C.** -/
theorem FlagChange.extendFollows_apply {change : FlagChange} (hmask : change.mask = conditions)
    (size : Size) (sr : Word) : ExtendFollows (change.apply size sr) := by
  cases change with
  | add | sub | negate | negateExtended => exact extendFollows_setFlag (hasFlag_carry_withNzvc ..)
  | none => exact absurd hmask (by decide)
  | logical | compare => exact absurd (show nzvc = conditions from hmask) (by decide)

theorem PackedDecimal.extendFollows_flags (sr : Word) (result : Byte) (carried : Bool) :
    ExtendFollows (PackedDecimal.flags sr result carried) := by
  have hboth : ExtendFollows (setFlag (setFlag sr carry carried) extend carried) :=
    extendFollows_setFlag (hasFlag_setFlag (by decide) (by decide) sr carried)
  unfold PackedDecimal.flags
  dsimp only
  split
  · exact hboth
  · have hzero (sr : Word) : AgreeOutside zero (setFlag sr zero false) sr :=
      agreeOutside_setFlag (by decide) sr false
    rw [ExtendFollows, (hzero _).hasFlag_eq (by decide), (hzero _).hasFlag_eq (by decide)]
    exact hboth

/-- **A shift that is no plain rotate makes X the last bit that went out**, as it makes C. By no
    bits only a rotate through X does so, for it starts with X as its carry. -/
theorem extendFollows_shift {kind : ShiftKind} {count : Nat} (hkind : kind ≠ .rotate)
    (hcount : count ≠ 0 ∨ kind = .rotateExtend) (direction : Direction) (size : Size) (v : Long)
    (sr : Word) : ExtendFollows (shift kind direction size v count sr).2 := by
  unfold shift ExtendFollows
  dsimp only
  rw [hasFlag_carry_withNzvc, hasFlag_extend_withNzvc]
  by_cases hzero : count = 0
  · obtain rfl : kind = .rotateExtend := hcount.resolve_left (absurd hzero)
    subst hzero
    show hasFlag sr extend = (decide True && hasFlag sr extend)
    rw [decide_true, Bool.true_and]
  · have hsome : (decide (0 < count) && decide (kind ≠ .rotate)) = true := by
      simp [hkind, Nat.pos_of_ne_zero hzero]
    rw [if_pos hsome]
    exact hasFlag_setFlag (by decide) (by decide) sr _

/-- A shift by no bits leaves X alone. -/
theorem agreeOutside_shift_zero (kind : ShiftKind) (direction : Direction) (size : Size) (v : Long)
    (sr : Word) : AgreeOutside nzvc (shift kind direction size v 0 sr).2 sr :=
  agreeOutside_withNzvc ..

theorem Status.agreeOutside_allOnes (a b : Word) : AgreeOutside (BitVec.allOnes 16) a b := by
  rw [AgreeOutside, BitVec.not_allOnes, BitVec.and_zero, BitVec.and_zero]

namespace Exec

variable {α β : Type} {x : Exec α} {f : α → Exec β} {ok trap : List Part} {m m' : Machine} {a : α}

/-! ## 3. Actions -/

/-- An action that touches no flag keeps the status register. -/
theorem Touches.sr_eq (hx : Touches ok trap x) (hflags : ∀ bits, Part.flags bits ∉ ok)
    (hsystem : Part.system ∉ ok) (h : x m = .ok a m') : m'.registers.sr = m.registers.sr := by
  have hagree : AgreeOutside 0 m'.registers.sr m.registers.sr :=
    (hx.changed h).agreeOutside (fun bits hbits => absurd hbits (hflags bits)) hsystem
  exact agreeOutside_zero.mp hagree

/-- Whenever the action succeeds, it ends with X as C. -/
def EndsExtended (x : Exec α) : Prop :=
  ∀ m a m', x m = .ok a m' → ExtendFollows m'.registers.sr

/-- What comes before does not matter. -/
theorem EndsExtended.bind (hf : ∀ a, EndsExtended (f a)) : EndsExtended (x >>= f) := by
  intro m b m' h
  obtain ⟨a, m₁, _, hfa⟩ := bind_ok h
  exact hf a m₁ b m' hfa

/-- What comes behind does not matter if it touches no flag. -/
theorem EndsExtended.keep (hx : EndsExtended x) (hf : ∀ a, Touches ok trap (f a))
    (hflags : ∀ bits, Part.flags bits ∉ ok) (hsystem : Part.system ∉ ok) :
    EndsExtended (x >>= f) := by
  intro m b m' h
  obtain ⟨a, m₁, hxa, hfa⟩ := bind_ok h
  rw [(hf a).sr_eq hflags hsystem hfa]
  exact hx m a m₁ hxa

theorem endsExtended_throw (t : Trap) : EndsExtended (throw t : Exec α) := fun _ _ _ h => by cases h

theorem endsExtended_modifyStatus {g : Word → Word} (hg : ∀ sr, ExtendFollows (g sr)) :
    EndsExtended (modifyStatus g) := by
  intro m a m' h
  cases h
  exact hg _

theorem endsExtended_changeFlags {change : FlagChange} (hmask : change.mask = conditions)
    (size : Size) : EndsExtended (changeFlags change size) :=
  endsExtended_modifyStatus (change.extendFollows_apply hmask size)

theorem endsExtended_combine {op : ArithOp} (hop : op ≠ .cmp) (src dst : Operand) (size : Size) :
    EndsExtended (combine op src dst size) := by
  refine .bind fun s => .bind fun d => ?_
  cases op with
  | add | sub => exact .bind fun _ => endsExtended_changeFlags rfl size
  | cmp => exact absurd rfl hop

theorem endsExtended_arith {op : ArithOp} (hop : op ≠ .cmp) (i : Instruction) :
    EndsExtended (arith op i) := by
  cases op with
  | cmp => exact absurd rfl hop
  | add | sub => exact .bind fun p => endsExtended_combine hop p.1 p.2 i.size

theorem endsExtended_arithExtended (op : AddSub) (i : Instruction) :
    EndsExtended (arithExtended op.arith i) := by
  refine .bind fun p => .bind fun s => .bind fun d => .bind fun x => .bind fun _ => ?_
  cases op <;> exact endsExtended_changeFlags rfl i.size

theorem endsExtended_neg (i : Instruction) : EndsExtended (neg i) :=
  .bind fun _ => .bind fun _ => .bind fun _ => endsExtended_changeFlags rfl i.size

theorem endsExtended_negx (i : Instruction) : EndsExtended (negx i) :=
  .bind fun _ => .bind fun _ => .bind fun _ => .bind fun _ => endsExtended_changeFlags rfl i.size

theorem endsExtended_decimal (op : AddSub) (i : Instruction) : EndsExtended (decimal op i) :=
  .bind fun _ => .bind fun _ => .bind fun _ => .bind fun _ => .bind fun _ =>
    endsExtended_modifyStatus fun sr => PackedDecimal.extendFollows_flags sr _ _

theorem endsExtended_nbcd (i : Instruction) : EndsExtended (nbcd i) :=
  .bind fun _ => .bind fun _ => .bind fun _ => .bind fun _ =>
    endsExtended_modifyStatus fun sr => PackedDecimal.extendFollows_flags sr _ _

/-- The write behind the shift touches no flag. -/
theorem endsExtended_shiftMemory {kind : ShiftKind} (hkind : kind ≠ .rotate) (direction : Direction)
    (i : Instruction) : EndsExtended (shiftMemory kind direction i) := by
  refine .bind fun operand => ?_
  split
  case h_1 a =>
    refine .bind fun v => ?_
    have hshift : EndsExtended (shiftValue kind direction .word v 1) := by
      intro m result m' h
      cases h
      exact extendFollows_shift hkind (.inl Nat.one_ne_zero) direction .word v _
    exact hshift.keep (fun result => touches_write (.memory a) .word result) (by simp) (by simp)
  case h_2 => exact endsExtended_throw _

/-- An address register as destination is changed without a flag. -/
theorem touches_arithQuick_of_address {op : ArithOp} {i : Instruction}
    (h : i.hasAddressDestination = true) : Touches [.address] [] (arithQuick op i) := by
  unfold Instruction.hasAddressDestination at h
  split at h
  case h_2 => cases h
  case h_1 k hmode =>
    obtain ⟨ea, hea, hmode⟩ := Option.bind_eq_some_iff.mp hmode
    have hdestination : destination i = Pure.pure (.address k) := by
      funext m
      unfold destination resolve EffectiveAddress.resolve
      rw [hea]
      dsimp only
      rw [hmode]
      rfl
    unfold arithQuick
    rw [hdestination]
    exact (commits_readAddress k).prepare fun v =>
      (commits_writeAddress k (op.compute v (BitVec.ofNat 32 i.quickValue) 0)).safe

/-- Any other destination goes the way of a sum or a difference. -/
theorem endsExtended_arithQuick {op : ArithOp} (hop : op ≠ .cmp) {i : Instruction}
    (h : i.hasAddressDestination = false) : EndsExtended (arithQuick op i) := by
  intro m a m' hx
  obtain ⟨dst, m₁, hdst, hx⟩ := bind_ok hx
  have hdirect : ∀ k, dst ≠ .address k := by
    rintro k rfl
    unfold destination resolve EffectiveAddress.resolve at hdst
    unfold Instruction.hasAddressDestination at h
    cases hea : i.destination with
    | none => rw [hea] at hdst; cases hdst
    | some ea =>
      rw [hea] at hdst h
      simp only [Option.bind_some] at h
      dsimp only at hdst
      cases hmode : ea.mode? with
      | none => rw [hmode] at hdst; cases hdst
      | some mode =>
        rw [hmode] at hdst h
        cases mode with
        | addressDirect n => cases h
        | _ => cases hdst
  split at hx
  case h_1 k => exact absurd rfl (hdirect k)
  case h_2 => exact endsExtended_combine hop _ dst i.size m₁ a m' hx

/-- A whole address register as destination is changed without a flag. -/
theorem sr_arithAddress {op : ArithOp} (hop : op ≠ .cmp) {i : Instruction}
    (h : arithAddress op i m = .ok () m') : m'.registers.sr = m.registers.sr := by
  have htouches : Touches [.address] [.address] (arithAddress op i) := by
    refine (touches_source i).prepare fun operand => ?_
    refine (touches_read operand i.size).prepare fun v => ?_
    refine (commits_readAddress _).prepare fun d => ?_
    cases op with
    | add | sub => exact (commits_writeAddress _ _).touches
    | cmp => exact absurd rfl hop
  exact htouches.sr_eq (by simp) (by simp) h

theorem sr_moveUsp {i : Instruction} (h : moveUsp i m = .ok () m') :
    m'.registers.sr = m.registers.sr := by
  obtain ⟨_, m₁, hmode, h⟩ := bind_ok h
  have hsame := touches_requireSupervisor.sr_eq (by simp) (by simp) hmode
  split at h
  · cases h
    exact (Registers.sr_writeAddress ..).trans hsame
  · cases h
    exact hsame

/-- The status register after a shift of a data register. -/
theorem sr_shiftRegister {kind : ShiftKind} {direction : Direction} {i : Instruction}
    (h : shiftRegister kind direction i m = .ok () m') :
    m'.registers.sr = (shift kind direction i.size (m.registers.readData i.lowRegister)
      (i.shiftCount m.registers) m.registers.sr).2 := by
  unfold shiftRegister at h
  unfold Instruction.shiftCount
  split at h
  · rename_i hbit
    rw [if_pos hbit]
    cases h
    rfl
  · rename_i hbit
    rw [if_neg hbit]
    cases h
    rfl

end Exec

/-! ## 4. Instructions -/

/-- Whether the rule covers all that a footprint may do to the status register. -/
def StatusRule.covers (rule : StatusRule) (parts : List Part) : Bool :=
  parts.all fun
    | .flags bits => bits &&& rule.mask = bits
    | .system => rule = .whole
    | _ => true

theorem StatusRule.agree_of_covers {rule : StatusRule} {parts : List Part} {m m' : Machine}
    (hrule : rule.covers parts = true) (h : Changed parts m m') :
    AgreeOutside rule.mask m'.registers.sr m.registers.sr := by
  have hpart := List.all_eq_true.mp hrule
  by_cases hsystem : Part.system ∈ parts
  · obtain rfl : rule = .whole := of_decide_eq_true (hpart _ hsystem)
    exact agreeOutside_allOnes _ _
  · exact h.agreeOutside (fun bits hbits => of_decide_eq_true (hpart _ hbits)) hsystem

namespace Instruction

open Exec

variable {i : Instruction} {m m' : Machine}

/-- **Every instruction changes only the bits of its rule.** For most the table of footprints says
    so; it is too coarse for four operations. -/
theorem agree_execute (h : i.execute m = .ok () m') :
    AgreeOutside (i.statusRule m.registers).mask m'.registers.sr m.registers.sr := by
  have htable (rule : StatusRule) (hrule : rule.covers i.operation.touches = true) :
      AgreeOutside rule.mask m'.registers.sr m.registers.sr :=
    rule.agree_of_covers hrule (i.touches_execute.changed h)
  unfold execute at h
  unfold statusRule
  generalize i.operation = op at h htable ⊢
  cases op with
  | arithAddress op =>
    cases op with
    | cmp => exact htable .result rfl
    | add | sub => exact agreeOutside_zero.mpr (sr_arithAddress (by decide) h)
  | arithQuick op =>
    dsimp only
    split
    · rename_i haddress
      have hsame := (touches_arithQuick_of_address haddress).sr_eq (by simp) (by simp) h
      exact agreeOutside_zero.mpr hsame
    · cases op <;> exact htable .extended rfl
  | moveUsp => exact agreeOutside_zero.mpr (sr_moveUsp h)
  | shiftRegister kind direction =>
    cases kind with
    | rotate => exact htable .result rfl
    | rotateExtend => exact htable .extended rfl
    | arithmetic | logical =>
      dsimp only
      split
      · rename_i hcount
        rw [sr_shiftRegister h, hcount]
        exact agreeOutside_shift_zero ..
      · exact htable .extended rfl
  | shiftMemory kind direction => cases kind <;> dsimp only <;> exact htable _ rfl
  | bitStatic op | bitDynamic op | arithImmediate op | arith op =>
    cases op <;> dsimp only <;> exact htable _ rfl
  | _ => dsimp only; exact htable _ rfl

/-- **An instruction whose rule says so ends with X as C.** -/
theorem extendFollows_execute (h : i.execute m = .ok () m')
    (hrule : i.statusRule m.registers = .extended) : ExtendFollows m'.registers.sr := by
  have hends {x : Exec Unit} (hx : x.EndsExtended) (hxm : x m = .ok () m') :
      ExtendFollows m'.registers.sr := hx m () m' hxm
  unfold execute at h
  unfold statusRule at hrule
  generalize i.operation = op at h hrule
  cases op with
  | arithImmediate op =>
    cases op with
    | cmp => cases hrule
    | add | sub => exact hends (.bind fun dst => endsExtended_combine (by decide) _ dst _) h
  | arith op =>
    cases op with
    | cmp => cases hrule
    | add | sub => exact hends (endsExtended_arith (by decide) i) h
  | arithAddress op => cases op <;> cases hrule
  | arithQuick op =>
    dsimp only at hrule
    split at hrule
    · cases hrule
    · rename_i haddress
      have hop : op.arith ≠ .cmp := by cases op <;> decide
      exact hends (endsExtended_arithQuick hop (Bool.eq_false_iff.mpr haddress)) h
  | arithExtended op => exact hends (endsExtended_arithExtended op i) h
  | neg => exact hends (endsExtended_neg i) h
  | negx => exact hends (endsExtended_negx i) h
  | decimal op => exact hends (endsExtended_decimal op i) h
  | nbcd => exact hends (endsExtended_nbcd i) h
  | shiftMemory kind direction =>
    cases kind with
    | rotate => cases hrule
    | arithmetic | logical | rotateExtend =>
      exact hends (endsExtended_shiftMemory (by decide) direction i) h
  | shiftRegister kind direction =>
    rw [sr_shiftRegister h]
    cases kind with
    | rotate => cases hrule
    | rotateExtend => exact extendFollows_shift (by decide) (.inr rfl) ..
    | arithmetic | logical =>
      dsimp only at hrule
      split at hrule
      · cases hrule
      · rename_i hcount
        exact extendFollows_shift (by decide) (.inl hcount) ..
  | _ => cases hrule

/-- Only six operations have the rule of the system byte. -/
theorem operation_of_statusRule {r : Registers} (h : i.statusRule r = .whole) :
    i.operation ∈ [.logicToSr .or, .logicToSr .and, .logicToSr .eor, .moveToSr, .rte, .stop] := by
  unfold statusRule at h
  generalize i.operation = op at h ⊢
  cases op with
  | logicToSr op => cases op <;> decide
  | moveToSr | rte | stop => decide
  | arithImmediate op | arith op | arithAddress op => cases op <;> cases h
  | shiftMemory kind direction => cases kind <;> cases h
  | arithQuick op =>
    dsimp only at h
    split at h <;> cases h
  | shiftRegister kind direction =>
    cases kind with
    | rotate | rotateExtend => cases h
    | arithmetic | logical =>
      dsimp only at h
      split at h <;> cases h
  | _ => cases h

/-- **The condition codes over the whole instruction set.** What an instruction that succeeds does
    to the status register, by its rule; and the system byte changes for no more than six
    operations. -/
theorem status_discipline (h : i.execute m = .ok () m') :
    (match i.statusRule m.registers with
      | .keeps => m'.registers.sr = m.registers.sr
      | .zero => AgreeOutside Status.zero m'.registers.sr m.registers.sr
      | .result => hasFlag m'.registers.sr extend = hasFlag m.registers.sr extend
      | .extended => hasFlag m'.registers.sr extend = hasFlag m'.registers.sr carry
      | .codes | .whole => True) ∧
      (systemByte m'.registers.sr ≠ systemByte m.registers.sr →
        i.operation ∈
          [.logicToSr .or, .logicToSr .and, .logicToSr .eor, .moveToSr, .rte, .stop]) := by
  have hagree := agree_execute h
  have hfollows := extendFollows_execute h
  refine ⟨?_, fun hsystem => ?_⟩
  · cases hrule : i.statusRule m.registers with
    | keeps => rw [hrule] at hagree; exact agreeOutside_zero.mp hagree
    | zero => rw [hrule] at hagree; exact hagree
    | result => rw [hrule] at hagree; exact hagree.hasFlag_eq (by decide)
    | extended => exact hfollows hrule
    | codes | whole => trivial
  · by_cases hrule : i.statusRule m.registers = .whole
    · exact operation_of_statusRule hrule
    · refine absurd (AgreeOutside.systemByte_eq (hagree.mono ?_)) hsystem
      cases hmask : i.statusRule m.registers with
      | whole => exact absurd hmask hrule
      | keeps | zero | result | extended | codes => decide

/-- `ROXR.W D1,D0`. -/
def rotateThroughExtend : Instruction :=
  { address := 0, opcode := 0xE270, operation := .shiftRegister .rotateExtend .right, size := .word
    extension := ⟨2, .none⟩, source := none, destination := none, length := 2 }

/-- A machine about to execute it with X set, C clear and a count of 64, which is none. -/
def aboutToRotate : Machine :=
  { Machine.new { memoryBytes := 2, traceInstructions := false } with
    registers := { Registers.zeros.writeData 1 64 .long with sr := extend }
    memory := (Memory.zeros 2).setBytes 0 [0xE2, 0x70]
    codeEnd := 2 }

/-- C takes the value of X. -/
theorem status_discipline_rotateThroughExtend :
    aboutToRotate.code.fetch 0 = .ok (some rotateThroughExtend) 2 ∧
      ∃ m', rotateThroughExtend.execute aboutToRotate = .ok () m' ∧
        hasFlag m'.registers.sr extend = hasFlag m'.registers.sr carry ∧
        hasFlag m'.registers.sr carry = true := by
  obtain ⟨m', h, hcarry⟩ : ∃ m', rotateThroughExtend.execute aboutToRotate = .ok () m' ∧
      hasFlag m'.registers.sr carry = true := ⟨_, rfl, by decide⟩
  exact ⟨rfl, m', h, (status_discipline h).1, hcarry⟩

end Instruction

end Mc68000
