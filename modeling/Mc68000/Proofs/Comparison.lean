import Mc68000.Proofs.Confinement
import Mc68000.Proofs.ConditionCodes
import Mc68000.Proofs.ReadBack
import Mc68000.Proofs.SizedNumber

/-!
# Comparisons and what follows them

What a comparison leaves in the flags, and what a condition then says of the two values.

* `FlagChange.subCarry_eq`, `negative_eq_overflow` -- **the borrow and the sign of a difference
  order its operands**, as numbers without and with a sign;
* `Comparison`, `Comparison.order?` -- two values at a size, and what a condition asks of them;
* `Comparison.holds_status` -- a condition holds behind a comparison exactly if the values are in
  that order;
* `Instruction.compared?` -- what an instruction compares, read off the machine before it;
* `Instruction.leavesOrder_of_compares` -- **`CMP`, `CMPI`, `CMPM` and `CMPA` leave the flags of
  what they compare**;
* `execute_bcc`, `execute_scc`, `execute_dbcc` -- what an instruction with a condition does;
* `Operand.HasByte`, `hasByte_of_scc` -- a byte at an operand, and which one `Scc` leaves there;
* `Instruction.branch_after_compare` -- both together.
-/

namespace Mc68000

open Status

/-! ## 1. The flags of a difference -/

namespace FlagChange

variable (size : Size) (d s : Long)

/-- **A difference borrows exactly if it would be below zero.** -/
theorem subCarry_eq :
    subCarry (size.isNegative s) (size.isNegative d) (size.isNegative (d - s)) =
      decide (size.unsigned d < size.unsigned s) := by
  have hd := size.unsigned_lt_count d
  have hs := size.unsigned_lt_count s
  have hsub := size.unsigned_sub d s
  have hcount := size.count_eq_two_mul_half
  simp only [Size.isNegative_eq]
  generalize size.unsigned d = d', size.unsigned s = s', size.unsigned (d - s) = r' at *
  by_cases hs' : size.half ≤ s' <;> by_cases hd' : size.half ≤ d' <;>
    by_cases hr' : size.half ≤ r' <;> simp [subCarry, hs', hd', hr'] <;> omega

/-- **The sign of a difference is right unless it overflows**, so the two agree exactly if the
    signed numbers do not descend. -/
theorem negative_eq_overflow :
    (size.isNegative (d - s) ==
      subOverflow (size.isNegative s) (size.isNegative d) (size.isNegative (d - s))) =
      decide (size.signed s ≤ size.signed d) := by
  have hd := size.unsigned_lt_count d
  have hs := size.unsigned_lt_count s
  have hsub := size.unsigned_sub d s
  have hcount := size.count_eq_two_mul_half
  simp only [Size.isNegative_eq, Size.signed_eq]
  generalize size.unsigned d = d', size.unsigned s = s', size.unsigned (d - s) = r' at *
  by_cases hs' : size.half ≤ s' <;> by_cases hd' : size.half ≤ d' <;>
    by_cases hr' : size.half ≤ r' <;> simp [subOverflow, hs', hd', hr'] <;> omega

/-- A difference is zero exactly if its operands are one value. -/
theorem truncate_sub_eq_zero : decide (size.truncate (d - s) = 0) =
    decide (size.unsigned d = size.unsigned s) := by
  have hd := size.unsigned_lt_count d
  have hs := size.unsigned_lt_count s
  have hsub := size.unsigned_sub d s
  have hzero : size.truncate (d - s) = 0 ↔ size.unsigned (d - s) = 0 := BitVec.toNat_inj.symm
  rw [decide_eq_decide, hzero]
  omega

end FlagChange

/-- A comparison subtracts no third number. -/
theorem ArithOp.compute_cmp (d s : Long) : ArithOp.cmp.compute d s 0 = d - s := BitVec.sub_zero _

/-! ## 2. Comparisons -/

/-- Two values at a size. -/
structure Comparison where
  size : Size
  destination : Long
  source : Long
  deriving DecidableEq, Repr

namespace Comparison

variable (v : Comparison) (sr : Word)

/-- The status register behind a comparison. -/
def status : Word :=
  let difference := v.size.truncate (v.destination - v.source)
  (FlagChange.compare v.source v.destination difference).apply v.size sr

/-- What a condition asks of the two values, `none` if it does not ask for an order. -/
def order? (condition : Condition) : Option Bool :=
  let d := v.size.unsigned v.destination
  let s := v.size.unsigned v.source
  let d' := v.size.signed v.destination
  let s' := v.size.signed v.source
  match condition with
  | .higher => some (s < d)
  | .lowerOrSame => some (d ≤ s)
  | .carryClear => some (s ≤ d)
  | .carrySet => some (d < s)
  | .equal => some (d = s)
  | .notEqual => some (d ≠ s)
  | .greaterOrEqual => some (s' ≤ d')
  | .lessThan => some (d' < s')
  | .greaterThan => some (s' < d')
  | .lessOrEqual => some (d' ≤ s')
  | .always | .never | .overflowClear | .overflowSet | .plus | .minus => none

theorem hasFlag_carry_status : hasFlag (v.status sr) carry =
    decide (v.size.unsigned v.destination < v.size.unsigned v.source) := by
  unfold status FlagChange.apply
  dsimp only
  rw [hasFlag_carry_withNzvc, Size.isNegative_truncate]
  exact FlagChange.subCarry_eq ..

theorem hasFlag_zero_status : hasFlag (v.status sr) zero =
    decide (v.size.unsigned v.destination = v.size.unsigned v.source) := by
  unfold status FlagChange.apply
  dsimp only
  rw [hasFlag_zero_withNzvc, Size.truncate_truncate]
  exact FlagChange.truncate_sub_eq_zero ..

/-- N and V count together only. -/
theorem negative_eq_overflow_status :
    (hasFlag (v.status sr) negative == hasFlag (v.status sr) overflow) =
      decide (v.size.signed v.source ≤ v.size.signed v.destination) := by
  unfold status FlagChange.apply
  dsimp only
  rw [hasFlag_negative_withNzvc, hasFlag_overflow_withNzvc, Size.isNegative_truncate]
  exact FlagChange.negative_eq_overflow ..

theorem hasFlag_extend_status : hasFlag (v.status sr) extend = hasFlag sr extend :=
  hasFlag_extend_withNzvc ..

variable {v}

/-- **A condition holds behind a comparison exactly if the values are in its order.** -/
theorem holds_status {condition : Condition} {held : Bool} (h : v.order? condition = some held) :
    condition.holds (v.status sr) = held := by
  have hcarry := v.hasFlag_carry_status sr
  have hzero := v.hasFlag_zero_status sr
  have hsigned := v.negative_eq_overflow_status sr
  have heq : v.size.signed v.destination = v.size.signed v.source ↔ _ := Size.signed_eq_iff
  unfold order? at h
  unfold Condition.holds
  generalize v.size.unsigned v.destination = d, v.size.unsigned v.source = s,
    v.size.signed v.destination = d', v.size.signed v.source = s' at *
  have hdescend : (hasFlag (v.status sr) negative != hasFlag (v.status sr) overflow) =
      decide (d' < s') := by
    rw [bne, hsigned, ← decide_not, decide_eq_decide]
    omega
  dsimp only
  cases condition <;> cases h <;> simp only [hcarry, hzero, hsigned, hdescend]
  case higher =>
    rw [← decide_not, ← decide_not, ← Bool.decide_and, decide_eq_decide]
    omega
  case lowerOrSame =>
    rw [← Bool.decide_or, decide_eq_decide]
    omega
  case carryClear =>
    rw [← decide_not, decide_eq_decide]
    omega
  case notEqual => rw [← decide_not]
  case greaterThan =>
    rw [← decide_not, ← Bool.decide_and, decide_eq_decide]
    omega
  case lessOrEqual =>
    rw [← Bool.decide_or, decide_eq_decide]
    omega

end Comparison

/-! ## 3. What is compared -/

/-- The value of an operand, `none` if it cannot be read. -/
def Operand.value? (operand : Operand) (size : Size) (r : Registers) (memory : Memory) :
    Option Long :=
  match operand with
  | .register reg => some (size.truncate (r.read reg))
  | .memory a => (memory.read a size).toOption
  | .immediate v => some (size.truncate v)

/-- A byte is at an operand: in the low bits of its register, or at its address. -/
def Operand.HasByte (operand : Operand) (b : Byte) (m : Machine) : Prop :=
  match operand with
  | .register reg => (m.registers.read reg).setWidth 8 = b
  | .memory a => m.memory.byte a.toNat = b
  | .immediate _ => False

/-- What an instruction compares, `none` if it compares nothing or cannot read it. A register is
    read after the operand field has moved its own. -/
def Instruction.compared? (i : Instruction) (m : Machine) : Option Comparison :=
  match i.operation with
  | .arith .cmp => do
    let (operand, r) ← m.registers.fieldOperand? i.destination i.size
    let source ← operand.value? i.size r m.memory
    return ⟨i.size, i.size.truncate (r.readData i.highRegister), source⟩
  | .arithImmediate .cmp => do
    let (operand, r) ← m.registers.fieldOperand? i.destination i.size
    let destination ← operand.value? i.size r m.memory
    return ⟨i.size, destination, i.size.truncate i.extension.long⟩
  | .cmpm => do
    let r := m.registers.increment i.lowRegister i.size
    let source ← (m.memory.read (m.registers.readAddress i.lowRegister) i.size).toOption
    let destination ← (m.memory.read (r.readAddress i.highRegister) i.size).toOption
    return ⟨i.size, destination, source⟩
  | .arithAddress .cmp => do
    let (operand, r) ← m.registers.fieldOperand? i.source i.size
    let source ← operand.value? i.size r m.memory
    return ⟨.long, r.readAddress i.highRegister, i.size.signExtend source⟩
  | _ => none

namespace Exec

variable {m m' : Machine}

/-- **A field that resolves leads to its operand**, and moves registers only. -/
theorem fieldOperand?_of_resolve {ea? : Option EffectiveAddress} {size : Size} {operand : Operand}
    (h : resolve ea? size m = .ok operand m') :
    m.registers.fieldOperand? ea? size = some (operand, m'.registers) ∧
      m'.memory = m.memory ∧ m'.registers.sr = m.registers.sr := by
  have htouched := (touches_resolve ea? size).changed h
  refine ⟨?_, htouched.memory_eq (by simp), (touches_resolve ea? size).sr_eq (by simp) (by simp) h⟩
  rw [resolve_eq] at h
  cases hfield : m.registers.fieldOperand? ea? size with
  | none => rw [hfield] at h; cases h
  | some found => rw [hfield] at h; cases h; rfl

/-- An operand has a value exactly if it can be read, and reading it changes nothing. -/
theorem read_eq_value? (operand : Operand) (size : Size) (m : Machine) :
    read operand size m =
      match operand.value? size m.registers m.memory with
      | some v => .ok v m
      | none => .error .addressError m := by
  cases operand with
  | register reg => rfl
  | immediate v => rfl
  | memory a =>
    unfold Exec.read readMemory Operand.value? Memory.read
    dsimp only
    by_cases ha : accessible a size m.memory.capacity = true
    · rw [if_pos ha]
      rfl
    · rw [if_neg ha]
      rfl

/-- An operand that is read has a value, and the machine stays. -/
theorem value?_of_read {operand : Operand} {size : Size} {v : Long}
    (h : read operand size m = .ok v m') :
    m' = m ∧ operand.value? size m.registers m.memory = some v := by
  rw [read_eq_value?] at h
  cases hvalue : operand.value? size m.registers m.memory with
  | none => rw [hvalue] at h; cases h
  | some w => rw [hvalue] at h; cases h; exact ⟨rfl, rfl⟩

/-- A byte that is written is there. -/
theorem hasByte_of_write {operand : Operand} {v : Long}
    (h : write operand .byte v m = .ok () m') : operand.HasByte (v.setWidth 8) m' := by
  cases operand with
  | register reg =>
    cases h
    show ((m.registers.write reg v .byte).read reg).setWidth 8 = v.setWidth 8
    rw [Registers.read_write]
    exact Size.byte.setWidth_merge _ v
  | memory a =>
    unfold write writeMemory at h
    dsimp only at h
    split at h
    · rename_i ha
      cases h
      have hinside : a.toNat < m.memory.capacity := Memory.le_of_accessible ha
      show (m.memory.setByte a.toNat (v.setWidth 8)).byte a.toNat = v.setWidth 8
      rw [Memory.byte_setByte, if_pos ⟨rfl, hinside⟩]
    · cases h
  | immediate w => cases h

/-- A comparison of two operands leaves the flags of their values. -/
theorem sr_of_combine_cmp {src dst : Operand} {size : Size}
    (h : combine .cmp src dst size m = .ok () m') :
    ∃ s d, src.value? size m.registers m.memory = some s ∧
      dst.value? size m.registers m.memory = some d ∧
      m'.registers.sr = (⟨size, d, s⟩ : Comparison).status m.registers.sr := by
  obtain ⟨s, m₁, hs, hrest⟩ := bind_ok h
  obtain ⟨rfl, hsource⟩ := value?_of_read hs
  obtain ⟨d, m₂, hd, hflags⟩ := bind_ok hrest
  obtain ⟨rfl, hdestination⟩ := value?_of_read hd
  cases hflags
  refine ⟨s, d, hsource, hdestination, ?_⟩
  show FlagChange.apply (.compare s d (size.truncate (ArithOp.cmp.compute d s 0))) size _ = _
  rw [ArithOp.compute_cmp]
  rfl

end Exec

namespace Instruction

open Exec

variable {i j : Instruction} {m m' k k' : Machine}

/-- The flags of `m'` are those of what the instruction compares in `m`. -/
def LeavesOrder (i : Instruction) (m m' : Machine) : Prop :=
  ∃ v, i.compared? m = some v ∧ m'.registers.sr = v.status m.registers.sr

theorem leavesOrder_cmp (hop : i.operation = .arith .cmp) (h : i.execute m = .ok () m') :
    i.LeavesOrder m m' := by
  unfold execute at h
  unfold LeavesOrder compared?
  rw [hop] at h ⊢
  obtain ⟨operand, m₁, hres, hrest⟩ := bind_ok h
  obtain ⟨hfield, hmemory, hsr⟩ := fieldOperand?_of_resolve hres
  obtain ⟨s, d, hs, hd, hstatus⟩ := sr_of_combine_cmp hrest
  cases hd
  rw [hmemory] at hs
  rw [hsr] at hstatus
  refine ⟨_, ?_, hstatus⟩
  simp only [hfield, hs, Option.bind_eq_bind, Option.bind_some]
  rfl

/-- The literal is cut to its size twice. -/
theorem leavesOrder_cmpImmediate (hop : i.operation = .arithImmediate .cmp)
    (h : i.execute m = .ok () m') : i.LeavesOrder m m' := by
  unfold execute at h
  unfold LeavesOrder compared?
  rw [hop] at h ⊢
  obtain ⟨operand, m₁, hres, hrest⟩ := bind_ok h
  obtain ⟨hfield, hmemory, hsr⟩ := fieldOperand?_of_resolve hres
  obtain ⟨s, d, hs, hd, hstatus⟩ := sr_of_combine_cmp hrest
  cases hs
  rw [hmemory] at hd
  rw [hsr, Size.truncate_truncate] at hstatus
  refine ⟨_, ?_, hstatus⟩
  simp only [hfield, hd, Option.bind_eq_bind, Option.bind_some]
  rfl

/-- Both registers move before either operand is read. -/
theorem leavesOrder_cmpm (hop : i.operation = .cmpm) (h : i.execute m = .ok () m') :
    i.LeavesOrder m m' := by
  unfold execute at h
  unfold LeavesOrder compared?
  rw [hop] at h ⊢
  obtain ⟨s, d, hs, hd, hstatus⟩ := sr_of_combine_cmp h
  unfold Operand.value? at hs hd
  dsimp only at hs hd
  have hsr : ((m.registers.increment i.lowRegister i.size).increment i.highRegister i.size).sr =
      m.registers.sr :=
    (Registers.sr_writeAddress ..).trans (Registers.sr_writeAddress ..)
  rw [hsr] at hstatus
  refine ⟨_, ?_, hstatus⟩
  simp only [hs, hd, Option.bind_eq_bind, Option.bind_some]
  rfl

/-- The source is extended to a long, at which size the two are compared. -/
theorem leavesOrder_cmpAddress (hop : i.operation = .arithAddress .cmp)
    (h : i.execute m = .ok () m') : i.LeavesOrder m m' := by
  unfold execute at h
  unfold LeavesOrder compared?
  rw [hop] at h ⊢
  obtain ⟨operand, m₁, hres, hrest⟩ := bind_ok h
  obtain ⟨hfield, hmemory, hsr⟩ := fieldOperand?_of_resolve hres
  obtain ⟨s, m₂, hs, hflags⟩ := bind_ok hrest
  obtain ⟨rfl, hsource⟩ := value?_of_read hs
  cases hflags
  rw [hmemory] at hsource
  refine ⟨⟨.long, m₂.registers.readAddress i.highRegister, i.size.signExtend s⟩, ?_, ?_⟩
  · simp only [hfield, hsource, Option.bind_eq_bind, Option.bind_some]
    rfl
  · show FlagChange.apply (.compare _ _ (ArithOp.cmp.compute _ _ 0)) .long _ = _
    rw [ArithOp.compute_cmp, hsr]
    unfold Comparison.status
    dsimp only
    rw [Size.truncate_long]

/-- **A comparison that succeeds leaves the flags of what it compares.** -/
theorem leavesOrder_of_compares
    (hop : i.operation ∈ [.arith .cmp, .arithImmediate .cmp, .cmpm, .arithAddress .cmp])
    (h : i.execute m = .ok () m') : i.LeavesOrder m m' := by
  simp only [List.mem_cons, List.not_mem_nil, or_false] at hop
  rcases hop with hcmp | hcmpi | hcmpm | hcmpa
  · exact leavesOrder_cmp hcmp h
  · exact leavesOrder_cmpImmediate hcmpi h
  · exact leavesOrder_cmpm hcmpm h
  · exact leavesOrder_cmpAddress hcmpa h

/-! ## 4. What a condition decides -/

theorem execute_bcc (hop : j.operation = .bcc) :
    j.execute k = .ok ()
      (if k.registers.holds (Condition.ofOpcode j.opcode) then
        { k with registers := k.registers.setPc (j.address + 2 + j.branchDistance) }
      else k) := by
  unfold execute
  rw [hop]
  show (holds (Condition.ofOpcode j.opcode) >>= fun held =>
    if held then branch j j.branchDistance else pure ()) k = _
  rw [run_bind]
  show (if k.registers.holds (Condition.ofOpcode j.opcode) then branch j j.branchDistance
    else pure ()) k = _
  split <;> rfl

theorem execute_scc (hop : j.operation = .scc) :
    j.execute k = (do
      let dst ← Exec.destination j
      Exec.write dst .byte (if k.registers.holds (Condition.ofOpcode j.opcode) then 0xFF else 0))
      k := by
  unfold execute
  rw [hop]
  rfl

/-- **An `Scc` leaves a byte of ones or of zeros** where its operand field leads. -/
theorem hasByte_of_scc (hop : j.operation = .scc) (h : j.execute k = .ok () k') :
    ∃ operand r, k.registers.fieldOperand? j.destination j.size = some (operand, r) ∧
      operand.HasByte (if k.registers.holds (Condition.ofOpcode j.opcode) then 0xFF else 0) k' := by
  rw [execute_scc hop] at h
  obtain ⟨operand, k₁, hres, hwrite⟩ := bind_ok h
  refine ⟨operand, k₁.registers, (fieldOperand?_of_resolve hres).1, ?_⟩
  have hbyte := hasByte_of_write hwrite
  rw [apply_ite (BitVec.setWidth 8)] at hbyte
  exact hbyte

/-- The registers behind a `DBcc` whose condition does not hold: the low word of a data register is
    one less, and the program counter is at the target unless that is -1. -/
def counted (j : Instruction) (r : Registers) : Registers :=
  let counter := Size.word.truncate (r.readData j.lowRegister - 1)
  let r := r.writeData j.lowRegister counter .word
  if counter ≠ 0xFFFF then r.setPc (j.address + 2 + wordDistance j) else r

theorem execute_dbcc (hop : j.operation = .dbcc) :
    j.execute k = .ok ()
      (if k.registers.holds (Condition.ofOpcode j.opcode) then k
      else { k with registers := j.counted k.registers }) := by
  unfold execute
  rw [hop]
  show (if k.registers.holds (Condition.ofOpcode j.opcode) then _ else _ : Exec Unit) k = _
  split
  · rfl
  · show (if Size.word.truncate (k.registers.readData j.lowRegister - 1) ≠ 0xFFFF then
        branch j (wordDistance j) else pure ())
      { k with
        registers := k.registers.writeData j.lowRegister
          (Size.word.truncate (k.registers.readData j.lowRegister - 1)) .word } = _
    unfold counted
    dsimp only
    split <;> rfl

/-- The counter of a `DBcc` whose condition does not hold is one less. -/
theorem readData_counted (j : Instruction) (r : Registers) :
    (j.counted r).readData j.lowRegister =
      Size.word.merge (r.readData j.lowRegister) (r.readData j.lowRegister - 1) := by
  have hwritten (r : Registers) (v : Long) : (r.writeData j.lowRegister v .word).readData
      j.lowRegister = Size.word.merge (r.readData j.lowRegister) v := by
    rw [Registers.readData_writeData, if_pos rfl]
  unfold counted
  dsimp only
  split
  · exact (hwritten r _).trans (Size.merge_truncate ..)
  · exact (hwritten r _).trans (Size.merge_truncate ..)

/-- One less than a low word of zero is the last word, and no other word is. -/
theorem truncate_sub_one_eq_iff (v : Long) :
    Size.word.truncate (v - 1) = 0xFFFF ↔ Size.word.unsigned v = 0 := by
  have hlast : Size.word.truncate (v - 1) = 0xFFFF ↔ Size.word.unsigned (v - 1) = 0xFFFF :=
    BitVec.toNat_inj.symm
  have hone : Size.word.unsigned 1 = 1 := rfl
  have hcount : Size.word.count = 0x10000 := rfl
  have hlt := Size.word.unsigned_lt_count v
  rw [hlast]
  rcases Size.word.unsigned_sub v 1 with ⟨_, hsub⟩ | ⟨_, hsub⟩
  all_goals omega

/-- A `DBcc` whose condition does not hold branches unless its counter is zero. -/
theorem pc_counted (j : Instruction) (r : Registers) :
    (j.counted r).pc =
      if Size.word.unsigned (r.readData j.lowRegister) = 0 then r.pc
      else j.address + 2 + wordDistance j := by
  unfold counted
  dsimp only
  by_cases hzero : Size.word.unsigned (r.readData j.lowRegister) = 0
  · rw [if_pos hzero, if_neg (not_not_intro ((truncate_sub_one_eq_iff _).mpr hzero))]
    rfl
  · rw [if_neg hzero, if_pos fun hlast => hzero ((truncate_sub_one_eq_iff _).mp hlast)]
    rfl

/-! ## 5. A comparison and what follows it -/

/-- **A condition behind a comparison means what its name says.** What `CMP`, `CMPI`, `CMPM` and
    `CMPA` compare decides the ten conditions of order, X stays, and an instruction that tests one
    of them does so by the order of the two values: `Bcc` branches, `Scc` leaves a byte of ones, and
    `DBcc` leaves its counter alone. -/
theorem branch_after_compare
    (hop : i.operation ∈ [.arith .cmp, .arithImmediate .cmp, .cmpm, .arithAddress .cmp])
    (h : i.execute m = .ok () m') :
    ∃ v, i.compared? m = some v ∧
      hasFlag m'.registers.sr extend = hasFlag m.registers.sr extend ∧
      ∀ condition held, v.order? condition = some held →
        m'.registers.holds condition = held ∧
        ∀ (j : Instruction) (k : Machine), k.registers.sr = m'.registers.sr →
          Condition.ofOpcode j.opcode = condition →
          (j.operation = .bcc → j.execute k = .ok ()
            (if held then
              { k with registers := k.registers.setPc (j.address + 2 + j.branchDistance) }
            else k)) ∧
          (j.operation = .scc → j.execute k = (do
            let dst ← Exec.destination j
            Exec.write dst .byte (if held then 0xFF else 0)) k ∧
            ∀ k', j.execute k = .ok () k' → ∃ operand r,
              k.registers.fieldOperand? j.destination j.size = some (operand, r) ∧
              operand.HasByte (if held then 0xFF else 0) k') ∧
          (j.operation = .dbcc → j.execute k = .ok ()
            (if held then k else { k with registers := j.counted k.registers }) ∧
            (j.counted k.registers).readData j.lowRegister = Size.word.merge
              (k.registers.readData j.lowRegister) (k.registers.readData j.lowRegister - 1)) := by
  obtain ⟨v, hcompared, hsr⟩ := leavesOrder_of_compares hop h
  refine ⟨v, hcompared, ?_, fun condition held hcondition => ?_⟩
  · rw [hsr]
    exact v.hasFlag_extend_status _
  have hholds : m'.registers.holds condition = held := by
    unfold Registers.holds
    rw [hsr]
    exact Comparison.holds_status _ hcondition
  refine ⟨hholds, fun j k hk hj => ?_⟩
  have htest : k.registers.holds (Condition.ofOpcode j.opcode) = held := by
    rw [hj, ← hholds]
    unfold Registers.holds
    rw [hk]
  refine ⟨fun hbcc => ?_, fun hscc => ?_, fun hdbcc => ?_⟩
  · rw [execute_bcc hbcc, htest]
  · refine ⟨by rw [execute_scc hscc, htest], fun k' hk' => ?_⟩
    rw [← htest]
    exact hasByte_of_scc hscc hk'
  · rw [execute_dbcc hdbcc, htest]
    exact ⟨rfl, j.readData_counted k.registers⟩

/-- `CMPM.W (A0)+,(A1)+`. -/
def compareWords : Instruction :=
  { address := 4, opcode := 0xB348, operation := .cmpm, size := .word
    extension := ⟨6, .none⟩, source := none, destination := none, length := 2 }

/-- `DBLT D0,*-2`. -/
def countUnlessLess : Instruction :=
  { address := 6, opcode := 0x5DC8, operation := .dbcc, size := .word
    extension := ⟨8, .one 0xFFFC⟩, source := none, destination := none, length := 4 }

/-- `SLT D1`. -/
def setIfLess : Instruction :=
  { address := 10, opcode := 0x5DC1, operation := .scc, size := .byte, extension := ⟨12, .none⟩
    source := none, destination := some ⟨0b000001, ⟨12, .none⟩⟩, length := 2 }

/-- A machine about to compare 32768 with 32767, which as signed words is -32768 with 32767. -/
def aboutToCompare : Machine :=
  { Machine.new { memoryBytes := 12, traceInstructions := false } with
    registers := (Registers.zeros.writeAddress 1 2 .long).setPc 6
    memory := (Memory.zeros 12).setBytes 0 [0x7F, 0xFF, 0x80, 0x00, 0xB3, 0x48, 0x5D, 0xC8, 0xFF,
      0xFC, 0x5D, 0xC1]
    codeStart := 4
    codeEnd := 12 }

/-- The destination is higher and less, so the loop ends with its counter as it is, and a byte of
    ones is set. -/
theorem branch_after_compare_words :
    aboutToCompare.code.fetch 4 = .ok (some compareWords) 6 ∧
      aboutToCompare.code.fetch 6 = .ok (some countUnlessLess) 10 ∧
      aboutToCompare.code.fetch 10 = .ok (some setIfLess) 12 ∧
      ∃ m', compareWords.execute aboutToCompare = .ok () m' ∧
        m'.registers.holds .higher = true ∧ m'.registers.holds .lessThan = true ∧
        countUnlessLess.execute m' = .ok () m' ∧
        ∃ k', setIfLess.execute m' = .ok () k' ∧
          (k'.registers.readData 1).setWidth 8 = (0xFF : Byte) := by
  obtain ⟨m', h⟩ : ∃ m', compareWords.execute aboutToCompare = .ok () m' := ⟨_, rfl⟩
  have hvalues : compareWords.compared? aboutToCompare = some ⟨.word, 0x8000, 0x7FFF⟩ := rfl
  obtain ⟨v, hcompared, _, horder⟩ := branch_after_compare (by decide) h
  obtain rfl := Option.some.inj (hcompared.symm.trans hvalues)
  have hhigher := horder .higher true (by decide)
  obtain ⟨hless, hfollow⟩ := horder .lessThan true (by decide)
  have hloop := (hfollow countUnlessLess m' rfl (by decide)).2.2 rfl
  obtain ⟨hset, hbyte⟩ := (hfollow setIfLess m' rfl (by decide)).2.1 rfl
  obtain ⟨k', hk'⟩ : ∃ k', setIfLess.execute m' = .ok () k' := ⟨_, hset⟩
  obtain ⟨operand, r, hfield, hones⟩ := hbyte k' hk'
  have hregister : m'.registers.fieldOperand? setIfLess.destination .byte =
      some (.data 1, m'.registers) := rfl
  cases hregister.symm.trans hfield
  exact ⟨rfl, rfl, rfl, m', h, hhigher.1, hless, hloop.1, k', hk', hones⟩

end Instruction

end Mc68000
