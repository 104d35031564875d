import Mc68000.Proofs.Carries
import Mc68000.Proofs.Execution
import Mc68000.Proofs.ReadBack
import Mc68000.Proofs.TrapCauses

/-!
# Addition, subtraction and negation are those of the integers

`ADD`, `ADDI`, `ADDQ` and `ADDX` add two operands, `SUB`, `SUBI`, `SUBQ` and `SUBX` subtract one
from the other, and `NEG` and `NEGX` from zero.

* `Combination` -- two operands, the place of their total and the carry among them;
* `Instruction.combination?` -- what an instruction combines, read off its words and the registers;
* `Combination.run` -- one program for all of them;
* `Instruction.execute_eq_run` -- **each of the instructions is that program**, but for an address
  register as a whole;
* `Combination.total_of_run` -- what the program leaves;
* `Instruction.total_of_execute` -- **each instruction leaves the total of the integers.**
-/

namespace Mc68000

open Status

/-! ## 1. What is combined -/

/-- The sum or the difference of which an operation keeps the result. -/
def ArithOp.addSub? : ArithOp → Option AddSub
  | add => some .add
  | sub => some .sub
  | cmp => none

/-- The sum or the difference that an operation takes of operands of any size. -/
def Operation.addSub? : Operation → Option AddSub
  | .arith op | .arithImmediate op => op.addSub?
  | .arithQuick op | .arithExtended op => some op
  | .neg | .negx => some .sub
  | _ => none

/-- A sum or a difference of two operands. -/
structure Combination where
  op : AddSub
  /-- What is added or subtracted. -/
  source : Operand
  /-- What it is added to or subtracted from. -/
  destination : Operand
  /-- The place of the result. -/
  target : Operand
  /-- Whether one more is added or subtracted. -/
  extend : Bool

namespace Combination

/-- A total that goes where its second operand was. -/
def into (op : AddSub) (source destination : Operand) (extend : Bool) : Combination :=
  { op, source, destination, target := destination, extend }

/-- A total from zero that goes where its only operand was. -/
def fromZero (op : AddSub) (operand : Operand) (extend : Bool) : Combination :=
  { op, source := operand, destination := .immediate 0, target := operand, extend }

/-- The low bits of the total of two values. -/
def result (c : Combination) (size : Size) (d s : Long) : Long :=
  size.truncate (c.op.arith.compute d s (if c.extend then 1 else 0))

/-- Reads both operands and writes their total. The flags change last. -/
def run (c : Combination) (size : Size) : Exec Unit := do
  let s ← Exec.read c.source size
  let d ← Exec.read c.destination size
  Exec.write c.target size (c.result size d s)
  Exec.changeFlags (c.op.arith.flags s d (c.result size d s)) size

end Combination

/-- The operands of an extended operation, and the registers after it has moved its own. -/
def Instruction.extendedOperands (i : Instruction) (r : Registers) :
    Operand × Operand × Registers :=
  if i.opcode.getLsbD 3 then
    let below := r.decrement i.lowRegister i.size
    let belowBoth := below.decrement i.highRegister i.size
    (.memory (below.readAddress i.lowRegister), .memory (belowBoth.readAddress i.highRegister),
      belowBoth)
  else (.data i.lowRegister, .data i.highRegister, r)

/-- What an instruction combines with the operand that its field leads to. -/
def Instruction.fieldCombination (i : Instruction) (op : AddSub) (operand : Operand) (x : Bool) :
    Combination :=
  let dn := Operand.data i.highRegister
  match i.operation with
  | .arith _ => if i.opcode.getLsbD 8 then .into op dn operand false else .into op operand dn false
  | .arithImmediate _ => .into op (Exec.literal i) operand false
  | .arithQuick _ => .into op (.immediate (BitVec.ofNat 32 i.quickValue)) operand false
  | .negx => .fromZero op operand x
  | _ => .fromZero op operand false

/-- What an instruction combines, and the registers after its fields have moved theirs. -/
def Instruction.combination? (i : Instruction) (r : Registers) :
    Option (Combination × Registers) :=
  let x := r.flag Status.extend
  i.operation.addSub?.bind fun op =>
    match i.operation with
    | .arithExtended _ =>
      let (src, dst, r) := i.extendedOperands r
      some (.into op src dst x, r)
    | _ => (r.fieldOperand? i.destination i.size).map fun (operand, r) =>
        (i.fieldCombination op operand x, r)

/-! ## 2. One program -/

namespace Exec

variable {m m' : Machine} {r : Registers} {operand : Operand}

/-- Behind an operand that is read the rest goes on with its value. -/
theorem read_bind {β : Type} (operand : Operand) (size : Size) (f : Long → Exec β) (m : Machine) :
    (read operand size >>= f) m =
      match operand.value? size m.registers m.memory with
      | some v => f v m
      | none => .error .addressError m := by
  rw [run_bind, read_eq_value?]
  cases operand.value? size m.registers m.memory <;> rfl

theorem combine_eq_run (op : AddSub) (src dst : Operand) (size : Size) :
    combine op.arith src dst size = (Combination.into op src dst false).run size := by
  cases op <;> rfl

theorem arith_eq_bind (op : AddSub) (i : Instruction) :
    arith op.arith i = operandPair i >>= fun pair => combine op.arith pair.1 pair.2 i.size := by
  cases op <;> rfl

theorem arith_eq_run {i : Instruction} (op : AddSub)
    (h : m.registers.fieldOperand? i.destination i.size = some (operand, r)) :
    arith op.arith i m =
      (if i.opcode.getLsbD 8 then Combination.into op (.data i.highRegister) operand false
        else .into op operand (.data i.highRegister) false).run i.size
          { m with registers := r } := by
  have hoperands : operandPair i m = .ok
      (if i.opcode.getLsbD 8 then (.data i.highRegister, operand)
        else (operand, .data i.highRegister)) { m with registers := r } := by
    unfold operandPair
    rw [bind_eq (destination_of_field h)]
    split <;> rfl
  rw [arith_eq_bind, bind_eq hoperands, combine_eq_run]
  split <;> rfl

theorem arithImmediate_eq_run {i : Instruction} (op : AddSub)
    (h : m.registers.fieldOperand? i.destination i.size = some (operand, r)) :
    arithImmediate op.arith i m =
      (Combination.into op (literal i) operand false).run i.size { m with registers := r } := by
  unfold arithImmediate
  rw [bind_eq (destination_of_field h), combine_eq_run]

/-- An address register is changed as a whole, and by another program. -/
theorem arithQuick_eq_run {i : Instruction} (op : AddSub)
    (h : m.registers.fieldOperand? i.destination i.size = some (operand, r))
    (hplain : ∀ k, operand ≠ .address k) :
    arithQuick op.arith i m =
      (Combination.into op (.immediate (BitVec.ofNat 32 i.quickValue)) operand false).run i.size
        { m with registers := r } := by
  unfold arithQuick
  rw [bind_eq (destination_of_field h), ← combine_eq_run]
  cases operand with
  | register reg =>
    cases reg with
    | data n => rfl
    | address k => exact absurd rfl (hplain k)
  | memory a => rfl
  | immediate v => rfl

theorem arithExtended_eq_run {src dst : Operand} {i : Instruction} (op : AddSub)
    (h : i.extendedOperands m.registers = (src, dst, r)) :
    arithExtended op.arith i m =
      (Combination.into op src dst (m.registers.flag Status.extend)).run i.size
        { m with registers := r } := by
  have hpair : extendedPair i i.size m = .ok (src, dst) { m with registers := r } := by
    unfold extendedPair
    unfold Instruction.extendedOperands at h
    split at h <;> rename_i hbit <;> simp only [hbit] <;> cases h <;> rfl
  have hflag : m.registers.flag Status.extend = r.flag Status.extend := by
    have hsr : r.sr = m.registers.sr := by
      unfold Instruction.extendedOperands at h
      split at h <;> cases h
      · exact (Registers.sr_writeAddress ..).trans (Registers.sr_writeAddress ..)
      · rfl
    unfold Registers.flag
    rw [hsr]
  unfold arithExtended Combination.into Combination.run
  rw [bind_eq hpair, hflag]
  simp only [read_bind]
  rfl

/-- The flags of a negation are those of a difference from zero. -/
theorem neg_eq_run {i : Instruction}
    (h : m.registers.fieldOperand? i.destination i.size = some (operand, r)) :
    neg i m = (Combination.fromZero .sub operand false).run i.size { m with registers := r } := by
  have hzero : i.size.truncate 0 = 0 := by cases i.size <;> rfl
  have hresult (v : Long) : AddSub.sub.arith.compute 0 v (if false then 1 else 0) = 0 - v :=
    BitVec.sub_zero _
  have hflags (v : Long) : (FlagChange.negate v (i.size.truncate (0 - v))).apply i.size =
      (AddSub.sub.arith.flags v 0 (i.size.truncate (0 - v))).apply i.size := by
    funext sr
    rw [FlagChange.apply_negate, FlagChange.apply_negateExtended]
    rfl
  unfold neg Combination.fromZero Combination.run Combination.result changeFlags
  rw [bind_eq (destination_of_field h)]
  simp only [read_bind, Operand.value?, hzero, hresult, hflags]

theorem negx_eq_run {i : Instruction}
    (h : m.registers.fieldOperand? i.destination i.size = some (operand, r)) :
    negx i m = (Combination.fromZero .sub operand (m.registers.flag Status.extend)).run i.size
      { m with registers := r } := by
  have hzero : i.size.truncate 0 = 0 := by cases i.size <;> rfl
  have hflags (v result : Long) : (FlagChange.negateExtended v result).apply i.size =
      (AddSub.sub.arith.flags v 0 result).apply i.size :=
    funext fun sr => FlagChange.apply_negateExtended i.size v result sr
  have hflag : m.registers.flag Status.extend = r.flag Status.extend := by
    have hsr := (fieldOperand?_of_resolve (destination_of_field h)).2.2
    unfold Registers.flag
    rw [← hsr]
  unfold negx Combination.fromZero Combination.run changeFlags
  rw [bind_eq (destination_of_field h), hflag]
  simp only [read_bind, Operand.value?, hzero, hflags]
  rfl

end Exec

namespace Instruction

open Exec

variable {i : Instruction} {m m' : Machine} {c : Combination} {r : Registers} {op : AddSub}

theorem arith_of_addSub? {a : ArithOp} (h : a.addSub? = some op) : a = op.arith := by
  cases a <;> cases h <;> rfl

/-- **Each of the instructions is the one program**, unless it changes an address register as a
    whole. -/
theorem execute_eq_run (h : i.combination? m.registers = some (c, r))
    (htarget : ∀ k, c.target ≠ .address k) :
    i.execute m = c.run i.size { m with registers := r } := by
  unfold combination? fieldCombination at h
  obtain ⟨op, hop, h⟩ := Option.bind_eq_some_iff.mp h
  unfold execute
  generalize i.operation = operation at hop h ⊢
  cases operation with
  | arithExtended op' =>
    cases hop
    cases h
    exact arithExtended_eq_run op rfl
  | arith a =>
    obtain rfl := arith_of_addSub? hop
    obtain ⟨⟨operand, r'⟩, hfield, ⟨⟩⟩ := Option.map_eq_some_iff.mp h
    exact arith_eq_run op hfield
  | arithImmediate a =>
    obtain rfl := arith_of_addSub? hop
    obtain ⟨⟨operand, r'⟩, hfield, ⟨⟩⟩ := Option.map_eq_some_iff.mp h
    exact arithImmediate_eq_run op hfield
  | arithQuick op' =>
    cases hop
    obtain ⟨⟨operand, r'⟩, hfield, ⟨⟩⟩ := Option.map_eq_some_iff.mp h
    exact arithQuick_eq_run op hfield htarget
  | neg =>
    cases hop
    obtain ⟨⟨operand, r'⟩, hfield, ⟨⟩⟩ := Option.map_eq_some_iff.mp h
    exact neg_eq_run hfield
  | negx =>
    cases hop
    obtain ⟨⟨operand, r'⟩, hfield, ⟨⟩⟩ := Option.map_eq_some_iff.mp h
    exact negx_eq_run hfield
  | _ => cases hop

theorem op_fieldCombination (i : Instruction) (op : AddSub) (operand : Operand) (x : Bool) :
    (i.fieldCombination op operand x).op = op := by
  unfold fieldCombination
  dsimp only
  split
  · split <;> rfl
  all_goals rfl

/-- One of the instructions that succeeds combines something. -/
theorem combination?_of_execute (hop : i.operation.addSub? = some op)
    (h : i.execute m = .ok () m') :
    ∃ c r, i.combination? m.registers = some (c, r) ∧ c.op = op := by
  have hfield {β : Type} {b : β} {x : Operand → Exec β} {m₁ : Machine}
      (hx : (Exec.destination i >>= x) m = .ok b m₁) :
      ∃ c r, ((m.registers.fieldOperand? i.destination i.size).map fun (operand, r) =>
        (i.fieldCombination op operand (m.registers.flag Status.extend), r)) = some (c, r) ∧
          c.op = op := by
    obtain ⟨operand, m₂, hres, -⟩ := bind_ok hx
    rw [(fieldOperand?_of_resolve hres).1]
    exact ⟨_, _, rfl, op_fieldCombination ..⟩
  unfold combination?
  rw [hop]
  unfold execute at h
  generalize i.operation = operation at hop h ⊢
  cases operation with
  | arith a =>
    obtain rfl := arith_of_addSub? hop
    dsimp only at h
    rw [arith_eq_bind] at h
    obtain ⟨pair, m₁, hpair, -⟩ := bind_ok h
    exact hfield hpair
  | arithExtended op' =>
    cases hop
    exact ⟨_, _, rfl, rfl⟩
  | arithImmediate a | arithQuick op' | neg | negx => exact hfield h
  | _ => cases hop

end Instruction

/-! ## 3. What is left -/

namespace Operand

variable {operand : Operand} {size : Size} {r : Registers} {memory : Memory} {v : Long}

theorem truncate_of_value? (h : operand.value? size r memory = some v) : size.truncate v = v := by
  unfold value? at h
  cases operand with
  | register reg => cases h; exact Size.truncate_truncate ..
  | immediate w => cases h; exact Size.truncate_truncate ..
  | memory a =>
    dsimp only at h
    unfold Memory.read at h
    split at h <;> cases h
    exact Memory.truncate_fetch ..

end Operand

namespace Exec

variable {operand : Operand} {size : Size} {v : Long} {m m' : Machine}

/-- **What is written reads back**, whatever becomes of the flags, and a data register keeps its
    other bits. -/
theorem value?_of_write (h : write operand size v m = .ok () m')
    (hplain : ∀ k, operand ≠ .address k) :
    m'.registers.sr = m.registers.sr ∧
      (∀ sr, operand.value? size { m'.registers with sr } m'.memory = some (size.truncate v)) ∧
      ∀ n, operand = .data n →
        m'.registers.readData n = size.merge (m.registers.readData n) v := by
  cases operand with
  | immediate w => cases h
  | memory a =>
    unfold write writeMemory at h
    dsimp only at h
    split at h <;> cases h
    refine ⟨rfl, fun sr => ?_, fun n hn => by cases hn⟩
    show ((m.memory.store a.toNat size v).read a size).toOption = _
    rw [Memory.read_store ‹_›]
    rfl
  | register reg =>
    cases reg with
    | address k => exact absurd rfl (hplain k)
    | data n =>
      cases h
      have hread : (m.registers.writeData n v size).readData n =
          size.merge (m.registers.readData n) v := by
        rw [Registers.readData_writeData, if_pos rfl]
      refine ⟨rfl, fun sr => ?_, fun k hk => ?_⟩
      · exact congrArg some ((congrArg size.truncate hread).trans (size.truncate_merge _ _))
      · cases hk
        exact hread

end Exec

namespace Combination

open Exec

variable {c : Combination} {size : Size} {m m' : Machine}

/-- The program ends well exactly if both operands can be read and the target can be written. -/
theorem run_cases (h : c.run size m = .ok () m') :
    ∃ s d m₁, c.source.value? size m.registers m.memory = some s ∧
      c.destination.value? size m.registers m.memory = some d ∧
      Exec.write c.target size (c.result size d s) m = .ok () m₁ ∧
      m' = { m₁ with registers := { m₁.registers with
        sr := (c.op.arith.flags s d (c.result size d s)).apply size m₁.registers.sr } } := by
  unfold run at h
  rw [read_bind] at h
  cases hs : c.source.value? size m.registers m.memory with
  | none => rw [hs] at h; cases h
  | some s =>
    rw [hs] at h
    dsimp only at h
    rw [read_bind] at h
    cases hd : c.destination.value? size m.registers m.memory with
    | none => rw [hd] at h; cases h
    | some d =>
      rw [hd] at h
      obtain ⟨⟨⟩, m₁, hw, hflags⟩ := bind_ok h
      cases hflags
      exact ⟨s, d, m₁, rfl, rfl, hw, rfl⟩

/-- It does so if the target is in memory and may be accessed. -/
theorem run_into_memory {op : AddSub} {src : Operand} {a : Address} {x : Bool} {s : Long}
    (hs : src.value? size m.registers m.memory = some s)
    (ha : accessible a size m.memory.capacity = true) :
    ∃ m' v sr, (Combination.into op src (.memory a) x).run size m = .ok () m' ∧
      m'.registers = { m.registers with sr } ∧ m'.memory = m.memory.store a.toNat size v := by
  have hd : (Operand.memory a).value? size m.registers m.memory =
      some (m.memory.fetch a.toNat size) :=
    congrArg Except.toOption (Memory.read_of_accessible ha)
  unfold run into
  rw [read_bind, hs]
  dsimp only
  rw [read_bind, hd]
  dsimp only
  rw [bind_eq (write_memory _ ha)]
  exact ⟨_, _, _, rfl, rfl, rfl⟩

/-- **The program leaves the total of the integers.** -/
theorem total_of_run (h : c.run size m = .ok () m') (htarget : ∀ k, c.target ≠ .address k) :
    ∃ s d v, c.source.value? size m.registers m.memory = some s ∧
      c.destination.value? size m.registers m.memory = some d ∧
      c.target.value? size m'.registers m'.memory = some v ∧
      c.op.Leaves size.bits d.toNat s.toNat c.extend v.toNat m'.registers.sr ∧
      hasFlag m'.registers.sr zero = decide (v = 0) ∧
      ∀ n, c.target = .data n →
        (m'.registers.readData n).toNat =
          size.count * ((m.registers.readData n).toNat / size.count) + v.toNat := by
  obtain ⟨s, d, m₁, hs, hd, hw, rfl⟩ := run_cases h
  obtain ⟨hsr, hvalue, hkept⟩ := value?_of_write hw htarget
  have hresult : size.truncate (c.result size d s) = c.result size d s :=
    size.truncate_truncate _
  have hs' : size.unsigned s = s.toNat := congrArg BitVec.toNat (Operand.truncate_of_value? hs)
  have hd' : size.unsigned d = d.toNat := congrArg BitVec.toNat (Operand.truncate_of_value? hd)
  obtain ⟨hleaves, hzero⟩ := AddSub.leaves_of_flags (v := c.result size d s) rfl m₁.registers.sr
  rw [hs', hd'] at hleaves
  refine ⟨s, d, c.result size d s, hs, hd, hresult ▸ hvalue _, hleaves, hzero, fun n hn => ?_⟩
  show (m₁.registers.readData n).toNat = _
  rw [hkept n hn, Size.toNat_merge]
  exact congrArg (_ + BitVec.toNat ·) hresult

end Combination

namespace Instruction

variable {i : Instruction} {m m' : Machine} {op : AddSub}

/-- Operand fields move no data register. -/
theorem readData_of_combination? {c : Combination} {r r' : Registers}
    (h : i.combination? r = some (c, r')) (n : Fin 8) : r'.readData n = r.readData n := by
  obtain ⟨op, -, h⟩ := Option.bind_eq_some_iff.mp h
  split at h
  · cases h
    show (i.extendedOperands r).2.2.readData n = _
    unfold extendedOperands
    split
    · exact (Registers.readData_writeAddress ..).trans (Registers.readData_writeAddress ..)
    · rfl
  · obtain ⟨⟨operand, r₁⟩, hfield, ⟨⟩⟩ := Option.map_eq_some_iff.mp h
    have hmoved : r.movedBy i.destination i.size = r' := by
      unfold Registers.movedBy
      rw [hfield]
      rfl
    rw [← hmoved, Registers.readData_movedBy]

/-- **Addition, subtraction and negation are those of the integers.** An instruction of them that
    succeeds reads its two operands behind its operand fields, and unless its target is an address
    register it leaves there their total with or without the extend flag, modulo its size; X and C
    are the carry of the total, V is its overflow, N is its top bit, and Z tells if it is zero. A
    data register keeps its bits above the size. -/
theorem total_of_execute (hop : i.operation.addSub? = some op) (h : i.execute m = .ok () m') :
    ∃ c r, i.combination? m.registers = some (c, r) ∧ c.op = op ∧
      ((∀ k, c.target ≠ .address k) →
        ∃ s d v, c.source.value? i.size r m.memory = some s ∧
          c.destination.value? i.size r m.memory = some d ∧
          c.target.value? i.size m'.registers m'.memory = some v ∧
          op.Leaves i.size.bits d.toNat s.toNat c.extend v.toNat m'.registers.sr ∧
          hasFlag m'.registers.sr zero = decide (v = 0) ∧
          ∀ n, c.target = .data n →
            (m'.registers.readData n).toNat =
              i.size.count * ((m.registers.readData n).toNat / i.size.count) + v.toNat) := by
  obtain ⟨c, r, hcombination, rfl⟩ := combination?_of_execute hop h
  refine ⟨c, r, hcombination, rfl, fun htarget => ?_⟩
  rw [execute_eq_run hcombination htarget] at h
  obtain ⟨s, d, v, hs, hd, hv, hleaves, hzero, hkept⟩ := Combination.total_of_run h htarget
  refine ⟨s, d, v, hs, hd, hv, hleaves, hzero, fun n hn => ?_⟩
  rw [hkept n hn, ← readData_of_combination? hcombination n]

/-- `ADDX.W -(A0),-(A1)`. -/
def addExtendedWords : Instruction :=
  { address := 4, opcode := 0xD348, operation := .arithExtended .add, size := .word
    extension := ⟨6, .none⟩, source := none, destination := none, length := 2 }

/-- A machine about to add 0, 32767 and an extend flag that is set. -/
def aboutToAdd : Machine :=
  { Machine.new { memoryBytes := 6, traceInstructions := false } with
    registers := { ((Registers.zeros.writeAddress 0 2 .long).writeAddress 1 4 .long).setPc 6 with
      sr := Status.extend }
    memory := (Memory.zeros 6).setBytes 0 [0x00, 0x00, 0x7F, 0xFF, 0xD3, 0x48]
    codeStart := 4
    codeEnd := 6 }

/-- The extend flag carries the total across the sign: it overflows and does not carry. -/
theorem total_of_execute_words :
    aboutToAdd.code.fetch 4 = .ok (some addExtendedWords) 6 ∧
      ∃ m', addExtendedWords.execute aboutToAdd = .ok () m' ∧
        (Operand.memory 2).value? .word m'.registers m'.memory = some 0x8000 ∧
        hasFlag m'.registers.sr overflow = true ∧ hasFlag m'.registers.sr carry = false := by
  obtain ⟨m', h⟩ : ∃ m', addExtendedWords.execute aboutToAdd = .ok () m' := ⟨_, rfl⟩
  obtain ⟨c, r, hcombination, -, htotal⟩ := total_of_execute rfl h
  obtain ⟨r', hwords⟩ : ∃ r', addExtendedWords.combination? aboutToAdd.registers =
      some (.into .add (.memory 0) (.memory 2) true, r') := ⟨_, rfl⟩
  obtain ⟨rfl, rfl⟩ := Prod.mk.inj (Option.some.inj (hcombination.symm.trans hwords))
  obtain ⟨s, d, v, hs, hd, hv, hleaves, -⟩ := htotal (fun k hk => by cases hk)
  obtain rfl : 0 = s := Option.some.inj hs
  obtain rfl : 0x7FFF = d := Option.some.inj hd
  have hresult : v = 0x8000 :=
    BitVec.eq_of_toNat_eq (Int.ofNat_inj.mp (hleaves.result_eq.trans (by decide)))
  exact ⟨rfl, m', h, hresult ▸ hv, hleaves.overflow_eq, hleaves.carry_eq⟩

end Instruction

end Mc68000
