import Mc68000.Proofs.Comparison

/-!
# Execution forward

What an instruction does, from where its operand fields lead and what is there.

* `Exec.bind_eq` -- an action behind one that succeeds;
* `Exec.source_of_field`, `destination_of_field`, `read_of_value?` -- operands found and read;
* `Instruction.execute_move` … `execute_tst` -- **operations whose operands are known**.
-/

namespace Mc68000

namespace Exec

variable {α β : Type} {m m' : Machine}

/-- Behind an action that succeeds the rest goes on. -/
theorem bind_eq {x : Exec α} {f : α → Exec β} {a : α} (h : x m = .ok a m') :
    (x >>= f) m = f a m' := by
  rw [run_bind, h]

theorem source_of_field {i : Instruction} {operand : Operand} {r : Registers}
    (h : m.registers.fieldOperand? i.source i.size = some (operand, r)) :
    source i m = .ok operand { m with registers := r } := by
  unfold source
  rw [resolve_eq, h]

theorem destination_of_field {i : Instruction} {operand : Operand} {r : Registers}
    (h : m.registers.fieldOperand? i.destination i.size = some (operand, r)) :
    destination i m = .ok operand { m with registers := r } := by
  unfold destination
  rw [resolve_eq, h]

theorem read_of_value? {operand : Operand} {size : Size} {r : Registers} {v : Long}
    (h : operand.value? size r m.memory = some v) :
    read operand size { m with registers := r } = .ok v { m with registers := r } := by
  rw [read_eq_value?, h]

/-- A write to memory that is allowed. -/
theorem write_memory {a : Address} {size : Size} (v : Long)
    (h : accessible a size m.memory.capacity = true) :
    write (.memory a) size v m = .ok () { m with memory := m.memory.store a.toNat size v } := by
  show (if accessible a size m.memory.capacity then _ else _) = _
  rw [if_pos h]

end Exec

namespace Instruction

open Exec

variable {i : Instruction} {m m' : Machine} {src dst : Operand} {r r' : Registers} {v : Long}

/-- The registers with the flags of a result. -/
def withLogical (i : Instruction) (v : Long) (r : Registers) : Registers :=
  { r with sr := (FlagChange.logical v).apply i.size r.sr }

theorem execute_move (hop : i.operation = .move)
    (hsource : m.registers.fieldOperand? i.source i.size = some (src, r))
    (hvalue : src.value? i.size r m.memory = some v)
    (hdestination : r.fieldOperand? i.destination i.size = some (dst, r'))
    (hwrite : Exec.write dst i.size v { m with registers := r' } = .ok () m') :
    i.execute m = .ok () { m' with registers := i.withLogical v m'.registers } := by
  unfold execute
  rw [hop]
  show (Exec.source i >>= _) m = _
  rw [bind_eq (source_of_field hsource), bind_eq (read_of_value? hvalue),
    bind_eq (destination_of_field hdestination), bind_eq hwrite]
  rfl

theorem execute_movea (hop : i.operation = .movea)
    (hsource : m.registers.fieldOperand? i.source i.size = some (src, r))
    (hvalue : src.value? i.size r m.memory = some v) :
    i.execute m = .ok ()
      { m with registers := r.writeAddress i.highRegister (i.size.signExtend v) .long } := by
  unfold execute
  rw [hop]
  show (Exec.source i >>= _) m = _
  rw [bind_eq (source_of_field hsource), bind_eq (read_of_value? hvalue)]
  rfl

theorem execute_lea {a : Address} (hop : i.operation = .lea)
    (hsource : Exec.control i.source m = .ok a m) :
    i.execute m = .ok ()
      { m with registers := m.registers.writeAddress i.highRegister a .long } := by
  unfold execute
  rw [hop]
  show (control i.source >>= _) m = _
  rw [bind_eq hsource]
  rfl

theorem execute_clr (hop : i.operation = .clr)
    (hdestination : m.registers.fieldOperand? i.destination i.size = some (dst, r))
    (hwrite : Exec.write dst i.size 0 { m with registers := r } = .ok () m') :
    i.execute m = .ok () { m' with registers := i.withLogical 0 m'.registers } := by
  unfold execute
  rw [hop]
  show (Exec.destination i >>= _) m = _
  rw [bind_eq (destination_of_field hdestination), bind_eq hwrite]
  rfl

theorem execute_tst (hop : i.operation = .tst)
    (hdestination : m.registers.fieldOperand? i.destination i.size = some (dst, r))
    (hvalue : dst.value? i.size r m.memory = some v) :
    i.execute m = .ok () { m with registers := i.withLogical v r } := by
  unfold execute
  rw [hop]
  show (Exec.destination i >>= _) m = _
  rw [bind_eq (destination_of_field hdestination), bind_eq (read_of_value? hvalue)]
  rfl

/-- A comparison with a data register. -/
theorem execute_cmp (hop : i.operation = .arith .cmp)
    (hdestination : m.registers.fieldOperand? i.destination i.size = some (src, r))
    (hvalue : src.value? i.size r m.memory = some v) :
    i.execute m = .ok ()
      { m with registers :=
        { r with sr := (⟨i.size, i.size.truncate (r.readData i.highRegister), v⟩ :
          Comparison).status r.sr } } := by
  unfold execute
  rw [hop]
  show (Exec.destination i >>= fun src => combine .cmp src (.data i.highRegister) i.size) m = _
  rw [bind_eq (destination_of_field hdestination)]
  show (Exec.read src i.size >>= _) _ = _
  rw [bind_eq (read_of_value? hvalue)]
  show EStateM.Result.ok () { m with registers :=
    { r with sr := FlagChange.apply (.compare v _ (i.size.truncate
      (ArithOp.cmp.compute (i.size.truncate (r.readData i.highRegister)) v 0))) i.size r.sr } } = _
  rw [ArithOp.compute_cmp]
  rfl

/-- A comparison with an address register. -/
theorem execute_cmpa (hop : i.operation = .arithAddress .cmp)
    (hsource : m.registers.fieldOperand? i.source i.size = some (src, r))
    (hvalue : src.value? i.size r m.memory = some v) :
    i.execute m = .ok ()
      { m with registers :=
        { r with sr := (⟨.long, r.readAddress i.highRegister, i.size.signExtend v⟩ :
          Comparison).status r.sr } } := by
  unfold execute
  rw [hop]
  show (Exec.source i >>= _) m = _
  rw [bind_eq (source_of_field hsource), bind_eq (read_of_value? hvalue)]
  show EStateM.Result.ok () { m with registers :=
    { r with sr := FlagChange.apply (.compare (i.size.signExtend v) _
      (ArithOp.cmp.compute (r.readAddress i.highRegister) (i.size.signExtend v) 0)) .long r.sr } } =
    _
  rw [ArithOp.compute_cmp]
  unfold Comparison.status
  dsimp only
  rw [Size.truncate_long]

/-- A small literal added to a data register. -/
theorem execute_addq {n : Fin 8} (hop : i.operation = .arithQuick .add)
    (hdestination : m.registers.fieldOperand? i.destination i.size = some (.data n, r)) :
    ∃ change : FlagChange, i.execute m = .ok ()
      { m with registers :=
        { r.writeData n (i.size.truncate (i.size.truncate (r.readData n) +
            i.size.truncate (BitVec.ofNat 32 i.quickValue))) i.size with
          sr := change.apply i.size r.sr } } := by
  have hrest : i.execute m = combine .add (.immediate (BitVec.ofNat 32 i.quickValue)) (.data n)
      i.size { m with registers := r } := by
    unfold execute
    rw [hop]
    show (Exec.destination i >>= _) m = _
    rw [bind_eq (destination_of_field hdestination)]
    rfl
  have hsum : i.size.truncate (r.readData n) + i.size.truncate (BitVec.ofNat 32 i.quickValue) =
      ArithOp.add.compute (i.size.truncate (r.readData n))
        (i.size.truncate (BitVec.ofNat 32 i.quickValue)) 0 := (BitVec.add_zero _).symm
  rw [hrest, hsum]
  exact ⟨_, rfl⟩

end Instruction

end Mc68000
