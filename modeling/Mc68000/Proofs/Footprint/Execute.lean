import Mc68000.Proofs.Footprint.Operations

/-!
# Footprint of an instruction

The two tables of the whole instruction set, and that execution keeps to them.

* `Operation.touches` -- the parts that an operation may change when it succeeds;
* `Operation.leaves` -- the parts that it may have changed when it traps;
* `Instruction.touches_execute` -- **every instruction keeps to both**;
* `Operation.isPrivileged` -- the operations that reach what only supervisor mode may change;
* `Instruction.execute_of_user` -- **in user mode they trap and change nothing**.
-/

namespace Mc68000

open Status

/-! ## 1. The tables -/

namespace Operation

/-- The parts that an operation may change when it succeeds. The program counter is only among them
    where the operation itself writes it. -/
def touches : Operation → List Part
  | logicToCcr _ => [.flags conditions]
  | logicToSr _ => [.system]
  | logicImmediate _ | logic _ | not => [.data, .address, .memory, .flags nzvc]
  | tst => [.address, .flags nzvc]
  | tas => [.data, .address, .memory, .flags nzvc]
  | bitStatic op | bitDynamic op => .address :: op.touches
  | arithImmediate op | arith op => .address :: op.touches
  | arithAddress _ => [.address, .flags nzvc]
  | arithQuick op => .address :: op.arith.touches
  | arithExtended _ => [.data, .address, .memory, .flags conditions]
  | cmpm => [.address, .flags nzvc]
  | neg | negx => [.data, .address, .memory, .flags conditions]
  | multiply _ | divide _ => [.data, .address, .flags nzvc]
  | decimal _ | nbcd => [.data, .address, .memory, .flags PackedDecimal.mask]
  | shiftMemory kind _ => [.address, .memory, .flags kind.mask]
  | shiftRegister kind _ => [.data, .flags kind.mask]
  | move => [.data, .address, .memory, .flags nzvc]
  | movea => [.address]
  | moveq => [.data, .flags nzvc]
  | moveFromSr => [.data, .address, .memory]
  | moveToCcr => [.address, .flags conditions]
  | moveToSr | moveUsp => [.address, .system]
  | movep => [.data, .memory]
  | movem => [.data, .address, .memory]
  | clr => [.data, .address, .memory, .flags nzvc]
  | ext | swap => [.data, .flags nzvc]
  | exg => [.data, .address]
  | lea => [.address]
  | pea | link => [.memory, .address]
  | unlk => [.address]
  | scc => [.data, .address, .memory]
  | bra | bcc | jmp => [.pc]
  | bsr | jsr => [.memory, .address, .callDepth, .pc]
  | dbcc => [.data, .pc]
  | rts => [.address, .pc, .callDepth, .finish]
  | rtr => [.address, .pc, .flags conditions, .callDepth]
  | rte => [.address, .pc, .system]
  | stop => [.system]
  | chk => [.address]
  | trap | trapv | illegal | reset | nop => []

/-- The parts that an operation may have changed when it traps. -/
def leaves : Operation → List Part
  | tas => [.address, .flags nzvc]
  | bitStatic op | bitDynamic op => .address :: op.leaves
  | chk => [.address, .flags negative]
  | movep => [.memory]
  | movem => [.data, .address, .memory]
  | _ => [.address]

/-- The flags that an operation may have set when it traps. -/
def trapFlags : Operation → Word
  | chk => negative
  | tas => nzvc
  | bitStatic .test | bitDynamic .test => 0
  | bitStatic _ | bitDynamic _ => zero
  | _ => 0

/-- The operations that only supervisor mode may execute. -/
def isPrivileged : Operation → Bool
  | logicToSr _ | moveToSr | moveUsp | rte | stop | reset => true
  | _ => false

theorem system_not_mem_touches {op : Operation} (h : op.isPrivileged = false) :
    Part.system ∉ op.touches := by
  cases op with
  | logicToSr | moveToSr | moveUsp | rte | stop | reset => cases h
  | bitStatic op | bitDynamic op => cases op <;> simp [touches]
  | arithImmediate op | arith op => cases op <;> simp [touches]
  | arithQuick op => cases op <;> simp [touches, AddSub.arith]
  | _ => simp [touches]

/-- **Everything a trap can leave behind**: address registers, flags of three kinds of operations,
    and the transfers of two more. -/
theorem mem_leaves {op : Operation} {p : Part} (h : p ∈ op.leaves) :
    p = .address ∨ (∃ bits, p = .flags bits ∧ bits &&& op.trapFlags = bits) ∨
      (p = .memory ∧ (op = .movem ∨ op = .movep)) ∨ (p = .data ∧ op = .movem) := by
  cases op with
  | tas | chk =>
    simp only [leaves, List.mem_cons, List.not_mem_nil, or_false] at h
    obtain rfl | rfl := h
    · exact .inl rfl
    · exact .inr (.inl ⟨_, rfl, by decide⟩)
  | bitStatic op | bitDynamic op =>
    cases op with
    | test =>
      simp only [leaves, BitOp.leaves, List.mem_cons, List.not_mem_nil, or_false] at h
      exact .inl h
    | change | clear | set =>
      simp only [leaves, BitOp.leaves, List.mem_cons, List.not_mem_nil, or_false] at h
      obtain rfl | rfl := h
      · exact .inl rfl
      · exact .inr (.inl ⟨_, rfl, by decide⟩)
  | movep => exact .inr (.inr (.inl ⟨List.mem_singleton.mp h, .inr rfl⟩))
  | movem =>
    simp only [leaves, List.mem_cons, List.not_mem_nil, or_false] at h
    obtain rfl | rfl | rfl := h
    · exact .inr (.inr (.inr ⟨rfl, rfl⟩))
    · exact .inl rfl
    · exact .inr (.inr (.inl ⟨rfl, .inl rfl⟩))
  | _ => exact .inl (List.mem_singleton.mp h)

theorem system_not_mem_leaves (op : Operation) : Part.system ∉ op.leaves := by
  intro h
  simpa using mem_leaves h

end Operation

/-! ## 2. Execution -/

namespace Instruction

open Exec

/-- **Every instruction keeps to the tables.** -/
theorem touches_execute (i : Instruction) :
    Touches i.operation.touches i.operation.leaves i.execute := by
  unfold execute
  cases i.operation with
  | logicToCcr op => exact (commits_logicToCcr op i).safe
  | logicToSr op => exact (touches_logicToSr op i).widen
  | logicImmediate op => exact touches_logicImmediate op i
  | logic op => exact touches_logic op i
  | not => exact touches_not i
  | tst => exact touches_tst i
  | tas => exact touches_tas i
  | bitStatic op => exact touches_bit op _ i
  | bitDynamic op => exact touches_bitDynamic op i
  | arithImmediate op => exact touches_arithImmediate op i
  | arith op => exact touches_arith op i
  | arithAddress op => exact touches_arithAddress op i
  | arithQuick op => exact touches_arithQuick op.arith i
  | arithExtended op => exact touches_arithExtended op i
  | cmpm => exact touches_cmpm i
  | neg => exact touches_neg i
  | negx => exact touches_negx i
  | multiply s => exact touches_multiply s i
  | divide s => exact touches_divide s i
  | decimal op => exact touches_decimal op i
  | nbcd => exact touches_nbcd i
  | shiftMemory kind direction => exact touches_shiftMemory kind direction i
  | shiftRegister kind direction =>
    exact (commits_shiftRegister kind direction i).safe
  | move => exact touches_move i
  | movea => exact touches_movea i
  | moveq => exact (commits_moveq i).safe
  | moveFromSr => exact touches_moveFromSr i
  | moveToCcr => exact touches_moveToCcr i
  | moveToSr => exact touches_moveToSr i
  | moveUsp => exact (touches_moveUsp i).widen
  | movep => exact touches_movep i
  | movem => exact touches_movem i
  | clr => exact touches_clr i
  | ext => exact (commits_ext i).safe
  | swap => exact (commits_swap i).safe
  | exg => exact (touches_exg i).widen
  | lea => exact (touches_lea i).widen
  | pea => exact (touches_pea i).widen
  | link => exact (touches_link i).widen
  | unlk => exact touches_unlk i
  | scc => exact touches_scc i
  | bra => exact (commits_branch i _).safe
  | bsr => exact (touches_bsr i).widen
  | bcc => exact (commits_bcc i).safe
  | dbcc => exact (commits_dbcc i).safe
  | jmp => exact (touches_jmp i).widen
  | jsr => exact (touches_jsr i).widen
  | rts => exact touches_rts.widen
  | rtr => exact touches_rtr
  | rte => exact touches_rte
  | trap => exact (touches_trap i).widen
  | trapv => exact touches_trapv.widen
  | illegal => exact touches_throw _
  | chk => exact touches_chk i
  | stop => exact (touches_stop i).widen
  | reset => exact touches_reset.widen
  | nop => exact .pure ()

/-- **In user mode a privileged operation traps before it does anything else.** -/
theorem execute_of_user {i : Instruction} (hp : i.operation.isPrivileged = true) {m : Machine}
    (hu : m.registers.isSupervisor = false) : i.execute m = .error .privilegeViolation m := by
  have hbind {β : Type} (f : Unit → Exec β) :
      (requireSupervisor >>= f) m = .error .privilegeViolation m := by
    rw [run_bind, requireSupervisor_of_user hu]
  unfold execute
  cases hop : i.operation with
  | logicToSr | moveToSr | moveUsp | rte | stop => exact hbind _
  | reset => exact requireSupervisor_of_user hu
  | _ => rw [hop] at hp; cases hp

end Instruction

end Mc68000
