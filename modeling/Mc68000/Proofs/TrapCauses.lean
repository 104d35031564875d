import Mc68000.Proofs.Comparison
import Mc68000.Proofs.OperandTraps
import Mc68000.Proofs.RunState
import Mc68000.Proofs.Runs

/-!
# Causes of traps

Beside the traps of its operands, an operation has at most one of its own, and the machine before
it tells whether it comes.

* `Instruction.sourceWord?` -- the word that a source field leads to;
* `Instruction.cause?` -- the trap of its own that an instruction ends in, read off the machine;
* `Exec.EndsIn` -- an action that ends in a given trap, or in none but those of operands;
* `Instruction.execute_error_iff` -- **a trap that is not one of operands comes exactly if it is
  that one**;
* `Instruction.eq_of_privilegeViolation` -- a privilege violation leaves the whole machine;
* `Instruction.stopped_execute` -- only a `STOP` that succeeds stops the machine;
* `Instruction.trap_causes` -- all of it, trap by trap.
-/

namespace Mc68000

open Status

/-! ## 1. The causes -/

namespace Instruction

/-- The word that the source field leads to, `none` if it cannot be read. -/
def sourceWord? (i : Instruction) (m : Machine) : Option Long := do
  let (operand, r) ← m.registers.fieldOperand? i.source i.size
  operand.value? .word r m.memory

/-- The number that `CHK` holds against its bound. -/
def checked (i : Instruction) (m : Machine) : Int :=
  Size.word.signed (m.registers.readData i.highRegister)

/-- Whether that number lies outside a bound. -/
def OutOfBounds (i : Instruction) (m : Machine) (bound : Long) : Prop :=
  i.checked m < 0 ∨ Size.word.signed bound < i.checked m

instance (i : Instruction) (m : Machine) (bound : Long) : Decidable (i.OutOfBounds m bound) :=
  inferInstanceAs (Decidable (_ ∨ _))

/-- The number of a `TRAP`, in the low four bits of the opcode. -/
def trapNumber (i : Instruction) : Byte := (i.opcode.setWidth 4).setWidth 8

/-- The trap of its own that an instruction ends in. -/
def cause? (i : Instruction) (m : Machine) : Option Trap :=
  match i.operation with
  | .logicToSr _ | .moveToSr | .moveUsp | .rte | .reset =>
    if m.registers.isSupervisor then none else some .privilegeViolation
  | .stop =>
    if m.registers.isSupervisor ∧ hasFlag i.extension.word supervisor then none
    else some .privilegeViolation
  | .divide _ => (i.sourceWord? m).bind fun divisor =>
    if divisor = 0 then some .divideByZero else none
  | .trapv => if m.registers.flag overflow then some .trapvOverflow else none
  | .chk => (i.sourceWord? m).bind fun bound =>
    if i.OutOfBounds m bound then some .chkBounds else none
  | .trap => some (.software i.trapNumber)
  | _ => none

end Instruction

/-! ## 2. Operations -/

theorem Registers.readData_movedBy (r : Registers) (ea? : Option EffectiveAddress) (size : Size)
    (n : Fin 8) : (r.movedBy ea? size).readData n = r.readData n := by
  unfold movedBy fieldOperand?
  rcases ea? with _ | ea
  · rfl
  · rw [Option.bind_some]
    rcases ea.mode? with _ | mode
    · rfl
    · cases mode with
      | postIncrement k => exact readData_writeAddress ..
      | preDecrement k => exact readData_writeAddress ..
      | _ => rfl

namespace Exec

variable {α : Type} {m : Machine} {x : Exec α} {i : Instruction}

/-- From `m` the action ends in the given trap, or in none but those of operands. -/
def EndsIn (m : Machine) : Option Trap → Exec α → Prop
  | some t, x => ∃ m', x m = .error t m'
  | none, x => ∀ t m', x m = .error t m' → t.isOperandTrap = true

theorem EndsIn.of_eq {m' : Machine} {y : Exec α} {cause : Option Trap} (h : x m = y m')
    (hy : EndsIn m' cause y) : EndsIn m cause x := by
  rcases cause with _ | t
  · intro t m₁ ht
    exact hy t m₁ (h ▸ ht)
  · obtain ⟨m₁, ht⟩ := hy
    exact ⟨m₁, h.trans ht⟩

theorem endsIn_of_plain [hx : Plain x] : EndsIn m none x := hx.isOperandTrap m

theorem requireSupervisor_of_supervisor (hs : m.registers.isSupervisor = true) :
    requireSupervisor m = .ok () m := by
  unfold requireSupervisor
  rw [run_bind]
  show (if m.registers.isSupervisor then (pure () : Exec Unit) else _) m = _
  rw [if_pos hs]
  rfl

theorem endsIn_requireSupervisor {f : Unit → Exec α} [hf : ∀ u, Plain (f u)] :
    EndsIn m (if m.registers.isSupervisor then none else some .privilegeViolation)
      (requireSupervisor >>= f) := by
  by_cases hs : m.registers.isSupervisor = true
  · rw [if_pos hs]
    intro t m' h
    rw [run_bind, requireSupervisor_of_supervisor hs] at h
    exact (hf ()).isOperandTrap m t m' h
  · rw [if_neg hs]
    have hu : m.registers.isSupervisor = false := Bool.eq_false_iff.mpr hs
    exact ⟨m, by rw [run_bind, requireSupervisor_of_user hu]⟩

theorem endsIn_reset :
    EndsIn m (if m.registers.isSupervisor then none else some .privilegeViolation) reset := by
  have hrest : EndsIn m _ (requireSupervisor >>= fun u => pure u) := endsIn_requireSupervisor
  rw [bind_pure] at hrest
  exact hrest

/-- What follows the word of the source field may depend on it. -/
theorem endsIn_sourceWord {g : Long → Exec α} {cause : Long → Option Trap}
    (hg : ∀ v, EndsIn { m with registers := m.registers.movedBy i.source i.size } (cause v) (g v)) :
    EndsIn m ((i.sourceWord? m).bind cause)
      (source i >>= fun src => read src .word >>= g) := by
  have hsource : source i m = _ := resolve_eq i.source i.size m
  unfold Instruction.sourceWord?
  unfold Registers.movedBy at hg
  rcases hfield : m.registers.fieldOperand? i.source i.size with _ | ⟨operand, r⟩
  · -- without an operand the instruction is refused
    intro t m' h
    rw [run_bind, hsource, hfield] at h
    cases h
    rfl
  · rw [hfield] at hsource hg
    have hread := read_eq_value? operand .word { m with registers := r }
    have hrun : (source i >>= fun src => read src .word >>= g) m =
        (read operand .word >>= g) { m with registers := r } := by rw [run_bind, hsource]
    refine .of_eq hrun ?_
    show EndsIn _ ((operand.value? .word r m.memory).bind cause) _
    rcases hvalue : operand.value? .word r m.memory with _ | v
    · rw [hvalue] at hread
      intro t m' h
      rw [run_bind, hread] at h
      cases h
      rfl
    · rw [hvalue] at hread
      have hrest : (read operand .word >>= g) { m with registers := r } =
          g v { m with registers := r } := by rw [run_bind, hread]
      exact .of_eq hrest (hg v)

theorem endsIn_divide (s : Signedness) :
    EndsIn m ((i.sourceWord? m).bind fun divisor =>
      if divisor = 0 then some .divideByZero else none)
      (divide s i) := by
  refine endsIn_sourceWord fun divisor => ?_
  by_cases h : divisor = 0
  · rw [if_pos h]
    subst h
    exact ⟨_, rfl⟩
  · rw [if_neg h, if_neg h]
    refine @endsIn_of_plain _ _ _ (.next fun dividend => ?_)
    dsimp only
    split <;> infer_instance

/-- The register that is held against the bound is not moved by the field of the bound. -/
theorem endsIn_chk :
    EndsIn m ((i.sourceWord? m).bind fun bound =>
      if i.OutOfBounds m bound then some .chkBounds else none) (chk i) := by
  refine endsIn_sourceWord fun bound => ?_
  have hchecked : (Size.word.signExtend
      ((m.registers.movedBy i.source i.size).readData i.highRegister)).toInt = i.checked m := by
    rw [Registers.readData_movedBy]
    rfl
  generalize m.registers.movedBy i.source i.size = r at hchecked
  have hrun : (do
      let v := (Size.word.signExtend (← readData i.highRegister)).toInt
      if v < 0 then
        setFlag negative true
        throw Trap.chkBounds
      if Size.word.signed bound < v then
        setFlag negative false
        throw Trap.chkBounds : Exec Unit) { m with registers := r } =
      (if i.checked m < 0 then do
          setFlag negative true
          throw Trap.chkBounds
        else if Size.word.signed bound < i.checked m then do
          setFlag negative false
          throw Trap.chkBounds
        else return ()) { m with registers := r } := by
    rw [← hchecked]
    rfl
  refine .of_eq hrun ?_
  by_cases hneg : i.checked m < 0
  · rw [if_pos (.inl hneg), if_pos hneg]
    exact ⟨_, rfl⟩
  · rw [if_neg hneg]
    by_cases hover : Size.word.signed bound < i.checked m
    · rw [if_pos (.inr hover), if_pos hover]
      exact ⟨_, rfl⟩
    · have hin : ¬ i.OutOfBounds m bound := fun h => h.elim hneg hover
      rw [if_neg hin, if_neg hover]
      exact endsIn_of_plain

theorem endsIn_trapv :
    EndsIn m (if m.registers.flag overflow then some .trapvOverflow else none) trapv := by
  have hrun : trapv m =
      (if m.registers.flag overflow then throw Trap.trapvOverflow else return () : Exec Unit) m :=
    rfl
  refine .of_eq hrun ?_
  by_cases hv : m.registers.flag overflow = true
  · rw [if_pos hv, if_pos hv]
    exact ⟨m, rfl⟩
  · rw [if_neg hv, if_neg hv]
    exact endsIn_of_plain

/-- In supervisor mode `STOP` is decided by the status register that it would load. -/
theorem stop_of_supervisor (hs : m.registers.isSupervisor = true) :
    stop i m =
      if hasFlag i.extension.word supervisor then
        .ok () { m with registers := m.registers.setSr i.extension.word, runState := .stopped }
      else .error .privilegeViolation m := by
  unfold stop
  rw [run_bind, requireSupervisor_of_supervisor hs]
  by_cases hsr : hasFlag i.extension.word supervisor = true
  · simp only [hsr]
    rfl
  · simp only [hsr]
    rfl

theorem endsIn_stop :
    EndsIn m (if m.registers.isSupervisor ∧ hasFlag i.extension.word supervisor then none
      else some .privilegeViolation) (stop i) := by
  by_cases hs : m.registers.isSupervisor = true
  · have hrun := stop_of_supervisor (i := i) hs
    by_cases hsr : hasFlag i.extension.word supervisor = true
    · rw [if_pos hsr] at hrun
      rw [if_pos ⟨hs, hsr⟩]
      intro t m' h
      rw [hrun] at h
      cases h
    · rw [if_neg hsr] at hrun
      rw [if_neg fun h => hsr h.2]
      exact ⟨m, hrun⟩
  · have hu : m.registers.isSupervisor = false := Bool.eq_false_iff.mpr hs
    rw [if_neg fun h => hs h.1]
    unfold stop
    exact ⟨m, by rw [run_bind, requireSupervisor_of_user hu]⟩

end Exec

/-! ## 3. Instructions -/

namespace Instruction

open Exec

variable {i : Instruction} {m m' : Machine} {t : Trap}

/-- **An instruction ends in its own trap exactly if the machine before it asks for it.** -/
theorem endsIn_execute (i : Instruction) (m : Machine) : EndsIn m (i.cause? m) i.execute := by
  by_cases hplain : i.operation.isPlain = true
  · have hx := plain_execute hplain
    have hcause : i.cause? m = none := by
      unfold cause?
      generalize i.operation = op at hplain
      cases op with
      | logicToSr | moveToSr | moveUsp | rte | reset | stop | divide | trapv | chk | trap =>
        cases hplain
      | _ => rfl
    rw [hcause]
    exact endsIn_of_plain
  · unfold cause? execute
    generalize i.operation = op at hplain
    cases op with
    | logicToSr op => exact endsIn_requireSupervisor
    | moveToSr => exact endsIn_requireSupervisor
    | moveUsp => exact endsIn_requireSupervisor
    | rte => exact endsIn_requireSupervisor
    | reset => exact endsIn_reset
    | stop => exact endsIn_stop
    | divide s => exact endsIn_divide s
    | trapv => exact endsIn_trapv
    | chk => exact endsIn_chk
    | trap => exact ⟨m, rfl⟩
    | _ => exact absurd rfl hplain

/-- **A trap that is not one of operands comes exactly if it is the cause.** -/
theorem execute_error_iff (ht : t.isOperandTrap = false) :
    (∃ m', i.execute m = .error t m') ↔ i.cause? m = some t := by
  have hends := i.endsIn_execute m
  constructor
  · rintro ⟨m', h⟩
    rcases hcause : i.cause? m with _ | t'
    · rw [hcause] at hends
      have htrap := hends t m' h
      rw [ht] at htrap
      cases htrap
    · rw [hcause] at hends
      obtain ⟨m₁, h'⟩ := hends
      rw [h] at h'
      cases h'
      rfl
  · intro hcause
    rw [hcause] at hends
    exact hends

/-! ## 4. Trap by trap -/

theorem hasFlag_supervisor (w : Word) : hasFlag w supervisor = w.getLsbD 13 := by
  have hbit : w &&& supervisor = if w.getLsbD 13 then supervisor else 0 := BitVec.and_twoPow w 13
  unfold hasFlag
  rw [hbit]
  cases w.getLsbD 13 <;> rfl

theorem privilegeViolation_iff : (∃ m', i.execute m = .error .privilegeViolation m') ↔
    (i.operation.isPrivileged = true ∧ m.registers.isSupervisor = false) ∨
      (i.operation = .stop ∧ m.registers.isSupervisor = true ∧
        i.extension.word.getLsbD 13 = false) := by
  rw [execute_error_iff rfl, ← hasFlag_supervisor]
  unfold cause?
  generalize i.operation = op
  cases hs : m.registers.isSupervisor <;> cases op <;>
    simp [Operation.isPrivileged, Option.bind_eq_some_iff]

theorem divideByZero_iff : (∃ m', i.execute m = .error .divideByZero m') ↔
    (∃ s, i.operation = .divide s) ∧ i.sourceWord? m = some 0 := by
  rw [execute_error_iff rfl]
  unfold cause?
  generalize i.operation = op
  cases op <;> simp [Option.bind_eq_some_iff]

theorem trapvOverflow_iff : (∃ m', i.execute m = .error .trapvOverflow m') ↔
    i.operation = .trapv ∧ m.registers.flag overflow = true := by
  rw [execute_error_iff rfl]
  unfold cause?
  generalize i.operation = op
  cases op <;> simp [Option.bind_eq_some_iff]

theorem chkBounds_iff : (∃ m', i.execute m = .error .chkBounds m') ↔
    i.operation = .chk ∧ ∃ bound, i.sourceWord? m = some bound ∧ i.OutOfBounds m bound := by
  rw [execute_error_iff rfl]
  unfold cause?
  generalize i.operation = op
  cases op <;> simp [Option.bind_eq_some_iff]

theorem toNat_trapNumber (i : Instruction) : i.trapNumber.toNat = i.opcode.toNat % 16 := by
  have hlt : i.opcode.toNat % 16 < 256 := by omega
  unfold trapNumber
  rw [BitVec.toNat_setWidth, BitVec.toNat_setWidth]
  exact Nat.mod_eq_of_lt hlt

theorem software_iff (k : Byte) : (∃ m', i.execute m = .error (.software k) m') ↔
    i.operation = .trap ∧ k.toNat = i.opcode.toNat % 16 := by
  rw [execute_error_iff rfl, ← toNat_trapNumber, BitVec.toNat_inj, eq_comm (a := k)]
  unfold cause?
  generalize i.operation = op
  cases op <;> simp [Option.bind_eq_some_iff]

theorem not_busError : ¬ ∃ m', i.execute m = .error .busError m' := by
  rw [execute_error_iff rfl]
  unfold cause?
  generalize i.operation = op
  cases op <;> simp [Option.bind_eq_some_iff]

/-- **A privilege violation leaves the whole machine**: it comes before any other effect. -/
theorem eq_of_privilegeViolation (h : i.execute m = .error .privilegeViolation m') : m' = m := by
  rcases privilegeViolation_iff.mp ⟨m', h⟩ with ⟨hop, hu⟩ | ⟨hop, hs, hbit⟩
  · rw [execute_of_user hop hu] at h
    cases h
    rfl
  · have hstop : i.execute m = stop i m := by
      unfold execute
      rw [hop]
    rw [hstop, stop_of_supervisor hs, hasFlag_supervisor, hbit] at h
    cases h
    rfl

/-- **Only a `STOP` that succeeds stops the machine.** -/
theorem stopped_execute (h : (settle (i.execute m)).2.runState = .stopped) :
    m.runState = .stopped ∨ (i.operation = .stop ∧ ∃ m', i.execute m = .ok () m') := by
  rcases hx : i.execute m with ⟨⟨⟩, m'⟩ | ⟨t, m'⟩
  · rw [hx] at h
    have hstate := runState_execute hx
    by_cases hop : i.operation = .stop
    · exact .inr ⟨hop, m', rfl⟩
    · exact .inl (stopped_of_runStateAfter hop (hstate.symm.trans h))
  · rw [hx] at h
    exact .inl ((kept_of_error hx).1.symm.trans h)

/-- **Which instruction ends in which trap**, trap by trap, and what stops the machine. -/
theorem trap_causes (i : Instruction) (m : Machine) :
    ((∃ m', i.execute m = .error .privilegeViolation m') ↔
      (i.operation.isPrivileged = true ∧ m.registers.isSupervisor = false) ∨
        (i.operation = .stop ∧ m.registers.isSupervisor = true ∧
          i.extension.word.getLsbD 13 = false)) ∧
    (∀ m', i.execute m = .error .privilegeViolation m' → m' = m) ∧
    ((∃ m', i.execute m = .error .divideByZero m') ↔
      (∃ s, i.operation = .divide s) ∧ i.sourceWord? m = some 0) ∧
    ((∃ m', i.execute m = .error .trapvOverflow m') ↔
      i.operation = .trapv ∧ m.registers.flag overflow = true) ∧
    ((∃ m', i.execute m = .error .chkBounds m') ↔
      i.operation = .chk ∧ ∃ bound, i.sourceWord? m = some bound ∧
        (i.checked m < 0 ∨ Size.word.signed bound < i.checked m)) ∧
    (∀ k, (∃ m', i.execute m = .error (.software k) m') ↔
      i.operation = .trap ∧ k.toNat = i.opcode.toNat % 16) ∧
    (¬ ∃ m', i.execute m = .error .busError m') ∧
    ((settle (i.execute m)).2.runState = .stopped →
      m.runState = .stopped ∨ (i.operation = .stop ∧ ∃ m', i.execute m = .ok () m')) :=
  ⟨privilegeViolation_iff, fun _ => eq_of_privilegeViolation, divideByZero_iff, trapvOverflow_iff,
    chkBounds_iff, software_iff, not_busError, stopped_execute⟩

end Instruction

end Mc68000
