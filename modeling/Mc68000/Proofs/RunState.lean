import Mc68000.Proofs.Footprint.Execute

/-!
# Run state and count of calls

What an instruction that succeeds does to the two values that the machine keeps beside its registers
and its memory.

* `Instruction.runStateAfter`, `Instruction.callDepthAfter` -- the run state and the count of calls
  that an instruction leaves;
* `Instruction.runState_execute` -- **only `STOP` and the last `RTS` change the run state**;
* `Instruction.callDepth_execute` -- **only calls and returns change the count**;
* `Exec.rts_of_no_call` -- the last `RTS` changes nothing else;
* `Instruction.kept_of_error` -- a trap keeps both.
-/

namespace Mc68000

namespace Instruction

/-- The run state that an instruction leaves when it succeeds. -/
def runStateAfter (i : Instruction) (m : Machine) : RunState :=
  match i.operation with
  | .stop => .stopped
  | .rts => if m.callDepth = 0 then .finished else m.runState
  | _ => m.runState

/-- The count of calls that an instruction leaves when it succeeds. -/
def callDepthAfter (i : Instruction) (m : Machine) : BitVec 32 :=
  match i.operation with
  | .bsr | .jsr => m.callDepth + 1
  | .rts | .rtr => if m.callDepth = 0 then 0 else m.callDepth - 1
  | _ => m.callDepth

end Instruction

namespace Exec

variable {α β : Type} {x : Exec α} {f : α → Exec β} {ok trap : List Part} {m m' : Machine}
  {i : Instruction}

/-! ## 1. Keeping the run state -/

/-- An action that does not change the run state when it succeeds. -/
def KeepsRunState (x : Exec α) : Prop := ∀ m a m', x m = .ok a m' → m'.runState = m.runState

theorem keepsRunState_of_touches (hx : Touches ok trap x) (hfinish : Part.finish ∉ ok)
    (hsystem : Part.system ∉ ok) : KeepsRunState x := fun _ _ _ h =>
  (hx.changed h).runState_eq hfinish hsystem

theorem KeepsRunState.bind (hx : KeepsRunState x) (hf : ∀ a, KeepsRunState (f a)) :
    KeepsRunState (x >>= f) := by
  intro m b m' h
  obtain ⟨a, m₁, hxa, hfa⟩ := bind_ok h
  exact (hf a m₁ b m' hfa).trans (hx m a m₁ hxa)

theorem keepsRunState_modifyRegisters (g : Registers → Registers) :
    KeepsRunState (modifyRegisters g) := fun _ _ _ h => by cases h; rfl

theorem keepsRunState_requireSupervisor : KeepsRunState requireSupervisor :=
  keepsRunState_of_touches touches_requireSupervisor (by simp) (by simp)

theorem keepsRunState_source (i : Instruction) : KeepsRunState (source i) :=
  keepsRunState_of_touches (touches_source i) (by simp) (by simp)

theorem keepsRunState_read (operand : Operand) (size : Size) :
    KeepsRunState (Exec.read operand size) :=
  keepsRunState_of_touches (touches_read operand size) (by simp) (by simp)

theorem keepsRunState_popLong : KeepsRunState popLong :=
  keepsRunState_of_touches touches_popLong (by simp) (by simp)

theorem keepsRunState_popWord : KeepsRunState popWord :=
  keepsRunState_of_touches touches_popWord (by simp) (by simp)

/-! ## 2. Supervisor operations -/

theorem keepsRunState_logicToSr (op : LogicOp) (i : Instruction) :
    KeepsRunState (logicToSr op i) :=
  keepsRunState_requireSupervisor.bind fun _ => keepsRunState_modifyRegisters _

theorem keepsRunState_moveToSr (i : Instruction) : KeepsRunState (moveToSr i) := by
  refine keepsRunState_requireSupervisor.bind fun _ => ?_
  refine (keepsRunState_source i).bind fun src => ?_
  exact (keepsRunState_read src .word).bind fun v => keepsRunState_modifyRegisters _

theorem keepsRunState_moveUsp (i : Instruction) : KeepsRunState (moveUsp i) := by
  refine keepsRunState_requireSupervisor.bind fun _ => ?_
  split
  · exact keepsRunState_modifyRegisters _
  · exact keepsRunState_modifyRegisters _

theorem keepsRunState_rte : KeepsRunState rte := by
  refine keepsRunState_requireSupervisor.bind fun _ => ?_
  refine keepsRunState_popWord.bind fun sr => keepsRunState_popLong.bind fun pc => ?_
  exact keepsRunState_modifyRegisters _

theorem runState_stop (h : stop i m = .ok () m') : m'.runState = .stopped := by
  obtain ⟨_, m₁, _, h⟩ := bind_ok h
  dsimp only at h
  split at h
  · cases h
  · cases h
    rfl

/-! ## 3. Calls and returns -/

theorem callDepth_call (h : call i m = .ok () m') : m'.callDepth = m.callDepth + 1 := by
  obtain ⟨_, m₁, hpush, hcount⟩ := bind_ok h
  have hkept : m₁.callDepth = m.callDepth :=
    ((touches_pushLong _).changed hpush).callDepth_eq (by simp)
  cases hcount
  show m₁.callDepth + 1 = _
  rw [hkept]

theorem callDepth_bsr (h : bsr i m = .ok () m') : m'.callDepth = m.callDepth + 1 := by
  obtain ⟨_, m₁, hcall, hbranch⟩ := bind_ok h
  have hcount := callDepth_call hcall
  cases hbranch
  exact hcount

theorem callDepth_jsr (h : jsr i m = .ok () m') : m'.callDepth = m.callDepth + 1 := by
  obtain ⟨target, m₁, hcontrol, hrest⟩ := bind_ok h
  obtain ⟨_, m₂, hcall, hjump⟩ := bind_ok hrest
  have hkept : m₁.callDepth = m.callDepth :=
    ((touches_control i.source).changed hcontrol).callDepth_eq (by simp)
  have hcount := callDepth_call hcall
  cases hjump
  show m₂.callDepth = _
  rw [hcount, hkept]

/-- With no call outstanding the machine finishes and is the same else. -/
theorem rts_of_no_call (h0 : m.callDepth = 0) :
    rts m = .ok () { m with runState := .finished } := by
  show (if m.callDepth = 0 then
    (modify fun m => { m with runState := .finished } : Exec Unit) else _) m = _
  rw [if_pos h0]
  rfl

/-- With a call outstanding the machine returns. -/
theorem rts_eq_of_call (h0 : m.callDepth ≠ 0) : rts m = (do
    let pc ← popLong
    jump pc
    modify fun m => { m with callDepth := m.callDepth - 1 } : Exec Unit) m := by
  show (if m.callDepth = 0 then _ else _ : Exec Unit) m = _
  rw [if_neg h0]

/-- With a call outstanding the count goes down and the machine goes on. -/
theorem rts_of_call (h0 : m.callDepth ≠ 0) (h : rts m = .ok () m') :
    m'.callDepth = m.callDepth - 1 ∧ m'.runState = m.runState := by
  rw [rts_eq_of_call h0] at h
  obtain ⟨pc, m₁, hpop, hrest⟩ := bind_ok h
  have hchanged := touches_popLong.changed hpop
  have hdepth := hchanged.callDepth_eq (by simp)
  have hstate := hchanged.runState_eq (by simp) (by simp)
  cases hrest
  refine ⟨?_, hstate⟩
  show m₁.callDepth - 1 = _
  rw [hdepth]

theorem callDepth_rtr (h : rtr m = .ok () m') :
    m'.callDepth = if m.callDepth = 0 then 0 else m.callDepth - 1 := by
  obtain ⟨codes, m₁, hcodes, hrest⟩ := bind_ok h
  obtain ⟨pc, m₂, hpc, hrest⟩ := bind_ok hrest
  have hfirst : m₁.callDepth = m.callDepth :=
    (touches_popWord.changed hcodes).callDepth_eq (by simp)
  have hsecond : m₂.callDepth = m₁.callDepth :=
    (touches_popLong.changed hpc).callDepth_eq (by simp)
  cases hrest
  show (if m₂.callDepth = 0 then 0 else m₂.callDepth - 1) = _
  rw [hsecond, hfirst]

end Exec

/-! ## 4. Instructions -/

namespace Operation

theorem finish_not_mem_touches {op : Operation} (h : op ≠ .rts) : Part.finish ∉ op.touches := by
  cases op with
  | rts => exact absurd rfl h
  | bitStatic op | bitDynamic op => cases op <;> simp [touches]
  | arithImmediate op | arith op => cases op <;> simp [touches]
  | arithQuick op => cases op <;> simp [touches, AddSub.arith]
  | _ => simp [touches]

theorem callDepth_not_mem_touches {op : Operation} (h : op ∉ [bsr, jsr, rts, rtr]) :
    Part.callDepth ∉ op.touches := by
  cases op with
  | bsr | jsr | rts | rtr => exact absurd (by decide) h
  | bitStatic op | bitDynamic op => cases op <;> simp [touches]
  | arithImmediate op | arith op => cases op <;> simp [touches]
  | arithQuick op => cases op <;> simp [touches, AddSub.arith]
  | _ => simp [touches]

end Operation

namespace Instruction

open Exec

variable {i : Instruction} {m m' : Machine}

/-- **Only `STOP` and an `RTS` with no call outstanding change the run state.** -/
theorem runState_execute (h : i.execute m = .ok () m') : m'.runState = i.runStateAfter m := by
  have hchanged := i.touches_execute.changed h
  have hplain (hp : i.operation.isPrivileged = false) (hrts : i.operation ≠ .rts) :
      m'.runState = m.runState :=
    hchanged.runState_eq (Operation.finish_not_mem_touches hrts)
      (Operation.system_not_mem_touches hp)
  unfold runStateAfter
  unfold execute at h
  generalize i.operation = op at h hplain
  cases op with
  | stop => exact runState_stop h
  | rts =>
    change rts m = .ok () m' at h
    by_cases h0 : m.callDepth = 0
    · rw [rts_of_no_call h0] at h
      cases h
      show RunState.finished = if m.callDepth = 0 then _ else _
      rw [if_pos h0]
    · show m'.runState = if m.callDepth = 0 then _ else _
      rw [if_neg h0]
      exact (rts_of_call h0 h).2
  | logicToSr op => exact keepsRunState_logicToSr op i m () m' h
  | moveToSr => exact keepsRunState_moveToSr i m () m' h
  | moveUsp => exact keepsRunState_moveUsp i m () m' h
  | rte => exact keepsRunState_rte m () m' h
  | reset => exact keepsRunState_requireSupervisor m () m' h
  | _ => exact hplain rfl nofun

/-- **Only calls and returns change the count of calls.** -/
theorem callDepth_execute (h : i.execute m = .ok () m') : m'.callDepth = i.callDepthAfter m := by
  have hchanged := i.touches_execute.changed h
  have hplain (hop : i.operation ∉ [.bsr, .jsr, .rts, .rtr]) : m'.callDepth = m.callDepth :=
    hchanged.callDepth_eq (Operation.callDepth_not_mem_touches hop)
  unfold callDepthAfter
  unfold execute at h
  generalize i.operation = op at h hplain
  cases op with
  | bsr => exact callDepth_bsr h
  | jsr => exact callDepth_jsr h
  | rtr => exact callDepth_rtr h
  | rts =>
    change rts m = .ok () m' at h
    show m'.callDepth = if m.callDepth = 0 then 0 else m.callDepth - 1
    by_cases h0 : m.callDepth = 0
    · rw [rts_of_no_call h0] at h
      cases h
      rw [if_pos h0]
      exact h0
    · rw [if_neg h0]
      exact (rts_of_call h0 h).1
  | _ => exact hplain (by simp)

/-- An instruction that traps changes neither. -/
theorem kept_of_error {t : Trap} (h : i.execute m = .error t m') :
    m'.runState = m.runState ∧ m'.callDepth = m.callDepth := by
  have hleft : Changed i.operation.leaves m m' := by
    have hm := i.touches_execute m
    rw [h] at hm
    exact hm
  have hfinish : Part.finish ∉ i.operation.leaves := fun hp => by
    simpa using Operation.mem_leaves hp
  have hdepth : Part.callDepth ∉ i.operation.leaves := fun hp => by
    simpa using Operation.mem_leaves hp
  exact ⟨hleft.runState_eq hfinish (Operation.system_not_mem_leaves _), hleft.callDepth_eq hdepth⟩

/-- An instruction other than `STOP` leaves a machine stopped only if it was stopped. -/
theorem stopped_of_runStateAfter (hop : i.operation ≠ .stop) (h : i.runStateAfter m = .stopped) :
    m.runState = .stopped := by
  unfold runStateAfter at h
  generalize i.operation = op at hop h
  cases op with
  | stop => exact absurd rfl hop
  | rts =>
    dsimp only at h
    split at h
    · cases h
    · exact h
  | _ => exact h

end Instruction

end Mc68000
