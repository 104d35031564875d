import Mc68000.Proofs.FetchWords
import Mc68000.Proofs.Footprint.Execute
import Mc68000.Proofs.Runs

/-!
# What a failed step leaves

A step that fails has done nothing, or all that its instruction does before the trap: the program
counter past it, address registers moved, and for a few operations more than that.

* `TrapFrame` -- two machines apart by what one trapping instruction leaves;
* `trapFrame_execute` -- **an instruction that traps leaves no more**;
* `step_failure_frame` -- **what is the same after a step that fails**, whatever the failure.
-/

namespace Mc68000

open Status

/-- `m'` is what an instruction that traps leaves of `m`. -/
structure TrapFrame (i : Instruction) (m m' : Machine) : Prop where
  /-- The program counter is past the instruction. -/
  pc_eq : m'.registers.pc = i.nextAddress
  memory_eq : i.operation ≠ .movem → i.operation ≠ .movep → m'.memory = m.memory
  data_eq : i.operation ≠ .movem → m'.registers.data = m.registers.data
  /-- The status register is the same but for the flags that the operation sets before it traps. -/
  status : AgreeOutside i.operation.trapFlags m'.registers.sr m.registers.sr

/-- `m'` has what no failure of a step changes as `m` has it. -/
structure HostFrame (m m' : Machine) : Prop where
  callDepth_eq : m'.callDepth = m.callDepth
  runState_eq : m'.runState = m.runState
  cycles_eq : m'.cycles = m.cycles
  codeStart_eq : m'.codeStart = m.codeStart
  codeEnd_eq : m'.codeEnd = m.codeEnd

theorem HostFrame.refl (m : Machine) : HostFrame m m := ⟨rfl, rfl, rfl, rfl, rfl⟩

/-- **An instruction that traps leaves no more** than its frame allows. -/
theorem trapFrame_execute {i : Instruction} {m m' : Machine} {t : Trap}
    (h : i.execute { m with registers := m.registers.setPc i.nextAddress } = .error t m') :
    HostFrame m m' ∧ TrapFrame i m m' := by
  have hm := i.touches_execute { m with registers := m.registers.setPc i.nextAddress }
  rw [h] at hm
  refine ⟨⟨?_, ?_, ?_, ?_, ?_⟩, ⟨?_, ?_, ?_, ?_⟩⟩
  · exact hm.callDepth_eq fun hp => by simpa using Operation.mem_leaves hp
  · refine hm.runState_eq (fun hp => ?_) (Operation.system_not_mem_leaves _)
    simpa using Operation.mem_leaves hp
  · exact hm.cycles_eq
  · exact hm.codeStart_eq
  · exact hm.codeEnd_eq
  · exact hm.pc_eq fun hp => by simpa using Operation.mem_leaves hp
  · intro hmovem hmovep
    exact hm.memory_eq fun hp => by simpa [hmovem, hmovep] using Operation.mem_leaves hp
  · intro hmovem
    exact hm.data_eq fun hp => by simpa [hmovem] using Operation.mem_leaves hp
  · refine hm.agreeOutside (fun bits hp => ?_) (Operation.system_not_mem_leaves _)
    simpa using Operation.mem_leaves hp

namespace Machine

/-- **What is the same after a step that fails.** If nothing was executed, for no instruction could
    be fetched or its opcode stands for nothing, that is the whole machine. -/
theorem step_failure_frame {m m' : Machine} {f : Failure} (h : step m = .error f m') :
    HostFrame m m' ∧
      match m.code.fetch m.registers.pc with
      | .error g _ => f = g ∧ Code.IsFetchFailure g ∧ m' = m
      | .ok none _ => f = .trap .illegalInstruction ∧ m' = m
      | .ok (some i) _ => (∃ t, f = .trap t) ∧ TrapFrame i m m' := by
  obtain ⟨_, hs⟩ | ⟨_, hs⟩ | ⟨g, pc, _, hf, hs⟩ | ⟨pc, _, hf, hs⟩ | ⟨i, pc, _, hf, hs⟩ :=
    step_cases m
  · rw [hs] at h; cases h
  · rw [hs] at h; cases h
  · rw [hs] at h
    cases h
    rw [hf]
    exact ⟨.refl m, rfl, Code.fetch_error hf, rfl⟩
  · rw [hs] at h
    cases h
    rw [hf]
    exact ⟨.refl m, rfl, rfl⟩
  · rw [hs] at h
    rw [hf]
    cases hx : i.execute { m with registers := m.registers.setPc i.nextAddress } with
    | ok _ m₁ => rw [hx] at h; cases h
    | error t m₁ =>
      rw [hx] at h
      cases h
      obtain ⟨hhost, htrap⟩ := trapFrame_execute hx
      exact ⟨hhost, ⟨t, rfl⟩, htrap⟩

/-- A machine about to execute `CHK #5,D0` with nine in `D0`. N is set. -/
def outOfBounds : Machine :=
  { new { memoryBytes := 4, traceInstructions := false } with
    registers := { Registers.zeros.writeData 0 9 .long with sr := negative }
    memory := (Memory.zeros 4).setBytes 0 [0x41, 0xBC, 0x00, 0x05]
    codeEnd := 4 }

theorem trapFrame_outOfBounds :
    ∃ f m' i pc, step outOfBounds = .error f m' ∧
      outOfBounds.code.fetch outOfBounds.registers.pc = .ok (some i) pc ∧
      HostFrame outOfBounds m' ∧ TrapFrame i outOfBounds m' := by
  obtain ⟨f, m', h⟩ : ∃ f m', step outOfBounds = .error f m' := ⟨_, _, rfl⟩
  obtain ⟨i, pc, hf⟩ : ∃ i pc, outOfBounds.code.fetch outOfBounds.registers.pc = .ok (some i) pc :=
    ⟨_, _, rfl⟩
  obtain ⟨hhost, hframe⟩ := step_failure_frame h
  rw [hf] at hframe
  exact ⟨f, m', i, pc, h, hf, hhost, hframe.2⟩

end Machine

end Mc68000
