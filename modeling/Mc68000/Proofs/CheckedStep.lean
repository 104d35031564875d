import Mc68000.Proofs.CheckedOperations
import Mc68000.Proofs.Execution

/-!
# What a guest can overflow

A machine that takes its steps with plain operators, in the hands of a host that loads programs,
writes registers and steps.

* `Machine.stepChecked` -- a step that has no result where a plain operator has none;
* `Machine.stepChecked_eq` -- **only a call that the count has no room for is such a step**;
* `Machine.Reached` -- what becomes of a new machine, with the calls since the last load;
* `Machine.reached_loop` -- a program that calls as often as one likes;
* `stepChecked_of_reached`, `stepChecked_at_full_count` -- **no step overflows before 2^32 calls,
  and then one does**.
-/

namespace Mc68000

theorem Instruction.callDepthAfter_le (i : Instruction) (m : Machine) :
    (i.callDepthAfter m).toNat ≤ m.callDepth.toNat + if i.operation.isCall then 1 else 0 := by
  unfold callDepthAfter
  generalize i.operation = op
  cases op with
  | bsr | jsr =>
    show (m.callDepth + 1).toNat ≤ m.callDepth.toNat + 1
    bv_omega
  | rts | rtr =>
    show (if m.callDepth = 0 then 0 else m.callDepth - 1).toNat ≤ m.callDepth.toNat
    split <;> bv_omega
  | _ => exact Nat.le_refl _

namespace Machine

/-! ## 1. Steps -/

/-- A step with plain operators, `none` where one of them has no result. -/
def stepChecked (m : Machine) : Option (EStateM.Result Failure Machine StepOutcome) :=
  match m.runState with
  | .stopped => some (.ok .stopped m)
  | .finished => some (.ok .finished m)
  | .running =>
    match m.code.fetch m.registers.pc with
    | .error f _ => some (.error f m)
    | .ok none _ => some (.error (.trap .illegalInstruction) m)
    | .ok (some i) _ =>
      match CheckedExec.execute i { m with registers := m.registers.setPc i.nextAddress } with
      | .error .arithmetic _ => none
      | .error (.trap t) m => some (.error (.trap t) m)
      | .ok () m =>
        some (.ok (.retired i.operation.cycles) { m with cycles := m.cycles + i.operation.cycles })

/-- The calls that a step makes, one or none. -/
def stepCalls (m : Machine) : Nat :=
  match step m, m.fetched? with
  | .ok (.retired _) _, some i => if i.operation.isCall then 1 else 0
  | _, _ => 0

variable {m m' : Machine}

/-- A step whose instruction succeeds. -/
theorem step_of_executed {i : Instruction} {pc : Address} (hrun : m.runState = .running)
    (hfetch : m.code.fetch m.registers.pc = .ok (some i) pc)
    (hx : i.execute { m with registers := m.registers.setPc i.nextAddress } = .ok () m') :
    step m =
      .ok (.retired i.operation.cycles) { m' with cycles := m'.cycles + i.operation.cycles } := by
  rw [step_of_fetched hrun hfetch, hx]

theorem stepCalls_of_executed {i : Instruction} {pc : Address} {cycles : Nat}
    (hfetch : m.code.fetch m.registers.pc = .ok (some i) pc)
    (hstep : step m = .ok (.retired cycles) m') :
    m.stepCalls = if i.operation.isCall then 1 else 0 := by
  unfold stepCalls fetched?
  rw [hstep, hfetch]

/-- A step that executes nothing, or nothing to the end, makes no call. -/
theorem stepCalls_of_idle (h : ∀ cycles m', step m ≠ .ok (.retired cycles) m') :
    m.stepCalls = 0 := by
  unfold stepCalls
  split
  next cycles m' i hs _ => exact absurd hs (h cycles m')
  next => rfl

theorem stepChecked_of_fetched {i : Instruction} {pc : Address}
    (hrun : m.runState = .running) (hfetch : m.code.fetch m.registers.pc = .ok (some i) pc) :
    m.stepChecked =
      match CheckedExec.execute i { m with registers := m.registers.setPc i.nextAddress } with
      | .error .arithmetic _ => none
      | .error (.trap t) m => some (.error (.trap t) m)
      | .ok () m =>
        some (.ok (.retired i.operation.cycles)
          { m with cycles := m.cycles + i.operation.cycles }) := by
  unfold stepChecked
  rw [hrun, hfetch]

/-- **A step has a result exactly if the count has room for the calls that it makes**, and the
    result is the one that wraps. -/
theorem stepChecked_eq (m : Machine) :
    m.stepChecked =
      if m.callDepth.toNat + m.stepCalls < 2 ^ 32 then some (step m) else none := by
  have hidle (h : ∀ cycles m', step m ≠ .ok (.retired cycles) m') :
      m.callDepth.toNat + m.stepCalls < 2 ^ 32 := by
    rw [stepCalls_of_idle h]
    exact m.callDepth.isLt
  rcases step_cases m with ⟨hrun, hs⟩ | ⟨hrun, hs⟩ | ⟨f, pc, hrun, hfetch, hs⟩ |
    ⟨pc, hrun, hfetch, hs⟩ | ⟨i, pc, hrun, hfetch, hs⟩
  · rw [if_pos (hidle (by rw [hs]; nofun)), hs]
    unfold stepChecked
    rw [hrun]
  · rw [if_pos (hidle (by rw [hs]; nofun)), hs]
    unfold stepChecked
    rw [hrun]
  · rw [if_pos (hidle (by rw [hs]; nofun)), hs]
    unfold stepChecked
    rw [hrun, hfetch]
  · rw [if_pos (hidle (by rw [hs]; nofun)), hs]
    unfold stepChecked
    rw [hrun, hfetch]
  · have hcount := CheckedExec.countsCalls_execute i
      { m with registers := m.registers.setPc i.nextAddress }
    rw [stepChecked_of_fetched hrun hfetch]
    cases hx : i.execute { m with registers := m.registers.setPc i.nextAddress } with
    | error t m₁ =>
      rw [hx] at hs hcount
      rw [if_pos (hidle (by rw [hs]; nofun)), hs]
      dsimp only at hcount
      rw [hcount]
    | ok _ m₁ =>
      rw [hx] at hcount
      change if m.callDepth.toNat + _ < 2 ^ 32 then _ else _ at hcount
      have hstep := step_of_executed hrun hfetch hx
      rw [stepCalls_of_executed hfetch hstep, hstep]
      by_cases hroom : m.callDepth.toNat + (if i.operation.isCall then 1 else 0) < 2 ^ 32
      · rw [if_pos hroom] at hcount ⊢
        rw [hcount]
      · rw [if_neg hroom] at hcount ⊢
        obtain ⟨m₂, hm₂⟩ := hcount
        rw [hm₂]

/-- A step counts up by no more than the calls that it makes. -/
theorem callDepth_step (m : Machine) :
    (settle (step m)).2.callDepth.toNat ≤ m.callDepth.toNat + m.stepCalls := by
  have hkept : m.callDepth.toNat ≤ m.callDepth.toNat + m.stepCalls := Nat.le_add_right ..
  rcases step_cases m with ⟨_, hs⟩ | ⟨_, hs⟩ | ⟨_, _, _, _, hs⟩ | ⟨_, _, _, hs⟩ |
    ⟨i, pc, hrun, hfetch, hs⟩
  · rw [hs]; exact hkept
  · rw [hs]; exact hkept
  · rw [hs]; exact hkept
  · rw [hs]; exact hkept
  · cases hx : i.execute { m with registers := m.registers.setPc i.nextAddress } with
    | error t m₁ =>
      have hdepth : m₁.callDepth = m.callDepth := (Instruction.kept_of_error hx).2
      rw [hx] at hs
      rw [hs]
      show m₁.callDepth.toNat ≤ _
      rw [hdepth]
      exact hkept
    | ok _ m₁ =>
      have hcalls := stepCalls_of_executed hfetch (step_of_executed hrun hfetch hx)
      rw [step_of_executed hrun hfetch hx, hcalls]
      show m₁.callDepth.toNat ≤ _
      rw [Instruction.callDepth_execute hx]
      exact i.callDepthAfter_le _

/-! ## 2. Machines in the hands of a host -/

/-- What becomes of a new machine when a host loads programs, writes registers and steps, with the
    calls that have been made since the last load. -/
inductive Reached (config : Config) : Nat → Machine → Prop where
  | new : Reached config 0 (new config)
  | load {calls m bytes address clearFirst m'} (h : Reached config calls m)
      (hload : loadProgram bytes address clearFirst m = .ok () m') : Reached config 0 m'
  | setRegisters {calls m} (s : Snapshot) (h : Reached config calls m) :
      Reached config calls (m.applySnapshot s)
  /-- A step that fails leaves a machine too. -/
  | step {calls m} (h : Reached config calls m) :
      Reached config (calls + m.stepCalls) (settle (step m)).2

variable {config : Config} {calls : Nat}

theorem callDepth_of_reached (h : Reached config calls m) : m.callDepth.toNat ≤ calls := by
  induction h with
  | new => exact Nat.le_refl 0
  | load _ hload _ =>
    have h0 := (counts_of_loadProgram hload).callDepth
    exact Nat.le_of_eq h0
  | setRegisters _ _ ih => exact ih
  | step _ ih => exact Nat.le_trans (callDepth_step _) (Nat.add_le_add_right ih _)

/-! ## 3. A loop that calls -/

/-- A loop that calls its own start and never returns, `LEA $10.W,A7` and `BSR.S`. The return
    address that it pushes stands there already. -/
def callForever : List Byte :=
  [0x4F, 0xF8, 0x00, 0x10, 0x61, 0xFA, 0, 0, 0, 0, 0, 0, 0, 0, 0, 6]

/-- A memory for that loop and nothing else. -/
def loopConfig : Config := { memoryBytes := 16, traceInstructions := false }

/-- The code of the loop. -/
def loopCode : Code :=
  { memory := (settle (loadProgram callForever 0 false (new loopConfig))).2.memory, codeEnd := 16 }

/-- The registers at an instruction of the loop, with a stack pointer. -/
def loopRegisters (pc sp : Address) : Registers := { Registers.zeros with pc, usp := sp }

/-- A machine in the loop, after some calls and cycles. -/
def looping (registers : Registers) (depth : BitVec 32) (cycles : Nat) : Machine :=
  { registers
    memory := loopCode.memory
    callDepth := depth
    runState := .running
    cycles
    codeStart := 0
    codeEnd := loopCode.codeEnd
    traceInstructions := false }

/-- A machine at the `LEA`. -/
def atLea : BitVec 32 → Nat → Machine := looping (loopRegisters 0 12)

/-- A machine at the `BSR`. -/
def atBsr : BitVec 32 → Nat → Machine := looping (loopRegisters 4 16)

/-- `LEA $10.W,A7` -/
def loopLea : Instruction :=
  { address := 0, opcode := 0x4FF8, operation := .lea, size := .long, extension := ⟨2, .none⟩,
    source := some ⟨0x38, ⟨2, .one 0x0010⟩⟩, destination := none, length := 4 }

/-- `BSR.S` to the `LEA` -/
def loopBsr : Instruction :=
  { address := 4, opcode := 0x61FA, operation := .bsr, size := .word, extension := ⟨6, .none⟩,
    source := none, destination := none, length := 2 }

section

variable (depth : BitVec 32) (cycles : Nat)

theorem fetch_atLea : (atLea depth cycles).code.fetch 0 = .ok (some loopLea) 4 := by
  show loopCode.fetch 0 = _
  rfl

theorem fetch_atBsr : (atBsr depth cycles).code.fetch 4 = .ok (some loopBsr) 6 := by
  show loopCode.fetch 4 = _
  rfl

theorem step_atLea : step (atLea depth cycles) = .ok (.retired 4) (atBsr depth (cycles + 4)) := by
  have hsource : Exec.control loopLea.source (looping (loopRegisters 4 12) depth cycles) =
    .ok 16 (looping (loopRegisters 4 12) depth cycles) := rfl
  have hwritten : (loopRegisters 4 12).writeAddress loopLea.highRegister 16 .long =
    loopRegisters 4 16 := by rfl
  have hx : loopLea.execute (looping (loopRegisters 4 12) depth cycles) =
      .ok () (looping (loopRegisters 4 16) depth cycles) := by
    rw [← hwritten]
    exact Instruction.execute_lea rfl hsource
  exact step_of_executed rfl (fetch_atLea depth cycles) hx

/-- The return address, which is there already, is pushed. -/
theorem pushLong_loop : Exec.pushLong 6 (looping (loopRegisters 6 16) depth cycles) =
    .ok () (looping (loopRegisters 6 12) depth cycles) := by
  have hregisters : Exec.registers (looping (loopRegisters 6 16) depth cycles) =
    .ok (loopRegisters 6 16) (looping (loopRegisters 6 16) depth cycles) := rfl
  have hbelow : (loopRegisters 6 16).sp - BitVec.ofNat 32 Size.long.bytes = 12 := by rfl
  have hin : accessible 12 .long loopCode.memory.capacity = true := by rfl
  have hstore : loopCode.memory.store 12 .long 6 = loopCode.memory := by decide +kernel
  have hwrite : Exec.writeMemory 12 .long 6 (looping (loopRegisters 6 16) depth cycles) =
      .ok () (looping (loopRegisters 6 16) depth cycles) := by
    show (if accessible 12 .long loopCode.memory.capacity then
      EStateM.Result.ok () { looping (loopRegisters 6 16) depth cycles with
        memory := loopCode.memory.store 12 .long 6 } else _) = _
    rw [if_pos hin, hstore]
    rfl
  have hsp : (loopRegisters 6 16).setSp 12 = loopRegisters 6 12 := by rfl
  unfold Exec.pushLong Exec.push
  rw [Exec.bind_eq hregisters, hbelow, Exec.bind_eq hwrite, ← hsp]
  rfl

theorem step_atBsr :
    step (atBsr depth cycles) = .ok (.retired 18) (atLea (depth + 1) (cycles + 18)) := by
  have hcall : Exec.call loopBsr (looping (loopRegisters 6 16) depth cycles) =
      .ok () (looping (loopRegisters 6 12) (depth + 1) cycles) := by
    show (Exec.pushLong 6 >>= fun _ => _) _ = _
    rw [Exec.bind_eq (pushLong_loop depth cycles)]
    rfl
  have hx : loopBsr.execute (looping (loopRegisters 6 16) depth cycles) =
      .ok () (looping (loopRegisters 0 12) (depth + 1) cycles) := by
    show (Exec.call loopBsr >>= fun _ => _) _ = _
    rw [Exec.bind_eq hcall]
    rfl
  exact step_of_executed rfl (fetch_atBsr depth cycles) hx

theorem stepCalls_atLea : (atLea depth cycles).stepCalls = 0 :=
  stepCalls_of_executed (fetch_atLea depth cycles) (step_atLea depth cycles)

theorem stepCalls_atBsr : (atBsr depth cycles).stepCalls = 1 :=
  stepCalls_of_executed (fetch_atBsr depth cycles) (step_atBsr depth cycles)

end

theorem Reached.atBsr {depth : BitVec 32} {cycles : Nat}
    (h : Reached loopConfig calls (atLea depth cycles)) :
    Reached loopConfig calls (atBsr depth (cycles + 4)) := by
  have hstep := h.step
  rw [stepCalls_atLea, step_atLea] at hstep
  exact hstep

/-- **Every round of the loop is one call more.** -/
theorem reached_loop (calls : Nat) :
    Reached loopConfig calls (atLea (BitVec.ofNat 32 calls) (22 * calls)) := by
  induction calls with
  | zero =>
    have hload : loadProgram callForever 0 false (new loopConfig) =
      .ok () (settle (loadProgram callForever 0 false (new loopConfig))).2 := rfl
    have hstart : (settle (loadProgram callForever 0 false (new loopConfig))).2.applySnapshot
      { Snapshot.empty with usp := some 12 } = atLea 0 0 := by decide +kernel
    have hset : Reached loopConfig 0 _ :=
      .setRegisters { Snapshot.empty with usp := some 12 } (.load .new hload)
    rw [hstart] at hset
    exact hset
  | succ calls ih =>
    have hcall := ih.atBsr.step
    have hdepth : BitVec.ofNat 32 calls + 1 = BitVec.ofNat 32 (calls + 1) :=
      (BitVec.ofNat_add calls 1).symm
    rw [stepCalls_atBsr, step_atBsr, hdepth] at hcall
    exact hcall

/-! ## 4. Overflow -/

/-- **The count of calls is the only number that a guest can take out of its width.** On every
    machine that a host can bring about, a step with plain operators has a result, the one of the
    step, unless it makes a call that the count has no room for. That takes 2^32 calls since the
    program was loaded. -/
theorem stepChecked_of_reached (h : Reached config calls m) :
    (m.stepChecked =
      if m.callDepth.toNat + m.stepCalls < 2 ^ 32 then some (step m) else none) ∧
    (calls + m.stepCalls < 2 ^ 32 → m.stepChecked = some (step m)) := by
  have hcount := callDepth_of_reached h
  refine ⟨stepChecked_eq m, fun hfew => ?_⟩
  rw [stepChecked_eq, if_pos (by omega)]

/-- The first call of the loop can be counted. -/
theorem stepChecked_of_first_call :
    Reached loopConfig 0 (atBsr 0 4) ∧ (atBsr 0 4).stepChecked = some (step (atBsr 0 4)) := by
  have h : Reached loopConfig 0 (atBsr 0 4) := (reached_loop 0).atBsr
  have hfew : 0 + (atBsr 0 4).stepCalls < 2 ^ 32 := by
    rw [stepCalls_atBsr]
    decide
  exact ⟨h, (stepChecked_of_reached h).2 hfew⟩

/-- **A guest overflows the count.** After 2^32 - 1 calls without a return the next one has no room
    in it, and the step, which wraps, counts none. -/
theorem stepChecked_at_full_count :
    Reached loopConfig (2 ^ 32 - 1) (atBsr 0xFFFFFFFF (22 * (2 ^ 32 - 1) + 4)) ∧
    (atBsr 0xFFFFFFFF (22 * (2 ^ 32 - 1) + 4)).stepChecked = none ∧
    step (atBsr 0xFFFFFFFF (22 * (2 ^ 32 - 1) + 4)) =
      .ok (.retired 18) (atLea 0 (22 * 2 ^ 32)) := by
  refine ⟨(reached_loop (2 ^ 32 - 1)).atBsr, ?_, step_atBsr ..⟩
  rw [stepChecked_eq, stepCalls_atBsr]
  rfl

end Machine

end Mc68000
