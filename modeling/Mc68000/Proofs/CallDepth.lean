import Mathlib.Algebra.Group.Nat.Defs
import Mc68000.Proofs.RunState
import Mc68000.Proofs.Session

/-!
# Calls outstanding over a history

A program that has been loaded runs with the host's hand on it. The operations that have retired,
in their order, tell the count of calls and whether the program has finished.

* `Machine.Retires` -- one step that executes an operation;
* `Machine.History` -- what can become of a machine, with the operations that have retired so far;
* `exists_history_of_performAll` -- every session is a history;
* `outstanding` -- the calls without a return in a list of operations;
* `callDepth_of_history` -- **the machine counts them, and finishes at the `RTS` that finds none**.
-/

namespace Mc68000

/-! ## 1. Calls and returns in a list of operations -/

namespace Operation

/-- Whether an operation is a call. -/
def isCall : Operation → Bool
  | .bsr | .jsr => true
  | _ => false

/-- The count of calls outstanding after an operation. A return never takes it below zero. -/
def countAfter (count : Nat) : Operation → Nat
  | .bsr | .jsr => count + 1
  | .rts | .rtr => count - 1
  | _ => count

theorem countAfter_le (count : Nat) (op : Operation) :
    op.countAfter count ≤ count + if op.isCall then 1 else 0 := by
  cases op <;> simp [countAfter, isCall]

end Operation

/-- The calls that have not returned after a list of operations. -/
def outstanding (ops : List Operation) : Nat := ops.foldl Operation.countAfter 0

theorem outstanding_append (ops : List Operation) (op : Operation) :
    outstanding (ops ++ [op]) = op.countAfter (outstanding ops) := List.foldl_append

theorem countP_append (ops : List Operation) (op : Operation) :
    (ops ++ [op]).countP Operation.isCall =
      ops.countP Operation.isCall + if op.isCall then 1 else 0 := by
  rw [List.countP_append, List.countP_singleton]

namespace Machine

/-! ## 2. Histories -/

/-- The instruction that the next step executes, `none` if there is none. -/
def fetched? (m : Machine) : Option Instruction :=
  match m.code.fetch m.registers.pc with
  | .ok i? _ => i?
  | .error _ _ => none

/-- A step that executes an operation. -/
def Retires (m : Machine) (op : Operation) (m' : Machine) : Prop :=
  m.fetched?.map (·.operation) = some op ∧ ∃ cycles, step m = .ok (.retired cycles) m'

/-- What can become of a machine in the hands of a host that loads no program and does not reset
    it, with the operations that have retired so far. -/
inductive History (m₀ : Machine) : List Operation → Machine → Prop where
  | start : History m₀ [] m₀
  | retire {ops m op m'} (h : History m₀ ops m) (hr : Retires m op m') :
      History m₀ (ops ++ [op]) m'
  /-- A step that fails retires nothing. -/
  | fail {ops m f m'} (h : History m₀ ops m) (hs : step m = .error f m') : History m₀ ops m'
  | resume {ops m} (h : History m₀ ops m) : History m₀ ops m.resume
  /-- The host writes into registers and memory. -/
  | edit {ops m} (registers : Registers) (memory : Memory) (h : History m₀ ops m) :
      History m₀ ops { m with registers, memory }

theorem retires_step {m : Machine} {op : Operation} (cycles : Nat)
    (hop : m.fetched?.map (·.operation) = some op)
    (hstep : (settle (step m)).1 = .ok (.retired cycles)) : Retires m op (settle (step m)).2 := by
  refine ⟨hop, cycles, ?_⟩
  cases hs : step m with
  | error f m' => rw [hs] at hstep; cases hstep
  | ok outcome m' => rw [hs] at hstep; cases hstep; rfl

/-- All that is known of a step that retires: the instruction succeeds, and its cycles count. -/
theorem Retires.inversion {m m' : Machine} {op : Operation} (h : Retires m op m') :
    m.runState = .running ∧ ∃ (i : Instruction) (m₁ : Machine), i.operation = op ∧
      i.execute { m with registers := m.registers.setPc i.nextAddress } = .ok () m₁ ∧
      m' = { m₁ with cycles := m₁.cycles + op.cycles } := by
  obtain ⟨hop, cycles, hstep⟩ := h
  unfold fetched? at hop
  cases hfetch : m.code.fetch m.registers.pc with
  | error f pc => rw [hfetch] at hop; cases hop
  | ok fetched pc =>
    rw [hfetch] at hop
    cases fetched with
    | none => cases hop
    | some i =>
      cases hop
      obtain ⟨hrun, m₁, hx, hm'⟩ := executed_of_retired hfetch hstep
      exact ⟨hrun, i, m₁, rfl, hx, hm'⟩

/-- A step leads on in a history, whatever it comes to. -/
theorem History.step {m₀ m : Machine} {ops : List Operation} (h : History m₀ ops m) :
    ∃ more, History m₀ (ops ++ more) (settle (step m)).2 := by
  have hkept : ∃ more, History m₀ (ops ++ more) m := ⟨[], (List.append_nil ops).symm ▸ h⟩
  rcases step_cases m with ⟨_, hs⟩ | ⟨_, hs⟩ | ⟨_, _, _, _, hs⟩ | ⟨_, _, _, hs⟩ |
    ⟨i, pc, _, hfetch, hs⟩
  · rw [hs]; exact hkept
  · rw [hs]; exact hkept
  · rw [hs]; exact hkept
  · rw [hs]; exact hkept
  · cases hx : i.execute { m with registers := m.registers.setPc i.nextAddress } with
    | error t m₁ =>
      rw [hx] at hs
      refine ⟨[], ?_⟩
      rw [hs, List.append_nil]
      exact h.fail hs
    | ok _ m₁ =>
      rw [hx] at hs
      refine ⟨[i.operation], ?_⟩
      rw [hs]
      refine h.retire ⟨?_, _, hs⟩
      unfold fetched?
      rw [hfetch]
      rfl

/-- **Every session is a history**: its runs retire one operation after the other. -/
theorem exists_history_of_performAll {m m' : Machine} {calls : List Call} {replies : List Reply}
    (h : m.performAll? calls = some (replies, m')) : ∃ ops, History m ops m' := by
  have hstep (m₁ : Machine) :
      (∃ ops, History m ops m₁) → ∃ ops, History m ops (settle (step m₁)).2 := by
    rintro ⟨ops, hm₁⟩
    obtain ⟨more, hmore⟩ := hm₁.step
    exact ⟨ops ++ more, hmore⟩
  exact invariant_performAll hstep h ⟨[], .start⟩

/-! ## 3. What one operation does to the count and to the run state -/

section Step

variable {m m' : Machine} {op : Operation}

theorem Retires.callDepth_eq (h : Retires m op m') {count : Nat}
    (hcount : m.callDepth.toNat = count) (hmax : count + (if op.isCall then 1 else 0) < 2 ^ 32) :
    m'.callDepth.toNat = op.countAfter count := by
  obtain ⟨_, i, m₁, rfl, hx, rfl⟩ := h.inversion
  subst hcount
  show m₁.callDepth.toNat = _
  rw [Instruction.callDepth_execute hx]
  unfold Instruction.callDepthAfter
  show (match i.operation with
    | .bsr | .jsr => m.callDepth + 1
    | .rts | .rtr => if m.callDepth = 0 then 0 else m.callDepth - 1
    | _ => m.callDepth).toNat = _
  have hreturn : (if m.callDepth = 0 then 0 else m.callDepth - 1).toNat =
      m.callDepth.toNat - 1 := by
    split <;> bv_omega
  generalize i.operation = op at hmax
  cases op with
  | bsr | jsr =>
    have hsmall : m.callDepth.toNat + 1 < 2 ^ 32 := hmax
    show (m.callDepth + 1).toNat = m.callDepth.toNat + 1
    rw [BitVec.toNat_add]
    exact Nat.mod_eq_of_lt hsmall
  | rts | rtr => exact hreturn
  | _ => rfl

/-- A step that retires ends the program exactly if it is an `RTS` with no call outstanding. -/
theorem Retires.finished_iff (h : Retires m op m') :
    m'.runState = .finished ↔ op = .rts ∧ m.callDepth = 0 := by
  obtain ⟨hrun, i, m₁, rfl, hx, rfl⟩ := h.inversion
  show m₁.runState = .finished ↔ _
  rw [Instruction.runState_execute hx]
  unfold Instruction.runStateAfter
  dsimp only
  rw [hrun]
  generalize i.operation = op
  cases op <;> simp

/-- The last `RTS` moves the program counter past itself and finishes. Nothing else changes but the
    cycles. -/
theorem Retires.rts_of_no_call (h : Retires m .rts m') (h0 : m.callDepth = 0) :
    m' = { m with
      registers := m.registers.setPc m'.registers.pc
      runState := .finished
      cycles := m.cycles + Operation.rts.cycles } := by
  obtain ⟨_, i, m₁, hop, hx, rfl⟩ := h.inversion
  have hrts : i.execute { m with registers := m.registers.setPc i.nextAddress } =
      Exec.rts { m with registers := m.registers.setPc i.nextAddress } := by
    unfold Instruction.execute
    rw [hop]
  have hlast : Exec.rts { m with registers := m.registers.setPc i.nextAddress } =
      .ok () { m with registers := m.registers.setPc i.nextAddress, runState := .finished } :=
    Exec.rts_of_no_call h0
  cases (hrts.trans hlast).symm.trans hx
  rfl

/-- A step that fails changes neither the count nor the run state. -/
theorem kept_of_step_error {f : Failure} (h : step m = .error f m') :
    m'.runState = m.runState ∧ m'.callDepth = m.callDepth := by
  rcases step_cases m with ⟨_, hs⟩ | ⟨_, hs⟩ | ⟨_, _, _, _, hs⟩ | ⟨_, _, _, hs⟩ |
    ⟨i, pc, _, _, hs⟩
  · cases hs.symm.trans h
  · cases hs.symm.trans h
  · cases hs.symm.trans h
    exact ⟨rfl, rfl⟩
  · cases hs.symm.trans h
    exact ⟨rfl, rfl⟩
  · rw [hs] at h
    cases hx : i.execute { m with registers := m.registers.setPc i.nextAddress } with
    | ok _ m₁ => rw [hx] at h; cases h
    | error t m₁ =>
      rw [hx] at h
      cases h
      have hkept := Instruction.kept_of_error hx
      exact hkept

theorem finished_resume_iff (m : Machine) :
    m.resume.runState = .finished ↔ m.runState = .finished := by
  unfold resume
  cases hs : m.runState <;> simp [hs]

theorem callDepth_resume (m : Machine) : m.resume.callDepth = m.callDepth := by
  unfold resume
  split <;> rfl

end Step

/-! ## 4. Histories of a loaded program -/

/-- A list of operations ends in the `RTS` that finds no call outstanding. -/
def EndsProgram (ops : List Operation) : Prop :=
  ∃ before, ops = before ++ [.rts] ∧ outstanding before = 0

theorem endsProgram_append {ops : List Operation} {op : Operation} :
    EndsProgram (ops ++ [op]) ↔ op = .rts ∧ outstanding ops = 0 := by
  constructor
  · rintro ⟨before, hops, h0⟩
    obtain ⟨rfl, hop⟩ := List.append_inj' hops rfl
    exact ⟨List.singleton_inj.mp hop, h0⟩
  · rintro ⟨rfl, h0⟩
    exact ⟨ops, rfl, h0⟩

/-- What the machine knows of the operations that have retired. -/
structure Counts (ops : List Operation) (m : Machine) : Prop where
  callDepth : m.callDepth.toNat = outstanding ops
  finished : m.runState = .finished ↔ EndsProgram ops
  /-- The calls outstanding are no more than the calls. -/
  le_countP : outstanding ops ≤ ops.countP Operation.isCall

variable {m m' : Machine} {ops : List Operation} {op : Operation}

theorem Counts.callDepth_eq_zero_iff (h : Counts ops m) :
    m.callDepth = 0 ↔ outstanding ops = 0 := by
  rw [← h.callDepth]
  bv_omega

/-- A machine that changes neither the count nor whether it has finished. -/
theorem Counts.of_kept (h : Counts ops m) (hdepth : m'.callDepth = m.callDepth)
    (hstate : m'.runState = .finished ↔ m.runState = .finished) : Counts ops m' where
  callDepth := by rw [hdepth]; exact h.callDepth
  finished := hstate.trans h.finished
  le_countP := h.le_countP

/-- **One operation more.** -/
theorem Counts.retire (h : Counts ops m) (hr : Retires m op m')
    (hcalls : (ops ++ [op]).countP Operation.isCall < 2 ^ 32) : Counts (ops ++ [op]) m' := by
  have hle := h.le_countP
  rw [countP_append] at hcalls
  have hcount := outstanding_append ops op
  refine ⟨?_, ?_, ?_⟩
  · rw [hcount]
    exact hr.callDepth_eq h.callDepth (by omega)
  · rw [hr.finished_iff, endsProgram_append, h.callDepth_eq_zero_iff]
  · rw [hcount, countP_append]
    have hstep := op.countAfter_le (outstanding ops)
    omega

/-- A loaded program starts with no call outstanding. -/
theorem counts_of_loadProgram {bytes : List Byte} {address : Address} {clearFirst : Bool}
    (h : loadProgram bytes address clearFirst m = .ok () m') : Counts [] m' := by
  have hnil : ¬EndsProgram [] := by
    rintro ⟨before, hops, _⟩
    exact absurd (congrArg List.length hops) (by simp)
  unfold loadProgram at h
  split at h
  · cases h
  · split at h
    · cases h
    · cases h
      exact ⟨rfl, ⟨nofun, fun h => absurd h hnil⟩, Nat.le_refl 0⟩

/-- **Along a history the machine counts the calls outstanding.** -/
theorem counts_of_history {m₀ : Machine} (h₀ : Counts [] m₀) (h : History m₀ ops m)
    (hcalls : ops.countP Operation.isCall < 2 ^ 32) : Counts ops m := by
  induction h with
  | start => exact h₀
  | @retire ops m op m' _ hr ih =>
    have hbefore : ops.countP Operation.isCall < 2 ^ 32 := by
      rw [countP_append] at hcalls
      omega
    exact (ih hbefore).retire hr hcalls
  | fail _ hs ih =>
    have hkept := kept_of_step_error hs
    exact (ih hcalls).of_kept hkept.2 (by rw [hkept.1])
  | @resume ops m _ ih => exact (ih hcalls).of_kept (callDepth_resume m) (finished_resume_iff m)
  | edit _ _ _ ih => exact (ih hcalls).of_kept rfl Iff.rfl

/-- Nothing retires after the `RTS` that finds no call outstanding. -/
theorem eq_nil_of_finished {m₀ : Machine} (h₀ : Counts [] m₀) (h : History m₀ ops m)
    (hcalls : ops.countP Operation.isCall < 2 ^ 32) {before after : List Operation}
    (hops : ops = before ++ .rts :: after) (h0 : outstanding before = 0) : after = [] := by
  induction h generalizing after with
  | start => exact absurd (congrArg List.length hops) (by simp)
  | @retire ops m op m' hm hr ih =>
    rcases List.eq_nil_or_concat after with rfl | ⟨init, last, rfl⟩
    · rfl
    · -- an operation after that `RTS` would retire on a machine that has finished
      have hsplit : ops ++ [op] = (before ++ .rts :: init) ++ [last] := by
        rw [hops, List.concat_eq_append]
        simp
      obtain ⟨hops', -⟩ := List.append_inj' hsplit rfl
      have hbefore : ops.countP Operation.isCall < 2 ^ 32 := by
        rw [countP_append] at hcalls
        omega
      have hinit := ih hbefore hops'
      rw [hinit] at hops'
      have hfinished := (counts_of_history h₀ hm hbefore).finished.mpr ⟨before, hops', h0⟩
      cases hr.inversion.1.symm.trans hfinished
  | fail _ _ ih => exact ih hcalls hops
  | resume _ ih => exact ih hcalls hops
  | edit _ _ _ ih => exact ih hcalls hops

/-- **Calls and returns over a whole history.** After a program has been loaded, as long as fewer
    than 2^32 calls have retired, the count of the machine is that of the operations that have
    retired, in their order. The program has finished exactly if the last of them is an `RTS` that
    found no call outstanding, and nothing retires after the first such `RTS`, which changes
    neither memory nor a register other than the program counter. -/
theorem callDepth_of_history {start m₀ m : Machine} {bytes : List Byte} {address : Address}
    {clearFirst : Bool} {ops : List Operation}
    (hload : loadProgram bytes address clearFirst start = .ok () m₀) (h : History m₀ ops m)
    (hcalls : ops.countP Operation.isCall < 2 ^ 32) :
    m.callDepth.toNat = outstanding ops ∧
    (m.runState = .finished ↔ ∃ before, ops = before ++ [.rts] ∧ outstanding before = 0) ∧
    (∀ before after, ops = before ++ .rts :: after → outstanding before = 0 → after = []) ∧
    (∀ m', Retires m .rts m' → outstanding ops = 0 →
      m' = { m with
        registers := m.registers.setPc m'.registers.pc
        runState := .finished
        cycles := m.cycles + Operation.rts.cycles }) := by
  have h₀ := counts_of_loadProgram hload
  have hm := counts_of_history h₀ h hcalls
  refine ⟨hm.callDepth, hm.finished, ?_, ?_⟩
  · intro before after hops h0
    exact eq_nil_of_finished h₀ h hcalls hops h0
  · intro m' hr h0
    exact hr.rts_of_no_call (hm.callDepth_eq_zero_iff.mpr h0)

/-- A program that calls its own last instruction: `BSR.S` over one `RTS` to the next. -/
def callTwice : List Byte := [0x61, 0x02, 0x4E, 0x75, 0x4E, 0x75]

/-- A machine whose stack has room for one return address. -/
def withStack : Machine :=
  (new { memoryBytes := 16, traceInstructions := false }).applySnapshot
    { Snapshot.empty with usp := some 16 }

/-- That machine with the program loaded, after a number of steps. -/
def callTwiceAfter : Nat → Machine
  | 0 => (settle (loadProgram callTwice 0 false withStack)).2
  | n + 1 => (settle (step (callTwiceAfter n))).2

/-- The call, its return and the `RTS` that finds no call. -/
theorem callDepth_callTwice :
    ∃ m₀ m, loadProgram callTwice 0 false withStack = .ok () m₀ ∧
      History m₀ [.bsr, .rts, .rts] m ∧ m.callDepth.toNat = 0 ∧ m.runState = .finished := by
  have hload : loadProgram callTwice 0 false withStack = .ok () (callTwiceAfter 0) := rfl
  have h₁ : Retires (callTwiceAfter 0) .bsr (callTwiceAfter 1) := retires_step 18 rfl (by rfl)
  have h₂ : Retires (callTwiceAfter 1) .rts (callTwiceAfter 2) := retires_step 16 rfl (by rfl)
  have h₃ : Retires (callTwiceAfter 2) .rts (callTwiceAfter 3) := retires_step 16 rfl (by rfl)
  have h : History (callTwiceAfter 0) [.bsr, .rts, .rts] (callTwiceAfter 3) :=
    ((History.start.retire h₁).retire h₂).retire h₃
  obtain ⟨hdepth, hfinished, -⟩ := callDepth_of_history hload h (by decide)
  exact ⟨_, _, hload, h, hdepth, hfinished.mpr ⟨[.bsr, .rts], rfl, rfl⟩⟩

end Machine

end Mc68000
