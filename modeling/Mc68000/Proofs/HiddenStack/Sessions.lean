import Mc68000.Proofs.HiddenStack.Operations
import Mc68000.Proofs.UserMode

/-!
# Sessions and the hidden stack pointer

A program in user mode cannot find out the supervisor stack pointer, however long it runs and
however often the host goes on after a trap.

* `Instruction.blind_execute` -- **every instruction is blind**: what is privileged is refused, and
  what is not never looks there;
* `Machine.step_withSsp`, `runFrom_withSsp`, `performAll?_withSsp` -- a step, a run and a session
  give the same with another supervisor stack pointer;
* `SameButSsp` -- two machines that differ in it at most;
* `Machine.ssp_unobservable` -- **no run and no session tells two such machines apart**, and each
  keeps its own.
-/

namespace Mc68000

open Exec

/-! ## 1. Instructions -/

/-- **Every instruction is blind.** -/
theorem Instruction.blind_execute (i : Instruction) : Blind i.execute := by
  cases hp : i.operation.isPrivileged with
  | true => exact blind_of_refused fun _ hu => execute_of_user hp hu
  | false =>
    unfold execute
    cases hop : i.operation with
    | logicToSr | moveToSr | moveUsp | rte | stop | reset => rw [hop] at hp; cases hp
    | logicToCcr op => exact blind_logicToCcr op i
    | logicImmediate op => exact blind_logicImmediate op i
    | logic op => exact blind_logic op i
    | not => exact blind_not i
    | tst => exact blind_tst i
    | tas => exact blind_tas i
    | bitStatic op => exact blind_bit op _ i
    | bitDynamic op => exact blind_bitDynamic op i
    | arithImmediate op => exact blind_arithImmediate op i
    | arith op => exact blind_arith op i
    | arithAddress op => exact blind_arithAddress op i
    | arithQuick op => exact blind_arithQuick op.arith i
    | arithExtended op => exact blind_arithExtended op.arith i
    | cmpm => exact blind_cmpm i
    | neg => exact blind_neg i
    | negx => exact blind_negx i
    | multiply s => exact blind_multiply s i
    | divide s => exact blind_divide s i
    | decimal op => exact blind_decimal op i
    | nbcd => exact blind_nbcd i
    | shiftMemory kind direction => exact blind_shiftMemory kind direction i
    | shiftRegister kind direction => exact blind_shiftRegister kind direction i
    | move => exact blind_move i
    | movea => exact blind_movea i
    | moveq => exact blind_moveq i
    | moveFromSr => exact blind_moveFromSr i
    | moveToCcr => exact blind_moveToCcr i
    | movep => exact blind_movep i
    | movem => exact blind_movem i
    | clr => exact blind_clr i
    | ext => exact blind_ext i
    | swap => exact blind_swap i
    | exg => exact blind_exg i
    | lea => exact blind_lea i
    | pea => exact blind_pea i
    | link => exact blind_link i
    | unlk => exact blind_unlk i
    | scc => exact blind_scc i
    | bra => exact blind_branch i _
    | bsr => exact blind_bsr i
    | bcc => exact blind_bcc i
    | dbcc => exact blind_dbcc i
    | jmp => exact blind_jmp i
    | jsr => exact blind_jsr i
    | rts => exact blind_rts
    | rtr => exact blind_rtr
    | trap => exact blind_throw _
    | trapv => exact blind_trapv
    | illegal => exact blind_throw _
    | chk => exact blind_chk i
    | nop => exact .pure ()

namespace Machine

variable {m m' : Machine}

/-! ## 2. Steps, runs and sessions -/

theorem user_step (hu : m.registers.isSupervisor = false) :
    (settle (step m)).2.registers.isSupervisor = false := (systemKept_step (.refl hu)).user

/-- **A step gives the same with another supervisor stack pointer.** The fetch reads memory and the
    program counter, and the rest is the instruction's. -/
theorem step_withSsp (hu : m.registers.isSupervisor = false) (v : Address) :
    step (m.withSsp v) = withSspAfter v (step m) := by
  obtain ⟨hrun, hs⟩ | ⟨hrun, hs⟩ | ⟨f, pc, hrun, hfetch, hs⟩ | ⟨pc, hrun, hfetch, hs⟩ |
    ⟨i, pc, hrun, hfetch, hs⟩ := step_cases m
  · have hrun' : (m.withSsp v).runState = .stopped := hrun
    rw [hs, step, hrun']
    rfl
  · have hrun' : (m.withSsp v).runState = .finished := hrun
    rw [hs, step, hrun']
    rfl
  · have hrun' : (m.withSsp v).runState = .running := hrun
    have hfetch' : (m.withSsp v).code.fetch (m.withSsp v).registers.pc = .error f pc := hfetch
    rw [hs, step, hrun', hfetch']
    rfl
  · have hrun' : (m.withSsp v).runState = .running := hrun
    have hfetch' : (m.withSsp v).code.fetch (m.withSsp v).registers.pc = .ok none pc := hfetch
    rw [hs, step, hrun', hfetch']
    rfl
  · have hsame := (i.blind_execute { m with registers := m.registers.setPc i.nextAddress } hu).2 v
    have hnext : step (m.withSsp v) = _ := step_of_fetched hrun hfetch
    have hmoved : i.execute { m.withSsp v with
        registers := (m.withSsp v).registers.setPc i.nextAddress } = _ := hsame
    rw [hs, hnext, hmoved]
    cases i.execute { m with registers := m.registers.setPc i.nextAddress } with
    | error t m' => rfl
    | ok _ m' => rfl

/-- **So does a run.** -/
theorem runFrom_withSsp (limit steps cycles : Nat) (hu : m.registers.isSupervisor = false)
    (v : Address) :
    runFrom steps cycles limit (m.withSsp v) = withSspAfter v (runFrom steps cycles limit m) := by
  induction limit generalizing steps cycles m with
  | zero =>
    cases hb : m.boundary? with
    | some boundary =>
      have hb' : (m.withSsp v).boundary? = some boundary := hb
      rw [runFrom_of_boundary hb, runFrom_of_boundary hb']
      rfl
    | none =>
      have hb' : (m.withSsp v).boundary? = none := hb
      rw [runFrom_zero hb, runFrom_zero hb']
      rfl
  | succ limit ih =>
    cases hb : m.boundary? with
    | some boundary =>
      have hb' : (m.withSsp v).boundary? = some boundary := hb
      rw [runFrom_of_boundary hb, runFrom_of_boundary hb']
      rfl
    | none =>
      have hb' : (m.withSsp v).boundary? = none := hb
      have hnext := user_step hu
      rw [runFrom_succ hb, runFrom_succ hb', step_withSsp hu]
      cases hs : step m with
      | error f m₁ => rfl
      | ok outcome m₁ =>
        rw [hs] at hnext
        cases outcome with
        | retired spent => exact ih _ _ hnext
        | stopped | finished => exact ih _ _ hnext

theorem settle_withSspAfter {ε α : Type} (v : Address) (r : EStateM.Result ε Machine α) :
    settle (withSspAfter v r) = ((settle r).1, (settle r).2.withSsp v) := by
  cases r <;> rfl

theorem perform?_withSsp (hu : m.registers.isSupervisor = false) (v : Address) (call : Call) :
    (m.withSsp v).perform? call = (m.perform? call).map fun (reply, m) => (reply, m.withSsp v) := by
  cases call with
  | step =>
    unfold perform?
    rw [step_withSsp hu, settle_withSspAfter]
    rfl
  | run limit =>
    cases limit with
    | some limit =>
      have hrun : runWithLimit limit (m.withSsp v) = withSspAfter v (runWithLimit limit m) :=
        runFrom_withSsp limit 0 0 hu v
      unfold perform?
      dsimp only
      rw [hrun, settle_withSspAfter]
      rfl
    | none =>
      have hrun : runWithLimit stepCounts (m.withSsp v) =
          withSspAfter v (runWithLimit stepCounts m) := runFrom_withSsp stepCounts 0 0 hu v
      unfold perform? run?
      dsimp only
      rw [hrun]
      cases runWithLimit stepCounts m with
      | error f m' => rfl
      | ok outcome m' =>
        obtain ⟨steps, cycles, boundary⟩ := outcome
        cases boundary <;> rfl

/-- **So does a session.** -/
theorem performAll?_withSsp (hu : m.registers.isSupervisor = false) (v : Address)
    (calls : List Call) :
    (m.withSsp v).performAll? calls =
      (m.performAll? calls).map fun (replies, m) => (replies, m.withSsp v) := by
  induction calls generalizing m with
  | nil => rfl
  | cons call calls ih =>
    unfold performAll?
    rw [perform?_withSsp hu]
    cases hcall : m.perform? call with
    | none => rfl
    | some result =>
      obtain ⟨reply, m₁⟩ := result
      have hu₁ : m₁.registers.isSupervisor = false :=
        invariant_perform (I := (·.registers.isSupervisor = false)) (fun _ => user_step) hcall hu
      simp only [Option.map_some, Option.bind_eq_bind, Option.bind_some]
      rw [ih hu₁]
      cases m₁.performAll? calls with
      | none => rfl
      | some result => rfl

/-- Only a run without a limit can keep a session from its end. -/
theorem mem_of_performAll?_eq_none {calls : List Call} (h : m.performAll? calls = none) :
    .run none ∈ calls := by
  induction calls generalizing m with
  | nil => cases h
  | cons call calls ih =>
    unfold performAll? at h
    cases hcall : m.perform? call with
    | none =>
      have hrun : call = .run none := by
        cases call with
        | step => cases hcall
        | run limit =>
          cases limit with
          | some limit => cases hcall
          | none => rfl
      rw [hrun]
      exact List.mem_cons_self
    | some result =>
      obtain ⟨reply, m₁⟩ := result
      rw [hcall] at h
      cases hrest : m₁.performAll? calls with
      | none => exact List.mem_cons_of_mem _ (ih hrest)
      | some result =>
        simp only [Option.bind_eq_bind, Option.bind_some, hrest] at h
        cases h

/-! ## 3. Two machines -/

/-- `m'` is `m` with another supervisor stack pointer, or `m` itself. -/
def SameButSsp (m m' : Machine) : Prop := ∃ v, m' = m.withSsp v

/-- Two machines that were the same but for the supervisor stack pointer still are, and each has its
    own. -/
structure KeptApart (m₁ m₂ m₁' m₂' : Machine) : Prop where
  same : SameButSsp m₁' m₂'
  first_eq : m₁'.registers.ssp = m₁.registers.ssp
  second_eq : m₂'.registers.ssp = m₂.registers.ssp

/-- **User mode cannot observe the supervisor stack pointer.** Of two machines that differ in it
    alone, a run of any length and any session give the same replies, and afterwards they differ
    in it alone, each with its own. -/
theorem ssp_unobservable {m₁ m₂ : Machine} (hsame : SameButSsp m₁ m₂)
    (hu : m₁.registers.isSupervisor = false) :
    (∀ n, (settle (runWithLimit n m₁)).1 = (settle (runWithLimit n m₂)).1 ∧
      KeptApart m₁ m₂ (settle (runWithLimit n m₁)).2 (settle (runWithLimit n m₂)).2) ∧
    ∀ calls,
      (.run none ∈ calls ∧ m₁.performAll? calls = none ∧ m₂.performAll? calls = none) ∨
      ∃ replies m₁' m₂', m₁.performAll? calls = some (replies, m₁') ∧
        m₂.performAll? calls = some (replies, m₂') ∧ KeptApart m₁ m₂ m₁' m₂' := by
  obtain ⟨v, rfl⟩ := hsame
  refine ⟨fun n => ?_, fun calls => ?_⟩
  · have hrun : runWithLimit n (m₁.withSsp v) = withSspAfter v (runWithLimit n m₁) :=
      runFrom_withSsp n 0 0 hu v
    have hkept : SystemKept m₁ (settle (runWithLimit n m₁)).2 :=
      invariant_runFrom (fun _ => systemKept_step) n 0 0 (.refl hu)
    rw [hrun, settle_withSspAfter]
    exact ⟨rfl, ⟨v, rfl⟩, hkept.ssp_eq, rfl⟩
  · rw [performAll?_withSsp hu]
    cases hcalls : m₁.performAll? calls with
    | none => exact .inl ⟨mem_of_performAll?_eq_none hcalls, rfl, rfl⟩
    | some result =>
      obtain ⟨replies, m₁'⟩ := result
      have hkept : SystemKept m₁ m₁' :=
        invariant_performAll (fun _ => systemKept_step) hcalls (.refl hu)
      exact .inr ⟨replies, m₁', m₁'.withSsp v, rfl, rfl, ⟨v, rfl⟩, hkept.ssp_eq, rfl⟩

/-- A machine in user mode with a program that looks for a stack pointer: `MOVE.L A7,-(A7)`,
    `MOVE.L A7,D0`, then `MOVE USP,A0`, which is refused. -/
def searching : Machine :=
  { new { memoryBytes := 16, traceInstructions := false } with
    registers := { Registers.zeros with usp := 16 }
    memory := (Memory.zeros 16).setBytes 0 [0x2F, 0x0F, 0x20, 0x0F, 0x4E, 0x68]
    codeEnd := 6 }

/-- It finds the same whatever the supervisor stack pointer is. -/
theorem ssp_unobservable_searching :
    searching.registers.isSupervisor = false ∧
      SameButSsp searching (searching.withSsp 0x1000) ∧
      (settle (runWithLimit 3 searching)).1 =
        (settle (runWithLimit 3 (searching.withSsp 0x1000))).1 ∧
      ∃ replies m₁' m₂', searching.performAll? [.step, .step, .step, .step] = some (replies, m₁') ∧
        (searching.withSsp 0x1000).performAll? [.step, .step, .step, .step] = some (replies, m₂') ∧
        KeptApart searching (searching.withSsp 0x1000) m₁' m₂' ∧
        m₁'.registers.readData 0 = 12 := by
  have hsame : SameButSsp searching (searching.withSsp 0x1000) := ⟨_, rfl⟩
  obtain ⟨hruns, hsessions⟩ := ssp_unobservable hsame (by decide)
  obtain ⟨hnever, _⟩ | ⟨replies, m₁', m₂', hfirst, hsecond, hkept⟩ :=
    hsessions [.step, .step, .step, .step]
  · exact absurd hnever (by decide)
  · have hfound : (searching.performAll? [.step, .step, .step, .step]).map
        (·.2.registers.readData 0) = some 12 := rfl
    rw [hfirst] at hfound
    exact ⟨by decide, hsame, (hruns 3).1, replies, m₁', m₂', hfirst, hsecond, hkept,
      Option.some.inj hfound⟩

end Machine

end Mc68000
