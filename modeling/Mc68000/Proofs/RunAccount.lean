import Mathlib.Algebra.Group.Nat.Defs
import Mathlib.Logic.ExistsUnique
import Mc68000.Proofs.CallDepth

/-!
# The account of a run

Steps and cycles are counted three times over: by the run itself, by the machine, and by the
prices of the operations. The three agree.

* `Operation.cycles_bounds` -- the lowest and the highest price;
* `price` -- what some operations cost together;
* `Machine.Executes` -- steps that retire one operation after the other, with the operations;
* `Executes.total_eq` -- the machine's own count rises by their price; `Executes.unique` -- **so the
  operations between two machines are a function of the two**;
* `runFrom_cases` -- what a run does next; `executes_of_runFrom_ok`, `executes_of_runFrom_error`
  -- it is such a stretch, and then its end or the step that fails;
* `run_accounts` -- **the account of every run, with a limit or without**.
-/

namespace Mc68000

/-! ## 1. Prices -/

theorem CostClass.cost_bounds (c : CostClass) : 4 ≤ c.cost ∧ c.cost ≤ 140 := by
  cases c <;> decide

theorem Operation.cycles_bounds (op : Operation) : 4 ≤ op.cycles ∧ op.cycles ≤ 140 :=
  op.costClass.cost_bounds

/-- What some operations cost together. -/
def price (ops : List Operation) : Nat := ops.foldr (fun op total => op.cycles + total) 0

theorem price_cons (op : Operation) (ops : List Operation) :
    price (op :: ops) = op.cycles + price ops := rfl

theorem price_bounds (ops : List Operation) :
    4 * ops.length ≤ price ops ∧ price ops ≤ 140 * ops.length := by
  induction ops with
  | nil => exact ⟨Nat.le_refl 0, Nat.le_refl 0⟩
  | cons op ops ih =>
    obtain ⟨hlow, hhigh⟩ := op.cycles_bounds
    rw [price_cons, List.length_cons]
    omega

namespace Machine

variable {m m₁ m' : Machine} {op : Operation} {ops : List Operation} {f : Failure}

/-! ## 2. The machine's own count -/

/-- A step that retires adds the price of its operation. -/
theorem Retires.total_eq (h : Retires m op m') : m'.cycles = m.cycles + op.cycles := by
  obtain ⟨_, i, m₁, rfl, hx, rfl⟩ := h.inversion
  have hkept : m₁.cycles = m.cycles := (i.touches_execute.changed hx).cycles_eq
  show m₁.cycles + _ = _
  rw [hkept]

/-- A step that fails adds nothing. -/
theorem total_of_step_error (h : step m = .error f m') : m'.cycles = m.cycles := by
  rcases step_cases m with ⟨_, hs⟩ | ⟨_, hs⟩ | ⟨_, _, _, _, hs⟩ | ⟨_, _, _, hs⟩ |
    ⟨i, pc, _, _, hs⟩
  · cases hs.symm.trans h
  · cases hs.symm.trans h
  · cases hs.symm.trans h
    rfl
  · cases hs.symm.trans h
    rfl
  · rw [hs] at h
    have hleft := i.touches_execute { m with registers := m.registers.setPc i.nextAddress }
    cases hx : i.execute { m with registers := m.registers.setPc i.nextAddress } with
    | ok _ m₁ => rw [hx] at h; cases h
    | error t m₁ =>
      rw [hx] at h hleft
      cases h
      exact hleft.cycles_eq

/-- One machine retires one operation and becomes one machine. -/
theorem Retires.unique {op' : Operation} {m₂ : Machine} (h : Retires m op m₁)
    (h' : Retires m op' m₂) : op = op' ∧ m₁ = m₂ := by
  obtain ⟨hop, _, hs⟩ := h
  obtain ⟨hop', _, hs'⟩ := h'
  cases hop.symm.trans hop'
  cases hs.symm.trans hs'
  exact ⟨rfl, rfl⟩

/-! ## 3. Stretches with their operations -/

/-- From `m` on, steps retire the operations, one after the other, and lead to `m'`. -/
inductive Executes : List Operation → Machine → Machine → Prop where
  | nil (m : Machine) : Executes [] m m
  | cons {op : Operation} {ops : List Operation} {m m₁ m' : Machine} (hr : Retires m op m₁)
      (h : Executes ops m₁ m') : Executes (op :: ops) m m'

theorem Executes.total_eq (h : Executes ops m m') : m'.cycles = m.cycles + price ops := by
  induction h with
  | nil m => rfl
  | cons hr _ ih => rw [ih, hr.total_eq, price_cons, Nat.add_assoc]

/-- **No two stretches of one price start at the same machine.** -/
theorem Executes.unique {ops' : List Operation} {m₂ : Machine} (h : Executes ops m m₁)
    (h' : Executes ops' m m₂) (hprice : price ops = price ops') : ops = ops' ∧ m₁ = m₂ := by
  induction h generalizing ops' with
  | nil m =>
    cases h' with
    | nil => exact ⟨rfl, rfl⟩
    | @cons op rest =>
      -- an operation more costs four cycles at least
      have hmore := (price_bounds (op :: rest)).1
      rw [← hprice, List.length_cons] at hmore
      simp [price] at hmore
  | @cons op rest m m₁ m' hr _ ih =>
    cases h' with
    | nil =>
      have hmore := (price_bounds (op :: rest)).1
      rw [hprice, List.length_cons] at hmore
      simp [price] at hmore
    | cons hr' h' =>
      obtain ⟨rfl, rfl⟩ := hr.unique hr'
      rw [price_cons, price_cons] at hprice
      obtain ⟨rfl, hend⟩ := ih h' (Nat.add_left_cancel hprice)
      exact ⟨rfl, hend⟩

/-! ## 4. Boundaries -/

/-- What holds of a machine at which a run has ended. -/
def EndsAt (m : Machine) : Boundary → Prop
  | .endOfCode => m.runState = .running ∧ m.codeEnd ≤ m.registers.pc
  | .stepLimit => m.runState = .running ∧ m.registers.pc < m.codeEnd
  | .stopped => m.runState = .stopped
  | .finished => m.runState = .finished

theorem endsAt_of_boundary? {boundary : Boundary} (h : m.boundary? = some boundary) :
    m.EndsAt boundary ∧ boundary ≠ .stepLimit := by
  unfold boundary? at h
  cases hs : m.runState with
  | stopped => rw [hs] at h; cases h; exact ⟨hs, nofun⟩
  | finished => rw [hs] at h; cases h; exact ⟨hs, nofun⟩
  | running =>
    simp only [hs] at h
    split at h
    · rename_i hend
      cases h
      exact ⟨⟨hs, of_decide_eq_true hend⟩, nofun⟩
    · cases h

theorem endsAt_of_no_boundary (h : m.boundary? = none) : m.EndsAt .stepLimit := by
  unfold boundary? at h
  cases hs : m.runState with
  | stopped => rw [hs] at h; cases h
  | finished => rw [hs] at h; cases h
  | running =>
    simp only [hs] at h
    split at h
    · cases h
    · rename_i hend
      have hlt : ¬m.codeEnd ≤ m.registers.pc := fun hle => hend (decide_eq_true hle)
      exact ⟨hs, BitVec.not_le.mp hlt⟩

/-- The run state at the end tells whether the machine stopped or finished. -/
theorem EndsAt.stopped_iff {boundary : Boundary} (h : m.EndsAt boundary) :
    boundary = .stopped ↔ m.runState = .stopped := by
  cases boundary <;> simp_all [EndsAt]

theorem EndsAt.finished_iff {boundary : Boundary} (h : m.EndsAt boundary) :
    boundary = .finished ↔ m.runState = .finished := by
  cases boundary <;> simp_all [EndsAt]

/-! ## 5. Runs -/

/-- At no boundary, a step retires an operation at its price, or it fails. -/
theorem step_of_no_boundary (h : m.boundary? = none) :
    (∃ op m₁, Retires m op m₁ ∧ step m = .ok (.retired op.cycles) m₁) ∨
    ∃ f m₁, step m = .error f m₁ := by
  have hrun : m.runState = .running := (endsAt_of_no_boundary h).1
  rcases step_cases m with ⟨hstop, _⟩ | ⟨hstop, _⟩ | ⟨f, _, _, _, hs⟩ | ⟨_, _, _, hs⟩ |
    ⟨i, pc, _, hfetch, hs⟩
  · cases hrun.symm.trans hstop
  · cases hrun.symm.trans hstop
  · exact .inr ⟨f, m, hs⟩
  · exact .inr ⟨_, m, hs⟩
  · cases hx : i.execute { m with registers := m.registers.setPc i.nextAddress } with
    | error t m₁ =>
      rw [hx] at hs
      exact .inr ⟨_, m₁, hs⟩
    | ok _ m₁ =>
      rw [hx] at hs
      have hop : m.fetched?.map (·.operation) = some i.operation := by
        unfold fetched?
        rw [hfetch]
        rfl
      exact .inl ⟨i.operation, _, ⟨hop, _, hs⟩, hs⟩

/-- A run ends at a boundary or at its limit, or it retires an operation and goes on, or it fails. -/
theorem runFrom_cases (steps cycles limit : Nat) (m : Machine) :
    (∃ boundary, m.boundary? = some boundary ∧
      runFrom steps cycles limit m = .ok { steps, cycles, boundary } m) ∨
    (limit = 0 ∧ m.boundary? = none ∧
      runFrom steps cycles limit m = .ok { steps, cycles, boundary := .stepLimit } m) ∨
    (∃ rest op m₁, limit = rest + 1 ∧ Retires m op m₁ ∧
      runFrom steps cycles limit m = runFrom (steps + 1) (cycles + op.cycles) rest m₁) ∨
    ∃ f m₁, step m = .error f m₁ ∧ runFrom steps cycles limit m = .error f m₁ := by
  cases hb : m.boundary? with
  | some boundary => exact .inl ⟨boundary, rfl, runFrom_of_boundary hb steps cycles limit⟩
  | none =>
    cases limit with
    | zero => exact .inr (.inl ⟨rfl, rfl, runFrom_zero hb steps cycles⟩)
    | succ rest =>
      rw [runFrom_succ hb]
      rcases step_of_no_boundary hb with ⟨op, m₁, hr, hs⟩ | ⟨f, m₁, hs⟩
      · exact .inr (.inr (.inl ⟨rest, op, m₁, rfl, hr, by rw [hs]⟩))
      · exact .inr (.inr (.inr ⟨f, m₁, hs, by rw [hs]⟩))

/-- **A run that ends well** has counted the operations of a stretch, no more than its limit, and
    has come to its limit only after as many. -/
theorem executes_of_runFrom_ok {steps cycles limit : Nat} {outcome : RunOutcome}
    (h : runFrom steps cycles limit m = .ok outcome m') :
    ∃ ops, Executes ops m m' ∧ outcome.steps = steps + ops.length ∧
      outcome.cycles = cycles + price ops ∧ ops.length ≤ limit ∧
      m'.EndsAt outcome.boundary ∧ (outcome.boundary = .stepLimit → ops.length = limit) := by
  -- the counts so far are those of any stretch before, so the induction is on the steps left
  induction limit using Nat.strongRecOn generalizing steps cycles m with
  | ind limit ih =>
    rcases runFrom_cases steps cycles limit m with ⟨boundary, hb, hrun⟩ | ⟨rfl, hb, hrun⟩ |
      ⟨rest, op, m₁, rfl, hr, hrun⟩ | ⟨f, m₁, _, hrun⟩
    · cases hrun.symm.trans h
      obtain ⟨hend, hne⟩ := endsAt_of_boundary? hb
      exact ⟨[], .nil _, rfl, rfl, Nat.zero_le _, hend, fun he => absurd he hne⟩
    · cases hrun.symm.trans h
      exact ⟨[], .nil _, rfl, rfl, Nat.le_refl 0, endsAt_of_no_boundary hb, fun _ => rfl⟩
    · obtain ⟨ops, hops, hsteps, hcycles, hle, hend, hlimit⟩ :=
        ih rest (Nat.lt_succ_self rest) (hrun.symm.trans h)
      refine ⟨op :: ops, .cons hr hops, ?_, ?_, Nat.succ_le_succ hle, hend, fun he => ?_⟩
      · rw [hsteps, List.length_cons]
        omega
      · rw [hcycles, price_cons, Nat.add_assoc]
      · rw [List.length_cons, hlimit he]
    · cases hrun.symm.trans h

/-- **A run that fails** has executed a stretch, and the step behind it fails. -/
theorem executes_of_runFrom_error {steps cycles limit : Nat}
    (h : runFrom steps cycles limit m = .error f m') :
    ∃ ops m₁, Executes ops m m₁ ∧ step m₁ = .error f m' := by
  induction limit using Nat.strongRecOn generalizing steps cycles m with
  | ind limit ih =>
    rcases runFrom_cases steps cycles limit m with ⟨_, _, hrun⟩ | ⟨_, _, hrun⟩ |
      ⟨rest, op, m₁, rfl, hr, hrun⟩ | ⟨f', m₁, hs, hrun⟩
    · cases hrun.symm.trans h
    · cases hrun.symm.trans h
    · obtain ⟨ops, m₂, hops, hfail⟩ := ih rest (Nat.lt_succ_self rest) (hrun.symm.trans h)
      exact ⟨op :: ops, m₂, .cons hr hops, hfail⟩
    · cases hrun.symm.trans h
      exact ⟨[], m, .nil m, hs⟩

/-! ## 6. The account -/

/-- The account of a run from `m` that has retired `ops` and ended well at `m'`. -/
structure Accounts (limit : Option Nat) (ops : List Operation) (m : Machine) (outcome : RunOutcome)
    (m' : Machine) : Prop where
  executes : Executes ops m m'
  steps_eq : outcome.steps = ops.length
  steps_le : ∀ n, limit = some n → outcome.steps ≤ n
  cycles_eq : outcome.cycles = price ops
  total_eq : m'.cycles = m.cycles + outcome.cycles
  le_cycles : 4 * outcome.steps ≤ outcome.cycles
  cycles_le : outcome.cycles ≤ 140 * outcome.steps
  stepLimit : outcome.boundary = .stepLimit →
    limit = some outcome.steps ∧ m'.runState = .running ∧ m'.registers.pc < m'.codeEnd
  endOfCode : outcome.boundary = .endOfCode →
    m'.runState = .running ∧ m'.codeEnd ≤ m'.registers.pc
  stopped : outcome.boundary = .stopped ↔ m'.runState = .stopped
  finished : outcome.boundary = .finished ↔ m'.runState = .finished

/-- A run within `n` steps has an account, also under a limit that it would have come to later. -/
theorem exists_accounts {n : Nat} {limit : Option Nat} {outcome : RunOutcome}
    (h : runWithLimit n m = .ok outcome m') (hle : ∀ k, limit = some k → n ≤ k)
    (hlimit : outcome.boundary = .stepLimit → limit = some n) :
    ∃ ops, Accounts limit ops m outcome m' := by
  obtain ⟨ops, hops, hsteps, hcycles, hfew, hend, hfull⟩ := executes_of_runFrom_ok h
  rw [Nat.zero_add] at hsteps hcycles
  obtain ⟨hlow, hhigh⟩ := price_bounds ops
  refine ⟨ops, {
    executes := hops
    steps_eq := hsteps
    steps_le := fun k hk => ?_
    cycles_eq := hcycles
    total_eq := by rw [hops.total_eq, hcycles]
    le_cycles := by rw [hsteps, hcycles]; exact hlow
    cycles_le := by rw [hsteps, hcycles]; exact hhigh
    stepLimit := fun he => ?_
    endOfCode := fun he => ?_
    stopped := hend.stopped_iff
    finished := hend.finished_iff }⟩
  · rw [hsteps]
    exact Nat.le_trans hfew (hle k hk)
  · rw [he] at hend
    rw [hsteps, hfull he]
    exact ⟨hlimit he, hend⟩
  · rw [he] at hend
    exact hend

/-- A request for a run is a run of some limit: of its own, or of one that cuts nothing short. -/
theorem exists_run_of_perform {limit : Option Nat} {result : Except Failure RunOutcome}
    (h : m.perform? (.run limit) = some (.run result, m')) :
    ∃ n, settle (runWithLimit n m) = (result, m') ∧ (∀ k, limit = some k → n ≤ k) ∧
      (Limited (runWithLimit n m) → limit = some n) := by
  cases limit with
  | some n =>
    refine ⟨n, ?_, fun k hk => Nat.le_of_eq (Option.some.inj hk), fun _ => rfl⟩
    cases hr : runWithLimit n m <;> simp_all [perform?, settle]
  | none =>
    obtain ⟨r, hr, hreply⟩ := Option.map_eq_some_iff.mp h
    obtain ⟨hrun, hl⟩ := run?_eq_some_iff.mp hr
    refine ⟨stepCounts, ?_, nofun, fun hcut => absurd (hrun ▸ hcut) hl⟩
    rw [hrun]
    cases r <;> simp_all [settle]

/-- **The account of every run, with a limit or without.** A run that ends well has counted the
    operations that it has retired, one step and one price each, and so has the machine; its
    boundary tells the state it leaves. Of a run that fails the machine has counted the operations
    before the step that failed. The counts have no width here: as long as the machine's total fits
    one, so do the counts of the run, which are no greater. -/
theorem run_accounts {limit : Option Nat} {result : Except Failure RunOutcome}
    (h : m.perform? (.run limit) = some (.run result, m')) :
    match result with
    | .ok outcome => ∃! ops, Accounts limit ops m outcome m'
    | .error f => ∃! ops, m'.cycles = m.cycles + price ops ∧
        ∃ m₁, Executes ops m m₁ ∧ step m₁ = .error f m' := by
  obtain ⟨n, hrun, hle, hlimit⟩ := exists_run_of_perform h
  cases hr : runWithLimit n m with
  | ok outcome m₁ =>
    rw [hr] at hrun hlimit
    cases hrun
    obtain ⟨ops, hops⟩ := exists_accounts hr hle hlimit
    refine ⟨ops, hops, fun ops' hops' => ?_⟩
    have hprice : price ops' = price ops := hops'.cycles_eq.symm.trans hops.cycles_eq
    exact (hops'.executes.unique hops.executes hprice).1
  | error f m₁ =>
    rw [hr] at hrun
    cases hrun
    obtain ⟨ops, m₂, hops, hfail⟩ := executes_of_runFrom_error hr
    have htotal : m'.cycles = m.cycles + price ops := by
      rw [total_of_step_error hfail, hops.total_eq]
    refine ⟨ops, ⟨htotal, m₂, hops, hfail⟩, ?_⟩
    rintro ops' ⟨htotal', m₃, hops', -⟩
    have hprice : price ops' = price ops := Nat.add_left_cancel (htotal'.symm.trans htotal)
    exact (hops'.unique hops hprice).1

/-- A machine with a program that traps: `MOVEQ #1,D0`, then `TRAP #3`. -/
def trapping : Machine :=
  { new { memoryBytes := 4, traceInstructions := false } with
    memory := (Memory.zeros 4).setBytes 0 [0x70, 0x01, 0x4E, 0x43]
    codeEnd := 4 }

/-- Its run under a limit of one instruction, and its run without a limit. -/
theorem run_accounts_trapping :
    (∃ outcome m', trapping.perform? (.run (some 1)) = some (.run (.ok outcome), m') ∧
      ∃! ops, Accounts (some 1) ops trapping outcome m') ∧
    ∃ f m', trapping.perform? (.run none) = some (.run (.error f), m') ∧
      ∃! ops, m'.cycles = trapping.cycles + price ops ∧
        ∃ m₁, Executes ops trapping m₁ ∧ step m₁ = .error f m' := by
  obtain ⟨outcome, m₁, hlimited⟩ : ∃ outcome m₁,
      trapping.perform? (.run (some 1)) = some (.run (.ok outcome), m₁) := ⟨_, _, rfl⟩
  obtain ⟨f, m₂, hfailed⟩ : ∃ f m₂,
      trapping.perform? (.run none) = some (.run (.error f), m₂) := ⟨_, _, rfl⟩
  exact ⟨⟨outcome, m₁, hlimited, run_accounts hlimited⟩, f, m₂, hfailed, run_accounts hfailed⟩

end Machine

end Mc68000
