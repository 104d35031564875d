import Mc68000.Run

/-!
# Runs

How runs are made of steps, and that they can be cut anywhere.

* `step_cases` -- everything a step can do; `executed_of_retired` -- a step that retires what was
  fetched has executed it;
* `invariant_runFrom` -- **what every step keeps, every run keeps**;
* `runFrom_eq_before` -- the counts that a run starts with are only added in the end;
* `runFrom_add` -- a run of two limits is a run of the first, then one of the second;
* `Machine.Ends` -- what a run without a limit comes to, after however many instructions;
* `runs_split` -- **a run can be cut after any number of instructions**, with a limit or without.
-/

namespace Mc68000

/-- What a run gives back, and the machine it leaves. -/
abbrev RunResult := EStateM.Result Failure Machine RunOutcome

/-- A result as what it gives back and the machine it leaves, whether it is a failure or not. -/
def settle {ε α : Type} : EStateM.Result ε Machine α → Except ε α × Machine
  | .ok a m => (.ok a, m)
  | .error f m => (.error f, m)

/-- Two runs as one: the counts add up, and the second ends it. -/
def RunOutcome.append (first second : RunOutcome) : RunOutcome :=
  { steps := first.steps + second.steps
    cycles := first.cycles + second.cycles
    boundary := second.boundary }

/-- The result of a run that goes on after another one. -/
def RunOutcome.before (first : RunOutcome) : RunResult → RunResult
  | .ok second m => .ok (first.append second) m
  | .error f m => .error f m

/-- Whether a run was cut short by its limit. -/
def Limited : RunResult → Prop
  | .ok outcome _ => outcome.boundary = .stepLimit
  | .error _ _ => False

theorem limited_before (first : RunOutcome) (r : RunResult) :
    Limited (first.before r) = Limited r := by
  cases r <;> rfl

namespace Machine

/-! ## 1. Steps -/

/-- **Everything a step can do**: nothing, for the machine is not running; fail before execution and
    leave the machine as it is; or execute the instruction with the program counter past it. -/
theorem step_cases (m : Machine) :
    (m.runState = .stopped ∧ step m = .ok .stopped m) ∨
    (m.runState = .finished ∧ step m = .ok .finished m) ∨
    (∃ f pc, m.runState = .running ∧ m.code.fetch m.registers.pc = .error f pc ∧
      step m = .error f m) ∨
    (∃ pc, m.runState = .running ∧ m.code.fetch m.registers.pc = .ok none pc ∧
      step m = .error (.trap .illegalInstruction) m) ∨
    (∃ i pc, m.runState = .running ∧ m.code.fetch m.registers.pc = .ok (some i) pc ∧
      step m =
        match i.execute { m with registers := m.registers.setPc i.nextAddress } with
        | .error t m => .error (.trap t) m
        | .ok () m => .ok (.retired i.operation.cycles)
          { m with cycles := m.cycles + i.operation.cycles }) := by
  unfold step
  cases hs : m.runState with
  | stopped => exact .inl ⟨rfl, rfl⟩
  | finished => exact .inr (.inl ⟨rfl, rfl⟩)
  | running =>
    cases hf : m.code.fetch m.registers.pc with
    | error f pc => exact .inr (.inr (.inl ⟨f, pc, rfl, rfl, rfl⟩))
    | ok fetched pc =>
      cases fetched with
      | none => exact .inr (.inr (.inr (.inl ⟨pc, rfl, rfl, rfl⟩)))
      | some i => exact .inr (.inr (.inr (.inr ⟨i, pc, rfl, rfl, rfl⟩)))

/-- A running machine executes the instruction that it fetches. -/
theorem step_of_fetched {m : Machine} {i : Instruction} {pc : Address}
    (hrun : m.runState = .running) (hfetch : m.code.fetch m.registers.pc = .ok (some i) pc) :
    step m =
      match i.execute { m with registers := m.registers.setPc i.nextAddress } with
      | .error t m => .error (.trap t) m
      | .ok () m => .ok (.retired i.operation.cycles)
        { m with cycles := m.cycles + i.operation.cycles } := by
  obtain ⟨hstop, _⟩ | ⟨hstop, _⟩ | ⟨f, _, _, hfail, _⟩ | ⟨_, _, hfail, _⟩ |
    ⟨j, _, _, hfetched, hs⟩ := step_cases m
  · cases hrun.symm.trans hstop
  · cases hrun.symm.trans hstop
  · cases hfetch.symm.trans hfail
  · cases hfetch.symm.trans hfail
  · cases hfetch.symm.trans hfetched
    exact hs

/-- A step that retires has executed what it has fetched. -/
theorem executed_of_retired {m m' : Machine} {i : Instruction} {pc : Address} {cycles : Nat}
    (hfetch : m.code.fetch m.registers.pc = .ok (some i) pc)
    (h : step m = .ok (.retired cycles) m') :
    m.runState = .running ∧ ∃ m₁,
      i.execute { m with registers := m.registers.setPc i.nextAddress } = .ok () m₁ ∧
      m' = { m₁ with cycles := m₁.cycles + i.operation.cycles } := by
  obtain ⟨_, hs⟩ | ⟨_, hs⟩ | ⟨_, _, _, _, hs⟩ | ⟨_, _, _, hs⟩ | ⟨j, _, hrun, hfetched, hs⟩ :=
    step_cases m
  · cases hs.symm.trans h
  · cases hs.symm.trans h
  · cases hs.symm.trans h
  · cases hs.symm.trans h
  · cases hfetch.symm.trans hfetched
    rw [hs] at h
    cases hx : i.execute { m with registers := m.registers.setPc i.nextAddress } with
    | error t m₁ => rw [hx] at h; cases h
    | ok _ m₁ =>
      rw [hx] at h
      cases h
      exact ⟨hrun, m₁, rfl, rfl⟩

/-! ## 2. Runs as sequences of steps -/

theorem runFrom_of_boundary {m : Machine} {boundary : Boundary} (h : m.boundary? = some boundary)
    (steps cycles limit : Nat) :
    runFrom steps cycles limit m = .ok { steps, cycles, boundary } m := by
  unfold runFrom
  rw [h]

theorem runFrom_zero {m : Machine} (h : m.boundary? = none) (steps cycles : Nat) :
    runFrom steps cycles 0 m = .ok { steps, cycles, boundary := .stepLimit } m := by
  unfold runFrom
  rw [h]

theorem runFrom_succ {m : Machine} (h : m.boundary? = none) (steps cycles limit : Nat) :
    runFrom steps cycles (limit + 1) m =
      match step m with
      | .error f m => .error f m
      | .ok (.retired spent) m => runFrom (steps + 1) (cycles + spent) limit m
      | .ok _ m => runFrom steps cycles limit m := by
  cases hs : step m with
  | error f m' => simp only [runFrom, h, hs]
  | ok outcome m' => cases outcome <;> simp only [runFrom, h, hs]

/-- **What every step keeps, every run keeps**, whether it ends well or fails. -/
theorem invariant_runFrom {I : Machine → Prop} (hstep : ∀ m, I m → I (settle (step m)).2)
    (limit steps cycles : Nat) {m : Machine} (hm : I m) :
    I (settle (runFrom steps cycles limit m)).2 := by
  induction limit generalizing steps cycles m with
  | zero =>
    cases hb : m.boundary? with
    | some boundary => rw [runFrom_of_boundary hb]; exact hm
    | none => rw [runFrom_zero hb]; exact hm
  | succ limit ih =>
    cases hb : m.boundary? with
    | some boundary => rw [runFrom_of_boundary hb]; exact hm
    | none =>
      have hnext := hstep m hm
      rw [runFrom_succ hb]
      cases hs : step m with
      | error f m' => rw [hs] at hnext; exact hnext
      | ok outcome m' =>
        rw [hs] at hnext
        cases outcome with
        | retired spent => exact ih _ _ hnext
        | stopped | finished => exact ih _ _ hnext

/-! ## 3. Two limits -/

/-- The counts that a run starts with are only added in the end. -/
theorem runFrom_eq_before (limit steps cycles : Nat) (boundary : Boundary) (m : Machine) :
    runFrom steps cycles limit m =
      RunOutcome.before { steps, cycles, boundary } (runWithLimit limit m) := by
  -- both runs carry counts, so the induction compares two starts that differ by an offset
  have hshift (s c : Nat) : runFrom (steps + s) (cycles + c) limit m =
      RunOutcome.before { steps, cycles, boundary } (runFrom s c limit m) := by
    induction limit generalizing s c m with
    | zero =>
      cases hb : m.boundary? with
      | some b => simp only [runFrom_of_boundary hb]; rfl
      | none => simp only [runFrom_zero hb]; rfl
    | succ limit ih =>
      cases hb : m.boundary? with
      | some b => simp only [runFrom_of_boundary hb]; rfl
      | none =>
        rw [runFrom_succ hb, runFrom_succ hb]
        cases step m with
        | error f m' => rfl
        | ok outcome m' =>
          cases outcome with
          | retired spent =>
            have hnext := ih m' (s + 1) (c + spent)
            rw [← Nat.add_assoc, ← Nat.add_assoc] at hnext
            exact hnext
          | stopped | finished => exact ih m' s c
  exact hshift 0 0

/-- A run of two limits is a run of the first, then one of the second. -/
theorem runFrom_add (n k steps cycles : Nat) (m : Machine) :
    runFrom steps cycles (n + k) m =
      match runFrom steps cycles n m with
      | .error f m₁ => .error f m₁
      | .ok first m₁ => runFrom first.steps first.cycles k m₁ := by
  induction n generalizing steps cycles m with
  | zero =>
    rw [Nat.zero_add]
    cases hb : m.boundary? with
    | some boundary => simp only [runFrom_of_boundary hb]
    | none => simp only [runFrom_zero hb]
  | succ n ih =>
    cases hb : m.boundary? with
    | some boundary => simp only [runFrom_of_boundary hb]
    | none =>
      rw [Nat.add_right_comm, runFrom_succ hb, runFrom_succ hb]
      cases step m with
      | error f m' => rfl
      | ok outcome m' =>
        cases outcome with
        | retired spent => exact ih (steps + 1) (cycles + spent) m'
        | stopped | finished => exact ih steps cycles m'

/-- The same of runs from the start. -/
theorem runWithLimit_add (n k : Nat) (m : Machine) :
    runWithLimit (n + k) m =
      match runWithLimit n m with
      | .error f m₁ => .error f m₁
      | .ok first m₁ => first.before (runWithLimit k m₁) := by
  rw [runWithLimit, runFrom_add]
  cases h : runWithLimit n m with
  | error f m₁ => rw [runWithLimit] at h; rw [h]
  | ok first m₁ =>
    rw [runWithLimit] at h
    rw [h]
    exact runFrom_eq_before k first.steps first.cycles first.boundary m₁

/-! ## 4. No limit -/

/-- A run without a limit comes to `r`, after however many instructions. -/
def Ends (m : Machine) (r : RunResult) : Prop :=
  ∃ limit, runWithLimit limit m = r ∧ ¬Limited r

/-- A run that its limit has not cut short has come to a boundary. -/
theorem boundary?_of_runFrom {limit steps cycles : Nat} {m m' : Machine} {outcome : RunOutcome}
    (h : runFrom steps cycles limit m = .ok outcome m') (hl : outcome.boundary ≠ .stepLimit) :
    m'.boundary? = some outcome.boundary := by
  induction limit generalizing steps cycles m with
  | zero =>
    cases hb : m.boundary? with
    | some boundary => rw [runFrom_of_boundary hb] at h; cases h; exact hb
    | none => rw [runFrom_zero hb] at h; cases h; exact absurd rfl hl
  | succ limit ih =>
    cases hb : m.boundary? with
    | some boundary => rw [runFrom_of_boundary hb] at h; cases h; exact hb
    | none =>
      rw [runFrom_succ hb] at h
      cases hs : step m with
      | error f m₁ => rw [hs] at h; cases h
      | ok o m₁ =>
        rw [hs] at h
        cases o with
        | retired spent => exact ih h
        | stopped | finished => exact ih h

/-- A higher limit changes nothing in a run that its limit has not cut short. -/
theorem runWithLimit_of_le {limit more : Nat} {m : Machine} {r : RunResult}
    (h : runWithLimit limit m = r) (hl : ¬Limited r) (hle : limit ≤ more) :
    runWithLimit more m = r := by
  obtain ⟨k, rfl⟩ := Nat.exists_eq_add_of_le hle
  rw [runWithLimit_add, h]
  cases r with
  | error f m₁ => rfl
  | ok first m₁ =>
    -- the rest of the limit finds the machine at its boundary and stays there
    have hb := boundary?_of_runFrom h hl
    show first.before (runFrom 0 0 k m₁) = _
    rw [runFrom_of_boundary hb]
    rfl

/-- The result of a run without a limit is what the run comes to within the steps that 64 bits
    count. -/
theorem run?_eq_some_iff {m : Machine} {r : RunResult} :
    m.run? = some r ↔ runWithLimit stepCounts m = r ∧ ¬Limited r := by
  unfold run?
  cases h : runWithLimit stepCounts m with
  | error f m' => exact ⟨fun e => ⟨Option.some.inj e, Option.some.inj e ▸ id⟩, fun e => e.1 ▸ rfl⟩
  | ok outcome m' =>
    obtain ⟨steps, cycles, boundary⟩ := outcome
    cases boundary with
    | stepLimit => exact ⟨nofun, fun e => absurd (e.1 ▸ rfl) e.2⟩
    | endOfCode | finished | stopped =>
      exact ⟨fun e => ⟨Option.some.inj e, Option.some.inj e ▸ nofun⟩, fun e => e.1 ▸ rfl⟩

theorem ends_of_run? {m : Machine} {r : RunResult} (h : m.run? = some r) : m.Ends r :=
  ⟨stepCounts, run?_eq_some_iff.mp h⟩

/-- What a run comes to after a first part is what the first part or the rest of it comes to. -/
theorem ends_iff (m : Machine) (n : Nat) (r : RunResult) :
    m.Ends r ↔
      match runWithLimit n m with
      | .error f m₁ => r = .error f m₁
      | .ok first m₁ => ∃ second, m₁.Ends second ∧ r = first.before second := by
  constructor
  · rintro ⟨limit, h, hl⟩
    have hsum := runWithLimit_of_le h hl (Nat.le_add_left limit n)
    rw [runWithLimit_add] at hsum
    cases hn : runWithLimit n m with
    | error f m₁ => rw [hn] at hsum; exact hsum.symm
    | ok first m₁ =>
      rw [hn] at hsum
      have hsum : first.before (runWithLimit limit m₁) = r := hsum
      refine ⟨runWithLimit limit m₁, ⟨limit, rfl, ?_⟩, hsum.symm⟩
      rw [← limited_before first, hsum]
      exact hl
  · cases hn : runWithLimit n m with
    | error f m₁ => rintro rfl; exact ⟨n, hn, id⟩
    | ok first m₁ =>
      rintro ⟨second, ⟨limit, h, hl⟩, rfl⟩
      refine ⟨n + limit, ?_, (limited_before first second).symm ▸ hl⟩
      rw [runWithLimit_add, hn, ← h]

/-- The same of the result that is computed. -/
theorem run?_split {m : Machine} {r : RunResult} (h : m.run? = some r) (n : Nat) :
    match runWithLimit n m with
    | .error f m₁ => r = .error f m₁
    | .ok first m₁ => ∃ second, m₁.run? = some second ∧ r = first.before second := by
  obtain ⟨hr, hl⟩ := run?_eq_some_iff.mp h
  have hsum := runWithLimit_of_le hr hl (Nat.le_add_left stepCounts n)
  rw [runWithLimit_add] at hsum
  cases hn : runWithLimit n m with
  | error f m₁ => rw [hn] at hsum; exact hsum.symm
  | ok first m₁ =>
    rw [hn] at hsum
    have hsum : first.before (runWithLimit stepCounts m₁) = r := hsum
    refine ⟨runWithLimit stepCounts m₁, run?_eq_some_iff.mpr ⟨rfl, ?_⟩, hsum.symm⟩
    rw [← limited_before first, hsum]
    exact hl

/-- **A run can be cut after any number of instructions**, with a limit or without. -/
theorem runs_split (m : Machine) (n : Nat) :
    (∀ k, runWithLimit (n + k) m =
      match runWithLimit n m with
      | .error f m₁ => .error f m₁
      | .ok first m₁ => first.before (runWithLimit k m₁)) ∧
    (∀ r, m.Ends r ↔
      match runWithLimit n m with
      | .error f m₁ => r = .error f m₁
      | .ok first m₁ => ∃ second, m₁.Ends second ∧ r = first.before second) ∧
    (∀ r, m.run? = some r →
      match runWithLimit n m with
      | .error f m₁ => r = .error f m₁
      | .ok first m₁ => ∃ second, m₁.run? = some second ∧ r = first.before second) :=
  ⟨fun k => runWithLimit_add n k m, fun r => ends_iff m n r, fun _ h => run?_split h n⟩

/-- A machine with two `NOP` as its program. -/
def twoNops : Machine :=
  { new { memoryBytes := 4, traceInstructions := false } with
    memory := (Memory.zeros 4).setBytes 0 [0x4E, 0x71, 0x4E, 0x71]
    codeEnd := 4 }

/-- Its run is one instruction, and then a run of the rest. -/
theorem runs_split_twoNops :
    ∃ r first m₁ second, twoNops.run? = some r ∧ runWithLimit 1 twoNops = .ok first m₁ ∧
      m₁.run? = some second ∧ r = first.before second := by
  obtain ⟨r, hr⟩ : ∃ r, twoNops.run? = some r := ⟨_, rfl⟩
  obtain ⟨first, m₁, hfirst⟩ : ∃ first m₁, runWithLimit 1 twoNops = .ok first m₁ := ⟨_, _, rfl⟩
  have hsplit := (runs_split twoNops 1).2.2 r hr
  rw [hfirst] at hsplit
  obtain ⟨second, hsecond, e⟩ := hsplit
  exact ⟨r, first, m₁, second, hr, hfirst, hsecond, e⟩

end Machine

end Mc68000
