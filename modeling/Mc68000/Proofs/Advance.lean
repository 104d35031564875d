import Mc68000.Proofs.Runs

/-!
# Stretches of a run

A run that is followed from machine to machine, one instruction at a time.

* `Machine.Advances` -- a number of instructions lead from one machine to another;
* `Advances.trans` -- one stretch after the other;
* `Advances.run?_eq` -- **a stretch that leads to a boundary is the whole run**;
* `Advances.stepLimit` -- a run inside a stretch comes to its limit;
* `stepLimit_of_endless` -- **so a machine that leads on and on comes to every limit, and to no
  end**.
-/

namespace Mc68000.Machine

/-- From `m` a run executes `count` instructions, none of which traps, and is at `m'`. -/
inductive Advances : Nat → Machine → Machine → Prop where
  | refl (m : Machine) : Advances 0 m m
  | step {count cycles m m₁ m'} (hb : m.boundary? = none)
      (hs : step m = .ok (.retired cycles) m₁) (h : Advances count m₁ m') :
      Advances (count + 1) m m'

namespace Advances

variable {m m₁ m' : Machine} {n k : Nat}

theorem one {cycles : Nat} (hb : m.boundary? = none)
    (hs : Machine.step m = .ok (.retired cycles) m') : Advances 1 m m' := .step hb hs (.refl m')

theorem trans (h : Advances n m m₁) (h' : Advances k m₁ m') : Advances (n + k) m m' := by
  induction h with
  | refl m => rwa [Nat.zero_add]
  | step hb hs _ ih =>
    rw [Nat.add_right_comm]
    exact .step hb hs (ih h')

/-- A run goes through the stretch and on from its end. -/
theorem runFrom_eq (h : Advances n m m') : ∃ spent, ∀ steps cycles limit,
    runFrom steps cycles (n + limit) m = runFrom (steps + n) (cycles + spent) limit m' := by
  induction h with
  | refl m => exact ⟨0, fun steps cycles limit => by rw [Nat.zero_add]; rfl⟩
  | @step count spent m m₁ m' hb hs _ ih =>
    obtain ⟨rest, hrest⟩ := ih
    refine ⟨spent + rest, fun steps cycles limit => ?_⟩
    rw [Nat.add_right_comm, runFrom_succ hb, hs]
    dsimp only
    rw [hrest, Nat.add_assoc steps, Nat.add_comm 1, Nat.add_assoc cycles]

/-- A stretch cut before its end: the run goes on there. -/
theorem cut (h : Advances (k + (n + 1)) m m') :
    ∃ m₁, Advances k m m₁ ∧ m₁.boundary? = none := by
  induction k generalizing m with
  | zero =>
    rw [Nat.zero_add] at h
    cases h with
    | step hb _ _ => exact ⟨m, .refl m, hb⟩
  | succ k ih =>
    rw [Nat.add_right_comm] at h
    cases h with
    | step hb hs h =>
      obtain ⟨m₂, hm₂, hb₂⟩ := ih h
      exact ⟨m₂, .step hb hs hm₂, hb₂⟩

/-- A run inside a stretch comes to its limit. -/
theorem stepLimit (h : Advances n m m') (hk : k < n) :
    ∃ cycles m₁, runWithLimit k m = .ok { steps := k, cycles, boundary := .stepLimit } m₁ := by
  obtain ⟨j, rfl⟩ := Nat.exists_eq_add_of_lt hk
  rw [Nat.add_assoc] at h
  obtain ⟨m₁, hm₁, hb⟩ := h.cut
  obtain ⟨spent, hrun⟩ := hm₁.runFrom_eq
  have hlimit := hrun 0 0 0
  rw [Nat.add_zero, runFrom_zero hb, Nat.zero_add, Nat.zero_add] at hlimit
  exact ⟨spent, m₁, hlimit⟩

/-- **A stretch that leads to a boundary is the whole run.** -/
theorem run?_eq {boundary : Boundary} (h : Advances n m m') (hb : m'.boundary? = some boundary)
    (hl : boundary ≠ .stepLimit) (hn : n ≤ stepCounts) :
    ∃ cycles, m.run? = some (.ok { steps := n, cycles, boundary } m') := by
  obtain ⟨spent, hrun⟩ := h.runFrom_eq
  have hwhole := hrun 0 0 (stepCounts - n)
  rw [Nat.add_sub_cancel' hn, runFrom_of_boundary hb, Nat.zero_add, Nat.zero_add] at hwhole
  exact ⟨spent, run?_eq_some_iff.mpr ⟨hwhole, hl⟩⟩

end Advances

variable {m : Machine}

/-- **A machine that leads on and on comes to every limit.** -/
theorem stepLimit_of_endless (h : ∀ k, ∃ n m', k < n ∧ Advances n m m') (k : Nat) :
    ∃ cycles m₁, runWithLimit k m = .ok { steps := k, cycles, boundary := .stepLimit } m₁ := by
  obtain ⟨n, m', hk, hm'⟩ := h k
  exact hm'.stepLimit hk

/-- And so to no end. -/
theorem not_ends_of_endless (h : ∀ k, ∃ n m', k < n ∧ Advances n m m') (r : RunResult) :
    ¬m.Ends r := by
  rintro ⟨limit, hrun, hl⟩
  obtain ⟨cycles, m₁, hlimit⟩ := stepLimit_of_endless h limit
  rw [hrun] at hlimit
  rw [hlimit] at hl
  exact hl rfl

end Mc68000.Machine
