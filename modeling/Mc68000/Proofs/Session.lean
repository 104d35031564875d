import Mc68000.Proofs.Runs

/-!
# Sessions

What a host does with a loaded machine: it steps and runs it, any number of times, and goes on
after a failure too.

* `Call`, `Reply` -- a request that executes instructions, and what it gives back;
* `Machine.perform?`, `Machine.performAll?` -- one request, and one after the other;
* `invariant_performAll` -- **what every step keeps, every session keeps**.
-/

namespace Mc68000

/-- A request that executes instructions. -/
inductive Call where
  | step
  /-- A run, up to a limit if there is one. -/
  | run (limit : Option Nat)
  deriving DecidableEq, Repr

/-- What a request gives back. -/
inductive Reply where
  | step (result : Except Failure StepOutcome)
  | run (result : Except Failure RunOutcome)

namespace Machine

/-- One request, `none` for a run that does not end. -/
def perform? (m : Machine) : Call → Option (Reply × Machine)
  | .step => some ((settle (step m)).map .step id)
  | .run (some limit) => some ((settle (runWithLimit limit m)).map .run id)
  | .run none => m.run?.map fun r => (settle r).map .run id

/-- One request after the other, whatever the replies are. -/
def performAll? (m : Machine) : List Call → Option (List Reply × Machine)
  | [] => some ([], m)
  | call :: calls => do
    let (reply, m) ← m.perform? call
    let (replies, m) ← m.performAll? calls
    return (reply :: replies, m)

section Invariant

variable {I : Machine → Prop} {m m' : Machine}

theorem invariant_perform (hstep : ∀ m, I m → I (settle (step m)).2) {call : Call} {reply : Reply}
    (h : m.perform? call = some (reply, m')) (hm : I m) : I m' := by
  cases call with
  | step => cases h; exact hstep m hm
  | run limit =>
    cases limit with
    | some limit => cases h; exact invariant_runFrom hstep limit 0 0 hm
    | none =>
      obtain ⟨r, hr, e⟩ := Option.map_eq_some_iff.mp h
      have hrun := invariant_runFrom hstep stepCounts 0 0 hm
      cases e
      rw [← (run?_eq_some_iff.mp hr).1]
      exact hrun

/-- **What every step keeps, every session keeps.** -/
theorem invariant_performAll (hstep : ∀ m, I m → I (settle (step m)).2) {calls : List Call}
    {replies : List Reply} (h : m.performAll? calls = some (replies, m')) (hm : I m) : I m' := by
  induction calls generalizing m replies with
  | nil => cases h; exact hm
  | cons call calls ih =>
    obtain ⟨⟨reply, m₁⟩, hcall, hrest⟩ := Option.bind_eq_some_iff.mp h
    obtain ⟨⟨rest, m₂⟩, hcalls, e⟩ := Option.bind_eq_some_iff.mp hrest
    cases e
    exact ih hcalls (invariant_perform hstep hcall hm)

end Invariant

end Machine

end Mc68000
