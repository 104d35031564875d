import Mc68000.Proofs.Footprint.Execute
import Mc68000.Proofs.Loads
import Mc68000.Proofs.Session

/-!
# Everything that a host does

The requests of a host in any order: steps and runs, loads, resets, snapshots, pushes and pops.

* `HostCall`, `HostReply` -- a request, and what it gives back;
* `Machine.serve?`, `Machine.serveAll?` -- one request, and one after the other;
* `Machine.perform_idle` -- a machine that is not running does nothing;
* `runState_serve` -- only a restart takes a machine out of its idle state, or a resume if it is
  stopped;
* `Machine.config` -- what a machine was built from, which no request changes;
* `runState_of_serveAll` -- **the run state over every order of requests**.
-/

namespace Mc68000

/-! ## 1. Requests -/

/-- A request of a host. -/
inductive HostCall where
  /-- Steps and runs. -/
  | execute (call : Call)
  | resume
  | reset
  | loadProgram (bytes : List Byte) (address : Address) (clearFirst : Bool)
  | loadData (bytes : List Byte) (address : Address) (clearFirst : Bool)
  | applySnapshot (s : Snapshot)
  | pushLong (v : Long)
  | pushWord (v : Word)
  | popLong
  | popWord

/-- What a request gives back. -/
inductive HostReply where
  | executed (reply : Reply)
  /-- What `resume`, `reset` and `applySnapshot` give back. -/
  | done
  | loaded (result : Except Failure Unit)
  | pushed (result : Except Trap Unit)
  | poppedLong (result : Except Trap Long)
  | poppedWord (result : Except Trap Word)

namespace HostCall

/-- A reset or a load of a program that succeeds. -/
def restarts : HostCall → HostReply → Bool
  | reset, _ => true
  | loadProgram .., .loaded (.ok ()) => true
  | _, _ => false

end HostCall

/-- What a step or a run gives back that has nothing to do. -/
def Call.idleReply (outcome : StepOutcome) (boundary : Boundary) : Call → Reply
  | .step => .step (.ok outcome)
  | .run _ => .run (.ok { steps := 0, cycles := 0, boundary })

namespace Machine

/-- One request, `none` for a run that does not end. -/
def serve? (m : Machine) : HostCall → Option (HostReply × Machine)
  | .execute call => (m.perform? call).map fun (reply, m) => (.executed reply, m)
  | .resume => some (.done, m.resume)
  | .reset => some (.done, m.reset)
  | .loadProgram bytes address clearFirst =>
    some ((settle (loadProgram bytes address clearFirst m)).map .loaded id)
  | .loadData bytes address clearFirst =>
    some ((settle (loadData bytes address clearFirst m)).map .loaded id)
  | .applySnapshot s => some (.done, m.applySnapshot s)
  | .pushLong v => some ((settle (Exec.pushLong v m)).map .pushed id)
  | .pushWord v => some ((settle (Exec.pushWord v m)).map .pushed id)
  | .popLong => some ((settle (Exec.popLong m)).map .poppedLong id)
  | .popWord => some ((settle (Exec.popWord m)).map .poppedWord id)

/-- One request after the other, whatever the replies are. -/
def serveAll? (m : Machine) : List HostCall → Option (List HostReply × Machine)
  | [] => some ([], m)
  | call :: calls => do
    let (reply, m) ← m.serve? call
    let (replies, m) ← m.serveAll? calls
    return (reply :: replies, m)

variable {m m' : Machine} {call : HostCall} {reply : HostReply}

/-- **What every request keeps, every session keeps.** The request may depend on what is known of
    it and of its reply. -/
theorem invariant_serveAll {I : Machine → Prop} {allowed : HostCall → HostReply → Prop}
    (hserve : ∀ m m' call reply, m.serve? call = some (reply, m') → allowed call reply →
      I m → I m')
    {calls : List HostCall} {replies : List HostReply}
    (h : m.serveAll? calls = some (replies, m'))
    (hallowed : ∀ p ∈ calls.zip replies, allowed p.1 p.2) (hm : I m) : I m' := by
  induction calls generalizing m replies with
  | nil => cases h; exact hm
  | cons call calls ih =>
    obtain ⟨⟨reply, m₁⟩, hcall, hrest⟩ := Option.bind_eq_some_iff.mp h
    obtain ⟨⟨rest, m₂⟩, hcalls, e⟩ := Option.bind_eq_some_iff.mp hrest
    cases e
    have hfirst := hserve m m₁ call reply hcall (hallowed (call, reply) List.mem_cons_self) hm
    exact ih hcalls (fun p hp => hallowed p (List.mem_cons_of_mem _ hp)) hfirst

/-! ## 2. A machine that is not running -/

theorem step_of_stopped (h : m.runState = .stopped) : step m = .ok .stopped m := by
  unfold step
  rw [h]

theorem step_of_finished (h : m.runState = .finished) : step m = .ok .finished m := by
  unfold step
  rw [h]

/-- A machine at a boundary that is not the end of a limit does not run. -/
theorem run?_of_boundary {boundary : Boundary} (h : m.boundary? = some boundary)
    (hl : boundary ≠ .stepLimit) :
    m.run? = some (.ok { steps := 0, cycles := 0, boundary } m) :=
  run?_eq_some_iff.mpr ⟨runFrom_of_boundary h 0 0 stepCounts, hl⟩

/-- **A machine that has nothing to execute says so and does nothing.** -/
theorem perform_idle {outcome : StepOutcome} {boundary : Boundary}
    (hstep : step m = .ok outcome m) (hb : m.boundary? = some boundary)
    (hl : boundary ≠ .stepLimit) (call : Call) :
    m.perform? call = some (call.idleReply outcome boundary, m) := by
  rcases call with _ | _ | limit
  · show some ((settle (step m)).map Reply.step id) = _
    rw [hstep]
    rfl
  · show m.run?.map _ = _
    rw [run?_of_boundary hb hl]
    rfl
  · show some ((settle (runFrom 0 0 limit m)).map Reply.run id) = _
    rw [runFrom_of_boundary hb]
    rfl

theorem perform_stopped (h : m.runState = .stopped) (call : Call) :
    m.perform? call = some (call.idleReply .stopped .stopped, m) := by
  have hb : m.boundary? = some .stopped := by
    unfold boundary?
    rw [h]
  exact perform_idle (step_of_stopped h) hb nofun call

theorem perform_finished (h : m.runState = .finished) (call : Call) :
    m.perform? call = some (call.idleReply .finished .finished, m) := by
  have hb : m.boundary? = some .finished := by
    unfold boundary?
    rw [h]
  exact perform_idle (step_of_finished h) hb nofun call

/-! ## 3. Loads -/

/-- What a machine was built from. -/
def config (m : Machine) : Config :=
  { memoryBytes := m.memory.capacity, traceInstructions := m.traceInstructions }

/-- A load of a program fails and changes nothing, or it succeeds. -/
theorem loadProgram_cases (bytes : List Byte) (address : Address) (clearFirst : Bool)
    (m : Machine) :
    (∃ f, loadProgram bytes address clearFirst m = .error f m) ∨
    (∃ m', loadProgram bytes address clearFirst m = .ok () m' ∧ m'.config = m.config) := by
  unfold loadProgram
  split
  · exact .inl ⟨_, rfl⟩
  · cases hfill : m.memory.fill? bytes address clearFirst with
    | error f => exact .inl ⟨f, rfl⟩
    | ok memory =>
      refine .inr ⟨_, rfl, ?_⟩
      unfold config
      rw [Memory.capacity_of_fill? hfill]

/-- A load of data fails and changes nothing, or it succeeds and changes nothing but memory. -/
theorem loadData_cases (bytes : List Byte) (address : Address) (clearFirst : Bool) (m : Machine) :
    (∃ f, loadData bytes address clearFirst m = .error f m) ∨
    (∃ memory, loadData bytes address clearFirst m = .ok () { m with memory } ∧
      memory.capacity = m.memory.capacity) := by
  unfold loadData
  cases hfill : m.memory.fill? bytes address clearFirst with
  | error f => exact .inl ⟨f, rfl⟩
  | ok memory => exact .inr ⟨memory, rfl, Memory.capacity_of_fill? hfill⟩

/-- **A load that fails leaves the machine as it was.** -/
theorem eq_of_load_error {f : Failure} (h : m.serve? call = some (.loaded (.error f), m')) :
    m' = m := by
  cases call with
  | loadProgram bytes address clearFirst =>
    change some ((settle (loadProgram bytes address clearFirst m)).map HostReply.loaded id) = _ at h
    rcases loadProgram_cases bytes address clearFirst m with ⟨e, hload⟩ | ⟨m₁, hload, _⟩
    · rw [hload] at h; cases h; rfl
    · rw [hload] at h; cases h
  | loadData bytes address clearFirst =>
    change some ((settle (loadData bytes address clearFirst m)).map HostReply.loaded id) = _ at h
    rcases loadData_cases bytes address clearFirst m with ⟨e, hload⟩ | ⟨memory, hload, _⟩
    · rw [hload] at h; cases h; rfl
    · rw [hload] at h; cases h
  | execute call =>
    obtain ⟨_, _, e⟩ := Option.map_eq_some_iff.mp h
    cases e
  | _ => cases h

/-! ## 4. The run state -/

/-- An action on the stack keeps the run state, whether it succeeds or traps. -/
theorem runState_settle {α : Type} {x : Exec α} {ok trap : List Part}
    (hx : Exec.Touches ok trap x) (hok : Part.finish ∉ ok ∧ Part.system ∉ ok)
    (htrap : Part.finish ∉ trap ∧ Part.system ∉ trap) (m : Machine) :
    (settle (x m)).2.runState = m.runState := by
  have hm := hx m
  cases hxm : x m with
  | ok a m' => rw [hxm] at hm; exact hm.runState_eq hok.1 hok.2
  | error t m' => rw [hxm] at hm; exact hm.runState_eq htrap.1 htrap.2

/-- **Only a restart takes a machine out of its idle state**, or a resume if it is stopped. -/
theorem runState_serve (h : m.serve? call = some (reply, m')) (hidle : m.runState ≠ .running)
    (hrestart : call.restarts reply = false)
    (hresume : call = .resume → m.runState = .finished) : m'.runState = m.runState := by
  cases call with
  | execute call =>
    obtain ⟨⟨answer, m₁⟩, hcall, e⟩ := Option.map_eq_some_iff.mp h
    cases e
    cases hs : m.runState with
    | running => exact absurd hs hidle
    | stopped => rw [perform_stopped hs] at hcall; cases hcall; exact hs
    | finished => rw [perform_finished hs] at hcall; cases hcall; exact hs
  | resume =>
    cases h
    have hfinished := hresume rfl
    unfold resume
    rw [hfinished]
    exact hfinished
  | reset => cases hrestart
  | loadProgram bytes address clearFirst =>
    change some ((settle (loadProgram bytes address clearFirst m)).map HostReply.loaded id) = _ at h
    rcases loadProgram_cases bytes address clearFirst m with ⟨f, hload⟩ | ⟨m₁, hload, _⟩
    · rw [hload] at h; cases h; rfl
    · rw [hload] at h; cases h; cases hrestart
  | loadData bytes address clearFirst =>
    change some ((settle (loadData bytes address clearFirst m)).map HostReply.loaded id) = _ at h
    rcases loadData_cases bytes address clearFirst m with ⟨f, hload⟩ | ⟨memory, hload, _⟩
    · rw [hload] at h; cases h; rfl
    · rw [hload] at h; cases h; rfl
  | applySnapshot s => cases h; rfl
  | pushLong v => cases h; exact runState_settle (Exec.touches_push .long v) (by simp) (by simp) m
  | pushWord v => cases h; exact runState_settle (Exec.touches_push .word _) (by simp) (by simp) m
  | popLong => cases h; exact runState_settle Exec.touches_popLong (by simp) (by simp) m
  | popWord => cases h; exact runState_settle Exec.touches_popWord (by simp) (by simp) m

/-! ## 5. The configuration -/

theorem config_of_changed {parts : List Part} (h : Changed parts m m') : m'.config = m.config := by
  unfold config
  rw [h.capacity_eq, h.traceInstructions_eq]

theorem config_settle {α : Type} {x : Exec α} {ok trap : List Part}
    (hx : Exec.Touches ok trap x) (m : Machine) : (settle (x m)).2.config = m.config := by
  have hm := hx m
  cases hxm : x m with
  | ok a m' => rw [hxm] at hm; exact config_of_changed hm
  | error t m' => rw [hxm] at hm; exact config_of_changed hm

theorem config_step (m : Machine) : (settle (step m)).2.config = m.config := by
  rcases step_cases m with ⟨_, hs⟩ | ⟨_, hs⟩ | ⟨_, _, _, _, hs⟩ | ⟨_, _, _, hs⟩ | ⟨i, _, _, _, hs⟩
  · rw [hs]; rfl
  · rw [hs]; rfl
  · rw [hs]; rfl
  · rw [hs]; rfl
  · have hkept := config_settle i.touches_execute
      { m with registers := m.registers.setPc i.nextAddress }
    rw [hs]
    cases hx : i.execute { m with registers := m.registers.setPc i.nextAddress } with
    | ok _ m₁ => rw [hx] at hkept; exact hkept
    | error t m₁ => rw [hx] at hkept; exact hkept

/-- No request changes what the machine was built from. -/
theorem config_serve (h : m.serve? call = some (reply, m')) : m'.config = m.config := by
  cases call with
  | execute call =>
    obtain ⟨⟨answer, m₁⟩, hcall, e⟩ := Option.map_eq_some_iff.mp h
    cases e
    have hstep (m₂ : Machine) (hm₂ : m₂.config = m.config) :
        (settle (step m₂)).2.config = m.config := (config_step m₂).trans hm₂
    exact invariant_perform hstep hcall rfl
  | resume =>
    cases h
    unfold resume
    split <;> rfl
  | reset =>
    cases h
    show ({ memoryBytes := m.memory.clear.capacity, .. } : Config) = _
    rw [Memory.capacity_clear]
    rfl
  | loadProgram bytes address clearFirst =>
    change some ((settle (loadProgram bytes address clearFirst m)).map HostReply.loaded id) = _ at h
    rcases loadProgram_cases bytes address clearFirst m with ⟨f, hload⟩ | ⟨m₁, hload, hconfig⟩
    · rw [hload] at h; cases h; rfl
    · rw [hload] at h; cases h; exact hconfig
  | loadData bytes address clearFirst =>
    change some ((settle (loadData bytes address clearFirst m)).map HostReply.loaded id) = _ at h
    rcases loadData_cases bytes address clearFirst m with ⟨f, hload⟩ | ⟨memory, hload, hcapacity⟩
    · rw [hload] at h; cases h; rfl
    · rw [hload] at h
      cases h
      show ({ memoryBytes := memory.capacity, .. } : Config) = _
      rw [hcapacity]
      rfl
  | applySnapshot s => cases h; rfl
  | pushLong v => cases h; exact config_settle (Exec.touches_push .long v) m
  | pushWord v => cases h; exact config_settle (Exec.touches_push .word _) m
  | popLong => cases h; exact config_settle Exec.touches_popLong m
  | popWord => cases h; exact config_settle Exec.touches_popWord m

/-! ## 6. Sessions -/

variable {calls : List HostCall} {replies : List HostReply}

theorem finished_of_serveAll (h : m.serveAll? calls = some (replies, m'))
    (hcalls : ∀ p ∈ calls.zip replies, p.1.restarts p.2 = false)
    (hm : m.runState = .finished) : m'.runState = .finished := by
  have hserve (m m' : Machine) (call : HostCall) (reply : HostReply)
      (hs : m.serve? call = some (reply, m')) (hrestart : call.restarts reply = false)
      (hm : m.runState = .finished) : m'.runState = .finished := by
    have hidle : m.runState ≠ .running := by rw [hm]; nofun
    exact (runState_serve hs hidle hrestart fun _ => hm).trans hm
  exact invariant_serveAll hserve h hcalls hm

theorem stopped_of_serveAll (h : m.serveAll? calls = some (replies, m'))
    (hcalls : ∀ p ∈ calls.zip replies, p.1.restarts p.2 = false ∧ p.1 ≠ .resume)
    (hm : m.runState = .stopped) : m'.runState = .stopped := by
  have hserve (m m' : Machine) (call : HostCall) (reply : HostReply)
      (hs : m.serve? call = some (reply, m'))
      (hallowed : call.restarts reply = false ∧ call ≠ .resume)
      (hm : m.runState = .stopped) : m'.runState = .stopped := by
    have hidle : m.runState ≠ .running := by rw [hm]; nofun
    exact (runState_serve hs hidle hallowed.1 fun e => absurd e hallowed.2).trans hm
  exact invariant_serveAll hserve h hcalls hm

theorem config_of_serveAll (h : m.serveAll? calls = some (replies, m')) : m'.config = m.config := by
  have hserve (m₁ m₂ : Machine) (call : HostCall) (reply : HostReply)
      (hs : m₁.serve? call = some (reply, m₂)) (_ : True)
      (hm₁ : m₁.config = m.config) : m₂.config = m.config := (config_serve hs).trans hm₁
  exact invariant_serveAll hserve h (fun _ _ => trivial) rfl

/-- **The run state over every order of requests.** Once finished, a machine stays finished until a
    reset or a load of a program that succeeds; once stopped, until one of these or a resume. As
    long as it is not running, a step and a run succeed, report the run state and change nothing. A
    load that fails changes nothing. A reset leaves the machine that was built at first, so all that
    follows is as on a new one. -/
theorem runState_of_serveAll (h : m.serveAll? calls = some (replies, m')) :
    (m.runState = .finished → (∀ p ∈ calls.zip replies, p.1.restarts p.2 = false) →
      m'.runState = .finished) ∧
    (m.runState = .stopped →
      (∀ p ∈ calls.zip replies, p.1.restarts p.2 = false ∧ p.1 ≠ .resume) →
      m'.runState = .stopped) ∧
    (m'.runState = .stopped → ∀ call : Call,
      m'.perform? call = some (call.idleReply .stopped .stopped, m')) ∧
    (m'.runState = .finished → ∀ call : Call,
      m'.perform? call = some (call.idleReply .finished .finished, m')) ∧
    (∀ call f m₁, m'.serve? call = some (.loaded (.error f), m₁) → m₁ = m') ∧
    (m'.reset = new m.config ∧
      ∀ later, m'.reset.serveAll? later = (new m.config).serveAll? later) := by
  have hreset : m'.reset = new m.config := by
    rw [← config_of_serveAll h]
    exact reset_eq_new m'
  refine ⟨fun hm hcalls => finished_of_serveAll h hcalls hm,
    fun hm hcalls => stopped_of_serveAll h hcalls hm, perform_stopped, perform_finished,
    fun _ _ _ => eq_of_load_error, hreset, fun later => ?_⟩
  rw [hreset]

/-- A machine that has executed its only instruction, an `RTS`. -/
def returned : Machine :=
  (settle (step (settle (loadProgram [0x4E, 0x75] 0 false
    (new { memoryBytes := 4, traceInstructions := false }))).2)).2

/-- Neither a step nor a load that fails nor a resume makes it run again. -/
theorem runState_returned :
    ∃ replies m', returned.serveAll?
        [.execute .step, .loadProgram [0x4E, 0x71] 3 true, .resume] = some (replies, m') ∧
      m'.runState = .finished := by
  have h : returned.serveAll? [.execute .step, .loadProgram [0x4E, 0x71] 3 true, .resume] =
      some ([.executed (.step (.ok .finished)), .loaded (.error (.loadOutOfRange 3 2 4)), .done],
        returned) := by rfl
  refine ⟨_, _, h, (runState_of_serveAll h).1 rfl ?_⟩
  intro p hp
  simp only [List.zip_cons_cons, List.zip_nil_right, List.mem_cons, List.not_mem_nil,
    or_false] at hp
  rcases hp with rfl | rfl | rfl <;> rfl

end Machine

end Mc68000
