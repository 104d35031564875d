import Mathlib.Logic.Relation
import Mc68000.Semantics
import Mc68000.Proofs.StatusBits

/-!
# Footprints

Which parts of a machine an action changes when it succeeds, and which when it traps. What an
instruction can do to a machine is said once in these terms; what it cannot do follows.

* `Part`, `Update` -- the parts of a machine, and the elementary changes of each;
* `Among`, `Within` -- a part, and a list of parts, inside another list; instances find them;
* `Changed` -- a machine after any number of updates of given parts;
* `Changed.view_eq`, with `data_eq`, `memory_eq`, `agreeOutside`, … -- **a part that is not among
  them is as it was**;
* `Exec.Touches` -- an action that succeeds within some parts and traps within others;
* `Exec.Commits` -- an action that never traps;
* `prepare`, `commit`, `raise` -- how they follow one another: what may trap comes first.
-/

namespace Mc68000

/-! ## 1. Updates -/

/-- The parts of a machine that instructions change. -/
inductive Part where
  /-- The data registers. -/
  | data
  /-- The address registers and the active stack pointer. -/
  | address
  | pc
  /-- The bits of a mask in the status register. -/
  | flags (mask : Word)
  | memory
  | callDepth
  /-- The end of the program. -/
  | finish
  /-- What only supervisor mode may change. -/
  | system
  deriving DecidableEq

/-- One elementary change of a part. -/
inductive Update : Part → Machine → Machine → Prop where
  | writeData (m : Machine) (n : Fin 8) (v : Long) (size : Size) :
      Update .data m { m with registers := m.registers.writeData n v size }
  | writeAddress (m : Machine) (n : Fin 8) (v : Long) (size : Size) :
      Update .address m { m with registers := m.registers.writeAddress n v size }
  | setSp (m : Machine) (v : Address) :
      Update .address m { m with registers := m.registers.setSp v }
  | setPc (m : Machine) (v : Address) :
      Update .pc m { m with registers := m.registers.setPc v }
  | setFlags (m : Machine) (mask sr : Word) (hmask : mask &&& Status.conditions = mask)
      (hsr : Status.AgreeOutside mask sr m.registers.sr) :
      Update (.flags mask) m { m with registers := { m.registers with sr } }
  | store (m : Machine) (a : Address) (size : Size) (v : Long)
      (ha : accessible a size m.memory.capacity = true) :
      Update .memory m { m with memory := m.memory.store a.toNat size v }
  | setDepth (m : Machine) (d : BitVec 32) : Update .callDepth m { m with callDepth := d }
  | finish (m : Machine) : Update .finish m { m with runState := .finished }
  | setSr (m : Machine) (w : Word) :
      Update .system m { m with registers := m.registers.setSr w }
  | setUsp (m : Machine) (v : Address) :
      Update .system m { m with registers := { m.registers with usp := v } }
  | stop (m : Machine) : Update .system m { m with runState := .stopped }

/-- A part is one of some parts. -/
class Among (p : Part) (parts : List Part) : Prop where
  mem : p ∈ parts

instance Among.tail {p q : Part} {parts : List Part} [h : Among p parts] : Among p (q :: parts) :=
  ⟨List.mem_cons_of_mem q h.mem⟩

instance Among.head {p : Part} {parts : List Part} : Among p (p :: parts) :=
  ⟨List.mem_cons_self⟩

/-- Some parts are all among others. -/
class Within (parts more : List Part) : Prop where
  subset : parts ⊆ more

namespace Within

variable {p : Part} {parts more : List Part}

instance refl : Within parts parts := ⟨List.Subset.refl parts⟩

instance tail [h : Within parts more] : Within parts (p :: more) :=
  ⟨List.subset_cons_of_subset p h.subset⟩

instance nil : Within [] more := ⟨List.nil_subset more⟩

instance cons [hp : Among p more] [h : Within parts more] : Within (p :: parts) more :=
  ⟨List.cons_subset.mpr ⟨hp.mem, h.subset⟩⟩

end Within

/-- A machine after any number of updates of the given parts. -/
def Changed (parts : List Part) : Machine → Machine → Prop :=
  Relation.ReflTransGen fun m m' => ∃ p ∈ parts, Update p m m'

namespace Changed

variable {parts : List Part} {m m' m'' : Machine}

theorem refl (parts : List Part) (m : Machine) : Changed parts m m := Relation.ReflTransGen.refl

theorem trans (h : Changed parts m m') (h' : Changed parts m' m'') : Changed parts m m'' :=
  Relation.ReflTransGen.trans h h'

theorem one {p : Part} [hp : Among p parts] (hu : Update p m m') : Changed parts m m' :=
  Relation.ReflTransGen.single ⟨p, hp.mem, hu⟩

theorem mono {more : List Part} [hsub : Within parts more] (h : Changed parts m m') :
    Changed more m m' :=
  Relation.ReflTransGen.mono (fun _ _ ⟨p, hp, hu⟩ => ⟨p, hsub.subset hp, hu⟩) m m' h

/-! ## 2. What stays -/

/-- **A view that no update of the parts changes is as it was.** -/
theorem view_eq {β : Type} (view : Machine → β)
    (hview : ∀ p ∈ parts, ∀ m m', Update p m m' → view m' = view m) (h : Changed parts m m') :
    view m' = view m := by
  induction h with
  | refl => rfl
  | tail _ hstep ih =>
    obtain ⟨p, hp, hu⟩ := hstep
    exact (hview p hp _ _ hu).trans ih

theorem cycles_eq (h : Changed parts m m') : m'.cycles = m.cycles :=
  view_eq (·.cycles) (fun _ _ _ _ hu => by cases hu <;> rfl) h

theorem codeStart_eq (h : Changed parts m m') : m'.codeStart = m.codeStart :=
  view_eq (·.codeStart) (fun _ _ _ _ hu => by cases hu <;> rfl) h

theorem codeEnd_eq (h : Changed parts m m') : m'.codeEnd = m.codeEnd :=
  view_eq (·.codeEnd) (fun _ _ _ _ hu => by cases hu <;> rfl) h

theorem traceInstructions_eq (h : Changed parts m m') :
    m'.traceInstructions = m.traceInstructions :=
  view_eq (·.traceInstructions) (fun _ _ _ _ hu => by cases hu <;> rfl) h

theorem capacity_eq (h : Changed parts m m') : m'.memory.capacity = m.memory.capacity := by
  refine view_eq (fun m => m.memory.capacity) (fun _ _ m m' hu => ?_) h
  cases hu with
  | store => exact Memory.capacity_store ..
  | _ => rfl

theorem data_eq (h : Changed parts m m') (hp : Part.data ∉ parts) :
    m'.registers.data = m.registers.data := by
  refine view_eq (fun m => m.registers.data) (fun p hmem m m' hu => ?_) h
  cases hu with
  | writeData => exact absurd hmem hp
  | writeAddress => exact Registers.data_writeAddress ..
  | setSp => exact Registers.data_setSp ..
  | _ => rfl

theorem pc_eq (h : Changed parts m m') (hp : Part.pc ∉ parts) :
    m'.registers.pc = m.registers.pc := by
  refine view_eq (fun m => m.registers.pc) (fun p hmem m m' hu => ?_) h
  cases hu with
  | setPc => exact absurd hmem hp
  | writeAddress => exact Registers.pc_writeAddress ..
  | setSp => exact Registers.pc_setSp ..
  | _ => rfl

theorem memory_eq (h : Changed parts m m') (hp : Part.memory ∉ parts) :
    m'.memory = m.memory := by
  refine view_eq (fun m => m.memory) (fun p hmem m m' hu => ?_) h
  cases hu with
  | store => exact absurd hmem hp
  | _ => rfl

theorem callDepth_eq (h : Changed parts m m') (hp : Part.callDepth ∉ parts) :
    m'.callDepth = m.callDepth := by
  refine view_eq (fun m => m.callDepth) (fun p hmem m m' hu => ?_) h
  cases hu with
  | setDepth => exact absurd hmem hp
  | _ => rfl

theorem runState_eq (h : Changed parts m m') (hp : Part.finish ∉ parts)
    (hp' : Part.system ∉ parts) : m'.runState = m.runState := by
  refine view_eq (fun m => m.runState) (fun p hmem m m' hu => ?_) h
  cases hu with
  | finish => exact absurd hmem hp
  | stop => exact absurd hmem hp'
  | _ => rfl

/-- The status register changes in the masks of the parts at most. -/
theorem agreeOutside {mask : Word} (h : Changed parts m m')
    (hmask : ∀ bits, Part.flags bits ∈ parts → bits &&& mask = bits)
    (hp : Part.system ∉ parts) :
    Status.AgreeOutside mask m'.registers.sr m.registers.sr := by
  refine view_eq (fun m => m.registers.sr &&& ~~~mask) (fun p hmem m m' hu => ?_) h
  cases hu with
  | setFlags _ bits _ _ hsr => exact hsr.mono (hmask bits hmem)
  | setSr => exact absurd hmem hp
  | writeAddress => dsimp only; rw [Registers.sr_writeAddress]
  | setSp => dsimp only; rw [Registers.sr_setSp]
  | _ => rfl

end Changed

/-! ## 3. Actions -/

namespace Exec

variable {α β : Type} {x : Exec α} {f : α → Exec β} {p₁ q₁ ok trap : List Part}

/-- From any machine the action succeeds having changed the parts of `ok` at most, or traps having
    changed those of `trap` at most. -/
def Touches (ok trap : List Part) (x : Exec α) : Prop :=
  ∀ m, match x m with
    | .ok _ m' => Changed ok m m'
    | .error _ m' => Changed trap m m'

/-- From any machine the action succeeds, having changed the parts of `ok` at most. -/
def Commits (ok : List Part) (x : Exec α) : Prop := ∀ m, ∃ a m', x m = .ok a m' ∧ Changed ok m m'

theorem bind_ok {m m' : Machine} {b : β} (h : (x >>= f) m = .ok b m') :
    ∃ a m₁, x m = .ok a m₁ ∧ f a m₁ = .ok b m' := by
  rw [run_bind] at h
  cases hx : x m with
  | ok a m₁ => rw [hx] at h; exact ⟨a, m₁, rfl, h⟩
  | error t m₁ => rw [hx] at h; cases h

theorem Touches.changed {m m' : Machine} {a : α} (hx : Touches ok trap x) (h : x m = .ok a m') :
    Changed ok m m' := by
  have hm := hx m
  rw [h] at hm
  exact hm

theorem Touches.mono [Within p₁ ok] [Within q₁ trap] (h : Touches p₁ q₁ x) :
    Touches ok trap x := by
  intro m
  have hm := h m
  cases hx : x m with
  | ok a m' => rw [hx] at hm; exact hm.mono
  | error t m' => rw [hx] at hm; exact hm.mono

theorem Touches.widen [Within q₁ trap] (h : Touches ok q₁ x) : Touches ok trap x := h.mono

theorem Commits.touches [Within p₁ ok] (h : Commits p₁ x) : Touches ok trap x := by
  intro m
  obtain ⟨a, m', hx, hm⟩ := h m
  rw [hx]
  exact hm.mono

theorem Commits.safe (h : Commits ok x) : Touches ok trap x := h.touches

theorem Commits.mono [Within p₁ ok] (h : Commits p₁ x) : Commits ok x := by
  intro m
  obtain ⟨a, m', hx, hm⟩ := h m
  exact ⟨a, m', hx, hm.mono⟩

theorem Commits.pure (a : α) : Commits ok (Pure.pure a : Exec α) :=
  fun m => ⟨a, m, rfl, .refl ok m⟩

theorem Touches.pure (a : α) : Touches ok trap (Pure.pure a : Exec α) := fun m => .refl ok m

theorem touches_throw (t : Trap) : Touches ok trap (throw t : Exec α) := fun m => .refl trap m

/-- Behind a trap nothing happens. -/
theorem touches_throw_bind (t : Trap) : Touches ok trap ((throw t : Exec α) >>= f) :=
  fun m => .refl trap m

/-- What may trap comes first: a trap behind it leaves what it has changed. -/
theorem Touches.prepare [Within p₁ ok] [Within p₁ trap] [Within q₁ trap] (hx : Touches p₁ q₁ x)
    (hf : ∀ a, Touches ok trap (f a)) : Touches ok trap (x >>= f) := by
  intro m
  have hm := hx m
  rw [run_bind]
  cases hxm : x m with
  | error t m' => rw [hxm] at hm; exact hm.mono
  | ok a m' =>
    rw [hxm] at hm
    have hm' := hf a m'
    dsimp only
    cases hfm : f a m' with
    | ok b m'' => rw [hfm] at hm'; exact hm.mono.trans hm'
    | error t m'' => rw [hfm] at hm'; exact hm.mono.trans hm'

theorem Commits.prepare [Within p₁ ok] [Within p₁ trap] (hx : Commits p₁ x)
    (hf : ∀ a, Touches ok trap (f a)) : Touches ok trap (x >>= f) :=
  (hx.touches : Touches p₁ [] x).prepare hf

/-- What may not trap comes last: it leaves nothing behind that a trap could show. -/
theorem Touches.commit [Within p₁ ok] [Within q₁ trap] (hx : Touches p₁ q₁ x)
    (hf : ∀ a, Commits ok (f a)) : Touches ok trap (x >>= f) := by
  intro m
  have hm := hx m
  rw [run_bind]
  cases hxm : x m with
  | error t m' => rw [hxm] at hm; exact hm.mono
  | ok a m' =>
    rw [hxm] at hm
    obtain ⟨b, m'', hfm, hm'⟩ := hf a m'
    dsimp only
    rw [hfm]
    exact hm.mono.trans hm'

/-- What is done right before a trap is what the trap leaves. -/
theorem Commits.raise [Within p₁ trap] (hx : Commits p₁ x) (t : Trap) :
    Touches ok trap (x >>= fun _ => (throw t : Exec β)) := by
  intro m
  obtain ⟨a, m', hxm, hm⟩ := hx m
  rw [run_bind, hxm]
  exact hm.mono

theorem Commits.bind [Within p₁ ok] (hx : Commits p₁ x) (hf : ∀ a, Commits ok (f a)) :
    Commits ok (x >>= f) := by
  intro m
  obtain ⟨a, m', hxm, hm⟩ := hx m
  obtain ⟨b, m'', hfm, hm'⟩ := hf a m'
  refine ⟨b, m'', ?_, hm.mono.trans hm'⟩
  rw [run_bind, hxm]
  exact hfm

end Exec

end Mc68000
