import Mc68000.Proofs.Footprint.Execute
import Mc68000.Proofs.Session

/-!
# User mode

A program in user mode never reaches what belongs to the system: the system byte of the status
register, the supervisor stack pointer, and the machine's stop.

* `SystemKept` -- a machine in user mode that has the system state of another one;
* `SystemKept.update`, `SystemKept.changed` -- every update outside the system part keeps it;
* `systemKept_step` -- a step keeps it, for what is privileged traps in user mode;
* `system_kept_of_user` -- **so does every session**, whatever the program and however often the
  host goes on after a trap.
-/

namespace Mc68000

open Status

/-- `m'` is in user mode and has the system state of `m`. -/
structure SystemKept (m m' : Machine) : Prop where
  user : m'.registers.isSupervisor = false
  systemByte_eq : systemByte m'.registers.sr = systemByte m.registers.sr
  ssp_eq : m'.registers.ssp = m.registers.ssp
  stopped : m'.runState = .stopped → m.runState = .stopped

namespace SystemKept

variable {m₀ m m' : Machine}

theorem refl (h : m.registers.isSupervisor = false) : SystemKept m m := ⟨h, rfl, rfl, id⟩

/-- Nothing but the status register, the supervisor stack pointer and the run state counts. -/
theorem of_eq (h : SystemKept m₀ m) (hsr : m'.registers.sr = m.registers.sr)
    (hssp : m'.registers.ssp = m.registers.ssp) (hrun : m'.runState = m.runState) :
    SystemKept m₀ m' where
  user := by
    show hasFlag m'.registers.sr supervisor = false
    rw [hsr]
    exact h.user
  systemByte_eq := by rw [hsr, h.systemByte_eq]
  ssp_eq := hssp.trans h.ssp_eq
  stopped := fun e => h.stopped (hrun ▸ e)

/-- An update outside the system part keeps the system state. -/
theorem update {p : Part} (hp : p ≠ .system) (h : SystemKept m₀ m) (hu : Update p m m') :
    SystemKept m₀ m' := by
  cases hu with
  | writeData | setPc | store | setDepth => exact h.of_eq rfl rfl rfl
  | writeAddress _ n v size =>
    exact h.of_eq (Registers.sr_writeAddress ..) (Registers.ssp_writeAddress_of_user h.user ..) rfl
  | setSp _ v => exact h.of_eq (Registers.sr_setSp ..) (Registers.ssp_setSp_of_user h.user v) rfl
  | setFlags _ mask sr hmask hsr =>
    -- the condition codes hold neither S nor any other bit of the system byte
    have hcodes : AgreeOutside conditions sr m.registers.sr := hsr.mono hmask
    refine ⟨?_, hcodes.systemByte_eq.trans h.systemByte_eq, h.ssp_eq, h.stopped⟩
    exact (hcodes.hasFlag_eq (by decide)).trans h.user
  | finish => exact ⟨h.user, h.systemByte_eq, h.ssp_eq, nofun⟩
  | setSr | setUsp | stop => exact absurd rfl hp

theorem changed {parts : List Part} (hp : Part.system ∉ parts) (h : SystemKept m₀ m)
    (hm : Changed parts m m') : SystemKept m₀ m' := by
  induction hm with
  | refl => exact h
  | tail _ hstep ih =>
    obtain ⟨p, hmem, hu⟩ := hstep
    exact ih.update (fun e => hp (e ▸ hmem)) hu

/-- What is privileged traps, and nothing else has the system part in its footprint. -/
theorem execute (i : Instruction) (h : SystemKept m₀ m) :
    SystemKept m₀ (settle (i.execute m)).2 := by
  cases hp : i.operation.isPrivileged with
  | true => rw [i.execute_of_user hp h.user]; exact h
  | false =>
    have hm := i.touches_execute m
    cases hx : i.execute m with
    | ok _ m' => rw [hx] at hm; exact h.changed (Operation.system_not_mem_touches hp) hm
    | error t m' => rw [hx] at hm; exact h.changed (Operation.system_not_mem_leaves _) hm

end SystemKept

namespace Machine

/-- **A step in user mode keeps the system state**, whether it succeeds or fails. -/
theorem systemKept_step {m₀ m : Machine} (h : SystemKept m₀ m) :
    SystemKept m₀ (settle (step m)).2 := by
  obtain ⟨_, hs⟩ | ⟨_, hs⟩ | ⟨f, pc, _, _, hs⟩ | ⟨pc, _, _, hs⟩ | ⟨i, pc, _, _, hs⟩ := step_cases m
  · rw [hs]; exact h
  · rw [hs]; exact h
  · rw [hs]; exact h
  · rw [hs]; exact h
  · have hx := (h.update (by simp) (.setPc m i.nextAddress)).execute i
    rw [hs]
    cases he : i.execute { m with registers := m.registers.setPc i.nextAddress } with
    | error t m' => rw [he] at hx; exact hx
    | ok _ m' => rw [he] at hx; exact hx.of_eq rfl rfl rfl

/-- **A session in user mode keeps the system state.** -/
theorem system_kept_of_user {m m' : Machine} (hu : m.registers.isSupervisor = false)
    {calls : List Call} {replies : List Reply} (h : m.performAll? calls = some (replies, m')) :
    systemByte m'.registers.sr = systemByte m.registers.sr ∧
      m'.registers.ssp = m.registers.ssp ∧
      (m'.runState = .stopped → m.runState = .stopped) := by
  have hkept : SystemKept m m' :=
    invariant_performAll (fun _ => systemKept_step) h (.refl hu)
  exact ⟨hkept.systemByte_eq, hkept.ssp_eq, hkept.stopped⟩

/-- A machine in user mode with a program that asks for supervisor mode twice: `STOP #$2700`, then
    `MOVE #$2700,SR`. -/
def escaping : Machine :=
  { new { memoryBytes := 8, traceInstructions := false } with
    memory := (Memory.zeros 8).setBytes 0 [0x4E, 0x72, 0x27, 0x00, 0x46, 0xFC, 0x27, 0x00]
    codeEnd := 8 }

/-- It traps twice, and the host goes on each time. -/
theorem system_kept_escaping :
    escaping.registers.isSupervisor = false ∧
      ∃ replies m', escaping.performAll? [.step, .run (some 3), .run none] = some (replies, m') ∧
        systemByte m'.registers.sr = systemByte escaping.registers.sr ∧
          m'.registers.ssp = escaping.registers.ssp ∧
          (m'.runState = .stopped → escaping.runState = .stopped) := by
  obtain ⟨replies, m', h⟩ : ∃ replies m',
      escaping.performAll? [.step, .run (some 3), .run none] = some (replies, m') := ⟨_, _, rfl⟩
  exact ⟨by decide, replies, m', h, system_kept_of_user (by decide) h⟩

end Machine

end Mc68000
