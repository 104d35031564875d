import Mc68000.Proofs.Footprint

/-!
# Footprints of the primitives

What the actions that every operation is made of touch.

* reading a register, the status register or a condition touches nothing and never traps;
* writing a register, the flags or the program counter touches that part and never traps;
* an access to memory or to an operand that traps has touched nothing (`touches_read`,
  `touches_write`, `touches_push`, `touches_pop`);
* `touches_resolve` -- resolving an operand moves address registers at most;
* `touches_readWrite` -- **what has been read can be written back**: only the read may trap.
-/

namespace Mc68000

open Status

/-! ## 1. Registers -/

theorem FlagChange.mask_and_conditions (change : FlagChange) :
    change.mask &&& conditions = change.mask := by
  cases change <;> simp only [FlagChange.mask] <;> decide

theorem ShiftKind.mask_and_conditions (kind : ShiftKind) :
    kind.mask &&& conditions = kind.mask := by
  cases kind <;> decide

/-- The mask of the flags that an arithmetic choice leaves. -/
@[reducible] def ArithOp.mask : ArithOp → Word
  | .add | .sub => conditions
  | .cmp => nzvc

theorem ArithOp.mask_flags (op : ArithOp) (src dst result : Long) :
    (op.flags src dst result).mask = op.mask := by
  cases op <;> rfl

namespace Exec

variable {ok : List Part}

theorem commits_registers : Commits [] registers := fun m => ⟨m.registers, m, rfl, .refl _ m⟩

theorem commits_get : Commits [] (get : Exec Machine) := fun m => ⟨m, m, rfl, .refl _ m⟩

theorem commits_readData (n : Fin 8) : Commits [] (readData n) :=
  fun m => ⟨m.registers.readData n, m, rfl, .refl _ m⟩

theorem commits_readAddress (n : Fin 8) : Commits [] (readAddress n) :=
  fun m => ⟨m.registers.readAddress n, m, rfl, .refl _ m⟩

theorem commits_readRegister (reg : Register) : Commits [] (readRegister reg) :=
  fun m => ⟨m.registers.read reg, m, rfl, .refl _ m⟩

theorem commits_status : Commits [] status := fun m => ⟨m.registers.sr, m, rfl, .refl _ m⟩

theorem commits_extend : Commits [] Exec.extend :=
  fun m => ⟨m.registers.flag Status.extend, m, rfl, .refl _ m⟩

theorem commits_holds (condition : Condition) : Commits [] (holds condition) :=
  fun m => ⟨m.registers.holds condition, m, rfl, .refl _ m⟩

theorem commits_modifyRegisters {g : Registers → Registers}
    (h : ∀ m : Machine, Changed ok m { m with registers := g m.registers }) :
    Commits ok (modifyRegisters g) := fun m => ⟨(), _, rfl, h m⟩

theorem commits_modify {g : Machine → Machine} (h : ∀ m, Changed ok m (g m)) :
    Commits ok (modify g : Exec Unit) := fun m => ⟨(), _, rfl, h m⟩

theorem commits_writeData (n : Fin 8) (v : Long) (size : Size) :
    Commits [.data] (writeData n v size) :=
  commits_modifyRegisters fun m => .one (.writeData m n v size)

theorem commits_writeAddress (n : Fin 8) (v : Long) : Commits [.address] (writeAddress n v) :=
  commits_modifyRegisters fun m => .one (.writeAddress m n v .long)

theorem commits_setSp (v : Address) : Commits [.address] (modifyRegisters (·.setSp v)) :=
  commits_modifyRegisters fun m => .one (.setSp m v)

theorem commits_increment (n : Fin 8) (size : Size) :
    Commits [.address] (modifyRegisters (·.increment n size)) :=
  commits_modifyRegisters fun m => .one (.writeAddress m n _ .long)

theorem commits_decrement (n : Fin 8) (size : Size) :
    Commits [.address] (modifyRegisters (·.decrement n size)) :=
  commits_modifyRegisters fun m => .one (.writeAddress m n _ .long)

theorem changed_write (m : Machine) (reg : Register) (v : Long) (size : Size) :
    Changed [.data, .address] m { m with registers := m.registers.write reg v size } := by
  cases reg with
  | data n => exact .one (.writeData m n v size)
  | address n => exact .one (.writeAddress m n v size)

theorem commits_write (reg : Register) (v : Long) (size : Size) :
    Commits [.data, .address] (modifyRegisters (·.write reg v size)) :=
  commits_modifyRegisters fun m => changed_write m reg v size

theorem commits_modifyStatus {mask : Word} {g : Word → Word} (hmask : mask &&& conditions = mask)
    (h : ∀ sr, AgreeOutside mask (g sr) sr) : Commits [.flags mask] (modifyStatus g) :=
  commits_modifyRegisters fun m => .one (.setFlags m mask (g m.registers.sr) hmask (h _))

theorem commits_changeFlags (change : FlagChange) (size : Size) :
    Commits [.flags change.mask] (changeFlags change size) :=
  commits_modifyStatus change.mask_and_conditions (change.agreeOutside_apply size)

theorem commits_arithFlags (op : ArithOp) (src dst result : Long) (size : Size) :
    Commits [.flags op.mask] (changeFlags (op.flags src dst result) size) :=
  op.mask_flags src dst result ▸ commits_changeFlags (op.flags src dst result) size

theorem commits_setFlag {mask flag : Word} (hmask : mask &&& conditions = mask)
    (hflag : flag &&& mask = flag) (on : Bool) : Commits [.flags mask] (setFlag flag on) :=
  commits_modifyStatus hmask fun sr => agreeOutside_setFlag hflag sr on

theorem commits_setConditions (g : Registers → Word) :
    Commits [.flags conditions] (modifyRegisters fun r => r.setConditions (g r)) :=
  commits_modifyRegisters fun m =>
    .one (.setFlags m conditions _ (by decide) (agreeOutside_withConditions _ _))

theorem commits_setSr (g : Registers → Word) :
    Commits [.system] (modifyRegisters fun r => r.setSr (g r)) :=
  commits_modifyRegisters fun m => .one (.setSr m (g m.registers))

theorem commits_shiftValue (kind : ShiftKind) (direction : Direction) (size : Size) (v : Long)
    (count : Nat) : Commits [.flags kind.mask] (shiftValue kind direction size v count) :=
  fun m => ⟨_, _, rfl, .one (.setFlags m kind.mask _ kind.mask_and_conditions
    (agreeOutside_shift kind direction size v count m.registers.sr))⟩

theorem commits_jump (a : Address) : Commits [.pc] (jump a) :=
  commits_modifyRegisters fun m => .one (.setPc m a)

theorem commits_branch (i : Instruction) (distance : Long) : Commits [.pc] (branch i distance) :=
  commits_jump _

/-- The condition codes and the program counter, both off the stack. -/
theorem commits_loadCodes (codes : Word) (pc : Address) :
    Commits [.pc, .flags conditions]
      (modifyRegisters fun r => (r.setConditions codes).setPc pc) := by
  refine commits_modifyRegisters fun m => ?_
  have hcodes : Changed [.pc, .flags conditions] m
      { m with registers := m.registers.setConditions codes } :=
    .one (.setFlags m conditions _ (by decide) (agreeOutside_withConditions _ _))
  exact hcodes.trans (.one (.setPc _ pc))

theorem commits_setDepth (g : Machine → BitVec 32) :
    Commits [.callDepth] (modify fun m => { m with callDepth := g m } : Exec Unit) :=
  commits_modify fun m => .one (.setDepth m (g m))

theorem touches_requireSupervisor : Touches [] [] requireSupervisor := by
  refine commits_registers.prepare fun r => ?_
  split
  · exact .pure ()
  · exact touches_throw _

theorem requireSupervisor_of_user {m : Machine} (hu : m.registers.isSupervisor = false) :
    requireSupervisor m = .error .privilegeViolation m := by
  rw [requireSupervisor, run_bind]
  show (if m.registers.isSupervisor then (pure () : Exec Unit) else throw .privilegeViolation) m = _
  rw [hu]
  rfl

/-! ## 2. Memory and the stack -/

theorem touches_readMemory (a : Address) (size : Size) : Touches [] [] (readMemory a size) := by
  intro m
  unfold readMemory
  cases m.memory.read a size with
  | ok v => exact .refl _ m
  | error t => exact .refl _ m

theorem touches_writeMemory (a : Address) (size : Size) (v : Long) :
    Touches [.memory] [] (writeMemory a size v) := by
  intro m
  unfold writeMemory
  by_cases ha : accessible a size m.memory.capacity = true
  · rw [if_pos ha]
    exact .one (.store m a size v ha)
  · rw [if_neg ha]
    exact .refl _ m

/-- **What has been read can be written back.** Of a read, an action that commits, and a write to
    the same place, only the read may trap. -/
theorem touches_readWrite {p : List Part} (a : Address) (size : Size) {g : Long → Exec Long}
    (hg : ∀ v, Commits p (g v)) :
    Touches (.memory :: p) [] (do
      let v ← readMemory a size
      let r ← g v
      writeMemory a size r) := by
  intro m
  rw [run_bind]
  unfold readMemory Memory.read
  by_cases ha : accessible a size m.memory.capacity = true
  · rw [if_pos ha]
    obtain ⟨r, m', hgm, hm⟩ := hg (m.memory.fetch a.toNat size) m
    -- nothing changes the capacity, so the check of the write comes out as that of the read
    have ha' : accessible a size m'.memory.capacity = true := by rw [hm.capacity_eq, ha]
    dsimp only
    rw [run_bind, hgm]
    dsimp only
    rw [writeMemory, if_pos ha']
    exact hm.mono.trans (.one (.store m' a size r ha'))
  · rw [if_neg ha]
    exact .refl _ m

theorem touches_push (size : Size) (v : Long) : Touches [.memory, .address] [] (push size v) := by
  refine commits_registers.prepare fun r => ?_
  exact (touches_writeMemory _ size v).commit fun _ => (commits_setSp _).mono

theorem touches_pop (size : Size) : Touches [.address] [] (pop size) := by
  refine commits_registers.prepare fun r => ?_
  refine (touches_readMemory _ size).prepare fun v => ?_
  exact ((commits_setSp _).bind fun _ => .pure v).safe

theorem touches_pushLong (v : Long) : Touches [.memory, .address] [] (pushLong v) :=
  touches_push .long v

theorem touches_popLong : Touches [.address] [] popLong := touches_pop .long

theorem touches_popWord : Touches [.address] [] popWord :=
  (touches_pop .word).commit fun v => Commits.pure (v.setWidth 16)

/-! ## 3. Operands -/

theorem changed_operand (mode : AddressingMode) (e : Extension) (size : Size) (m : Machine) :
    Changed [.address] m { m with registers := (mode.operand e size m.registers).2 } := by
  cases mode with
  | postIncrement n => exact .one (.writeAddress m n _ .long)
  | preDecrement n => exact .one (.writeAddress m n _ .long)
  | dataDirect | addressDirect | control | immediate => exact .refl _ m

theorem touches_resolve (ea : Option EffectiveAddress) (size : Size) :
    Touches [.address] [] (resolve ea size) := by
  intro m
  unfold resolve
  cases ea with
  | none => exact .refl _ m
  | some ea =>
    dsimp only
    unfold EffectiveAddress.resolve
    cases ea.mode? with
    | none => exact .refl _ m
    | some mode => exact changed_operand mode ea.extension size m

theorem touches_source (i : Instruction) : Touches [.address] [] (source i) :=
  touches_resolve i.source i.size

theorem touches_destination (i : Instruction) : Touches [.address] [] (destination i) :=
  touches_resolve i.destination i.size

theorem touches_control (ea : Option EffectiveAddress) : Touches [] [] (control ea) := by
  intro m
  unfold control
  cases ea with
  | none => exact .refl _ m
  | some ea =>
    dsimp only
    cases ea.controlAddress m.registers with
    | ok a => exact .refl _ m
    | error t => exact .refl _ m

theorem touches_read (operand : Operand) (size : Size) : Touches [] [] (read operand size) := by
  cases operand with
  | register reg => exact commits_registers.prepare fun r => .pure _
  | memory a => exact touches_readMemory a size
  | immediate v => exact .pure _

theorem touches_write (operand : Operand) (size : Size) (v : Long) :
    Touches [.data, .address, .memory] [] (write operand size v) := by
  cases operand with
  | register reg => exact (commits_write reg v size).touches
  | memory a => exact (touches_writeMemory a size v).mono
  | immediate => exact touches_throw _

end Exec

end Mc68000
