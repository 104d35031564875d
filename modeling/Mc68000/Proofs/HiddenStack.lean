import Mc68000.Proofs.Footprint.Primitives
import Mc68000.Proofs.Runs

/-!
# The hidden stack pointer

In user mode nothing reads the supervisor stack pointer. Said of two machines at once: if they
differ in it alone, an action gives the same on both, and they differ in it alone afterwards.

* `Registers.withSsp`, `Machine.withSsp`, `withSspAfter` -- registers, a machine and a result with
  another supervisor stack pointer;
* `Registers.readAddress_withSsp`, `writeAddress_withSsp`, … -- **A7 is the other one**, so reads do
  not see it and writes pass it by;
* `Exec.Blind` -- an action that gives the same whatever it is, and stays in user mode;
* `Blind.bind`, `blind_registers` -- how blind actions follow one another;
* `blind_read`, `blind_write`, `blind_resolve`, `blind_push`, `blind_pop`, … -- **every action that
  operations are made of is blind**.
-/

namespace Mc68000

open Status

/-! ## 1. Another stack pointer -/

/-- The registers with another supervisor stack pointer. -/
def Registers.withSsp (r : Registers) (v : Address) : Registers := { r with ssp := v }

/-- The machine with another supervisor stack pointer. -/
def Machine.withSsp (m : Machine) (v : Address) : Machine :=
  { m with registers := m.registers.withSsp v }

/-- The same result, and a machine with another supervisor stack pointer. -/
def withSspAfter {ε α : Type} (v : Address) :
    EStateM.Result ε Machine α → EStateM.Result ε Machine α
  | .ok a m => .ok a (m.withSsp v)
  | .error e m => .error e (m.withSsp v)

namespace Registers

variable {r : Registers}

theorem sp_withSsp (h : r.isSupervisor = false) (v : Address) : (r.withSsp v).sp = r.sp := by
  have h' : (r.withSsp v).isSupervisor = false := h
  rw [sp, sp, h, h']
  rfl

theorem readAddress_withSsp (h : r.isSupervisor = false) (v : Address) (n : Fin 8) :
    (r.withSsp v).readAddress n = r.readAddress n := by
  unfold readAddress
  rw [sp_withSsp h]
  rfl

theorem read_withSsp (h : r.isSupervisor = false) (v : Address) (reg : Register) :
    (r.withSsp v).read reg = r.read reg := by
  cases reg with
  | data n => rfl
  | address n => exact readAddress_withSsp h v n

theorem setSp_withSsp (h : r.isSupervisor = false) (v a : Address) :
    (r.withSsp v).setSp a = (r.setSp a).withSsp v := by
  have h' : (r.withSsp v).isSupervisor = false := h
  rw [setSp, setSp, h, h']
  rfl

theorem writeAddress_withSsp (h : r.isSupervisor = false) (v : Address) (n : Fin 8) (w : Long)
    (size : Size) : (r.withSsp v).writeAddress n w size = (r.writeAddress n w size).withSsp v := by
  unfold writeAddress
  rw [readAddress_withSsp h]
  dsimp only
  split
  · rfl
  · exact setSp_withSsp h v _

theorem write_withSsp (h : r.isSupervisor = false) (v : Address) (reg : Register) (w : Long)
    (size : Size) : (r.withSsp v).write reg w size = (r.write reg w size).withSsp v := by
  cases reg with
  | data n => rfl
  | address n => exact writeAddress_withSsp h v n w size

theorem increment_withSsp (h : r.isSupervisor = false) (v : Address) (n : Fin 8) (size : Size) :
    (r.withSsp v).increment n size = (r.increment n size).withSsp v := by
  unfold increment
  rw [readAddress_withSsp h, writeAddress_withSsp h]

theorem decrement_withSsp (h : r.isSupervisor = false) (v : Address) (n : Fin 8) (size : Size) :
    (r.withSsp v).decrement n size = (r.decrement n size).withSsp v := by
  unfold decrement
  rw [readAddress_withSsp h, writeAddress_withSsp h]

theorem isSupervisor_writeAddress (r : Registers) (n : Fin 8) (w : Long) (size : Size) :
    (r.writeAddress n w size).isSupervisor = r.isSupervisor := by
  rw [isSupervisor, sr_writeAddress, isSupervisor]

theorem isSupervisor_write (r : Registers) (reg : Register) (w : Long) (size : Size) :
    (r.write reg w size).isSupervisor = r.isSupervisor := by
  cases reg with
  | data n => rfl
  | address n => exact isSupervisor_writeAddress r n w size

/-- A status register that differs in the condition codes alone is in the same mode. -/
theorem isSupervisor_of_agreeOutside {sr : Word} (h : AgreeOutside Status.conditions sr r.sr) :
    ({ r with sr } : Registers).isSupervisor = r.isSupervisor := h.hasFlag_eq (by decide)

end Registers

/-! ## 2. Addresses -/

section Addresses

variable {r : Registers} (h : r.isSupervisor = false) (v : Address)

include h

/-- An index register may be A7 as well. -/
theorem indexedAddress_withSsp (base : Address) (w : Word) :
    indexedAddress (r.withSsp v) base w = indexedAddress r base w := by
  unfold indexedAddress
  dsimp only
  rw [Registers.readAddress_withSsp h]
  rfl

theorem ControlMode.address_withSsp (mode : ControlMode) (e : Extension) :
    mode.address e (r.withSsp v) = mode.address e r := by
  cases mode with
  | indirect n => exact Registers.readAddress_withSsp h v n
  | displacement n => exact congrArg (· + _) (Registers.readAddress_withSsp h v n)
  | indexed n =>
    show indexedAddress (r.withSsp v) ((r.withSsp v).readAddress n) _ = _
    rw [indexedAddress_withSsp h, Registers.readAddress_withSsp h]
    rfl
  | pcIndexed => exact indexedAddress_withSsp h v _ _
  | absoluteShort | absoluteLong | pcDisplacement => rfl

/-- An operand is where it was, and the registers that its mode moves are the same. -/
theorem AddressingMode.operand_withSsp (mode : AddressingMode) (e : Extension) (size : Size) :
    mode.operand e size (r.withSsp v) =
      ((mode.operand e size r).1, (mode.operand e size r).2.withSsp v) := by
  cases mode with
  | postIncrement n =>
    unfold operand
    dsimp only
    rw [Registers.readAddress_withSsp h, Registers.increment_withSsp h]
  | preDecrement n =>
    have hmoved : (r.decrement n size).isSupervisor = false :=
      (Registers.isSupervisor_writeAddress ..).trans h
    unfold operand
    dsimp only
    rw [Registers.decrement_withSsp h, Registers.readAddress_withSsp hmoved]
  | control mode =>
    unfold operand
    dsimp only
    rw [mode.address_withSsp h]
  | dataDirect | addressDirect | immediate => rfl

end Addresses

namespace Exec

variable {α β : Type} {x : Exec α} {f : α → Exec β}

/-! ## 3. Blind actions -/

/-- In user mode the action stays there, and with another supervisor stack pointer it gives the same
    and leaves the same machine but for that. -/
def Blind (x : Exec α) : Prop :=
  ∀ m, m.registers.isSupervisor = false →
    (settle (x m)).2.registers.isSupervisor = false ∧
      ∀ v, x (m.withSsp v) = withSspAfter v (x m)

theorem Blind.pure (a : α) : Blind (Pure.pure a : Exec α) := fun _ hu => ⟨hu, fun _ => rfl⟩

theorem blind_throw (t : Trap) : Blind (throw t : Exec α) := fun _ hu => ⟨hu, fun _ => rfl⟩

/-- Behind a trap nothing happens. -/
theorem blind_throw_bind (t : Trap) : Blind ((throw t : Exec α) >>= f) :=
  fun _ hu => ⟨hu, fun _ => rfl⟩

/-- What is refused in user mode is blind. -/
theorem blind_of_refused {t : Trap}
    (h : ∀ m : Machine, m.registers.isSupervisor = false → x m = .error t m) : Blind x := by
  intro m hu
  refine ⟨?_, fun v => ?_⟩
  · rw [h m hu]
    exact hu
  · rw [h m hu]
    exact h (m.withSsp v) hu

/-- **Blind actions follow one another.** -/
theorem Blind.bind (hx : Blind x) (hf : ∀ a, Blind (f a)) : Blind (x >>= f) := by
  intro m hu
  obtain ⟨hmode, hsame⟩ := hx m hu
  simp only [run_bind, hsame]
  cases hxm : x m with
  | error t m₁ =>
    rw [hxm] at hmode
    exact ⟨hmode, fun v => rfl⟩
  | ok a m₁ =>
    rw [hxm] at hmode
    exact hf a m₁ hmode

/-- What follows a look at the registers may depend on all that user mode sees of them. -/
theorem blind_registers {f : Registers → Exec β}
    (hsame : ∀ r v, r.isSupervisor = false → f (r.withSsp v) = f r) (hf : ∀ r, Blind (f r)) :
    Blind (registers >>= f) := by
  intro m hu
  obtain ⟨hmode, hrest⟩ := hf m.registers m hu
  refine ⟨hmode, fun v => ?_⟩
  show f (m.registers.withSsp v) (m.withSsp v) = withSspAfter v (f m.registers m)
  rw [hsame _ v hu]
  exact hrest v

/-- The same of a look at the machine. -/
theorem blind_get {f : Machine → Exec β} (hsame : ∀ m v, f (m.withSsp v) = f m)
    (hf : ∀ m, Blind (f m)) : Blind (get >>= f) := by
  intro m hu
  obtain ⟨hmode, hrest⟩ := hf m m hu
  refine ⟨hmode, fun v => ?_⟩
  show f (m.withSsp v) (m.withSsp v) = withSspAfter v (f m m)
  rw [hsame]
  exact hrest v

theorem blind_modifyRegisters {g : Registers → Registers}
    (hmode : ∀ r, (g r).isSupervisor = r.isSupervisor)
    (hg : ∀ r v, r.isSupervisor = false → g (r.withSsp v) = (g r).withSsp v) :
    Blind (modifyRegisters g) := by
  intro m hu
  refine ⟨(hmode m.registers).trans hu, fun v => ?_⟩
  show EStateM.Result.ok () { m with registers := g (m.registers.withSsp v) } = _
  rw [hg _ v hu]
  rfl

theorem blind_modify {g : Machine → Machine}
    (hmode : ∀ m, (g m).registers.isSupervisor = m.registers.isSupervisor)
    (hg : ∀ m v, g (m.withSsp v) = (g m).withSsp v) : Blind (modify g : Exec Unit) := by
  intro m hu
  refine ⟨(hmode m).trans hu, fun v => ?_⟩
  exact congrArg (EStateM.Result.ok ()) (hg m v)

/-! ## 4. Registers -/

theorem blind_readData (n : Fin 8) : Blind (readData n) :=
  blind_registers (fun _ _ _ => rfl) fun _ => .pure _

theorem blind_readAddress (n : Fin 8) : Blind (readAddress n) :=
  blind_registers (fun r v hu => by rw [Registers.readAddress_withSsp hu]) fun _ => .pure _

theorem blind_readRegister (reg : Register) : Blind (readRegister reg) :=
  blind_registers (fun r v hu => by rw [Registers.read_withSsp hu]) fun _ => .pure _

theorem blind_status : Blind status := blind_registers (fun _ _ _ => rfl) fun _ => .pure _

theorem blind_extend : Blind Exec.extend := blind_registers (fun _ _ _ => rfl) fun _ => .pure _

theorem blind_holds (condition : Condition) : Blind (holds condition) :=
  blind_registers (fun _ _ _ => rfl) fun _ => .pure _

theorem blind_writeData (n : Fin 8) (v : Long) (size : Size) : Blind (writeData n v size) :=
  blind_modifyRegisters (fun _ => rfl) fun _ _ _ => rfl

theorem blind_writeAddress (n : Fin 8) (v : Long) : Blind (writeAddress n v) :=
  blind_modifyRegisters (fun r => r.isSupervisor_writeAddress n v .long)
    fun _ w hu => Registers.writeAddress_withSsp hu w n v .long

theorem blind_writeRegister (reg : Register) (v : Long) (size : Size) :
    Blind (modifyRegisters (·.write reg v size)) :=
  blind_modifyRegisters (fun r => r.isSupervisor_write reg v size)
    fun _ w hu => Registers.write_withSsp hu w reg v size

theorem blind_increment (n : Fin 8) (size : Size) : Blind (modifyRegisters (·.increment n size)) :=
  blind_modifyRegisters (fun r => r.isSupervisor_writeAddress n _ .long)
    fun _ w hu => Registers.increment_withSsp hu w n size

theorem blind_decrement (n : Fin 8) (size : Size) : Blind (modifyRegisters (·.decrement n size)) :=
  blind_modifyRegisters (fun r => r.isSupervisor_writeAddress n _ .long)
    fun _ w hu => Registers.decrement_withSsp hu w n size

theorem blind_setSp (a : Address) : Blind (modifyRegisters (·.setSp a)) :=
  blind_modifyRegisters (fun r => r.isSupervisor_setSp a)
    fun _ w hu => Registers.setSp_withSsp hu w a

theorem blind_jump (a : Address) : Blind (jump a) :=
  blind_modifyRegisters (fun _ => rfl) fun _ _ _ => rfl

theorem blind_branch (i : Instruction) (distance : Long) : Blind (branch i distance) := blind_jump _

/-! ## 5. Condition codes -/

theorem blind_modifyStatus {g : Word → Word} (hg : ∀ sr, AgreeOutside conditions (g sr) sr) :
    Blind (modifyStatus g) :=
  blind_modifyRegisters (fun r => Registers.isSupervisor_of_agreeOutside (hg r.sr))
    fun _ _ _ => rfl

theorem blind_changeFlags (change : FlagChange) (size : Size) : Blind (changeFlags change size) :=
  blind_modifyStatus fun sr =>
    (change.agreeOutside_apply size sr).mono change.mask_and_conditions

theorem blind_setFlag {flag : Word} (hflag : flag &&& conditions = flag) (on : Bool) :
    Blind (setFlag flag on) :=
  blind_modifyStatus fun sr => agreeOutside_setFlag hflag sr on

theorem blind_setConditions {g : Registers → Word} (hg : ∀ r v, g (r.withSsp v) = g r) :
    Blind (modifyRegisters fun r => r.setConditions (g r)) := by
  refine blind_modifyRegisters (fun r => ?_) fun r v _ => ?_
  · exact Registers.isSupervisor_of_agreeOutside (agreeOutside_withConditions _ _)
  · rw [hg]
    rfl

theorem blind_decimalFlags (result : Byte) (carried : Bool) :
    Blind (modifyStatus (PackedDecimal.flags · result carried)) :=
  blind_modifyStatus fun sr =>
    (PackedDecimal.agreeOutside_flags sr result carried).mono (by decide)

theorem blind_shiftValue (kind : ShiftKind) (direction : Direction) (size : Size) (v : Long)
    (count : Nat) : Blind (shiftValue kind direction size v count) := by
  intro m hu
  refine ⟨?_, fun _ => rfl⟩
  have hagree := agreeOutside_shift kind direction size v count m.registers.sr
  exact (Registers.isSupervisor_of_agreeOutside (hagree.mono kind.mask_and_conditions)).trans hu

/-! ## 6. Memory, operands and the stack -/

theorem blind_readMemory (a : Address) (size : Size) : Blind (readMemory a size) := by
  intro m hu
  have hsame (v : Address) : (m.withSsp v).memory = m.memory := rfl
  unfold readMemory
  simp only [hsame]
  cases m.memory.read a size with
  | ok v => exact ⟨hu, fun _ => rfl⟩
  | error t => exact ⟨hu, fun _ => rfl⟩

theorem blind_writeMemory (a : Address) (size : Size) (v : Long) :
    Blind (writeMemory a size v) := by
  intro m hu
  have hsame (v : Address) : (m.withSsp v).memory = m.memory := rfl
  unfold writeMemory
  simp only [hsame]
  split
  · exact ⟨hu, fun _ => rfl⟩
  · exact ⟨hu, fun _ => rfl⟩

theorem blind_resolve (ea? : Option EffectiveAddress) (size : Size) : Blind (resolve ea? size) := by
  intro m hu
  unfold resolve EffectiveAddress.resolve
  cases ea? with
  | none => exact ⟨hu, fun _ => rfl⟩
  | some ea =>
    dsimp only
    cases ea.mode? with
    | none => exact ⟨hu, fun _ => rfl⟩
    | some mode =>
      refine ⟨?_, fun v => ?_⟩
      · have hmode : AgreeOutside conditions
            (mode.operand ea.extension size m.registers).2.sr m.registers.sr :=
          (changed_operand mode ea.extension size m).agreeOutside (by simp) (by simp)
        exact (hmode.hasFlag_eq (by decide)).trans hu
      · show EStateM.Result.ok (mode.operand ea.extension size (m.registers.withSsp v)).1
          { m with registers := (mode.operand ea.extension size (m.registers.withSsp v)).2 } = _
        rw [mode.operand_withSsp hu]
        rfl

theorem blind_source (i : Instruction) : Blind (source i) := blind_resolve i.source i.size

theorem blind_destination (i : Instruction) : Blind (destination i) :=
  blind_resolve i.destination i.size

theorem blind_control (ea? : Option EffectiveAddress) : Blind (control ea?) := by
  intro m hu
  unfold control EffectiveAddress.controlAddress
  cases ea? with
  | none => exact ⟨hu, fun _ => rfl⟩
  | some ea =>
    dsimp only
    cases ea.mode? with
    | none => exact ⟨hu, fun _ => rfl⟩
    | some mode =>
      cases mode with
      | control mode =>
        refine ⟨hu, fun v => ?_⟩
        exact congrArg (EStateM.Result.ok · (m.withSsp v)) (mode.address_withSsp hu v ea.extension)
      | _ => exact ⟨hu, fun _ => rfl⟩

theorem blind_read (operand : Operand) (size : Size) : Blind (read operand size) := by
  cases operand with
  | register reg =>
    exact blind_registers (fun r v hu => by rw [Registers.read_withSsp hu]) fun _ => .pure _
  | memory a => exact blind_readMemory a size
  | immediate v => exact .pure _

theorem blind_write (operand : Operand) (size : Size) (v : Long) :
    Blind (write operand size v) := by
  cases operand with
  | register reg => exact blind_writeRegister reg v size
  | memory a => exact blind_writeMemory a size v
  | immediate => exact blind_throw _

/-- A push goes to the stack of user mode. -/
theorem blind_push (size : Size) (v : Long) : Blind (push size v) := by
  refine blind_registers (fun r w hu => by rw [Registers.sp_withSsp hu]) fun r => ?_
  exact (blind_writeMemory _ size v).bind fun _ => blind_setSp _

theorem blind_pop (size : Size) : Blind (pop size) := by
  refine blind_registers (fun r w hu => by rw [Registers.sp_withSsp hu]) fun r => ?_
  refine (blind_readMemory _ size).bind fun v => ?_
  exact (blind_setSp _).bind fun _ => .pure v

theorem blind_pushLong (v : Long) : Blind (pushLong v) := blind_push .long v

theorem blind_popLong : Blind popLong := blind_pop .long

theorem blind_popWord : Blind popWord := (blind_pop .word).bind fun _ => .pure _

end Exec

end Mc68000
