import Mc68000.Proofs.AutoModify
import Mc68000.Proofs.ReadBack

/-!
# Saving and restoring the condition codes

`MOVE SR,-(An)` saves the status register as a word, and `MOVE (An)+,CCR` reads a byte.

* `Exec.resolve_of_mode` -- resolving a field of a known mode;
* `Instruction.execute_save`, `execute_restore` -- both instructions as one access each;
* `Instruction.restore_of_saved` -- **what is restored**: the flags in the system byte, and the
  address only if it is the stack pointer;
* `Instruction.codes_not_restored` -- so the condition codes are lost.
-/

namespace Mc68000

open Status

/-! ## 1. Condition codes of registers -/

theorem Status.conditionsOf_withConditions (sr w : Word) :
    conditionsOf (withConditions sr w) = conditionsOf w := by
  refine BitVec.eq_of_getLsbD_eq fun k _ => ?_
  unfold conditionsOf withConditions
  rw [BitVec.getLsbD_and, BitVec.getLsbD_or, getLsbD_and_not, BitVec.getLsbD_and]
  cases conditions.getLsbD k <;> simp

namespace Registers

theorem conditions_setConditions (r : Registers) (w : Word) :
    (r.setConditions w).conditions = conditionsOf w := conditionsOf_withConditions r.sr w

theorem readAddress_setConditions (r : Registers) (w : Word) (n : Fin 8) :
    (r.setConditions w).readAddress n = r.readAddress n := by
  have hmode : (r.setConditions w).isSupervisor = r.isSupervisor :=
    (agreeOutside_withConditions r.sr w).hasFlag_eq (by decide)
  unfold readAddress sp
  rw [hmode]
  rfl

/-- A byte moves the stack pointer as far as a word, and any other address register half as far. -/
theorem step_word (n : Fin 8) : step n .word = 2 := by
  simp [step, Size.bytes]

theorem step_byte (n : Fin 8) : step n .byte = if n = stackNumber then 2 else 1 := by
  unfold step
  by_cases h : n = stackNumber
  · simp [h]
  · simp [h, Size.bytes]

end Registers

/-! ## 2. The two instructions -/

/-- Resolving a field of a known mode leads to the operand of the mode. -/
theorem Exec.resolve_of_mode {ea? : Option EffectiveAddress} {mode : AddressingMode}
    (h : ea?.bind (·.mode?) = some mode) (size : Size) (m : Machine) :
    ∃ e, resolve ea? size m = .ok (mode.operand e size m.registers).1
      { m with registers := (mode.operand e size m.registers).2 } := by
  obtain ⟨ea, rfl, hmode⟩ := Option.bind_eq_some_iff.mp h
  have hfield : m.registers.fieldOperand? (some ea) size =
      some (mode.operand ea.extension size m.registers) := by
    simp [Registers.fieldOperand?, hmode]
  exact ⟨ea.extension, by rw [resolve_eq, hfield]⟩

namespace Instruction

open Exec

variable {i j : Instruction} {layout : Layout} {m m' k : Machine} {n : Fin 8}

/-- `MOVE SR,-(An)` stores the status register as a word. -/
theorem execute_save (hd : i.Decoded layout) (hop : i.operation = .moveFromSr)
    (hmode : i.destination.bind (·.mode?) = some (.preDecrement n)) (h : i.execute m = .ok () m') :
    m'.registers = m.registers.decrement n .word ∧
      m'.memory.read (m'.registers.readAddress n) .word = .ok (m.registers.sr.setWidth 32) := by
  have hsize : i.size = .word := hd.size_eq_fixed (by rw [hop]; rfl)
  obtain ⟨e, hresolve⟩ := resolve_of_mode hmode .word m
  unfold execute at h
  rw [hop] at h
  obtain ⟨dst, m₁, hdst, hrest⟩ := bind_ok h
  unfold Exec.destination at hdst
  rw [hsize, hresolve] at hdst
  cases hdst
  obtain ⟨sr, m₂, hstatus, hwrite⟩ := bind_ok hrest
  cases hstatus
  have hsr : (m.registers.decrement n .word).sr = m.registers.sr := Registers.sr_writeAddress ..
  have hwrite : writeMemory ((m.registers.decrement n .word).readAddress n) .word
    ((m.registers.decrement n .word).sr.setWidth 32)
    { m with registers := m.registers.decrement n .word } = .ok () m' := hwrite
  unfold writeMemory at hwrite
  split at hwrite
  case isFalse => cases hwrite
  case isTrue ha =>
    cases hwrite
    refine ⟨rfl, ?_⟩
    dsimp only
    rw [Memory.read_store ha, hsr, Size.truncate_eq_setWidth]
    simp [Size.bits, Size.bytes]

/-- `MOVE (An)+,CCR` takes the condition codes from a byte. -/
theorem execute_restore (hd : j.Decoded layout) (hop : j.operation = .moveToCcr)
    (hmode : j.source.bind (·.mode?) = some (.postIncrement n)) {v : Long}
    (hread : k.memory.read (k.registers.readAddress n) .byte = .ok v) :
    j.execute k = .ok () { k with
      registers := (k.registers.increment n .byte).setConditions (v.setWidth 16) } := by
  have hsize : j.size = .byte := by
    have hof := hd.of?_eq
    rw [hop] at hof
    exact hd.size_eq.trans (congrArg Layout.size (Option.some.inj hof)).symm
  obtain ⟨e, hresolve⟩ := resolve_of_mode hmode .byte k
  unfold execute
  rw [hop]
  show moveToCcr j k = _
  unfold moveToCcr Exec.source
  rw [hsize, run_bind, hresolve]
  show (readMemory (k.registers.readAddress n) .byte >>= fun v => _)
    { k with registers := k.registers.increment n .byte } = _
  rw [run_bind]
  unfold readMemory
  dsimp only
  rw [hread]
  rfl

/-- An address that a word has moved down and a byte has moved up. -/
theorem readAddress_restored {r r' : Registers}
    (h : r'.readAddress n = (r.decrement n .word).readAddress n) :
    (r'.increment n .byte).readAddress n = r.readAddress n ↔ n = Registers.stackNumber := by
  rw [Registers.readAddress_increment, if_pos rfl, h, Registers.readAddress_decrement, if_pos rfl,
    Registers.step_word, Registers.step_byte]
  by_cases hn : n = Registers.stackNumber
  · rw [if_pos hn]
    exact iff_of_true (by bv_omega) hn
  · rw [if_neg hn]
    exact iff_of_false (by bv_omega) hn

/-! ## 3. Together -/

/-- **What `MOVE (An)+,CCR` restores of what `MOVE SR,-(An)` has saved.** At any later time at which
    the address and the saved word are still there, it succeeds and sets the condition codes to the
    low bits of the system byte, so they are those of before only if both bytes have the same. The
    address is the one of before for the stack pointer, and for no other register. -/
theorem restore_of_saved {c c' : Code} {pc past pc' past' : Address}
    (hfirst : c.fetch pc = .ok (some i) past) (hsave : i.operation = .moveFromSr)
    (hdown : i.destination.bind (·.mode?) = some (.preDecrement n))
    (hsecond : c'.fetch pc' = .ok (some j) past') (hrestore : j.operation = .moveToCcr)
    (hup : j.source.bind (·.mode?) = some (.postIncrement n)) (h : i.execute m = .ok () m')
    (haddress : k.registers.readAddress n = m'.registers.readAddress n)
    (hword : k.memory.read (m'.registers.readAddress n) .word =
      m'.memory.read (m'.registers.readAddress n) .word) :
    ∃ k', j.execute k = .ok () k' ∧
      k'.registers.conditions = conditionsOf ((systemByte m.registers.sr).setWidth 16) ∧
      (k'.registers.conditions = m.registers.conditions ↔
        conditionsOf ((systemByte m.registers.sr).setWidth 16) = conditionsOf m.registers.sr) ∧
      (k'.registers.readAddress n = m.registers.readAddress n ↔ n = Registers.stackNumber) := by
  obtain ⟨layout, hd⟩ := Code.decoded_of_fetch hfirst
  obtain ⟨layout', hd'⟩ := Code.decoded_of_fetch hsecond
  obtain ⟨hregisters, hsaved⟩ := execute_save hd hsave hdown h
  rw [← hword, ← haddress] at hsaved
  have hbyte : k.memory.read (k.registers.readAddress n) .byte =
      .ok ((systemByte m.registers.sr).setWidth 32) := Memory.read_byte_of_word hsaved
  rw [hregisters] at haddress
  refine ⟨_, execute_restore hd' hrestore hup hbyte, ?_⟩
  have hcodes : ((k.registers.increment n .byte).setConditions
      (((systemByte m.registers.sr).setWidth 32).setWidth 16)).conditions =
      conditionsOf ((systemByte m.registers.sr).setWidth 16) := by
    rw [Registers.conditions_setConditions]
    exact congrArg conditionsOf (BitVec.setWidth_setWidth_of_le _ (by decide))
  refine ⟨hcodes, ?_, ?_⟩
  · dsimp only
    rw [hcodes]
    rfl
  · dsimp only
    rw [Registers.readAddress_setConditions]
    exact readAddress_restored haddress

/-- `MOVE SR,-(A7)`. -/
def saveOnStack : Instruction :=
  { address := 0, opcode := 0x40E7, operation := .moveFromSr, size := .word
    extension := ⟨2, .none⟩, source := none, destination := some ⟨0x27, ⟨2, .none⟩⟩, length := 2 }

/-- `MOVE (A7)+,CCR`. -/
def restoreFromStack : Instruction :=
  { address := 2, opcode := 0x44DF, operation := .moveToCcr, size := .byte
    extension := ⟨4, .none⟩, source := some ⟨0x1F, ⟨4, .none⟩⟩, destination := none, length := 2 }

/-- A machine in user mode with the two as its program and all condition codes set. -/
def aboutToSave : Machine :=
  { Machine.new { memoryBytes := 8, traceInstructions := false } with
    registers := { Registers.zeros with usp := 8, sr := 0x1F }
    memory := (Memory.zeros 8).setBytes 0 [0x40, 0xE7, 0x44, 0xDF]
    codeEnd := 4 }

/-- On the stack the address comes back. -/
theorem restore_of_saved_onStack :
    aboutToSave.code.fetch 0 = .ok (some saveOnStack) 2 ∧
      aboutToSave.code.fetch 2 = .ok (some restoreFromStack) 4 ∧
      ∃ m' k', saveOnStack.execute aboutToSave = .ok () m' ∧
        restoreFromStack.execute m' = .ok () k' ∧
        k'.registers.conditions = 0 ∧ k'.registers.readAddress 7 = 8 := by
  have hfirst : aboutToSave.code.fetch 0 = .ok (some saveOnStack) 2 := rfl
  have hsecond : aboutToSave.code.fetch 2 = .ok (some restoreFromStack) 4 := rfl
  obtain ⟨m', h⟩ : ∃ m', saveOnStack.execute aboutToSave = .ok () m' := ⟨_, rfl⟩
  obtain ⟨k', hk, hcodes, -, haddress⟩ :=
    restore_of_saved (n := 7) hfirst rfl rfl hsecond rfl rfl h rfl rfl
  exact ⟨hfirst, hsecond, m', k', h, hk, hcodes.trans (by decide), haddress.mpr rfl⟩

/-- `MOVE SR,-(A0)`. -/
def saveThroughRegister : Instruction :=
  { address := 0, opcode := 0x40E0, operation := .moveFromSr, size := .word
    extension := ⟨2, .none⟩, source := none, destination := some ⟨0x20, ⟨2, .none⟩⟩, length := 2 }

/-- `MOVE (A0)+,CCR`. -/
def restoreThroughRegister : Instruction :=
  { address := 2, opcode := 0x44D8, operation := .moveToCcr, size := .byte
    extension := ⟨4, .none⟩, source := some ⟨0x18, ⟨4, .none⟩⟩, destination := none, length := 2 }

/-- A machine with the two as its program and all condition codes set. -/
def aboutToLose : Machine :=
  { Machine.new { memoryBytes := 8, traceInstructions := false } with
    registers := { Registers.zeros with sr := 0x1F }.writeAddress 0 8 .long
    memory := (Memory.zeros 8).setBytes 0 [0x40, 0xE0, 0x44, 0xD8]
    codeEnd := 4 }

/-- **The condition codes are lost** between a save and the restore right after it, and the address
    ends one byte short of where it was. -/
theorem codes_not_restored :
    aboutToLose.code.fetch 0 = .ok (some saveThroughRegister) 2 ∧
      aboutToLose.code.fetch 2 = .ok (some restoreThroughRegister) 4 ∧
      ∃ m' k', saveThroughRegister.execute aboutToLose = .ok () m' ∧
        restoreThroughRegister.execute m' = .ok () k' ∧
        aboutToLose.registers.conditions = 0x1F ∧ k'.registers.conditions = 0 ∧
        aboutToLose.registers.readAddress 0 = 8 ∧ k'.registers.readAddress 0 = 7 := by
  refine ⟨rfl, rfl, _, _, rfl, rfl, ?_, ?_, ?_, ?_⟩
  · decide
  · decide
  · decide
  · decide

end Instruction

end Mc68000
