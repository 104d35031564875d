import Mc68000.Proofs.Confinement.Execute
import Mc68000.Run

/-!
# How address registers move

An instruction that succeeds moves an address register, unless it writes it as its destination, once
for each time that it names it: in an operand field, as one of its implicit operands, or as the
stack.

* `Registers.step` -- how far one operand moves a register, and `ofNat_autoStep`: so far do the modes
  move it;
* `fieldShift`, `Instruction.pairShift`, `stackShift` -- the distance of an operand field, of the
  implicit operands and of the stack;
* `Registers.readAddress_increment`, `readAddress_movedBy`, … -- **each move adds its distance**;
* `Instruction.readAddress_moved` -- so all of them add the sum;
* `Instruction.address_moved_once` -- **an instruction moves a register by this sum**, and the idle
  stack pointer not at all.
-/

namespace Mc68000

/-! ## 1. Distances -/

/-- How far an operand of a size moves an address register: as far as it is long, but a byte moves
    the stack pointer by two. -/
def Registers.step (n : Fin 8) (size : Size) : Long :=
  if n = stackNumber ∧ size = .byte then 2 else BitVec.ofNat 32 size.bytes

/-- How far an operand field moves an address register: up, down, or not at all. -/
def fieldShift (ea? : Option EffectiveAddress) (size : Size) (n : Fin 8) : Long :=
  match ea?.bind (·.mode?) with
  | some (.postIncrement k) => if n = k then Registers.step n size else 0
  | some (.preDecrement k) => if n = k then -Registers.step n size else 0
  | _ => 0

namespace Instruction

/-- How far the implicit operands move an address register: the memory forms of extended and decimal
    arithmetic move both of theirs down, `CMPM` moves both up. -/
def pairShift (i : Instruction) (n : Fin 8) : Long :=
  let both (distance : Long) : Long :=
    (if n = i.lowRegister then distance else 0) + if n = i.highRegister then distance else 0
  match i.operation with
  | .arithExtended _ | .decimal _ =>
    if i.opcode.getLsbD 3 then both (-Registers.step n i.size) else 0
  | .cmpm => both (Registers.step n i.size)
  | _ => 0

/-- How far the stack moves an address register, which can only be its pointer. -/
def stackShift (i : Instruction) (m : Machine) (n : Fin 8) : Long :=
  if n = Registers.stackNumber then
    match i.operation with
    | .bsr | .jsr | .pea => -4
    | .rts => if m.callDepth = 0 then 0 else 4
    | .rtr | .rte => 6
    | _ => 0
  else 0

end Instruction

/-! ## 2. Moves -/

namespace Registers

variable (r : Registers) (n k : Fin 8) (size : Size)

/-- The two modes that move a register move it by its step. -/
theorem ofNat_autoStep : BitVec.ofNat 32 (autoStep n size) = step n size := by
  unfold autoStep step
  split <;> rfl

theorem readAddress_increment : (r.increment k size).readAddress n =
    r.readAddress n + if n = k then step n size else 0 := by
  rw [increment, ofNat_autoStep, readAddress_writeAddress, Size.merge_long]
  by_cases h : n = k
  · rw [if_pos h, if_pos h, h]
  · rw [if_neg h, if_neg h]
    exact (BitVec.add_zero _).symm

theorem readAddress_decrement : (r.decrement k size).readAddress n =
    r.readAddress n + if n = k then -step n size else 0 := by
  rw [decrement, ofNat_autoStep, readAddress_writeAddress, Size.merge_long]
  by_cases h : n = k
  · rw [if_pos h, if_pos h, h]
    exact BitVec.sub_eq_add_neg ..
  · rw [if_neg h, if_neg h]
    exact (BitVec.add_zero _).symm

theorem readAddress_stackNumber : r.readAddress stackNumber = r.sp := rfl

theorem readAddress_pushed : (r.pushed size).readAddress n =
    r.readAddress n + if n = stackNumber then -BitVec.ofNat 32 size.bytes else 0 := by
  rw [pushed, readAddress_setSp]
  by_cases h : n = stackNumber
  · rw [if_pos h, if_pos h, h, readAddress_stackNumber]
    exact BitVec.sub_eq_add_neg ..
  · rw [if_neg h, if_neg h]
    exact (BitVec.add_zero _).symm

theorem readAddress_popped : (r.popped size).readAddress n =
    r.readAddress n + if n = stackNumber then BitVec.ofNat 32 size.bytes else 0 := by
  rw [popped, readAddress_setSp]
  by_cases h : n = stackNumber
  · rw [if_pos h, if_pos h, h, readAddress_stackNumber]
  · rw [if_neg h, if_neg h]
    exact (BitVec.add_zero _).symm

/-- **An operand field moves a register by its distance.** -/
theorem readAddress_movedBy (ea? : Option EffectiveAddress) :
    (r.movedBy ea? size).readAddress n = r.readAddress n + fieldShift ea? size n := by
  unfold movedBy fieldOperand? fieldShift
  cases ea? with
  | none => exact (BitVec.add_zero _).symm
  | some ea =>
    rw [Option.bind_some, Option.bind_some]
    cases ea.mode? with
    | none => exact (BitVec.add_zero _).symm
    | some mode =>
      cases mode with
      | postIncrement k => exact r.readAddress_increment n k size
      | preDecrement k => exact r.readAddress_decrement n k size
      | _ => exact (BitVec.add_zero _).symm

end Registers

namespace Instruction

open Exec

variable {i : Instruction} {layout : Layout}

/-- **All moves of an instruction together.** -/
theorem readAddress_moved (hlink : i.operation ≠ .link) (m : Machine) (n : Fin 8) :
    (i.moved m).readAddress n = m.registers.readAddress n +
      (fieldShift i.source i.size n + fieldShift i.destination i.size n + i.pairShift n +
        i.stackShift m n) := by
  have hfields :
      ((m.registers.movedBy i.source i.size).movedBy i.destination i.size).readAddress n =
        m.registers.readAddress n +
          (fieldShift i.source i.size n + fieldShift i.destination i.size n) := by
    rw [Registers.readAddress_movedBy, Registers.readAddress_movedBy, BitVec.add_assoc]
  unfold moved pairShift stackShift
  dsimp only
  generalize (m.registers.movedBy i.source i.size).movedBy i.destination i.size = r at hfields ⊢
  generalize fieldShift i.source i.size n + fieldShift i.destination i.size n = d at hfields ⊢
  have hadd (x : Long) : m.registers.readAddress n + (d + x) = r.readAddress n + x := by
    rw [hfields, BitVec.add_assoc]
  rw [BitVec.add_assoc d, hadd]
  cases hop : i.operation with
  | arithExtended op | decimal op =>
    dsimp only
    split
    · rw [pairMoved, Registers.readAddress_decrement, Registers.readAddress_decrement]
      simp [BitVec.add_assoc]
    · simp
  | cmpm =>
    dsimp only
    rw [Registers.readAddress_increment, Registers.readAddress_increment]
    simp [BitVec.add_assoc]
  | link => exact absurd hop hlink
  | bsr | jsr | pea =>
    dsimp only
    rw [Registers.readAddress_pushed]
    simp [Size.bytes]
  | rts =>
    dsimp only
    split
    · simp
    · rw [Registers.readAddress_popped]
      simp [Size.bytes]
  | rtr | rte =>
    dsimp only
    rw [Registers.readAddress_popped, Registers.readAddress_popped, BitVec.add_assoc]
    by_cases hn : n = Registers.stackNumber
    · simp [hn, Size.bytes]
    · simp [hn]
  | _ => simp

end Instruction

/-! ## 3. Instructions -/

namespace Instruction

open Exec Registers

variable {i : Instruction}

/-- None of these moves reaches the idle stack pointer. -/
theorem idleKept_moved (i : Instruction) (m : Machine) : IdleKept m.registers (i.moved m) := by
  have hfields := (idleKept_movedBy m.registers i.source i.size).trans
    (idleKept_movedBy _ i.destination i.size)
  unfold moved
  cases i.operation with
  | arithExtended op | decimal op =>
    dsimp only
    split
    · exact hfields.trans ((idleKept_writeAddress ..).trans (idleKept_writeAddress ..))
    · exact hfields
  | cmpm => exact hfields.trans ((idleKept_writeAddress ..).trans (idleKept_writeAddress ..))
  | bsr | jsr | pea | link => exact hfields.trans (idleKept_setSp ..)
  | rts =>
    dsimp only
    split
    · exact hfields
    · exact hfields.trans (idleKept_setSp ..)
  | rtr | rte => exact hfields.trans ((idleKept_setSp ..).trans (idleKept_setSp ..))
  | _ => exact hfields

/-- **An instruction moves a register by the sum of its distances**, in the eyes of the mode it
    began in, and it leaves the stack pointer of the other mode alone. -/
theorem address_moved_once {c : Code} {pc pc' : Address} (hfetch : c.fetch pc = .ok (some i) pc')
    {m m' : Machine} (h : i.execute m = .ok () m')
    (hop : i.operation ∉ [.movem, .exg, .link, .unlk, .moveUsp]) :
    (∀ n ∉ i.directTargets, m'.registers.addressIn m.registers.isSupervisor n =
      m.registers.readAddress n + (fieldShift i.source i.size n +
        fieldShift i.destination i.size n + i.pairShift n + i.stackShift m n)) ∧
      m'.registers.idleSp m.registers.isSupervisor =
        m.registers.idleSp m.registers.isSupervisor := by
  obtain ⟨layout, hd⟩ := Code.decoded_of_fetch hfetch
  have hmore : ([.movem, .exg, .unlk, .moveUsp] : List Operation) ⊆
      [.movem, .exg, .link, .unlk, .moveUsp] := by simp
  have hsettles : i.operation ∉ [.movem, .exg, .unlk, .moveUsp] := fun hmem => hop (hmore hmem)
  have hlink : i.operation ≠ .link := fun e => hop (by simp [e])
  have hconf := settles_execute hd hsettles m () m' h
  have hidle := idleKept_moved i m
  refine ⟨fun n hn => ?_, hconf.idleSp_eq.trans hidle.idleSp_eq⟩
  have hmoved : (i.moved m).addressIn m.registers.isSupervisor n = (i.moved m).readAddress n := by
    rw [← hidle.mode_eq]
    rfl
  calc m'.registers.addressIn m.registers.isSupervisor n
      = (i.moved m).addressIn m.registers.isSupervisor n := hconf.address_eq n hn
    _ = (i.moved m).readAddress n := hmoved
    _ = _ := readAddress_moved hlink m n

/-- `MOVE.B (A7)+,(A7)+`. -/
def moveWithinStack : Instruction :=
  { address := 0, opcode := 0x1EDF, operation := .move, size := .byte, extension := ⟨2, .none⟩
    source := some ⟨0b011111, ⟨2, .none⟩⟩, destination := some ⟨0b011111, ⟨2, .none⟩⟩
    length := 2 }

/-- A machine in supervisor mode about to execute it. -/
def movingWithinStack : Machine :=
  { Machine.new { memoryBytes := 16, traceInstructions := false } with
    registers := { Registers.zeros with ssp := 8, usp := 4, sr := Status.supervisor }
    memory := (Memory.zeros 16).setBytes 0 [0x1E, 0xDF]
    codeEnd := 2 }

/-- Both fields name the stack pointer, and a byte there is a step of two. -/
theorem address_moved_once_stack :
    movingWithinStack.code.fetch 0 = .ok (some moveWithinStack) 2 ∧
      ∃ m', moveWithinStack.execute movingWithinStack = .ok () m' ∧
        m'.registers.ssp = 8 + (2 + 2) ∧ m'.registers.usp = 4 := by
  have hfetch : movingWithinStack.code.fetch 0 = .ok (some moveWithinStack) 2 := rfl
  obtain ⟨m', h⟩ : ∃ m', moveWithinStack.execute movingWithinStack = .ok () m' := ⟨_, rfl⟩
  obtain ⟨hmoved, hidle⟩ := address_moved_once hfetch h (by decide)
  exact ⟨hfetch, m', h, hmoved stackNumber (by decide), hidle⟩

end Instruction

end Mc68000
