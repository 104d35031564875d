import Mc68000.Proofs.Confinement.Execute
import Mc68000.Proofs.Runs

/-!
# Operands that cannot be written

A literal and an unassigned field are no place to write to. An instruction that would write one is
refused, having written nothing.

* `Unwritable` -- an operand field of this kind, or none at all;
* `Exec.Refuses` -- an action that is refused from any machine and has set flags at most;
  `Refuses.behind`, `refuses_resolve` -- how it comes behind actions that do not trap;
* `Instruction.writtenField?` -- the operand field that an instruction writes;
* `Instruction.sourceTrap?` -- the trap of a `MOVE` whose source traps, which comes first;
* `Instruction.unwritable_refused` -- **every instruction that would write such a field is
  refused**;
* `Instruction.destinations_accepted` -- what is not refused: operands relative to the program
  counter, and the low byte of an address register.
-/

namespace Mc68000

/-- A field whose mode, if it is assigned, is a literal. -/
def Unwritable (ea? : Option EffectiveAddress) : Prop :=
  ∀ mode ∈ ea?.bind (·.mode?), mode = .immediate

namespace Exec

variable {α β : Type} {x : Exec α} {f : α → Exec β} {mask : Word}
  {ea? : Option EffectiveAddress} {m m' : Machine}

/-! ## 1. Refused actions -/

/-- From any machine the action is refused, and the machine is the same but for the status
    register. -/
def Refuses (x : Exec α) : Prop :=
  ∀ m, ∃ sr, x m = .error .illegalInstruction { m with registers := { m.registers with sr } }

theorem refuses_throw : Refuses (throw .illegalInstruction : Exec α) := fun m =>
  ⟨m.registers.sr, rfl⟩

/-- What changes flags changes the status register alone. -/
theorem changed_flags_eq (h : Changed [.flags mask] m m') :
    m' = { m with registers := { m.registers with sr := m'.registers.sr } } := by
  induction h with
  | refl => rfl
  | tail _ hstep ih =>
    obtain ⟨p, hp, hu⟩ := hstep
    obtain rfl := List.mem_singleton.mp hp
    cases hu with
    | setFlags _ _ sr =>
      exact congrArg (fun m : Machine => { m with registers := { m.registers with sr } }) ih

/-- What sets flags and does not trap may come before. -/
theorem Refuses.behind (hx : Commits [.flags mask] x) (hf : ∀ a, Refuses (f a)) :
    Refuses (x >>= f) := by
  intro m
  obtain ⟨a, m', hxm, hm⟩ := hx m
  obtain ⟨sr, hfm⟩ := hf a m'
  have heq := changed_flags_eq hm
  refine ⟨sr, ?_⟩
  rw [run_bind, hxm]
  dsimp only
  rw [hfm, heq]

theorem Refuses.behind_read (hx : Commits [] x) (hf : ∀ a, Refuses (f a)) :
    Refuses (x >>= f) := by
  have hflags : Commits [.flags 0] x := hx.mono
  exact .behind hflags hf

/-! ## 2. Operands -/

theorem commits_read_register (reg : Register) (size : Size) :
    Commits [] (read (.register reg) size) := fun m =>
  ⟨size.truncate (m.registers.read reg), m, rfl, .refl _ m⟩

theorem commits_read_immediate (v : Long) (size : Size) : Commits [] (read (.immediate v) size) :=
  .pure _

/-- A field that cannot be written leads nowhere or to its literal. -/
theorem fieldOperand?_of_unwritable (h : Unwritable ea?) (r : Registers) (size : Size) :
    r.fieldOperand? ea? size = none ∨
      ∃ v, r.fieldOperand? ea? size = some (.immediate v, r) := by
  unfold Registers.fieldOperand?
  cases ea? with
  | none => exact .inl rfl
  | some ea =>
    rw [Option.bind_some]
    cases hmode : ea.mode? with
    | none => exact .inl rfl
    | some mode =>
      obtain rfl := h mode hmode
      exact .inr ⟨_, rfl⟩

/-- So it moves no register. -/
theorem movedBy_of_unwritable (h : Unwritable ea?) (r : Registers) (size : Size) :
    r.movedBy ea? size = r := by
  unfold Registers.movedBy
  rcases fieldOperand?_of_unwritable h r size with hnone | ⟨v, hliteral⟩
  · rw [hnone]
    rfl
  · rw [hliteral]
    rfl

/-- **A field that cannot be written is refused as soon as its literal is.** An unassigned field is
    refused when it is resolved. -/
theorem refuses_resolve {size : Size} {g : Operand → Exec β} (h : Unwritable ea?)
    (hg : ∀ v, Refuses (g (.immediate v))) : Refuses (resolve ea? size >>= g) := by
  intro m
  rw [run_bind, resolve_eq]
  rcases fieldOperand?_of_unwritable h m.registers size with hnone | ⟨v, hliteral⟩
  · rw [hnone]
    exact ⟨m.registers.sr, rfl⟩
  · rw [hliteral]
    exact hg v m

/-- It gives no address either. -/
theorem refuses_control {g : Address → Exec β} (h : Unwritable ea?) :
    Refuses (control ea? >>= g) := by
  intro m
  rw [run_bind]
  unfold control EffectiveAddress.controlAddress
  cases ea? with
  | none => exact ⟨m.registers.sr, rfl⟩
  | some ea =>
    dsimp only
    cases hmode : ea.mode? with
    | none => exact ⟨m.registers.sr, rfl⟩
    | some mode =>
      obtain rfl := h mode hmode
      exact ⟨m.registers.sr, rfl⟩

/-! ## 3. Operations -/

variable {i : Instruction}

section Destination

variable (h : Unwritable i.destination)

include h

theorem refuses_clr : Refuses (clr i) := refuses_resolve h fun _ => refuses_throw

theorem refuses_neg : Refuses (neg i) :=
  refuses_resolve h fun _ => .behind_read (commits_read_immediate _ _) fun _ => refuses_throw

theorem refuses_negx : Refuses (negx i) :=
  refuses_resolve h fun _ => .behind_read (commits_read_immediate _ _) fun _ =>
    .behind_read commits_extend fun _ => refuses_throw

theorem refuses_not : Refuses (not i) :=
  refuses_resolve h fun _ => .behind_read (commits_read_immediate _ _) fun _ => refuses_throw

theorem refuses_nbcd : Refuses (nbcd i) :=
  refuses_resolve h fun _ => .behind_read (commits_read_immediate _ _) fun _ =>
    .behind_read commits_extend fun _ => refuses_throw

theorem refuses_scc : Refuses (scc i) :=
  .behind_read (commits_holds _) fun _ => refuses_resolve h fun _ => refuses_throw

theorem refuses_moveFromSr : Refuses (moveFromSr i) :=
  refuses_resolve h fun _ => .behind_read commits_status fun _ => refuses_throw

/-- N and Z are set before the write. -/
theorem refuses_tas : Refuses (tas i) :=
  refuses_resolve h fun _ => .behind_read (commits_read_immediate _ _) fun v =>
    .behind (commits_changeFlags (.logical v) .byte) fun _ => refuses_throw

/-- Z is set before the write. -/
theorem refuses_bit {op : BitOp} (hop : op ≠ .test) (number : Long) :
    Refuses (bit op number i) := by
  refine refuses_resolve h fun _ => .behind_read (commits_read_immediate _ _) fun v => ?_
  have hzero (on : Bool) : Commits [.flags Status.zero] (setFlag Status.zero on) :=
    commits_setFlag (by decide) (by decide) on
  refine .behind (hzero _) fun _ => ?_
  cases op with
  | test => exact absurd rfl hop
  | change | clear | set => exact refuses_throw

theorem refuses_bitDynamic {op : BitOp} (hop : op ≠ .test) : Refuses (bitDynamic op i) :=
  .behind_read (commits_readData _) fun number => refuses_bit h hop number

theorem refuses_movemStore : Refuses (movemStore i) := by
  intro m
  show ∃ sr, (movemMode i >>= fun mode => _) m = _
  rw [run_bind]
  unfold movemMode
  cases hmode : i.destination.bind (·.mode?) with
  | none => exact ⟨m.registers.sr, rfl⟩
  | some mode =>
    obtain rfl := h mode hmode
    exact refuses_control h m

end Destination

/-- A literal or a register as the source of a combination does not trap. -/
theorem refuses_combine {op : ArithOp} (hop : op ≠ .cmp) {src : Operand} {size : Size}
    (hsrc : Commits [] (read src size)) (v : Long) :
    Refuses (combine op src (.immediate v) size) := by
  refine .behind_read hsrc fun s => .behind_read (commits_read_immediate _ _) fun d => ?_
  cases op with
  | cmp => exact absurd rfl hop
  | add | sub => exact refuses_throw

theorem refuses_combineBits (op : LogicOp) {src : Operand} {size : Size}
    (hsrc : Commits [] (read src size)) (v : Long) :
    Refuses (combineBits op src (.immediate v) size) :=
  .behind_read hsrc fun _ => .behind_read (commits_read_immediate _ _) fun _ => refuses_throw

section Destination

variable (h : Unwritable i.destination)

include h

theorem refuses_arithImmediate {op : ArithOp} (hop : op ≠ .cmp) : Refuses (arithImmediate op i) :=
  refuses_resolve h fun v => refuses_combine hop (commits_read_immediate _ _) v

theorem refuses_logicImmediate (op : LogicOp) : Refuses (logicImmediate op i) :=
  refuses_resolve h fun v => refuses_combineBits op (commits_read_immediate _ _) v

theorem refuses_arithQuick {op : ArithOp} (hop : op ≠ .cmp) : Refuses (arithQuick op i) :=
  refuses_resolve h fun v => refuses_combine hop (commits_read_immediate _ _) v

/-- Opcode bit 8 makes the operand field the destination. -/
theorem refuses_operandPair {g : Operand × Operand → Exec β} (hbit : i.opcode.getLsbD 8 = true)
    (hg : ∀ v, Refuses (g (.data i.highRegister, .immediate v))) :
    Refuses (operandPair i >>= g) := by
  have hpair : operandPair i >>= g =
      resolve i.destination i.size >>= fun operand => g (.data i.highRegister, operand) := by
    funext m
    unfold operandPair destination
    simp only [run_bind, hbit, if_true]
    cases resolve i.destination i.size m with
    | error t m₁ => rfl
    | ok operand m₁ => rfl
  rw [hpair]
  exact refuses_resolve h hg

theorem refuses_arith {op : ArithOp} (hop : op ≠ .cmp) (hbit : i.opcode.getLsbD 8 = true) :
    Refuses (arith op i) := by
  have hpair : Refuses (operandPair i >>= fun p => combine op p.1 p.2 i.size) :=
    refuses_operandPair h hbit fun v => refuses_combine hop (commits_read_register _ _) v
  cases op with
  | cmp => exact absurd rfl hop
  | add | sub => exact hpair

theorem refuses_eor : Refuses (logic .eor i) :=
  refuses_resolve h fun v => refuses_combineBits .eor (commits_read_register _ _) v

theorem refuses_logic {op : LogicOp} (hop : op ≠ .eor) (hbit : i.opcode.getLsbD 8 = true) :
    Refuses (logic op i) := by
  have hpair : Refuses (operandPair i >>= fun p => combineBits op p.1 p.2 i.size) :=
    refuses_operandPair h hbit fun v => refuses_combineBits op (commits_read_register _ _) v
  cases op with
  | eor => exact absurd rfl hop
  | or | and => exact hpair

end Destination

/-- The memory operand of a shift is in the source field. -/
theorem refuses_shiftMemory (h : Unwritable i.source) (kind : ShiftKind) (direction : Direction) :
    Refuses (shiftMemory kind direction i) := refuses_resolve h fun _ => refuses_throw

end Exec

/-! ## 4. The source of a move -/

theorem Changed.eq_of_nil {m m' : Machine} (h : Changed [] m m') : m' = m := by
  cases h with
  | refl => rfl
  | tail _ hstep =>
    obtain ⟨p, hp, _⟩ := hstep
    exact absurd hp List.not_mem_nil

namespace Exec

variable {i : Instruction}

/-- The value of the source operand. -/
def sourceValue (i : Instruction) : Exec Long := do
  let src ← source i
  read src i.size

/-- Whether the source can be read or not, its field has moved its own register. -/
theorem settle_sourceValue (i : Instruction) (m : Machine) :
    (settle (sourceValue i m)).2 =
      { m with registers := m.registers.movedBy i.source i.size } := by
  unfold sourceValue
  rw [run_bind]
  cases hsource : source i m with
  | error t m₁ =>
    unfold source at hsource
    rw [resolve_eq] at hsource
    unfold Registers.movedBy
    cases hfield : m.registers.fieldOperand? i.source i.size with
    | none => rw [hfield] at hsource; cases hsource; rfl
    | some found => rw [hfield] at hsource; cases hsource
  | ok src m₁ =>
    obtain ⟨rfl, _, _⟩ := resolve_ok hsource
    have hread := touches_read src i.size
      { m with registers := m.registers.movedBy i.source i.size }
    dsimp only
    cases hvalue : read src i.size { m with registers := m.registers.movedBy i.source i.size } with
    | error t m₂ => rw [hvalue] at hread; exact hread.eq_of_nil
    | ok v m₂ => rw [hvalue] at hread; exact hread.eq_of_nil

end Exec

namespace Instruction

open Exec

variable {i : Instruction} {ea : EffectiveAddress}

/-- The trap of a `MOVE` whose source traps. Its source comes before its destination. -/
def sourceTrap? (i : Instruction) (m : Machine) : Option Trap :=
  match i.operation, sourceValue i m with
  | .move, .error t _ => some t
  | _, _ => none

/-- A `MOVE` with no place to write to ends in the trap of its source or is refused. -/
theorem execute_move_of_unwritable (hop : i.operation = .move) (h : Unwritable i.destination)
    (m : Machine) :
    ∃ sr, i.execute m = .error ((i.sourceTrap? m).getD .illegalInstruction)
      { m with registers := { m.registers.movedBy i.source i.size with sr } } := by
  have hsplit : i.execute = (do
      let v ← sourceValue i
      let dst ← Exec.destination i
      Exec.write dst i.size v
      changeFlags (.logical v) i.size) := by
    unfold execute sourceValue
    rw [hop, bind_assoc]
    rfl
  have hmoved := settle_sourceValue i m
  rw [hsplit, run_bind]
  unfold sourceTrap?
  rw [hop]
  cases hvalue : sourceValue i m with
  | error t m₁ =>
    rw [hvalue] at hmoved
    obtain rfl : m₁ = _ := hmoved
    exact ⟨_, rfl⟩
  | ok v m₁ =>
    rw [hvalue] at hmoved
    obtain rfl : m₁ = _ := hmoved
    exact refuses_resolve h (fun _ => refuses_throw) _

/-! ## 5. Instructions -/

/-- The operand field that an instruction writes, if it writes one. -/
def writtenField? (i : Instruction) : Option EffectiveAddress :=
  match i.operation with
  | .movem => if i.opcode.getLsbD 10 then none else i.destination
  | .shiftMemory _ _ => i.source
  | _ => if i.writesDestination then i.destination else none

/-- **What would write such a field is refused.** Only a `MOVE` has another operand that may trap
    before. -/
theorem refuses_execute (hop : i.operation ≠ .move) (hwritten : i.writtenField? = some ea)
    (h : Unwritable (some ea)) : Refuses i.execute := by
  have hdestination (hw : i.destination = some ea) : Unwritable i.destination := hw ▸ h
  have hsource (hw : i.source = some ea) : Unwritable i.source := hw ▸ h
  unfold writtenField? writesDestination at hwritten
  unfold execute
  generalize i.operation = op at hop hwritten ⊢
  cases op with
  | move => exact absurd rfl hop
  | logicImmediate op => exact refuses_logicImmediate (hdestination hwritten) op
  | not => exact refuses_not (hdestination hwritten)
  | tas => exact refuses_tas (hdestination hwritten)
  | neg => exact refuses_neg (hdestination hwritten)
  | negx => exact refuses_negx (hdestination hwritten)
  | nbcd => exact refuses_nbcd (hdestination hwritten)
  | moveFromSr => exact refuses_moveFromSr (hdestination hwritten)
  | clr => exact refuses_clr (hdestination hwritten)
  | scc => exact refuses_scc (hdestination hwritten)
  | arithQuick op =>
    have harith : op.arith ≠ .cmp := by cases op <;> decide
    exact refuses_arithQuick (hdestination hwritten) harith
  | arithImmediate op =>
    cases op with
    | cmp => cases hwritten
    | add | sub => exact refuses_arithImmediate (hdestination hwritten) (by decide)
  | bitStatic op =>
    cases op with
    | test => cases hwritten
    | change | clear | set => exact refuses_bit (hdestination hwritten) (by decide) _
  | bitDynamic op =>
    cases op with
    | test => cases hwritten
    | change | clear | set => exact refuses_bitDynamic (hdestination hwritten) (by decide)
  | logic op =>
    cases op with
    | eor => exact refuses_eor (hdestination hwritten)
    | or | and =>
      by_cases hbit : i.opcode.getLsbD 8 = true
      · rw [if_pos hbit] at hwritten
        exact refuses_logic (hdestination hwritten) (by decide) hbit
      · rw [if_neg hbit] at hwritten
        cases hwritten
  | arith op =>
    cases op with
    | cmp => cases hwritten
    | add | sub =>
      by_cases hbit : i.opcode.getLsbD 8 = true
      · rw [if_pos hbit] at hwritten
        exact refuses_arith (hdestination hwritten) (by decide) hbit
      · rw [if_neg hbit] at hwritten
        cases hwritten
  | movem =>
    show Refuses (movem i)
    unfold movem
    by_cases hload : i.opcode.getLsbD 10 = true
    · rw [if_pos hload] at hwritten
      cases hwritten
    · rw [if_neg hload] at hwritten ⊢
      exact refuses_movemStore (hdestination hwritten)
  | shiftMemory kind direction => exact refuses_shiftMemory (hsource hwritten) kind direction
  | _ => cases hwritten

theorem sourceTrap?_eq_none (hop : i.operation ≠ .move) (m : Machine) : i.sourceTrap? m = none := by
  unfold sourceTrap?
  split
  · exact absurd ‹_› hop
  · rfl

/-- An operation other than `MOVE` that writes an operand field has no other one. -/
theorem movedBy_source_of_written {layout : Layout} (hd : i.Decoded layout)
    (hop : i.operation ≠ .move) (hwritten : i.writtenField? = some ea) (h : Unwritable (some ea))
    (r : Registers) : r.movedBy i.source i.size = r := by
  cases hs : i.operation.hasSource with
  | false =>
    rw [hd.source_eq_none hs]
    rfl
  | true =>
    have hfield : i.source = some ea := by
      unfold writtenField? writesDestination at hwritten
      generalize i.operation = op at hs hop hwritten
      cases op with
      | move => exact absurd rfl hop
      | shiftMemory kind direction => exact hwritten
      | movea | moveToCcr | moveToSr | pea | jsr | jmp | lea | chk | divide | multiply
      | arithAddress => cases hwritten
      | _ => cases hs
    exact movedBy_of_unwritable (hfield ▸ h) r i.size

/-- **An instruction that would write a literal or an unassigned field is refused.** The memory and
    the data registers stay, and no address register changes but the one that the source of a `MOVE`
    moves. A `MOVE` whose source traps ends in that trap instead. -/
theorem unwritable_refused {c : Code} {pc pc' : Address} (hfetch : c.fetch pc = .ok (some i) pc')
    (hwritten : i.writtenField? = some ea) (hmode : ea.mode? = none ∨ ea.mode? = some .immediate)
    (m : Machine) :
    ∃ sr, i.execute m = .error ((i.sourceTrap? m).getD .illegalInstruction)
      { m with registers := { m.registers.movedBy i.source i.size with sr } } := by
  have h : Unwritable (some ea) := by
    intro mode hmem
    rcases hmode with hnone | hliteral
    · cases hnone.symm.trans hmem
    · exact Option.some.inj (hmem.symm.trans hliteral)
  obtain ⟨layout, hd⟩ := Code.decoded_of_fetch hfetch
  by_cases hop : i.operation = .move
  · have hfield : i.destination = some ea := by
      unfold writtenField? writesDestination at hwritten
      rw [hop] at hwritten
      exact hwritten
    exact execute_move_of_unwritable hop (hfield ▸ h) m
  · rw [sourceTrap?_eq_none hop, movedBy_source_of_written hd hop hwritten h]
    exact refuses_execute hop hwritten h m

/-- `MOVE.W (A0)+,#0`. -/
def moveToLiteral : Instruction :=
  { address := 0, opcode := 0x39D8, operation := .move, size := .word
    extension := ⟨2, .none⟩, source := some ⟨0x18, ⟨2, .none⟩⟩
    destination := some ⟨0x3C, ⟨2, .one 0⟩⟩, length := 4 }

/-- A machine with it as its program. -/
def aboutToMove : Machine :=
  { Machine.new { memoryBytes := 4, traceInstructions := false } with
    memory := (Memory.zeros 4).setBytes 0 [0x39, 0xD8, 0x00, 0x00]
    codeEnd := 4 }

/-- The source has been read and its register moved when the destination is refused. -/
theorem unwritable_refused_moveToLiteral :
    aboutToMove.code.fetch 0 = .ok (some moveToLiteral) 4 ∧
      ∃ m', moveToLiteral.execute aboutToMove = .error .illegalInstruction m' ∧
        m'.memory = aboutToMove.memory ∧ m'.registers.readAddress 0 = 2 := by
  have hfetch : aboutToMove.code.fetch 0 = .ok (some moveToLiteral) 4 := rfl
  obtain ⟨sr, h⟩ := unwritable_refused hfetch rfl (.inr rfl) aboutToMove
  exact ⟨hfetch, _, h, rfl, rfl⟩

/-! ## 6. What is not refused -/

/-- `CLR.W 6(PC)`. -/
def clearRelative : Instruction :=
  { address := 0, opcode := 0x427A, operation := .clr, size := .word
    extension := ⟨2, .none⟩, source := none
    destination := some ⟨0x3A, ⟨2, .one 6⟩⟩, length := 4 }

/-- `CLR.B A0`. -/
def clearLowByte : Instruction :=
  { address := 4, opcode := 0x4208, operation := .clr, size := .byte
    extension := ⟨6, .none⟩, source := none
    destination := some ⟨0x08, ⟨6, .none⟩⟩, length := 2 }

/-- `MOVE.W 1,#0`. -/
def moveFromOdd : Instruction :=
  { address := 6, opcode := 0x39F8, operation := .move, size := .word
    extension := ⟨8, .none⟩, source := some ⟨0x38, ⟨8, .one 1⟩⟩
    destination := some ⟨0x3C, ⟨10, .one 0⟩⟩, length := 6 }

/-- A machine with the three as its program. -/
def acceptingMachine : Machine :=
  { Machine.new { memoryBytes := 12, traceInstructions := false } with
    registers := Registers.zeros.writeAddress 0 0x1234 .long
    memory := (Memory.zeros 12).setBytes 0 [0x42, 0x7A, 0x00, 0x06, 0x42, 0x08, 0x39, 0xF8, 0x00,
      0x01, 0x00, 0x00]
    codeEnd := 12 }

/-- **Not every field that is no place for a result is refused.** An operand relative to the program
    counter is stored to, here into the program itself; the low byte of an address register is
    written; and a `MOVE` from an odd address to a literal ends in an address error. -/
theorem destinations_accepted :
    (acceptingMachine.code.fetch 0 = .ok (some clearRelative) 4 ∧
      clearRelative.writtenField?.bind (·.mode?) = some (.control .pcDisplacement) ∧
      ∃ m', clearRelative.execute acceptingMachine = .ok () m' ∧
        m'.memory.byte 9 = 0 ∧ acceptingMachine.memory.byte 9 = 1) ∧
    (acceptingMachine.code.fetch 4 = .ok (some clearLowByte) 6 ∧
      clearLowByte.writtenField?.bind (·.mode?) = some (.addressDirect 0) ∧
      ∃ m', clearLowByte.execute acceptingMachine = .ok () m' ∧
        m'.registers.readAddress 0 = 0x1200 ∧
        acceptingMachine.registers.readAddress 0 = 0x1234) ∧
    (acceptingMachine.code.fetch 6 = .ok (some moveFromOdd) 12 ∧
      moveFromOdd.writtenField?.bind (·.mode?) = some .immediate ∧
      ∃ m', moveFromOdd.execute acceptingMachine = .error .addressError m') := by
  refine ⟨⟨rfl, rfl, _, rfl, ?_, ?_⟩, ⟨rfl, rfl, _, rfl, ?_, ?_⟩, ⟨rfl, rfl, _, rfl⟩⟩
  · decide
  · decide
  · decide
  · decide

end Instruction

end Mc68000
