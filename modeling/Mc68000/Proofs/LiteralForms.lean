import Mc68000.Proofs.IntegerArithmetic

/-!
# Literal, quick and register forms

One combination of two operands has up to four encodings: with a literal behind the opcode (`ADDI`),
with a literal in the opcode (`ADDQ`), and between a data register and an operand, in either
direction (`ADD`). Where they name the same operands they are the same instruction.

* `Machine.withPc`, `withPcAfter` -- a machine and a result with another program counter;
* `Exec.PcBlind` -- an action that does not look at the program counter and leaves it alone;
* `Exec.Combines` -- an action on two operands that takes the first one by its value;
  `combines_combine`, `combines_combineBits` -- sums, differences, comparisons and logic;
* `EffectiveAddress.SamePlace` -- operand fields that name the same operand;
* `Instruction.SameCombination` -- **the encodings of one combination on a machine**;
* `Instruction.same_combination` -- **they do the same**, wherever they stand.
-/

namespace Mc68000

/-! ## 1. Another program counter -/

/-- The machine with another program counter. -/
def Machine.withPc (m : Machine) (p : Address) : Machine :=
  { m with registers := m.registers.setPc p }

/-- The same result, and a machine with another program counter. -/
def withPcAfter {ε α : Type} (p : Address) :
    EStateM.Result ε Machine α → EStateM.Result ε Machine α
  | .ok a m => .ok a (m.withPc p)
  | .error e m => .error e (m.withPc p)

namespace Registers

variable (r : Registers) (p : Address)

theorem setSp_setPc (a : Address) : (r.setPc p).setSp a = (r.setSp a).setPc p := by
  show (if r.isSupervisor then _ else _) = (if r.isSupervisor then _ else _ : Registers).setPc p
  split <;> rfl

theorem writeAddress_setPc (n : Fin 8) (v : Long) (size : Size) :
    (r.setPc p).writeAddress n v size = (r.writeAddress n v size).setPc p := by
  unfold writeAddress
  dsimp only
  split
  · rfl
  · exact r.setSp_setPc p _

theorem write_setPc (reg : Register) (v : Long) (size : Size) :
    (r.setPc p).write reg v size = (r.write reg v size).setPc p := by
  cases reg with
  | data n => rfl
  | address n => exact r.writeAddress_setPc p n v size

end Registers

/-- An operand is where it was: a mode relative to the program counter counts from its own word. -/
theorem AddressingMode.operand_setPc (mode : AddressingMode) (e : Extension) (size : Size)
    (r : Registers) (p : Address) :
    mode.operand e size (r.setPc p) =
      ((mode.operand e size r).1, (mode.operand e size r).2.setPc p) := by
  have hwritten (n : Fin 8) (v : Long) := r.writeAddress_setPc p n v .long
  cases mode with
  | postIncrement n => exact congrArg (Prod.mk _) (hwritten n _)
  | preDecrement n =>
    have hmoved : (r.setPc p).decrement n size = (r.decrement n size).setPc p := hwritten n _
    unfold operand
    dsimp only
    rw [hmoved]
    rfl
  | control mode => cases mode <;> rfl
  | dataDirect | addressDirect | immediate => rfl

theorem Registers.fieldOperand?_setPc (r : Registers) (p : Address)
    (ea? : Option EffectiveAddress) (size : Size) :
    (r.setPc p).fieldOperand? ea? size =
      (r.fieldOperand? ea? size).map fun found => (found.1, found.2.setPc p) := by
  unfold fieldOperand?
  cases ea? with
  | none => rfl
  | some ea =>
    rw [Option.bind_some, Option.bind_some]
    cases ea.mode? with
    | none => rfl
    | some mode => exact congrArg some (mode.operand_setPc ea.extension size r p)

namespace Exec

variable {α β : Type} {x : Exec α} {f : α → Exec β}

/-- With another program counter the action gives the same, and leaves the same machine but for
    that. -/
def PcBlind (x : Exec α) : Prop := ∀ m p, x (m.withPc p) = withPcAfter p (x m)

theorem PcBlind.eq (hx : PcBlind x) (m : Machine) (p q : Address) :
    x (m.withPc p) = withPcAfter p (x (m.withPc q)) := hx (m.withPc q) p

theorem PcBlind.bind (hx : PcBlind x) (hf : ∀ a, PcBlind (f a)) : PcBlind (x >>= f) := by
  intro m p
  rw [run_bind, run_bind, hx m p]
  cases x m with
  | ok a m' => exact hf a m' p
  | error t m' => rfl

theorem pcBlind_resolve (ea? : Option EffectiveAddress) (size : Size) :
    PcBlind (resolve ea? size) := by
  intro m p
  have hfield : (m.withPc p).registers.fieldOperand? ea? size =
      (m.registers.fieldOperand? ea? size).map fun found => (found.1, found.2.setPc p) :=
    m.registers.fieldOperand?_setPc p ea? size
  rw [resolve_eq, resolve_eq, hfield]
  cases m.registers.fieldOperand? ea? size <;> rfl

theorem pcBlind_read (operand : Operand) (size : Size) : PcBlind (read operand size) := by
  intro m p
  have hvalue : operand.value? size (m.withPc p).registers (m.withPc p).memory =
      operand.value? size m.registers m.memory := by
    rcases operand with ⟨n⟩ | a | v <;> rfl
  rw [read_eq_value?, read_eq_value?, hvalue]
  cases operand.value? size m.registers m.memory <;> rfl

theorem pcBlind_modifyRegisters {g : Registers → Registers}
    (hg : ∀ r p, g (r.setPc p) = (g r).setPc p) : PcBlind (modifyRegisters g) := by
  intro m p
  show EStateM.Result.ok () { m with registers := g (m.registers.setPc p) } = _
  rw [hg]
  rfl

theorem pcBlind_readAddress (n : Fin 8) : PcBlind (readAddress n) := fun _ _ => rfl

theorem pcBlind_writeAddress (n : Fin 8) (v : Long) : PcBlind (writeAddress n v) :=
  pcBlind_modifyRegisters fun r p => r.writeAddress_setPc p n v .long

theorem pcBlind_write (operand : Operand) (size : Size) (v : Long) :
    PcBlind (write operand size v) := by
  rcases operand with reg | a | literal
  · have hwrite : PcBlind (modifyRegisters (·.write reg v size)) :=
      pcBlind_modifyRegisters fun r p => r.write_setPc p reg v size
    exact hwrite
  · intro m p
    show (if accessible a size m.memory.capacity then _ else _) =
      withPcAfter p (if accessible a size m.memory.capacity then _ else _)
    split <;> rfl
  · exact fun _ _ => rfl

theorem pcBlind_changeFlags (change : FlagChange) (size : Size) :
    PcBlind (changeFlags change size) := fun _ _ => rfl

/-! ## 2. Combinations of two operands -/

/-- An action on a source and a destination that looks at nothing of the source but its value, and
    not at the program counter. -/
structure Combines (g : Operand → Operand → Size → Exec Unit) : Prop where
  congr : ∀ {src src' : Operand} {size : Size} {m : Machine},
    src.value? size m.registers m.memory = src'.value? size m.registers m.memory →
      ∀ dst, g src dst size m = g src' dst size m
  blind : ∀ src dst size, PcBlind (g src dst size)

theorem combines_combine (op : ArithOp) : Combines (combine op) where
  congr := by
    intro src src' size m h dst
    unfold combine
    rw [read_bind, read_bind, h]
  blind := by
    intro src dst size
    refine (pcBlind_read src size).bind fun s => (pcBlind_read dst size).bind fun d => ?_
    cases op with
    | cmp => exact pcBlind_changeFlags _ size
    | add | sub => exact (pcBlind_write dst size _).bind fun _ => pcBlind_changeFlags _ size

theorem combines_combineBits (op : LogicOp) : Combines (combineBits op) where
  congr := by
    intro src src' size m h dst
    unfold combineBits
    rw [read_bind, read_bind, h]
  blind := by
    intro src dst size
    refine (pcBlind_read src size).bind fun a => (pcBlind_read dst size).bind fun b => ?_
    exact (pcBlind_write dst size _).bind fun _ => pcBlind_changeFlags _ size

variable {j : Instruction} {g : Operand × Operand → Exec β}

/-- With opcode bit 8 set the register is combined into the operand. -/
theorem operandPair_to_field (hbit : j.opcode.getLsbD 8 = true) :
    operandPair j >>= g = (destination j >>= fun operand => g (.data j.highRegister, operand)) := by
  unfold operandPair
  rw [bind_assoc]
  dsimp only
  rw [hbit]
  rfl

/-- With opcode bit 8 clear the operand is combined into the register. -/
theorem operandPair_to_register (hbit : j.opcode.getLsbD 8 = false) :
    operandPair j >>= g = (destination j >>= fun operand => g (operand, .data j.highRegister)) := by
  unfold operandPair
  rw [bind_assoc]
  dsimp only
  rw [hbit]
  rfl

end Exec

/-! ## 3. Operand fields -/

/-- The mode counts from where its own word stands. -/
def AddressingMode.isPcRelative : AddressingMode → Bool
  | control .pcDisplacement | control .pcIndexed => true
  | _ => false

/-- An operand depends on the words of its mode, and on where they stand only if the mode does. -/
theorem AddressingMode.operand_of_words {mode : AddressingMode} {e e' : Extension}
    (hwords : e.words = e'.words) (haddress : mode.isPcRelative = true → e.address = e'.address)
    (size : Size) (r : Registers) : mode.operand e size r = mode.operand e' size r := by
  obtain ⟨address, words⟩ := e
  obtain ⟨address', words'⟩ := e'
  obtain rfl : words = words' := hwords
  rcases mode with n | n | n | n | c | _
  case control =>
    cases c with
    | pcDisplacement | pcIndexed =>
      obtain rfl : address = address' := haddress rfl
      rfl
    | _ => rfl
  all_goals rfl

namespace EffectiveAddress

/-- Two fields that name the same operand: one mode with the same words, which stand at one place if
    the mode counts from there. -/
structure SamePlace (a b : EffectiveAddress) : Prop where
  field_eq : a.field = b.field
  words_eq : a.extension.words = b.extension.words
  address_eq : ∀ mode ∈ a.mode?, mode.isPcRelative = true →
    a.extension.address = b.extension.address

/-- The literal that a field of immediate mode names. -/
def literalValue (ea : EffectiveAddress) (size : Size) : Long :=
  if size = .long then ea.extension.long else size.truncate (ea.extension.word.setWidth 32)

theorem SamePlace.fieldOperand?_eq {a b : EffectiveAddress} (h : a.SamePlace b) (size : Size)
    (r : Registers) : r.fieldOperand? (some a) size = r.fieldOperand? (some b) size := by
  have hmode : b.mode? = a.mode? := by
    unfold mode?
    rw [h.field_eq]
  unfold Registers.fieldOperand?
  rw [Option.bind_some, Option.bind_some, hmode]
  cases ha : a.mode? with
  | none => rw [Option.map_none, Option.map_none]
  | some mode =>
    have hoperand := AddressingMode.operand_of_words h.words_eq (h.address_eq mode ha) size r
    rw [Option.map_some, Option.map_some, hoperand]

end EffectiveAddress

/-! ## 4. Encodings -/

/-- The operation between a data register and an operand that does what an operation with a literal
    does. -/
def Operation.registerForm? : Operation → Option Operation
  | arithImmediate op => some (arith op)
  | logicImmediate op => some (logic op)
  | _ => none

namespace Instruction

open Exec

variable {i j : Instruction}

/-- The literal behind the opcode, as far as it counts. -/
def literalValue (i : Instruction) : Long := i.size.truncate i.extension.long

/-- **One action in three encodings**: from the literal to the operand, from the register to the
    operand, and from the operand to the register. `CMP` has no second one, and `EOR` no third. -/
theorem exists_combines (hform : i.operation.registerForm? = some j.operation) :
    ∃ g, Combines g ∧
      i.execute = (Exec.destination i >>= fun dst => g (literal i) dst i.size) ∧
      (j.opcode.getLsbD 8 = true → j.operation ≠ .arith .cmp →
        j.execute = (Exec.destination j >>= fun dst => g (.data j.highRegister) dst j.size)) ∧
      (j.opcode.getLsbD 8 = false → j.operation ≠ .logic .eor →
        j.execute = (Exec.destination j >>= fun src => g src (.data j.highRegister) j.size)) := by
  unfold execute
  generalize i.operation = literalForm at hform
  generalize j.operation = registerForm at hform
  cases literalForm with
  | arithImmediate op =>
    cases hform
    refine ⟨combine op, combines_combine op, rfl, fun hbit hcmp => ?_, fun hbit _ => ?_⟩
    · cases op with
      | cmp => exact absurd rfl hcmp
      | add | sub => exact operandPair_to_field hbit
    · cases op with
      | cmp => rfl
      | add | sub => exact operandPair_to_register hbit
  | logicImmediate op =>
    cases hform
    refine ⟨combineBits op, combines_combineBits op, rfl, fun hbit _ => ?_, fun hbit heor => ?_⟩
    · cases op with
      | eor => rfl
      | or | and => exact operandPair_to_field hbit
    · cases op with
      | eor => exact absurd rfl heor
      | or | and => exact operandPair_to_register hbit
  | _ => cases hform

/-- Two instructions that encode one combination of two operands on a machine. The first has a
    literal `n`, behind the opcode or in it. -/
inductive SameCombination (m : Machine) (i j : Instruction) : Prop
  /-- `ADDI #n,<ea>` and `ADD Dm,<ea>`, where `Dm` holds `n`. -/
  | fromRegister (a b : EffectiveAddress)
      (form : i.operation.registerForm? = some j.operation)
      (not_cmp : j.operation ≠ .arith .cmp) (direction : j.opcode.getLsbD 8 = true)
      (size_eq : j.size = i.size)
      (left : i.destination = some a) (right : j.destination = some b) (place : a.SamePlace b)
      (value : i.size.truncate (m.registers.readData j.highRegister) = i.literalValue)
  /-- `ADDI #n,Dk` and `ADD #n,Dk`. -/
  | intoRegister (b : EffectiveAddress)
      (form : i.operation.registerForm? = some j.operation)
      (not_eor : j.operation ≠ .logic .eor) (direction : j.opcode.getLsbD 8 = false)
      (size_eq : j.size = i.size)
      (target : i.destination.bind (·.mode?) = some (.dataDirect j.highRegister))
      (source : j.destination = some b) (immediate : b.mode? = some .immediate)
      (value : b.literalValue i.size = i.literalValue)
  /-- `ADDI #n,Dk` and `ADD Dm,Dk`, where `Dm` holds `n`. -/
  | betweenRegisters (k : Fin 8)
      (form : i.operation.registerForm? = some j.operation)
      (not_eor : j.operation ≠ .logic .eor) (direction : j.opcode.getLsbD 8 = false)
      (size_eq : j.size = i.size)
      (target : i.destination.bind (·.mode?) = some (.dataDirect j.highRegister))
      (source : j.destination.bind (·.mode?) = some (.dataDirect k))
      (value : i.size.truncate (m.registers.readData k) = i.literalValue)
  /-- `ADDQ #n,<ea>` and `ADDI #n,<ea>`, where the operand is no address register. Opcode bits 11 to
      9 of the first are `n`, or zero for eight. -/
  | quick (op : AddSub) (n : Nat) (a b : EffectiveAddress)
      (quick : i.operation = .arithQuick op) (literal : j.operation = .arithImmediate op.arith)
      (size_eq : j.size = i.size)
      (left : i.destination = some a) (right : j.destination = some b) (place : a.SamePlace b)
      (plain : ∀ k, a.mode? ≠ some (.addressDirect k))
      (one_le : 1 ≤ n) (le_eight : n ≤ 8) (count : i.highRegister.val = n % 8)
      (value : j.literalValue = BitVec.ofNat 32 n)

theorem quickValue_eq {n : Nat} (hone : 1 ≤ n) (height : n ≤ 8)
    (hcount : i.highRegister.val = n % 8) : i.quickValue = n := by
  unfold quickValue
  by_cases hzero : i.highRegister = 0
  · rw [if_pos hzero]
    have hval : i.highRegister.val = 0 := congrArg Fin.val hzero
    omega
  · rw [if_neg hzero, hcount]
    have hval : i.highRegister.val ≠ 0 := fun h => hzero (Fin.ext h)
    omega

theorem destination_of_dataDirect {k : Fin 8} {m : Machine}
    (h : i.destination.bind (·.mode?) = some (.dataDirect k)) :
    Exec.destination i m = .ok (.data k) m := by
  obtain ⟨ea, hea, hmode⟩ := Option.bind_eq_some_iff.mp h
  refine destination_of_field (r := m.registers) ?_
  unfold Registers.fieldOperand?
  rw [hea, Option.bind_some, hmode]
  rfl

theorem destination_of_immediate {ea : EffectiveAddress} {m : Machine}
    (h : i.destination = some ea) (hmode : ea.mode? = some .immediate) :
    Exec.destination i m = .ok (.immediate (ea.literalValue i.size)) m := by
  refine destination_of_field (r := m.registers) ?_
  unfold Registers.fieldOperand?
  rw [h, Option.bind_some, hmode]
  rfl

theorem destination_eq_of_place {a b : EffectiveAddress} (hsize : j.size = i.size)
    (hleft : i.destination = some a) (hright : j.destination = some b) (h : a.SamePlace b) :
    Exec.destination i = Exec.destination j := by
  funext m
  unfold Exec.destination
  rw [resolve_eq, resolve_eq, hleft, hright, hsize, h.fieldOperand?_eq]

/-- The two sources have one value, so what is done with them is the same, on any machine with the
    same data registers. -/
theorem SameCombination.execute_eq {m k : Machine} (h : SameCombination k i j)
    (hdata : m.registers.data = k.registers.data) : i.execute m = j.execute m := by
  have hliteral (r : Registers) : (literal i).value? i.size r m.memory = some i.literalValue :=
    congrArg some (i.size.truncate_truncate _)
  have hregister {r : Registers} (hr : r.data = k.registers.data) (n : Fin 8) :
      (Operand.data n).value? i.size r m.memory =
        some (i.size.truncate (k.registers.readData n)) := by
    unfold Registers.readData
    rw [← hr]
    rfl
  cases h with
  | fromRegister a b form not_cmp direction size_eq left right place value =>
    obtain ⟨g, hg, hi, hj, -⟩ := exists_combines form
    rw [hi, hj direction not_cmp, destination_eq_of_place size_eq left right place, size_eq,
      run_bind, run_bind]
    cases hdst : Exec.destination j m with
    | error t m₁ => rfl
    | ok dst m₁ =>
      have htouched := (touches_destination j).changed hdst
      have hsame : m₁.registers.data = k.registers.data :=
        (htouched.data_eq (by simp)).trans hdata
      refine hg.congr ?_ dst
      rw [htouched.memory_eq (by simp), hliteral, hregister hsame, value]
  | intoRegister b form not_eor direction size_eq target source immediate value =>
    obtain ⟨g, hg, hi, -, hj⟩ := exists_combines form
    rw [hi, hj direction not_eor, bind_eq (destination_of_dataDirect target),
      bind_eq (destination_of_immediate source immediate), size_eq, value]
    refine hg.congr ?_ _
    rw [hliteral]
    exact congrArg some (i.size.truncate_truncate _).symm
  | betweenRegisters n form not_eor direction size_eq target source value =>
    obtain ⟨g, hg, hi, -, hj⟩ := exists_combines form
    rw [hi, hj direction not_eor, bind_eq (destination_of_dataDirect target),
      bind_eq (destination_of_dataDirect source), size_eq]
    refine hg.congr ?_ _
    rw [hliteral, hregister hdata, value]
  | quick op n a b quick literal size_eq left right place plain one_le le_eight count value =>
    have hi : i.execute = arithQuick op.arith i := by
      unfold execute
      rw [quick]
    have hj : j.execute = arithImmediate op.arith j := by
      unfold execute
      rw [literal]
    have hfields := destination_eq_of_place size_eq left right place
    rw [hi, hj]
    cases hfield : m.registers.fieldOperand? i.destination i.size with
    | none =>
      have hnone : Exec.destination i m = .error .illegalInstruction m := by
        unfold Exec.destination
        rw [resolve_eq, hfield]
      unfold arithQuick arithImmediate
      rw [← hfields, run_bind, run_bind, hnone]
    | some found =>
      obtain ⟨operand, r⟩ := found
      have hfield' : m.registers.fieldOperand? j.destination j.size = some (operand, r) := by
        rw [right, size_eq, ← place.fieldOperand?_eq, ← left]
        exact hfield
      have hplain : ∀ n, operand ≠ .address n := by
        rintro n rfl
        rw [left] at hfield
        obtain ⟨mode, hmode, hoperand⟩ := Option.map_eq_some_iff.mp hfield
        cases mode with
        | addressDirect n' => exact plain n' hmode
        | _ => cases hoperand
      rw [arithQuick_eq_run op hfield hplain, arithImmediate_eq_run op hfield', size_eq,
        ← combine_eq_run, ← combine_eq_run, quickValue_eq one_le le_eight count, ← value]
      refine (combines_combine op.arith).congr ?_ operand
      unfold Exec.literal literalValue
      rw [size_eq]

/-- The first of the two instructions does not look at the program counter. -/
theorem SameCombination.blind {m : Machine} (h : SameCombination m i j) : PcBlind i.execute := by
  have hliteral (form : i.operation.registerForm? = some j.operation) : PcBlind i.execute := by
    obtain ⟨g, hg, hi, -⟩ := exists_combines form
    rw [hi]
    exact (pcBlind_resolve _ _).bind fun dst => hg.blind _ dst _
  rcases h with ⟨_, _, form⟩ | ⟨_, form⟩ | ⟨_, form⟩ | ⟨op, n, a, b, quick⟩
  · exact hliteral form
  · exact hliteral form
  · exact hliteral form
  · unfold execute
    rw [quick]
    refine (pcBlind_resolve _ _).bind fun dst => ?_
    split
    · exact (pcBlind_readAddress _).bind fun v => pcBlind_writeAddress _ _
    · exact (combines_combine op.arith).blind _ dst _

/-- **Literal, quick and register forms agree**: two instructions that encode one combination on a
    machine end in the same trap or both succeed, and leave the same registers, flags and memory.
    Nothing depends on the program counter, and it stays what it was for either. -/
theorem same_combination {m : Machine} (h : SameCombination m i j) (p q : Address) :
    i.execute (m.withPc p) = withPcAfter p (j.execute (m.withPc q)) := by
  have hdata : (m.withPc q).registers.data = m.registers.data := rfl
  rw [h.blind.eq m p q, h.execute_eq hdata]

/-- `ADDI.B #8,(A0)+`. -/
def addEightToMemory : Instruction :=
  { address := 2, opcode := 0x0618, operation := .arithImmediate .add, size := .byte
    extension := ⟨4, .one 8⟩, source := none, destination := some ⟨0b011000, ⟨6, .none⟩⟩
    length := 4 }

/-- `ADD.B D1,(A0)+`. -/
def addRegisterToMemory : Instruction :=
  { address := 6, opcode := 0xD318, operation := .arith .add, size := .byte
    extension := ⟨8, .none⟩, source := none, destination := some ⟨0b011000, ⟨8, .none⟩⟩
    length := 2 }

/-- `ADDQ.B #8,(A0)+`. -/
def addQuickToMemory : Instruction :=
  { address := 8, opcode := 0x5018, operation := .arithQuick .add, size := .byte
    extension := ⟨10, .none⟩, source := none, destination := some ⟨0b011000, ⟨10, .none⟩⟩
    length := 2 }

/-- `ADDI.B #8,D2`. -/
def addEightToData : Instruction :=
  { address := 10, opcode := 0x0602, operation := .arithImmediate .add, size := .byte
    extension := ⟨12, .one 8⟩, source := none, destination := some ⟨0b000010, ⟨14, .none⟩⟩
    length := 4 }

/-- `ADD.B #8,D2`. -/
def addOperandToData : Instruction :=
  { address := 14, opcode := 0xD43C, operation := .arith .add, size := .byte
    extension := ⟨16, .none⟩, source := none, destination := some ⟨0b111100, ⟨16, .one 8⟩⟩
    length := 4 }

/-- A machine with these instructions, `D1` a number with eight in its low byte. -/
def aboutToAddEight : Machine :=
  { Machine.new { memoryBytes := 18, traceInstructions := false } with
    registers := Registers.zeros.writeData 1 0x12345608 .long
    memory := (Memory.zeros 18).setBytes 0
      [0xF9, 0x00, 0x06, 0x18, 0x00, 0x08, 0xD3, 0x18, 0x50, 0x18, 0x06, 0x02, 0x00, 0x08, 0xD4,
        0x3C, 0x00, 0x08]
    codeStart := 2
    codeEnd := 18 }

/-- Eight on the same byte in three ways, and on a register in two. -/
theorem same_combination_addEight :
    (aboutToAddEight.code.fetch 2 = .ok (some addEightToMemory) 6 ∧
      aboutToAddEight.code.fetch 6 = .ok (some addRegisterToMemory) 8 ∧
      aboutToAddEight.code.fetch 8 = .ok (some addQuickToMemory) 10 ∧
      aboutToAddEight.code.fetch 10 = .ok (some addEightToData) 14 ∧
      aboutToAddEight.code.fetch 14 = .ok (some addOperandToData) 18) ∧
      addEightToMemory.execute (aboutToAddEight.withPc 6) =
        withPcAfter 6 (addRegisterToMemory.execute (aboutToAddEight.withPc 8)) ∧
      addQuickToMemory.execute (aboutToAddEight.withPc 10) =
        withPcAfter 10 (addEightToMemory.execute (aboutToAddEight.withPc 6)) ∧
      addEightToData.execute (aboutToAddEight.withPc 14) =
        withPcAfter 14 (addOperandToData.execute (aboutToAddEight.withPc 18)) ∧
      ∃ m', addQuickToMemory.execute aboutToAddEight = .ok () m' ∧ m'.memory.byte 0 = 1 := by
  have hregister : SameCombination aboutToAddEight addEightToMemory addRegisterToMemory :=
    .fromRegister _ _ rfl (by decide) (by decide) rfl rfl rfl
      ⟨rfl, rfl, by decide⟩ (by decide)
  have hquick : SameCombination aboutToAddEight addQuickToMemory addEightToMemory :=
    .quick .add 8 _ _ rfl rfl rfl rfl rfl ⟨rfl, rfl, by decide⟩ (by decide)
      (by decide) (by decide) (by decide) (by decide)
  have hoperand : SameCombination aboutToAddEight addEightToData addOperandToData :=
    .intoRegister _ rfl (by decide) (by decide) rfl (by decide) rfl (by decide) (by decide)
  refine ⟨⟨rfl, rfl, rfl, rfl, rfl⟩, same_combination hregister 6 8, same_combination hquick 10 6,
    same_combination hoperand 14 18, ?_⟩
  exact ⟨_, rfl, by decide⟩

end Instruction

end Mc68000
