import Mc68000.Proofs.Assembly.Meaning.Plain

/-!
# What the text says about operations on operands

* `Alike.execute_unary`, `Alike.execute_of_source` -- the operations on one operand, a destination
  or a source; `Alike.execute_immediate`, `Alike.execute_into_address`, `Alike.execute_into_data` --
  those on one operand and a literal or a register;
* `Alike.operandPair_congr` -- **two data registers** are written alike in both directions of an
  operation, and give one result;
* `Alike.execute_move`, `Alike.execute_movea` -- two operands, the second of which tells where the
  words of the first stand;
* `Alike.execute_movem` -- **a list of registers** cannot be taken for a place in memory, and the
  text of the place tells which way round the mask is.
-/

namespace Mc68000

namespace Instruction

open Assembly Exec

variable {i j : Instruction}

namespace Alike

/-! ## 1. Destinations -/

theorem execute_unary (h : Alike i j)
    (hi : i.operation ∈ [.negx, .clr, .neg, .not, .tst, .nbcd, .tas]) : i.execute = j.execute := by
  have hj := h.operation_eq
  have htexts := h.texts_eq
  simp only [List.mem_cons, List.not_mem_nil, or_false] at hi
  rcases hi with hi | hi | hi | hi | hi | hi | hi
  all_goals
    rw [hi] at hj
    simp only [operandTexts, hi, ← hj, List.cons.injEq, and_true] at htexts
    have hdestination : Exec.destination i = Exec.destination j :=
      (h.destination_congr htexts).resolve_eq
    simp only [execute, hi, ← hj, Exec.negx, Exec.clr, Exec.neg, Exec.not, Exec.tst, Exec.nbcd,
      Exec.tas, hdestination, h.size_eq]

theorem execute_scc (h : Alike i j) (hi : i.operation = .scc) : i.execute = j.execute := by
  have hj := h.operation_eq.symm.trans hi
  have htexts := h.texts_eq
  have hcondition := h.condition_eq (by rw [hi]; rfl)
  simp only [operandTexts, hi, hj, List.cons.injEq, and_true] at htexts
  have hdestination : Exec.destination i = Exec.destination j :=
    (h.destination_congr htexts).resolve_eq
  simp only [execute, hi, hj, Exec.scc, hdestination, hcondition]

theorem execute_moveFromSr (h : Alike i j) (hi : i.operation = .moveFromSr) :
    i.execute = j.execute := by
  have hj := h.operation_eq.symm.trans hi
  have htexts := h.texts_eq
  simp only [operandTexts, hi, hj, List.cons.injEq, and_true, true_and] at htexts
  have hdestination : Exec.destination i = Exec.destination j :=
    (h.destination_congr htexts).resolve_eq
  simp only [execute, hi, hj, Exec.moveFromSr, hdestination]

theorem literal_congr (h : Alike i j)
    (htext : literalText i.size i.extension.long = literalText j.size j.extension.long) :
    literal i = literal j := by
  rw [h.size_eq] at htext
  rw [literal, literal, h.size_eq, literalText_inj htext]

/-- A literal and an operand. -/
theorem execute_immediate (h : Alike i j)
    (hi : (∃ op, i.operation = .arithImmediate op) ∨ ∃ op, i.operation = .logicImmediate op) :
    i.execute = j.execute := by
  have hj := h.operation_eq
  have htexts := h.texts_eq
  obtain ⟨op, hi⟩ | ⟨op, hi⟩ := hi
  all_goals
    rw [hi] at hj
    simp only [operandTexts, hi, ← hj, List.cons.injEq, and_true] at htexts
    have hdestination : Exec.destination i = Exec.destination j :=
      (h.destination_congr htexts.2).resolve_eq
    simp only [execute, hi, ← hj, Exec.arithImmediate, Exec.logicImmediate, hdestination,
      h.literal_congr htexts.1, h.size_eq]

theorem execute_bitStatic (h : Alike i j) {op : BitOp} (hi : i.operation = .bitStatic op) :
    i.execute = j.execute := by
  have hj := h.operation_eq.symm.trans hi
  have htexts := h.texts_eq
  simp only [operandTexts, hi, hj, List.cons.injEq, and_true] at htexts
  have hdestination : Exec.destination i = Exec.destination j :=
    (h.destination_congr htexts.2).resolve_eq
  have hnumber : i.extension.word = j.extension.word := BitVec.eq_of_toNat_eq
    (Digits.decimal_inj ((String.append_right_inj "#").mp htexts.1))
  simp only [execute, hi, hj, Exec.bitStatic, Exec.bit, hdestination, hnumber, h.size_eq]

theorem execute_bitDynamic (h : Alike i j) {op : BitOp} (hi : i.operation = .bitDynamic op) :
    i.execute = j.execute := by
  have hj := h.operation_eq.symm.trans hi
  have htexts := h.texts_eq
  simp only [operandTexts, hi, hj, List.cons.injEq, and_true] at htexts
  have hdestination : Exec.destination i = Exec.destination j :=
    (h.destination_congr htexts.2).resolve_eq
  simp only [execute, hi, hj, Exec.bitDynamic, Exec.bit, hdestination, dataName_inj htexts.1,
    h.size_eq]

theorem execute_arithQuick (h : Alike i j) {op : AddSub} (hi : i.operation = .arithQuick op) :
    i.execute = j.execute := by
  have hj := h.operation_eq.symm.trans hi
  have htexts := h.texts_eq
  simp only [operandTexts, hi, hj, List.cons.injEq, and_true] at htexts
  have hdestination : Exec.destination i = Exec.destination j :=
    (h.destination_congr htexts.2).resolve_eq
  have hnumber := Digits.decimal_inj ((String.append_right_inj "#").mp htexts.1)
  simp only [execute, hi, hj, Exec.arithQuick, hdestination, hnumber, h.size_eq]

/-! ## 2. A data register and an operand -/

/-- An operand that is written as a data register is one. -/
theorem mode_of_dataName {k : Instruction} {a : Option EffectiveAddress} {n : Fin 8}
    (h : k.operandText a = dataName n) : a.bind (·.mode?) = some (.dataDirect n) := by
  rw [← k.mode_of_operandText a, h]
  exact AddressingMode.ofText?_text (.dataDirect n) ⟨0, .none⟩ .byte

theorem destination_of_dataName {n : Fin 8} (h : i.operandText i.destination = dataName n) :
    Exec.destination i = pure (.data n) := by
  obtain ⟨ea, hea, hmode⟩ := Option.bind_eq_some_iff.mp (mode_of_dataName h)
  rw [Exec.destination, hea, resolve_of_some hmode]
  rfl

/-- **The two directions of an operation on two data registers are one**, for the text does not
    tell which of the two opcode fields a register comes from. -/
theorem operandPair_congr (h : Alike i j)
    (htexts : (if i.opcode.getLsbD 8 then [dataName i.highRegister, i.operandText i.destination]
        else [i.operandText i.destination, dataName i.highRegister]) =
      if j.opcode.getLsbD 8 then [dataName j.highRegister, j.operandText j.destination]
      else [j.operandText j.destination, dataName j.highRegister]) :
    operandPair i = operandPair j := by
  unfold operandPair
  split at htexts <;> split at htexts
  all_goals
    rename_i hbit hbit'
    simp only [List.cons.injEq, and_true] at htexts
  · have hdestination : Exec.destination i = Exec.destination j :=
      (h.destination_congr htexts.2).resolve_eq
    simp only [if_pos hbit, if_pos hbit', hdestination, dataName_inj htexts.1]
  · simp only [if_pos hbit, if_neg hbit', destination_of_dataName htexts.1.symm,
      destination_of_dataName htexts.2, pure_bind]
  · simp only [if_neg hbit, if_pos hbit', destination_of_dataName htexts.1,
      destination_of_dataName htexts.2.symm, pure_bind]
  · have hdestination : Exec.destination i = Exec.destination j :=
      (h.destination_congr htexts.1).resolve_eq
    simp only [if_neg hbit, if_neg hbit', hdestination, dataName_inj htexts.2]

theorem execute_logic (h : Alike i j) {op : LogicOp} (hi : i.operation = .logic op) :
    i.execute = j.execute := by
  have hj := h.operation_eq.symm.trans hi
  have htexts := h.texts_eq
  cases op
  case eor =>
    simp only [operandTexts, hi, hj, List.cons.injEq, and_true] at htexts
    have hdestination : Exec.destination i = Exec.destination j :=
      (h.destination_congr htexts.2).resolve_eq
    simp only [execute, hi, hj, Exec.logic, hdestination, dataName_inj htexts.1, h.size_eq]
  all_goals
    simp only [operandTexts, hi, hj] at htexts
    simp only [execute, hi, hj, Exec.logic, h.operandPair_congr htexts, h.size_eq]

theorem execute_arith (h : Alike i j) {op : ArithOp} (hi : i.operation = .arith op) :
    i.execute = j.execute := by
  have hj := h.operation_eq.symm.trans hi
  have htexts := h.texts_eq
  cases op
  case cmp =>
    simp only [operandTexts, hi, hj, List.cons.injEq, and_true] at htexts
    have hdestination : Exec.destination i = Exec.destination j :=
      (h.destination_congr htexts.1).resolve_eq
    simp only [execute, hi, hj, Exec.arith, hdestination, dataName_inj htexts.2, h.size_eq]
  all_goals
    simp only [operandTexts, hi, hj] at htexts
    simp only [execute, hi, hj, Exec.arith, h.operandPair_congr htexts, h.size_eq]

/-! ## 3. Sources -/

theorem source_of_text (h : Alike i j) (honly : i.operation.hasDestination = false)
    (htext : i.operandText i.source = j.operandText j.source) :
    Exec.source i = Exec.source j ∧ control i.source = control j.source :=
  ⟨(h.source_congr_of_only honly htext).resolve_eq, (h.source_congr_of_only honly htext).control_eq⟩

/-- Operations on the address of their only operand, and shifts in memory. -/
theorem execute_of_source (h : Alike i j)
    (hi : i.operation ∈ [.pea, .jmp, .jsr, .moveToCcr, .moveToSr] ∨
      ∃ kind direction, i.operation = .shiftMemory kind direction) : i.execute = j.execute := by
  have hj := h.operation_eq
  have htexts := h.texts_eq
  simp only [List.mem_cons, List.not_mem_nil, or_false] at hi
  obtain (hi | hi | hi | hi | hi) | ⟨kind, direction, hi⟩ := hi
  all_goals
    rw [hi] at hj
    simp only [operandTexts, hi, ← hj, List.cons.injEq, and_true] at htexts
    obtain ⟨hsource, hcontrol⟩ := h.source_of_text (by rw [hi]; rfl) htexts
    simp only [execute, hi, ← hj, Exec.pea, Exec.jmp, Exec.jsr, Exec.moveToCcr, Exec.moveToSr,
      Exec.shiftMemory, hsource, hcontrol, h.call_congr]

/-- A source and an address register. -/
theorem execute_into_address (h : Alike i j)
    (hi : i.operation = .lea ∨ ∃ op, i.operation = .arithAddress op) : i.execute = j.execute := by
  have hj := h.operation_eq
  have htexts := h.texts_eq
  obtain hi | ⟨op, hi⟩ := hi
  all_goals
    rw [hi] at hj
    simp only [operandTexts, hi, ← hj, List.cons.injEq, and_true] at htexts
    obtain ⟨hsource, hcontrol⟩ := h.source_of_text (by rw [hi]; rfl) htexts.1
    simp only [execute, hi, ← hj, Exec.lea, Exec.arithAddress, hsource, hcontrol,
      addressName_inj htexts.2, h.size_eq]

/-- A source and a data register. -/
theorem execute_into_data (h : Alike i j)
    (hi : i.operation = .chk ∨ ∃ s, i.operation = .multiply s ∨ i.operation = .divide s) :
    i.execute = j.execute := by
  have hj := h.operation_eq
  have htexts := h.texts_eq
  obtain hi | ⟨s, hi | hi⟩ := hi
  all_goals
    rw [hi] at hj
    simp only [operandTexts, hi, ← hj, List.cons.injEq, and_true] at htexts
    obtain ⟨hsource, -⟩ := h.source_of_text (by rw [hi]; rfl) htexts.1
    simp only [execute, hi, ← hj, Exec.chk, Exec.multiply, Exec.divide, hsource,
      dataName_inj htexts.2]

theorem execute_move (h : Alike i j) (hi : i.operation = .move) : i.execute = j.execute := by
  have hj := h.operation_eq.symm.trans hi
  have htexts := h.texts_eq
  simp only [operandTexts, hi, hj, List.cons.injEq, and_true] at htexts
  have hdst := h.destination_congr htexts.2
  have hdestination : Exec.destination i = Exec.destination j := hdst.resolve_eq
  have hsource : Exec.source i = Exec.source j := (h.source_congr hdst.mode_eq htexts.1).resolve_eq
  simp only [execute, hi, hj, Exec.move, hsource, hdestination, h.size_eq]

/-- `MOVEA` shows the address register that it writes. -/
theorem execute_movea (h : Alike i j) (hi : i.operation = .movea) : i.execute = j.execute := by
  have hj := h.operation_eq.symm.trans hi
  have htexts := h.texts_eq
  simp only [operandTexts, hi, hj, List.cons.injEq, and_true] at htexts
  have hdst := h.destination_congr htexts.2
  have hhigh : i.highRegister = j.highRegister := by
    obtain ⟨_, hdi⟩ := h.decoded
    obtain ⟨_, hdj⟩ := h.decoded'
    have hmode := hdst.mode_eq
    rw [hdi.destination_movea hi, hdj.destination_movea hj] at hmode
    exact AddressingMode.addressDirect.inj (Option.some.inj hmode)
  have hsource : Exec.source i = Exec.source j := (h.source_congr hdst.mode_eq htexts.1).resolve_eq
  simp only [execute, hi, hj, Exec.movea, hsource, hhigh, h.size_eq]

end Alike

end Instruction

/-! ## 4. Lists of registers -/

/-- The text of a place in memory or of a literal has a character that no list of registers has. -/
theorem AddressingMode.exists_mark (mode : AddressingMode) (hmode : mode.isRegister = false)
    (e : Extension) (size : Size) :
    ∃ c ∈ (mode.text e size).toList, Assembly.isListChar c = false := by
  rcases mode with n | n | n | n | mode | _
  case dataDirect | addressDirect => cases hmode
  case immediate =>
    exact ⟨'#', by simp [text, Assembly.literalText], by decide⟩
  case control =>
    cases mode
    case absoluteShort | absoluteLong =>
      exact ⟨'$', by simp [text, ControlMode.text, Assembly.hex], by decide⟩
    all_goals exact ⟨'(', by simp [text, ControlMode.text], by decide⟩
  all_goals exact ⟨'(', by simp [text], by decide⟩

namespace Instruction

open Assembly Exec

variable {i j : Instruction}

/-- An operand that is written like a list of registers is a register. -/
theorem isRegister_of_registerList {a : Option EffectiveAddress} {mask : Word}
    (h : i.operandText a = registerList mask) : ∀ mode ∈ a.bind (·.mode?), mode.isRegister = true := by
  intro mode hmode
  obtain ⟨ea, rfl, hmode⟩ := Option.bind_eq_some_iff.mp hmode
  cases hregister : mode.isRegister with
  | true => rfl
  | false =>
    obtain ⟨c, hc, hmark⟩ := mode.exists_mark hregister ea.extension i.size
    rw [← i.operandText_of_mode hmode, h] at hc
    exact absurd (isListChar_registerList mask c hc) (by rw [hmark]; decide)

/-- With a register for its place in memory, `MOVEM` is no instruction. -/
theorem execute_movem_register (hi : i.operation = .movem)
    (h : ∀ mode ∈ i.destination.bind (·.mode?), mode.isRegister = true) :
    i.execute = throw .illegalInstruction := by
  have hmovem : movemLoad i = throw .illegalInstruction ∧
      movemStore i = throw .illegalInstruction := by
    unfold movemLoad movemStore movemMode
    cases hmode : i.destination.bind (·.mode?) with
    | none => exact ⟨rfl, rfl⟩
    | some mode =>
      have hregister := h mode hmode
      obtain ⟨ea, hea, hmode⟩ := Option.bind_eq_some_iff.mp hmode
      have hcontrol : control i.destination = throw .illegalInstruction := by
        rw [hea]
        refine control_of_register hmode ?_
        rintro c rfl
        cases hregister
      rw [hcontrol]
      cases mode
      case dataDirect | addressDirect => exact ⟨rfl, rfl⟩
      all_goals cases hregister
  simp only [execute, hi, movem, hmovem, ite_self]

namespace Alike

theorem movemMode_congr (hmode : i.destination.bind (·.mode?) = j.destination.bind (·.mode?)) :
    movemMode i = movemMode j := by
  rw [movemMode, movemMode, hmode]

/-- A list of registers tells the mask, given the mode that tells which way round it is. -/
theorem mask_congr (hmode : i.destination.bind (·.mode?) = j.destination.bind (·.mode?))
    (htext : registerList i.movemMask = registerList j.movemMask) :
    i.extension.word = j.extension.word := by
  have hmask := registerList_inj htext
  unfold movemMask at hmask
  rw [hmode] at hmask
  split at hmask
  · have hreversed := congrArg BitVec.reverse hmask
    rwa [BitVec.reverse_reverse_eq, BitVec.reverse_reverse_eq] at hreversed
  · exact hmask

theorem execute_movem (h : Alike i j) (hi : i.operation = .movem) : i.execute = j.execute := by
  have hj := h.operation_eq.symm.trans hi
  have htexts := h.texts_eq
  simp only [operandTexts, hi, hj] at htexts
  split at htexts <;> split at htexts
  all_goals
    rename_i hbit hbit'
    simp only [List.cons.injEq, and_true] at htexts
  · have hdst := h.destination_congr htexts.1
    simp only [execute, hi, hj, movem, if_pos hbit, if_pos hbit', movemLoad,
      mask_congr hdst.mode_eq htexts.2, movemMode_congr hdst.mode_eq, hdst.control_eq, h.size_eq]
  · rw [execute_movem_register hi (isRegister_of_registerList htexts.1),
      execute_movem_register hj (isRegister_of_registerList htexts.2.symm)]
  · rw [execute_movem_register hi (isRegister_of_registerList htexts.2),
      execute_movem_register hj (isRegister_of_registerList htexts.1.symm)]
  · have hdst := h.destination_congr htexts.2
    simp only [execute, hi, hj, movem, if_neg hbit, if_neg hbit', movemStore,
      mask_congr hdst.mode_eq htexts.1, movemMode_congr hdst.mode_eq, hdst.control_eq, h.size_eq]

end Alike

end Instruction

end Mc68000
