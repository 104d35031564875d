import Mc68000.Proofs.Assembly.Reading

/-!
# What the text says about registers, literals and branches

* `Registers.setConditions_congr` -- the status register takes five bits of a literal, so the low
  byte that the text shows is enough;
* `Pattern.mode_of_exg`, `operandTexts_exg` -- **no exchange is without its two registers**;
* `Alike.execute_exg` and the other lemmas of its kind -- operations without an operand in memory
  do the same if they are written alike, one lemma for each layout of the text;
* `branch_of_ne_dbcc`, `branch_of_dbcc` -- a branch goes to the address that its text shows.
-/

namespace Mc68000

/-! ## 1. Bits that the text leaves out -/

/-- Two words with one low byte combine to the same condition codes. -/
theorem Registers.setConditions_congr (op : LogicOp) {w v : Word}
    (h : w.setWidth 8 = v.setWidth 8) (r : Registers) :
    r.setConditions (op.combine r.conditions w) = r.setConditions (op.combine r.conditions v) := by
  have hmasked : w &&& Status.conditions = v &&& Status.conditions := by
    refine BitVec.eq_of_getLsbD_eq fun k hk => ?_
    rw [BitVec.getLsbD_and, BitVec.getLsbD_and]
    by_cases hlow : k < 8
    · have hbit := congrArg (·.getLsbD k) h
      simp only [BitVec.getLsbD_setWidth, hlow, decide_true, Bool.true_and] at hbit
      rw [hbit]
    · have hhigh : ∀ k < 16, ¬ k < 8 → Status.conditions.getLsbD k = false := by decide
      rw [hhigh k hk hlow, Bool.and_false, Bool.and_false]
  have hcombined : op.combine r.conditions w &&& Status.conditions =
      op.combine r.conditions v &&& Status.conditions := by
    refine BitVec.eq_of_getLsbD_eq fun k _ => ?_
    have hbit := congrArg (·.getLsbD k) hmasked
    simp only [BitVec.getLsbD_and] at hbit ⊢
    cases hcondition : Status.conditions.getLsbD k with
    | false => rw [Bool.and_false, Bool.and_false]
    | true =>
      rw [hcondition, Bool.and_true, Bool.and_true] at hbit
      cases op <;> simp [LogicOp.combine, hbit]
  unfold setConditions Status.withConditions
  rw [hcombined]

namespace Pattern

/-- The bits of an opcode that are in neither of its two register fields. -/
theorem and_fixedBits (opcode : Word) :
    opcode &&& 0xF1F8 = opcode.extractLsb' 12 4 ++ 0#3 ++ opcode.extractLsb' 3 6 ++ 0#3 := by
  have hparts : opcode.extractLsb' 12 4 ++ opcode.extractLsb' 9 3 ++ opcode.extractLsb' 3 6 ++
      opcode.extractLsb' 0 3 = opcode := by
    have hhigh : opcode.extractLsb' 12 4 ++ opcode.extractLsb' 9 3 = opcode.extractLsb' 9 7 :=
      BitVec.extractLsb'_append_extractLsb'_eq_extractLsb' rfl
    have hmiddle : opcode.extractLsb' 9 7 ++ opcode.extractLsb' 3 6 = opcode.extractLsb' 3 13 :=
      BitVec.extractLsb'_append_extractLsb'_eq_extractLsb' rfl
    have hall : opcode.extractLsb' 3 13 ++ opcode.extractLsb' 0 3 = opcode.extractLsb' 0 16 :=
      BitVec.extractLsb'_append_extractLsb'_eq_extractLsb' rfl
    rw [hhigh, hmiddle, hall, BitVec.extractLsb'_eq_self]
  calc opcode &&& 0xF1F8
      = (opcode.extractLsb' 12 4 ++ opcode.extractLsb' 9 3 ++ opcode.extractLsb' 3 6 ++
          opcode.extractLsb' 0 3) &&&
          (BitVec.allOnes 4 ++ 0#3 ++ BitVec.allOnes 6 ++ 0#3) := by rw [hparts]; rfl
    _ = opcode.extractLsb' 12 4 ++ 0#3 ++ opcode.extractLsb' 3 6 ++ 0#3 := by
      simp only [BitVec.and_append, BitVec.and_allOnes, BitVec.and_zero]

/-- Where no pattern looks at a register field, the other bits decide. -/
theorem ofOpcode?_fixedBits {opcode : Word}
    (hmask : ∀ p ∈ group (opcode.extractLsb' 12 4), p.mask &&& 0xF1F8 = p.mask) :
    Operation.ofOpcode? (opcode &&& 0xF1F8) = Operation.ofOpcode? opcode := by
  have htop : (opcode &&& 0xF1F8).extractLsb' 12 4 = opcode.extractLsb' 12 4 := by
    rw [BitVec.extractLsb'_and, show (0xF1F8 : Word).extractLsb' 12 4 = BitVec.allOnes 4 by decide,
      BitVec.and_allOnes]
  have hfits : ∀ p ∈ group (opcode.extractLsb' 12 4),
      p.fits (opcode &&& 0xF1F8) = p.fits opcode := by
    intro p hp
    rw [fits, fits, BitVec.and_assoc, BitVec.and_comm 0xF1F8, hmask p hp]
  unfold Operation.ofOpcode?
  rw [htop, ← List.head?_filter, ← List.head?_filter, List.filter_congr hfits]

/-- **An exchange is of two data registers, of two address registers or of one of each.** -/
theorem mode_of_exg {opcode : Word} (h : Operation.ofOpcode? opcode = some .exg) :
    (opcode.extractLsb' 3 5).toNat ∈ [0x08, 0x09, 0x11] := by
  have htop : opcode.extractLsb' 12 4 = 0xC#4 := by
    have htable : ∀ top : BitVec 4, ∀ p ∈ group top, p.operation = .exg → top = 0xC#4 := by decide
    obtain ⟨p, hp, -, hop⟩ := Operation.exists_pattern_of_ofOpcode? h
    exact htable _ p hp hop
  have hmask : ∀ p ∈ group 0xC#4, p.mask &&& 0xF1F8 = p.mask := by decide
  have hmodes : ∀ bits : BitVec 6, Operation.ofOpcode? (0xC#4 ++ 0#3 ++ bits ++ 0#3) = some .exg →
      (bits.extractLsb' 0 5).toNat ∈ [0x08, 0x09, 0x11] := by decide
  have hbits := and_fixedBits opcode
  rw [htop] at hbits
  have hop := (ofOpcode?_fixedBits (htop ▸ hmask)).trans h
  rw [hbits] at hop
  have hfield : (opcode.extractLsb' 3 6).extractLsb' 0 5 = opcode.extractLsb' 3 5 := by
    refine BitVec.eq_of_getLsbD_eq fun k hk => ?_
    have hin : k < 6 := by omega
    simp [hk, hin]
  exact hfield ▸ hmodes _ hop

end Pattern

namespace Assembly

/-- The name of a register. -/
def registerName : Register → String
  | .data n => dataName n
  | .address n => addressName n

theorem registerName_inj {x y : Register} (h : registerName x = registerName y) : x = y := by
  cases x <;> cases y
  · rw [dataName_inj h]
  · exact absurd h (dataName_ne_addressName _ _)
  · exact absurd h.symm (dataName_ne_addressName _ _)
  · rw [addressName_inj h]

end Assembly

namespace Instruction

open Assembly Exec

variable {i j : Instruction}

/-- An exchange is written as the names of its two registers. -/
theorem operandTexts_exg {layout : Layout} (h : i.Decoded layout) (hop : i.operation = .exg) :
    ∃ x y, exchanged? i = some (x, y) ∧ i.operandTexts = [registerName x, registerName y] := by
  have hmode := Pattern.mode_of_exg (hop ▸ h.ofOpcode?_eq)
  simp only [List.mem_cons, List.not_mem_nil, or_false] at hmode
  unfold exchanged? operandTexts
  rcases hmode with hmode | hmode | hmode
  all_goals
    simp only [hop, hmode]
    exact ⟨_, _, rfl, rfl⟩

namespace Alike

/-! ## 2. Registers and literals -/

/-- Operations without an operand do the same wherever they stand. -/
theorem execute_of_bare (h : Alike i j)
    (hi : i.operation ∈ [.illegal, .reset, .nop, .rte, .rts, .trapv, .rtr]) :
    i.execute = j.execute := by
  have hj := h.operation_eq
  simp only [List.mem_cons, List.not_mem_nil, or_false] at hi
  rcases hi with hi | hi | hi | hi | hi | hi | hi
  all_goals
    rw [hi] at hj
    simp only [execute, hi, ← hj]

theorem execute_swap (h : Alike i j) (hi : i.operation = .swap) : i.execute = j.execute := by
  have hj := h.operation_eq.symm.trans hi
  have htexts := h.texts_eq
  simp only [operandTexts, hi, hj, List.cons.injEq, and_true] at htexts
  simp only [execute, hi, hj, swap, dataName_inj htexts]

/-- The size of `EXT` is one bit of its opcode. -/
theorem execute_ext (h : Alike i j) (hi : i.operation = .ext) : i.execute = j.execute := by
  have hj := h.operation_eq.symm.trans hi
  have htexts := h.texts_eq
  have hbit : i.opcode.getLsbD 6 = j.opcode.getLsbD 6 := by
    obtain ⟨_, hdi⟩ := h.decoded
    obtain ⟨_, hdj⟩ := h.decoded'
    have hsize := h.size_eq
    have hofi := hdi.of?_eq
    have hofj := hdj.of?_eq
    rw [hi] at hofi
    rw [hj] at hofj
    rw [hdi.size_eq, hdj.size_eq, ← Option.some.inj hofi, ← Option.some.inj hofj] at hsize
    revert hsize
    show Size.longIf _ = Size.longIf _ → _
    generalize i.opcode.getLsbD 6 = p
    generalize j.opcode.getLsbD 6 = q
    revert p q
    decide
  simp only [operandTexts, hi, hj, List.cons.injEq, and_true] at htexts
  simp only [execute, hi, hj, ext, dataName_inj htexts, hbit]

theorem execute_unlk (h : Alike i j) (hi : i.operation = .unlk) : i.execute = j.execute := by
  have hj := h.operation_eq.symm.trans hi
  have htexts := h.texts_eq
  simp only [operandTexts, hi, hj, List.cons.injEq, and_true] at htexts
  simp only [execute, hi, hj, unlk, addressName_inj htexts]

theorem execute_link (h : Alike i j) (hi : i.operation = .link) : i.execute = j.execute := by
  have hj := h.operation_eq.symm.trans hi
  have htexts := h.texts_eq
  simp only [operandTexts, hi, hj, List.cons.injEq, and_true] at htexts
  have hword := signedWord_inj ((String.append_right_inj "#").mp htexts.2)
  simp only [execute, hi, hj, link, wordDistance, addressName_inj htexts.1, hword]

theorem execute_exg (h : Alike i j) (hi : i.operation = .exg) : i.execute = j.execute := by
  have hj := h.operation_eq.symm.trans hi
  have hregisters : exchanged? i = exchanged? j := by
    obtain ⟨_, hdi⟩ := h.decoded
    obtain ⟨_, hdj⟩ := h.decoded'
    obtain ⟨x, y, hxy, htexts⟩ := operandTexts_exg hdi hi
    obtain ⟨x', y', hxy', htexts'⟩ := operandTexts_exg hdj hj
    have hnames := htexts.symm.trans (h.texts_eq.trans htexts')
    simp only [List.cons.injEq, and_true] at hnames
    rw [hxy, hxy', registerName_inj hnames.1, registerName_inj hnames.2]
  simp only [execute, hi, hj, exg, hregisters]

theorem execute_moveUsp (h : Alike i j) (hi : i.operation = .moveUsp) :
    i.execute = j.execute := by
  have hj := h.operation_eq.symm.trans hi
  have htexts := h.texts_eq
  have hne := specialNames_ne_addressName "USP" (by decide)
  simp only [operandTexts, hi, hj] at htexts
  simp only [execute, hi, hj, moveUsp]
  split at htexts <;> split at htexts
  all_goals
    rename_i hbit hbit'
    simp only [List.cons.injEq, and_true, true_and] at htexts
  · rw [if_pos hbit, if_pos hbit', addressName_inj htexts]
  · exact absurd htexts.2 (hne _)
  · exact absurd htexts.1 (hne _)
  · rw [if_neg hbit, if_neg hbit', addressName_inj htexts]

theorem execute_moveq (h : Alike i j) (hi : i.operation = .moveq) : i.execute = j.execute := by
  have hj := h.operation_eq.symm.trans hi
  have htexts := h.texts_eq
  simp only [operandTexts, hi, hj, List.cons.injEq, and_true] at htexts
  have hbyte := signedByte_inj ((String.append_right_inj "#").mp htexts.1)
  simp only [execute, hi, hj, moveq, Word.byteDisplacement, dataName_inj htexts.2, hbyte]

theorem execute_shiftRegister (h : Alike i j) {kind : ShiftKind} {direction : Direction}
    (hi : i.operation = .shiftRegister kind direction) : i.execute = j.execute := by
  have hj := h.operation_eq.symm.trans hi
  have htexts := h.texts_eq
  simp only [operandTexts, hi, hj] at htexts
  simp only [execute, hi, hj, shiftRegister, h.size_eq]
  split at htexts <;> split at htexts
  all_goals
    rename_i hbit hbit'
    simp only [List.cons.injEq, and_true] at htexts
  · rw [if_pos hbit, if_pos hbit', dataName_inj htexts.1, dataName_inj htexts.2]
  · exact absurd htexts.1.symm (hash_ne_dataName _ _)
  · exact absurd htexts.1 (hash_ne_dataName _ _)
  · have hcount := Digits.decimal_inj ((String.append_right_inj "#").mp htexts.1)
    rw [if_neg hbit, if_neg hbit', hcount, dataName_inj htexts.2]

theorem minus_ne_dataName (s t : String) (n : Fin 8) : "-(" ++ s ++ t ≠ dataName n := by
  intro h
  have hchars := congrArg String.toList h
  rw [toList_dataName, String.append_assoc, String.toList_append] at hchars
  exact absurd (List.cons.inj hchars).1 (by decide)

/-- The operands of an extended operation, from how they are written. -/
theorem extendedPair_congr (size : Size)
    (h : (if i.opcode.getLsbD 3 then
        ["-(" ++ addressName i.lowRegister ++ ")", "-(" ++ addressName i.highRegister ++ ")"]
      else [dataName i.lowRegister, dataName i.highRegister]) =
      if j.opcode.getLsbD 3 then
        ["-(" ++ addressName j.lowRegister ++ ")", "-(" ++ addressName j.highRegister ++ ")"]
      else [dataName j.lowRegister, dataName j.highRegister]) :
    extendedPair i size = extendedPair j size := by
  unfold extendedPair
  split at h <;> split at h
  all_goals
    rename_i hbit hbit'
    simp only [List.cons.injEq, and_true, String.append_left_inj, String.append_right_inj] at h
  · rw [if_pos hbit, if_pos hbit', addressName_inj h.1, addressName_inj h.2]
  · exact absurd h.1 (minus_ne_dataName _ _ _)
  · exact absurd h.1.symm (minus_ne_dataName _ _ _)
  · rw [if_neg hbit, if_neg hbit', dataName_inj h.1, dataName_inj h.2]

theorem execute_arithExtended (h : Alike i j) {op : AddSub} (hi : i.operation = .arithExtended op) :
    i.execute = j.execute := by
  have hj := h.operation_eq.symm.trans hi
  have htexts := h.texts_eq
  simp only [operandTexts, hi, hj] at htexts
  simp only [execute, hi, hj, arithExtended, h.size_eq, extendedPair_congr _ htexts]

theorem execute_decimal (h : Alike i j) {op : AddSub} (hi : i.operation = .decimal op) :
    i.execute = j.execute := by
  have hj := h.operation_eq.symm.trans hi
  have htexts := h.texts_eq
  simp only [operandTexts, hi, hj] at htexts
  simp only [execute, hi, hj, decimal, extendedPair_congr _ htexts]

theorem execute_cmpm (h : Alike i j) (hi : i.operation = .cmpm) : i.execute = j.execute := by
  have hj := h.operation_eq.symm.trans hi
  have htexts := h.texts_eq
  simp only [operandTexts, hi, hj, List.cons.injEq, and_true, String.append_left_inj,
    String.append_right_inj] at htexts
  simp only [execute, hi, hj, cmpm, h.size_eq, addressName_inj htexts.1, addressName_inj htexts.2]

/-- A distance from an address register is told from a data register, and so are its parts. -/
theorem place_ne_dataName (w : Word) (n m : Fin 8) :
    signedWord w ++ "(" ++ addressName n ++ ")" ≠ dataName m := by
  have hbracket : ∀ m : Fin 8, '(' ∉ (dataName m).toList := by decide
  intro h
  exact hbracket m (h ▸ by simp)

theorem place_inj {w v : Word} {n m : Fin 8}
    (h : signedWord w ++ "(" ++ addressName n ++ ")" = signedWord v ++ "(" ++ addressName m ++ ")") :
    w = v ∧ n = m := by
  have hchars : (signedWord w).toList ++ '(' :: ((addressName n).toList ++ [')']) =
      (signedWord v).toList ++ '(' :: ((addressName m).toList ++ [')']) := by
    simpa using congrArg String.toList h
  obtain ⟨hword, hname⟩ := signedDecimal_append_inj hchars
  exact ⟨signedWord_inj hword,
    addressName_inj (String.toList_inj.mp (List.append_cancel_right hname))⟩

theorem execute_movep (h : Alike i j) (hi : i.operation = .movep) : i.execute = j.execute := by
  have hj := h.operation_eq.symm.trans hi
  have htexts := h.texts_eq
  simp only [operandTexts, hi, hj] at htexts
  simp only [execute, hi, hj, movep, wordDistance, h.size_eq]
  split at htexts <;> split at htexts
  all_goals
    rename_i hbit hbit'
    simp only [List.cons.injEq, and_true] at htexts
  · obtain ⟨hword, hlow⟩ := place_inj htexts.2
    simp only [if_pos hbit, if_pos hbit', dataName_inj htexts.1, hword, hlow]
  · exact absurd htexts.1.symm (place_ne_dataName _ _ _)
  · exact absurd htexts.1 (place_ne_dataName _ _ _)
  · obtain ⟨hword, hlow⟩ := place_inj htexts.1
    simp only [if_neg hbit, if_neg hbit', dataName_inj htexts.2, hword, hlow]

theorem execute_logicToCcr (h : Alike i j) {op : LogicOp} (hi : i.operation = .logicToCcr op) :
    i.execute = j.execute := by
  have hj := h.operation_eq.symm.trans hi
  have htexts := h.texts_eq
  simp only [operandTexts, hi, hj, List.cons.injEq, and_true] at htexts
  have hbyte := BitVec.eq_of_toNat_eq (hex_inj ((String.append_right_inj "#").mp htexts))
  simp only [execute, hi, hj, logicToCcr, Registers.setConditions_congr op hbyte]

/-- A literal word is written with all its bits. -/
theorem word_inj {w v : Word} (h : "#" ++ hex 4 w.toNat = "#" ++ hex 4 v.toNat) : w = v :=
  BitVec.eq_of_toNat_eq (hex_inj ((String.append_right_inj "#").mp h))

theorem execute_wordLiteral (h : Alike i j)
    (hi : i.operation = .stop ∨ ∃ op, i.operation = .logicToSr op) : i.execute = j.execute := by
  have hj := h.operation_eq
  have htexts := h.texts_eq
  obtain hi | ⟨op, hi⟩ := hi
  all_goals
    rw [hi] at hj
    simp only [operandTexts, hi, ← hj, List.cons.injEq, and_true] at htexts
    simp only [execute, hi, ← hj, stop, logicToSr, word_inj htexts]

theorem execute_trap (h : Alike i j) (hi : i.operation = .trap) : i.execute = j.execute := by
  have hj := h.operation_eq.symm.trans hi
  have htexts := h.texts_eq
  simp only [operandTexts, hi, hj, List.cons.injEq, and_true] at htexts
  have hvector := BitVec.eq_of_toNat_eq
    (Digits.decimal_inj ((String.append_right_inj "#").mp htexts))
  simp only [execute, hi, hj, trap, hvector]

/-! ## 3. Branches -/

/-- A branch goes to the address that it shows. -/
theorem branch_of_ne_dbcc (hop : i.operation ≠ .dbcc) :
    branch i i.branchDistance = jump i.branchTarget := by
  rw [branch, branchTarget, if_neg hop]

theorem branch_of_dbcc (hop : i.operation = .dbcc) :
    branch i (wordDistance i) = jump i.branchTarget := by
  rw [branch, branchTarget, if_pos hop]
  rfl

theorem target_inj (h : hex 4 i.branchTarget.toNat = hex 4 j.branchTarget.toNat) :
    i.branchTarget = j.branchTarget := BitVec.eq_of_toNat_eq (hex_inj h)

/-- Two calls of one place and one length return to one address. -/
theorem call_congr (h : Alike i j) : call i = call j := by
  rw [call, call, nextAddress, nextAddress, h.address_eq, h.length_eq]

theorem execute_bra (h : Alike i j) (hi : i.operation = .bra) : i.execute = j.execute := by
  have hj := h.operation_eq.symm.trans hi
  have htexts := h.texts_eq
  simp only [operandTexts, hi, hj, List.cons.injEq, and_true] at htexts
  simp only [execute, hi, hj, bra]
  rw [branch_of_ne_dbcc (by simp [hi]), branch_of_ne_dbcc (by simp [hj]), target_inj htexts]

theorem execute_bsr (h : Alike i j) (hi : i.operation = .bsr) : i.execute = j.execute := by
  have hj := h.operation_eq.symm.trans hi
  have htexts := h.texts_eq
  simp only [operandTexts, hi, hj, List.cons.injEq, and_true] at htexts
  simp only [execute, hi, hj, bsr]
  rw [branch_of_ne_dbcc (by simp [hi]), branch_of_ne_dbcc (by simp [hj]), target_inj htexts,
    h.call_congr]

theorem execute_bcc (h : Alike i j) (hi : i.operation = .bcc) : i.execute = j.execute := by
  have hj := h.operation_eq.symm.trans hi
  have htexts := h.texts_eq
  have hcondition := h.condition_eq (by rw [hi]; rfl)
  simp only [operandTexts, hi, hj, List.cons.injEq, and_true] at htexts
  simp only [execute, hi, hj, bcc]
  rw [branch_of_ne_dbcc (by simp [hi]), branch_of_ne_dbcc (by simp [hj]), target_inj htexts,
    hcondition]

theorem execute_dbcc (h : Alike i j) (hi : i.operation = .dbcc) : i.execute = j.execute := by
  have hj := h.operation_eq.symm.trans hi
  have htexts := h.texts_eq
  have hcondition := h.condition_eq (by rw [hi]; rfl)
  simp only [operandTexts, hi, hj, List.cons.injEq, and_true] at htexts
  simp only [execute, hi, hj, dbcc]
  rw [branch_of_dbcc hi, branch_of_dbcc hj, target_inj htexts.2, hcondition,
    dataName_inj htexts.1]

end Alike

end Instruction

end Mc68000
