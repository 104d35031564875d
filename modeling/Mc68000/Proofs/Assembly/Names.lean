import Mathlib.Data.List.Pairwise
import Mc68000.Proofs.Assembly.Parts
import Mc68000.Proofs.Decoding

/-!
# What the name of an instruction tells

* `Pattern.all`, `Condition.all` -- all patterns of opcodes and all conditions;
* `Operation.namesakes` -- the operations that share a name and are told apart by their operands;
  `namesakes_of_mnemonic` -- the tables have no others;
* `namesake_of_head` -- **the name tells the operation** up to a namesake;
* `mnemonic_size_of_head`, `condition_of_head` -- and with it the size or the condition.
-/

namespace Mc68000

/-! ## 1. Operations with one name -/

/-- All patterns. -/
def Pattern.all : List Pattern := (List.range 16).flatMap fun top => group (BitVec.ofNat 4 top)

theorem Pattern.mem_all {top : BitVec 4} {p : Pattern} (h : p ∈ group top) : p ∈ all := by
  refine List.mem_flatMap.mpr ⟨top.toNat, List.mem_range.mpr top.isLt, ?_⟩
  rwa [BitVec.ofNat_toNat, BitVec.setWidth_eq]

/-- All conditions. -/
def Condition.all : List Condition :=
  [.always, .never, .higher, .lowerOrSame, .carryClear, .carrySet, .notEqual, .equal,
    .overflowClear, .overflowSet, .plus, .minus, .greaterOrEqual, .lessThan, .greaterThan,
    .lessOrEqual]

theorem Condition.mem_all (condition : Condition) : condition ∈ all := by
  cases condition <;> decide

namespace Operation

/-- The operations that share a name and are told apart by their operands only. -/
def namesakes : Operation → List Operation
  | logicToCcr op | logicToSr op => [logicToCcr op, logicToSr op]
  | bitStatic op | bitDynamic op => [bitStatic op, bitDynamic op]
  | moveFromSr | moveToCcr | moveToSr | moveUsp => [moveFromSr, moveToCcr, moveToSr, moveUsp]
  | shiftMemory kind direction | shiftRegister kind direction =>
    [shiftMemory kind direction, shiftRegister kind direction]
  | op => [op]

theorem mem_namesakes_self (op : Operation) : op ∈ op.namesakes := by
  cases op <;> simp [namesakes]

theorem mem_namesakes_symm {op op' : Operation} (h : op' ∈ op.namesakes) : op ∈ op'.namesakes := by
  cases op
  case logicToCcr | logicToSr | bitStatic | bitDynamic | shiftMemory | shiftRegister =>
    simp only [namesakes, List.mem_cons, List.not_mem_nil, or_false] at h
    rcases h with rfl | rfl <;> simp [namesakes]
  case moveFromSr | moveToCcr | moveToSr | moveUsp =>
    simp only [namesakes, List.mem_cons, List.not_mem_nil, or_false] at h
    rcases h with rfl | rfl | rfl | rfl <;> simp [namesakes]
  all_goals
    rw [List.mem_singleton.mp h]
    exact mem_namesakes_self _

/-- Two operations with one mnemonic are namesakes, if both carry a size or neither does. -/
def NamedApart (op op' : Operation) : Prop :=
  op.isSized = op'.isSized → op.mnemonic = op'.mnemonic → op' ∈ op.namesakes

instance (op op' : Operation) : Decidable (NamedApart op op') :=
  inferInstanceAs (Decidable (_ → _ → _))

instance : Std.Symm NamedApart where
  symm _ _ h hsized hname := mem_namesakes_symm (h hsized.symm hname.symm)

theorem namedApart_table : (Pattern.all.map (·.operation)).Pairwise NamedApart := by
  decide +kernel

/-- **Operations of the tables with one mnemonic are namesakes.** -/
theorem namesakes_of_mnemonic {p q : Pattern} (hp : p ∈ Pattern.all) (hq : q ∈ Pattern.all) :
    NamedApart p.operation q.operation := by
  have htable : ∀ op ∈ Pattern.all.map (·.operation), ∀ op' ∈ Pattern.all.map (·.operation),
      NamedApart op op' :=
    namedApart_table.forall_of_forall fun op _ _ _ => mem_namesakes_self op
  exact htable _ (List.mem_map_of_mem hp) _ (List.mem_map_of_mem hq)

/-- The mnemonics that a condition follows. -/
def stems : List String := ["S", "DB", "B"]

theorem mem_stems {op : Operation} (h : op.isConditional = true) : op.mnemonic ∈ stems := by
  cases op
  case scc | dbcc | bcc => decide
  all_goals cases h

/-- No operation is named like another one with a condition. -/
theorem plain_ne_conditional : ∀ p ∈ Pattern.all, p.operation.isSized = false →
    p.operation.isConditional = false → ∀ stem ∈ stems, ∀ condition ∈ Condition.all,
      p.operation.mnemonic ≠ stem ++ condition.suffix := by
  decide +kernel

/-- A stem and the condition behind it are told apart. -/
theorem stem_inj : ∀ stem ∈ stems, ∀ stem' ∈ stems, ∀ condition ∈ Condition.all,
    ∀ condition' ∈ Condition.all, stem ++ condition.suffix = stem' ++ condition'.suffix →
      stem = stem' ∧ condition = condition' := by
  decide +kernel

end Operation

/-! ## 2. Names of instructions -/

namespace Instruction

open Assembly

variable {i j : Instruction}

/-- A name has a full stop exactly if it has a size. -/
theorem dot_mem_head : '.' ∈ i.head.toList ↔ i.operation.isSized = true := by
  have hmnemonic : '.' ∉ i.operation.mnemonic.toList := not_mem_of_isUpper (isUpper_mnemonic _) rfl
  have hsuffix : ∀ size : Size, '.' ∈ size.suffix.toList := by
    intro size
    cases size <;> decide
  rw [head, String.toList_append, List.mem_append, mark]
  by_cases hsized : i.operation.isSized = true
  · simp [hsized, hsuffix]
  · rw [if_neg hsized]
    split
    · simp [hsized, hmnemonic, not_mem_of_isUpper (isUpper_condition _)]
    · simp [hsized, hmnemonic]

theorem isSized_of_head (h : i.head = j.head) : i.operation.isSized = j.operation.isSized := by
  rw [Bool.eq_iff_iff, ← dot_mem_head, ← dot_mem_head, h]

/-- A size takes two characters, so it is told from the mnemonic in front of it. -/
theorem mnemonic_size_of_head (h : i.head = j.head) (hsized : i.operation.isSized = true) :
    i.operation.mnemonic = j.operation.mnemonic ∧ i.size = j.size := by
  have hsized' : j.operation.isSized = true := isSized_of_head h ▸ hsized
  have hlength : ∀ size : Size, size.suffix.toList.length = 2 := by
    intro size
    cases size <;> decide
  have hsuffix : ∀ {size size' : Size}, size.suffix = size'.suffix → size = size' := by
    intro size size'
    cases size <;> cases size' <;> decide
  have hchars := congrArg String.toList h
  rw [head, head, mark, mark, if_pos hsized, if_pos hsized', String.toList_append,
    String.toList_append] at hchars
  obtain ⟨hname, hsize⟩ := List.append_inj' hchars ((hlength _).trans (hlength _).symm)
  exact ⟨String.toList_inj.mp hname, hsuffix (String.toList_inj.mp hsize)⟩

/-- The operation of a decoded instruction stands in the tables. -/
theorem Decoded.exists_pattern {layout : Layout} (h : i.Decoded layout) :
    ∃ p ∈ Pattern.all, p.operation = i.operation := by
  obtain ⟨p, hp, -, hop⟩ := Operation.exists_pattern_of_ofOpcode? h.ofOpcode?_eq
  exact ⟨p, Pattern.mem_all hp, hop⟩

theorem head_of_plain (hsized : i.operation.isSized = false)
    (hconditional : i.operation.isConditional = false) : i.head = i.operation.mnemonic := by
  rw [head, mark, hsized, hconditional]
  exact String.append_empty

theorem head_of_conditional (hconditional : i.operation.isConditional = true) :
    i.head = i.operation.mnemonic ++ (Condition.ofOpcode i.opcode).suffix := by
  have hsized : i.operation.isSized = false := by
    cases hop : i.operation <;> simp_all [Operation.isConditional, Operation.isSized]
  rw [head, mark, hsized, hconditional]
  rfl

/-- A mnemonic and the condition behind it are told apart. -/
theorem condition_of_head (h : i.head = j.head) (hi : i.operation.isConditional = true)
    (hj : j.operation.isConditional = true) :
    i.operation.mnemonic = j.operation.mnemonic ∧
      Condition.ofOpcode i.opcode = Condition.ofOpcode j.opcode := by
  rw [head_of_conditional hi, head_of_conditional hj] at h
  exact Operation.stem_inj _ (Operation.mem_stems hi) _ (Operation.mem_stems hj)
    _ (Condition.mem_all _) _ (Condition.mem_all _) h

/-- No name with a condition is one without. -/
theorem head_ne_of_conditional {layout : Layout} (hi : i.Decoded layout)
    (hsized : i.operation.isSized = false) (hplain : i.operation.isConditional = false)
    (hj : j.operation.isConditional = true) : i.head ≠ j.head := by
  obtain ⟨p, hp, hpi⟩ := hi.exists_pattern
  rw [head_of_plain hsized hplain, head_of_conditional hj, ← hpi]
  exact Operation.plain_ne_conditional p hp (hpi ▸ hsized) (hpi ▸ hplain)
    _ (Operation.mem_stems hj) _ (Condition.mem_all _)

/-- **The name tells the operation** up to a namesake. -/
theorem namesake_of_head {layout layout' : Layout} (hi : i.Decoded layout) (hj : j.Decoded layout')
    (h : i.head = j.head) : j.operation ∈ i.operation.namesakes := by
  obtain ⟨p, hp, hpi⟩ := hi.exists_pattern
  obtain ⟨q, hq, hqj⟩ := hj.exists_pattern
  have hapart := Operation.namesakes_of_mnemonic hp hq
  rw [hpi, hqj] at hapart
  refine hapart (isSized_of_head h) ?_
  cases hsized : i.operation.isSized with
  | true => exact (mnemonic_size_of_head h hsized).1
  | false =>
    have hsized' : j.operation.isSized = false := (isSized_of_head h).symm.trans hsized
    cases hplain : i.operation.isConditional <;> cases hplain' : j.operation.isConditional
    · rwa [head_of_plain hsized hplain, head_of_plain hsized' hplain'] at h
    · exact absurd h (head_ne_of_conditional hi hsized hplain hplain')
    · exact absurd h.symm (head_ne_of_conditional hj hsized' hplain' hplain)
    · exact (condition_of_head h hplain hplain').1

end Instruction

end Mc68000
