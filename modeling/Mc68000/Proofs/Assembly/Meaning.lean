import Mc68000.Proofs.Assembly.Meaning.Operands

/-!
# The text of an instruction tells what it does

* `Alike.execute_eq` -- of two instructions that are written alike, one case for each operation;
* `execute_eq_of_text` -- **the text hides no behaviour**: two fetched instructions with one
  address, one length and one text do the same to every machine;
* `execute_or_directions` -- a text that has two encodings.
-/

namespace Mc68000

namespace Instruction

variable {i j : Instruction}

/-- **Instructions that are written alike do the same.** -/
theorem Alike.execute_eq (h : Alike i j) : i.execute = j.execute := by
  cases hop : i.operation with
  -- nothing but registers and literals
  | illegal | reset | nop | rte | rts | trapv | rtr =>
    exact h.execute_of_bare (by rw [hop]; decide)
  | swap => exact h.execute_swap hop
  | ext => exact h.execute_ext hop
  | unlk => exact h.execute_unlk hop
  | link => exact h.execute_link hop
  | exg => exact h.execute_exg hop
  | moveUsp => exact h.execute_moveUsp hop
  | moveq => exact h.execute_moveq hop
  | shiftRegister kind direction => exact h.execute_shiftRegister hop
  | arithExtended op => exact h.execute_arithExtended hop
  | decimal op => exact h.execute_decimal hop
  | cmpm => exact h.execute_cmpm hop
  | movep => exact h.execute_movep hop
  | logicToCcr op => exact h.execute_logicToCcr hop
  | stop => exact h.execute_wordLiteral (.inl hop)
  | logicToSr op => exact h.execute_wordLiteral (.inr ⟨op, hop⟩)
  | trap => exact h.execute_trap hop
  -- branches
  | bra => exact h.execute_bra hop
  | bsr => exact h.execute_bsr hop
  | bcc => exact h.execute_bcc hop
  | dbcc => exact h.execute_dbcc hop
  -- a destination
  | negx | clr | neg | not | tst | nbcd | tas => exact h.execute_unary (by rw [hop]; decide)
  | scc => exact h.execute_scc hop
  | moveFromSr => exact h.execute_moveFromSr hop
  | arithImmediate op => exact h.execute_immediate (.inl ⟨op, hop⟩)
  | logicImmediate op => exact h.execute_immediate (.inr ⟨op, hop⟩)
  | bitStatic op => exact h.execute_bitStatic hop
  | bitDynamic op => exact h.execute_bitDynamic hop
  | arithQuick op => exact h.execute_arithQuick hop
  | logic op => exact h.execute_logic hop
  | arith op => exact h.execute_arith hop
  -- a source
  | pea | jmp | jsr | moveToCcr | moveToSr =>
    exact h.execute_of_source (.inl (by rw [hop]; decide))
  | shiftMemory kind direction => exact h.execute_of_source (.inr ⟨kind, direction, hop⟩)
  | lea => exact h.execute_into_address (.inl hop)
  | arithAddress op => exact h.execute_into_address (.inr ⟨op, hop⟩)
  | chk => exact h.execute_into_data (.inl hop)
  | multiply s => exact h.execute_into_data (.inr ⟨s, .inl hop⟩)
  | divide s => exact h.execute_into_data (.inr ⟨s, .inr hop⟩)
  -- a source and a destination
  | move => exact h.execute_move hop
  | movea => exact h.execute_movea hop
  | movem => exact h.execute_movem hop

/-- **The text hides no behaviour.** Two instructions, fetched from any memories, that have one
    address, one length and one text do the same to every machine: they end in the same way and
    leave the same machine. -/
theorem execute_eq_of_text {c c' : Code} {a a' b b' : Address}
    (hi : c.fetch a = .ok (some i) b) (hj : c'.fetch a' = .ok (some j) b')
    (haddress : i.address = j.address) (hlength : i.length = j.length) (htext : i.text = j.text)
    (m : Machine) : i.execute m = j.execute m :=
  congrFun (alike_of_fetch hi hj haddress hlength htext).execute_eq m

end Instruction

/-- The code of one opcode and no more. -/
def Code.single (opcode : Word) : Code :=
  { memory := (Memory.zeros 2).setBytes 0 opcode.bytes, codeEnd := 2 }

namespace Instruction

/-- A word-sized `OR` of two data registers, fetched from address zero. -/
def orRegisters (opcode : Word) (low : BitVec 6) : Instruction :=
  { address := 0, opcode, operation := .logic .or, size := .word, extension := ⟨2, .none⟩,
    source := none, destination := some ⟨low, ⟨2, .none⟩⟩, length := 2 }

/-- `OR.W D1,D2` has two encodings, for either field has room for either register. -/
theorem execute_or_directions :
    ∃ i j, (Code.single 0x8441).fetch 0 = .ok (some i) 2 ∧
      (Code.single 0x8342).fetch 0 = .ok (some j) 2 ∧ i.opcode ≠ j.opcode ∧
      (i.address = j.address ∧ i.length = j.length ∧ i.text = j.text) ∧
      ∀ m, i.execute m = j.execute m := by
  have hi : (Code.single 0x8441).fetch 0 = .ok (some (orRegisters 0x8441 1)) 2 := by rfl
  have hj : (Code.single 0x8342).fetch 0 = .ok (some (orRegisters 0x8342 2)) 2 := by rfl
  have htext : (orRegisters 0x8441 1).text = (orRegisters 0x8342 2).text := by decide +kernel
  exact ⟨_, _, hi, hj, by decide, ⟨rfl, rfl, htext⟩, execute_eq_of_text hi hj rfl rfl htext⟩

end Instruction

end Mc68000
