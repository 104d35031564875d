import Mc68000.Proofs.Confinement.MultipleTransfer
import Mc68000.Proofs.Confinement.Operations
import Mc68000.Proofs.Decoding
import Mc68000.Proofs.Footprint.Execute

/-!
# Where an instruction writes

The tables of the whole instruction set, and that execution keeps to them.

* `Instruction.writesDestination` -- whether the operand of the destination field is written;
* `Instruction.directTargets` -- the address registers that are written as destinations;
* `Instruction.written` -- the block of memory that is written;
* `Instruction.moved` -- the registers once the addressing modes and the stack have moved theirs;
* `Instruction.settles_execute` -- **an instruction that succeeds changes nothing else**, but for
  four operations that move registers as such.
-/

namespace Mc68000

namespace Instruction

/-! ## 1. The tables -/

/-- Whether the operand of the destination field is written. -/
def writesDestination (i : Instruction) : Bool :=
  match i.operation with
  | .logicImmediate _ | .logic .eor | .not | .tas | .arithQuick _ | .neg | .negx | .nbcd | .move
  | .moveFromSr | .clr | .scc => true
  | .arithImmediate op => op ≠ .cmp
  | .bitStatic op | .bitDynamic op => op ≠ .test
  | .logic _ | .arith .add | .arith .sub => i.opcode.getLsbD 8
  | _ => false

/-- The address registers that are written as destinations. -/
def directTargets (i : Instruction) : List (Fin 8) :=
  match i.operation with
  | .movea | .lea | .arithAddress .add | .arithAddress .sub => [i.highRegister]
  | .link => [i.lowRegister, Registers.stackNumber]
  | _ => if i.writesDestination then fieldTargets i.destination else []

/-- The block of memory that is written. -/
def written (i : Instruction) (r : Registers) : Option Block :=
  match i.operation with
  | .bsr | .jsr | .pea | .link => some (r.pushBlock .long)
  | .movem => i.movemBlock? r
  | .movep => i.movepBlock? r
  | .arithExtended _ | .decimal _ =>
    if i.opcode.getLsbD 3 then
      some (.single ((i.pairMoved r i.size).readAddress i.highRegister) i.size)
    else none
  | .shiftMemory _ _ => r.fieldBlock? i.source i.size
  | _ =>
    if i.writesDestination then (r.movedBy i.source i.size).fieldBlock? i.destination i.size
    else none

/-- The registers once the addressing modes and the stack have moved theirs. -/
def moved (i : Instruction) (m : Machine) : Registers :=
  let r := (m.registers.movedBy i.source i.size).movedBy i.destination i.size
  match i.operation with
  | .arithExtended _ | .decimal _ =>
    if i.opcode.getLsbD 3 then i.pairMoved r i.size else r
  | .cmpm => (r.increment i.lowRegister i.size).increment i.highRegister i.size
  | .bsr | .jsr | .pea | .link => r.pushed .long
  | .rts => if m.callDepth = 0 then r else r.popped .long
  | .rtr | .rte => (r.popped .word).popped .long
  | _ => r

/-! ## 2. Execution -/

open Exec

variable {i : Instruction} {layout : Layout}

/-- An address register as an operand is not moved. -/
theorem movedBy_addressDirect {ea? : Option EffectiveAddress} {n : Fin 8}
    (h : ea?.bind (·.mode?) = some (.addressDirect n)) (r : Registers) (size : Size) :
    r.movedBy ea? size = r := by
  obtain ⟨ea, rfl, hmode⟩ := Option.bind_eq_some_iff.mp h
  unfold Registers.movedBy Registers.fieldOperand?
  rw [Option.bind_some, hmode]
  rfl

/-- **An instruction that succeeds changes nothing but what the tables say.** -/
theorem settles_execute (hd : i.Decoded layout)
    (hop : i.operation ∉ [.movem, .exg, .unlk, .moveUsp]) (m : Machine) :
    Settles m (i.moved m) i.directTargets (i.written m.registers) i.execute := by
  have hsource := hd.source_eq_none
  have hdestination := hd.destination_eq_none
  have hsize (size : Size) : i.operation.fixedSize? = some size → i.size = size :=
    hd.size_eq_fixed
  unfold moved directTargets written writesDestination execute
  generalize h : i.operation = op at hop hsource hdestination hsize ⊢
  cases op with
  -- one operand, in the destination field
  | logicImmediate op => rw [hsource rfl]; exact settles_logicImmediate op i m
  | not => rw [hsource rfl]; exact settles_not i m
  | tst => rw [hsource rfl]; exact settles_tst i m
  | tas => rw [hsource rfl]; exact settles_tas (hsize .byte rfl) m
  | bitStatic op =>
    rw [hsource rfl]
    cases op <;> exact settles_bit _ _ i m
  | bitDynamic op =>
    rw [hsource rfl]
    cases op <;> exact settles_bitDynamic _ i m
  | arithImmediate op =>
    rw [hsource rfl]
    cases op with
    | cmp => exact settles_cmpImmediate i m
    | add | sub => exact settles_arithImmediate _ i m
  | arithQuick op => rw [hsource rfl]; exact settles_arithQuick op.arith i m
  | neg => rw [hsource rfl]; exact settles_neg i m
  | negx => rw [hsource rfl]; exact settles_negx i m
  | nbcd => rw [hsource rfl]; exact settles_nbcd (hsize .byte rfl) m
  | moveFromSr => rw [hsource rfl]; exact settles_moveFromSr (hsize .word rfl) m
  | clr => rw [hsource rfl]; exact settles_clr i m
  | scc => rw [hsource rfl]; exact settles_scc (hsize .byte rfl) m
  -- a pair of a register and the operand of the destination field
  | logic op =>
    rw [hsource rfl]
    cases op with
    | eor => exact settles_eor i m
    | or | and => exact settles_logic (by decide) i m
  | arith op =>
    rw [hsource rfl]
    cases op with
    | cmp => exact settles_cmp i m
    | add | sub => exact settles_arith (by decide) i m
  -- one operand, in the source field
  | arithAddress op =>
    rw [hdestination rfl]
    cases op with
    | cmp => exact settles_cmpAddress i m
    | add | sub => exact settles_arithAddress (by decide) i m
  | multiply sign => rw [hdestination rfl]; exact settles_multiply sign i m
  | divide sign => rw [hdestination rfl]; exact settles_divide sign i m
  | shiftMemory kind direction =>
    rw [hdestination rfl]
    exact settles_shiftMemory (hsize .word rfl) m
  | moveToCcr => rw [hdestination rfl]; exact settles_moveToCcr i m
  | moveToSr => rw [hdestination rfl]; exact settles_moveToSr i m
  | lea => rw [hdestination rfl]; exact settles_lea i m
  | pea => rw [hdestination rfl]; exact settles_pea i m
  | jmp => rw [hdestination rfl]; exact settles_jmp i m
  | jsr => rw [hdestination rfl]; exact settles_jsr i m
  | chk => rw [hdestination rfl]; exact settles_chk i m
  -- two operands
  | move => exact settles_move i m
  | movea =>
    dsimp only
    rw [movedBy_addressDirect (hd.destination_movea h)]
    exact settles_movea i m
  -- no operand field
  | arithExtended op =>
    rw [hsource rfl, hdestination rfl]
    exact settles_arithExtended op.arith i m
  | decimal op =>
    rw [hsource rfl, hdestination rfl, hsize .byte rfl]
    exact settles_decimal op i m
  | cmpm => rw [hsource rfl, hdestination rfl]; exact settles_cmpm i m
  | movep => rw [hsource rfl, hdestination rfl]; exact settles_movep i m
  | link => rw [hsource rfl, hdestination rfl]; exact settles_link i m
  | bsr => rw [hsource rfl, hdestination rfl]; exact settles_bsr i m
  | rts => rw [hsource rfl, hdestination rfl]; exact settles_rts m
  | rtr => rw [hsource rfl, hdestination rfl]; exact settles_rtr m
  | rte => rw [hsource rfl, hdestination rfl]; exact settles_rte m
  | logicToSr op => rw [hsource rfl, hdestination rfl]; exact settles_logicToSr op i m
  | stop => rw [hsource rfl, hdestination rfl]; exact settles_stop i m
  -- neither an operand field nor an address register
  | logicToCcr op =>
    rw [hsource rfl, hdestination rfl]
    exact (confines_of_commits (commits_logicToCcr op i)).settles m
  | shiftRegister kind direction =>
    rw [hsource rfl, hdestination rfl]
    exact (confines_of_commits (commits_shiftRegister kind direction i)).settles m
  | moveq =>
    rw [hsource rfl, hdestination rfl]
    exact (confines_of_commits (commits_moveq i)).settles m
  | ext =>
    rw [hsource rfl, hdestination rfl]
    exact (confines_of_commits (commits_ext i)).settles m
  | swap =>
    rw [hsource rfl, hdestination rfl]
    exact (confines_of_commits (commits_swap i)).settles m
  | bra =>
    rw [hsource rfl, hdestination rfl]
    exact (confines_of_commits (commits_branch i _)).settles m
  | bcc =>
    rw [hsource rfl, hdestination rfl]
    exact (confines_of_commits (commits_bcc i)).settles m
  | dbcc =>
    rw [hsource rfl, hdestination rfl]
    exact (confines_of_commits (commits_dbcc i)).settles m
  | trap =>
    rw [hsource rfl, hdestination rfl]
    exact (confines_of_touches (touches_trap i)).settles m
  | trapv =>
    rw [hsource rfl, hdestination rfl]
    exact (confines_of_touches touches_trapv).settles m
  | reset =>
    rw [hsource rfl, hdestination rfl]
    exact (confines_of_touches touches_reset).settles m
  | illegal =>
    rw [hsource rfl, hdestination rfl]
    exact (confines_throw _).settles m
  | nop =>
    rw [hsource rfl, hdestination rfl]
    exact (Confines.pure ()).settles m
  | movem | exg | unlk | moveUsp => exact absurd (by decide) hop

end Instruction

end Mc68000
