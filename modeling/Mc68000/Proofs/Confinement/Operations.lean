import Mc68000.Proofs.Confinement

/-!
# Where each operation writes

One lemma for each operation that moves an address register or stores: which registers it moves
first, and where it is confined then. The sections are those of the semantics.

* `settles_operandPair`, `settles_extendedPair` -- the two ways to choose a pair of operands;
* `settles_move` … `settles_rte` -- **the operations**.

`MOVEM`, `MOVEP`, `EXG`, `UNLK` and `MOVE USP` are not among them.
-/

namespace Mc68000

/-- The registers after both address registers of an extended operation have moved down, the source
    first. -/
def Instruction.pairMoved (i : Instruction) (r : Registers) (size : Size) : Registers :=
  (r.decrement i.lowRegister size).decrement i.highRegister size

namespace Exec

variable {β : Type} {targets : List (Fin 8)} {block : Option Block}

/-! ## 1. Moving values -/

theorem settles_move (i : Instruction) (m : Machine) :
    Settles m ((m.registers.movedBy i.source i.size).movedBy i.destination i.size)
      (fieldTargets i.destination)
      ((m.registers.movedBy i.source i.size).fieldBlock? i.destination i.size) (move i) := by
  refine settles_resolve fun src _ _ => ?_
  refine settles_bind_of_touches (touches_read src i.size) fun v => ?_
  refine settles_written fun dst => ?_
  exact (confines_write dst i.size v).bind fun _ => confines_changeFlags _ _

theorem settles_movea (i : Instruction) (m : Machine) :
    Settles m (m.registers.movedBy i.source i.size) [i.highRegister] none (movea i) := by
  refine settles_read fun src => ?_
  refine (confines_read src i.size).bind fun v => ?_
  exact confines_writeAddress List.mem_cons_self _ .long

theorem settles_clr (i : Instruction) (m : Machine) :
    Settles m (m.registers.movedBy i.destination i.size) (fieldTargets i.destination)
      (m.registers.fieldBlock? i.destination i.size) (clr i) :=
  settles_written fun dst =>
    (confines_write dst i.size 0).bind fun _ => confines_changeFlags _ _

theorem settles_lea (i : Instruction) (m : Machine) :
    Settles m (m.registers.movedBy i.source i.size) [i.highRegister] none (lea i) :=
  settles_control id fun a =>
    (confines_writeAddress List.mem_cons_self a .long).settles m

theorem settles_pea (i : Instruction) (m : Machine) :
    Settles m ((m.registers.movedBy i.source i.size).pushed .long) []
      (some (m.registers.pushBlock .long)) (pea i) := by
  refine settles_control (·.pushed .long) fun a => ?_
  rw [pushLong, ← bind_pure (push .long a)]
  exact settles_push fun _ => .pure ()

theorem settles_link (i : Instruction) (m : Machine) :
    Settles m (m.registers.pushed .long) [i.lowRegister, Registers.stackNumber]
      (some (m.registers.pushBlock .long)) (link i) := by
  refine settles_bind_of_commits (commits_readAddress _) fun saved => ?_
  refine settles_push fun _ => ?_
  refine (confines_of_commits commits_registers).bind fun r => ?_
  refine (confines_writeAddress List.mem_cons_self r.sp .long).bind fun _ => ?_
  exact confines_setSp (List.mem_cons_of_mem _ List.mem_cons_self) _

theorem settles_scc {i : Instruction} (hsize : i.size = .byte) (m : Machine) :
    Settles m (m.registers.movedBy i.destination i.size) (fieldTargets i.destination)
      (m.registers.fieldBlock? i.destination i.size) (scc i) := by
  refine settles_bind_of_commits (commits_holds _) fun held => ?_
  refine settles_written fun dst => ?_
  rw [hsize]
  exact confines_write dst .byte _

/-! ## 2. Sums and differences -/

theorem confines_compare (src dst : Operand) (size : Size) :
    Confines targets block (combine .cmp src dst size) := by
  refine (confines_read src size).bind fun s => ?_
  refine (confines_read dst size).bind fun d => ?_
  exact confines_changeFlags _ size

theorem confines_combine (op : ArithOp) (src dst : Operand) (size : Size) :
    Confines dst.addressTargets (dst.block? size) (combine op src dst size) := by
  refine (confines_read src size).bind fun s => ?_
  refine (confines_read dst size).bind fun d => ?_
  cases op with
  | cmp => exact confines_changeFlags _ size
  | add | sub => exact (confines_write dst size _).bind fun _ => confines_changeFlags _ size

/-- Opcode bit 8 tells whether the operand field is the destination of the pair. The other operand
    is a data register. -/
theorem settles_operandPair {i : Instruction} {m : Machine} {g : Operand × Operand → Exec β}
    (hg : ∀ src dst, Confines dst.addressTargets (dst.block? i.size) (g (src, dst))) :
    Settles m (m.registers.movedBy i.destination i.size)
      (if i.opcode.getLsbD 8 then fieldTargets i.destination else [])
      (if i.opcode.getLsbD 8 then m.registers.fieldBlock? i.destination i.size else none)
      (operandPair i >>= g) := by
  unfold operandPair
  rw [bind_assoc]
  refine settles_resolve fun operand htargets hblock => ?_
  dsimp only
  cases i.opcode.getLsbD 8 with
  | true =>
    have hpair := hg (.data i.highRegister) operand
    rw [htargets, hblock] at hpair
    exact hpair.settles _
  | false => exact (hg operand (.data i.highRegister)).settles _

theorem settles_arith {op : ArithOp} (hop : op ≠ .cmp) (i : Instruction) (m : Machine) :
    Settles m (m.registers.movedBy i.destination i.size)
      (if i.opcode.getLsbD 8 then fieldTargets i.destination else [])
      (if i.opcode.getLsbD 8 then m.registers.fieldBlock? i.destination i.size else none)
      (arith op i) := by
  cases op with
  | cmp => exact absurd rfl hop
  | add | sub => exact settles_operandPair fun src dst => confines_combine _ src dst i.size

theorem settles_cmp (i : Instruction) (m : Machine) :
    Settles m (m.registers.movedBy i.destination i.size) [] none (arith .cmp i) :=
  settles_read fun src => confines_compare src _ i.size

theorem settles_arithImmediate (op : ArithOp) (i : Instruction) (m : Machine) :
    Settles m (m.registers.movedBy i.destination i.size) (fieldTargets i.destination)
      (m.registers.fieldBlock? i.destination i.size) (arithImmediate op i) :=
  settles_written fun dst => confines_combine op (literal i) dst i.size

theorem settles_cmpImmediate (i : Instruction) (m : Machine) :
    Settles m (m.registers.movedBy i.destination i.size) [] none (arithImmediate .cmp i) :=
  settles_read fun dst => confines_compare (literal i) dst i.size

theorem settles_arithQuick (op : ArithOp) (i : Instruction) (m : Machine) :
    Settles m (m.registers.movedBy i.destination i.size) (fieldTargets i.destination)
      (m.registers.fieldBlock? i.destination i.size) (arithQuick op i) := by
  refine settles_written fun dst => ?_
  split
  · refine (confines_of_commits (commits_readAddress _)).bind fun v => ?_
    exact confines_writeAddress List.mem_cons_self _ .long
  · exact confines_combine op _ dst i.size

theorem settles_arithAddress {op : ArithOp} (hop : op ≠ .cmp) (i : Instruction) (m : Machine) :
    Settles m (m.registers.movedBy i.source i.size) [i.highRegister] none (arithAddress op i) := by
  refine settles_read fun operand => ?_
  refine (confines_read operand i.size).bind fun v => ?_
  refine (confines_of_commits (commits_readAddress _)).bind fun d => ?_
  cases op with
  | cmp => exact absurd rfl hop
  | add | sub => exact confines_writeAddress List.mem_cons_self _ .long

theorem settles_cmpAddress (i : Instruction) (m : Machine) :
    Settles m (m.registers.movedBy i.source i.size) [] none (arithAddress .cmp i) := by
  refine settles_read fun operand => ?_
  refine (confines_read operand i.size).bind fun v => ?_
  refine (confines_of_commits (commits_readAddress _)).bind fun d => ?_
  exact confines_changeFlags _ .long

/-- Opcode bit 3 tells whether the operands of the pair are in memory. -/
theorem settles_extendedPair {i : Instruction} {size : Size} {m : Machine}
    {g : Operand × Operand → Exec β}
    (hg : ∀ src dst, Confines dst.addressTargets (dst.block? size) (g (src, dst))) :
    Settles m (if i.opcode.getLsbD 3 then i.pairMoved m.registers size else m.registers) []
      (if i.opcode.getLsbD 3 then
        some (.single ((i.pairMoved m.registers size).readAddress i.highRegister) size)
      else none)
      (extendedPair i size >>= g) := by
  unfold extendedPair
  dsimp only
  cases i.opcode.getLsbD 3 with
  | true =>
    intro b m' h
    obtain ⟨p, m₁, hpair, hrest⟩ := bind_ok h
    cases hpair
    obtain ⟨_, hconf⟩ := hg _ _ _ b m' hrest
    have hidle : Registers.IdleKept m.registers (i.pairMoved m.registers size) :=
      (Registers.idleKept_writeAddress ..).trans (Registers.idleKept_writeAddress ..)
    rw [← hidle.mode_eq]
    exact hconf
  | false => exact (hg _ _).settles m

theorem settles_arithExtended (op : ArithOp) (i : Instruction) (m : Machine) :
    Settles m (if i.opcode.getLsbD 3 then i.pairMoved m.registers i.size else m.registers) []
      (if i.opcode.getLsbD 3 then
        some (.single ((i.pairMoved m.registers i.size).readAddress i.highRegister) i.size)
      else none)
      (arithExtended op i) := by
  refine settles_extendedPair fun src dst => ?_
  refine (confines_read src i.size).bind fun s => ?_
  refine (confines_read dst i.size).bind fun d => ?_
  refine (confines_of_commits commits_extend).bind fun x => ?_
  exact (confines_write dst i.size _).bind fun _ => confines_changeFlags _ i.size

theorem settles_cmpm (i : Instruction) (m : Machine) :
    Settles m ((m.registers.increment i.lowRegister i.size).increment i.highRegister i.size) [] none
      (cmpm i) := by
  refine settles_bind_of_commits (commits_readAddress _) fun src => ?_
  refine (moves_modifyRegisters _ m).bind (Registers.idleKept_writeAddress ..).mode_eq fun _ => ?_
  refine settles_bind_of_commits (commits_readAddress _) fun dst => ?_
  refine (moves_modifyRegisters _ _).bind (Registers.idleKept_writeAddress ..).mode_eq fun _ => ?_
  exact (confines_compare _ _ i.size).settles _

theorem settles_neg (i : Instruction) (m : Machine) :
    Settles m (m.registers.movedBy i.destination i.size) (fieldTargets i.destination)
      (m.registers.fieldBlock? i.destination i.size) (neg i) := by
  refine settles_written fun operand => ?_
  refine (confines_read operand i.size).bind fun v => ?_
  exact (confines_write operand i.size _).bind fun _ => confines_changeFlags _ i.size

theorem settles_negx (i : Instruction) (m : Machine) :
    Settles m (m.registers.movedBy i.destination i.size) (fieldTargets i.destination)
      (m.registers.fieldBlock? i.destination i.size) (negx i) := by
  refine settles_written fun operand => ?_
  refine (confines_read operand i.size).bind fun v => ?_
  refine (confines_of_commits commits_extend).bind fun x => ?_
  exact (confines_write operand i.size _).bind fun _ => confines_changeFlags _ i.size

/-! ## 3. Products, quotients and packed decimal -/

theorem settles_multiply (sign : Signedness) (i : Instruction) (m : Machine) :
    Settles m (m.registers.movedBy i.source i.size) [] none (multiply sign i) := by
  refine settles_read fun operand => ?_
  refine (confines_read operand .word).bind fun v => ?_
  refine (confines_of_commits (commits_readData _)).bind fun d => ?_
  refine (confines_of_commits (commits_writeData _ _ .long)).bind fun _ => ?_
  exact confines_changeFlags _ .long

theorem settles_divide (sign : Signedness) (i : Instruction) (m : Machine) :
    Settles m (m.registers.movedBy i.source i.size) [] none (divide sign i) := by
  refine settles_read fun operand => ?_
  refine (confines_read operand .word).bind fun divisor => ?_
  dsimp only
  split
  · exact confines_throw_bind _
  · refine (confines_of_commits (commits_readData _)).bind fun dividend => ?_
    split
    · refine (confines_of_commits (commits_writeData _ _ .long)).bind fun _ => ?_
      exact confines_changeFlags _ .word
    · refine (confines_setFlag (by decide) true).bind fun _ => ?_
      exact confines_setFlag (by decide) false

theorem settles_decimal (op : AddSub) (i : Instruction) (m : Machine) :
    Settles m (if i.opcode.getLsbD 3 then i.pairMoved m.registers .byte else m.registers) []
      (if i.opcode.getLsbD 3 then
        some (.single ((i.pairMoved m.registers .byte).readAddress i.highRegister) .byte)
      else none)
      (decimal op i) := by
  refine settles_extendedPair fun src dst => ?_
  refine (confines_read src .byte).bind fun s => ?_
  refine (confines_read dst .byte).bind fun d => ?_
  refine (confines_of_commits commits_extend).bind fun x => ?_
  refine (confines_write dst .byte _).bind fun _ => ?_
  exact confines_decimalFlags _ _

theorem settles_nbcd {i : Instruction} (hsize : i.size = .byte) (m : Machine) :
    Settles m (m.registers.movedBy i.destination i.size) (fieldTargets i.destination)
      (m.registers.fieldBlock? i.destination i.size) (nbcd i) := by
  refine settles_written fun operand => ?_
  rw [hsize]
  refine (confines_read operand .byte).bind fun v => ?_
  refine (confines_of_commits commits_extend).bind fun x => ?_
  refine (confines_write operand .byte _).bind fun _ => ?_
  exact confines_decimalFlags _ _

/-! ## 4. Bits -/

theorem confines_combineBits (op : LogicOp) (src dst : Operand) (size : Size) :
    Confines dst.addressTargets (dst.block? size) (combineBits op src dst size) := by
  refine (confines_read src size).bind fun a => ?_
  refine (confines_read dst size).bind fun b => ?_
  exact (confines_write dst size _).bind fun _ => confines_changeFlags _ size

theorem settles_logic {op : LogicOp} (hop : op ≠ .eor) (i : Instruction) (m : Machine) :
    Settles m (m.registers.movedBy i.destination i.size)
      (if i.opcode.getLsbD 8 then fieldTargets i.destination else [])
      (if i.opcode.getLsbD 8 then m.registers.fieldBlock? i.destination i.size else none)
      (logic op i) := by
  cases op with
  | eor => exact absurd rfl hop
  | or | and => exact settles_operandPair fun src dst => confines_combineBits _ src dst i.size

theorem settles_eor (i : Instruction) (m : Machine) :
    Settles m (m.registers.movedBy i.destination i.size) (fieldTargets i.destination)
      (m.registers.fieldBlock? i.destination i.size) (logic .eor i) :=
  settles_written fun dst => confines_combineBits .eor _ dst i.size

theorem settles_logicImmediate (op : LogicOp) (i : Instruction) (m : Machine) :
    Settles m (m.registers.movedBy i.destination i.size) (fieldTargets i.destination)
      (m.registers.fieldBlock? i.destination i.size) (logicImmediate op i) :=
  settles_written fun dst => confines_combineBits op (literal i) dst i.size

theorem settles_not (i : Instruction) (m : Machine) :
    Settles m (m.registers.movedBy i.destination i.size) (fieldTargets i.destination)
      (m.registers.fieldBlock? i.destination i.size) (not i) := by
  refine settles_written fun operand => ?_
  refine (confines_read operand i.size).bind fun v => ?_
  exact (confines_write operand i.size _).bind fun _ => confines_changeFlags _ i.size

theorem settles_tst (i : Instruction) (m : Machine) :
    Settles m (m.registers.movedBy i.destination i.size) [] none (tst i) := by
  refine settles_read fun operand => ?_
  exact (confines_read operand i.size).bind fun v => confines_changeFlags _ i.size

theorem settles_tas {i : Instruction} (hsize : i.size = .byte) (m : Machine) :
    Settles m (m.registers.movedBy i.destination i.size) (fieldTargets i.destination)
      (m.registers.fieldBlock? i.destination i.size) (tas i) := by
  refine settles_written fun operand => ?_
  rw [hsize]
  refine (confines_read operand .byte).bind fun v => ?_
  refine (confines_changeFlags _ .byte).bind fun _ => ?_
  exact confines_write operand .byte _

theorem settles_bit (op : BitOp) (number : Long) (i : Instruction) (m : Machine) :
    Settles m (m.registers.movedBy i.destination i.size)
      (if op ≠ .test then fieldTargets i.destination else [])
      (if op ≠ .test then m.registers.fieldBlock? i.destination i.size else none)
      (bit op number i) := by
  cases op with
  | test =>
    refine settles_read fun operand => ?_
    refine (confines_read operand i.size).bind fun v => ?_
    exact (confines_setFlag (by decide) _).bind fun _ => .pure _
  | change | clear | set =>
    refine settles_written fun operand => ?_
    refine (confines_read operand i.size).bind fun v => ?_
    refine (confines_setFlag (by decide) _).bind fun _ => ?_
    exact confines_write operand i.size _

theorem settles_bitDynamic (op : BitOp) (i : Instruction) (m : Machine) :
    Settles m (m.registers.movedBy i.destination i.size)
      (if op ≠ .test then fieldTargets i.destination else [])
      (if op ≠ .test then m.registers.fieldBlock? i.destination i.size else none)
      (bitDynamic op i) :=
  settles_bind_of_commits (commits_readData _) fun number => settles_bit op number i m

theorem settles_shiftMemory {kind : ShiftKind} {direction : Direction} {i : Instruction}
    (hsize : i.size = .word) (m : Machine) :
    Settles m (m.registers.movedBy i.source i.size) []
      (m.registers.fieldBlock? i.source i.size) (shiftMemory kind direction i) := by
  refine settles_resolve fun operand _ hblock => ?_
  rw [← hblock, hsize]
  cases operand with
  | register | immediate => exact (confines_throw _).settles _
  | memory a =>
    refine Confines.settles ?_ _
    refine (confines_read (.memory a) .word).bind fun v => ?_
    refine (confines_of_commits (commits_shiftValue kind direction .word v 1)).bind fun r => ?_
    exact confines_write (.memory a) .word r

/-! ## 5. Flow of control -/

theorem settles_jmp (i : Instruction) (m : Machine) :
    Settles m (m.registers.movedBy i.source i.size) [] none (jmp i) :=
  settles_control id fun target => (confines_of_commits (commits_jump target)).settles m

theorem settles_call {i : Instruction} {m : Machine} {g : Unit → Exec β}
    (hg : ∀ u, Confines [] (some (m.registers.pushBlock .long)) (g u)) :
    Settles m (m.registers.pushed .long) [] (some (m.registers.pushBlock .long))
      (call i >>= g) := by
  rw [call, bind_assoc]
  refine settles_push fun _ => ?_
  exact (confines_of_commits (commits_setDepth _)).bind hg

theorem settles_bsr (i : Instruction) (m : Machine) :
    Settles m (m.registers.pushed .long) [] (some (m.registers.pushBlock .long)) (bsr i) :=
  settles_call fun _ => confines_of_commits (commits_branch i _)

theorem settles_jsr (i : Instruction) (m : Machine) :
    Settles m ((m.registers.movedBy i.source i.size).pushed .long) []
      (some (m.registers.pushBlock .long)) (jsr i) :=
  settles_control (·.pushed .long) fun target =>
    settles_call fun _ => confines_of_commits (commits_jump target)

/-- With no call outstanding nothing is popped. -/
theorem settles_rts (m : Machine) :
    Settles m (if m.callDepth = 0 then m.registers else m.registers.popped .long) [] none rts := by
  intro u m' h
  obtain ⟨_, _, hget, h⟩ := bind_ok h
  cases hget
  split at h
  · rename_i hdepth
    rw [if_pos hdepth]
    have hfinish : Commits [.finish] (modify fun m => { m with runState := .finished }) :=
      commits_modify fun m => .one (.finish m)
    exact (confines_of_commits hfinish).settles m u m' h
  · rename_i hdepth
    rw [if_neg hdepth]
    have hreturn : Settles m (m.registers.popped .long) [] none (do
        let pc ← popLong
        jump pc
        modify fun m => { m with callDepth := m.callDepth - 1 }) := by
      refine (moves_pop .long m).bind (Registers.isSupervisor_setSp ..) fun pc => ?_
      refine Confines.settles ?_ _
      refine (confines_of_commits (commits_jump pc)).bind fun _ => ?_
      exact confines_of_commits (commits_setDepth _)
    exact hreturn u m' h

theorem settles_rtr (m : Machine) :
    Settles m ((m.registers.popped .word).popped .long) [] none rtr := by
  refine (moves_popWord m).bind (Registers.isSupervisor_setSp ..) fun codes => ?_
  refine (moves_pop .long _).bind (Registers.isSupervisor_setSp ..) fun pc => ?_
  refine Confines.settles ?_ _
  refine (confines_of_commits (commits_loadCodes codes pc)).bind fun _ => ?_
  exact confines_of_commits (commits_setDepth _)

theorem settles_rte (m : Machine) :
    Settles m ((m.registers.popped .word).popped .long) [] none rte := by
  refine settles_bind_of_touches touches_requireSupervisor fun _ => ?_
  refine (moves_popWord m).bind (Registers.isSupervisor_setSp ..) fun sr => ?_
  refine (moves_pop .long _).bind (Registers.isSupervisor_setSp ..) fun pc => ?_
  exact settles_modifyRegisters fun _ => ⟨rfl, rfl, rfl⟩

/-! ## 6. Status register, traps and processor control -/

theorem settles_logicToSr (op : LogicOp) (i : Instruction) (m : Machine) :
    Settles m m.registers [] none (logicToSr op i) :=
  settles_bind_of_touches touches_requireSupervisor fun _ =>
    settles_modifyRegisters fun _ => ⟨rfl, rfl, rfl⟩

theorem settles_moveFromSr {i : Instruction} (hsize : i.size = .word) (m : Machine) :
    Settles m (m.registers.movedBy i.destination i.size) (fieldTargets i.destination)
      (m.registers.fieldBlock? i.destination i.size) (moveFromSr i) := by
  refine settles_written fun dst => ?_
  rw [hsize]
  refine (confines_of_commits commits_status).bind fun sr => ?_
  exact confines_write dst .word _

theorem settles_moveToCcr (i : Instruction) (m : Machine) :
    Settles m (m.registers.movedBy i.source i.size) [] none (moveToCcr i) := by
  refine settles_read fun src => ?_
  refine (confines_read src .byte).bind fun v => ?_
  exact confines_of_commits (commits_setConditions _)

theorem settles_moveToSr (i : Instruction) (m : Machine) :
    Settles m (m.registers.movedBy i.source i.size) [] none (moveToSr i) := by
  refine settles_bind_of_touches touches_requireSupervisor fun _ => ?_
  refine settles_resolve fun src _ _ => ?_
  refine settles_bind_of_touches (touches_read src .word) fun v => ?_
  exact settles_modifyRegisters fun _ => ⟨rfl, rfl, rfl⟩

theorem settles_chk (i : Instruction) (m : Machine) :
    Settles m (m.registers.movedBy i.source i.size) [] none (chk i) := by
  refine settles_read fun src => ?_
  refine (confines_read src .word).bind fun bound => ?_
  refine (confines_of_commits (commits_readData _)).bind fun v => ?_
  dsimp only
  split
  · exact (confines_setFlag (by decide) true).bind fun _ => confines_throw_bind _
  · split
    · exact (confines_setFlag (by decide) false).bind fun _ => confines_throw _
    · exact .pure ()

theorem settles_stop (i : Instruction) (m : Machine) :
    Settles m m.registers [] none (stop i) := by
  refine settles_bind_of_touches touches_requireSupervisor fun _ => ?_
  dsimp only
  split
  · exact (confines_throw_bind _).settles m
  · intro u m' h
    cases h
    exact ⟨.refl _ _, fun _ _ => rfl, rfl⟩

end Exec

end Mc68000
