import Mc68000.Proofs.Footprint.Primitives

/-!
# Footprints of the operations

One lemma for each operation: what it touches when it succeeds, and what a trap leaves behind. The
sections are those of the semantics. Nearly every operation resolves its operands first, so a trap
leaves address registers moved and nothing else; the exceptions are

* `touches_tas`, `touches_bit`, `touches_chk` -- flags set before the trap;
* `touches_movem`, `touches_movep` -- the transfers made before the trap.
-/

namespace Mc68000

open Status

/-- What a sum, a difference or a comparison touches once its operands are known. -/
@[reducible] def ArithOp.touches : ArithOp → List Part
  | .add | .sub => [.data, .address, .memory, .flags conditions]
  | .cmp => [.flags nzvc]

/-- What a bit operation touches once its operand is known. -/
@[reducible] def BitOp.touches : BitOp → List Part
  | .test => [.flags zero]
  | .change | .clear | .set => [.data, .address, .memory, .flags zero]

/-- What a bit operation leaves behind when its operand refuses the write. -/
@[reducible] def BitOp.leaves : BitOp → List Part
  | .test => []
  | .change | .clear | .set => [.flags zero]

namespace Exec

/-! ## 1. Moving values -/

theorem touches_move (i : Instruction) :
    Touches [.data, .address, .memory, .flags nzvc] [.address] (move i) := by
  refine (touches_source i).prepare fun src => ?_
  refine (touches_read src i.size).prepare fun v => ?_
  refine (touches_destination i).prepare fun dst => ?_
  exact (touches_write dst i.size v).commit fun _ => (commits_changeFlags (.logical v) i.size).mono

theorem touches_movea (i : Instruction) : Touches [.address] [.address] (movea i) := by
  refine (touches_source i).prepare fun src => ?_
  exact (touches_read src i.size).commit fun v => (commits_writeAddress _ _).mono

theorem commits_moveq (i : Instruction) : Commits [.data, .flags nzvc] (moveq i) :=
  (commits_writeData _ _ .long).bind fun _ => (commits_changeFlags (.logical _) .long).mono

theorem touches_clr (i : Instruction) :
    Touches [.data, .address, .memory, .flags nzvc] [.address] (clr i) := by
  refine (touches_destination i).prepare fun dst => ?_
  exact (touches_write dst i.size 0).commit fun _ => (commits_changeFlags (.logical 0) i.size).mono

theorem commits_ext (i : Instruction) : Commits [.data, .flags nzvc] (ext i) := by
  refine (commits_readData _).bind fun v => ?_
  split
  · exact (commits_writeData _ _ .long).bind fun _ => (commits_changeFlags (.logical _) .long).mono
  · exact (commits_writeData _ _ .word).bind fun _ => (commits_changeFlags (.logical _) .word).mono

theorem commits_swap (i : Instruction) : Commits [.data, .flags nzvc] (swap i) := by
  refine (commits_readData _).bind fun v => ?_
  exact (commits_writeData _ _ .long).bind fun _ => (commits_changeFlags (.logical _) .long).mono

theorem touches_exg (i : Instruction) : Touches [.data, .address] [] (exg i) := by
  unfold exg
  cases exchanged? i with
  | none => exact touches_throw _
  | some pair =>
    obtain ⟨x, y⟩ := pair
    refine Commits.safe (commits_modifyRegisters fun m => ?_)
    exact (changed_write m x _ .long).trans (changed_write _ y _ .long)

theorem touches_lea (i : Instruction) : Touches [.address] [] (lea i) :=
  (touches_control i.source).commit fun a => (commits_writeAddress _ a).mono

theorem touches_pea (i : Instruction) : Touches [.memory, .address] [] (pea i) :=
  (touches_control i.source).prepare fun a => touches_pushLong a

theorem touches_link (i : Instruction) : Touches [.memory, .address] [] (link i) := by
  refine (commits_readAddress _).prepare fun saved => ?_
  refine (touches_pushLong saved).commit fun _ => ?_
  refine commits_registers.bind fun r => ?_
  exact (commits_writeAddress _ r.sp).bind fun _ => (commits_setSp _).mono

theorem touches_unlk (i : Instruction) : Touches [.address] [.address] (unlk i) := by
  refine (commits_readAddress _).prepare fun frame => ?_
  refine (commits_setSp frame).prepare fun _ => ?_
  exact touches_popLong.commit fun saved => (commits_writeAddress _ saved).mono

theorem touches_scc (i : Instruction) :
    Touches [.data, .address, .memory] [.address] (scc i) := by
  refine (commits_holds _).prepare fun held => ?_
  refine (touches_destination i).prepare fun dst => ?_
  exact (touches_write dst .byte _).mono

/-! ## 2. Moving many values -/

theorem touches_storeUp (size : Size) (regs : List Register) (a : Address) :
    Touches [.memory] [.memory] (storeUp size regs a) := by
  induction regs generalizing a with
  | nil => exact .pure a
  | cons reg regs ih =>
    refine (commits_readRegister reg).prepare fun v => ?_
    exact (touches_writeMemory a size v).prepare fun _ => ih _

theorem touches_storeDown (size : Size) (regs : List Register) (a : Address) :
    Touches [.memory] [.memory] (storeDown size regs a) := by
  induction regs generalizing a with
  | nil => exact .pure a
  | cons reg regs ih =>
    refine (commits_readRegister reg).prepare fun v => ?_
    exact (touches_writeMemory _ size v).prepare fun _ => ih _

theorem touches_loadUp (size : Size) (regs : List Register) (a : Address) :
    Touches [.data, .address] [.data, .address] (loadUp size regs a) := by
  induction regs generalizing a with
  | nil => exact .pure a
  | cons reg regs ih =>
    refine (touches_readMemory a size).prepare fun v => ?_
    exact (commits_write reg _ .long).prepare fun _ => ih _

theorem touches_movemMode (i : Instruction) : Touches [] [] (movemMode i) := by
  unfold movemMode
  split
  · exact .pure _
  · exact touches_throw _

theorem touches_movemStore (i : Instruction) :
    Touches [.address, .memory] [.memory] (movemStore i) := by
  refine (touches_movemMode i).prepare fun mode => ?_
  split
  · refine (commits_readAddress _).prepare fun start => ?_
    exact (touches_storeDown i.size _ start).commit fun last => (commits_writeAddress _ last).mono
  · refine (touches_control i.destination).prepare fun start => ?_
    exact (touches_storeUp i.size _ start).commit fun _ => .pure ()

theorem touches_movemLoad (i : Instruction) :
    Touches [.data, .address] [.data, .address] (movemLoad i) := by
  refine (touches_movemMode i).prepare fun mode => ?_
  split
  · refine (commits_readAddress _).prepare fun start => ?_
    exact (touches_loadUp i.size _ start).commit fun past => (commits_writeAddress _ past).mono
  · refine (touches_control i.destination).prepare fun start => ?_
    exact (touches_loadUp i.size _ start).commit fun _ => .pure ()

theorem touches_movem (i : Instruction) :
    Touches [.data, .address, .memory] [.data, .address, .memory] (movem i) := by
  unfold movem
  split
  · exact (touches_movemLoad i).mono
  · exact (touches_movemStore i).mono

theorem touches_storeAlternate (bs : List Byte) (a : Address) :
    Touches [.memory] [.memory] (storeAlternate bs a) := by
  induction bs generalizing a with
  | nil => exact .pure ()
  | cons b bs ih => exact (touches_writeMemory a .byte _).prepare fun _ => ih _

theorem touches_loadAlternate (count : Nat) (a : Address) (acc : Long) :
    Touches [] [] (loadAlternate count a acc) := by
  induction count generalizing a acc with
  | zero => exact .pure acc
  | succ count ih => exact (touches_readMemory a .byte).prepare fun b => ih _ _

theorem touches_movep (i : Instruction) : Touches [.data, .memory] [.memory] (movep i) := by
  refine (commits_readAddress _).prepare fun a => ?_
  split
  · refine (commits_readData _).prepare fun v => ?_
    exact (touches_storeAlternate _ _).mono
  · exact (touches_loadAlternate i.size.bytes _ 0).commit fun v =>
      (commits_writeData _ v i.size).mono

/-! ## 3. Sums and differences -/

theorem touches_combine (op : ArithOp) (src dst : Operand) (size : Size) :
    Touches op.touches [] (combine op src dst size) := by
  refine (touches_read src size).prepare fun s => ?_
  refine (touches_read dst size).prepare fun d => ?_
  have hflags := commits_arithFlags op s d (size.truncate (op.compute d s 0)) size
  cases op with
  | cmp => exact hflags.touches
  | add | sub => exact (touches_write dst size _).commit fun _ => hflags.mono

theorem touches_operandPair (i : Instruction) : Touches [.address] [] (operandPair i) := by
  refine (touches_destination i).commit fun operand => ?_
  split
  · exact .pure _
  · exact .pure _

theorem touches_arith (op : ArithOp) (i : Instruction) :
    Touches (.address :: op.touches) [.address] (arith op i) := by
  cases op with
  | cmp => exact (touches_destination i).prepare fun src => (touches_combine .cmp src _ i.size).mono
  | add | sub =>
    exact (touches_operandPair i).prepare fun p => (touches_combine _ p.1 p.2 i.size).mono

theorem touches_arithImmediate (op : ArithOp) (i : Instruction) :
    Touches (.address :: op.touches) [.address] (arithImmediate op i) :=
  (touches_destination i).prepare fun dst => (touches_combine op (literal i) dst i.size).mono

theorem touches_arithQuick (op : ArithOp) (i : Instruction) :
    Touches (.address :: op.touches) [.address] (arithQuick op i) := by
  refine (touches_destination i).prepare fun dst => ?_
  split
  · exact (commits_readAddress _).prepare fun v => (commits_writeAddress _ _).touches
  · exact (touches_combine op _ dst i.size).mono

theorem touches_arithAddress (op : ArithOp) (i : Instruction) :
    Touches [.address, .flags nzvc] [.address] (arithAddress op i) := by
  refine (touches_source i).prepare fun operand => ?_
  refine (touches_read operand i.size).prepare fun v => ?_
  refine (commits_readAddress _).prepare fun d => ?_
  cases op with
  | cmp => exact (commits_changeFlags (.compare _ d _) .long).touches
  | add | sub => exact (commits_writeAddress _ _).touches

theorem commits_extendedPair (i : Instruction) (size : Size) :
    Commits [.address] (extendedPair i size) := by
  unfold extendedPair
  split
  · refine (commits_decrement _ size).bind fun _ => ?_
    refine (commits_readAddress _).bind fun src => ?_
    refine (commits_decrement _ size).bind fun _ => ?_
    exact (commits_readAddress _).bind fun dst => .pure _
  · exact .pure _

theorem touches_arithExtended (op : AddSub) (i : Instruction) :
    Touches [.data, .address, .memory, .flags conditions] [.address]
      (arithExtended op.arith i) := by
  refine (commits_extendedPair i i.size).prepare fun p => ?_
  refine (touches_read p.1 i.size).prepare fun s => ?_
  refine (touches_read p.2 i.size).prepare fun d => ?_
  refine commits_extend.prepare fun x => ?_
  refine (touches_write p.2 i.size _).commit fun _ => ?_
  cases op with
  | add => exact (commits_arithFlags .add s d _ i.size).mono
  | sub => exact (commits_arithFlags .sub s d _ i.size).mono

theorem touches_cmpm (i : Instruction) :
    Touches [.address, .flags nzvc] [.address] (cmpm i) := by
  refine (commits_readAddress _).prepare fun src => ?_
  refine (commits_increment _ i.size).prepare fun _ => ?_
  refine (commits_readAddress _).prepare fun dst => ?_
  refine (commits_increment _ i.size).prepare fun _ => ?_
  exact (touches_combine .cmp _ _ i.size).mono

theorem touches_neg (i : Instruction) :
    Touches [.data, .address, .memory, .flags conditions] [.address] (neg i) := by
  refine (touches_destination i).prepare fun operand => ?_
  refine (touches_read operand i.size).prepare fun v => ?_
  exact (touches_write operand i.size _).commit fun _ =>
    (commits_changeFlags (.negate v _) i.size).mono

theorem touches_negx (i : Instruction) :
    Touches [.data, .address, .memory, .flags conditions] [.address] (negx i) := by
  refine (touches_destination i).prepare fun operand => ?_
  refine (touches_read operand i.size).prepare fun v => ?_
  refine commits_extend.prepare fun x => ?_
  exact (touches_write operand i.size _).commit fun _ =>
    (commits_changeFlags (.negateExtended v _) i.size).mono

/-! ## 4. Products, quotients and packed decimal -/

theorem touches_multiply (s : Signedness) (i : Instruction) :
    Touches [.data, .address, .flags nzvc] [.address] (multiply s i) := by
  refine (touches_source i).prepare fun operand => ?_
  refine (touches_read operand .word).commit fun v => ?_
  refine (commits_readData _).bind fun d => ?_
  exact (commits_writeData _ _ .long).bind fun _ => (commits_changeFlags (.logical _) .long).mono

theorem touches_divide (s : Signedness) (i : Instruction) :
    Touches [.data, .address, .flags nzvc] [.address] (divide s i) := by
  refine (touches_source i).prepare fun operand => ?_
  refine (touches_read operand .word).prepare fun divisor => ?_
  dsimp only
  split
  · exact touches_throw_bind _
  · refine ((commits_readData _).bind fun dividend => ?_ :
      Commits [.data, .flags nzvc] _).touches
    split
    · exact (commits_writeData _ _ .long).bind fun _ =>
        (commits_changeFlags (.logical _) .word).mono
    · have hclear : Commits [.flags nzvc] (setFlag carry false) :=
        commits_setFlag (by decide) (by decide) false
      have hset : Commits [.flags nzvc] (setFlag overflow true) :=
        commits_setFlag (by decide) (by decide) true
      exact hset.bind fun _ => hclear.mono

theorem touches_decimal (op : AddSub) (i : Instruction) :
    Touches [.data, .address, .memory, .flags PackedDecimal.mask] [.address] (decimal op i) := by
  refine (commits_extendedPair i .byte).prepare fun p => ?_
  refine (touches_read p.1 .byte).prepare fun s => ?_
  refine (touches_read p.2 .byte).prepare fun d => ?_
  refine commits_extend.prepare fun x => ?_
  exact (touches_write p.2 .byte _).commit fun _ =>
    (commits_modifyStatus (by decide) fun sr => PackedDecimal.agreeOutside_flags sr _ _).mono

theorem touches_nbcd (i : Instruction) :
    Touches [.data, .address, .memory, .flags PackedDecimal.mask] [.address] (nbcd i) := by
  refine (touches_destination i).prepare fun operand => ?_
  refine (touches_read operand .byte).prepare fun v => ?_
  refine commits_extend.prepare fun x => ?_
  exact (touches_write operand .byte _).commit fun _ =>
    (commits_modifyStatus (by decide) fun sr => PackedDecimal.agreeOutside_flags sr _ _).mono

/-! ## 5. Bits -/

theorem touches_combineBits (op : LogicOp) (src dst : Operand) (size : Size) :
    Touches [.data, .address, .memory, .flags nzvc] [] (combineBits op src dst size) := by
  refine (touches_read src size).prepare fun a => ?_
  refine (touches_read dst size).prepare fun b => ?_
  exact (touches_write dst size _).commit fun _ => (commits_changeFlags (.logical _) size).mono

theorem touches_logic (op : LogicOp) (i : Instruction) :
    Touches [.data, .address, .memory, .flags nzvc] [.address] (logic op i) := by
  cases op with
  | eor =>
    exact (touches_destination i).prepare fun dst => (touches_combineBits .eor _ dst i.size).mono
  | or | and =>
    exact (touches_operandPair i).prepare fun p => (touches_combineBits _ p.1 p.2 i.size).mono

theorem touches_logicImmediate (op : LogicOp) (i : Instruction) :
    Touches [.data, .address, .memory, .flags nzvc] [.address] (logicImmediate op i) :=
  (touches_destination i).prepare fun dst => (touches_combineBits op (literal i) dst i.size).mono

theorem touches_not (i : Instruction) :
    Touches [.data, .address, .memory, .flags nzvc] [.address] (not i) := by
  refine (touches_destination i).prepare fun operand => ?_
  refine (touches_read operand i.size).prepare fun v => ?_
  exact (touches_write operand i.size _).commit fun _ =>
    (commits_changeFlags (.logical _) i.size).mono

theorem touches_tst (i : Instruction) :
    Touches [.address, .flags nzvc] [.address] (tst i) := by
  refine (touches_destination i).prepare fun operand => ?_
  exact (touches_read operand i.size).commit fun v => (commits_changeFlags (.logical v) i.size).mono

/-- The flags change before the write, which a literal refuses. -/
theorem touches_tas (i : Instruction) :
    Touches [.data, .address, .memory, .flags nzvc] [.address, .flags nzvc] (tas i) := by
  refine (touches_destination i).prepare fun operand => ?_
  refine (touches_read operand .byte).prepare fun v => ?_
  refine (commits_changeFlags (.logical v) .byte).prepare fun _ => ?_
  exact (touches_write operand .byte _).mono

/-- Z changes before the write, which a literal refuses. -/
theorem touches_bit (op : BitOp) (number : Long) (i : Instruction) :
    Touches (.address :: op.touches) (.address :: op.leaves) (bit op number i) := by
  refine (touches_destination i).prepare fun operand => ?_
  refine (touches_read operand i.size).prepare fun v => ?_
  have hzero : Commits [.flags zero] (setFlag zero (v &&& bitMask operand number = 0)) :=
    commits_setFlag (by decide) (by decide) _
  cases op with
  | test => exact hzero.touches
  | change | clear | set => exact hzero.prepare fun _ => (touches_write operand i.size _).mono

theorem touches_bitDynamic (op : BitOp) (i : Instruction) :
    Touches (.address :: op.touches) (.address :: op.leaves) (bitDynamic op i) :=
  (commits_readData _).prepare fun number => touches_bit op number i

theorem commits_shiftRegister (kind : ShiftKind) (direction : Direction) (i : Instruction) :
    Commits [.data, .flags kind.mask] (shiftRegister kind direction i) := by
  have hshift (count : Nat) : Commits [.data, .flags kind.mask] (do
      let v ← readData i.lowRegister
      let result ← shiftValue kind direction i.size v count
      writeData i.lowRegister result i.size) := by
    refine (commits_readData _).bind fun v => ?_
    refine (commits_shiftValue kind direction i.size v count).bind fun result => ?_
    exact (commits_writeData _ result i.size).mono
  unfold shiftRegister
  split
  · exact (commits_readData _).bind fun n => hshift _
  · exact hshift i.quickValue

theorem touches_shiftMemory (kind : ShiftKind) (direction : Direction) (i : Instruction) :
    Touches [.address, .memory, .flags kind.mask] [.address] (shiftMemory kind direction i) := by
  refine (touches_source i).prepare fun operand => ?_
  split
  · exact (touches_readWrite _ .word fun v => commits_shiftValue kind direction .word v 1).mono
  · exact touches_throw _

/-! ## 6. Flow of control -/

theorem commits_bcc (i : Instruction) : Commits [.pc] (bcc i) := by
  refine (commits_holds _).bind fun held => ?_
  split
  · exact commits_branch i _
  · exact .pure ()

theorem touches_call (i : Instruction) :
    Touches [.memory, .address, .callDepth] [] (call i) :=
  (touches_pushLong _).commit fun _ => (commits_setDepth _).mono

theorem touches_bsr (i : Instruction) :
    Touches [.memory, .address, .callDepth, .pc] [] (bsr i) :=
  (touches_call i).commit fun _ => (commits_branch i _).mono

theorem commits_dbcc (i : Instruction) : Commits [.data, .pc] (dbcc i) := by
  refine (commits_holds _).bind fun held => ?_
  split
  · exact .pure ()
  · refine (commits_readData _).bind fun v => ?_
    refine (commits_writeData _ _ .word).bind fun _ => ?_
    split
    · exact (commits_branch i _).mono
    · exact .pure ()

theorem touches_jmp (i : Instruction) : Touches [.pc] [] (jmp i) :=
  (touches_control i.source).commit fun target => commits_jump target

theorem touches_jsr (i : Instruction) :
    Touches [.memory, .address, .callDepth, .pc] [] (jsr i) := by
  refine (touches_control i.source).prepare fun target => ?_
  exact (touches_call i).commit fun _ => (commits_jump target).mono

theorem touches_rts : Touches [.address, .pc, .callDepth, .finish] [] rts := by
  refine commits_get.prepare fun m => ?_
  split
  · exact Commits.safe (commits_modify fun m => .one (.finish m))
  · refine touches_popLong.commit fun pc => ?_
    exact (commits_jump pc).bind fun _ => (commits_setDepth _).mono

theorem touches_rtr :
    Touches [.address, .pc, .flags conditions, .callDepth] [.address] rtr := by
  refine touches_popWord.prepare fun codes => ?_
  refine touches_popLong.commit fun pc => ?_
  exact (commits_loadCodes codes pc).bind fun _ => (commits_setDepth _).mono

theorem touches_rte : Touches [.address, .pc, .system] [.address] rte := by
  refine touches_requireSupervisor.prepare fun _ => ?_
  refine touches_popWord.prepare fun sr => ?_
  refine touches_popLong.commit fun pc => commits_modifyRegisters fun m => ?_
  have hsr : Changed [.pc, .system] m { m with registers := m.registers.setSr sr } :=
    .one (.setSr m sr)
  exact (hsr.trans (.one (.setPc _ pc))).mono

/-! ## 7. Status register, traps and processor control -/

theorem commits_logicToCcr (op : LogicOp) (i : Instruction) :
    Commits [.flags conditions] (logicToCcr op i) := commits_setConditions _

theorem touches_logicToSr (op : LogicOp) (i : Instruction) :
    Touches [.system] [] (logicToSr op i) :=
  touches_requireSupervisor.commit fun _ => commits_setSr _

theorem touches_moveFromSr (i : Instruction) :
    Touches [.data, .address, .memory] [.address] (moveFromSr i) := by
  refine (touches_destination i).prepare fun dst => ?_
  refine commits_status.prepare fun sr => ?_
  exact (touches_write dst .word _).mono

theorem touches_moveToCcr (i : Instruction) :
    Touches [.address, .flags conditions] [.address] (moveToCcr i) := by
  refine (touches_source i).prepare fun src => ?_
  exact (touches_read src .byte).commit fun v => (commits_setConditions _).mono

theorem touches_moveToSr (i : Instruction) :
    Touches [.address, .system] [.address] (moveToSr i) := by
  refine touches_requireSupervisor.prepare fun _ => ?_
  refine (touches_source i).prepare fun src => ?_
  exact (touches_read src .word).commit fun v => (commits_setSr _).mono

theorem touches_moveUsp (i : Instruction) : Touches [.address, .system] [] (moveUsp i) := by
  refine touches_requireSupervisor.commit fun _ => ?_
  split
  · exact commits_modifyRegisters fun m => .one (.writeAddress m _ _ .long)
  · exact commits_modifyRegisters fun m => .one (.setUsp m _)

theorem touches_trap (i : Instruction) : Touches [] [] (trap i) := touches_throw _

theorem touches_trapv : Touches [] [] trapv := by
  refine commits_registers.prepare fun r => ?_
  split
  · exact touches_throw _
  · exact .pure ()

/-- N tells which bound was passed before the trap is raised. -/
theorem touches_chk (i : Instruction) :
    Touches [.address] [.address, .flags negative] (chk i) := by
  refine (touches_source i).prepare fun src => ?_
  refine (touches_read src .word).prepare fun bound => ?_
  refine (commits_readData _).prepare fun v => ?_
  have hside (on : Bool) : Commits [.flags negative] (setFlag negative on) :=
    commits_setFlag (by decide) (by decide) on
  dsimp only
  split
  · exact (hside true).raise .chkBounds
  · split
    · exact (hside false).raise .chkBounds
    · exact .pure ()

theorem touches_stop (i : Instruction) : Touches [.system] [] (stop i) := by
  refine touches_requireSupervisor.prepare fun _ => ?_
  dsimp only
  split
  · exact touches_throw_bind _
  · refine ((commits_setSr _).bind fun _ => ?_).safe
    exact commits_modify fun m => .one (.stop m)

theorem touches_reset : Touches [] [] reset := touches_requireSupervisor

end Exec

end Mc68000
