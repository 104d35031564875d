import Mc68000.Proofs.HiddenStack
import Mc68000.Semantics

/-!
# Operations and the hidden stack pointer

One lemma for each operation that is not privileged: it is blind. The sections are those of the
semantics. Where an operation looks at the registers itself (`blind_link`, `blind_exg`,
`blind_rts`), it looks at the active stack pointer, at registers by name or at the count of calls.
-/

namespace Mc68000.Exec

open Status

/-! ## 1. Moving values -/

theorem blind_move (i : Instruction) : Blind (move i) := by
  refine (blind_source i).bind fun src => (blind_read src i.size).bind fun v => ?_
  refine (blind_destination i).bind fun dst => (blind_write dst i.size v).bind fun _ => ?_
  exact blind_changeFlags (.logical v) i.size

theorem blind_movea (i : Instruction) : Blind (movea i) :=
  (blind_source i).bind fun src => (blind_read src i.size).bind fun _ => blind_writeAddress _ _

theorem blind_moveq (i : Instruction) : Blind (moveq i) :=
  (blind_writeData _ _ .long).bind fun _ => blind_changeFlags (.logical _) .long

theorem blind_clr (i : Instruction) : Blind (clr i) := by
  refine (blind_destination i).bind fun dst => (blind_write dst i.size 0).bind fun _ => ?_
  exact blind_changeFlags (.logical 0) i.size

theorem blind_ext (i : Instruction) : Blind (ext i) := by
  refine (blind_readData _).bind fun v => ?_
  split
  · exact (blind_writeData _ _ .long).bind fun _ => blind_changeFlags (.logical _) .long
  · exact (blind_writeData _ _ .word).bind fun _ => blind_changeFlags (.logical _) .word

theorem blind_swap (i : Instruction) : Blind (swap i) := by
  refine (blind_readData _).bind fun v => (blind_writeData _ _ .long).bind fun _ => ?_
  exact blind_changeFlags (.logical _) .long

/-- The second write finds the registers that the first one leaves in user mode. -/
theorem blind_exg (i : Instruction) : Blind (exg i) := by
  unfold exg
  cases exchanged? i with
  | none => exact blind_throw _
  | some pair =>
    obtain ⟨x, y⟩ := pair
    refine blind_modifyRegisters (fun r => ?_) fun r v hu => ?_
    · exact (Registers.isSupervisor_write ..).trans (r.isSupervisor_write x (r.read y) .long)
    · have hfirst : (r.write x (r.read y) .long).isSupervisor = false :=
        (r.isSupervisor_write x (r.read y) .long).trans hu
      rw [Registers.read_withSsp hu, Registers.read_withSsp hu, Registers.write_withSsp hu,
        Registers.write_withSsp hfirst]

theorem blind_lea (i : Instruction) : Blind (lea i) :=
  (blind_control i.source).bind fun a => blind_writeAddress _ a

theorem blind_pea (i : Instruction) : Blind (pea i) :=
  (blind_control i.source).bind fun a => blind_pushLong a

theorem blind_link (i : Instruction) : Blind (link i) := by
  refine (blind_readAddress _).bind fun saved => (blind_pushLong saved).bind fun _ => ?_
  refine blind_registers (fun r v hu => by rw [Registers.sp_withSsp hu]) fun r => ?_
  exact (blind_writeAddress _ r.sp).bind fun _ => blind_setSp _

theorem blind_unlk (i : Instruction) : Blind (unlk i) := by
  refine (blind_readAddress _).bind fun frame => (blind_setSp frame).bind fun _ => ?_
  exact blind_popLong.bind fun saved => blind_writeAddress _ saved

theorem blind_scc (i : Instruction) : Blind (scc i) := by
  refine (blind_holds _).bind fun held => (blind_destination i).bind fun dst => ?_
  exact blind_write dst .byte _

/-! ## 2. Moving many values -/

theorem blind_storeUp (size : Size) (regs : List Register) (a : Address) :
    Blind (storeUp size regs a) := by
  induction regs generalizing a with
  | nil => exact .pure a
  | cons reg regs ih =>
    exact (blind_readRegister reg).bind fun v => (blind_writeMemory a size v).bind fun _ => ih _

theorem blind_storeDown (size : Size) (regs : List Register) (a : Address) :
    Blind (storeDown size regs a) := by
  induction regs generalizing a with
  | nil => exact .pure a
  | cons reg regs ih =>
    exact (blind_readRegister reg).bind fun v => (blind_writeMemory _ size v).bind fun _ => ih _

theorem blind_loadUp (size : Size) (regs : List Register) (a : Address) :
    Blind (loadUp size regs a) := by
  induction regs generalizing a with
  | nil => exact .pure a
  | cons reg regs ih =>
    refine (blind_readMemory a size).bind fun v => ?_
    exact (blind_writeRegister reg _ .long).bind fun _ => ih _

theorem blind_movemMode (i : Instruction) : Blind (movemMode i) := by
  unfold movemMode
  split
  · exact .pure _
  · exact blind_throw _

theorem blind_movemStore (i : Instruction) : Blind (movemStore i) := by
  refine (blind_movemMode i).bind fun mode => ?_
  split
  · refine (blind_readAddress _).bind fun start => ?_
    exact (blind_storeDown i.size _ start).bind fun last => blind_writeAddress _ last
  · refine (blind_control i.destination).bind fun start => ?_
    exact (blind_storeUp i.size _ start).bind fun _ => .pure ()

theorem blind_movemLoad (i : Instruction) : Blind (movemLoad i) := by
  refine (blind_movemMode i).bind fun mode => ?_
  split
  · refine (blind_readAddress _).bind fun start => ?_
    exact (blind_loadUp i.size _ start).bind fun past => blind_writeAddress _ past
  · refine (blind_control i.destination).bind fun start => ?_
    exact (blind_loadUp i.size _ start).bind fun _ => .pure ()

theorem blind_movem (i : Instruction) : Blind (movem i) := by
  unfold movem
  split
  · exact blind_movemLoad i
  · exact blind_movemStore i

theorem blind_storeAlternate (bs : List Byte) (a : Address) : Blind (storeAlternate bs a) := by
  induction bs generalizing a with
  | nil => exact .pure ()
  | cons b bs ih => exact (blind_writeMemory a .byte _).bind fun _ => ih _

theorem blind_loadAlternate (count : Nat) (a : Address) (acc : Long) :
    Blind (loadAlternate count a acc) := by
  induction count generalizing a acc with
  | zero => exact .pure acc
  | succ count ih => exact (blind_readMemory a .byte).bind fun b => ih _ _

theorem blind_movep (i : Instruction) : Blind (movep i) := by
  refine (blind_readAddress _).bind fun a => ?_
  split
  · exact (blind_readData _).bind fun v => blind_storeAlternate _ _
  · exact (blind_loadAlternate i.size.bytes _ 0).bind fun v => blind_writeData _ v i.size

/-! ## 3. Sums and differences -/

theorem blind_combine (op : ArithOp) (src dst : Operand) (size : Size) :
    Blind (combine op src dst size) := by
  refine (blind_read src size).bind fun s => (blind_read dst size).bind fun d => ?_
  cases op with
  | cmp => exact blind_changeFlags (.compare s d _) size
  | add | sub => exact (blind_write dst size _).bind fun _ => blind_changeFlags _ size

theorem blind_operandPair (i : Instruction) : Blind (operandPair i) := by
  refine (blind_destination i).bind fun operand => ?_
  split
  · exact .pure _
  · exact .pure _

theorem blind_arith (op : ArithOp) (i : Instruction) : Blind (arith op i) := by
  cases op with
  | cmp => exact (blind_destination i).bind fun src => blind_combine .cmp src _ i.size
  | add | sub => exact (blind_operandPair i).bind fun p => blind_combine _ p.1 p.2 i.size

theorem blind_arithImmediate (op : ArithOp) (i : Instruction) : Blind (arithImmediate op i) :=
  (blind_destination i).bind fun dst => blind_combine op (literal i) dst i.size

theorem blind_arithQuick (op : ArithOp) (i : Instruction) : Blind (arithQuick op i) := by
  refine (blind_destination i).bind fun dst => ?_
  split
  · exact (blind_readAddress _).bind fun v => blind_writeAddress _ _
  · exact blind_combine op _ dst i.size

theorem blind_arithAddress (op : ArithOp) (i : Instruction) : Blind (arithAddress op i) := by
  refine (blind_source i).bind fun operand => (blind_read operand i.size).bind fun v => ?_
  refine (blind_readAddress _).bind fun d => ?_
  cases op with
  | cmp => exact blind_changeFlags (.compare _ d _) .long
  | add | sub => exact blind_writeAddress _ _

theorem blind_extendedPair (i : Instruction) (size : Size) : Blind (extendedPair i size) := by
  unfold extendedPair
  split
  · refine (blind_decrement _ size).bind fun _ => (blind_readAddress _).bind fun src => ?_
    exact (blind_decrement _ size).bind fun _ => (blind_readAddress _).bind fun dst => .pure _
  · exact .pure _

theorem blind_arithExtended (op : ArithOp) (i : Instruction) : Blind (arithExtended op i) := by
  refine (blind_extendedPair i i.size).bind fun p => ?_
  refine (blind_read p.1 i.size).bind fun s => (blind_read p.2 i.size).bind fun d => ?_
  refine blind_extend.bind fun x => (blind_write p.2 i.size _).bind fun _ => ?_
  exact blind_changeFlags _ i.size

theorem blind_cmpm (i : Instruction) : Blind (cmpm i) := by
  refine (blind_readAddress _).bind fun src => (blind_increment _ i.size).bind fun _ => ?_
  refine (blind_readAddress _).bind fun dst => (blind_increment _ i.size).bind fun _ => ?_
  exact blind_combine .cmp _ _ i.size

theorem blind_neg (i : Instruction) : Blind (neg i) := by
  refine (blind_destination i).bind fun operand => (blind_read operand i.size).bind fun v => ?_
  exact (blind_write operand i.size _).bind fun _ => blind_changeFlags (.negate v _) i.size

theorem blind_negx (i : Instruction) : Blind (negx i) := by
  refine (blind_destination i).bind fun operand => (blind_read operand i.size).bind fun v => ?_
  refine blind_extend.bind fun x => (blind_write operand i.size _).bind fun _ => ?_
  exact blind_changeFlags (.negateExtended v _) i.size

/-! ## 4. Products, quotients and packed decimal -/

theorem blind_multiply (s : Signedness) (i : Instruction) : Blind (multiply s i) := by
  refine (blind_source i).bind fun operand => (blind_read operand .word).bind fun v => ?_
  refine (blind_readData _).bind fun d => (blind_writeData _ _ .long).bind fun _ => ?_
  exact blind_changeFlags (.logical _) .long

theorem blind_divide (s : Signedness) (i : Instruction) : Blind (divide s i) := by
  refine (blind_source i).bind fun operand => (blind_read operand .word).bind fun divisor => ?_
  dsimp only
  split
  · exact blind_throw_bind _
  · refine (blind_readData _).bind fun dividend => ?_
    split
    · exact (blind_writeData _ _ .long).bind fun _ => blind_changeFlags (.logical _) .word
    · have hset : Blind (setFlag overflow true) := blind_setFlag (by decide) true
      exact hset.bind fun _ => blind_setFlag (by decide) false

theorem blind_decimal (op : AddSub) (i : Instruction) : Blind (decimal op i) := by
  refine (blind_extendedPair i .byte).bind fun p => ?_
  refine (blind_read p.1 .byte).bind fun s => (blind_read p.2 .byte).bind fun d => ?_
  refine blind_extend.bind fun x => (blind_write p.2 .byte _).bind fun _ => ?_
  exact blind_decimalFlags _ _

theorem blind_nbcd (i : Instruction) : Blind (nbcd i) := by
  refine (blind_destination i).bind fun operand => (blind_read operand .byte).bind fun v => ?_
  refine blind_extend.bind fun x => (blind_write operand .byte _).bind fun _ => ?_
  exact blind_decimalFlags _ _

/-! ## 5. Bits -/

theorem blind_combineBits (op : LogicOp) (src dst : Operand) (size : Size) :
    Blind (combineBits op src dst size) := by
  refine (blind_read src size).bind fun a => (blind_read dst size).bind fun b => ?_
  exact (blind_write dst size _).bind fun _ => blind_changeFlags (.logical _) size

theorem blind_logic (op : LogicOp) (i : Instruction) : Blind (logic op i) := by
  cases op with
  | eor => exact (blind_destination i).bind fun dst => blind_combineBits .eor _ dst i.size
  | or | and => exact (blind_operandPair i).bind fun p => blind_combineBits _ p.1 p.2 i.size

theorem blind_logicImmediate (op : LogicOp) (i : Instruction) : Blind (logicImmediate op i) :=
  (blind_destination i).bind fun dst => blind_combineBits op (literal i) dst i.size

theorem blind_not (i : Instruction) : Blind (not i) := by
  refine (blind_destination i).bind fun operand => (blind_read operand i.size).bind fun v => ?_
  exact (blind_write operand i.size _).bind fun _ => blind_changeFlags (.logical _) i.size

theorem blind_tst (i : Instruction) : Blind (tst i) := by
  refine (blind_destination i).bind fun operand => (blind_read operand i.size).bind fun v => ?_
  exact blind_changeFlags (.logical v) i.size

theorem blind_tas (i : Instruction) : Blind (tas i) := by
  refine (blind_destination i).bind fun operand => (blind_read operand .byte).bind fun v => ?_
  exact (blind_changeFlags (.logical v) .byte).bind fun _ => blind_write operand .byte _

theorem blind_bit (op : BitOp) (number : Long) (i : Instruction) : Blind (bit op number i) := by
  refine (blind_destination i).bind fun operand => (blind_read operand i.size).bind fun v => ?_
  have hzero (on : Bool) : Blind (setFlag zero on) := blind_setFlag (by decide) on
  refine (hzero _).bind fun _ => ?_
  cases op with
  | test => exact .pure ()
  | change | clear | set => exact blind_write operand i.size _

theorem blind_bitDynamic (op : BitOp) (i : Instruction) : Blind (bitDynamic op i) :=
  (blind_readData _).bind fun number => blind_bit op number i

theorem blind_shiftRegister (kind : ShiftKind) (direction : Direction) (i : Instruction) :
    Blind (shiftRegister kind direction i) := by
  have hshift (count : Nat) : Blind (do
      let v ← readData i.lowRegister
      let result ← shiftValue kind direction i.size v count
      writeData i.lowRegister result i.size) := by
    refine (blind_readData _).bind fun v => ?_
    refine (blind_shiftValue kind direction i.size v count).bind fun result => ?_
    exact blind_writeData _ result i.size
  unfold shiftRegister
  split
  · exact (blind_readData _).bind fun n => hshift _
  · exact hshift i.quickValue

theorem blind_shiftMemory (kind : ShiftKind) (direction : Direction) (i : Instruction) :
    Blind (shiftMemory kind direction i) := by
  refine (blind_source i).bind fun operand => ?_
  split
  · refine (blind_readMemory _ .word).bind fun v => ?_
    refine (blind_shiftValue kind direction .word v 1).bind fun result => ?_
    exact blind_writeMemory _ .word result
  · exact blind_throw _

/-! ## 6. Flow of control -/

theorem blind_bcc (i : Instruction) : Blind (bcc i) := by
  refine (blind_holds _).bind fun held => ?_
  split
  · exact blind_branch i _
  · exact .pure ()

theorem blind_call (i : Instruction) : Blind (call i) :=
  (blind_pushLong _).bind fun _ => blind_modify (fun _ => rfl) fun _ _ => rfl

theorem blind_bsr (i : Instruction) : Blind (bsr i) :=
  (blind_call i).bind fun _ => blind_branch i _

theorem blind_dbcc (i : Instruction) : Blind (dbcc i) := by
  refine (blind_holds _).bind fun held => ?_
  split
  · exact .pure ()
  · refine (blind_readData _).bind fun v => (blind_writeData _ _ .word).bind fun _ => ?_
    split
    · exact blind_branch i _
    · exact .pure ()

theorem blind_jmp (i : Instruction) : Blind (jmp i) :=
  (blind_control i.source).bind fun target => blind_jump target

theorem blind_jsr (i : Instruction) : Blind (jsr i) :=
  (blind_control i.source).bind fun target => (blind_call i).bind fun _ => blind_jump target

theorem blind_rts : Blind rts := by
  refine blind_get (fun _ _ => rfl) fun m => ?_
  split
  · exact blind_modify (fun _ => rfl) fun _ _ => rfl
  · refine blind_popLong.bind fun pc => (blind_jump pc).bind fun _ => ?_
    exact blind_modify (fun _ => rfl) fun _ _ => rfl

theorem blind_rtr : Blind rtr := by
  refine blind_popWord.bind fun codes => blind_popLong.bind fun pc => ?_
  have hload : Blind (modifyRegisters fun r => (r.setConditions codes).setPc pc) := by
    refine blind_modifyRegisters (fun r => ?_) fun _ _ _ => rfl
    exact Registers.isSupervisor_of_agreeOutside (agreeOutside_withConditions r.sr codes)
  exact hload.bind fun _ => blind_modify (fun _ => rfl) fun _ _ => rfl

/-! ## 7. Status register and traps -/

theorem blind_logicToCcr (op : LogicOp) (i : Instruction) : Blind (logicToCcr op i) :=
  blind_setConditions fun _ _ => rfl

theorem blind_moveFromSr (i : Instruction) : Blind (moveFromSr i) := by
  refine (blind_destination i).bind fun dst => blind_status.bind fun sr => ?_
  exact blind_write dst .word _

theorem blind_moveToCcr (i : Instruction) : Blind (moveToCcr i) := by
  refine (blind_source i).bind fun src => (blind_read src .byte).bind fun v => ?_
  exact blind_setConditions fun _ _ => rfl

theorem blind_trapv : Blind trapv := by
  refine blind_registers (fun _ _ _ => rfl) fun r => ?_
  split
  · exact blind_throw _
  · exact .pure ()

theorem blind_chk (i : Instruction) : Blind (chk i) := by
  refine (blind_source i).bind fun src => (blind_read src .word).bind fun bound => ?_
  refine (blind_readData _).bind fun v => ?_
  have hside (on : Bool) : Blind (do setFlag negative on; throw .chkBounds : Exec Unit) :=
    (blind_setFlag (by decide) on).bind fun _ => blind_throw _
  dsimp only
  split
  · exact hside true
  · split
    · exact hside false
    · exact .pure ()

end Mc68000.Exec
