import Mc68000.Proofs.Comparison
import Mc68000.Proofs.Confinement.Execute

/-!
# Which data register an instruction writes

An instruction writes one data register at most, and of that the bits of its size.

* `Registers.KeepsData` -- registers that differ from others in one data register at most, and there
  below a size;
* `Exec.WritesData` -- an action that keeps to this when it succeeds;
  `writesData_of_touches`, `writesData_write` -- its footprint, or the operand that it writes, tells
  the register;
* `writesData_move` … `writesData_shiftRegister` -- **the operations**;
* `Instruction.dataTarget?`, `dataSize` -- the register and the size of an instruction;
* `Instruction.writesData_execute` -- **an instruction writes nothing else of the data registers**;
* `Instruction.data_kept` -- the same of every instruction that is fetched, with what a trap leaves
  and with the register fields that may name the target.
-/

namespace Mc68000

open Status

/-! ## 1. Targets -/

namespace Registers

/-- Every bit of a data register of `r'` is that of `r`, unless the register is the target and the
    bit is one of the size. -/
def KeepsData (target : Option (Fin 8)) (size : Size) (r r' : Registers) : Prop :=
  ∀ n k, (target = some n → size.bits ≤ k) →
    (r'.readData n).getLsbD k = (r.readData n).getLsbD k

variable {target : Option (Fin 8)} {size : Size} {r r' r'' : Registers} {n : Fin 8}

theorem keepsData_of_eq (h : r'.data = r.data) : KeepsData target size r r' := by
  intro n k _
  unfold readData
  rw [h]

theorem KeepsData.trans (h : KeepsData target size r r') (h' : KeepsData target size r' r'') :
    KeepsData target size r r'' := fun n k hk => (h' n k hk).trans (h n k hk)

/-- Registers that are not the target stay as a whole. -/
theorem KeepsData.readData_eq (h : KeepsData target size r r') (hn : target ≠ some n) :
    r'.readData n = r.readData n :=
  BitVec.eq_of_getLsbD_eq fun k _ => h n k fun htarget => absurd htarget hn

theorem keepsData_writeData (r : Registers) (n : Fin 8) (v : Long) (size : Size) :
    KeepsData (some n) size r (r.writeData n v size) := by
  intro j k hk
  rw [readData_writeData]
  by_cases hj : j = n
  · subst hj
    rw [if_pos rfl, Size.getLsbD_merge, if_neg (Nat.not_lt.mpr (hk rfl))]
  · rw [if_neg hj]

end Registers

/-- The data register that an operand is, if it is one. -/
def Operand.dataTarget? : Operand → Option (Fin 8)
  | .data n => some n
  | _ => none

/-- The data register that a field names, if it names one. -/
def fieldDataTarget? (ea? : Option EffectiveAddress) : Option (Fin 8) :=
  match ea?.bind (·.mode?) with
  | some (.dataDirect n) => some n
  | _ => none

theorem fieldDataTarget?_eq_some {ea? : Option EffectiveAddress} {n : Fin 8} :
    fieldDataTarget? ea? = some n ↔ ea?.bind (·.mode?) = some (.dataDirect n) := by
  unfold fieldDataTarget?
  constructor
  · intro h
    split at h
    · cases h
      assumption
    · cases h
  · intro h
    rw [h]

/-- An operand that is a data register is the one that its field names. -/
theorem dataTarget?_operand {ea : EffectiveAddress} {mode : AddressingMode}
    (hmode : ea.mode? = some mode) (size : Size) (r : Registers) :
    (mode.operand ea.extension size r).1.dataTarget? = fieldDataTarget? (some ea) := by
  unfold fieldDataTarget?
  rw [Option.bind_some, hmode]
  cases mode <;> rfl

/-! ## 2. Actions -/

/-- Parts without the data registers. -/
class Dataless (parts : List Part) : Prop where
  not_mem : Part.data ∉ parts

namespace Dataless

variable {parts : List Part}

instance nil : Dataless [] := ⟨List.not_mem_nil⟩

instance address [h : Dataless parts] : Dataless (.address :: parts) :=
  ⟨List.not_mem_cons_of_ne_of_not_mem nofun h.not_mem⟩

instance memory [h : Dataless parts] : Dataless (.memory :: parts) :=
  ⟨List.not_mem_cons_of_ne_of_not_mem nofun h.not_mem⟩

instance flags {mask : Word} [h : Dataless parts] : Dataless (.flags mask :: parts) :=
  ⟨List.not_mem_cons_of_ne_of_not_mem nofun h.not_mem⟩

instance pc [h : Dataless parts] : Dataless (.pc :: parts) :=
  ⟨List.not_mem_cons_of_ne_of_not_mem nofun h.not_mem⟩

end Dataless

namespace Exec

variable {α β : Type} {x : Exec α} {f : α → Exec β} {ok trap : List Part}
  {target : Option (Fin 8)} {size : Size}

/-- Whenever the action succeeds, the data registers are as they were, but for the bits of a size in
    the target. -/
def WritesData (target : Option (Fin 8)) (size : Size) (x : Exec α) : Prop :=
  ∀ m a m', x m = .ok a m' → m.registers.KeepsData target size m'.registers

theorem writesData_throw (t : Trap) : WritesData target size (throw t : Exec α) :=
  fun _ _ _ h => by cases h

theorem writesData_throw_bind (t : Trap) :
    WritesData target size ((throw t : Exec α) >>= f) := fun _ _ _ h => by cases h

theorem WritesData.bind (hx : WritesData target size x) (hf : ∀ a, WritesData target size (f a)) :
    WritesData target size (x >>= f) := by
  intro m b m' h
  obtain ⟨a, m₁, hxa, hfa⟩ := bind_ok h
  exact (hx m a m₁ hxa).trans (hf a m₁ b m' hfa)

/-- **What touches no data register writes none.** -/
theorem writesData_of_touches (hx : Touches ok trap x) (hok : Part.data ∉ ok) :
    WritesData target size x := fun _ _ _ h =>
  Registers.keepsData_of_eq ((hx.changed h).data_eq hok)

/-- Such an action may come before. -/
theorem Touches.writes [hok : Dataless ok] (hx : Touches ok trap x)
    (hf : ∀ a, WritesData target size (f a)) : WritesData target size (x >>= f) :=
  (writesData_of_touches hx hok.not_mem).bind hf

theorem Commits.writes [Dataless ok] (hx : Commits ok x)
    (hf : ∀ a, WritesData target size (f a)) : WritesData target size (x >>= f) :=
  (hx.safe : Touches ok [] x).writes hf

theorem writesData_of_commits [hok : Dataless ok] (hx : Commits ok x) :
    WritesData target size x := writesData_of_touches (hx.safe : Touches ok [] x) hok.not_mem

theorem writesData_changeFlags (change : FlagChange) (size' : Size) :
    WritesData target size (changeFlags change size') :=
  writesData_of_commits (commits_changeFlags change size')

theorem writesData_writeData (n : Fin 8) (v : Long) (size : Size) :
    WritesData (some n) size (writeData n v size) := by
  intro m _ m' h
  cases h
  exact m.registers.keepsData_writeData n v size

/-- **A write changes the data register that its operand is**, if it is one. -/
theorem writesData_write (operand : Operand) (size : Size) (v : Long) :
    WritesData operand.dataTarget? size (write operand size v) := by
  cases operand with
  | register reg =>
    cases reg with
    | data n => exact writesData_writeData n v size
    | address n =>
      intro m _ m' h
      cases h
      exact Registers.keepsData_of_eq (Registers.data_writeAddress ..)
  | memory a => exact writesData_of_touches (touches_writeMemory a size v) Dataless.not_mem
  | immediate v => exact writesData_throw _

/-- **What writes the operand of a field writes the data register that the field names**, if it
    names one. -/
theorem writesData_field {ea? : Option EffectiveAddress} {size' : Size} {g : Operand → Exec β}
    (hg : ∀ operand, WritesData operand.dataTarget? size (g operand)) :
    WritesData (fieldDataTarget? ea?) size (resolve ea? size' >>= g) := by
  intro m b m' h
  obtain ⟨operand, m₁, hresolve, hrest⟩ := bind_ok h
  have hkept : m.registers.KeepsData (fieldDataTarget? ea?) size m₁.registers :=
    writesData_of_touches (touches_resolve ea? size') Dataless.not_mem m operand m₁ hresolve
  have hoperand : operand.dataTarget? = fieldDataTarget? ea? := by
    obtain ⟨hfield, -⟩ := fieldOperand?_of_resolve hresolve
    obtain ⟨ea, rfl, hea⟩ := Option.bind_eq_some_iff.mp hfield
    obtain ⟨mode, hmode, hp⟩ := Option.map_eq_some_iff.mp hea
    rw [← dataTarget?_operand hmode size' m.registers, hp]
  exact hkept.trans (hoperand ▸ hg operand m₁ b m' hrest)

/-! ## 3. Operations -/

theorem writesData_move (i : Instruction) :
    WritesData (fieldDataTarget? i.destination) i.size (move i) := by
  refine (touches_source i).writes fun src => ?_
  refine (touches_read src i.size).writes fun v => ?_
  refine writesData_field fun dst => ?_
  exact (writesData_write dst i.size v).bind fun _ => writesData_changeFlags _ _

theorem writesData_moveq (i : Instruction) : WritesData (some i.highRegister) .long (moveq i) :=
  (writesData_writeData _ _ .long).bind fun _ => writesData_changeFlags _ _

theorem writesData_clr (i : Instruction) :
    WritesData (fieldDataTarget? i.destination) i.size (clr i) :=
  writesData_field fun dst =>
    (writesData_write dst i.size 0).bind fun _ => writesData_changeFlags _ _

/-- The size of `EXT` is the size of its result. -/
theorem writesData_ext (i : Instruction) :
    WritesData (some i.lowRegister) (Size.longIf (i.opcode.getLsbD 6)) (ext i) := by
  refine (commits_readData _).writes fun v => ?_
  cases i.opcode.getLsbD 6 with
  | true => exact (writesData_writeData _ _ .long).bind fun _ => writesData_changeFlags _ _
  | false => exact (writesData_writeData _ _ .word).bind fun _ => writesData_changeFlags _ _

theorem writesData_swap (i : Instruction) : WritesData (some i.lowRegister) .long (swap i) := by
  refine (commits_readData _).writes fun v => ?_
  exact (writesData_writeData _ _ .long).bind fun _ => writesData_changeFlags _ _

theorem writesData_scc (i : Instruction) :
    WritesData (fieldDataTarget? i.destination) .byte (scc i) :=
  (commits_holds _).writes fun _ => writesData_field fun dst => writesData_write dst .byte _

theorem writesData_moveFromSr (i : Instruction) :
    WritesData (fieldDataTarget? i.destination) .word (moveFromSr i) :=
  writesData_field fun dst => commits_status.writes fun _ => writesData_write dst .word _

/-- `MOVEP` to memory writes no data register. -/
theorem writesData_movep (i : Instruction) :
    WritesData (if i.opcode.getLsbD 7 then none else some i.highRegister) i.size (movep i) := by
  refine (commits_readAddress _).writes fun a => ?_
  cases i.opcode.getLsbD 7 with
  | true =>
    refine (commits_readData _).writes fun v => ?_
    exact writesData_of_touches (touches_storeAlternate _ _) Dataless.not_mem
  | false =>
    refine (touches_loadAlternate _ _ _).writes fun v => ?_
    exact writesData_writeData _ v i.size

theorem writesData_dbcc (i : Instruction) : WritesData (some i.lowRegister) .word (dbcc i) := by
  refine (commits_holds _).writes fun held => ?_
  split
  · exact writesData_of_commits (.pure () : Commits [] _)
  · refine (commits_readData _).writes fun v => ?_
    refine (writesData_writeData _ _ .word).bind fun _ => ?_
    split
    · exact writesData_of_commits (commits_branch i _)
    · exact writesData_of_commits (.pure () : Commits [] _)

/-! ## 4. Arithmetic -/

theorem writesData_combine (op : ArithOp) (src dst : Operand) (size : Size) :
    WritesData dst.dataTarget? size (combine op src dst size) := by
  refine (touches_read src size).writes fun s => ?_
  refine (touches_read dst size).writes fun d => ?_
  cases op with
  | cmp => exact writesData_changeFlags _ size
  | add | sub => exact (writesData_write dst size _).bind fun _ => writesData_changeFlags _ size

/-- Opcode bit 8 tells whether the target is the operand of the field or the data register. -/
theorem writesData_operandPair {i : Instruction} {g : Operand × Operand → Exec β}
    (hg : ∀ src dst, WritesData dst.dataTarget? size (g (src, dst))) :
    WritesData
      (if i.opcode.getLsbD 8 then fieldDataTarget? i.destination else some i.highRegister) size
      (operandPair i >>= g) := by
  unfold operandPair
  rw [bind_assoc]
  cases i.opcode.getLsbD 8 with
  | true => exact writesData_field fun operand => hg _ operand
  | false => exact (touches_destination i).writes fun operand => hg operand (.data i.highRegister)

theorem writesData_arith {op : ArithOp} (hop : op ≠ .cmp) (i : Instruction) :
    WritesData
      (if i.opcode.getLsbD 8 then fieldDataTarget? i.destination else some i.highRegister) i.size
      (arith op i) := by
  cases op with
  | cmp => exact absurd rfl hop
  | add | sub => exact writesData_operandPair fun src dst => writesData_combine _ src dst i.size

theorem writesData_arithImmediate (op : ArithOp) (i : Instruction) :
    WritesData (fieldDataTarget? i.destination) i.size (arithImmediate op i) :=
  writesData_field fun dst => writesData_combine op (literal i) dst i.size

theorem writesData_arithQuick (op : ArithOp) (i : Instruction) :
    WritesData (fieldDataTarget? i.destination) i.size (arithQuick op i) := by
  refine writesData_field fun dst => ?_
  split
  · refine (commits_readAddress _).writes fun v => ?_
    exact writesData_of_commits (commits_writeAddress _ _)
  · exact writesData_combine op _ dst i.size

/-- Opcode bit 3 tells whether the operands of the pair are in memory. -/
theorem writesData_extendedPair {i : Instruction} {size' : Size} {g : Operand × Operand → Exec β}
    (hg : ∀ src dst, WritesData dst.dataTarget? size (g (src, dst))) :
    WritesData (if i.opcode.getLsbD 3 then none else some i.highRegister) size
      (extendedPair i size' >>= g) := by
  unfold extendedPair
  dsimp only
  cases i.opcode.getLsbD 3 with
  | true =>
    intro m b m' h
    obtain ⟨p, m₁, hpair, hrest⟩ := bind_ok h
    cases hpair
    have hkept : m.registers.KeepsData none size (i.pairMoved m.registers size') :=
      Registers.keepsData_of_eq
        ((Registers.data_writeAddress ..).trans (Registers.data_writeAddress ..))
    exact hkept.trans (hg _ _ _ b m' hrest)
  | false => exact hg _ _

theorem writesData_arithExtended (op : ArithOp) (i : Instruction) :
    WritesData (if i.opcode.getLsbD 3 then none else some i.highRegister) i.size
      (arithExtended op i) := by
  refine writesData_extendedPair fun src dst => ?_
  refine (touches_read src i.size).writes fun s => ?_
  refine (touches_read dst i.size).writes fun d => ?_
  refine commits_extend.writes fun x => ?_
  exact (writesData_write dst i.size _).bind fun _ => writesData_changeFlags _ _

theorem writesData_neg (i : Instruction) :
    WritesData (fieldDataTarget? i.destination) i.size (neg i) := by
  refine writesData_field fun operand => ?_
  refine (touches_read operand i.size).writes fun v => ?_
  exact (writesData_write operand i.size _).bind fun _ => writesData_changeFlags _ _

theorem writesData_negx (i : Instruction) :
    WritesData (fieldDataTarget? i.destination) i.size (negx i) := by
  refine writesData_field fun operand => ?_
  refine (touches_read operand i.size).writes fun v => ?_
  refine commits_extend.writes fun x => ?_
  exact (writesData_write operand i.size _).bind fun _ => writesData_changeFlags _ _

/-- A product is a long, whatever the size of its factors. -/
theorem writesData_multiply (s : Signedness) (i : Instruction) :
    WritesData (some i.highRegister) .long (multiply s i) := by
  refine (touches_source i).writes fun operand => ?_
  refine (touches_read operand .word).writes fun v => ?_
  refine (commits_readData _).writes fun d => ?_
  exact (writesData_writeData _ _ .long).bind fun _ => writesData_changeFlags _ _

/-- So is a remainder with its quotient. -/
theorem writesData_divide (s : Signedness) (i : Instruction) :
    WritesData (some i.highRegister) .long (divide s i) := by
  refine (touches_source i).writes fun operand => ?_
  refine (touches_read operand .word).writes fun divisor => ?_
  dsimp only
  split
  · exact writesData_throw_bind _
  · refine (commits_readData _).writes fun dividend => ?_
    split
    · exact (writesData_writeData _ _ .long).bind fun _ => writesData_changeFlags _ _
    · have hflag (flag : Word) (h : flag &&& conditions = flag) (on : Bool) :
          WritesData (some i.highRegister) .long (setFlag flag on) :=
        writesData_of_commits (commits_setFlag (by decide) h on)
      exact (hflag overflow (by decide) true).bind fun _ => hflag carry (by decide) false

theorem writesData_decimalFlags (result : Byte) (carried : Bool) :
    WritesData target size (modifyStatus (PackedDecimal.flags · result carried)) :=
  writesData_of_commits (commits_modifyStatus (by decide)
    fun sr => PackedDecimal.agreeOutside_flags sr result carried)

theorem writesData_decimal (op : AddSub) (i : Instruction) :
    WritesData (if i.opcode.getLsbD 3 then none else some i.highRegister) .byte (decimal op i) := by
  refine writesData_extendedPair fun src dst => ?_
  refine (touches_read src .byte).writes fun s => ?_
  refine (touches_read dst .byte).writes fun d => ?_
  refine commits_extend.writes fun x => ?_
  exact (writesData_write dst .byte _).bind fun _ => writesData_decimalFlags _ _

theorem writesData_nbcd (i : Instruction) :
    WritesData (fieldDataTarget? i.destination) .byte (nbcd i) := by
  refine writesData_field fun operand => ?_
  refine (touches_read operand .byte).writes fun v => ?_
  refine commits_extend.writes fun x => ?_
  exact (writesData_write operand .byte _).bind fun _ => writesData_decimalFlags _ _

/-! ## 5. Bits -/

theorem writesData_combineBits (op : LogicOp) (src dst : Operand) (size : Size) :
    WritesData dst.dataTarget? size (combineBits op src dst size) := by
  refine (touches_read src size).writes fun a => ?_
  refine (touches_read dst size).writes fun b => ?_
  exact (writesData_write dst size _).bind fun _ => writesData_changeFlags _ size

theorem writesData_logic {op : LogicOp} (hop : op ≠ .eor) (i : Instruction) :
    WritesData
      (if i.opcode.getLsbD 8 then fieldDataTarget? i.destination else some i.highRegister) i.size
      (logic op i) := by
  cases op with
  | eor => exact absurd rfl hop
  | or | and => exact writesData_operandPair fun src dst => writesData_combineBits _ src dst i.size

theorem writesData_eor (i : Instruction) :
    WritesData (fieldDataTarget? i.destination) i.size (logic .eor i) :=
  writesData_field fun dst => writesData_combineBits .eor _ dst i.size

theorem writesData_logicImmediate (op : LogicOp) (i : Instruction) :
    WritesData (fieldDataTarget? i.destination) i.size (logicImmediate op i) :=
  writesData_field fun dst => writesData_combineBits op (literal i) dst i.size

theorem writesData_not (i : Instruction) :
    WritesData (fieldDataTarget? i.destination) i.size (not i) := by
  refine writesData_field fun operand => ?_
  refine (touches_read operand i.size).writes fun v => ?_
  exact (writesData_write operand i.size _).bind fun _ => writesData_changeFlags _ _

theorem writesData_tas (i : Instruction) :
    WritesData (fieldDataTarget? i.destination) .byte (tas i) := by
  refine writesData_field fun operand => ?_
  refine (touches_read operand .byte).writes fun v => ?_
  exact (writesData_changeFlags _ _).bind fun _ => writesData_write operand .byte _

theorem writesData_bit (op : BitOp) (number : Long) (i : Instruction) :
    WritesData (fieldDataTarget? i.destination) i.size (bit op number i) := by
  refine writesData_field fun operand => ?_
  refine (touches_read operand i.size).writes fun v => ?_
  have hzero : Commits [.flags zero] (setFlag zero (v &&& bitMask operand number = 0)) :=
    commits_setFlag (by decide) (by decide) _
  refine hzero.writes fun _ => ?_
  cases op with
  | test => exact writesData_of_commits (.pure () : Commits [] _)
  | change | clear | set => exact writesData_write operand i.size _

theorem writesData_bitDynamic (op : BitOp) (i : Instruction) :
    WritesData (fieldDataTarget? i.destination) i.size (bitDynamic op i) :=
  (commits_readData _).writes fun number => writesData_bit op number i

theorem writesData_shiftRegister (kind : ShiftKind) (direction : Direction) (i : Instruction) :
    WritesData (some i.lowRegister) i.size (shiftRegister kind direction i) := by
  have hshift (count : Nat) : WritesData (some i.lowRegister) i.size (do
      let v ← readData i.lowRegister
      let result ← shiftValue kind direction i.size v count
      writeData i.lowRegister result i.size) := by
    refine (commits_readData _).writes fun v => ?_
    refine (commits_shiftValue kind direction i.size v count).writes fun result => ?_
    exact writesData_writeData _ result i.size
  unfold shiftRegister
  split
  · exact (commits_readData _).writes fun n => hshift _
  · exact hshift i.quickValue

end Exec

/-! ## 6. Instructions -/

namespace Instruction

open Exec

variable {i : Instruction} {layout : Layout}

/-- The data register that an instruction writes, if it writes one. -/
def dataTarget? (i : Instruction) : Option (Fin 8) :=
  match i.operation with
  | .shiftRegister _ _ | .ext | .swap | .dbcc => some i.lowRegister
  | .moveq | .multiply _ | .divide _ => some i.highRegister
  | .movep => if i.opcode.getLsbD 7 then none else some i.highRegister
  | .arithExtended _ | .decimal _ => if i.opcode.getLsbD 3 then none else some i.highRegister
  | .logic .or | .logic .and | .arith .add | .arith .sub =>
    if i.opcode.getLsbD 8 then fieldDataTarget? i.destination else some i.highRegister
  | _ => if i.writesDestination then fieldDataTarget? i.destination else none

/-- The size of what it writes there: that of the instruction, but for products and quotients. -/
def dataSize (i : Instruction) : Size :=
  match i.operation with
  | .multiply _ | .divide _ => .long
  | _ => i.size

theorem dataSize_of_plain (h : ∀ s, i.operation ≠ .multiply s ∧ i.operation ≠ .divide s) :
    i.dataSize = i.size := by
  unfold dataSize
  split
  case h_1 s hop => exact absurd hop (h s).1
  case h_2 s hop => exact absurd hop (h s).2
  case h_3 => rfl

/-- The target is named by a field of the opcode or by the operand that is written. -/
theorem dataTarget?_named {n : Fin 8} (h : i.dataTarget? = some n) :
    n = i.lowRegister ∨ n = i.highRegister ∨
      i.destination.bind (·.mode?) = some (.dataDirect n) := by
  have hfield (h : fieldDataTarget? i.destination = some n) :
      i.destination.bind (·.mode?) = some (.dataDirect n) := fieldDataTarget?_eq_some.mp h
  unfold dataTarget? at h
  split at h
  case h_1 | h_2 | h_3 | h_4 => exact .inl (Option.some.inj h).symm
  case h_5 | h_6 | h_7 => exact .inr (.inl (Option.some.inj h).symm)
  case h_8 | h_9 | h_10 =>
    split at h
    · cases h
    · exact .inr (.inl (Option.some.inj h).symm)
  case h_11 | h_12 | h_13 | h_14 =>
    split at h
    · exact .inr (.inr (hfield h))
    · exact .inr (.inl (Option.some.inj h).symm)
  case h_15 =>
    split at h
    · exact .inr (.inr (hfield h))
    · cases h

/-- **An instruction that succeeds writes its target at most**, and of that its size. -/
theorem writesData_execute (hd : i.Decoded layout) (hop : i.operation ∉ [.movem, .exg]) :
    WritesData i.dataTarget? i.dataSize i.execute := by
  by_cases hdata : Part.data ∈ i.operation.touches
  · have hsize (layout' : Layout) (h : Layout.of? i.operation i.opcode = some layout') :
        i.size = layout'.size := by
      rw [hd.size_eq, Option.some.inj (hd.of?_eq.symm.trans h)]
    unfold dataTarget? dataSize writesDestination execute
    generalize i.operation = op at hop hdata hsize ⊢
    cases op with
    | logicImmediate op => exact writesData_logicImmediate op i
    | not => exact writesData_not i
    | tas => rw [hsize _ rfl]; exact writesData_tas i
    | bitStatic op =>
      cases op with
      | test => exact absurd hdata (by simp [Operation.touches, BitOp.touches])
      | change | clear | set => exact writesData_bit _ _ i
    | bitDynamic op =>
      cases op with
      | test => exact absurd hdata (by simp [Operation.touches, BitOp.touches])
      | change | clear | set => exact writesData_bitDynamic _ i
    | arithImmediate op =>
      cases op with
      | cmp => exact absurd hdata (by simp [Operation.touches, ArithOp.touches])
      | add | sub => exact writesData_arithImmediate _ i
    | arith op =>
      cases op with
      | cmp => exact absurd hdata (by simp [Operation.touches, ArithOp.touches])
      | add | sub => exact writesData_arith (by decide) i
    | logic op =>
      cases op with
      | eor => exact writesData_eor i
      | or | and => exact writesData_logic (by decide) i
    | arithQuick op => exact writesData_arithQuick op.arith i
    | arithExtended op => exact writesData_arithExtended op.arith i
    | neg => exact writesData_neg i
    | negx => exact writesData_negx i
    | multiply s => exact writesData_multiply s i
    | divide s => exact writesData_divide s i
    | decimal op => rw [hsize _ rfl]; exact writesData_decimal op i
    | nbcd => rw [hsize _ rfl]; exact writesData_nbcd i
    | shiftRegister kind direction => exact writesData_shiftRegister kind direction i
    | move => exact writesData_move i
    | moveq => rw [hsize _ rfl]; exact writesData_moveq i
    | moveFromSr => rw [hsize _ rfl]; exact writesData_moveFromSr i
    | movep => exact writesData_movep i
    | clr => exact writesData_clr i
    | ext => rw [hsize _ rfl]; exact writesData_ext i
    | swap => rw [hsize _ rfl]; exact writesData_swap i
    | scc => rw [hsize _ rfl]; exact writesData_scc i
    | dbcc => rw [hsize _ rfl]; exact writesData_dbcc i
    | movem | exg => exact absurd (by decide) hop
    | _ => exact absurd hdata (by simp [Operation.touches])
  · exact writesData_of_touches i.touches_execute hdata

/-- No instruction but `MOVEM` leaves a data register changed when it traps. -/
theorem data_of_trap (hop : i.operation ≠ .movem) {m m' : Machine} {t : Trap}
    (h : i.execute m = .error t m') : m'.registers.data = m.registers.data := by
  have hleft := i.touches_execute m
  rw [h] at hleft
  refine hleft.data_eq fun hdata => ?_
  obtain hdata | ⟨_, hdata, -⟩ | ⟨hdata, -⟩ | ⟨-, hmovem⟩ := Operation.mem_leaves hdata
  · cases hdata
  · cases hdata
  · cases hdata
  · exact hop hmovem

/-- **The data registers of a fetched instruction.** Unless it is `MOVEM` or `EXG`, it changes one
    data register at most: none if it traps, and if it succeeds its target, which a register field
    of the opcode or the written operand names. But for products and quotients, the bits of the
    target above the size of the instruction stay. -/
theorem data_kept {c : Code} {pc pc' : Address} (hfetch : c.fetch pc = .ok (some i) pc')
    (hop : i.operation ∉ [.movem, .exg]) (m : Machine) :
    (match i.execute m with
      | .ok _ m' =>
        (∀ n, i.dataTarget? ≠ some n → m'.registers.readData n = m.registers.readData n) ∧
          ∀ n, i.dataTarget? = some n →
            (∀ s, i.operation ≠ .multiply s ∧ i.operation ≠ .divide s) →
              ∀ k, i.size.bits ≤ k →
                (m'.registers.readData n).getLsbD k = (m.registers.readData n).getLsbD k
      | .error _ m' => m'.registers.data = m.registers.data) ∧
      ∀ n, i.dataTarget? = some n →
        n = i.lowRegister ∨ n = i.highRegister ∨
          i.destination.bind (·.mode?) = some (.dataDirect n) := by
  obtain ⟨layout, hd⟩ := Code.decoded_of_fetch hfetch
  refine ⟨?_, fun n hn => dataTarget?_named hn⟩
  cases hx : i.execute m with
  | ok u m' =>
    have hkept := writesData_execute hd hop m u m' hx
    refine ⟨fun n hn => hkept.readData_eq hn, fun n _ hlong k hk => hkept n k fun _ => ?_⟩
    rw [dataSize_of_plain hlong]
    exact hk
  | error t m' =>
    have hmovem : i.operation ≠ .movem := fun h => hop (h ▸ List.mem_cons_self)
    exact data_of_trap hmovem hx

/-- `ADD.B D1,D2`. -/
def addLowBytes : Instruction :=
  { address := 0, opcode := 0xD401, operation := .arith .add, size := .byte
    extension := ⟨2, .none⟩, source := none, destination := some ⟨0b000001, ⟨2, .none⟩⟩
    length := 2 }

/-- A machine about to add one to a byte of ones. -/
def aboutToAddLowBytes : Machine :=
  { Machine.new { memoryBytes := 2, traceInstructions := false } with
    registers := (Registers.zeros.writeData 1 1 .long).writeData 2 0x123456FF .long
    memory := (Memory.zeros 2).setBytes 0 [0xD4, 0x01]
    codeEnd := 2 }

/-- The carry out of the byte goes nowhere. -/
theorem data_kept_addLowBytes :
    aboutToAddLowBytes.code.fetch 0 = .ok (some addLowBytes) 2 ∧
      ∃ m', addLowBytes.execute aboutToAddLowBytes = .ok () m' ∧
        (m'.registers.readData 2).getLsbD 0 = false ∧ m'.registers.readData 1 = 1 ∧
        ∀ k, 8 ≤ k → (m'.registers.readData 2).getLsbD k = (0x123456FF : Long).getLsbD k := by
  have hfetch : aboutToAddLowBytes.code.fetch 0 = .ok (some addLowBytes) 2 := rfl
  obtain ⟨m', hx, hlow⟩ : ∃ m', addLowBytes.execute aboutToAddLowBytes = .ok () m' ∧
      (m'.registers.readData 2).getLsbD 0 = false := ⟨_, rfl, by decide⟩
  have hkept := (data_kept hfetch (by decide) aboutToAddLowBytes).1
  rw [hx] at hkept
  obtain ⟨hothers, hupper⟩ := hkept
  have hsource : m'.registers.readData 1 = 1 := (hothers 1 (by decide)).trans (by decide)
  have htarget : aboutToAddLowBytes.registers.readData 2 = 0x123456FF := by decide
  refine ⟨hfetch, m', hx, hlow, hsource, fun k hk => ?_⟩
  rw [hupper 2 (by decide) (fun _ => ⟨nofun, nofun⟩) k hk, htarget]

end Instruction

end Mc68000
