import Mc68000.Proofs.Footprint.Execute

/-!
# Traps of operands

An access or an operand field can end in two traps: an address error, or the refusal of an
instruction. Most operations raise no other.

* `Trap.isOperandTrap` -- these two traps;
* `Exec.Plain` -- an action that raises no other; instances close it under sequence and choice, and
  find it for each operation;
* `Operation.isPlain` -- the operations that raise no other;
* `Instruction.plain_execute` -- **none of them does**.
-/

namespace Mc68000

/-- Whether a trap is one that an access or an operand field raises. -/
def Trap.isOperandTrap : Trap → Bool
  | addressError | illegalInstruction => true
  | _ => false

namespace Exec

variable {α β : Type} {x y : Exec α} {f : α → Exec β} {ok : List Part}

/-- An action that ends in no trap but those of operands, from whatever machine. -/
class Plain (x : Exec α) : Prop where
  isOperandTrap : ∀ m t m', x m = .error t m' → t.isOperandTrap = true

/-! ## 1. Sequence and choice -/

namespace Plain

theorem of_commits (hx : Commits ok x) : Plain x where
  isOperandTrap := by
    intro m t m' h
    obtain ⟨a, m₁, hxm, _⟩ := hx m
    rw [hxm] at h
    cases h

instance pure (a : α) : Plain (Pure.pure a : Exec α) := of_commits (Commits.pure a : Commits [] _)

instance bind [hx : Plain x] [hf : ∀ a, Plain (f a)] : Plain (x >>= f) where
  isOperandTrap := by
    intro m t m' h
    rw [run_bind] at h
    cases hxm : x m with
    | error t₁ m₁ =>
      rw [hxm] at h
      cases h
      exact hx.isOperandTrap m t m' hxm
    | ok a m₁ =>
      rw [hxm] at h
      exact (hf a).isOperandTrap m₁ t m' h

/-- The same where what follows has to be taken apart first. -/
theorem next [Plain x] (hf : ∀ a, Plain (f a)) : Plain (x >>= f) := bind

instance ite {c : Prop} [Decidable c] [Plain x] [Plain y] : Plain (if c then x else y) := by
  split <;> infer_instance

instance refuse : Plain (throw .illegalInstruction : Exec α) where
  isOperandTrap := by
    intro m t m' h
    cases h
    rfl

end Plain

/-! ## 2. Primitives -/

instance : Plain registers := .of_commits commits_registers

instance : Plain (get : Exec Machine) := .of_commits commits_get

instance (g : Machine → Machine) : Plain (modify g : Exec Unit) where
  isOperandTrap := fun _ _ _ h => by cases h

instance (g : Registers → Registers) : Plain (modifyRegisters g) where
  isOperandTrap := fun _ _ _ h => by cases h

instance (n : Fin 8) : Plain (readData n) := .of_commits (commits_readData n)

instance (n : Fin 8) : Plain (readAddress n) := .of_commits (commits_readAddress n)

instance (reg : Register) : Plain (readRegister reg) := .of_commits (commits_readRegister reg)

instance (n : Fin 8) (v : Long) (size : Size) : Plain (writeData n v size) :=
  .of_commits (commits_writeData n v size)

instance (n : Fin 8) (v : Long) : Plain (writeAddress n v) :=
  .of_commits (commits_writeAddress n v)

instance : Plain status := .of_commits commits_status

instance : Plain Exec.extend := .of_commits commits_extend

instance (condition : Condition) : Plain (holds condition) :=
  .of_commits (commits_holds condition)

instance (change : FlagChange) (size : Size) : Plain (changeFlags change size) :=
  .of_commits (commits_changeFlags change size)

instance (g : Word → Word) : Plain (modifyStatus g) := by
  unfold modifyStatus
  infer_instance

instance (flag : Word) (on : Bool) : Plain (setFlag flag on) := by
  unfold setFlag
  infer_instance

instance (a : Address) : Plain (jump a) := .of_commits (commits_jump a)

instance (i : Instruction) (distance : Long) : Plain (branch i distance) :=
  .of_commits (commits_branch i distance)

instance (kind : ShiftKind) (direction : Direction) (size : Size) (v : Long) (count : Nat) :
    Plain (shiftValue kind direction size v count) :=
  .of_commits (commits_shiftValue kind direction size v count)

instance (a : Address) (size : Size) : Plain (readMemory a size) where
  isOperandTrap := by
    intro m t m' h
    unfold readMemory Memory.read at h
    by_cases ha : accessible a size m.memory.capacity = true
    · rw [if_pos ha] at h
      cases h
    · rw [if_neg ha] at h
      cases h
      rfl

instance (a : Address) (size : Size) (v : Long) : Plain (writeMemory a size v) where
  isOperandTrap := by
    intro m t m' h
    unfold writeMemory at h
    split at h
    · cases h
    · cases h
      rfl

instance (ea? : Option EffectiveAddress) (size : Size) : Plain (resolve ea? size) where
  isOperandTrap := by
    intro m t m' h
    unfold resolve EffectiveAddress.resolve at h
    rcases ea? with _ | ea
    · cases h
      rfl
    · rcases hmode : ea.mode? with _ | mode
      · simp only [hmode] at h
        cases h
        rfl
      · simp only [hmode] at h
        cases h

instance (i : Instruction) : Plain (source i) := by
  unfold source
  infer_instance

instance (i : Instruction) : Plain (destination i) := by
  unfold destination
  infer_instance

instance (ea? : Option EffectiveAddress) : Plain (control ea?) where
  isOperandTrap := by
    intro m t m' h
    unfold control EffectiveAddress.controlAddress at h
    rcases ea? with _ | ea
    · cases h
      rfl
    · rcases hmode : ea.mode? with _ | mode
      · simp only [hmode] at h
        cases h
        rfl
      · cases mode <;> simp only [hmode] at h <;> cases h <;> rfl

instance (operand : Operand) (size : Size) : Plain (read operand size) := by
  cases operand <;> unfold read <;> infer_instance

instance (operand : Operand) (size : Size) (v : Long) : Plain (write operand size v) := by
  cases operand <;> unfold write <;> infer_instance

instance (size : Size) (v : Long) : Plain (push size v) := by
  unfold push
  infer_instance

instance (size : Size) : Plain (pop size) := by
  unfold pop
  infer_instance

instance (v : Long) : Plain (pushLong v) := by
  unfold pushLong
  infer_instance

instance : Plain popLong := by
  unfold popLong
  infer_instance

instance : Plain popWord := by
  unfold popWord
  infer_instance

/-! ## 3. Parts of operations -/

instance (op : ArithOp) (src dst : Operand) (size : Size) : Plain (combine op src dst size) := by
  cases op <;> unfold combine <;> infer_instance

instance (op : LogicOp) (src dst : Operand) (size : Size) :
    Plain (combineBits op src dst size) := by
  unfold combineBits
  infer_instance

instance (i : Instruction) : Plain (operandPair i) := by
  unfold operandPair
  infer_instance

instance (i : Instruction) (size : Size) : Plain (extendedPair i size) := by
  unfold extendedPair
  infer_instance

instance (op : BitOp) (number : Long) (i : Instruction) : Plain (bit op number i) := by
  refine .next fun operand => .next fun v => .next fun _ => ?_
  cases op with
  | test => exact .pure ()
  | change | clear | set => exact (inferInstance : Plain (write operand i.size _))

instance (i : Instruction) : Plain (call i) := by
  unfold call
  infer_instance

instance (size : Size) (regs : List Register) (a : Address) : Plain (storeUp size regs a) := by
  induction regs generalizing a with
  | nil => exact .pure a
  | cons reg regs ih => unfold storeUp; infer_instance

instance (size : Size) (regs : List Register) (a : Address) : Plain (storeDown size regs a) := by
  induction regs generalizing a with
  | nil => exact .pure a
  | cons reg regs ih => unfold storeDown; infer_instance

instance (size : Size) (regs : List Register) (a : Address) : Plain (loadUp size regs a) := by
  induction regs generalizing a with
  | nil => exact .pure a
  | cons reg regs ih => unfold loadUp; infer_instance

instance (bs : List Byte) (a : Address) : Plain (storeAlternate bs a) := by
  induction bs generalizing a with
  | nil => exact .pure ()
  | cons b bs ih => unfold storeAlternate; infer_instance

instance (count : Nat) (a : Address) (acc : Long) : Plain (loadAlternate count a acc) := by
  induction count generalizing a acc with
  | zero => exact .pure acc
  | succ count ih => unfold loadAlternate; infer_instance

instance (i : Instruction) : Plain (movemMode i) := by
  unfold movemMode
  split <;> infer_instance

instance (i : Instruction) : Plain (movemStore i) := by
  refine .next fun mode => ?_
  cases mode <;> infer_instance

instance (i : Instruction) : Plain (movemLoad i) := by
  refine .next fun mode => ?_
  cases mode <;> infer_instance

end Exec

/-! ## 4. Operations -/

/-- The operations that raise no other trap. -/
def Operation.isPlain : Operation → Bool
  | logicToSr _ | moveToSr | moveUsp | rte | stop | reset => false
  | divide _ | trapv | chk | trap => false
  | _ => true

open Exec in
/-- **No plain operation ends in a trap but those of operands.** -/
theorem Instruction.plain_execute {i : Instruction} (h : i.operation.isPlain = true) :
    Plain i.execute := by
  unfold execute
  generalize i.operation = op at h
  cases op with
  | logicToSr | moveToSr | moveUsp | rte | stop | reset | divide | trapv | chk | trap => cases h
  | logicToCcr op => unfold logicToCcr; infer_instance
  | logicImmediate op => unfold logicImmediate; infer_instance
  | logic op => cases op <;> unfold Exec.logic <;> infer_instance
  | not => unfold Exec.not; infer_instance
  | tst => unfold tst; infer_instance
  | tas => unfold tas; infer_instance
  | bitStatic op => unfold bitStatic; infer_instance
  | bitDynamic op => unfold bitDynamic; infer_instance
  | arithImmediate op => unfold arithImmediate; infer_instance
  | arith op => cases op <;> unfold Exec.arith <;> infer_instance
  | arithAddress op => cases op <;> unfold arithAddress <;> infer_instance
  | arithQuick op =>
    show Plain (Exec.arithQuick op.arith i)
    refine .next fun dst => ?_
    split <;> infer_instance
  | arithExtended op => unfold Exec.arithExtended; exact .next fun p => inferInstance
  | cmpm => unfold cmpm; infer_instance
  | neg => unfold neg; infer_instance
  | negx => unfold negx; infer_instance
  | multiply s => cases s <;> unfold multiply <;> infer_instance
  | decimal op =>
    show Plain (Exec.decimal op i)
    refine .next fun p => ?_
    cases op <;> infer_instance
  | nbcd => unfold nbcd; infer_instance
  | shiftMemory kind direction =>
    show Plain (Exec.shiftMemory kind direction i)
    refine .next fun operand => ?_
    cases operand <;> infer_instance
  | shiftRegister kind direction => unfold shiftRegister; infer_instance
  | move => unfold move; infer_instance
  | movea => unfold movea; infer_instance
  | moveq => unfold moveq; infer_instance
  | moveFromSr => unfold moveFromSr; infer_instance
  | moveToCcr => unfold moveToCcr; infer_instance
  | movep => unfold movep; infer_instance
  | movem => unfold movem; infer_instance
  | clr => unfold clr; infer_instance
  | ext => unfold ext; infer_instance
  | swap => unfold swap; infer_instance
  | exg =>
    show Plain (Exec.exg i)
    unfold exg
    split <;> infer_instance
  | lea => unfold lea; infer_instance
  | pea => unfold pea; infer_instance
  | link => unfold link; infer_instance
  | unlk => unfold unlk; infer_instance
  | scc => unfold scc; infer_instance
  | bra => unfold bra; infer_instance
  | bsr => unfold bsr; infer_instance
  | bcc => unfold bcc; infer_instance
  | dbcc => unfold dbcc; infer_instance
  | jmp => unfold jmp; infer_instance
  | jsr => unfold jsr; infer_instance
  | rts => unfold rts; infer_instance
  | rtr => unfold rtr; infer_instance
  | illegal => infer_instance
  | nop => infer_instance

end Mc68000
