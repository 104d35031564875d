import Mc68000.Proofs.CallDepth
import Mc68000.Proofs.CheckedArithmetic
import Mc68000.Proofs.IntegerArithmetic

/-!
# Operations that do not wrap

The operations once more, with plain operators where they do not compute modulo a power of two.
Such an operator may have no result, and then the operation ends in a fault that is no trap.

* `Fault`, `CheckedExec` -- actions that may end in such a fault;
* `CheckedExec.lift`, `CheckedExec.result` -- an action without plain operators, and their result;
* `CheckedExec.call` … `CheckedExec.movep` -- the operations that have plain operators;
* `CheckedExec.execute` -- what an instruction does with them;
* `CheckedExec.execute_eq_lift` -- **all instructions but the calls do the same as ever**;
* `CheckedExec.countsCalls_execute` -- **so do the calls, while the count has room for one**.
-/

namespace Mc68000

/-- What ends an operation: a trap of its own, or a plain operator without a result. -/
inductive Fault where
  | trap (t : Trap)
  | arithmetic
  deriving DecidableEq, Repr

/-- An action on a machine that computes with plain operators. -/
abbrev CheckedExec := EStateM Fault Machine

namespace CheckedExec

open Checked

variable {α β : Type}

/-! ## 1. Actions with and without plain operators -/

/-- An action that computes with no plain operator. -/
def lift (x : Exec α) : CheckedExec α := fun m =>
  match x m with
  | .ok a m => .ok a m
  | .error t m => .error (.trap t) m

/-- The result of plain operators, if there is one. -/
def result (v? : Option α) : CheckedExec α :=
  match v? with
  | some v => pure v
  | none => throw .arithmetic

theorem lift_bind (x : Exec α) (f : α → Exec β) :
    lift (x >>= f) = lift x >>= fun a => lift (f a) := by
  funext m
  rw [run_bind]
  unfold lift
  rw [run_bind]
  cases x m <;> rfl

theorem lift_pure (a : α) : lift (pure a) = pure a := rfl

theorem result_some (v : α) : result (some v) = pure v := rfl

/-- Behind a read only the values of the size matter. -/
theorem lift_read_congr {operand : Operand} {size : Size} {f g : Long → CheckedExec β}
    (h : ∀ v, size.truncate v = v → f v = g v) :
    (lift (Exec.read operand size) >>= f) = (lift (Exec.read operand size) >>= g) := by
  funext m
  rw [run_bind, run_bind]
  unfold lift
  rw [Exec.read_eq_value?]
  cases hv : operand.value? size m.registers m.memory with
  | none => rfl
  | some v => exact congrFun (h v (Operand.truncate_of_value? hv)) m

/-! ## 2. Operations with plain operators -/

/-- Pushes the address past an instruction and counts the call. -/
def call (i : Instruction) : CheckedExec Unit := do
  lift (Exec.pushLong i.nextAddress)
  let depth ← result (add? (← get).callDepth 1)
  modify fun m => { m with callDepth := depth }

/-- `BSR`. -/
def bsr (i : Instruction) : CheckedExec Unit := do
  call i
  lift (Exec.branch i i.branchDistance)

/-- `JSR`. -/
def jsr (i : Instruction) : CheckedExec Unit := do
  let target ← lift (Exec.control i.source)
  call i
  lift (Exec.jump target)

/-- `RTS`. -/
def rts : CheckedExec Unit := do
  if (← get).callDepth = 0 then
    modify fun m => { m with runState := .finished }
  else
    let pc ← lift Exec.popLong
    lift (Exec.jump pc)
    let depth ← result (sub? (← get).callDepth 1)
    modify fun m => { m with callDepth := depth }

/-- `MULU`, `MULS`. The signed product is computed modulo 2^32. -/
def multiply (s : Signedness) (i : Instruction) : CheckedExec Unit := do
  let operand ← lift (Exec.source i)
  let src ← lift (Exec.read operand .word)
  let dst := Size.word.truncate (← lift (Exec.readData i.highRegister))
  let product ←
    match s with
    | .unsigned => result (product? src dst)
    | .signed => pure (Size.word.signExtend src * Size.word.signExtend dst)
  lift (Exec.writeData i.highRegister product .long)
  lift (Exec.changeFlags (.logical product) .long)

/-- `DIVU`, `DIVS`. -/
def divide (s : Signedness) (i : Instruction) : CheckedExec Unit := do
  let operand ← lift (Exec.source i)
  let divisor ← lift (Exec.read operand .word)
  if divisor = 0 then
    throw (.trap .divideByZero)
  let dividend ← lift (Exec.readData i.highRegister)
  let packed? ← result
    (match s with
    | .unsigned => quotient? dividend divisor
    | .signed => signedQuotient? dividend (divisor.setWidth 16))
  match packed? with
  | some packed =>
    lift (Exec.writeData i.highRegister packed .long)
    lift (Exec.changeFlags (.logical packed) .word)
  | none =>
    lift (Exec.setFlag Status.overflow true)
    lift (Exec.setFlag Status.carry false)

/-- `ABCD`, `SBCD`. -/
def decimal (op : AddSub) (i : Instruction) : CheckedExec Unit := do
  let (src, dst) ← lift (Exec.extendedPair i .byte)
  let s := (← lift (Exec.read src .byte)).setWidth 8
  let d := (← lift (Exec.read dst .byte)).setWidth 8
  let x ← lift Exec.extend
  let (packed, carried) ← result
    (match op with
    | .add => decimalSum? d s x
    | .sub => decimalDifference? d s x)
  lift (Exec.write dst .byte (packed.setWidth 32))
  lift (Exec.modifyStatus (PackedDecimal.flags · packed carried))

/-- `NBCD`. -/
def nbcd (i : Instruction) : CheckedExec Unit := do
  let operand ← lift (Exec.destination i)
  let v := (← lift (Exec.read operand .byte)).setWidth 8
  let x ← lift Exec.extend
  let (packed, borrowed) ← result (decimalDifference? 0 v x)
  lift (Exec.write operand .byte (packed.setWidth 32))
  lift (Exec.modifyStatus (PackedDecimal.flags · packed borrowed))

/-- A single bit, tested and changed. -/
def bit (op : BitOp) (number : Long) (i : Instruction) : CheckedExec Unit := do
  let operand ← lift (Exec.destination i)
  let mask ← result (bitMask? operand number)
  let v ← lift (Exec.read operand i.size)
  lift (Exec.setFlag Status.zero (v &&& mask = 0))
  match op.apply v mask with
  | some changed => lift (Exec.write operand i.size changed)
  | none => return ()

/-- A single bit, by a number in the instruction. -/
def bitStatic (op : BitOp) (i : Instruction) : CheckedExec Unit :=
  bit op (i.extension.word.setWidth 32) i

/-- A single bit, by a number in a register. -/
def bitDynamic (op : BitOp) (i : Instruction) : CheckedExec Unit := do
  let number ← lift (Exec.readData i.highRegister)
  bit op number i

/-- `MOVEM` to memory. The registers are all found before the first transfer, so that no trap of a
    transfer hides one that is not found. -/
def movemStore (i : Instruction) : CheckedExec Unit := do
  let mask := i.extension.word
  match ← lift (Exec.movemMode i) with
  | .preDecrement n =>
    let start ← lift (Exec.readAddress n)
    let regs ← result (registers? true mask)
    let last ← lift (Exec.storeDown i.size regs start)
    lift (Exec.writeAddress n last)
  | _ =>
    let start ← lift (Exec.control i.destination)
    let regs ← result (registers? false mask)
    let _ ← lift (Exec.storeUp i.size regs start)

/-- `MOVEM` from memory. -/
def movemLoad (i : Instruction) : CheckedExec Unit := do
  let mask := i.extension.word
  match ← lift (Exec.movemMode i) with
  | .postIncrement n =>
    let start ← lift (Exec.readAddress n)
    let regs ← result (registers? false mask)
    let past ← lift (Exec.loadUp i.size regs start)
    lift (Exec.writeAddress n past)
  | _ =>
    let start ← lift (Exec.control i.destination)
    let regs ← result (registers? false mask)
    let _ ← lift (Exec.loadUp i.size regs start)

/-- `MOVEM`. -/
def movem (i : Instruction) : CheckedExec Unit :=
  if i.opcode.getLsbD 10 then movemLoad i else movemStore i

/-- Stores bytes, each at its own address. -/
def storeBytes : List (Byte × Address) → CheckedExec Unit
  | [] => return ()
  | (b, a) :: rest => do
    lift (Exec.writeMemory a .byte (b.setWidth 32))
    storeBytes rest

/-- Loads bytes onto the low end of `acc`. -/
def loadBytes : List Address → Long → CheckedExec Long
  | [], acc => return acc
  | a :: rest, acc => do
    let b ← lift (Exec.readMemory a .byte)
    let acc ← result (shiftedIn? acc b)
    loadBytes rest acc

/-- `MOVEP`. -/
def movep (i : Instruction) : CheckedExec Unit := do
  let base := (← lift (Exec.readAddress i.lowRegister)) + Exec.wordDistance i
  let addresses ← result (alternate? i.size.bytes base)
  if i.opcode.getLsbD 7 then
    let v ← lift (Exec.readData i.highRegister)
    let bytes ← result (storedBytes? v i.size)
    storeBytes (bytes.zip addresses)
  else
    let v ← loadBytes addresses 0
    lift (Exec.writeData i.highRegister v i.size)

/-- What an instruction does with plain operators. All other operations have none. -/
def execute (i : Instruction) : CheckedExec Unit :=
  match i.operation with
  | .bitStatic op => bitStatic op i
  | .bitDynamic op => bitDynamic op i
  | .multiply s => multiply s i
  | .divide s => divide s i
  | .decimal op => decimal op i
  | .nbcd => nbcd i
  | .movep => movep i
  | .movem => movem i
  | .bsr => bsr i
  | .jsr => jsr i
  | .rts => rts
  | _ => lift i.execute

/-! ## 3. Operations that always have a result -/

section

variable (i : Instruction)

theorem multiply_eq (s : Signedness) : multiply s i = lift (Exec.multiply s i) := by
  unfold multiply Exec.multiply
  simp only [lift_bind]
  refine bind_congr fun operand => lift_read_congr fun src hsrc => bind_congr fun dst => ?_
  cases s with
  | unsigned =>
    dsimp only
    rw [product?_eq hsrc (Size.truncate_truncate ..)]
    rfl
  | signed => rfl

theorem divide_eq (s : Signedness) : divide s i = lift (Exec.divide s i) := by
  unfold divide Exec.divide
  simp only [lift_bind]
  refine bind_congr fun operand => lift_read_congr fun divisor hdivisor => ?_
  by_cases h0 : divisor = 0
  · rw [if_pos h0, if_pos h0]
    rfl
  · -- the divisor was read as a word, so its low word is all of it
    have hword : divisor.setWidth 16 ≠ 0 := fun hzero => h0 (by
      rw [← hdivisor, Size.truncate_eq_setWidth]
      exact congrArg (·.setWidth 32) hzero)
    rw [if_neg h0, if_neg h0, lift_bind]
    refine bind_congr fun dividend => ?_
    cases s with
    | unsigned =>
      dsimp only
      rw [quotient?_eq h0, result_some, pure_bind]
      cases quotientUnsigned? dividend divisor <;> rfl
    | signed =>
      dsimp only
      rw [signedQuotient?_eq hword, result_some, pure_bind]
      cases quotientSigned? dividend (divisor.setWidth 16) <;> rfl

theorem decimal_eq (op : AddSub) : decimal op i = lift (Exec.decimal op i) := by
  unfold decimal Exec.decimal
  simp only [lift_bind]
  refine bind_congr fun pair => bind_congr fun s => bind_congr fun d => bind_congr fun x => ?_
  cases op with
  | add =>
    dsimp only
    rw [decimalSum?_eq]
    rfl
  | sub =>
    dsimp only
    rw [decimalDifference?_eq]
    rfl

theorem nbcd_eq : nbcd i = lift (Exec.nbcd i) := by
  unfold nbcd Exec.nbcd
  simp only [lift_bind]
  refine bind_congr fun operand => bind_congr fun v => bind_congr fun x => ?_
  rw [decimalDifference?_eq]
  rfl

theorem bit_eq (op : BitOp) (number : Long) : bit op number i = lift (Exec.bit op number i) := by
  unfold bit Exec.bit
  simp only [lift_bind]
  refine bind_congr fun operand => ?_
  rw [bitMask?_eq, result_some, pure_bind]
  refine bind_congr fun v => bind_congr fun _ => ?_
  cases op.apply v (Exec.bitMask operand number) <;> rfl

theorem bitDynamic_eq (op : BitOp) : bitDynamic op i = lift (Exec.bitDynamic op i) := by
  unfold bitDynamic Exec.bitDynamic
  rw [lift_bind]
  exact bind_congr fun number => bit_eq i op number

theorem movemStore_eq : movemStore i = lift (Exec.movemStore i) := by
  unfold movemStore Exec.movemStore
  dsimp only
  rw [(registers?_eq _).1, (registers?_eq _).2, result_some, result_some, lift_bind]
  refine bind_congr fun mode => ?_
  have hup : (do
      let start ← lift (Exec.control i.destination)
      let regs ← pure (Register.ofMask i.extension.word)
      let _ ← lift (Exec.storeUp i.size regs start)) = lift (do
      let start ← Exec.control i.destination
      let _ ← Exec.storeUp i.size (Register.ofMask i.extension.word) start) := by
    simp only [lift_bind, pure_bind, lift_pure]
  cases mode with
  | preDecrement n =>
    simp only [lift_bind, pure_bind]
  | _ => exact hup

theorem movemLoad_eq : movemLoad i = lift (Exec.movemLoad i) := by
  unfold movemLoad Exec.movemLoad
  dsimp only
  rw [(registers?_eq _).1, result_some, lift_bind]
  refine bind_congr fun mode => ?_
  have hup : (do
      let start ← lift (Exec.control i.destination)
      let regs ← pure (Register.ofMask i.extension.word)
      let _ ← lift (Exec.loadUp i.size regs start)) = lift (do
      let start ← Exec.control i.destination
      let _ ← Exec.loadUp i.size (Register.ofMask i.extension.word) start) := by
    simp only [lift_bind, pure_bind, lift_pure]
  cases mode with
  | postIncrement n =>
    simp only [lift_bind, pure_bind]
  | _ => exact hup

theorem movem_eq : movem i = lift (Exec.movem i) := by
  unfold movem Exec.movem
  rw [movemLoad_eq, movemStore_eq]
  split <;> rfl

theorem storeBytes_eq (bytes : List Byte) (a : Address) :
    storeBytes (bytes.zip (alternate bytes.length a)) = lift (Exec.storeAlternate bytes a) := by
  induction bytes generalizing a with
  | nil => rfl
  | cons b bytes ih =>
    show (lift _ >>= fun _ => storeBytes (bytes.zip (alternate bytes.length (a + 2)))) = _
    rw [ih, Exec.storeAlternate, lift_bind]

theorem loadBytes_eq (count : Nat) (a : Address) (acc : Long) :
    loadBytes (alternate count a) acc = lift (Exec.loadAlternate count a acc) := by
  induction count generalizing a acc with
  | zero => rfl
  | succ count ih =>
    rw [alternate, loadBytes, Exec.loadAlternate, lift_bind]
    refine bind_congr fun b => ?_
    rw [shiftedIn?_eq, result_some, pure_bind, ih]

theorem movep_eq : movep i = lift (Exec.movep i) := by
  unfold movep Exec.movep
  rw [lift_bind]
  refine bind_congr fun start => ?_
  dsimp only
  rw [alternate?_eq, result_some, pure_bind]
  split
  · rw [lift_bind]
    refine bind_congr fun v => ?_
    rw [storedBytes?_eq, result_some, pure_bind, ← storeBytes_eq, Memory.length_operandBytes]
  · rw [loadBytes_eq, lift_bind]

end

/-! ## 4. Calls and returns -/

section

variable {i : Instruction}

/-- A return has a call to take off the count. -/
theorem rts_eq : rts = lift Exec.rts := by
  funext m
  show (if m.callDepth = 0 then _ else _ : CheckedExec Unit) m = _
  by_cases h0 : m.callDepth = 0
  · rw [if_pos h0]
    unfold lift
    rw [Exec.rts_of_no_call h0]
    rfl
  · rw [if_neg h0, run_bind]
    unfold lift
    rw [Exec.rts_eq_of_call h0, run_bind]
    cases hpop : Exec.popLong m with
    | error t m₁ => rfl
    | ok pc m₁ =>
      have hkept : m₁.callDepth = m.callDepth :=
        (Exec.touches_popLong.changed hpop).callDepth_eq (by simp)
      have hone : (1 : BitVec 32).toNat ≤ m₁.callDepth.toNat := by
        rw [hkept]
        bv_omega
      show (result (sub? m₁.callDepth 1) >>= _) { m₁ with registers := m₁.registers.setPc pc } = _
      rw [sub?_of_le hone, result_some, pure_bind]
      rfl

/-- A checked action that does the same as an action which makes so many calls, except that it has
    no result where the count has no room for them. -/
def CountsCalls (calls : Nat) (x : CheckedExec Unit) (y : Exec Unit) : Prop := ∀ m,
  match y m with
  | .error t m' => x m = .error (.trap t) m'
  | .ok _ m' =>
    if m.callDepth.toNat + calls < 2 ^ 32 then x m = .ok () m'
    else ∃ m₁, x m = .error .arithmetic m₁

/-- The count has room for no call. -/
theorem countsCalls_lift (y : Exec Unit) : CountsCalls 0 (lift y) y := by
  intro m
  unfold lift
  cases y m with
  | error t m₁ => rfl
  | ok _ m₁ =>
    show if m.callDepth.toNat < 2 ^ 32 then _ else _
    rw [if_pos m.callDepth.isLt]

theorem countsCalls_call (i : Instruction) : CountsCalls 1 (call i) (Exec.call i) := by
  intro m
  unfold call Exec.call
  rw [run_bind, run_bind]
  unfold lift
  cases hpush : Exec.pushLong i.nextAddress m with
  | error t m₁ => rfl
  | ok _ m₁ =>
    -- the push leaves the count alone
    have hkept : m₁.callDepth = m.callDepth :=
      ((Exec.touches_pushLong _).changed hpush).callDepth_eq (by simp)
    show if m.callDepth.toNat + 1 < 2 ^ 32 then (result (add? m₁.callDepth 1) >>= _) m₁ = _
      else ∃ m₂, (result (add? m₁.callDepth 1) >>= _) m₁ = _
    rw [← hkept]
    by_cases hroom : m₁.callDepth.toNat + 1 < 2 ^ 32
    · rw [if_pos hroom, add?_of_lt hroom, result_some, pure_bind]
      rfl
    · rw [if_neg hroom, add?_eq_none_iff.mpr (Nat.le_of_not_lt hroom)]
      exact ⟨m₁, rfl⟩

/-- A jump behind the call does not fail. -/
theorem CountsCalls.jump {calls : Nat} {x : CheckedExec Unit} {y : Exec Unit}
    (h : CountsCalls calls x y) (a : Address) :
    CountsCalls calls (x >>= fun _ => lift (Exec.jump a)) (y >>= fun _ => Exec.jump a) := by
  intro m
  have hm := h m
  rw [run_bind, run_bind]
  cases hy : y m with
  | error t m₁ =>
    rw [hy] at hm
    dsimp only at hm ⊢
    rw [hm]
  | ok _ m₁ =>
    rw [hy] at hm
    change if _ then _ else _ at hm
    show if _ then _ else _
    split at hm
    next hroom =>
      rw [if_pos hroom, hm]
      rfl
    next hfull =>
      obtain ⟨m₂, hm₂⟩ := hm
      rw [if_neg hfull, hm₂]
      exact ⟨m₂, rfl⟩

theorem countsCalls_bsr (i : Instruction) : CountsCalls 1 (bsr i) (Exec.bsr i) :=
  (countsCalls_call i).jump _

theorem countsCalls_jsr (i : Instruction) : CountsCalls 1 (jsr i) (Exec.jsr i) := by
  intro m
  unfold jsr Exec.jsr
  rw [run_bind, run_bind]
  unfold lift
  cases hcontrol : Exec.control i.source m with
  | error t m₁ => rfl
  | ok target m₁ =>
    have hkept : m₁.callDepth = m.callDepth :=
      ((Exec.touches_control i.source).changed hcontrol).callDepth_eq (by simp)
    have hcall := (countsCalls_call i).jump target m₁
    rw [hkept] at hcall
    exact hcall

/-- **The plain operators of an instruction that is no call always have a result.** -/
theorem execute_eq_lift (h : i.operation.isCall = false) : execute i = lift i.execute := by
  unfold execute
  conv_rhs => unfold Instruction.execute
  generalize hop : i.operation = op at h
  cases op with
  | bsr | jsr => cases h
  | bitStatic op => exact bit_eq i op _
  | bitDynamic op => exact bitDynamic_eq i op
  | multiply s => exact multiply_eq i s
  | divide s => exact divide_eq i s
  | decimal op => exact decimal_eq i op
  | nbcd => exact nbcd_eq i
  | movep => exact movep_eq i
  | movem => exact movem_eq i
  | rts => exact rts_eq
  | _ =>
    dsimp only
    unfold Instruction.execute
    rw [hop]

/-- **An instruction has a result exactly if the count has room for the calls that it makes.** -/
theorem countsCalls_execute (i : Instruction) :
    CountsCalls (if i.operation.isCall then 1 else 0) (execute i) i.execute := by
  cases hcall : i.operation.isCall with
  | false =>
    rw [execute_eq_lift hcall]
    exact countsCalls_lift i.execute
  | true =>
    unfold execute Instruction.execute
    generalize i.operation = op at hcall
    cases op with
    | bsr => exact countsCalls_bsr i
    | jsr => exact countsCalls_jsr i
    | _ => cases hcall

end

end CheckedExec

end Mc68000
