import Mc68000.Proofs.AutoModify
import Mc68000.Proofs.FetchWords
import Mc68000.Proofs.RunState
import Mc68000.Proofs.Stack

/-!
# Subroutines and stack frames

What `RTS` undoes of a call, and `UNLK` of a `LINK`, whatever the machine has done in between.

* `Machine.KeepsCall`, `KeepsFrame` -- a later machine, at which what a call, or a `LINK`, has left
  is still there;
* `Code.nextAddress_of_fetch` -- the address past an instruction is where its fetch has ended;
* `Instruction.pushes_of_call`, `pushes_of_link` -- what both leave: one pushed long, and who
  points at it;
* `Instruction.execute_rts_of_call`, `execute_unlk_of_link` -- **the instruction that undoes it**;
* `Instruction.linkage` -- both pairs for instructions that are fetched.
-/

namespace Mc68000

/-! ## 1. Later machines -/

/-- What a call has left at `m` is still there at `k`: the active stack pointer, the count of calls
    and the four bytes that the stack pointer leads to. Anything else may have changed. The mode
    does not matter but for which stack pointer is the active one. -/
structure Machine.KeepsCall (m k : Machine) : Prop where
  sp_eq : k.registers.sp = m.registers.sp
  callDepth_eq : k.callDepth = m.callDepth
  slot_eq : k.memory.read m.registers.sp .long = m.memory.read m.registers.sp .long

/-- What a `LINK` of an address register has left at `m` is still there at `k`: the register and the
    four bytes that it leads to. Anything else may have changed, also the stack pointer. -/
structure Machine.KeepsFrame (n : Fin 8) (m k : Machine) : Prop where
  frame_eq : k.registers.readAddress n = m.registers.readAddress n
  slot_eq : k.memory.read (m.registers.readAddress n) .long =
    m.memory.read (m.registers.readAddress n) .long

/-- The address past an instruction is past all of its words, and there its fetch has ended. -/
theorem Code.nextAddress_of_fetch {c : Code} {pc past : Address} {i : Instruction}
    (h : c.fetch pc = .ok (some i) past) :
    i.nextAddress = past ∧ past.toNat = pc.toNat + 2 * i.words.length := by
  obtain ⟨haddress, hlength, ⟨g⟩⟩ := groups_of_fetch h
  refine ⟨?_, g.stream.toNat_end⟩
  unfold Instruction.nextAddress
  rw [haddress, hlength, BitVec.ofNat_toNat, BitVec.setWidth_eq, BitVec.add_comm,
    BitVec.sub_add_cancel]

namespace Instruction

open Exec

variable {i j : Instruction} {m m' k : Machine}

/-! ## 2. Calls -/

theorem call_ok (h : call i m = .ok () m') :
    ∃ m₁, push .long i.nextAddress m = .ok () m₁ ∧
      m' = { m₁ with callDepth := m.callDepth + 1 } := by
  have hdepth := callDepth_call h
  obtain ⟨_, m₁, hpush, hcount⟩ := bind_ok h
  refine ⟨m₁, hpush, ?_⟩
  rw [← hdepth]
  cases hcount
  rfl

/-- **A call pushes the address past itself** and counts one more. A target that depends on the
    stack pointer has been found before that. -/
theorem pushes_of_call (hop : i.operation = .bsr ∨ i.operation = .jsr)
    (h : i.execute m = .ok () m') :
    ∃ m₁, push .long i.nextAddress m = .ok () m₁ ∧ m'.registers.sp = m₁.registers.sp ∧
      m'.memory = m₁.memory ∧ m'.callDepth = m.callDepth + 1 := by
  unfold execute at h
  rcases hop with hop | hop
  · rw [hop] at h
    obtain ⟨_, m₂, hcall, hbranch⟩ := bind_ok h
    obtain ⟨m₁, hpush, rfl⟩ := call_ok hcall
    cases hbranch
    exact ⟨m₁, hpush, rfl, rfl, rfl⟩
  · rw [hop] at h
    obtain ⟨target, m₀, hcontrol, hrest⟩ := bind_ok h
    obtain ⟨rfl, -⟩ := control_ok hcontrol i.size
    obtain ⟨_, m₂, hcall, hjump⟩ := bind_ok hrest
    obtain ⟨m₁, hpush, rfl⟩ := call_ok hcall
    cases hjump
    exact ⟨m₁, hpush, rfl, rfl, rfl⟩

/-- **`RTS` undoes a call.** -/
theorem execute_rts_of_call (hop : i.operation = .bsr ∨ i.operation = .jsr)
    (h : i.execute m = .ok () m') (hdepth : m.callDepth.toNat < 2 ^ 32 - 1)
    (hkeeps : m'.KeepsCall k) (hrts : j.operation = .rts) :
    j.execute k = .ok () { k with
      registers := (k.registers.setSp m.registers.sp).setPc i.nextAddress
      callDepth := m.callDepth } := by
  obtain ⟨m₁, hpush, hsp, hmemory, hcount⟩ := pushes_of_call hop h
  have hslot := hkeeps.slot_eq
  rw [hsp, hmemory] at hslot
  have hpop := pop_of_push hpush (hkeeps.sp_eq.trans hsp) hslot
  rw [Size.truncate_long] at hpop
  have hopen : k.callDepth ≠ 0 := by
    rw [hkeeps.callDepth_eq, hcount]
    intro hzero
    bv_omega
  have hback : k.callDepth - 1 = m.callDepth := by
    rw [hkeeps.callDepth_eq, hcount, BitVec.add_sub_cancel]
  unfold execute
  rw [hrts]
  show rts k = _
  rw [rts_eq_of_call hopen, ← hback]
  exact bind_eq hpop

/-! ## 3. Frames -/

/-- **`LINK` pushes the register** and points it at what it has pushed. -/
theorem pushes_of_link (hop : i.operation = .link) (hn : i.lowRegister ≠ Registers.stackNumber)
    (h : i.execute m = .ok () m') :
    ∃ m₁, push .long (m.registers.readAddress i.lowRegister) m = .ok () m₁ ∧
      m'.registers.readAddress i.lowRegister = m₁.registers.sp ∧ m'.memory = m₁.memory := by
  unfold execute at h
  rw [hop] at h
  obtain ⟨saved, _, hsaved, hrest⟩ := bind_ok h
  cases hsaved
  obtain ⟨_, m₁, hpush, hrest⟩ := bind_ok hrest
  refine ⟨m₁, hpush, ?_, ?_⟩
  · cases hrest
    show ((m₁.registers.writeAddress i.lowRegister m₁.registers.sp .long).setSp _).readAddress
      i.lowRegister = _
    rw [Registers.readAddress_setSp, if_neg hn, Registers.readAddress_writeAddress, if_pos rfl,
      Size.merge_long]
  · cases hrest
    rfl

/-- **`UNLK` undoes a `LINK`** of the same register. -/
theorem execute_unlk_of_link (hop : i.operation = .link)
    (hn : i.lowRegister ≠ Registers.stackNumber) (h : i.execute m = .ok () m')
    (hkeeps : m'.KeepsFrame i.lowRegister k) (hunlk : j.operation = .unlk)
    (hregister : j.lowRegister = i.lowRegister) :
    j.execute k = .ok () { k with
      registers := (k.registers.setSp m.registers.sp).writeAddress i.lowRegister
        (m.registers.readAddress i.lowRegister) .long } := by
  obtain ⟨m₁, hpush, hframe, hmemory⟩ := pushes_of_link hop hn h
  have hslot := hkeeps.slot_eq
  rw [hframe, hmemory] at hslot
  -- the pop takes place behind the move of the stack pointer to the frame
  have hsp : (k.registers.setSp (k.registers.readAddress i.lowRegister)).sp = m₁.registers.sp := by
    rw [Registers.sp_setSp, hkeeps.frame_eq, hframe]
  have hpop := pop_of_push
    (k := { k with registers := k.registers.setSp (k.registers.readAddress i.lowRegister) })
    hpush hsp hslot
  rw [Size.truncate_long, Registers.setSp_setSp] at hpop
  unfold execute
  rw [hunlk, ← hregister]
  rw [← hregister] at hpop
  exact bind_eq hpop

/-! ## 4. Both pairs -/

/-- **A call and its `RTS`, a `LINK` and its `UNLK`.** A call that succeeds, with room for it in the
    count, is undone by an `RTS` at any later machine that keeps what it has left: the program
    counter goes past all words of the call, the stack pointer and the count are those before the
    call, and the rest of the later machine stays. A `LINK` of a register other than the stack
    pointer is undone by an `UNLK` of that register at any later machine that keeps the register and
    what it leads to, wherever the stack pointer is then. -/
theorem linkage {c : Code} {pc past : Address} (hfetch : c.fetch pc = .ok (some i) past)
    (h : i.execute m = .ok () m') :
    (i.operation = .bsr ∨ i.operation = .jsr → m.callDepth.toNat < 2 ^ 32 - 1 →
      past.toNat = pc.toNat + 2 * i.words.length ∧
      ∀ (k : Machine) (j : Instruction), m'.KeepsCall k → j.operation = .rts →
        j.execute k = .ok () { k with
          registers := (k.registers.setSp m.registers.sp).setPc past
          callDepth := m.callDepth }) ∧
    (i.operation = .link → i.lowRegister ≠ Registers.stackNumber →
      ∀ (k : Machine) (j : Instruction), m'.KeepsFrame i.lowRegister k →
        j.operation = .unlk → j.lowRegister = i.lowRegister →
        ∃ r, j.execute k = .ok () { k with registers := r } ∧
          r = (k.registers.setSp m.registers.sp).writeAddress i.lowRegister
            (m.registers.readAddress i.lowRegister) .long ∧
          r.readAddress i.lowRegister = m.registers.readAddress i.lowRegister ∧
          r.sp = m.registers.sp) := by
  obtain ⟨hnext, hwords⟩ := Code.nextAddress_of_fetch hfetch
  constructor
  · intro hop hdepth
    refine ⟨hwords, fun k j hkeeps hrts => ?_⟩
    rw [← hnext]
    exact execute_rts_of_call hop h hdepth hkeeps hrts
  · intro hop hn k j hkeeps hunlk hregister
    refine ⟨_, execute_unlk_of_link hop hn h hkeeps hunlk hregister, rfl, ?_, ?_⟩
    · rw [Registers.readAddress_writeAddress, if_pos rfl, Size.merge_long]
    · rw [← Registers.readAddress_stackNumber, Registers.readAddress_writeAddress,
        if_neg (Ne.symm hn), Registers.readAddress_stackNumber, Registers.sp_setSp]

/-- `JSR (A7)`. -/
def callThroughStack : Instruction :=
  { address := 0, opcode := 0x4E97, operation := .jsr, size := .long, extension := ⟨2, .none⟩
    source := some ⟨0b010111, ⟨2, .none⟩⟩, destination := none, length := 2 }

/-- `LINK A6,#-4`, behind it. -/
def openFrame : Instruction :=
  { address := 2, opcode := 0x4E56, operation := .link, size := .word
    extension := ⟨4, .one 0xFFFC⟩, source := none, destination := none, length := 4 }

/-- `RTS`. -/
def returnFromCall : Instruction :=
  { address := 6, opcode := 0x4E75, operation := .rts, size := .word, extension := ⟨8, .none⟩
    source := none, destination := none, length := 2 }

/-- `UNLK A6`. -/
def closeFrame : Instruction :=
  { address := 8, opcode := 0x4E5E, operation := .unlk, size := .word, extension := ⟨10, .none⟩
    source := none, destination := none, length := 2 }

/-- A machine with all four as its program and its stack behind them. -/
def aboutToCall : Machine :=
  { Machine.new { memoryBytes := 16, traceInstructions := false } with
    registers := { Registers.zeros with usp := 16 }.writeAddress 6 7 .long
    memory := (Memory.zeros 16).setBytes 0
      [0x4E, 0x97, 0x4E, 0x56, 0xFF, 0xFC, 0x4E, 0x75, 0x4E, 0x5E]
    codeEnd := 10 }

/-- The call jumps to where the stack pointer was and comes back. The frame is closed after the
    stack pointer has been lost. -/
theorem linkage_through_stack :
    aboutToCall.code.fetch 0 = .ok (some callThroughStack) 2 ∧
      aboutToCall.code.fetch 2 = .ok (some openFrame) 6 ∧
      (∃ m' k', callThroughStack.execute aboutToCall = .ok () m' ∧ m'.registers.pc = 16 ∧
        returnFromCall.execute
          { m' with registers := m'.registers.writeData 0 5 .long } = .ok () k' ∧
        k'.registers.pc = 2 ∧ k'.registers.sp = 16 ∧ k'.callDepth = 0) ∧
      ∃ m' r, openFrame.execute aboutToCall = .ok () m' ∧ m'.registers.sp = 8 ∧
        closeFrame.execute { m' with registers := m'.registers.setSp 1 } =
          .ok () { m' with registers := r } ∧
        r.readAddress 6 = 7 ∧ r.sp = 16 := by
  have hcall : aboutToCall.code.fetch 0 = .ok (some callThroughStack) 2 := rfl
  have hlink : aboutToCall.code.fetch 2 = .ok (some openFrame) 6 := rfl
  refine ⟨hcall, hlink, ?_, ?_⟩
  · obtain ⟨m', h, hpc⟩ : ∃ m', callThroughStack.execute aboutToCall = .ok () m' ∧
      m'.registers.pc = 16 := ⟨_, rfl, rfl⟩
    obtain ⟨-, hreturn⟩ := (linkage hcall h).1 (.inr rfl) (by decide)
    refine ⟨m', _, h, hpc, hreturn _ returnFromCall ⟨rfl, rfl, rfl⟩ rfl, rfl, ?_, rfl⟩
    have hback : aboutToCall.registers.sp = 16 := by decide
    rw [← hback]
    exact Registers.sp_setSp ..
  · obtain ⟨m', h, hsp⟩ : ∃ m', openFrame.execute aboutToCall = .ok () m' ∧
      m'.registers.sp = 8 := ⟨_, rfl, by decide⟩
    have hkeeps : m'.KeepsFrame 6 { m' with registers := m'.registers.setSp 1 } := by
      refine ⟨?_, rfl⟩
      dsimp only
      rw [Registers.readAddress_setSp, if_neg (by decide)]
    obtain ⟨r, hunlk, -, hframe, hback⟩ :=
      (linkage hlink h).2 rfl (by decide) _ closeFrame hkeeps rfl rfl
    exact ⟨m', r, h, hsp, hunlk, hframe.trans (by decide), hback.trans (by decide)⟩

end Instruction

end Mc68000
