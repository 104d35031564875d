import Mc68000.Proofs.Confinement.Execute
import Mc68000.Run

/-!
# What an instruction stores

Memory changes inside one block, which the instruction and the registers tell beforehand. That
holds of an instruction that traps too.

* `Instruction.stride_written` -- but for `MOVEP`, the operands of the block lie end to end;
* `Instruction.storesIn_execute` -- **an instruction stores in its block at most**, whether it
  succeeds or traps;
* `Instruction.memory_kept_outside` -- the same of every instruction that is fetched, with the bytes
  of the block.
-/

namespace Mc68000

namespace Instruction

open Exec

variable {i : Instruction} {layout : Layout} {b : Block} {r : Registers}

/-! ## 1. The block -/

theorem stride_fieldBlock {ea? : Option EffectiveAddress} {size : Size}
    (h : b ∈ r.fieldBlock? ea? size) : b.stride = b.size.bytes := by
  obtain ⟨p, _, hp⟩ := Option.bind_eq_some_iff.mp h
  unfold Operand.block? at hp
  split at hp
  · cases hp; rfl
  · cases hp

theorem stride_movemBlock (h : b ∈ i.movemBlock? r) : b.stride = b.size.bytes := by
  unfold movemBlock? at h
  split at h
  · cases h
  · obtain ⟨ea, _, hea⟩ := Option.bind_eq_some_iff.mp h
    split at hea <;> cases hea <;> rfl

/-- Only `MOVEP` leaves bytes out. -/
theorem stride_written (hop : i.operation ≠ .movep) (h : b ∈ i.written r) :
    b.stride = b.size.bytes := by
  unfold written at h
  cases hop' : i.operation with
  | bsr | jsr | pea | link => rw [hop'] at h; cases h; rfl
  | movem => rw [hop'] at h; exact stride_movemBlock h
  | movep => exact absurd hop' hop
  | arithExtended | decimal =>
    rw [hop'] at h
    dsimp only at h
    split at h <;> cases h
    rfl
  | shiftMemory => rw [hop'] at h; exact stride_fieldBlock h
  | _ =>
    rw [hop'] at h
    dsimp only at h
    split at h
    · exact stride_fieldBlock h
    · cases h

/-! ## 2. Execution -/

/-- **An instruction stores in its block at most**, whether it succeeds or traps. -/
theorem storesIn_execute (hd : i.Decoded layout) (m : Machine) :
    StoresIn m (i.written m.registers) i.execute := by
  by_cases hmovem : i.operation = .movem
  · unfold written execute
    rw [hmovem]
    exact storesIn_movem i m
  by_cases hmovep : i.operation = .movep
  · unfold written execute
    rw [hmovep]
    exact storesIn_movep i m
  have htouches := i.touches_execute m
  unfold StoresIn
  cases hx : i.execute m with
  | error t m' =>
    rw [hx] at htouches
    have hmemory : m'.memory = m.memory :=
      htouches.memory_eq fun hp => by simpa [hmovem, hmovep] using Operation.mem_leaves hp
    exact hmemory ▸ .refl _ _
  | ok u m' =>
    by_cases hregisters : i.operation ∈ [.exg, .unlk, .moveUsp]
    · rw [hx] at htouches
      have hmemory : m'.memory = m.memory := by
        refine htouches.memory_eq ?_
        simp only [List.mem_cons, List.not_mem_nil, or_false] at hregisters
        rcases hregisters with h | h | h <;> rw [h] <;> simp [Operation.touches]
      exact hmemory ▸ .refl _ _
    · have hsettles : i.operation ∉ [.movem, .exg, .unlk, .moveUsp] :=
        List.not_mem_cons_of_ne_of_not_mem hmovem hregisters
      exact (settles_execute hd hsettles m u m' hx).memory

/-- **Memory stays outside the block of an instruction**, and so does its capacity. Unless every
    second byte is left out, the block is one run of bytes from where it starts, as far as it does
    not pass the last address. -/
theorem memory_kept_outside {c : Code} {pc pc' : Address} (hfetch : c.fetch pc = .ok (some i) pc')
    (m : Machine) :
    (match i.execute m with
      | .ok _ m' | .error _ m' =>
        m'.memory.capacity = m.memory.capacity ∧
          ∀ j, (∀ b ∈ i.written m.registers, ¬ b.Covers j) →
            m'.memory.byte j = m.memory.byte j) ∧
      ∀ b ∈ i.written m.registers, i.operation ≠ .movep →
        b.start.toNat + b.count * b.size.bytes ≤ Long.count →
          ∀ j, b.Covers j ↔ b.start.toNat ≤ j ∧ j < b.start.toNat + b.count * b.size.bytes := by
  obtain ⟨layout, hd⟩ := Code.decoded_of_fetch hfetch
  refine ⟨?_, fun b hb hop hfit j => ?_⟩
  · have hstores := storesIn_execute hd m
    unfold StoresIn at hstores
    cases hx : i.execute m with
    | ok u m' => rw [hx] at hstores; exact ⟨hstores.capacity_eq, hstores.byte_eq⟩
    | error t m' => rw [hx] at hstores; exact ⟨hstores.capacity_eq, hstores.byte_eq⟩
  · have hstride := stride_written hop hb
    rw [← hstride] at hfit ⊢
    exact Block.covers_of_contiguous hstride hfit

/-- `MOVEM.L D0-D2,-(A0)`, at address 8. -/
def saveThree : Instruction :=
  { address := 8, opcode := 0x48E0, operation := .movem, size := .long
    extension := ⟨10, .one 0xE000⟩, source := none
    destination := some ⟨0b100000, ⟨12, .none⟩⟩, length := 4 }

/-- A machine with this instruction and with `A0` right below it. There is room for two registers
    only. -/
def savingThree : Machine :=
  { Machine.new { memoryBytes := 12, traceInstructions := false } with
    registers := (Registers.zeros.writeData 2 0x01020304 .long).writeAddress 0 8 .long
    memory := (Memory.zeros 12).setBytes 8 [0x48, 0xE0, 0xE0, 0x00]
    codeEnd := 12 }

/-- The block passes address zero, and the third store traps. Two registers have been stored, and
    the instruction above them is as it was. -/
theorem memory_kept_outside_saveThree :
    savingThree.code.fetch 8 = .ok (some saveThree) 12 ∧
      saveThree.written savingThree.registers = some ⟨-4, .long, 4, 3⟩ ∧
      ∃ m', saveThree.execute savingThree = .error .addressError m' ∧
        m'.memory.byte 7 = 4 ∧
        ∀ j, 8 ≤ j → j < 12 → m'.memory.byte j = savingThree.memory.byte j := by
  have hfetch : savingThree.code.fetch 8 = .ok (some saveThree) 12 := rfl
  have hblock : saveThree.written savingThree.registers = some ⟨-4, .long, 4, 3⟩ := by decide
  obtain ⟨m', hx, hstored⟩ : ∃ m', saveThree.execute savingThree = .error .addressError m' ∧
      m'.memory.byte 7 = 4 := ⟨_, rfl, by decide⟩
  have hkept := (memory_kept_outside hfetch savingThree).1
  rw [hx] at hkept
  have houtside : ∀ j < 12, 8 ≤ j → ¬ (⟨-4, .long, 4, 3⟩ : Block).Covers j := by decide
  refine ⟨hfetch, hblock, m', hx, hstored, fun j hj hj' => hkept.2 j fun b hb => ?_⟩
  rw [hblock] at hb
  cases hb
  exact houtside j hj' hj

end Instruction

end Mc68000
