import Mc68000.Proofs.Confinement
import Mc68000.Proofs.Footprint.Operations

/-!
# Where many values are stored

The transfers of `MOVEM` and `MOVEP` can stop half-way, so what they store is said of a trap too.

* `Exec.StoresIn` -- an action that stores in a block at most, whether it succeeds or traps;
* `storesIn_storeUp`, `storesIn_storeDown`, `storesIn_storeAlternate` -- **each loop stores one
  operand after the other of a block**, by induction on what is left to store;
* `Instruction.movemBlock?`, `movepBlock?` -- the block of either operation;
* `storesIn_movem`, `storesIn_movep`, `settles_movep` -- **they store nowhere else**.
-/

namespace Mc68000

/-! ## 1. Loops -/

theorem Block.address_succ (b : Block) (k : Nat) :
    b.address (k + 1) = b.address k + BitVec.ofNat 32 b.stride := by
  rw [Block.address, Block.address, Nat.succ_mul, BitVec.ofNat_add, BitVec.add_assoc]

namespace Exec

variable {α β : Type} {x : Exec α} {f : α → Exec β} {ok trap : List Part} {block : Option Block}
  {m : Machine}

/-- From a machine the action stores in a block at most, whether it succeeds or traps. -/
def StoresIn (m : Machine) (block : Option Block) (x : Exec α) : Prop :=
  match x m with
  | .ok _ m' | .error _ m' => m.memory.SameOutside block m'.memory

/-- If it succeeds, memory is kept outside the block. -/
theorem StoresIn.sameOutside {a : α} {m' : Machine} (hx : StoresIn m block x)
    (h : x m = .ok a m') : m.memory.SameOutside block m'.memory := by
  unfold StoresIn at hx
  rw [h] at hx
  exact hx

theorem StoresIn.bind (hx : StoresIn m block x)
    (hf : ∀ a m', x m = .ok a m' → StoresIn m' block (f a)) : StoresIn m block (x >>= f) := by
  unfold StoresIn at hx ⊢
  rw [run_bind]
  cases hxm : x m with
  | error t m' => rw [hxm] at hx; exact hx
  | ok a m' =>
    rw [hxm] at hx
    have hrest := hf a m' hxm
    unfold StoresIn at hrest
    dsimp only at hx ⊢
    cases hfm : f a m' with
    | ok b m'' => rw [hfm] at hrest; exact hx.trans hrest
    | error t m'' => rw [hfm] at hrest; exact hx.trans hrest

/-- An action without memory in its footprint stores nowhere. -/
theorem storesIn_of_touches (hx : Touches ok trap x) (hok : Part.memory ∉ ok)
    (htrap : Part.memory ∉ trap) : StoresIn m block x := by
  have hm := hx m
  unfold StoresIn
  cases hxm : x m with
  | ok a m' => rw [hxm] at hm; exact hm.memory_eq hok ▸ .refl _ _
  | error t m' => rw [hxm] at hm; exact hm.memory_eq htrap ▸ .refl _ _

theorem storesIn_of_commits (hx : Commits ok x) (hok : Part.memory ∉ ok) : StoresIn m block x :=
  storesIn_of_touches (hx.safe : Touches ok [] x) hok List.not_mem_nil

/-- Storing an operand of a block. -/
theorem storesIn_writeMemory {b : Block} {k : Nat} (hk : k < b.count) (v : Long) :
    StoresIn m (some b) (writeMemory (b.address k) b.size v) := by
  unfold StoresIn writeMemory
  by_cases ha : accessible (b.address k) b.size m.memory.capacity = true
  · rw [if_pos ha]
    exact Memory.sameOutside_store m.memory v fun _ hj hj' => ⟨k, hk, hj, hj'⟩
  · rw [if_neg ha]
    exact .refl _ _

/-- **Ascending stores follow the block upward**, from operand `k` on. -/
theorem storesIn_storeUp_address {b : Block} (hstride : b.stride = b.size.bytes)
    (regs : List Register) (k : Nat) (hk : k + regs.length ≤ b.count) (m : Machine) :
    StoresIn m (some b) (storeUp b.size regs (b.address k)) := by
  induction regs generalizing k m with
  | nil => exact .refl _ _
  | cons reg regs ih =>
    rw [List.length_cons] at hk
    refine (storesIn_of_commits (commits_readRegister reg) List.not_mem_nil).bind fun v m₁ _ => ?_
    refine (storesIn_writeMemory (by omega) v).bind fun _ m₂ _ => ?_
    rw [← hstride, ← b.address_succ]
    exact ih (k + 1) (by omega) m₂

/-- **Descending stores follow the block downward**, as many operands as are left. -/
theorem storesIn_storeDown_address {b : Block} (hstride : b.stride = b.size.bytes)
    (regs : List Register) (hk : regs.length ≤ b.count) (m : Machine) :
    StoresIn m (some b) (storeDown b.size regs (b.address regs.length)) := by
  induction regs generalizing m with
  | nil => exact .refl _ _
  | cons reg regs ih =>
    rw [List.length_cons] at hk ⊢
    have hbelow : b.address (regs.length + 1) - BitVec.ofNat 32 b.size.bytes =
        b.address regs.length := by
      rw [b.address_succ, hstride, BitVec.add_sub_cancel]
    unfold storeDown
    dsimp only
    rw [hbelow]
    refine (storesIn_of_commits (commits_readRegister reg) List.not_mem_nil).bind fun v m₁ _ => ?_
    refine (storesIn_writeMemory (by omega) v).bind fun _ m₂ _ => ?_
    exact ih (by omega) m₂

/-- **Alternate bytes follow a block of bytes** with every second address left out. -/
theorem storesIn_storeAlternate_address {b : Block} (hsize : b.size = .byte)
    (hstride : b.stride = 2) (bs : List Byte) (k : Nat) (hk : k + bs.length ≤ b.count)
    (m : Machine) :
    StoresIn m (some b) (storeAlternate bs (b.address k)) := by
  induction bs generalizing k m with
  | nil => exact .refl _ _
  | cons v bs ih =>
    rw [List.length_cons] at hk
    have hnext : b.address k + 2 = b.address (k + 1) := by
      rw [b.address_succ, hstride]
      rfl
    have hwrite : StoresIn m (some b) (writeMemory (b.address k) b.size (v.setWidth 32)) :=
      storesIn_writeMemory (by omega) _
    unfold storeAlternate
    rw [hsize] at hwrite
    rw [hnext]
    exact hwrite.bind fun _ m₁ _ => ih (k + 1) (by omega) m₁

theorem storesIn_storeUp (size : Size) (regs : List Register) (a : Address) (m : Machine) :
    StoresIn m (some ⟨a, size, size.bytes, regs.length⟩) (storeUp size regs a) := by
  have hup := storesIn_storeUp_address (b := ⟨a, size, size.bytes, regs.length⟩) rfl regs 0
    (Nat.le_of_eq (Nat.zero_add _)) m
  rw [Block.address_zero] at hup
  exact hup

theorem storesIn_storeDown (size : Size) (regs : List Register) (a : Address) (m : Machine) :
    StoresIn m
      (some ⟨a - BitVec.ofNat 32 (regs.length * size.bytes), size, size.bytes, regs.length⟩)
      (storeDown size regs a) := by
  have hdown := storesIn_storeDown_address
    (b := ⟨a - BitVec.ofNat 32 (regs.length * size.bytes), size, size.bytes, regs.length⟩) rfl regs
    (Nat.le_refl _) m
  rw [Block.address, BitVec.sub_add_cancel] at hdown
  exact hdown

theorem storesIn_storeAlternate (bs : List Byte) (a : Address) (m : Machine) :
    StoresIn m (some ⟨a, .byte, 2, bs.length⟩) (storeAlternate bs a) := by
  have hbytes := storesIn_storeAlternate_address (b := ⟨a, .byte, 2, bs.length⟩) rfl rfl bs 0
    (Nat.le_of_eq (Nat.zero_add _)) m
  rw [Block.address_zero] at hbytes
  exact hbytes

end Exec

/-! ## 2. Operations -/

namespace Instruction

/-- The block that `MOVEM` stores: with `-(An)` it ends where the register points, otherwise it
    begins at the address that the field leads to. A load stores nothing. -/
def movemBlock? (i : Instruction) (r : Registers) : Option Block :=
  if i.opcode.getLsbD 10 then none
  else
    let count := (maskPositions i.extension.word).length
    i.destination.bind fun ea =>
      match ea.mode? with
      | some (.preDecrement n) =>
        let start := r.readAddress n - BitVec.ofNat 32 (count * i.size.bytes)
        some ⟨start, i.size, i.size.bytes, count⟩
      | some (.control mode) =>
        some ⟨mode.address ea.extension r, i.size, i.size.bytes, count⟩
      | _ => none

/-- The bytes that `MOVEP` stores. A load stores nothing. -/
def movepBlock? (i : Instruction) (r : Registers) : Option Block :=
  if i.opcode.getLsbD 7 then
    some ⟨r.readAddress i.lowRegister + Exec.wordDistance i, .byte, 2, i.size.bytes⟩
  else none

end Instruction

namespace Exec

theorem length_ofMask (mask : Word) : (Register.ofMask mask).length = (maskPositions mask).length :=
  List.length_map ..

theorem length_ofReversedMask (mask : Word) :
    (Register.ofReversedMask mask).length = (maskPositions mask).length := List.length_map ..

theorem storesIn_movemStore {i : Instruction} (hstore : i.opcode.getLsbD 10 = false) (m : Machine) :
    StoresIn m (i.movemBlock? m.registers) (movemStore i) := by
  unfold Instruction.movemBlock? movemStore movemMode control EffectiveAddress.controlAddress
  rw [hstore]
  cases i.destination with
  | none => exact .refl _ _
  | some ea =>
    rw [Option.bind_some]
    dsimp only
    rw [Option.bind_some]
    cases ea.mode? with
    | none => exact .refl _ _
    | some mode =>
      cases mode with
      | preDecrement n =>
        have hdown := storesIn_storeDown i.size (Register.ofReversedMask i.extension.word)
          (m.registers.readAddress n) m
        rw [length_ofReversedMask] at hdown
        exact hdown.bind fun last m₁ _ =>
          storesIn_of_commits (commits_writeAddress n last) (by simp)
      | control mode =>
        have hup := storesIn_storeUp i.size (Register.ofMask i.extension.word)
          (mode.address ea.extension m.registers) m
        rw [length_ofMask] at hup
        exact hup.bind fun _ m₁ _ => .refl _ _
      | _ => exact .refl _ _

theorem storesIn_movem (i : Instruction) (m : Machine) :
    StoresIn m (i.movemBlock? m.registers) (movem i) := by
  unfold movem
  cases hload : i.opcode.getLsbD 10 with
  | true => exact storesIn_of_touches (touches_movemLoad i) (by simp) (by simp)
  | false => exact storesIn_movemStore hload m

theorem storesIn_movep (i : Instruction) (m : Machine) :
    StoresIn m (i.movepBlock? m.registers) (movep i) := by
  unfold movep Instruction.movepBlock?
  cases hstore : i.opcode.getLsbD 7 with
  | true =>
    have hbytes := storesIn_storeAlternate
      (Memory.operandBytes (m.registers.readData i.highRegister) i.size)
      (m.registers.readAddress i.lowRegister + wordDistance i) m
    rw [Memory.length_operandBytes] at hbytes
    exact hbytes
  | false =>
    have hload : Touches [.data] [] (do
        let v ← loadAlternate i.size.bytes
          (m.registers.readAddress i.lowRegister + wordDistance i) 0
        writeData i.highRegister v i.size) :=
      (touches_loadAlternate _ _ _).commit fun v => commits_writeData _ v i.size
    have hnone : StoresIn m none _ := storesIn_of_touches hload (by simp) (by simp)
    exact hnone

/-- `MOVEP` changes no address register. -/
theorem settles_movep (i : Instruction) (m : Machine) :
    Settles m m.registers [] (i.movepBlock? m.registers) (movep i) := by
  intro u m' h
  have hm := (touches_movep i).changed h
  exact hm.confined (by simp) (by simp) ((storesIn_movep i m).sameOutside h) _ _

end Exec

end Mc68000
