import Mathlib.Data.List.FinRange
import Mc68000.Proofs.Confinement.MultipleTransfer
import Mc68000.Proofs.DisjointStores
import Mc68000.Proofs.Execution

/-!
# The block of a register list

`MOVEM` stores a list of registers below an address register, from the last one down, or from an
address on, from the first one up.

* `Register.ofReversedMask_reverse` -- the reversed mask of a list gives the list from its end;
* `Register.block` -- the block that registers fill; `Block.toNat_address_of_accessible` -- its
  addresses ascend below the top of the address space; `Memory.Holds` -- their values can be read
  from it;
* `Exec.storeUp_eq`, `storeDown_eq` -- either loop as stores one after the other, **the one in the
  order of the list, the other backward**;
* `storeUp_ok`, `storeDown_ok`, `storeUp_error`, `storeDown_error` -- what the loops come to;
  `holds_storedList`, `sameOutside_storedList` -- what they leave in the block and outside it;
* `Instruction.MovesList` -- `MOVEM` in one direction with one mode and one mask;
* `Instruction.saves_as_stores` -- **both ways store one block**: what one of them makes of memory
  the other makes of it too.
-/

namespace Mc68000

/-! ## 1. Masks -/

theorem maskPositions_reverse (mask : Word) :
    maskPositions mask.reverse = (maskPositions mask).reverse.map Fin.rev := by
  unfold maskPositions
  rw [← List.filter_reverse, List.finRange_reverse, List.filter_map, List.map_map]
  have hrev : (Fin.rev ∘ Fin.rev : Fin 16 → Fin 16) = id := funext Fin.rev_rev
  rw [hrev, List.map_id]
  refine List.filter_congr fun k _ => ?_
  rw [BitVec.getLsbD_reverse, BitVec.getMsbD_eq_getLsbD, Function.comp_apply, Fin.val_rev]
  simp [k.isLt]

/-- **A reversed mask gives the registers from the end.** -/
theorem Register.ofReversedMask_reverse (mask : Word) :
    Register.ofReversedMask mask.reverse = (Register.ofMask mask).reverse := by
  unfold Register.ofReversedMask Register.ofMask
  rw [maskPositions_reverse, List.map_map, ← List.map_reverse]
  refine List.map_congr_left fun k _ => ?_
  rw [Function.comp_apply, Fin.rev_rev]

/-- Each register is at one position. -/
theorem Register.ofPosition_injective : Function.Injective Register.ofPosition := by
  unfold Function.Injective
  decide

/-- A mask has each of its registers once. -/
theorem Register.nodup_ofMask (mask : Word) : (Register.ofMask mask).Nodup := by
  unfold Register.ofMask maskPositions
  exact ((List.nodup_finRange 16).filter _).map Register.ofPosition_injective

theorem Register.length_ofMask_le (mask : Word) : (Register.ofMask mask).length ≤ 16 := by
  rw [Exec.length_ofMask]
  exact (List.length_filter_le ..).trans (Nat.le_of_eq List.length_finRange)

/-- The registers of a mask do not fill the address space. -/
theorem Register.length_mul_bytes_le (mask : Word) (size : Size) :
    (Register.ofMask mask).length * size.bytes ≤ Long.count := by
  have hbytes : size.bytes ≤ 4 := by cases size <;> decide
  exact (Nat.mul_le_mul (Register.length_ofMask_le mask) hbytes).trans (by decide)

/-! ## 2. Blocks -/

/-- The block that registers fill from an address on. -/
def Register.block (regs : List Register) (size : Size) (a : Address) : Block :=
  ⟨a, size, size.bytes, regs.length⟩

/-- All operands of a block may be accessed. -/
def Block.Accessible (b : Block) (capacity : Nat) : Prop :=
  ∀ k < b.count, accessible (b.address k) b.size capacity = true

instance (b : Block) (capacity : Nat) : Decidable (b.Accessible capacity) :=
  inferInstanceAs (Decidable (∀ k < b.count, _))

/-- **Operands end to end ascend unless they pass the top of the address space**, which they cannot
    in a store that ends below it: there none of them can be accessed across the top, by induction
    on the operands. -/
theorem Block.toNat_address_of_accessible {b : Block} {capacity : Nat}
    (hstride : b.stride = b.size.bytes) (h : b.Accessible capacity)
    (hbelow : capacity < Long.count ∨ b.start.toNat + b.count * b.stride ≤ Long.count)
    (k : Nat) (hk : k < b.count) : (b.address k).toNat = b.start.toNat + k * b.stride := by
  have hpos : 0 < b.stride := by rw [hstride]; cases b.size <;> decide
  rcases hbelow with hcapacity | hfit
  · induction k with
    | zero => rw [b.address_zero, Nat.zero_mul, Nat.add_zero]
    | succ k ih =>
      have hbefore := ih (Nat.lt_of_succ_lt hk)
      have hin := Memory.le_of_accessible (h k (Nat.lt_of_succ_lt hk))
      rw [← hstride] at hin
      have hstride' : b.stride ≤ 4 := by rw [hstride]; cases b.size <;> decide
      unfold Long.count at hcapacity
      rw [b.address_succ, BitVec.toNat_add, BitVec.toNat_ofNat, Nat.succ_mul]
      omega
  · exact toNat_address hfit hk hpos

namespace Memory

variable {memory : Memory} {size : Size} {a : Address} {vs : List Long}

/-- The values, cut to the size, can be read end to end from an address on. -/
def Holds (memory : Memory) (size : Size) (a : Address) (vs : List Long) : Prop :=
  ∀ p ∈ consecutive size a vs, memory.read p.1 size = .ok (size.truncate p.2)

/-- **Values that are stored end to end can be read.** -/
theorem holds_storeEach (hfit : vs.length * size.bytes ≤ Long.count)
    (h : ∀ p ∈ consecutive size a vs, accessible p.1 size memory.capacity = true) :
    (memory.storeEach size (consecutive size a vs)).Holds size a vs := by
  intro p hp
  have hp' := h p hp
  rw [read_of_accessible (by rw [capacity_storeEach]; exact hp')]
  rw [fetch_storeEach (pairwise_consecutive size a vs hfit) hp (le_of_accessible hp')]

end Memory

/-- The operands of a block of registers are those of their values. -/
theorem Block.accessible_iff (regs : List Register) (size : Size) (a : Address)
    (values : Register → Long) (capacity : Nat) :
    (Register.block regs size a).Accessible capacity ↔
      ∀ p ∈ Memory.consecutive size a (regs.map values), accessible p.1 size capacity = true := by
  constructor
  · intro h p hp
    obtain ⟨k, hk, rfl⟩ := Memory.mem_consecutive.mp hp
    rw [List.length_map] at hk
    exact h k hk
  · intro h k hk
    have hk' : k < (regs.map values).length := by rw [List.length_map]; exact hk
    have hoperand := h _ (Memory.mem_consecutive.mpr ⟨k, hk', rfl⟩)
    exact hoperand

/-- Values that can be read lie where they may be accessed. -/
theorem Memory.accessible_of_holds {memory : Memory} {regs : List Register} {size : Size}
    {a : Address} {values : Register → Long} (h : memory.Holds size a (regs.map values)) :
    (Register.block regs size a).Accessible memory.capacity :=
  (Block.accessible_iff regs size a values memory.capacity).mpr fun p hp =>
    (accessible_of_read (h p hp)).1

/-! ## 3. Loops -/

namespace Exec

variable {size : Size} {m : Machine} {l : List (Address × Long)}

/-- Stores operands one after the other. -/
def storeAll (size : Size) : List (Address × Long) → Exec Unit
  | [] => return ()
  | p :: l => do
    writeMemory p.1 size p.2
    storeAll size l

/-- If all of the operands may be accessed, all of them are stored. -/
theorem storeAll_ok (h : ∀ p ∈ l, accessible p.1 size m.memory.capacity = true) :
    storeAll size l m = .ok () { m with memory := m.memory.storeEach size l } := by
  induction l generalizing m with
  | nil => rfl
  | cons p l ih =>
    obtain ⟨hp, hl⟩ := List.forall_mem_cons.mp h
    have hwrite : writeMemory p.1 size p.2 m =
        .ok () { m with memory := m.memory.store p.1.toNat size p.2 } := if_pos hp
    unfold storeAll
    rw [bind_eq hwrite, ih]
    · rfl
    · intro q hq
      rw [Memory.capacity_store]
      exact hl q hq

/-- If one of them may not be accessed, the stores end in an address error. -/
theorem storeAll_error (h : ¬ ∀ p ∈ l, accessible p.1 size m.memory.capacity = true) :
    ∃ memory, storeAll size l m = .error .addressError { m with memory } := by
  induction l generalizing m with
  | nil => exact absurd (fun p hp => absurd hp List.not_mem_nil) h
  | cons p l ih =>
    unfold storeAll
    rw [run_bind]
    by_cases hp : accessible p.1 size m.memory.capacity = true
    · have hwrite : writeMemory p.1 size p.2 m =
          .ok () { m with memory := m.memory.store p.1.toNat size p.2 } := if_pos hp
      rw [hwrite]
      refine ih fun hl => h ?_
      rw [Memory.capacity_store] at hl
      exact List.forall_mem_cons.mpr ⟨hp, hl⟩
    · have hwrite : writeMemory p.1 size p.2 m = .error .addressError m := if_neg hp
      rw [hwrite]
      exact ⟨m.memory, rfl⟩

/-- What comes behind a store goes on with the registers as they were. -/
theorem writeMemory_bind_congr {α : Type} {a : Address} {v : Long} {f g : Unit → Exec α}
    (h : ∀ memory, f () { m with memory } = g () { m with memory }) :
    (writeMemory a size v >>= f) m = (writeMemory a size v >>= g) m := by
  rw [run_bind, run_bind, writeMemory_eq]
  cases m.memory.write a size v with
  | ok memory => exact h memory
  | error t => rfl

/-- **Ascending stores** put the registers end to end, from the first one on. -/
theorem storeUp_eq (size : Size) (regs : List Register) (a : Address) (m : Machine) :
    storeUp size regs a m =
      (do
        storeAll size (Memory.consecutive size a (regs.map m.registers.read))
        return a + BitVec.ofNat 32 (regs.length * size.bytes)) m := by
  induction regs generalizing a m with
  | nil =>
    show EStateM.Result.ok a m = .ok (a + BitVec.ofNat 32 (0 * size.bytes)) m
    rw [Nat.zero_mul, BitVec.add_zero]
  | cons reg regs ih =>
    rw [List.map_cons, Memory.consecutive_cons, storeAll, bind_assoc]
    refine writeMemory_bind_congr fun memory => ?_
    rw [ih, List.length_cons, Nat.succ_mul, Nat.add_comm, BitVec.ofNat_add, BitVec.add_assoc]

/-- **Descending stores** put them below the address in the order of the list from its end, the
    last one first. -/
theorem storeDown_eq (size : Size) (regs : List Register) (a : Address) (m : Machine) :
    storeDown size regs a m =
      (do
        storeAll size (Memory.consecutive size
          (a - BitVec.ofNat 32 (regs.length * size.bytes))
          (regs.reverse.map m.registers.read)).reverse
        return a - BitVec.ofNat 32 (regs.length * size.bytes)) m := by
  induction regs generalizing a m with
  | nil =>
    show EStateM.Result.ok a m = .ok (a - BitVec.ofNat 32 (0 * size.bytes)) m
    rw [Nat.zero_mul, BitVec.sub_zero]
  | cons reg regs ih =>
    have hstart : a - BitVec.ofNat 32 ((reg :: regs).length * size.bytes) =
        a - BitVec.ofNat 32 size.bytes - BitVec.ofNat 32 (regs.length * size.bytes) := by
      have hsub (x y : Long) : a - (x + y) = a - x - y := by grind
      rw [List.length_cons, Nat.succ_mul, Nat.add_comm, BitVec.ofNat_add, hsub]
    rw [hstart, List.reverse_cons, List.map_append, List.map_singleton, Memory.consecutive_concat,
      List.reverse_append, List.length_map, List.length_reverse, BitVec.sub_add_cancel]
    show (writeMemory (a - BitVec.ofNat 32 size.bytes) size (m.registers.read reg) >>= _) m = _
    rw [List.reverse_singleton, List.singleton_append, storeAll, bind_assoc]
    refine writeMemory_bind_congr fun memory => ?_
    rw [ih]

/-- Descending stores that end at an address, over the list from its end, put the registers where
    ascending ones from there put them. -/
theorem storeDown_reverse_eq (size : Size) (regs : List Register) (a : Address) (m : Machine) :
    storeDown size regs.reverse (a + BitVec.ofNat 32 (regs.length * size.bytes)) m =
      (do
        storeAll size (Memory.consecutive size a (regs.map m.registers.read)).reverse
        return a) m := by
  rw [storeDown_eq, List.length_reverse, List.reverse_reverse, BitVec.add_sub_cancel]

/-- The memory with the registers of a machine stored end to end. -/
def storedList (size : Size) (regs : List Register) (a : Address) (m : Machine) : Memory :=
  m.memory.storeEach size (Memory.consecutive size a (regs.map m.registers.read))

section Outcomes

variable {regs : List Register} {a : Address}

/-- Registers that fit can be read back. -/
theorem holds_storedList (hfit : regs.length * size.bytes ≤ Long.count)
    (h : (Register.block regs size a).Accessible m.memory.capacity) :
    (storedList size regs a m).Holds size a (regs.map m.registers.read) := by
  rw [← List.length_map m.registers.read] at hfit
  exact Memory.holds_storeEach hfit ((Block.accessible_iff _ _ _ _ _).mp h)

theorem storeUp_ok (h : (Register.block regs size a).Accessible m.memory.capacity) :
    storeUp size regs a m = .ok (a + BitVec.ofNat 32 (regs.length * size.bytes))
      { m with memory := storedList size regs a m } := by
  rw [storeUp_eq, run_bind, storeAll_ok ((Block.accessible_iff _ _ _ _ _).mp h)]
  rfl

/-- Registers that fit are stored in their block and nowhere else. -/
theorem sameOutside_storedList (h : (Register.block regs size a).Accessible m.memory.capacity) :
    m.memory.SameOutside (some (Register.block regs size a)) (storedList size regs a m) :=
  (storesIn_storeUp size regs a m).sameOutside (storeUp_ok h)

/-- As the operands are apart, it does not matter that the last one is stored first. -/
theorem storeDown_ok (hfit : regs.length * size.bytes ≤ Long.count)
    (h : (Register.block regs size a).Accessible m.memory.capacity) :
    storeDown size regs.reverse (a + BitVec.ofNat 32 (regs.length * size.bytes)) m =
      .ok a { m with memory := storedList size regs a m } := by
  have hall := (Block.accessible_iff _ _ _ m.registers.read _).mp h
  rw [← List.length_map m.registers.read] at hfit
  have hapart := Memory.pairwise_consecutive size a _ hfit
  have horder := Memory.storeEach_perm
    (List.reverse_perm (Memory.consecutive size a (regs.map m.registers.read))).symm hapart m.memory
  rw [storeDown_reverse_eq, run_bind, storeAll_ok fun p hp => hall p (List.mem_reverse.mp hp),
    ← horder]
  rfl

theorem storeUp_error (h : ¬ (Register.block regs size a).Accessible m.memory.capacity) :
    ∃ memory, storeUp size regs a m = .error .addressError { m with memory } := by
  obtain ⟨memory, hstores⟩ :=
    storeAll_error fun hall => h ((Block.accessible_iff _ _ _ m.registers.read _).mpr hall)
  refine ⟨memory, ?_⟩
  rw [storeUp_eq, run_bind, hstores]

theorem storeDown_error (h : ¬ (Register.block regs size a).Accessible m.memory.capacity) :
    ∃ memory, storeDown size regs.reverse (a + BitVec.ofNat 32 (regs.length * size.bytes)) m =
      .error .addressError { m with memory } := by
  have hstop : ¬ ∀ p ∈ (Memory.consecutive size a (regs.map m.registers.read)).reverse,
      accessible p.1 size m.memory.capacity = true := fun hall =>
    h ((Block.accessible_iff _ _ _ m.registers.read _).mpr fun p hp =>
      hall p (List.mem_reverse.mpr hp))
  obtain ⟨memory, hstores⟩ := storeAll_error hstop
  refine ⟨memory, ?_⟩
  rw [storeDown_reverse_eq, run_bind, hstores]

end Outcomes

end Exec

/-! ## 4. Instructions -/

namespace Instruction

open Exec

variable {i j : Instruction} {n k : Fin 8} {mask : Word} {m : Machine}

/-- `MOVEM` in a direction, with a mode of its operand and a mask as the instruction holds it. -/
structure MovesList (i : Instruction) (loads : Bool) (mode : AddressingMode) (word : Word) :
    Prop where
  operation_eq : i.operation = .movem
  loads_eq : i.opcode.getLsbD 10 = loads
  mode_eq : i.destination.bind (·.mode?) = some mode
  word_eq : i.extension.word = word

/-- `MOVEM` to `-(An)`, which holds the mask of its list reversed. -/
theorem MovesList.saves (h : i.MovesList false (.preDecrement n) mask.reverse) (m : Machine) :
    i.execute m =
      (storeDown i.size (Register.ofMask mask).reverse (m.registers.readAddress n) >>=
        writeAddress n) m := by
  rw [← Register.ofReversedMask_reverse]
  unfold execute
  rw [h.operation_eq]
  show movem i m = _
  unfold movem movemStore movemMode
  rw [h.loads_eq, h.mode_eq, h.word_eq]
  rfl

/-- `MOVEM` to `(An)`. -/
theorem MovesList.stores (h : i.MovesList false (.control (.indirect k)) mask) (m : Machine) :
    i.execute m =
      (do
        let _ ← storeUp i.size (Register.ofMask mask) (m.registers.readAddress k)) m := by
  obtain ⟨ea, hea, hmode⟩ := Option.bind_eq_some_iff.mp h.mode_eq
  unfold execute
  rw [h.operation_eq]
  show movem i m = _
  unfold movem movemStore movemMode Exec.control EffectiveAddress.controlAddress
  rw [h.loads_eq, h.mode_eq, h.word_eq, hea]
  dsimp only
  rw [hmode]
  rfl

/-- **Saving below a register and storing from an address on give one block**: if the register
    points past the block, both succeed or both end in an address error, and what they leave in
    memory is the same: the values that the registers of the list had before, in order. Only the
    first one moves its register, to where the block begins. The list may contain either address
    register, and the block may pass the last address. -/
theorem saves_as_stores (hi : i.MovesList false (.preDecrement n) mask.reverse)
    (hj : j.MovesList false (.control (.indirect k)) mask) (hsize : j.size = i.size)
    (hbase : m.registers.readAddress n = m.registers.readAddress k +
      BitVec.ofNat 32 ((Register.ofMask mask).length * i.size.bytes)) :
    let base := m.registers.readAddress k
    let block := Register.block (Register.ofMask mask) i.size base
    (block.Accessible m.memory.capacity → ∃ memory,
      i.execute m =
        .ok () { m with memory, registers := m.registers.writeAddress n base .long } ∧
      j.execute m = .ok () { m with memory } ∧
      memory.Holds i.size base ((Register.ofMask mask).map m.registers.read) ∧
      m.memory.SameOutside (some block) memory) ∧
    (¬ block.Accessible m.memory.capacity →
      (∃ memory, i.execute m = .error .addressError { m with memory }) ∧
      ∃ memory, j.execute m = .error .addressError { m with memory }) := by
  intro base block
  have hdown := hi.saves m
  have hup := hj.stores m
  rw [hsize] at hup
  rw [hbase] at hdown
  rw [run_bind] at hdown hup
  constructor
  · intro hok
    have hfit := Register.length_mul_bytes_le mask i.size
    rw [storeDown_ok hfit hok] at hdown
    rw [storeUp_ok hok] at hup
    exact ⟨_, hdown, hup, holds_storedList hfit hok, sameOutside_storedList hok⟩
  · intro hbad
    obtain ⟨memory, hlast⟩ := storeDown_error hbad
    obtain ⟨memory', hfirst⟩ := storeUp_error hbad
    rw [hlast] at hdown
    rw [hfirst] at hup
    exact ⟨⟨memory, hdown⟩, memory', hup⟩

/-- `MOVEM.W D1/A0/A2,-(A0)`, at address 8. -/
def saveWords : Instruction :=
  { address := 8, opcode := 0x48A0, operation := .movem, size := .word
    extension := ⟨10, .one 0x40A0⟩, source := none
    destination := some ⟨0b100000, ⟨12, .none⟩⟩, length := 4 }

/-- `MOVEM.W D1/A0/A2,(A2)`, behind it. -/
def storeWords : Instruction :=
  { address := 12, opcode := 0x4892, operation := .movem, size := .word
    extension := ⟨14, .one 0x0502⟩, source := none
    destination := some ⟨0b010010, ⟨16, .none⟩⟩, length := 4 }

/-- A machine with both instructions, `A0` three words above `A2`. -/
def aboutToStoreWords : Machine :=
  { Machine.new { memoryBytes := 16, traceInstructions := false } with
    registers := ((Registers.zeros.writeData 1 0x00018001 .long).writeAddress 0 8 .long)
      |>.writeAddress 2 2 .long
    memory := (Memory.zeros 16).setBytes 8 [0x48, 0xA0, 0x40, 0xA0, 0x48, 0x92, 0x05, 0x02]
    codeEnd := 16 }

/-- Both store the address registers themselves as they were. -/
theorem saves_as_stores_words :
    aboutToStoreWords.code.fetch 8 = .ok (some saveWords) 12 ∧
      aboutToStoreWords.code.fetch 12 = .ok (some storeWords) 16 ∧
      ∃ memory,
        saveWords.execute aboutToStoreWords =
          .ok () { aboutToStoreWords with
            memory, registers := aboutToStoreWords.registers.writeAddress 0 2 .long } ∧
        storeWords.execute aboutToStoreWords = .ok () { aboutToStoreWords with memory } ∧
        memory.read 2 .word = .ok 0x8001 ∧ memory.read 4 .word = .ok 8 ∧
        memory.read 6 .word = .ok 2 := by
  have hsave : saveWords.MovesList false (.preDecrement 0) (BitVec.reverse 0x0502) :=
    ⟨rfl, by decide, by decide, by decide⟩
  have hstore : storeWords.MovesList false (.control (.indirect 2)) 0x0502 :=
    ⟨rfl, by decide, by decide, rfl⟩
  obtain ⟨memory, hdown, hup, hholds, -⟩ :=
    (saves_as_stores (m := aboutToStoreWords) hsave hstore rfl (by decide)).1 (by decide)
  have hbase : aboutToStoreWords.registers.readAddress 2 = 2 := by decide
  rw [hbase] at hdown hholds
  have hlist : Memory.consecutive .word 2
      ((Register.ofMask 0x0502).map aboutToStoreWords.registers.read) =
        [(2, 0x00018001), (4, 8), (6, 2)] := by decide
  have hread {p : Address × Long} {v : Long} (hp : p ∈ [(2, 0x00018001), (4, 8), (6, 2)])
      (hv : Size.word.truncate p.2 = v) : memory.read p.1 .word = .ok v :=
    hv ▸ hholds p (hlist ▸ hp)
  have hfirst := hread (p := (2, 0x00018001)) (v := 0x8001) (by decide) (by decide)
  have hsecond := hread (p := (4, 8)) (v := 8) (by decide) (by decide)
  have hthird := hread (p := (6, 2)) (v := 2) (by decide) (by decide)
  have hfetch : aboutToStoreWords.code.fetch 8 = .ok (some saveWords) 12 := rfl
  have hfetch' : aboutToStoreWords.code.fetch 12 = .ok (some storeWords) 16 := rfl
  exact ⟨hfetch, hfetch', memory, hdown, hup, hfirst, hsecond, hthird⟩

end Instruction

end Mc68000
