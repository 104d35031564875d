import Mc68000.Proofs.AutoModify
import Mc68000.Proofs.IntegerArithmetic

/-!
# Numbers of many limbs

Two numbers of any number of limbs stand in memory, the most significant byte first. The extended
operations walk them from their ends, one limb each, and hand the carry on in the extend flag.

* `Memory.number` -- the number that a run of bytes stands for;
* `Fields` -- two numbers of one length below two address registers;
* `execute_limb` -- what one operation does to the lowest limb, and that the rest of the numbers is
  as before and stands below the registers again;
* `total_of_limbs` -- **a row of operations leaves the total of the two numbers.**
-/

namespace Mc68000

open Status

/-! ## 1. Numbers in memory -/

namespace Memory

/-- The number of a run of bytes, the most significant first. -/
def number (m : Memory) (i : Nat) : Nat → Nat
  | 0 => 0
  | n + 1 => 2 ^ 8 * m.number i n + (m.byte (i + n)).toNat

variable {m m' : Memory} {i j n : Nat}

theorem number_lt (m : Memory) (i n : Nat) : m.number i n < 2 ^ (8 * n) := by
  induction n with
  | zero => exact Nat.one_pos
  | succ n ih => exact AddSub.behind_lt ih (m.byte (i + n)).isLt

/-- A run is its high bytes in front of its low ones. -/
theorem number_add (m : Memory) (i j n : Nat) :
    m.number i (j + n) = 2 ^ (8 * n) * m.number i j + m.number (i + j) n := by
  induction n with
  | zero => simp [number]
  | succ n ih =>
    show 2 ^ 8 * m.number i (j + n) + (m.byte (i + (j + n))).toNat = _
    rw [ih, number, Nat.mul_add, ← Nat.mul_assoc, ← Nat.pow_add, Nat.add_assoc, Nat.add_assoc,
      Nat.mul_succ, Nat.add_comm 8]

theorem number_congr (h : ∀ k < n, m.byte (i + k) = m'.byte (i + k)) :
    m.number i n = m'.number i n := by
  induction n with
  | zero => rfl
  | succ n ih =>
    rw [number, number, ih fun k hk => h k (Nat.lt_succ_of_lt hk), h n (Nat.lt_succ_self n)]

theorem toNat_append (a : BitVec n) (b : Byte) : (a ++ b).toNat = 2 ^ 8 * a.toNat + b.toNat := by
  rw [BitVec.toNat_append, ← Nat.shiftLeft_add_eq_or_of_lt b.isLt, Nat.shiftLeft_eq, Nat.mul_comm]

/-- An operand is the number of its bytes. -/
theorem toNat_fetch (m : Memory) (i : Nat) (size : Size) :
    (m.fetch i size).toNat = m.number i size.bytes := by
  cases size with
  | byte =>
    show ((m.byte i).setWidth 32).toNat = 2 ^ 8 * 0 + (m.byte (i + 0)).toNat
    rw [BitVec.toNat_setWidth_of_le (by decide), Nat.mul_zero, Nat.zero_add, Nat.add_zero]
  | word =>
    show ((m.byte i ++ m.byte (i + 1)).setWidth 32).toNat = _
    rw [BitVec.toNat_setWidth_of_le (by decide), toNat_append]
    simp [number, Size.bytes]
  | long =>
    show (m.byte i ++ m.byte (i + 1) ++ m.byte (i + 2) ++ m.byte (i + 3)).toNat = _
    rw [toNat_append, toNat_append, toNat_append]
    simp [number, Size.bytes]

/-- So is the value of an operand in memory. -/
theorem number_of_value? {a : Address} {size : Size} {r : Registers} {v : Long}
    (h : (Operand.memory a).value? size r m = some v) : m.number a.toNat size.bytes = v.toNat := by
  have hread : (m.read a size).toOption = some v := h
  unfold read at hread
  split at hread
  · cases hread
    exact (m.toNat_fetch a.toNat size).symm
  · cases hread

/-- An access at an even address inside the store is allowed. -/
theorem accessible_of_even {a : Address} {size : Size} {capacity : Nat}
    (heven : size ≠ .byte → a.toNat % 2 = 0) (hin : a.toNat + size.bytes ≤ capacity) :
    accessible a size capacity = true := by
  have hbit : a.getLsbD 0 = decide (a.toNat % 2 = 1) := Nat.testBit_zero a.toNat
  have hin' : inBounds a size.bytes capacity = true := decide_eq_true hin
  unfold accessible
  rw [hin', hbit, Bool.and_true]
  by_cases hsize : size = .byte
  · rw [decide_eq_true hsize, Bool.true_or]
  · rw [heven hsize]
    simp

end Memory

/-! ## 2. One limb -/

/-- An extended sum or difference of the operands below two address registers. -/
structure Instruction.IsExtended (i : Instruction) (op : AddSub) (size : Size) (y x : Fin 8) :
    Prop where
  operation_eq : i.operation = .arithExtended op
  size_eq : i.size = size
  below : i.opcode.getLsbD 3 = true
  lowRegister_eq : i.lowRegister = y
  highRegister_eq : i.highRegister = x

/-- Two numbers of so many limbs stand below two address registers, from `s` and from `d` on, apart
    from each other and inside the memory. -/
structure Fields (size : Size) (y x : Fin 8) (s d limbs : Nat) (m : Machine) : Prop where
  source_end : m.registers.readAddress y = BitVec.ofNat 32 (s + limbs * size.bytes)
  destination_end : m.registers.readAddress x = BitVec.ofNat 32 (d + limbs * size.bytes)
  source_le : s + limbs * size.bytes ≤ min Long.count m.memory.capacity
  destination_le : d + limbs * size.bytes ≤ min Long.count m.memory.capacity
  even : size ≠ .byte → s % 2 = 0 ∧ d % 2 = 0
  disjoint : s + limbs * size.bytes ≤ d ∨ d + limbs * size.bytes ≤ s

section

variable {op : AddSub} {size : Size} {y x : Fin 8} {s d k : Nat} {m m' : Machine} {i : Instruction}

/-- A register other than the stack pointer moves down from one limb to the next. -/
theorem Registers.readAddress_decrement_limb {r : Registers} {n : Fin 8} {start : Nat}
    (hn : n ≠ stackNumber)
    (h : r.readAddress n = BitVec.ofNat 32 (start + (k + 1) * size.bytes)) :
    (r.decrement n size).readAddress n = BitVec.ofNat 32 (start + k * size.bytes) := by
  have hstep : step n size = BitVec.ofNat 32 size.bytes := by
    unfold step
    rw [if_neg fun hboth => hn hboth.1]
  rw [readAddress_decrement, if_pos rfl, h, hstep, Nat.succ_mul, ← Nat.add_assoc,
    BitVec.ofNat_add, BitVec.add_assoc, BitVec.add_right_neg, BitVec.add_zero]

theorem Registers.readAddress_withSr {r : Registers} {n : Fin 8} (hn : n ≠ stackNumber)
    (sr : Word) : { r with sr }.readAddress n = r.readAddress n := by
  have hlt : n.val < 7 := by
    have hne : n.val ≠ 7 := fun h => hn (Fin.ext h)
    omega
  unfold readAddress
  rw [dif_pos hlt, dif_pos hlt]

theorem Registers.readAddress_decrement_of_ne {r : Registers} {n j : Fin 8} (h : n ≠ j) :
    (r.decrement j size).readAddress n = r.readAddress n := by
  rw [readAddress_decrement, if_neg h]
  exact BitVec.add_zero _

theorem Instruction.IsExtended.combination?_eq (hi : i.IsExtended op size y x) (r : Registers) :
    i.combination? r =
      let below := r.decrement y size
      let belowBoth := below.decrement x size
      some (.into op (.memory (below.readAddress y)) (.memory (belowBoth.readAddress x))
        (hasFlag r.sr extend), belowBoth) := by
  obtain ⟨hop, rfl, hbelow, rfl, rfl⟩ := hi
  unfold Instruction.combination? Instruction.extendedOperands
  rw [hop, if_pos hbelow]
  rfl

/-- A limb is where its number says, and may be accessed there. -/
theorem limb_accessible {start capacity : Nat} (heven : size ≠ .byte → start % 2 = 0)
    (hle : start + (k + 1) * size.bytes ≤ min Long.count capacity) :
    (BitVec.ofNat 32 (start + k * size.bytes)).toNat = start + k * size.bytes ∧
      accessible (BitVec.ofNat 32 (start + k * size.bytes)) size capacity = true := by
  have hpos : 0 < size.bytes := by cases size <;> decide
  rw [Nat.succ_mul, ← Nat.add_assoc, Nat.le_min] at hle
  have htoNat : (BitVec.ofNat 32 (start + k * size.bytes)).toNat = start + k * size.bytes := by
    rw [BitVec.toNat_ofNat]
    exact Nat.mod_eq_of_lt (Nat.lt_of_lt_of_le (Nat.lt_add_of_pos_right hpos) hle.1)
  refine ⟨htoNat, Memory.accessible_of_even (fun hsize => ?_) (by rw [htoNat]; exact hle.2)⟩
  have hbytes : size.bytes % 2 = 0 := by cases size <;> first | exact absurd rfl hsize | rfl
  rw [htoNat, Nat.add_mod, heven hsize, Nat.mul_mod, hbytes, Nat.mul_zero]

/-- Without their lowest limbs the numbers stand below registers one limb lower. -/
theorem Fields.lower (hf : Fields size y x s d (k + 1) m)
    (hsource : m'.registers.readAddress y = BitVec.ofNat 32 (s + k * size.bytes))
    (hdestination : m'.registers.readAddress x = BitVec.ofNat 32 (d + k * size.bytes))
    (hcapacity : m'.memory.capacity = m.memory.capacity) : Fields size y x s d k m' := by
  obtain ⟨-, -, hs, hd, heven, hdisjoint⟩ := hf
  rw [Nat.succ_mul] at hs hd hdisjoint
  rw [← hcapacity] at hs hd
  exact ⟨hsource, hdestination, by omega, by omega, heven, by omega⟩

/-- **One operation leaves the total of the two lowest limbs** with the extend flag, in place of the
    second one, and all other memory as it was. -/
theorem execute_limb (hi : i.IsExtended op size y x) (hyx : y ≠ x)
    (hy : y ≠ Registers.stackNumber) (hx : x ≠ Registers.stackNumber)
    (hf : Fields size y x s d (k + 1) m) :
    ∃ m', i.execute m = .ok () m' ∧ Fields size y x s d k m' ∧
      op.Leaves size.bits (m.memory.number (d + k * size.bytes) size.bytes)
        (m.memory.number (s + k * size.bytes) size.bytes) (hasFlag m.registers.sr extend)
        (m'.memory.number (d + k * size.bytes) size.bytes) m'.registers.sr ∧
      ∀ j, j < d + k * size.bytes ∨ d + k * size.bytes + size.bytes ≤ j →
        m'.memory.byte j = m.memory.byte j := by
  obtain ⟨hs, haccess⟩ := limb_accessible (fun h => (hf.even h).1) hf.source_le
  obtain ⟨hd, haccess'⟩ := limb_accessible (fun h => (hf.even h).2) hf.destination_le
  have hcombination := hi.combination?_eq m.registers
  obtain rfl := hi.size_eq
  have hbelow := Registers.readAddress_decrement_limb hy hf.source_end
  have hkept : (m.registers.decrement y i.size).readAddress x = m.registers.readAddress x :=
    Registers.readAddress_decrement_of_ne hyx.symm
  dsimp only at hcombination
  generalize m.registers.decrement y i.size = below at hcombination hbelow hkept
  have hsource : (below.decrement x i.size).readAddress y = below.readAddress y :=
    Registers.readAddress_decrement_of_ne hyx
  have hdestination := Registers.readAddress_decrement_limb hx (hkept.trans hf.destination_end)
  rw [hbelow, hdestination] at hcombination
  have hexecute := Instruction.execute_eq_run hcombination (fun n hn => by cases hn)
  rw [← hsource] at hbelow
  generalize below.decrement x i.size = r at hcombination hsource hbelow hdestination hexecute
  have hvalue : (Operand.memory (BitVec.ofNat 32 (s + k * i.size.bytes))).value? i.size r m.memory =
      some (m.memory.fetch (BitVec.ofNat 32 (s + k * i.size.bytes)).toNat i.size) :=
    congrArg Except.toOption (Memory.read_of_accessible haccess)
  obtain ⟨m', v, sr, hrun, hregisters, hmemory⟩ :
      ∃ m' v sr, (Combination.into op (.memory (BitVec.ofNat 32 (s + k * i.size.bytes)))
          (.memory (BitVec.ofNat 32 (d + k * i.size.bytes)))
          (hasFlag m.registers.sr extend)).run i.size { m with registers := r } = .ok () m' ∧
        m'.registers = { r with sr } ∧
        m'.memory = m.memory.store (BitVec.ofNat 32 (d + k * i.size.bytes)).toNat i.size v :=
    Combination.run_into_memory hvalue haccess'
  obtain ⟨s', d', v', hs', hd', hv', hleaves, -⟩ :=
    Combination.total_of_run hrun (fun n hn => by cases hn)
  rw [hd] at hmemory
  refine ⟨m', hexecute.trans hrun, hf.lower ?_ ?_ ?_, ?_, fun j hj => ?_⟩
  · rw [hregisters]
    exact (Registers.readAddress_withSr hy sr).trans hbelow
  · rw [hregisters]
    exact (Registers.readAddress_withSr hx sr).trans hdestination
  · rw [hmemory, Memory.capacity_store]
  · rw [← hs, ← hd, Memory.number_of_value? hs', Memory.number_of_value? hd',
      Memory.number_of_value? hv']
    exact hleaves
  · rw [hmemory]
    refine Memory.byte_setBytes_of_outside _ _ _ _ ?_
    rw [Memory.length_operandBytes]
    exact hj

/-! ## 3. All limbs -/

/-- Executes instructions one behind the other, the program counter past each of them. -/
def Exec.executeAll : List Instruction → Exec Unit
  | [] => return ()
  | i :: is => do
    jump i.nextAddress
    i.execute
    executeAll is

variable {is : List Instruction}

/-- Behind the first of them the rest goes on. -/
theorem Exec.executeAll_cons
    (h : i.execute { m with registers := m.registers.setPc i.nextAddress } = .ok () m') :
    executeAll (i :: is) m = executeAll is m' := by
  show (i.execute >>= fun _ => executeAll is)
    { m with registers := m.registers.setPc i.nextAddress } = _
  exact bind_eq h

/-- What a row of operations leaves, the numbers cut to their highest limb and the rest. -/
theorem leaves_of_limbs (his : ∀ i ∈ is, i.IsExtended op size y x) (hne : is ≠ []) (hyx : y ≠ x)
    (hy : y ≠ Registers.stackNumber) (hx : x ≠ Registers.stackNumber)
    (hf : Fields size y x s d is.length m) :
    ∃ m', Exec.executeAll is m = .ok () m' ∧ Fields size y x s d 0 m' ∧
      op.Leaves (8 * (is.length * size.bytes)) (m.memory.number d (is.length * size.bytes))
        (m.memory.number s (is.length * size.bytes)) (hasFlag m.registers.sr extend)
        (m'.memory.number d (is.length * size.bytes)) m'.registers.sr ∧
      ∀ j, j < d ∨ d + is.length * size.bytes ≤ j → m'.memory.byte j = m.memory.byte j := by
  induction is generalizing m with
  | nil => exact absurd rfl hne
  | cons i is ih =>
    -- the first operation takes the lowest limbs
    obtain ⟨m₁, hexecute, hf₁, hlow, hkept⟩ := execute_limb
      (m := { m with registers := m.registers.setPc i.nextAddress }) (his i List.mem_cons_self)
      hyx hy hx ⟨hf.source_end, hf.destination_end, hf.source_le, hf.destination_le, hf.even,
        hf.disjoint⟩
    rw [Exec.executeAll_cons hexecute]
    cases is with
    | nil =>
      refine ⟨m₁, rfl, hf₁, ?_, fun j hj => hkept j ?_⟩
      · simpa [Size.bits, Registers.setPc] using hlow
      · simpa using hj
    | cons i' is =>
      obtain ⟨m', hrest, hf', hhigh, hkept'⟩ := ih
        (fun j hj => his j (List.mem_cons_of_mem i hj)) (List.cons_ne_nil _ _) hf₁
      have hdisjoint := hf.disjoint
      have hpos : 0 < (i' :: is).length * size.bytes :=
        Nat.mul_pos (Nat.succ_pos _) (by cases size <;> decide)
      rw [List.length_cons] at hdisjoint ⊢
      rw [Nat.succ_mul (i' :: is).length] at hdisjoint ⊢
      generalize (i' :: is).length * size.bytes = n at *
      -- what stands in front of the lowest limbs is as before, and what is left there stays
      have hd : m₁.memory.number d n = m.memory.number d n :=
        Memory.number_congr fun j hj => hkept _ (by omega)
      have hs : m₁.memory.number s n = m.memory.number s n :=
        Memory.number_congr fun j hj => hkept _ (by omega)
      have hr : m'.memory.number (d + n) size.bytes = m₁.memory.number (d + n) size.bytes :=
        Memory.number_congr fun j hj => hkept' _ (by omega)
      refine ⟨m', hrest, hf', ?_, fun j hj => ?_⟩
      · rw [hd, hs] at hhigh
        rw [Memory.number_add, Memory.number_add, Memory.number_add, hr, Nat.mul_add]
        exact AddSub.Leaves.behind (Nat.mul_pos (by decide) hpos) (Memory.number_lt ..)
          (Memory.number_lt ..) (Memory.number_lt ..) (Memory.number_lt ..) hlow hhigh
      · rw [hkept' j (by omega), hkept j (by omega)]

/-- **A row of extended sums or differences is one of numbers of as many limbs.** It succeeds and
    moves both registers down to the starts of the numbers. It leaves the total of the numbers with
    the extend flag in place of the second one: modulo their width, with its carry in X and C, its
    overflow in V and its top bit in N. All other memory stays, the first number with it. -/
theorem total_of_limbs (his : ∀ i ∈ is, i.IsExtended op size y x) (hne : is ≠ []) (hyx : y ≠ x)
    (hy : y ≠ Registers.stackNumber) (hx : x ≠ Registers.stackNumber)
    (hf : Fields size y x s d is.length m) :
    ∃ m', Exec.executeAll is m = .ok () m' ∧
      op.Leaves (size.bits * is.length) (m.memory.number d (is.length * size.bytes))
        (m.memory.number s (is.length * size.bytes)) (hasFlag m.registers.sr extend)
        (m'.memory.number d (is.length * size.bytes)) m'.registers.sr ∧
      m'.memory.number s (is.length * size.bytes) = m.memory.number s (is.length * size.bytes) ∧
      (∀ j, j < d ∨ d + is.length * size.bytes ≤ j → m'.memory.byte j = m.memory.byte j) ∧
      m'.registers.readAddress y =
        m.registers.readAddress y - BitVec.ofNat 32 (is.length * size.bytes) ∧
      m'.registers.readAddress x =
        m.registers.readAddress x - BitVec.ofNat 32 (is.length * size.bytes) := by
  obtain ⟨m', h, hf', hleaves, hkept⟩ := leaves_of_limbs his hne hyx hy hx hf
  have hwidth : size.bits * is.length = 8 * (is.length * size.bytes) := by
    rw [Size.bits, Nat.mul_assoc, Nat.mul_comm size.bytes]
  have hlowered (start n : Nat) :
      BitVec.ofNat 32 (start + n) - BitVec.ofNat 32 n = BitVec.ofNat 32 start := by
    rw [BitVec.ofNat_add, BitVec.add_sub_cancel]
  have hdisjoint := hf.disjoint
  refine ⟨m', h, hwidth ▸ hleaves, ?_, hkept, ?_, ?_⟩
  · exact Memory.number_congr fun j hj => hkept _ (by omega)
  · rw [hf.source_end, hlowered, hf'.source_end, Nat.zero_mul, Nat.add_zero]
  · rw [hf.destination_end, hlowered, hf'.destination_end, Nat.zero_mul, Nat.add_zero]

/-- A machine about to add 1, 65535 and an extend flag that is set, in two limbs each. -/
def aboutToAddLimbs : Machine :=
  { Machine.new { memoryBytes := 8, traceInstructions := false } with
    registers := { (Registers.zeros.writeAddress 0 4 .long).writeAddress 1 8 .long with
      sr := Status.extend }
    memory := (Memory.zeros 8).setBytes 0 [0x00, 0x00, 0x00, 0x01, 0x00, 0x00, 0xFF, 0xFF] }

/-- The carry of the low words reaches the high ones and goes no further. -/
theorem total_of_two_limbs :
    ∃ m', Exec.executeAll [.addExtendedWords, .addExtendedWords] aboutToAddLimbs = .ok () m' ∧
      m'.memory.number 4 4 = 0x00010001 ∧ m'.memory.number 0 4 = 1 ∧
      hasFlag m'.registers.sr carry = false ∧ m'.registers.readAddress 1 = 4 := by
  have hfields : Fields .word 0 1 0 4 2 aboutToAddLimbs :=
    ⟨rfl, rfl, by decide, by decide, fun _ => by decide, by decide⟩
  have hextended : Instruction.addExtendedWords.IsExtended .add .word 0 1 :=
    ⟨rfl, rfl, by decide, by decide, by decide⟩
  have hrow : ∀ i ∈ [Instruction.addExtendedWords, .addExtendedWords],
      i.IsExtended .add .word 0 1 := by
    simpa using hextended
  obtain ⟨m', h, hleaves, hsource, -, -, hlowered⟩ :=
    total_of_limbs hrow (List.cons_ne_nil _ _) (by decide) (by decide) (by decide) hfields
  have hd : aboutToAddLimbs.memory.number 4 4 = 0xFFFF := by decide
  have hs : aboutToAddLimbs.memory.number 0 4 = 1 := by decide
  change AddSub.add.Leaves 32 (aboutToAddLimbs.memory.number 4 4)
    (aboutToAddLimbs.memory.number 0 4) true (m'.memory.number 4 4) m'.registers.sr at hleaves
  rw [hd, hs] at hleaves
  have hresult : (m'.memory.number 4 4 : Int) = 0x00010001 :=
    hleaves.result_eq.trans (by decide)
  exact ⟨m', h, by exact_mod_cast hresult, hsource.trans hs, hleaves.carry_eq, hlowered⟩

end

end Mc68000
