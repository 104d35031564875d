import Mc68000.Proofs.Advance
import Mc68000.Proofs.ByteRuns
import Mc68000.Proofs.Execution
import Mc68000.Proofs.RunState
import Mc68000.Proofs.SortProgram.Listing

/-!
# Machines in the middle of the sort

What the sort works with, and what it leaves alone.

* `Cells` -- the registers that the sort works with, and the list;
* `Loaded` -- a machine with the program and a list of `n` values;
* `At` -- a machine in the middle of the sort, with given cells, that is otherwise as it was loaded;
* `At.advance` -- **an instruction of the listing leads from cells to cells**;
* `At.value?_eq`, `At.write_eq` -- the values in memory, read and written.
-/

namespace Mc68000.SortProgram

/-! ## 1. Machines in the middle of the sort -/

/-- Where the values are. -/
def listAddress : Address := 0x2001

/-- The address of a value. -/
def valueAddress (j : Nat) : Address := listAddress + BitVec.ofNat 32 j

/-- What the sort works with. -/
structure Cells where
  pc : Address
  a0 : Address
  a1 : Address
  a2 : Address
  d0 : Long
  d1 : Long
  values : List Byte

/-- The registers show the cells, and the stack pointers are those of `r₀`. -/
structure Cells.Shows (c : Cells) (r₀ r : Registers) : Prop where
  pc_eq : r.pc = c.pc
  a0_eq : r.readAddress 0 = c.a0
  a1_eq : r.readAddress 1 = c.a1
  a2_eq : r.readAddress 2 = c.a2
  d0_eq : r.readData 0 = c.d0
  d1_eq : r.readData 1 = c.d1
  usp_eq : r.usp = r₀.usp
  ssp_eq : r.ssp = r₀.ssp

namespace Cells.Shows

variable {c : Cells} {r₀ r : Registers}

theorem setPc (h : c.Shows r₀ r) (a : Address) : { c with pc := a }.Shows r₀ (r.setPc a) :=
  { h with pc_eq := rfl }

theorem withSr (h : c.Shows r₀ r) (sr : Word) : c.Shows r₀ { r with sr } := { h with }

theorem withValues (h : c.Shows r₀ r) (values : List Byte) : { c with values }.Shows r₀ r :=
  { h with }

theorem writeD0 (h : c.Shows r₀ r) (v : Long) (size : Size) :
    { c with d0 := size.merge c.d0 v }.Shows r₀ (r.writeData 0 v size) := by
  refine { h with d0_eq := ?_, d1_eq := ?_ }
  · rw [Registers.readData_writeData, if_pos rfl, h.d0_eq]
  · rw [Registers.readData_writeData, if_neg (by decide)]
    exact h.d1_eq

theorem writeD1 (h : c.Shows r₀ r) (v : Long) (size : Size) :
    { c with d1 := size.merge c.d1 v }.Shows r₀ (r.writeData 1 v size) := by
  refine { h with d0_eq := ?_, d1_eq := ?_ }
  · rw [Registers.readData_writeData, if_neg (by decide)]
    exact h.d0_eq
  · rw [Registers.readData_writeData, if_pos rfl, h.d1_eq]

theorem writeA0 (h : c.Shows r₀ r) {v a : Address} (hv : v = a) :
    { c with a0 := a }.Shows r₀ (r.writeAddress 0 v .long) := by
  subst hv
  refine { h with a0_eq := ?_, a1_eq := ?_, a2_eq := ?_ }
  · rw [Registers.readAddress_writeAddress, if_pos rfl, Size.merge_long]
  · rw [Registers.readAddress_writeAddress, if_neg (by decide)]
    exact h.a1_eq
  · rw [Registers.readAddress_writeAddress, if_neg (by decide)]
    exact h.a2_eq

theorem writeA1 (h : c.Shows r₀ r) {v a : Address} (hv : v = a) :
    { c with a1 := a }.Shows r₀ (r.writeAddress 1 v .long) := by
  subst hv
  refine { h with a0_eq := ?_, a1_eq := ?_, a2_eq := ?_ }
  · rw [Registers.readAddress_writeAddress, if_neg (by decide)]
    exact h.a0_eq
  · rw [Registers.readAddress_writeAddress, if_pos rfl, Size.merge_long]
  · rw [Registers.readAddress_writeAddress, if_neg (by decide)]
    exact h.a2_eq

theorem writeA2 (h : c.Shows r₀ r) {v a : Address} (hv : v = a) :
    { c with a2 := a }.Shows r₀ (r.writeAddress 2 v .long) := by
  subst hv
  refine { h with a0_eq := ?_, a1_eq := ?_, a2_eq := ?_ }
  · rw [Registers.readAddress_writeAddress, if_neg (by decide)]
    exact h.a0_eq
  · rw [Registers.readAddress_writeAddress, if_neg (by decide)]
    exact h.a1_eq
  · rw [Registers.readAddress_writeAddress, if_pos rfl, Size.merge_long]

end Cells.Shows

/-- A machine with the program and a list of `n` values. -/
structure Loaded (n : Nat) (m₀ : Machine) : Prop where
  program : HoldsProgram m₀.code
  count_eq : m₀.memory.byte dataAddress.toNat = BitVec.ofNat 8 n
  fits : listAddress.toNat + n ≤ m₀.memory.capacity
  two_le : 2 ≤ n
  le_max : n ≤ 255

/-- The sort of `m₀` has come to a machine with given cells. Memory is that of `m₀` with the values
    in place. -/
structure At (n : Nat) (m₀ : Machine) (c : Cells) (m : Machine) : Prop where
  running : m.runState = .running
  callDepth_eq : m.callDepth = 0
  codeEnd_eq : m.codeEnd = m₀.codeEnd
  length_eq : c.values.length = n
  memory_eq : m.memory = m₀.memory.setBytes listAddress.toNat c.values
  shows : c.Shows m₀.registers m.registers

/-- A machine whose program counter is past an instruction. -/
def past (i : Instruction) (m : Machine) : Machine :=
  { m with registers := m.registers.setPc i.nextAddress }

variable {n : Nat} {m₀ m : Machine} {c c' : Cells}

/-- Bytes put behind the program leave it. -/
theorem HoldsProgram.setBytes {code : Code} (h : HoldsProgram code) {i : Nat}
    (hi : endAddress.toNat ≤ i) (vs : List Byte) :
    HoldsProgram ⟨code.memory.setBytes i vs, code.codeEnd⟩ where
  codeEnd_eq := h.codeEnd_eq
  le_capacity := by
    show _ ≤ (code.memory.setBytes i vs).capacity
    rw [Memory.capacity_setBytes]
    exact h.le_capacity
  wordAt_eq := by
    intro k hk
    have hk' : k < 21 := hk
    have hstart : loadAddress.toNat = 0x1000 := rfl
    have hend : endAddress.toNat = 0x102A := rfl
    rw [← h.wordAt_eq k hk]
    show (code.memory.setBytes i vs).wordAt _ = code.memory.wordAt _
    unfold Memory.wordAt
    rw [Memory.byte_setBytes_of_outside _ _ _ _ (.inl (by omega)),
      Memory.byte_setBytes_of_outside _ _ _ _ (.inl (by omega))]

theorem address_lt_endAddress : ∀ i ∈ listing, i.address.toNat < endAddress.toNat := by decide

/-- A machine in the middle of the sort is not at a boundary, and it fetches from the listing. -/
theorem At.step_eq (hl : Loaded n m₀) (h : At n m₀ c m) {i : Instruction} (hi : i ∈ listing)
    (hpc : c.pc = i.address) :
    m.boundary? = none ∧ Machine.step m =
      match i.execute (past i m) with
      | .error t m => .error (.trap t) m
      | .ok () m => .ok (.retired i.operation.cycles)
        { m with cycles := m.cycles + i.operation.cycles } := by
  have hholds : HoldsProgram m.code := by
    unfold Machine.code
    rw [h.memory_eq, h.codeEnd_eq]
    exact hl.program.setBytes (by decide) c.values
  have haddress : m.registers.pc = i.address := h.shows.pc_eq.trans hpc
  have hfetch : m.code.fetch m.registers.pc = .ok (some i) i.nextAddress := by
    rw [haddress]
    exact fetch_listing hholds hi
  refine ⟨?_, Machine.step_of_fetched h.running hfetch⟩
  have hbefore := address_lt_endAddress i hi
  have hend : ¬m.codeEnd ≤ m.registers.pc := by
    rw [haddress, show m.codeEnd = endAddress from hholds.codeEnd_eq, BitVec.le_def]
    omega
  unfold Machine.boundary? Machine.atEndOfCode
  rw [h.running]
  simp [hend]

/-- **An instruction of the listing leads from cells to cells.** -/
theorem At.advance (hl : Loaded n m₀) (h : At n m₀ c m) {i : Instruction} (hi : i ∈ listing)
    (hpc : c.pc = i.address) {r : Registers} {memory : Memory}
    (hx : i.execute (past i m) = .ok () { m with registers := r, memory })
    (hlength : c'.values.length = n)
    (hmemory : memory = m₀.memory.setBytes listAddress.toNat c'.values)
    (hshows : c'.Shows m₀.registers r) :
    ∃ m', Machine.Advances 1 m m' ∧ At n m₀ c' m' ∧ m'.registers = r := by
  obtain ⟨hb, hstep⟩ := h.step_eq hl hi hpc
  rw [hx] at hstep
  exact ⟨_, .one hb hstep, ⟨h.running, h.callDepth_eq, h.codeEnd_eq, hlength, hmemory, hshows⟩, rfl⟩

/-- The same of an instruction that leaves memory. -/
theorem At.advance_registers (hl : Loaded n m₀) (h : At n m₀ c m) {i : Instruction}
    (hi : i ∈ listing) (hpc : c.pc = i.address) {r : Registers}
    (hx : i.execute (past i m) = .ok () { m with registers := r })
    (hshows : c'.Shows m₀.registers r) (hvalues : c'.values = c.values) :
    ∃ m', Machine.Advances 1 m m' ∧ At n m₀ c' m' ∧ m'.registers = r := by
  have hlength : c'.values.length = n := by rw [hvalues]; exact h.length_eq
  have hmemory : m.memory = m₀.memory.setBytes listAddress.toNat c'.values := by
    rw [hvalues]
    exact h.memory_eq
  have hx' : i.execute (past i m) = .ok () { m with registers := r, memory := m.memory } := hx
  exact h.advance hl hi hpc hx' hlength hmemory hshows

/-- From `m` the sort comes to given cells, `k` instructions on. -/
def Leads (n : Nat) (m₀ m : Machine) (k : Nat) (c : Cells) : Prop :=
  ∃ m', Machine.Advances k m m' ∧ At n m₀ c m'

theorem Leads.refl (h : At n m₀ c m) : Leads n m₀ m 0 c := ⟨m, .refl m, h⟩

theorem Leads.bind {j k : Nat} (h : Leads n m₀ m j c)
    (h' : ∀ m', At n m₀ c m' → Leads n m₀ m' k c') : Leads n m₀ m (j + k) c' := by
  obtain ⟨m₁, hm₁, hat₁⟩ := h
  obtain ⟨m₂, hm₂, hat₂⟩ := h' m₁ hat₁
  exact ⟨m₂, hm₁.trans hm₂, hat₂⟩

/-- An instruction that leaves memory, whatever the flags. -/
theorem At.leads (hl : Loaded n m₀) (h : At n m₀ c m) {i : Instruction}
    (hi : i ∈ listing) (hpc : c.pc = i.address) {r : Registers}
    (hx : i.execute (past i m) = .ok () { m with registers := r })
    (hshows : c'.Shows m₀.registers r) (hvalues : c'.values = c.values) :
    Leads n m₀ m 1 c' := by
  obtain ⟨m', hm', hat, -⟩ := h.advance_registers hl hi hpc hx hshows hvalues
  exact ⟨m', hm', hat⟩

/-! ## 2. The values in memory -/

theorem toNat_valueAddress {j : Nat} (hj : j ≤ 255) :
    (valueAddress j).toNat = listAddress.toNat + j := by
  have hlist : listAddress.toNat = 0x2001 := rfl
  unfold valueAddress
  rw [BitVec.toNat_add, BitVec.toNat_ofNat]
  omega

theorem valueAddress_succ (j : Nat) : valueAddress (j + 1) = valueAddress j + 1 := by
  unfold valueAddress
  rw [BitVec.ofNat_add, BitVec.add_assoc]
  rfl

/-- A value can be read at its address. -/
theorem At.value?_eq (hl : Loaded n m₀) (h : At n m₀ c m) {j : Nat} {x : Byte}
    (hx : c.values[j]? = some x) (r : Registers) :
    (Operand.memory (valueAddress j)).value? .byte r m.memory = some (x.setWidth 32) := by
  obtain ⟨hj, rfl⟩ := List.getElem?_eq_some_iff.mp hx
  have hlength := h.length_eq
  have hfits := hl.fits
  have hmax := hl.le_max
  have hin : accessible (valueAddress j) .byte
      (m₀.memory.setBytes listAddress.toNat c.values).capacity = true := by
    rw [Memory.accessible_byte_iff, toNat_valueAddress (by omega), Memory.capacity_setBytes]
    omega
  have hbyte := Memory.byte_setBytes_of_inside m₀.memory listAddress.toNat j c.values hj (by omega)
  show ((m.memory.read _ .byte).toOption : Option Long) = _
  rw [h.memory_eq, Memory.read, if_pos hin]
  show some (((m₀.memory.setBytes listAddress.toNat c.values).byte (valueAddress j).toNat).setWidth
    32) = _
  rw [toNat_valueAddress (by omega), hbyte]
  rfl

/-- A value can be written there. -/
theorem At.write_eq (hl : Loaded n m₀) (h : At n m₀ c m) {j : Nat} (hj : j < n) (v : Long)
    {k : Machine} (hk : k.memory = m.memory) :
    Exec.write (.memory (valueAddress j)) .byte v k = .ok () { k with
      memory := m₀.memory.setBytes listAddress.toNat (c.values.set j (v.setWidth 8)) } := by
  have hlength := h.length_eq
  have hfits := hl.fits
  have hmax := hl.le_max
  have hin : accessible (valueAddress j) .byte k.memory.capacity = true := by
    rw [Memory.accessible_byte_iff, toNat_valueAddress (by omega), hk, h.memory_eq,
      Memory.capacity_setBytes]
    omega
  rw [Exec.write_memory v hin]
  congr 2
  rw [hk, h.memory_eq, toNat_valueAddress (by omega)]
  exact Memory.setByte_setBytes (by omega) (by omega) _

end Mc68000.SortProgram
