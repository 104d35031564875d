import Mc68000.Proofs.SortProgram.State

/-!
# The sort, instruction by instruction

What each instruction of the sort does to the registers that it works with and to the list.

* `at_loadList` … `at_loadLast` -- before the first pass;
* `at_clearSwaps`, `at_startPass` -- before the first pair of a pass;
* `at_takeFirst`, `at_comparePair` -- one pair;
* `At.store` -- a register's byte put into the list;
* `at_takeSecond` … `at_countSwap` -- the swap;
* `at_compareLast`, `at_testSwaps` -- the ends of the two loops;
* `at_branch` -- **the branches, by the condition that they test**;
* `at_finish` -- the end.
-/

namespace Mc68000.SortProgram

open Status

variable {n : Nat} {m₀ m : Machine} {c c' : Cells}

/-! ## 1. The start -/

/-- A clear of the low word of a data register. -/
theorem execute_clearWord {i : Instruction} {k : Fin 8} (hop : i.operation = .clr)
    (hsize : i.size = .word)
    (hfield : ∀ r : Registers, r.fieldOperand? i.destination .word = some (.data k, r)) :
    i.execute (past i m) = .ok ()
      { m with
        registers := i.withLogical 0 ((m.registers.setPc i.nextAddress).writeData k 0 .word) } := by
  have hdestination : (past i m).registers.fieldOperand? i.destination i.size =
      some (.data k, (past i m).registers) := by rw [hsize]; exact hfield _
  rw [Instruction.execute_clr hop hdestination (by rw [hsize]; rfl)]
  rfl

theorem at_loadList (hl : Loaded n m₀) (h : At n m₀ c m) (hpc : c.pc = loadList.address) :
    Leads n m₀ m 1 { c with pc := clearCount.address, a0 := dataAddress } := by
  have hx := Instruction.execute_lea (i := loadList) (m := past loadList m) (a := dataAddress) rfl
    rfl
  exact h.leads hl (by decide) hpc hx ((h.shows.setPc _).writeA0 rfl) rfl

theorem at_clearCount (hl : Loaded n m₀) (h : At n m₀ c m) (hpc : c.pc = clearCount.address) :
    Leads n m₀ m 1 { c with pc := loadCount.address, d0 := Size.word.merge c.d0 0 } := by
  have hx := execute_clearWord (m := m) (i := clearCount) (k := 0) rfl rfl fun _ => rfl
  exact h.leads hl (by decide) hpc hx (((h.shows.setPc _).writeD0 _ _).withSr _) rfl

/-- The count is right before the values. -/
theorem At.count?_eq (hl : Loaded n m₀) (h : At n m₀ c m) (r : Registers) :
    (Operand.memory dataAddress).value? .byte r m.memory =
      some ((BitVec.ofNat 8 n).setWidth 32) := by
  have hfits := hl.fits
  have hdata : dataAddress.toNat = 0x2000 := rfl
  have hlist : listAddress.toNat = 0x2001 := rfl
  have hin : accessible dataAddress .byte
      (m₀.memory.setBytes listAddress.toNat c.values).capacity = true := by
    rw [Memory.accessible_byte_iff, Memory.capacity_setBytes]
    omega
  show ((m.memory.read _ .byte).toOption : Option Long) = _
  rw [h.memory_eq, Memory.read, if_pos hin]
  show some (((m₀.memory.setBytes listAddress.toNat c.values).byte dataAddress.toNat).setWidth
    32) = _
  rw [Memory.byte_setBytes_of_outside _ _ _ _ (.inl (by omega)), hl.count_eq]

theorem at_loadCount (hl : Loaded n m₀) (h : At n m₀ c m) (hpc : c.pc = loadCount.address)
    (ha0 : c.a0 = dataAddress) :
    Leads n m₀ m 1 { c with
      pc := loadLast.address
      a0 := listAddress
      d0 := Size.byte.merge c.d0 ((BitVec.ofNat 8 n).setWidth 32) } := by
  have hread : (past loadCount m).registers.readAddress 0 = dataAddress := h.shows.a0_eq.trans ha0
  have hvalue := h.count?_eq hl ((past loadCount m).registers.increment 0 .byte)
  rw [← hread] at hvalue
  have hx := Instruction.execute_move (i := loadCount) (m := past loadCount m) rfl rfl hvalue rfl
    rfl
  have hmoved : (past loadCount m).registers.readAddress 0 +
      BitVec.ofNat 32 (Registers.autoStep 0 .byte) = listAddress := by rw [hread]; rfl
  exact h.leads hl (by decide) hpc hx ((((h.shows.setPc _).writeA0 hmoved).writeD0 _ _).withSr _)
    rfl

/-- The address of the last value. -/
def lastAddress (n : Nat) : Address := dataAddress + BitVec.ofNat 32 n

theorem toNat_lastAddress (hn : n ≤ 255) : (lastAddress n).toNat = dataAddress.toNat + n := by
  have hdata : dataAddress.toNat = 0x2000 := rfl
  unfold lastAddress
  rw [BitVec.toNat_add, BitVec.toNat_ofNat]
  omega

/-- With the count in the low word of the index register, the index is the count. -/
theorem signExtend_count (hn : n ≤ 255) (d : Long) :
    Size.word.signExtend (Size.byte.merge (Size.word.merge d 0) ((BitVec.ofNat 8 n).setWidth 32)) =
      BitVec.ofNat 32 n := by
  generalize hv : Size.byte.merge (Size.word.merge d 0) ((BitVec.ofNat 8 n).setWidth 32) = v
  have hcount : Size.word.unsigned v = n := by
    have hbyte : Size.byte.unsigned ((BitVec.ofNat 8 n).setWidth 32) = n := by
      rw [Size.unsigned_eq_mod, BitVec.toNat_setWidth, BitVec.toNat_ofNat]
      show n % 256 % 4294967296 % 256 = n
      omega
    have hzero : Size.word.unsigned 0 = 0 := rfl
    have hfirst := Size.toNat_merge .word d 0
    have hsecond := Size.toNat_merge .byte (Size.word.merge d 0) ((BitVec.ofNat 8 n).setWidth 32)
    rw [hv, hbyte] at hsecond
    rw [Size.unsigned_eq_mod]
    simp only [Size.count] at hfirst hsecond ⊢
    omega
  have hsigned : (Size.word.signExtend v).toInt = n := by
    have hread := Size.signed_eq .word v
    have hhalf : ¬Size.word.half ≤ n := by
      show ¬0x8000 ≤ n
      omega
    rw [hcount, if_neg hhalf] at hread
    exact hread
  refine BitVec.eq_of_toInt_eq (hsigned.trans ?_)
  rw [BitVec.toInt_eq_toNat_of_lt] <;> rw [BitVec.toNat_ofNat] <;> omega

theorem at_loadLast (hl : Loaded n m₀) (h : At n m₀ c m) (hpc : c.pc = loadLast.address)
    (ha0 : c.a0 = listAddress) (hd0 : Size.word.signExtend c.d0 = BitVec.ofNat 32 n) :
    Leads n m₀ m 1 { c with pc := clearSwaps.address, a1 := lastAddress n } := by
  have hx := Instruction.execute_lea (i := loadLast) (m := past loadLast m) rfl rfl
  have hlast : (past loadLast m).registers.readAddress 0 +
      Size.word.signExtend ((past loadLast m).registers.readData 0) + (-1 : Address) =
      lastAddress n := by
    rw [show (past loadLast m).registers.readAddress 0 = _ from h.shows.a0_eq,
      show (past loadLast m).registers.readData 0 = _ from h.shows.d0_eq, ha0, hd0]
    unfold lastAddress listAddress dataAddress
    bv_omega
  exact h.leads hl (by decide) hpc hx ((h.shows.setPc _).writeA1 hlast) rfl

/-! ## 2. The start of a pass -/

theorem at_clearSwaps (hl : Loaded n m₀) (h : At n m₀ c m) (hpc : c.pc = clearSwaps.address) :
    Leads n m₀ m 1 { c with pc := startPass.address, d1 := Size.word.merge c.d1 0 } := by
  have hx := execute_clearWord (m := m) (i := clearSwaps) (k := 1) rfl rfl fun _ => rfl
  exact h.leads hl (by decide) hpc hx (((h.shows.setPc _).writeD1 _ _).withSr _) rfl

theorem at_startPass (hl : Loaded n m₀) (h : At n m₀ c m) (hpc : c.pc = startPass.address)
    (ha0 : c.a0 = listAddress) :
    Leads n m₀ m 1 { c with pc := takeFirst.address, a2 := listAddress } := by
  have hx := Instruction.execute_movea (i := startPass) (m := past startPass m) rfl rfl rfl
  have hstart : Size.long.truncate ((past startPass m).registers.readAddress 0) = listAddress := by
    rw [Size.truncate_long]
    exact h.shows.a0_eq.trans ha0
  exact h.leads hl (by decide) hpc hx ((h.shows.setPc _).writeA2 hstart) rfl

/-! ## 3. A pair -/

theorem at_takeFirst (hl : Loaded n m₀) (h : At n m₀ c m) (hpc : c.pc = takeFirst.address) {j : Nat}
    {x : Byte} (ha2 : c.a2 = valueAddress j) (hx : c.values[j]? = some x) :
    Leads n m₀ m 1 { c with
      pc := comparePair.address
      a2 := valueAddress (j + 1)
      d0 := Size.byte.merge c.d0 (x.setWidth 32) } := by
  have hread : (past takeFirst m).registers.readAddress 2 = valueAddress j :=
    h.shows.a2_eq.trans ha2
  have hvalue := h.value?_eq hl hx ((past takeFirst m).registers.increment 2 .byte)
  rw [← hread] at hvalue
  have hexec := Instruction.execute_move (i := takeFirst) (m := past takeFirst m) rfl rfl hvalue rfl
    rfl
  have hmoved : (past takeFirst m).registers.readAddress 2 +
      BitVec.ofNat 32 (Registers.autoStep 2 .byte) = valueAddress (j + 1) := by
    rw [hread, valueAddress_succ]
    rfl
  exact h.leads hl (by decide) hpc hexec
    ((((h.shows.setPc _).writeA2 hmoved).writeD0 _ _).withSr _) rfl

/-- The flags are those of the value in the register against the value in memory. -/
theorem at_comparePair (hl : Loaded n m₀) (h : At n m₀ c m) (hpc : c.pc = comparePair.address)
    {j : Nat} {y : Byte} (ha2 : c.a2 = valueAddress j) (hy : c.values[j]? = some y) :
    ∃ m', Machine.Advances 1 m m' ∧ At n m₀ { c with pc := skipSwap.address } m' ∧
      ∃ sr, m'.registers.sr =
        (⟨.byte, Size.byte.truncate c.d0, y.setWidth 32⟩ : Comparison).status sr := by
  have hread : (past comparePair m).registers.readAddress 2 = valueAddress j :=
    h.shows.a2_eq.trans ha2
  have hvalue := h.value?_eq hl hy (past comparePair m).registers
  rw [← hread] at hvalue
  have hexec := Instruction.execute_cmp (i := comparePair) (m := past comparePair m) rfl rfl hvalue
  obtain ⟨m', hm', hat, hr⟩ := h.advance_registers hl (by decide) hpc hexec
    ((h.shows.setPc _).withSr _) rfl
  refine ⟨m', hm', hat, m.registers.sr, ?_⟩
  rw [hr, ← h.shows.d0_eq]
  rfl

/-- **A branch goes by the condition that it tests.** -/
theorem at_branch (hl : Loaded n m₀) (h : At n m₀ c m) {i : Instruction} (hi : i ∈ listing)
    (hop : i.operation = .bcc) (hpc : c.pc = i.address) {p : Prop} [Decidable p]
    (hheld : m.registers.holds (Condition.ofOpcode i.opcode) = decide p) {taken next : Address}
    (htaken : i.address + 2 + i.branchDistance = taken) (hnext : i.nextAddress = next) :
    Leads n m₀ m 1 { c with pc := if p then taken else next } := by
  have hexec := Instruction.execute_bcc (k := past i m) hop
  rw [show (past i m).registers.holds _ = decide p from hheld] at hexec
  subst htaken hnext
  by_cases hp : p
  · rw [decide_eq_true hp] at hexec
    rw [if_pos hp]
    exact h.leads hl hi hpc hexec ((h.shows.setPc i.nextAddress).setPc _) rfl
  · rw [decide_eq_false hp] at hexec
    rw [if_neg hp]
    exact h.leads hl hi hpc hexec (h.shows.setPc _) rfl

/-! ## 4. The swap -/

theorem at_takeSecond (hl : Loaded n m₀) (h : At n m₀ c m) (hpc : c.pc = takeSecond.address)
    {j : Nat} {y : Byte} (ha2 : c.a2 = valueAddress j) (hy : c.values[j]? = some y) :
    Leads n m₀ m 1 { c with
      pc := putSecond.address
      d1 := Size.byte.merge c.d1 (y.setWidth 32) } := by
  have hread : (past takeSecond m).registers.readAddress 2 = valueAddress j :=
    h.shows.a2_eq.trans ha2
  have hvalue := h.value?_eq hl hy (past takeSecond m).registers
  rw [← hread] at hvalue
  have hexec := Instruction.execute_move (i := takeSecond) (m := past takeSecond m) rfl rfl hvalue
    rfl rfl
  exact h.leads hl (by decide) hpc hexec (((h.shows.setPc _).writeD1 _ _).withSr _) rfl

/-- A move of a register's low byte into the list. -/
theorem At.store (hl : Loaded n m₀) (h : At n m₀ c m) {i : Instruction} (hi : i ∈ listing)
    (hpc : c.pc = i.address) (hop : i.operation = .move) (hsize : i.size = .byte) {k : Fin 8}
    {d : Long} (hsource : ∀ r : Registers, r.fieldOperand? i.source .byte = some (.data k, r))
    (hd : m.registers.readData k = d) {j : Nat} (hj : j < n)
    (hdestination : (past i m).registers.fieldOperand? i.destination .byte =
      some (.memory (valueAddress j), (past i m).registers)) :
    Leads n m₀ m 1 { c with
      pc := i.nextAddress
      values := c.values.set j ((Size.byte.truncate d).setWidth 8) } := by
  generalize hv : Size.byte.truncate d = v
  have hvalue : (Operand.data k).value? .byte (past i m).registers (past i m).memory = some v :=
    congrArg some ((congrArg _ hd).trans hv)
  have hwrite := h.write_eq hl hj v (k := past i m) rfl
  rw [← hsize] at hsource hvalue hdestination hwrite
  have hexec := Instruction.execute_move hop (hsource _) hvalue hdestination hwrite
  obtain ⟨m', hm', hat, -⟩ := h.advance hl hi hpc hexec (by simpa using h.length_eq) rfl
    (((h.shows.setPc _).withSr _).withValues _)
  exact ⟨m', hm', hat⟩

theorem at_putSecond (hl : Loaded n m₀) (h : At n m₀ c m) (hpc : c.pc = putSecond.address)
    {j : Nat} (hj : j < n) (ha2 : c.a2 = valueAddress (j + 1)) :
    Leads n m₀ m 1 { c with
      pc := putFirst.address
      values := c.values.set j ((Size.byte.truncate c.d1).setWidth 8) } := by
  have hread : m.registers.readAddress 2 + (-1 : Address) = valueAddress j := by
    rw [h.shows.a2_eq, ha2, valueAddress_succ]
    bv_omega
  exact h.store hl (i := putSecond) (by decide) hpc rfl rfl (fun _ => rfl) h.shows.d1_eq hj
    (hread ▸ rfl)

theorem at_putFirst (hl : Loaded n m₀) (h : At n m₀ c m) (hpc : c.pc = putFirst.address)
    {j : Nat} (hj : j < n) (ha2 : c.a2 = valueAddress j) :
    Leads n m₀ m 1 { c with
      pc := countSwap.address
      values := c.values.set j ((Size.byte.truncate c.d0).setWidth 8) } :=
  h.store hl (i := putFirst) (by decide) hpc rfl rfl (fun _ => rfl) h.shows.d0_eq hj
    (h.shows.a2_eq.trans ha2 ▸ rfl)

theorem at_countSwap (hl : Loaded n m₀) (h : At n m₀ c m) (hpc : c.pc = countSwap.address) :
    Leads n m₀ m 1 { c with
      pc := compareLast.address
      d1 := Size.word.merge c.d1 (Size.word.truncate c.d1 + 1) } := by
  obtain ⟨change, hexec⟩ := Instruction.execute_addq (i := countSwap) (m := past countSwap m)
    (n := 1) rfl rfl
  have hd1 : (past countSwap m).registers.readData 1 = c.d1 := h.shows.d1_eq
  have hshows := ((h.shows.setPc countSwap.nextAddress).writeD1 (Size.word.truncate
    (Size.word.truncate c.d1 + 1)) .word).withSr (change.apply .word m.registers.sr)
  rw [hd1] at hexec
  rw [Size.merge_truncate] at hshows
  exact h.leads hl (by decide) hpc hexec hshows rfl

/-! ## 5. The ends of the loops -/

/-- The flags are those of the address of the last value against that of the next. -/
theorem at_compareLast (hl : Loaded n m₀) (h : At n m₀ c m) (hpc : c.pc = compareLast.address) :
    ∃ m', Machine.Advances 1 m m' ∧ At n m₀ { c with pc := nextPair.address } m' ∧
      ∃ sr, m'.registers.sr = (⟨.long, c.a1, c.a2⟩ : Comparison).status sr := by
  have hvalue : (Operand.address 2).value? .long (past compareLast m).registers m.memory =
      some ((past compareLast m).registers.readAddress 2) := congrArg some (Size.truncate_long _)
  have hexec := Instruction.execute_cmpa (i := compareLast) (m := past compareLast m) rfl rfl hvalue
  obtain ⟨m', hm', hat, hr⟩ := h.advance_registers hl (by decide) hpc hexec
    ((h.shows.setPc _).withSr _) rfl
  refine ⟨m', hm', hat, m.registers.sr, ?_⟩
  rw [hr, ← h.shows.a1_eq, ← h.shows.a2_eq]
  rfl

/-- The Z flag tells whether the swaps counted are none. -/
theorem at_testSwaps (hl : Loaded n m₀) (h : At n m₀ c m) (hpc : c.pc = testSwaps.address) :
    ∃ m', Machine.Advances 1 m m' ∧ At n m₀ { c with pc := nextPass.address } m' ∧
      m'.registers.holds .notEqual = decide (Size.word.unsigned c.d1 ≠ 0) := by
  have hexec := Instruction.execute_tst (i := testSwaps) (m := past testSwaps m) rfl rfl rfl
  obtain ⟨m', hm', hat, hr⟩ := h.advance_registers hl (by decide) hpc hexec
    ((h.shows.setPc _).withSr _) rfl
  refine ⟨m', hm', hat, ?_⟩
  have hsr : m'.registers.sr =
      (FlagChange.logical (Size.word.truncate c.d1)).apply .word m.registers.sr := by
    rw [hr, ← h.shows.d1_eq]
    rfl
  have hzero : hasFlag m'.registers.sr zero = decide (Size.word.unsigned c.d1 = 0) := by
    rw [hsr]
    show hasFlag (withNzvc _ .word _ false false) zero = _
    rw [hasFlag_zero_withNzvc, Size.truncate_truncate, decide_eq_decide]
    exact BitVec.toNat_inj.symm
  show (!hasFlag m'.registers.sr zero) = _
  rw [hzero, decide_not]

/-- The last instruction finishes, and changes nothing that the sort is about. -/
theorem at_finish (hl : Loaded n m₀) (h : At n m₀ c m) (hpc : c.pc = finish.address) :
    ∃ m', Machine.Advances 1 m m' ∧ m'.runState = .finished ∧
      m'.memory = m₀.memory.setBytes listAddress.toNat c.values ∧
      m'.registers.usp = m₀.registers.usp ∧ m'.registers.ssp = m₀.registers.ssp := by
  obtain ⟨hb, hstep⟩ := h.step_eq hl (i := finish) (by decide) hpc
  have hexec : finish.execute (past finish m) =
      .ok () { past finish m with runState := .finished } := Exec.rts_of_no_call h.callDepth_eq
  rw [hexec] at hstep
  exact ⟨_, .one hb hstep, rfl, h.memory_eq, h.shows.usp_eq, h.shows.ssp_eq⟩

end Mc68000.SortProgram
