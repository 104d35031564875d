import Mc68000.Proofs.Loads
import Mc68000.Proofs.SortProgram.Loops

/-!
# The sort sorts

From the loads of the program and of a list to the end of the run, on any machine.

* `holdsProgram_of_load`, `loaded_of_load` -- what the two loads leave;
* `loads_succeed` -- they succeed on every machine that has room for the list;
* `finishes_of_nodup` -- **over distinct values the run finishes, and the list is in order**;
* `endless_of_not_nodup` -- **over others it comes to every limit**;
* `run_sorts` -- both, and so the run ends exactly if the values are distinct.
-/

namespace Mc68000.SortProgram

open Machine

variable {m₀ m₁ m : Machine} {vs : List Byte} {clearFirst : Bool}

/-! ## 1. The loads -/

theorem length_program : (wordsToBytes words).length = 42 := length_wordsToBytes words

/-- A machine that has just loaded the program is at its first instruction. -/
theorem holdsProgram_of_load
    (h : loadProgram (wordsToBytes words) loadAddress clearFirst m₀ = .ok () m₁) :
    HoldsProgram m₁.code ∧ m₁.runState = .running ∧ m₁.callDepth = 0 ∧
      m₁.registers.pc = loadList.address := by
  have hstart : loadAddress.toNat = 0x1000 := rfl
  have hend : endAddress.toNat = 0x102A := rfl
  obtain ⟨-, hroom, rfl⟩ := loadProgram_eq_ok_iff.mp h
  rw [← Memory.capacity_beforeFill m₀.memory clearFirst] at hroom
  have hwords (k : Nat) (hk : k < words.length) :
      ((m₀.memory.beforeFill clearFirst).setBytes loadAddress.toNat (wordsToBytes words)).wordAt
        (loadAddress.toNat + 2 * k) = words[k] :=
    Memory.wordAt_setBytes (by rwa [length_wordsToBytes] at hroom) hk
  have hlength := length_program
  clear h
  -- the bytes are not to be computed below
  generalize wordsToBytes words = bytes at *
  refine ⟨⟨?_, ?_, hwords⟩, rfl, rfl, rfl⟩
  · show loadAddress + BitVec.ofNat 32 bytes.length = endAddress
    rw [hlength]
    rfl
  · show endAddress.toNat ≤ ((m₀.memory.beforeFill clearFirst).setBytes _ _).capacity
    rw [Memory.capacity_setBytes]
    omega

/-- A machine that has loaded a list behind the program has it at its place. -/
theorem loaded_of_load (hp : HoldsProgram m₁.code)
    (h : loadData (BitVec.ofNat 8 vs.length :: vs) dataAddress false m₁ = .ok () m)
    (hmin : 2 ≤ vs.length) (hmax : vs.length ≤ 255) :
    Loaded vs.length m ∧ m.memory = m.memory.setBytes listAddress.toNat vs ∧
      ∃ memory, m = { m₁ with memory } := by
  have hlist : listAddress.toNat = dataAddress.toNat + 1 := rfl
  obtain ⟨hroom, rfl⟩ := loadData_eq_ok_iff.mp h
  rw [List.length_cons] at hroom
  refine ⟨⟨hp.setBytes (by decide) _, ?_, ?_, hmin, hmax⟩, ?_, _, rfl⟩
  · have hcount := Memory.byte_setBytes_of_inside m₁.memory dataAddress.toNat 0
      (BitVec.ofNat 8 vs.length :: vs) (Nat.zero_lt_succ _) hroom
    exact hcount
  · show _ ≤ (m₁.memory.setBytes _ _).capacity
    rw [Memory.capacity_setBytes]
    omega
  · have hroom' : listAddress.toNat + vs.length ≤
        (m₁.memory.setByte dataAddress.toNat (BitVec.ofNat 8 vs.length)).capacity := by
      rw [Memory.capacity_setByte]
      omega
    exact (Memory.setBytes_setBytes hroom').symm

/-- The cells of a machine that has loaded a list. -/
def startCells (m : Machine) (vs : List Byte) : Cells :=
  { pc := loadList.address
    a0 := m.registers.readAddress 0
    a1 := m.registers.readAddress 1
    a2 := m.registers.readAddress 2
    d0 := m.registers.readData 0
    d1 := m.registers.readData 1
    values := vs }

/-- **After the two loads the sort is at its start**, whatever else there is in the machine. -/
theorem at_of_loads
    (hprogram : loadProgram (wordsToBytes words) loadAddress clearFirst m₀ = .ok () m₁)
    (hdata : loadData (BitVec.ofNat 8 vs.length :: vs) dataAddress false m₁ = .ok () m)
    (hmin : 2 ≤ vs.length) (hmax : vs.length ≤ 255) :
    Loaded vs.length m ∧ At vs.length m (startCells m vs) m := by
  obtain ⟨hp, hrunning, hdepth, hpc⟩ := holdsProgram_of_load hprogram
  obtain ⟨hl, hmemory, memory, rfl⟩ := loaded_of_load hp hdata hmin hmax
  exact ⟨hl, hrunning, hdepth, rfl, rfl, hmemory, ⟨hpc, rfl, rfl, rfl, rfl, rfl, rfl, rfl⟩⟩

/-- The loads succeed on every machine that has room for the list. -/
theorem loads_succeed (vs : List Byte) (clearFirst : Bool)
    (hroom : listAddress.toNat + vs.length ≤ m₀.memory.capacity) :
    ∃ m₁ m, loadProgram (wordsToBytes words) loadAddress clearFirst m₀ = .ok () m₁ ∧
      loadData (BitVec.ofNat 8 vs.length :: vs) dataAddress false m₁ = .ok () m := by
  have hstart : loadAddress.toNat = 0x1000 := rfl
  have hlist : listAddress.toNat = 0x2001 := rfl
  have hdata : dataAddress.toNat = 0x2000 := rfl
  have hcount : Long.count = 0x100000000 := rfl
  have hlength := length_program
  generalize wordsToBytes words = bytes at hlength ⊢
  refine ⟨_, _, loadProgram_eq_ok_iff.mpr ⟨by omega, by omega, rfl⟩,
    loadData_eq_ok_iff.mpr ⟨?_, rfl⟩⟩
  show _ ≤ ((m₀.memory.beforeFill clearFirst).setBytes _ _).capacity
  rw [Memory.capacity_setBytes, Memory.capacity_beforeFill, List.length_cons]
  omega

/-! ## 2. The run -/

/-- What the sort is for: the values of the list in ascending order, without a sign, in their place,
    and all other memory and the two stack pointers as they were. -/
structure LeavesSorted (vs : List Byte) (m m' : Machine) : Prop where
  range_eq : ∃ sorted, m'.memory.range listAddress vs.length = .ok sorted ∧ sorted.Perm vs ∧
    sorted.Pairwise (· < ·)
  capacity_eq : m'.memory.capacity = m.memory.capacity
  byte_eq : ∀ k, k < listAddress.toNat ∨ listAddress.toNat + vs.length ≤ k →
    m'.memory.byte k = m.memory.byte k
  usp_eq : m'.registers.usp = m.registers.usp
  ssp_eq : m'.registers.ssp = m.registers.ssp

variable {c : Cells} {n : Nat}

/-- **Over distinct values the run finishes, and the list is in order.** -/
theorem finishes_of_nodup (hl : Loaded n m) (h : At n m c m) (hpc : c.pc = loadList.address)
    (hd : c.values.Nodup) :
    ∃ steps cycles m', m.run? = some (.ok { steps, cycles, boundary := .finished } m') ∧
      LeavesSorted c.values m m' := by
  obtain ⟨c₁, ⟨m₁, hm₁, h₁⟩, hpc₁, hc₁⟩ := start_leads hl h hpc
  obtain ⟨k, c₂, hk, ⟨m₂, hm₂, h₂⟩, hpc₂, hperm, hsorted⟩ := sort_leads hl hd h₁ hpc₁ hc₁
  obtain ⟨m', hm', hfinished, hmemory, husp, hssp⟩ := at_finish hl h₂ hpc₂
  have hlength := h.length_eq
  have hlength₂ := h₂.length_eq
  have hroom := hl.fits
  have hmax := hl.le_max
  have hsteps : 4 + k + 1 ≤ stepCounts := by
    have hinversions : inversions c.values ≤ 255 * 255 :=
      Nat.le_trans (inversions_le c.values) (Nat.mul_le_mul (by omega) (by omega))
    have hpasses : 9 * n * (inversions c.values + 1) ≤ 9 * 255 * (255 * 255 + 1) :=
      Nat.mul_le_mul (by omega) (by omega)
    have hcounts : stepCounts = 0x10000000000000000 := rfl
    omega
  have hb : m'.boundary? = some .finished := by
    unfold boundary?
    rw [hfinished]
  obtain ⟨cycles, hrun⟩ := ((hm₁.trans hm₂).trans hm').run?_eq hb nofun hsteps
  refine ⟨_, cycles, m', hrun, ⟨c₂.values, ?_, hperm, hsorted⟩, ?_, fun k hk => ?_, husp, hssp⟩
  · rw [hmemory, hlength, ← hlength₂]
    exact Memory.range_setBytes (by omega)
  · rw [hmemory, Memory.capacity_setBytes]
  · rw [hmemory]
    exact Memory.byte_setBytes_of_outside _ _ _ _ (by omega)

/-- **With two equal values the run goes on and on.** -/
theorem endless_of_not_nodup (hl : Loaded n m) (h : At n m c m) (hpc : c.pc = loadList.address)
    (hd : ¬c.values.Nodup) (limit : Nat) : ∃ k m', limit < k ∧ Advances k m m' := by
  obtain ⟨c₁, ⟨m₁, hm₁, h₁⟩, hpc₁, hc₁⟩ := start_leads hl h hpc
  obtain ⟨k, c₂, hk, m₂, hm₂, -⟩ := endless_leads hl hd h₁ hpc₁ hc₁ limit
  exact ⟨4 + k, m₂, by omega, hm₁.trans hm₂⟩

/-- **The program is a sort of distinct values.** Loaded with a list of 2 to 255 values into any
    machine, its run ends exactly if the values are distinct; it finishes then with the values in
    order, and nothing else that it could spoil has changed. If two values are equal, a run with a
    limit comes to the limit, whichever it is. -/
theorem run_sorts
    (hprogram : loadProgram (wordsToBytes words) loadAddress clearFirst m₀ = .ok () m₁)
    (hdata : loadData (BitVec.ofNat 8 vs.length :: vs) dataAddress false m₁ = .ok () m)
    (hmin : 2 ≤ vs.length) (hmax : vs.length ≤ 255) :
    (m.run?.isSome ↔ vs.Nodup) ∧ ((∃ r, m.Ends r) ↔ vs.Nodup) ∧
      (vs.Nodup → ∃ outcome m', m.run? = some (.ok outcome m') ∧ outcome.boundary = .finished ∧
        LeavesSorted vs m m') ∧
      (¬vs.Nodup → ∀ k, ∃ outcome m', m.runWithLimit k = .ok outcome m' ∧
        outcome.boundary = .stepLimit) := by
  obtain ⟨hl, h⟩ := at_of_loads hprogram hdata hmin hmax
  have hfinishes (hd : vs.Nodup) := finishes_of_nodup hl h rfl hd
  have hendless (hd : ¬vs.Nodup) := endless_of_not_nodup hl h rfl hd
  have hnever (hd : ¬vs.Nodup) (r : RunResult) : ¬m.Ends r := not_ends_of_endless (hendless hd) r
  refine ⟨⟨fun hsome => ?_, fun hd => ?_⟩, ⟨?_, fun hd => ?_⟩, fun hd => ?_, fun hd k => ?_⟩
  · obtain ⟨r, hr⟩ := Option.isSome_iff_exists.mp hsome
    exact Decidable.byContradiction fun hd => hnever hd r (ends_of_run? hr)
  · obtain ⟨steps, cycles, m', hrun, -⟩ := hfinishes hd
    rw [hrun]
    rfl
  · rintro ⟨r, hr⟩
    exact Decidable.byContradiction fun hd => hnever hd r hr
  · obtain ⟨steps, cycles, m', hrun, -⟩ := hfinishes hd
    exact ⟨_, ends_of_run? hrun⟩
  · obtain ⟨steps, cycles, m', hrun, hsorted⟩ := hfinishes hd
    exact ⟨_, m', hrun, rfl, hsorted⟩
  · obtain ⟨cycles, m', hlimit⟩ := stepLimit_of_endless (hendless hd) k
    exact ⟨_, m', hlimit, rfl⟩

/-- Three values on a machine with no more room than they need. -/
theorem run_sorts_three : ∃ m₁ m outcome m',
    loadProgram (wordsToBytes words) loadAddress true
      (new { memoryBytes := 0x2004, traceInstructions := false }) = .ok () m₁ ∧
    loadData [3, 30, 10, 20] dataAddress false m₁ = .ok () m ∧
    m.run? = some (.ok outcome m') ∧ outcome.boundary = .finished ∧
    m'.memory.range listAddress 3 = .ok [10, 20, 30] := by
  have hroom : listAddress.toNat + [30, 10, 20].length ≤
      (new { memoryBytes := 0x2004, traceInstructions := false }).memory.capacity := by
    show 0x2004 ≤ (Memory.zeros 0x2004).capacity
    exact Nat.le_of_eq (Memory.capacity_zeros 0x2004).symm
  obtain ⟨m₁, m, hprogram, hdata⟩ := loads_succeed [30, 10, 20] true hroom
  obtain ⟨-, -, hfinishes, -⟩ := run_sorts hprogram hdata (by decide) (by decide)
  obtain ⟨outcome, m', hrun, hboundary, hleaves⟩ := hfinishes (by decide)
  obtain ⟨sorted, hrange, hperm, hsorted⟩ := hleaves.range_eq
  have hunique : sorted = [10, 20, 30] :=
    List.Perm.eq_of_pairwise (fun _ _ _ _ hab hba => absurd hba (BitVec.lt_asymm hab)) hsorted
      (by decide) (hperm.trans (by decide))
  exact ⟨m₁, m, outcome, m', hprogram, hdata, hrun, hboundary, hunique ▸ hrange⟩

end Mc68000.SortProgram
