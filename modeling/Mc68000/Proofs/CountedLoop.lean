import Mc68000.Proofs.Advance
import Mc68000.Proofs.Execution
import Mc68000.Proofs.Linkage
import Mc68000.Proofs.LoadedProgram

/-!
# A counted loop

Two instructions, one that counts a register up and a `DBF` back to it that counts another one down.
The low word of the second decides how often they run.

* `CountedLoop.words` -- the program;
* `fetch_up`, `fetch_down` -- what is fetched at its two instructions;
* `Counted` -- registers between which so much has been counted up and down; `Counted.up`,
  `Counted.down` -- what each instruction adds to it;
* `Reached` -- the machines on the way; `turn_leads` -- **one turn**;
* `turns_lead` -- **all turns but the last**, by induction on their number;
* `run_counts` -- **the loop ends after one turn more than its counter says**.
-/

namespace Mc68000.CountedLoop

variable {counted counter : Fin 8} {a : Address} {c : Code}

/-! ## 1. The program -/

/-- `ADDQ.W #1` to one data register and, behind it, a `DBF` of another one back to it. -/
def words (counted counter : Fin 8) : List Word :=
  [0x5240 ||| BitVec.ofNat 16 counted.val, 0x51C8 ||| BitVec.ofNat 16 counter.val, 0xFFFC]

/-- What its opcodes stand for. -/
theorem decode?_up : ∀ n : Fin 8,
    Code.decode? (0x5240 ||| BitVec.ofNat 16 n.val) =
      some (.arithQuick .add, ⟨.word, 0, none, some (BitVec.ofNat 6 n.val)⟩) := by
  decide

theorem decode?_down : ∀ n : Fin 8,
    Code.decode? (0x51C8 ||| BitVec.ofNat 16 n.val) = some (.dbcc, ⟨.word, 1, none, none⟩) := by
  decide

/-- What is fetched at the first word. -/
structure IsUp (counted : Fin 8) (i : Instruction) : Prop where
  operation_eq : i.operation = .arithQuick .add
  size_eq : i.size = .word
  value_eq : i.quickValue = 1
  field_eq : ∀ r : Registers, r.fieldOperand? i.destination .word = some (.data counted, r)

/-- What is fetched at the second word. -/
structure IsDown (counter : Fin 8) (target : Address) (i : Instruction) : Prop where
  operation_eq : i.operation = .dbcc
  condition_eq : Condition.ofOpcode i.opcode = .never
  counter_eq : i.lowRegister = counter
  target_eq : i.address + 2 + Exec.wordDistance i = target

/-- The fields of the first opcode. -/
theorem isUp_of_decoded {i : Instruction} (hop : i.operation = .arithQuick .add)
    (hopcode : i.opcode = 0x5240 ||| BitVec.ofNat 16 counted.val)
    (hi : i.Decoded ⟨.word, 0, none, some (BitVec.ofNat 6 counted.val)⟩) : IsUp counted i where
  operation_eq := hop
  size_eq := hi.size_eq
  value_eq := by
    have hliteral : ∀ n : Fin 8,
        ((0x5240 ||| BitVec.ofNat 16 n.val : Word).extractLsb' 9 3).toFin = 1 := by decide
    unfold Instruction.quickValue Instruction.highRegister
    rw [hopcode, hliteral]
    rfl
  field_eq r := by
    have hmode : ∀ n : Fin 8,
        AddressingMode.ofField? (BitVec.ofNat 6 n.val) = some (.dataDirect n) := by decide
    obtain ⟨ea, hea, hfield⟩ := Option.map_eq_some_iff.mp hi.destination_eq
    unfold Registers.fieldOperand?
    rw [hea, Option.bind_some, EffectiveAddress.mode?, hfield, hmode]
    rfl

theorem fetch_up (h : Code.Stream c a (words counted counter) c.codeEnd) :
    ∃ i past, c.fetch a = .ok (some i) past ∧ i.nextAddress = a + 2 ∧ IsUp counted i := by
  have hbare : ∀ n : Fin 8, (Layout.mk .word 0 none (some (BitVec.ofNat 6 n.val))).words = 0 := by
    decide
  obtain ⟨i, past, hfetch, hopcode, hop, hi, haddress, hlength⟩ :=
    Code.fetch_of_stream h (decode?_up counted) (by rw [hbare]; exact Nat.zero_le _)
  refine ⟨i, past, hfetch, ?_, isUp_of_decoded hop hopcode hi⟩
  unfold Instruction.nextAddress
  rw [haddress, hlength, hbare]
  rfl

/-- The distance of the branch is counted from its own word, four bytes behind the target. -/
theorem fetch_down (h : Code.Stream c a (words counted counter) c.codeEnd) :
    ∃ i past, c.fetch (a + 2) = .ok (some i) past ∧ i.nextAddress = a + 6 ∧
      IsDown counter a i := by
  have hcondition : ∀ n : Fin 8,
      Condition.ofOpcode (0x51C8 ||| BitVec.ofNat 16 n.val) = .never := by decide
  have hregister : ∀ n : Fin 8,
      ((0x51C8 ||| BitVec.ofNat 16 n.val : Word).extractLsb' 0 3).toFin = n := by decide
  have hword : c.memory.wordAt (a.toNat + 2 * 2) = 0xFFFC :=
    (h.getElem_eq 2 (Nat.lt_succ_self 2)).symm
  cases h with
  | cons hend _ _ h =>
    have htwo : (a + 2).toNat = a.toNat + 2 := Code.Stream.toNat_add_two hend
    obtain ⟨i, past, hfetch, hopcode, hop, hi, haddress, hlength⟩ :=
      Code.fetch_of_stream h (decode?_down counter) (Nat.le_refl 1)
    have hsize : i.extension.size = 1 := by
      obtain ⟨layout, hi', hsize⟩ := Code.size_of_fetch hfetch
      cases hi.decode_eq.symm.trans hi'.decode_eq
      exact hsize
    have hdistance : i.extension.word = 0xFFFC := by
      rw [Code.word_of_fetch hfetch (by rw [hsize]; decide), htwo, Nat.add_assoc]
      exact hword
    refine ⟨i, past, hfetch, ?_, ⟨hop, ?_, ?_, ?_⟩⟩
    · unfold Instruction.nextAddress
      rw [haddress, hlength, BitVec.add_assoc]
      rfl
    · rw [hopcode, hcondition]
    · unfold Instruction.lowRegister
      rw [hopcode, hregister]
    · unfold Exec.wordDistance
      rw [haddress, hdistance, BitVec.add_assoc, BitVec.add_assoc]
      exact BitVec.add_zero a

/-! ## 2. What has been counted -/

/-- Registers between which one data register has been counted up and another one down so often, at
    their low words. The program counter and the condition codes may be any. -/
structure Counted (counted counter : Fin 8) (ups downs : Nat) (r r' : Registers) : Prop where
  counted_eq : r'.readData counted =
    Size.word.merge (r.readData counted) (r.readData counted + BitVec.ofNat 32 ups)
  counter_eq : r'.readData counter =
    Size.word.merge (r.readData counter) (r.readData counter - BitVec.ofNat 32 downs)
  data_eq : ∀ n, n ≠ counted → n ≠ counter → r'.readData n = r.readData n
  address_eq : r'.address = r.address
  usp_eq : r'.usp = r.usp
  ssp_eq : r'.ssp = r.ssp
  sr_agree : Status.AgreeOutside Status.conditions r'.sr r.sr

namespace Counted

variable {r r' : Registers} {ups downs : Nat}

/-- At first nothing has been counted. -/
theorem start (r : Registers) : Counted counted counter 0 0 r r where
  counted_eq := by
    rw [show BitVec.ofNat 32 0 = 0#32 from rfl, BitVec.add_zero, Size.merge_self]
  counter_eq := by
    rw [show BitVec.ofNat 32 0 = 0#32 from rfl, BitVec.sub_zero, Size.merge_self]
  data_eq _ _ _ := rfl
  address_eq := rfl
  usp_eq := rfl
  ssp_eq := rfl
  sr_agree := .refl _ _

theorem setPc (h : Counted counted counter ups downs r r') (p : Address) :
    Counted counted counter ups downs r (r'.setPc p) :=
  ⟨h.counted_eq, h.counter_eq, h.data_eq, h.address_eq, h.usp_eq, h.ssp_eq, h.sr_agree⟩

/-- **Once more up.** The sum is that of the low words, cut to a word. -/
theorem up (hne : counter ≠ counted) (h : Counted counted counter ups downs r r')
    (change : FlagChange) :
    Counted counted counter (ups + 1) downs r
      { r'.writeData counted (Size.word.truncate (Size.word.truncate (r'.readData counted) +
          Size.word.truncate 1)) .word with sr := change.apply .word r'.sr } where
  counted_eq := by
    show (r'.writeData counted _ .word).readData counted = _
    rw [Registers.readData_writeData, if_pos rfl, Size.merge_truncate, h.counted_eq,
      Size.merge_merge]
    refine Size.merge_congr _ ?_
    rw [BitVec.ofNat_add, ← BitVec.add_assoc, Size.truncate_merge]
    exact Size.unsigned_add_congr (Size.unsigned_truncate ..) (Size.unsigned_truncate ..)
  counter_eq := by
    rw [← h.counter_eq]
    exact (Registers.readData_writeData ..).trans (if_neg hne)
  data_eq n hcounted hcounter := by
    rw [← h.data_eq n hcounted hcounter]
    exact (Registers.readData_writeData ..).trans (if_neg hcounted)
  address_eq := h.address_eq
  usp_eq := h.usp_eq
  ssp_eq := h.ssp_eq
  sr_agree :=
    ((change.agreeOutside_apply .word r'.sr).mono change.mask_and_conditions).trans h.sr_agree

/-- **Once more down.** -/
theorem down (hne : counter ≠ counted) (h : Counted counted counter ups downs r r')
    {i : Instruction} (hi : i.lowRegister = counter) :
    Counted counted counter ups (downs + 1) r (i.counted r') := by
  have hwritten : Counted counted counter ups (downs + 1) r
      (r'.writeData counter (Size.word.truncate (r'.readData counter - 1)) .word) :=
    { counted_eq := by
        rw [← h.counted_eq]
        exact (Registers.readData_writeData ..).trans (if_neg hne.symm)
      counter_eq := by
        rw [Registers.readData_writeData, if_pos rfl, Size.merge_truncate, h.counter_eq,
          Size.merge_merge]
        refine Size.merge_congr _ ?_
        rw [BitVec.ofNat_add, ← BitVec.sub_sub, BitVec.sub_eq_add_neg, BitVec.sub_eq_add_neg _ 1#32]
        exact Size.unsigned_add_congr (Size.unsigned_merge ..) rfl
      data_eq := fun n hcounted hcounter => by
        rw [← h.data_eq n hcounted hcounter]
        exact (Registers.readData_writeData ..).trans (if_neg hcounter)
      address_eq := h.address_eq
      usp_eq := h.usp_eq
      ssp_eq := h.ssp_eq
      sr_agree := h.sr_agree }
  unfold Instruction.counted
  rw [hi]
  dsimp only
  split
  · exact hwritten.setPc _
  · exact hwritten

end Counted

/-! ## 3. The machines on the way -/

/-- A machine on its way through the loop from `m₀`. -/
structure Reached (counted counter : Fin 8) (m₀ : Machine) (ups downs : Nat) (pc : Address)
    (m : Machine) : Prop where
  running : m.runState = .running
  code_eq : m.code = m₀.code
  pc_eq : m.registers.pc = pc
  counts : Counted counted counter ups downs m₀.registers m.registers

variable {m₀ m : Machine} {ups downs : Nat}

theorem Reached.memory_eq {pc : Address} (h : Reached counted counter m₀ ups downs pc m) :
    m.memory = m₀.memory := congrArg Code.memory h.code_eq

/-- Before the end of the code nothing ends the run. -/
theorem Reached.boundary?_eq {pc : Address} (h : Reached counted counter m₀ ups downs pc m)
    (hpc : pc.toNat < m₀.codeEnd.toNat) : m.boundary? = none := by
  have hend : m.codeEnd = m₀.codeEnd := congrArg Code.codeEnd h.code_eq
  have hat : ¬m.atEndOfCode = true := by
    rw [Machine.atEndOfCode_iff, hend, h.pc_eq]
    exact Nat.not_le_of_lt hpc
  unfold Machine.boundary?
  rw [h.running]
  exact if_neg hat

/-- At the end of the code the run ends. -/
theorem Reached.boundary?_end {pc : Address} (h : Reached counted counter m₀ ups downs pc m)
    (hpc : pc = m₀.codeEnd) : m.boundary? = some .endOfCode := by
  have hend : m.codeEnd = m₀.codeEnd := congrArg Code.codeEnd h.code_eq
  have hat : m.atEndOfCode = true := by
    refine Machine.atEndOfCode_iff.mpr (Nat.le_of_eq ?_)
    rw [hend, h.pc_eq, hpc]
  unfold Machine.boundary?
  rw [h.running]
  exact if_pos hat

/-- The two instructions stand in front of the end of the code. -/
theorem toNat_lt_codeEnd (hcode : Code.Stream m₀.code a (words counted counter) m₀.codeEnd) :
    a.toNat < m₀.codeEnd.toNat ∧ (a + 2).toNat < m₀.codeEnd.toNat := by
  have hend : m₀.codeEnd.toNat = a.toNat + 2 * 3 := hcode.toNat_end
  have htwo : (a + 2).toNat = a.toNat + 2 :=
    Code.Stream.toNat_add_two (c := m₀.code) (show a.toNat + 2 ≤ m₀.codeEnd.toNat by omega)
  omega

/-- **The first instruction counts up.** -/
theorem up_leads (hne : counter ≠ counted)
    (hcode : Code.Stream m₀.code a (words counted counter) m₀.codeEnd)
    (h : Reached counted counter m₀ ups downs a m) :
    ∃ m', Machine.Advances 1 m m' ∧ Reached counted counter m₀ (ups + 1) downs (a + 2) m' := by
  obtain ⟨i, past, hfetch, hnext, hi⟩ := fetch_up hcode
  have hb := h.boundary?_eq (toNat_lt_codeEnd hcode).1
  rw [← h.code_eq, ← h.pc_eq] at hfetch
  have hfield : (m.registers.setPc (a + 2)).fieldOperand? i.destination i.size =
      some (.data counted, m.registers.setPc (a + 2)) := by
    rw [hi.size_eq]
    exact hi.field_eq _
  obtain ⟨change, hx⟩ := Instruction.execute_addq
    (m := { m with registers := m.registers.setPc (a + 2) }) hi.operation_eq hfield
  have hs := Machine.step_of_fetched h.running hfetch
  rw [hnext, hx] at hs
  refine ⟨_, .one hb hs, h.running, h.code_eq, rfl, ?_⟩
  rw [hi.size_eq, hi.value_eq]
  exact (h.counts.setPc (a + 2)).up hne change

/-- **The second counts down**, and goes back unless the counter was at zero. -/
theorem down_leads (hne : counter ≠ counted)
    (hcode : Code.Stream m₀.code a (words counted counter) m₀.codeEnd)
    (h : Reached counted counter m₀ ups downs (a + 2) m) :
    ∃ m', Machine.Advances 1 m m' ∧
      Reached counted counter m₀ ups (downs + 1)
        (if Size.word.unsigned (m.registers.readData counter) = 0 then a + 6 else a) m' := by
  obtain ⟨i, past, hfetch, hnext, hi⟩ := fetch_down hcode
  have hb := h.boundary?_eq (toNat_lt_codeEnd hcode).2
  rw [← h.code_eq, ← h.pc_eq] at hfetch
  have hnever : (m.registers.setPc (a + 6)).holds (Condition.ofOpcode i.opcode) = false := by
    rw [hi.condition_eq]
    rfl
  have hx := Instruction.execute_dbcc
    (k := { m with registers := m.registers.setPc (a + 6) }) hi.operation_eq
  rw [hnever, if_neg Bool.false_ne_true] at hx
  have hs := Machine.step_of_fetched h.running hfetch
  rw [hnext, hx] at hs
  refine ⟨_, .one hb hs, h.running, h.code_eq, ?_, ?_⟩
  · show (i.counted (m.registers.setPc (a + 6))).pc = _
    rw [Instruction.pc_counted, hi.counter_eq, hi.target_eq]
    rfl
  · exact (h.counts.setPc (a + 6)).down hne hi.counter_eq

/-- **One turn.** -/
theorem turn_leads (hne : counter ≠ counted)
    (hcode : Code.Stream m₀.code a (words counted counter) m₀.codeEnd) {turns : Nat}
    (h : Reached counted counter m₀ turns turns a m) :
    ∃ m', Machine.Advances 2 m m' ∧
      Reached counted counter m₀ (turns + 1) (turns + 1)
        (if Size.word.unsigned (m.registers.readData counter) = 0 then a + 6 else a) m' := by
  obtain ⟨m₁, hup, h₁⟩ := up_leads hne hcode h
  obtain ⟨m₂, hdown, h₂⟩ := down_leads hne hcode h₁
  have hcounter : m₁.registers.readData counter = m.registers.readData counter :=
    h₁.counts.counter_eq.trans h.counts.counter_eq.symm
  rw [hcounter] at h₂
  exact ⟨m₂, hup.trans hdown, h₂⟩

/-! ## 4. The loop -/

namespace Counted

variable {r r' : Registers}

/-- The low word of the counter, which wraps below zero. -/
theorem unsigned_counter_eq (h : Counted counted counter ups downs r r') :
    Size.word.unsigned (r'.readData counter) =
      (Size.word.unsigned (r.readData counter) + 0x10000 - downs % 0x10000) % 0x10000 := by
  have hcount : Size.word.count = 0x10000 := rfl
  have hlt := Size.word.unsigned_lt_count (r'.readData counter)
  have hnumber := Size.word.unsigned_ofNat downs
  rw [h.counter_eq, Size.unsigned_merge, hcount] at hlt
  rw [hcount] at hnumber
  rw [h.counter_eq, Size.unsigned_merge]
  rcases Size.word.unsigned_sub (r.readData counter) (BitVec.ofNat 32 downs) with
    ⟨_, hsub⟩ | ⟨_, hsub⟩
  all_goals omega

/-- For as long as it has not passed zero. -/
theorem unsigned_counter (h : Counted counted counter ups downs r r')
    (hdowns : downs ≤ Size.word.unsigned (r.readData counter)) :
    Size.word.unsigned (r'.readData counter) =
      Size.word.unsigned (r.readData counter) - downs := by
  have hlt : Size.word.unsigned (r.readData counter) < 0x10000 := Size.word.unsigned_lt_count _
  have hcounter := h.unsigned_counter_eq
  omega

/-- Past zero it is -1. -/
theorem unsigned_counter_last
    (h : Counted counted counter ups (Size.word.unsigned (r.readData counter) + 1) r r') :
    Size.word.unsigned (r'.readData counter) = 0xFFFF := by
  have hlt : Size.word.unsigned (r.readData counter) < 0x10000 := Size.word.unsigned_lt_count _
  have hcounter := h.unsigned_counter_eq
  omega

/-- The low word of the other register, which may wrap. -/
theorem unsigned_counted (h : Counted counted counter ups downs r r') :
    Size.word.unsigned (r'.readData counted) =
      (Size.word.unsigned (r.readData counted) + ups) % 0x10000 := by
  have hcount : Size.word.count = 0x10000 := rfl
  rw [h.counted_eq, Size.unsigned_merge, Size.unsigned_add, Size.unsigned_ofNat, hcount,
    Nat.add_mod_mod]

/-- The high words of all data registers stay. -/
theorem high_eq (h : Counted counted counter ups downs r r') (n : Fin 8) :
    (r'.readData n).toNat / 0x10000 = (r.readData n).toNat / 0x10000 := by
  by_cases hcounted : n = counted
  · rw [hcounted, h.counted_eq]
    exact Size.toNat_merge_div ..
  · by_cases hcounter : n = counter
    · rw [hcounter, h.counter_eq]
      exact Size.toNat_merge_div ..
    · rw [h.data_eq n hcounted hcounter]

end Counted

/-- **All turns but the last**, by induction on their number: each finds the counter above zero, so
    it comes back to the first instruction. -/
theorem turns_lead (hne : counter ≠ counted)
    (hcode : Code.Stream m₀.code a (words counted counter) m₀.codeEnd)
    (hrun : m₀.runState = .running) (hpc : m₀.registers.pc = a) (turns : Nat)
    (hturns : turns ≤ Size.word.unsigned (m₀.registers.readData counter)) :
    ∃ m, Machine.Advances (2 * turns) m₀ m ∧ Reached counted counter m₀ turns turns a m := by
  induction turns with
  | zero => exact ⟨m₀, .refl m₀, hrun, rfl, hpc, .start _⟩
  | succ turns ih =>
    obtain ⟨m, hm, h⟩ := ih (Nat.le_of_succ_le hturns)
    obtain ⟨m', hm', h'⟩ := turn_leads hne hcode h
    have hcounter := h.counts.unsigned_counter (Nat.le_of_succ_le hturns)
    rw [if_neg (by omega)] at h'
    exact ⟨m', hm.trans hm', h'⟩

/-- The turn that finds the counter at zero leaves the loop. -/
theorem loop_leads (hne : counter ≠ counted)
    (hcode : Code.Stream m₀.code a (words counted counter) m₀.codeEnd)
    (hrun : m₀.runState = .running) (hpc : m₀.registers.pc = a) :
    let turns := Size.word.unsigned (m₀.registers.readData counter) + 1
    ∃ m, Machine.Advances (2 * turns) m₀ m ∧
      Reached counted counter m₀ turns turns (a + 6) m := by
  intro turns
  obtain ⟨m, hm, h⟩ := turns_lead hne hcode hrun hpc _ (Nat.le_refl _)
  obtain ⟨m', hm', h'⟩ := turn_leads hne hcode h
  have hcounter := h.counts.unsigned_counter (Nat.le_refl _)
  rw [Nat.sub_self] at hcounter
  rw [if_pos hcounter] at h'
  exact ⟨m', hm.trans hm', h'⟩

/-! ## 5. The program, loaded and run -/

/-- **A counted loop runs one turn more than its counter says.** For all two data registers, all
    values of the registers and every even address with room for the program behind it, the program
    is loaded and its run comes to the end of the code after two instructions for each turn. The low
    word of the one register has then grown by the number of turns, modulo 2^16, and that of the
    other is -1. The high words of both, all other registers but the program counter and the
    condition codes, and the memory are as they were. -/
theorem run_counts (m : Machine) (hne : counter ≠ counted) (heven : a.toNat % 2 = 0)
    (hfits : a.toNat + 6 < Long.count) (hin : a.toNat + 6 ≤ m.memory.capacity)
    (clearFirst : Bool) :
    let turns := Size.word.unsigned (m.registers.readData counter) + 1
    ∃ m₀ cycles m',
      Machine.loadProgram (wordsToBytes (words counted counter)) a clearFirst m = .ok () m₀ ∧
      m₀.run? = some (.ok { steps := 2 * turns, cycles, boundary := .endOfCode } m') ∧
      Size.word.unsigned (m'.registers.readData counted) =
        (Size.word.unsigned (m.registers.readData counted) + turns) % 0x10000 ∧
      Size.word.unsigned (m'.registers.readData counter) = 0xFFFF ∧
      (∀ n, (m'.registers.readData n).toNat / 0x10000 =
        (m.registers.readData n).toNat / 0x10000) ∧
      (∀ n, n ≠ counted → n ≠ counter → m'.registers.readData n = m.registers.readData n) ∧
      m'.registers.address = m.registers.address ∧ m'.registers.usp = m.registers.usp ∧
      m'.registers.ssp = m.registers.ssp ∧ m'.registers.pc = a + 6 ∧
      Status.AgreeOutside Status.conditions m'.registers.sr m.registers.sr ∧
      m'.memory = m₀.memory := by
  intro turns
  have hlength : (wordsToBytes (words counted counter)).length = 6 := length_wordsToBytes _
  obtain ⟨m₀, hload⟩ : ∃ m₀, Machine.loadProgram (wordsToBytes (words counted counter)) a
      clearFirst m = .ok () m₀ := by
    refine ⟨_, Machine.loadProgram_eq_ok_iff.mpr ⟨?_, ?_, rfl⟩⟩
    · rw [hlength]
      decide
    · rw [hlength]
      exact hin
  have hcode := Machine.stream_of_load heven hload hfits
  obtain ⟨-, -, hm₀⟩ := Machine.loadProgram_eq_ok_iff.mp hload
  have hregisters : m₀.registers = m.registers.setPc a := by rw [hm₀]
  have hrun : m₀.runState = .running := by rw [hm₀]
  have hcounter : m₀.registers.readData counter = m.registers.readData counter := by
    rw [hregisters]
    rfl
  obtain ⟨m', hadvances, h⟩ := loop_leads hne hcode hrun (by rw [hregisters]; rfl)
  rw [hcounter] at hadvances h
  have hcounts : Counted counted counter turns turns m.registers m'.registers := by
    have hcounts := h.counts
    rw [hregisters] at hcounts
    exact ⟨hcounts.counted_eq, hcounts.counter_eq, hcounts.data_eq, hcounts.address_eq,
      hcounts.usp_eq, hcounts.ssp_eq, hcounts.sr_agree⟩
  have hsix : a + 6 = m₀.codeEnd := by rw [hm₀, hlength]; rfl
  have hshort : 2 * turns ≤ Machine.stepCounts := by
    have hlt := Size.word.unsigned_lt_count (m.registers.readData counter)
    have hcount : Size.word.count = 0x10000 := rfl
    have hcounts : Machine.stepCounts = 0x10000000000000000 := rfl
    omega
  obtain ⟨cycles, hresult⟩ := hadvances.run?_eq (h.boundary?_end hsix) (by decide) hshort
  exact ⟨m₀, cycles, m', hload, hresult, hcounts.unsigned_counted, hcounts.unsigned_counter_last,
    hcounts.high_eq, hcounts.data_eq, hcounts.address_eq, hcounts.usp_eq, hcounts.ssp_eq, h.pc_eq,
    hcounts.sr_agree, h.memory_eq⟩

/-- A machine whose counter says one, and whose other register is at the end of its low word. -/
def aboutToLoop : Machine :=
  { Machine.new { memoryBytes := 10, traceInstructions := false } with
    registers := (Registers.zeros.writeData 0 0x0001FFFF .long).writeData 1 0x00020001 .long }

/-- Two turns wrap the low word of D0 to one. -/
theorem run_counts_wrapping :
    ∃ m₀ cycles m',
      Machine.loadProgram (wordsToBytes [0x5240, 0x51C9, 0xFFFC]) 4 false aboutToLoop =
        .ok () m₀ ∧
      m₀.run? = some (.ok { steps := 4, cycles, boundary := .endOfCode } m') ∧
      Size.word.unsigned (m'.registers.readData 0) = 1 ∧
      (m'.registers.readData 0).toNat / 0x10000 = 1 ∧
      Size.word.unsigned (m'.registers.readData 1) = 0xFFFF ∧
      (m'.registers.readData 1).toNat / 0x10000 = 2 := by
  obtain ⟨m₀, cycles, m', hload, hrun, hcounted, hcounter, hhigh, -⟩ :=
    run_counts aboutToLoop (by decide : (1 : Fin 8) ≠ 0) (by decide : (4 : Address).toNat % 2 = 0)
      (by decide) (by decide) false
  exact ⟨m₀, cycles, m', hload, hrun, hcounted.trans (by decide), (hhigh 0).trans (by decide),
    hcounter, (hhigh 1).trans (by decide)⟩

end Mc68000.CountedLoop
