import Mc68000.Proofs.Assembly.TransferLists
import Mc68000.Proofs.LoadedProgram
import Mc68000.Proofs.RegisterRestore

/-!
# Transfers as they are listed

What the text of a `MOVEM` says of its registers is what its execution does with them.

* `Instruction.transferStart?`, `afterTransfer` -- where the transfers begin, and what they leave of
  the registers that point there;
* `Instruction.movesList_of_execute` -- **the three ways that a `MOVEM` can succeed**;
* `Instruction.stored_of_movem`, `loaded_of_movem` -- what it has done in either direction;
* `Instruction.movem_as_listed` -- **the registers that the text lists lie end to end in memory, in
  the order of the text**.
-/

namespace Mc68000.Instruction

open Exec

variable {i : Instruction} {m m' : Machine} {mode : ControlMode} {mask : Word} {loads : Bool}

/-! ## 1. Modes -/

/-- Where the transfers of so many registers begin: below `An` with `-(An)`, at `An` with `(An)+`
    and otherwise at the address that the field leads to. -/
def transferStart? (i : Instruction) (r : Registers) (count : Nat) : Option Address :=
  match i.destination.bind (·.mode?) with
  | some (.preDecrement n) => some (r.readAddress n - BitVec.ofNat 32 (count * i.size.bytes))
  | some (.postIncrement n) => some (r.readAddress n)
  | some (.control mode) => i.destination.map fun ea => mode.address ea.extension r
  | _ => none

/-- The registers behind the transfers: `-(An)` leaves `An` where they begin, `(An)+` where they
    end, even if `An` was loaded itself. -/
def afterTransfer (i : Instruction) (r : Registers) (start : Address) (count : Nat) : Registers :=
  match i.destination.bind (·.mode?) with
  | some (.preDecrement n) => r.writeAddress n start .long
  | some (.postIncrement n) =>
    r.writeAddress n (start + BitVec.ofNat 32 (count * i.size.bytes)) .long
  | _ => r

/-- A `MOVEM` that succeeds has an operand with a mode. -/
theorem mode_of_movem (hop : i.operation = .movem) (h : i.execute m = .ok () m') :
    ∃ ea mode, i.destination = some ea ∧ ea.mode? = some mode := by
  cases hmode : i.destination.bind (·.mode?) with
  | none =>
    unfold execute at h
    rw [hop] at h
    change movem i m = _ at h
    unfold movem movemLoad movemStore movemMode at h
    rw [hmode] at h
    split at h <;> cases h
  | some mode =>
    obtain ⟨ea, hea, hmode⟩ := Option.bind_eq_some_iff.mp hmode
    exact ⟨ea, mode, hea, hmode⟩

/-- **The three ways that a `MOVEM` can succeed**: stores below an address register, loads above one
    and either of them from an address on. All other modes trap. -/
theorem movesList_of_execute (hop : i.operation = .movem) (h : i.execute m = .ok () m') :
    (∃ n, i.MovesList false (.preDecrement n) i.movemMask.reverse) ∨
      (∃ n, i.MovesList true (.postIncrement n) i.movemMask) ∨
      ∃ mode, i.MovesList (i.opcode.getLsbD 10) (.control mode) i.movemMask := by
  obtain ⟨ea, mode, hea, hfield⟩ := mode_of_movem hop h
  have hmode : i.destination.bind (·.mode?) = some mode := by
    rw [hea]
    exact hfield
  unfold movemMask
  unfold execute at h
  rw [hop] at h
  change movem i m = _ at h
  unfold movem movemLoad movemStore movemMode Exec.control EffectiveAddress.controlAddress at h
  rw [hmode, hea] at h
  rw [hmode]
  dsimp only at h ⊢
  rw [hfield] at h
  cases hload : i.opcode.getLsbD 10 with
  | false =>
    rw [hload] at h
    cases mode with
    | preDecrement n => exact .inl ⟨n, hop, hload, hmode, (BitVec.reverse_reverse_eq).symm⟩
    | control mode => exact .inr (.inr ⟨mode, hop, hload, hmode, rfl⟩)
    | _ => cases h
  | true =>
    rw [hload] at h
    cases mode with
    | postIncrement n => exact .inr (.inl ⟨n, hop, hload, hmode, rfl⟩)
    | control mode => exact .inr (.inr ⟨mode, hop, hload, hmode, rfl⟩)
    | _ => cases h

/-! ## 2. Stores and loads -/

/-- A `MOVEM` from an address on, either way. -/
theorem MovesList.execute_control (h : i.MovesList loads (.control mode) mask) (m : Machine) :
    ∃ start, i.transferStart? m.registers (Register.ofMask mask).length = some start ∧
      i.execute m =
        (if loads then do let _ ← loadUp i.size (Register.ofMask mask) start
          else do let _ ← storeUp i.size (Register.ofMask mask) start : Exec Unit) m := by
  obtain ⟨ea, hea, hfield⟩ := Option.bind_eq_some_iff.mp h.mode_eq
  refine ⟨mode.address ea.extension m.registers, ?_, ?_⟩
  · rw [transferStart?, h.mode_eq, hea]
    rfl
  · unfold execute
    rw [h.operation_eq]
    change movem i m = _
    unfold movem movemLoad movemStore movemMode Exec.control EffectiveAddress.controlAddress
    rw [h.loads_eq, h.mode_eq, h.word_eq, hea]
    dsimp only
    rw [hfield]
    cases loads <;> rfl

/-- **A store that succeeds** has put the registers of the mask end to end. -/
theorem stored_of_movem (hop : i.operation = .movem) (hstore : i.opcode.getLsbD 10 = false)
    (h : i.execute m = .ok () m') :
    let regs := Register.ofMask i.movemMask
    ∃ start, i.transferStart? m.registers regs.length = some start ∧
      (Register.block regs i.size start).Accessible m.memory.capacity ∧
      m' = { m with
        memory := storedList i.size regs start m
        registers := i.afterTransfer m.registers start regs.length } := by
  intro regs
  rcases movesList_of_execute hop h with ⟨n, hlist⟩ | ⟨n, hlist⟩ | ⟨mode, hlist⟩
  · obtain ⟨hok, hm'⟩ := hlist.saved h
    refine ⟨_, ?_, hok, ?_⟩
    · rw [transferStart?, hlist.mode_eq]
    · rw [hm', afterTransfer, hlist.mode_eq]
  · rw [hlist.loads_eq] at hstore
    cases hstore
  · obtain ⟨start, hstart, hexecute⟩ := hlist.execute_control m
    refine ⟨start, hstart, ?_⟩
    rw [hexecute, hstore, if_neg (by decide), run_bind] at h
    by_cases hok : (Register.block regs i.size start).Accessible m.memory.capacity
    · rw [storeUp_ok hok] at h
      cases h
      refine ⟨hok, ?_⟩
      rw [afterTransfer, hlist.mode_eq]
    · obtain ⟨memory, hstop⟩ := storeUp_error hok
      rw [hstop] at h
      cases h

/-- **A load that succeeds** has read a value for every register of the mask, end to end, and given
    it to the register. -/
theorem loaded_of_movem (hop : i.operation = .movem) (hload : i.opcode.getLsbD 10 = true)
    (h : i.execute m = .ok () m') :
    let regs := Register.ofMask i.movemMask
    ∃ start, i.transferStart? m.registers regs.length = some start ∧
      ∃ values r, m.memory.Holds i.size start (regs.map values) ∧
        m.registers.Becomes
          (fun reg => if reg ∈ regs then i.size.signExtend (values reg) else m.registers.read reg)
          r ∧
        m' = { m with registers := i.afterTransfer r start regs.length } := by
  intro regs
  have hnodup : regs.Nodup := Register.nodup_ofMask _
  rcases movesList_of_execute hop h with ⟨n, hlist⟩ | ⟨n, hlist⟩ | ⟨mode, hlist⟩
  · rw [hlist.loads_eq] at hload
    cases hload
  · refine ⟨m.registers.readAddress n, ?_, ?_⟩
    · rw [transferStart?, hlist.mode_eq]
    · rw [hlist.restores m] at h
      obtain ⟨values, r, hholds, hbecomes, hpast⟩ := loadUp_bind_ok hnodup h
      cases hpast
      refine ⟨values, r, hholds, hbecomes, ?_⟩
      rw [afterTransfer, hlist.mode_eq]
  · obtain ⟨start, hstart, hexecute⟩ := hlist.execute_control m
    refine ⟨start, hstart, ?_⟩
    rw [hexecute, hload, if_pos rfl] at h
    obtain ⟨values, r, hholds, hbecomes, hpast⟩ := loadUp_bind_ok hnodup h
    cases hpast
    refine ⟨values, r, hholds, hbecomes, ?_⟩
    rw [afterTransfer, hlist.mode_eq]

/-! ## 3. The text -/

/-- **A `MOVEM` does what its text lists.** If it succeeds, in whatever mode, the list in its text
    can be read, with its ranges drawn out, and names each register once. The registers of the list
    lie end to end in memory in the order of the list, from where the mode begins; the addresses
    ascend unless memory reaches the top of the address space and the block passes it, in which case
    it goes on at zero. A store leaves the values of just these registers there, a load gives each
    of them the value found there, sign-extended, and all else but the register of `-(An)` or
    `(An)+` stays. -/
theorem movem_as_listed (hop : i.operation = .movem) (h : i.execute m = .ok () m') :
    ∃ regs start,
      Assembly.shownRegisters? (!i.opcode.getLsbD 10) i.text = some regs ∧ regs.Nodup ∧
      i.transferStart? m.registers regs.length = some start ∧
      (m.memory.capacity < Long.count ∨
          start.toNat + regs.length * i.size.bytes ≤ Long.count →
        ∀ k < regs.length, ((Register.block regs i.size start).address k).toNat =
          start.toNat + k * i.size.bytes) ∧
      (i.opcode.getLsbD 10 = false →
        m'.memory.Holds i.size start (regs.map m.registers.read) ∧
        m.memory.SameOutside (some (Register.block regs i.size start)) m'.memory ∧
        m' = { m with
          memory := m'.memory
          registers := i.afterTransfer m.registers start regs.length }) ∧
      (i.opcode.getLsbD 10 = true → ∃ values r,
        m.memory.Holds i.size start (regs.map values) ∧
        m.registers.Becomes
          (fun reg => if reg ∈ regs then i.size.signExtend (values reg) else m.registers.read reg)
          r ∧
        m' = { m with registers := i.afterTransfer r start regs.length }) := by
  have hshown := Assembly.shownRegisters?_text hop
  have hnodup := Register.nodup_ofMask i.movemMask
  have hfit := Register.length_mul_bytes_le i.movemMask i.size
  cases hload : i.opcode.getLsbD 10 with
  | false =>
    obtain ⟨start, hstart, hok, hm'⟩ := stored_of_movem hop hload h
    have hascends := Block.toNat_address_of_accessible rfl hok
    refine ⟨_, start, hload ▸ hshown, hnodup, hstart, hascends, fun _ => ?_, nofun⟩
    rw [hm']
    exact ⟨holds_storedList hfit hok, sameOutside_storedList hok, rfl⟩
  | true =>
    obtain ⟨start, hstart, values, r, hholds, hbecomes, hm'⟩ := loaded_of_movem hop hload h
    have hascends := Block.toNat_address_of_accessible rfl (Memory.accessible_of_holds hholds)
    exact ⟨_, start, hload ▸ hshown, hnodup, hstart, hascends, nofun,
      fun _ => ⟨values, r, hholds, hbecomes, hm'⟩⟩

/-- `MOVEM.W (A0)+,D1/A0-A1`, at address 8. -/
def loadWords : Instruction :=
  { address := 8, opcode := 0x4C98, operation := .movem, size := .word
    extension := ⟨10, .one 0x0302⟩, source := none
    destination := some ⟨0b011000, ⟨12, .none⟩⟩, length := 4 }

/-- A machine with the instruction, and three words to load at 2. -/
def aboutToLoadWords : Machine :=
  { Machine.new { memoryBytes := 12, traceInstructions := false } with
    registers := Registers.zeros.writeAddress 0 2 .long
    memory := (Memory.zeros 12).setBytes 2 [0x80, 0x01, 0, 2, 0, 3, 0x4C, 0x98, 0x03, 0x02]
    codeEnd := 12 }

/-- The address register is in the list and ends past the block all the same. -/
theorem movem_as_listed_words :
    aboutToLoadWords.code.fetch 8 = .ok (some loadWords) 12 ∧
      loadWords.text = "MOVEM.W (A0)+,D1/A0-A1" ∧
      Assembly.shownRegisters? false loadWords.text =
        some [.data 1, .address 0, .address 1] ∧
      ∃ m', loadWords.execute aboutToLoadWords = .ok () m' ∧
        m'.registers.readData 1 = 0xFFFF8001 ∧ m'.registers.readAddress 0 = 8 ∧
        m'.registers.readAddress 1 = 3 := by
  have hfetch : aboutToLoadWords.code.fetch 8 = .ok (some loadWords) 12 := rfl
  have htext : loadWords.text = "MOVEM.W (A0)+,D1/A0-A1" := by decide
  have hshown : Assembly.shownRegisters? false loadWords.text =
      some [.data 1, .address 0, .address 1] := by decide
  obtain ⟨m', h⟩ : ∃ m', loadWords.execute aboutToLoadWords = .ok () m' := ⟨_, rfl⟩
  obtain ⟨regs, start, hlist, -, hstart, -, -, hload⟩ := movem_as_listed rfl h
  obtain rfl := Option.some.inj (hlist.symm.trans hshown)
  have hstart' : loadWords.transferStart? aboutToLoadWords.registers 3 = some 2 := by decide
  obtain rfl := Option.some.inj (hstart'.symm.trans hstart)
  obtain ⟨values, r, hholds, hbecomes, rfl⟩ := hload (by decide)
  have hlist : Memory.consecutive .word 2 ([.data 1, .address 0, .address 1].map values) =
      [(2, values (.data 1)), (4, values (.address 0)), (6, values (.address 1))] := rfl
  -- what a listed register has become, from the word at its place
  have hvalue {a : Address} {reg : Register} {v w : Long}
      (hmem : (a, values reg) ∈ Memory.consecutive .word 2
        ([.data 1, .address 0, .address 1].map values))
      (hreg : reg ∈ [.data 1, .address 0, .address 1])
      (hread : aboutToLoadWords.memory.read a .word = .ok w) (hv : Size.word.signExtend w = v) :
      r.read reg = v := by
    have hword : Size.word.truncate (values reg) = w := by
      have h := (hholds _ hmem).symm.trans hread
      exact Except.ok.inj h
    have hbecome := hbecomes.read_eq reg
    rw [if_pos hreg, ← Size.signExtend_truncate] at hbecome
    exact hbecome.trans ((congrArg Size.word.signExtend hword).trans hv)
  have hdata : r.read (.data 1) = 0xFFFF8001 :=
    hvalue (a := 2) (w := 0x8001) (by rw [hlist]; simp) (by decide) (by decide) (by decide)
  have haddress : r.read (.address 1) = 3 :=
    hvalue (a := 6) (w := 3) (by rw [hlist]; simp) (by decide) (by decide) (by decide)
  have hafter : loadWords.afterTransfer r 2 3 = r.writeAddress 0 8 .long := rfl
  refine ⟨hfetch, htext, hshown, _, h, ?_⟩
  show (loadWords.afterTransfer r 2 3).readData 1 = _ ∧
    (loadWords.afterTransfer r 2 3).readAddress 0 = 8 ∧
    (loadWords.afterTransfer r 2 3).readAddress 1 = 3
  rw [hafter, Registers.readData_writeAddress, Registers.readAddress_writeAddress, if_pos rfl,
    Size.merge_long, Registers.readAddress_writeAddress, if_neg (by decide)]
  exact ⟨hdata, rfl, haddress⟩

/-- `MOVEM.L D0-D1,(A0)`, at address 8. -/
def storePair : Instruction :=
  { address := 8, opcode := 0x48D0, operation := .movem, size := .long
    extension := ⟨10, .one 3⟩, source := none
    destination := some ⟨0b010000, ⟨12, .none⟩⟩, length := 4 }

/-- A machine with a byte of memory for every address, `A0` one long below the top of the address
    space. -/
def aboutToStorePair : Machine :=
  { Machine.addressable with
    registers := ((Registers.zeros.writeData 0 1 .long).writeData 1 2 .long).writeAddress 0
      0xFFFFFFFC .long }

/-- The code of the instruction in a store that it just fits into. -/
def storePairCode : Code where
  memory := (Memory.zeros 12).setBytes 8 [0x48, 0xD0, 0, 3]
  codeEnd := 12

/-- Where the instruction has been loaded, it is fetched. -/
theorem fetch_storePair {m₀ : Machine}
    (hload : Machine.loadProgram (wordsToBytes [0x48D0, 3]) 8 false aboutToStorePair = .ok () m₀) :
    m₀.code.fetch 8 = .ok (some storePair) 12 := by
  have hbytes : wordsToBytes [0x48D0, 3] = [0x48, 0xD0, 0, 3] := by decide
  have height : (8 : Address).toNat = 8 := by decide
  obtain ⟨-, hin, hm₀⟩ := Machine.loadProgram_eq_ok_iff.mp hload
  rw [hbytes, height] at hin hm₀
  have hmemory : m₀.memory =
      (aboutToStorePair.memory.beforeFill false).setBytes 8 [0x48, 0xD0, 0, 3] := by rw [hm₀]
  have hend : m₀.codeEnd = 8 + BitVec.ofNat 32 4 := by rw [hm₀]; rfl
  rw [← Memory.capacity_beforeFill _ false] at hin
  have hsmall : storePairCode.fetch 8 = .ok (some storePair) 12 := rfl
  have hlength : Code.wordsBehind (storePairCode.memory.wordAt 8) = 1 := by decide
  refine (Code.fetch_congr ?_).symm.trans hsmall
  rw [height, hlength]
  refine ⟨by decide, ?_, by decide, ?_, fun j hj hj' => ?_⟩
  · show _ ≤ m₀.codeEnd.toNat
    rw [hend]
    decide
  · show _ ≤ m₀.memory.capacity
    rw [hmemory, Memory.capacity_setBytes]
    exact hin
  · rw [height] at hj hj'
    obtain ⟨k, rfl⟩ := Nat.exists_eq_add_of_le hj
    have hk : k < [0x48, 0xD0, 0, (3 : Byte)].length := Nat.lt_of_add_lt_add_left hj'
    show _ = m₀.memory.byte _
    rw [hmemory, Memory.byte_setBytes_of_inside _ 8 k _ hk hin]
    exact Memory.byte_setBytes_of_inside (Memory.zeros 12) 8 k _ hk (by decide)

/-- **Across the top of the address space the addresses do not ascend.** D0, which is listed first,
    is stored at the top, D1 at zero, and nothing else is stored. -/
theorem listed_across_top :
    ∃ m₀ m', Machine.loadProgram (wordsToBytes [0x48D0, 3]) 8 false aboutToStorePair = .ok () m₀ ∧
      m₀.code.fetch 8 = .ok (some storePair) 12 ∧ storePair.text = "MOVEM.L D0-D1,(A0)" ∧
      Assembly.shownRegisters? true storePair.text = some [.data 0, .data 1] ∧
      m₀.registers.readData 0 = 1 ∧ m₀.registers.readData 1 = 2 ∧
      storePair.execute m₀ = .ok () m' ∧ m'.memory.read 0xFFFFFFFC .long = .ok 1 ∧
      m'.memory.read 0 .long = .ok 2 ∧ (0 : Address) < 0xFFFFFFFC ∧
      m₀.memory.SameOutside (some (Register.block [.data 0, .data 1] .long 0xFFFFFFFC))
        m'.memory := by
  have hcapacity : aboutToStorePair.memory.capacity = Long.count := Memory.capacity_zeros _
  obtain ⟨m₀, hload⟩ : ∃ m₀, Machine.loadProgram (wordsToBytes [0x48D0, 3]) 8 false
      aboutToStorePair = .ok () m₀ := by
    refine ⟨_, Machine.loadProgram_eq_ok_iff.mpr ⟨by decide, ?_, rfl⟩⟩
    rw [hcapacity]
    decide
  have hfetch := fetch_storePair hload
  obtain ⟨-, -, hm₀⟩ := Machine.loadProgram_eq_ok_iff.mp hload
  have hregisters : m₀.registers = aboutToStorePair.registers.setPc 8 := by rw [hm₀]
  have hcapacity₀ : m₀.memory.capacity = Long.count := by
    rw [hm₀, Memory.capacity_setBytes, Memory.capacity_beforeFill, hcapacity]
  have hlist : storePair.MovesList false (.control (.indirect 0)) 3 :=
    ⟨rfl, by decide, by decide, rfl⟩
  have hregs : Register.ofMask 3 = [.data 0, .data 1] := by decide
  have hstart : m₀.registers.readAddress 0 = 0xFFFFFFFC := by
    rw [hregisters]
    decide
  have hok : (Register.block [.data 0, .data 1] .long 0xFFFFFFFC).Accessible
      m₀.memory.capacity := by
    rw [hcapacity₀]
    decide
  have hexecute : storePair.execute m₀ =
      (do let _ ← storeUp .long [.data 0, .data 1] 0xFFFFFFFC : Exec Unit) m₀ := by
    rw [← hstart, ← hregs]
    exact hlist.stores m₀
  rw [bind_eq (storeUp_ok hok)] at hexecute
  have hdata : m₀.registers.readData 0 = 1 := by
    rw [hregisters]
    decide
  have hdata' : m₀.registers.readData 1 = 2 := by
    rw [hregisters]
    decide
  have hlist' : Memory.consecutive .long 0xFFFFFFFC
      ([.data 0, .data 1].map m₀.registers.read) =
        [(0xFFFFFFFC, m₀.registers.readData 0), (0, m₀.registers.readData 1)] := by
    rw [List.map_cons, List.map_cons, List.map_nil, Memory.consecutive_cons,
      Memory.consecutive_cons]
    rfl
  rw [hdata, hdata'] at hlist'
  have hholds := holds_storedList (by decide) hok
  unfold Memory.Holds at hholds
  rw [hlist'] at hholds
  have hread := hholds (0xFFFFFFFC, 1) (by decide)
  have hread' := hholds (0, 2) (by decide)
  have htext : storePair.text = "MOVEM.L D0-D1,(A0)" := by decide
  have hshown : Assembly.shownRegisters? true storePair.text = some [.data 0, .data 1] := by
    decide
  refine ⟨m₀, _, hload, hfetch, htext, hshown, hdata, hdata', hexecute, ?_⟩
  dsimp only
  exact ⟨hread, hread', by decide, sameOutside_storedList hok⟩

end Mc68000.Instruction
