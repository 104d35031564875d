import Mc68000.Proofs.RegisterStores

/-!
# Registers saved and restored

What `MOVEM` has saved below an address register, `MOVEM` restores from there.

* `Registers.Becomes` -- registers after which each data and address register has a given value and
  everything else is as it was;
* `Exec.loadUp_ok` -- **ascending loads**: every register of the list takes its value,
  sign-extended; `holds_of_loadUp` -- if they succeed, there is one for each; `loadUp_bind_ok` --
  both together;
* `Memory.SameInside` -- two stores that agree in a block;
* `Instruction.MovesList.saved`, `holds` -- what `MOVEM` leaves where its register then points;
* `Instruction.registers_restored` -- **a list of registers saved and restored**, whatever the
  registers hold in between.
-/

namespace Mc68000

/-- The sign extension of a value looks at the bits of the size only. -/
theorem Size.signExtend_truncate (size : Size) (v : Long) :
    size.signExtend (size.truncate v) = size.signExtend v := by
  have hlow : (size.truncate v).setWidth size.bits = v.setWidth size.bits := by
    refine BitVec.eq_of_getLsbD_eq fun k hk => ?_
    rw [BitVec.getLsbD_setWidth, BitVec.getLsbD_setWidth, getLsbD_truncate]
    simp [hk]
  cases size with
  | byte => exact congrArg (BitVec.signExtend 32) hlow
  | word => exact congrArg (BitVec.signExtend 32) hlow
  | long => exact truncate_long v

/-! ## 1. Registers -/

namespace Registers

variable {r r' r'' : Registers} {f g : Register → Long}

/-- The data and the address registers of `r'` have the values `f`, and the rest is that of `r`:
    the idle stack pointer, the program counter and the status register. -/
structure Becomes (r : Registers) (f : Register → Long) (r' : Registers) : Prop where
  read_eq : ∀ reg, r'.read reg = f reg
  sr_eq : r'.sr = r.sr
  pc_eq : r'.pc = r.pc
  idle : IdleKept r r'

theorem Becomes.refl (r : Registers) : r.Becomes r.read r := ⟨fun _ => rfl, rfl, rfl, .refl r⟩

theorem Becomes.trans (h : r.Becomes f r') (h' : r'.Becomes g r'') : r.Becomes g r'' :=
  ⟨h'.read_eq, h'.sr_eq.trans h.sr_eq, h'.pc_eq.trans h.pc_eq, h.idle.trans h'.idle⟩

theorem Becomes.congr (h : r.Becomes f r') (hfg : ∀ reg, g reg = f reg) : r.Becomes g r' :=
  ⟨fun reg => (h.read_eq reg).trans (hfg reg).symm, h.sr_eq, h.pc_eq, h.idle⟩

/-- A long written to a register is its value, and every other one stays. -/
theorem becomes_write (r : Registers) (reg : Register) (v : Long) :
    r.Becomes (fun reg' => if reg' = reg then v else r.read reg') (r.write reg v .long) := by
  cases reg with
  | data n =>
    refine ⟨fun reg' => ?_, rfl, rfl, ⟨rfl, rfl⟩⟩
    cases reg' with
    | data k =>
      have hread := readData_writeData r n k v .long
      rw [Size.merge_long] at hread
      simp only [Register.data.injEq]
      exact hread
    | address k => rfl
  | address n =>
    refine ⟨fun reg' => ?_, sr_writeAddress .., pc_writeAddress .., idleKept_writeAddress ..⟩
    cases reg' with
    | data k => exact readData_writeAddress ..
    | address k =>
      have hread := readAddress_writeAddress r n k v .long
      rw [Size.merge_long] at hread
      simp only [Register.address.injEq]
      exact hread

end Registers

/-! ## 2. Loads -/

/-- The stores agree in their capacity and in the bytes of a block. -/
structure Memory.SameInside (b : Block) (m m' : Memory) : Prop where
  capacity_eq : m'.capacity = m.capacity
  byte_eq : ∀ j, b.Covers j → m'.byte j = m.byte j

/-- Values that can be read from a block can be read from any store that agrees in it. -/
theorem Memory.Holds.of_sameInside {m m' : Memory} {regs : List Register} {size : Size}
    {a : Address} {f : Register → Long} (h : m.Holds size a (regs.map f))
    (hsame : m.SameInside (Register.block regs size a) m') : m'.Holds size a (regs.map f) := by
  intro p hp
  obtain ⟨haccess, hfetch⟩ := accessible_of_read (h p hp)
  have haccess' : accessible p.1 size m'.capacity = true := by
    rw [hsame.capacity_eq]
    exact haccess
  rw [read_of_accessible haccess', ← hfetch]
  refine congrArg Except.ok (fetch_congr fun j hj hj' => hsame.byte_eq j ?_)
  obtain ⟨k, hk, rfl⟩ := mem_consecutive.mp hp
  rw [List.length_map] at hk
  exact ⟨k, hk, hj, hj'⟩

namespace Exec

/-- **Ascending loads** give every register of the list its value, sign-extended. -/
theorem loadUp_ok {size : Size} {f : Register → Long} (regs : List Register) (a : Address)
    (m : Machine) (h : m.memory.Holds size a (regs.map f)) :
    ∃ r, loadUp size regs a m =
        .ok (a + BitVec.ofNat 32 (regs.length * size.bytes)) { m with registers := r } ∧
      m.registers.Becomes
        (fun reg => if reg ∈ regs then size.signExtend (f reg) else m.registers.read reg) r := by
  induction regs generalizing a m with
  | nil =>
    refine ⟨m.registers, ?_, .refl _⟩
    show EStateM.Result.ok a m = .ok (a + BitVec.ofNat 32 (0 * size.bytes)) m
    rw [Nat.zero_mul, BitVec.add_zero]
  | cons reg regs ih =>
    unfold Memory.Holds at h
    rw [List.map_cons, Memory.consecutive_cons] at h
    obtain ⟨hfirst, hrest⟩ := List.forall_mem_cons.mp h
    have hload : readMemory a size m = .ok (size.truncate (f reg)) m := by
      unfold readMemory
      rw [hfirst]
    have hwritten := m.registers.becomes_write reg (size.signExtend (f reg))
    obtain ⟨r, hloads, hbecomes⟩ := ih (a + BitVec.ofNat 32 size.bytes)
      { m with registers := m.registers.write reg (size.signExtend (f reg)) .long } hrest
    refine ⟨r, ?_, hwritten.trans (hbecomes.congr fun reg' => ?_)⟩
    · unfold loadUp
      rw [bind_eq hload, Size.signExtend_truncate]
      refine hloads.trans ?_
      rw [List.length_cons, Nat.succ_mul, Nat.add_comm (regs.length * size.bytes),
        BitVec.ofNat_add, BitVec.add_assoc]
    · rw [hwritten.read_eq]
      by_cases hreg : reg' = reg
      · simp [hreg]
      · simp [hreg]

/-- **Ascending loads that succeed** have read a value for every register of the list, in its
    order, by induction on the list. -/
theorem holds_of_loadUp {size : Size} {regs : List Register} {a past : Address} {m m' : Machine}
    (hnodup : regs.Nodup) (h : loadUp size regs a m = .ok past m') :
    ∃ values : Register → Long, m.memory.Holds size a (regs.map values) := by
  induction regs generalizing a m with
  | nil => exact ⟨m.registers.read, fun p hp => absurd hp List.not_mem_nil⟩
  | cons reg regs ih =>
    obtain ⟨hreg, hnodup'⟩ := List.nodup_cons.mp hnodup
    unfold loadUp at h
    rw [run_bind, readMemory] at h
    cases hread : m.memory.read a size with
    | error t =>
      rw [hread] at h
      cases h
    | ok v =>
      rw [hread] at h
      obtain ⟨values, hrest⟩ := ih hnodup' h
      -- the register is not listed again, so its value is free to be the one that was read
      have hvalues : regs.map (fun reg' => if reg' = reg then v else values reg') =
          regs.map values := by
        refine List.map_congr_left fun reg' hreg' => if_neg ?_
        rintro rfl
        exact hreg hreg'
      have hv : size.truncate v = v := by
        rw [← (Memory.accessible_of_read hread).2, Memory.truncate_fetch]
      refine ⟨fun reg' => if reg' = reg then v else values reg', ?_⟩
      unfold Memory.Holds
      rw [List.map_cons, if_pos rfl, hvalues, Memory.consecutive_cons]
      refine List.forall_mem_cons.mpr ⟨?_, hrest⟩
      rw [hread, hv]

/-- What comes behind ascending loads, if all goes well, goes on with the values that they read. -/
theorem loadUp_bind_ok {α : Type} {size : Size} {regs : List Register} {a : Address}
    {f : Address → Exec α} {b : α} {m m' : Machine} (hnodup : regs.Nodup)
    (h : (loadUp size regs a >>= f) m = .ok b m') :
    ∃ values r, m.memory.Holds size a (regs.map values) ∧
      m.registers.Becomes
        (fun reg => if reg ∈ regs then size.signExtend (values reg) else m.registers.read reg) r ∧
      f (a + BitVec.ofNat 32 (regs.length * size.bytes)) { m with registers := r } = .ok b m' := by
  obtain ⟨past, m₁, hloads, -⟩ := bind_ok h
  obtain ⟨values, hholds⟩ := holds_of_loadUp hnodup hloads
  obtain ⟨r, hloads, hbecomes⟩ := loadUp_ok regs a m hholds
  rw [bind_eq hloads] at h
  exact ⟨values, r, hholds, hbecomes, h⟩

end Exec

/-! ## 3. Instructions -/

namespace Instruction

open Exec

variable {i j : Instruction} {n : Fin 8} {mask : Word} {m m' x : Machine}

/-- `MOVEM` from `(An)+`. -/
theorem MovesList.restores (h : i.MovesList true (.postIncrement n) mask) (m : Machine) :
    i.execute m =
      (loadUp i.size (Register.ofMask mask) (m.registers.readAddress n) >>= writeAddress n) m := by
  unfold execute
  rw [h.operation_eq]
  show movem i m = _
  unfold movem movemLoad movemMode
  rw [h.loads_eq, h.mode_eq, h.word_eq]
  rfl

/-- **Saving that succeeds** has stored the registers below where the address register pointed, and
    leaves it where they begin. -/
theorem MovesList.saved (h : i.MovesList false (.preDecrement n) mask.reverse)
    (hsave : i.execute m = .ok () m') :
    let regs := Register.ofMask mask
    let base := m.registers.readAddress n - BitVec.ofNat 32 (regs.length * i.size.bytes)
    (Register.block regs i.size base).Accessible m.memory.capacity ∧
      m' = { m with
        memory := storedList i.size regs base m
        registers := m.registers.writeAddress n base .long } := by
  intro regs base
  have hbase : m.registers.readAddress n =
      base + BitVec.ofNat 32 (regs.length * i.size.bytes) := (BitVec.sub_add_cancel ..).symm
  have hdown := (hsave.symm.trans (h.saves m)).symm
  rw [hbase, run_bind] at hdown
  by_cases hok : (Register.block regs i.size base).Accessible m.memory.capacity
  · rw [storeDown_ok (Register.length_mul_bytes_le mask i.size) hok] at hdown
    cases hdown
    exact ⟨hok, rfl⟩
  · obtain ⟨memory, hstop⟩ := storeDown_error hok
    rw [hstop] at hdown
    cases hdown

/-- **Saving leaves the values of the registers** where the address register then points, and the
    register was above them by their bytes. -/
theorem MovesList.holds (h : i.MovesList false (.preDecrement n) mask.reverse)
    (hsave : i.execute m = .ok () m') :
    m.registers.readAddress n = m'.registers.readAddress n +
        BitVec.ofNat 32 ((Register.ofMask mask).length * i.size.bytes) ∧
      m'.memory.Holds i.size (m'.registers.readAddress n)
        ((Register.ofMask mask).map m.registers.read) := by
  obtain ⟨hok, rfl⟩ := h.saved hsave
  have haddress (base : Address) :
      (m.registers.writeAddress n base .long).readAddress n = base := by
    rw [Registers.readAddress_writeAddress, if_pos rfl, Size.merge_long]
  dsimp only
  rw [haddress]
  exact ⟨(BitVec.sub_add_cancel ..).symm,
    holds_storedList (Register.length_mul_bytes_le mask i.size) hok⟩

/-- **What is saved is restored.** After `MOVEM` to `-(An)` has succeeded, `MOVEM` of `(An)+` with
    the same list succeeds on any machine on which `An` and the stored block are still what they
    were: `An` takes the value from before the save, even if it is in the list itself, every other
    register of the list takes its saved value, a word sign-extended, and nothing else changes. The
    block may pass the last address, and neither the mode nor any other register need be the
    same. -/
theorem registers_restored (hi : i.MovesList false (.preDecrement n) mask.reverse)
    (hj : j.MovesList true (.postIncrement n) mask) (hsize : j.size = i.size)
    (hsave : i.execute m = .ok () m')
    (haddress : x.registers.readAddress n = m'.registers.readAddress n)
    (hblock : m'.memory.SameInside
      (Register.block (Register.ofMask mask) i.size (m'.registers.readAddress n)) x.memory) :
    ∃ r, j.execute x = .ok () { x with registers := r } ∧
      x.registers.Becomes
        (fun reg =>
          if reg = .address n then m.registers.readAddress n
          else if reg ∈ Register.ofMask mask then i.size.signExtend (m.registers.read reg)
          else x.registers.read reg) r := by
  obtain ⟨habove, hsaved⟩ := hi.holds hsave
  have hholds := hsaved.of_sameInside hblock
  obtain ⟨r, hloads, hbecomes⟩ := loadUp_ok _ _ x hholds
  have hwritten := r.becomes_write (.address n) (m.registers.readAddress n)
  refine ⟨r.writeAddress n (m.registers.readAddress n) .long, ?_,
    hbecomes.trans (hwritten.congr fun reg => ?_)⟩
  · rw [hj.restores, hsize, haddress, bind_eq hloads, ← habove]
    rfl
  · rw [hbecomes.read_eq]

/-- `MOVEM.W D0/A1/A7,-(A7)`. -/
def saveListOnStack : Instruction :=
  { address := 6, opcode := 0x48A7, operation := .movem, size := .word
    extension := ⟨8, .one 0x8041⟩, source := none
    destination := some ⟨0b100111, ⟨10, .none⟩⟩, length := 4 }

/-- `MOVEM.W (A7)+,D0/A1/A7`, behind it. -/
def restoreListFromStack : Instruction :=
  { address := 10, opcode := 0x4C9F, operation := .movem, size := .word
    extension := ⟨12, .one 0x8201⟩, source := none
    destination := some ⟨0b011111, ⟨14, .none⟩⟩, length := 4 }

/-- A machine in supervisor mode with both instructions. -/
def aboutToSaveList : Machine :=
  { Machine.new { memoryBytes := 14, traceInstructions := false } with
    registers :=
      { (Registers.zeros.writeData 0 0x0001FFFE .long).writeAddress 1 0x00017000 .long with
        ssp := 6, sr := Status.supervisor }
    memory := (Memory.zeros 14).setBytes 6 [0x48, 0xA7, 0x80, 0x41, 0x4C, 0x9F, 0x82, 0x01]
    codeEnd := 14 }

/-- A negative word comes back as a negative long; the upper half of a register is lost. -/
theorem registers_restored_onStack :
    aboutToSaveList.code.fetch 6 = .ok (some saveListOnStack) 10 ∧
      aboutToSaveList.code.fetch 10 = .ok (some restoreListFromStack) 14 ∧
      ∃ m', saveListOnStack.execute aboutToSaveList = .ok () m' ∧
        ∃ r, restoreListFromStack.execute
            { m' with registers := m'.registers.writeData 0 5 .long } =
              .ok () { m' with registers := r } ∧
          r.readData 0 = 0xFFFFFFFE ∧ r.readAddress 1 = 0x7000 ∧ r.readAddress 7 = 6 := by
  have hsaves : saveListOnStack.MovesList false (.preDecrement 7) (BitVec.reverse 0x8201) :=
    ⟨rfl, by decide, by decide, by decide⟩
  have hrestores : restoreListFromStack.MovesList true (.postIncrement 7) 0x8201 :=
    ⟨rfl, by decide, by decide, rfl⟩
  obtain ⟨m', hsave⟩ : ∃ m', saveListOnStack.execute aboutToSaveList = .ok () m' := ⟨_, rfl⟩
  obtain ⟨r, hrestore, hbecomes⟩ := registers_restored hsaves hrestores rfl hsave
    (x := { m' with registers := m'.registers.writeData 0 5 .long })
    (Registers.readAddress_writeData ..) ⟨rfl, fun _ _ => rfl⟩
  have hdata := hbecomes.read_eq (.data 0)
  have haddress := hbecomes.read_eq (.address 1)
  have hstack := hbecomes.read_eq (.address 7)
  rw [if_neg (by decide), if_pos (by decide)] at hdata haddress
  rw [if_pos rfl] at hstack
  have hfetch : aboutToSaveList.code.fetch 6 = .ok (some saveListOnStack) 10 := rfl
  have hfetch' : aboutToSaveList.code.fetch 10 = .ok (some restoreListFromStack) 14 := rfl
  exact ⟨hfetch, hfetch', m', hsave, r, hrestore, hdata.trans (by decide),
    haddress.trans (by decide), hstack.trans (by decide)⟩

end Instruction

end Mc68000
