import Mc68000.Proofs.ByteMap
import Mc68000.Proofs.Confinement.MultipleTransfer
import Mc68000.Proofs.RegisterRestore

/-!
# Alternate bytes

What `MOVEP` puts at every second address, and what it takes from there.

* `Memory.Alternates` -- bytes that lie at every second address, each of them inside the store;
* `Exec.alternates_of_store` -- **a store that succeeds puts them there**, by induction on them;
* `Exec.loadAlternate_of_alternates` -- **a load takes them up**, each behind the ones before it;
* `Memory.foldl_shiftIn_lowBytes` -- the bytes of a value, taken up, are the value;
* `Instruction.movep_round_trip` -- **a register moved out and in again**.
-/

namespace Mc68000

/-! ## 1. Bytes at every second address -/

namespace Memory

/-- Bytes lie at every second address from `a` on, inside the store. Addresses count modulo 2^32. -/
def Alternates (m : Memory) (a : Address) : List Byte → Prop
  | [] => True
  | b :: bs => a.toNat < m.capacity ∧ m.byte a.toNat = b ∧ m.Alternates (a + 2) bs

/-- The places of such bytes. -/
def alternating (a : Address) (count : Nat) : Block := ⟨a, .byte, 2, count⟩

/-- The places behind the first one. -/
theorem address_alternating_succ (a : Address) (count count' k : Nat) :
    (alternating a count).address (k + 1) = (alternating (a + 2) count').address k := by
  show a + BitVec.ofNat 32 ((k + 1) * 2) = a + 2 + BitVec.ofNat 32 (k * 2)
  rw [Nat.succ_mul, Nat.add_comm, BitVec.ofNat_add, ← BitVec.add_assoc]
  rfl

theorem covers_alternating {a : Address} {count j : Nat} :
    (alternating a count).Covers j ↔
      ∃ k < count, j = ((alternating a count).address k).toNat := by
  have hbyte (k : Nat) : (((alternating a count).address k).toNat ≤ j ∧
      j < ((alternating a count).address k).toNat + (alternating a count).size.bytes) ↔
      j = ((alternating a count).address k).toNat := by
    show _ ∧ j < _ + 1 ↔ _
    omega
  simp only [Block.Covers, hbyte]
  rfl

/-- The byte at an index of the list lies twice the index further. -/
theorem Alternates.byte_eq {m : Memory} {a : Address} {bs : List Byte} (h : m.Alternates a bs)
    (k : Nat) (hk : k < bs.length) :
    m.byte ((alternating a bs.length).address k).toNat = bs.get ⟨k, hk⟩ := by
  induction bs generalizing a k with
  | nil => exact absurd hk (Nat.not_lt_zero k)
  | cons b bs ih =>
    obtain ⟨_, hfirst, hrest⟩ := h
    cases k with
    | zero =>
      rw [Block.address_zero]
      exact hfirst
    | succ k =>
      rw [address_alternating_succ a _ bs.length]
      exact ih hrest k (Nat.lt_of_succ_lt_succ hk)

/-- The bytes lie as well in any store that agrees where they lie. -/
theorem Alternates.of_sameInside {m m' : Memory} {a : Address} {bs : List Byte}
    (h : m.Alternates a bs) (hsame : m.SameInside (alternating a bs.length) m') :
    m'.Alternates a bs := by
  induction bs generalizing a with
  | nil => trivial
  | cons b bs ih =>
    obtain ⟨hin, hfirst, hrest⟩ := h
    refine ⟨hsame.capacity_eq ▸ hin, ?_, ih hrest ⟨hsame.capacity_eq, fun j hj => ?_⟩⟩
    · rw [← hfirst]
      refine hsame.byte_eq _ (covers_alternating.mpr ⟨0, Nat.succ_pos _, ?_⟩)
      rw [Block.address_zero]
      rfl
    · obtain ⟨k, hk, hj⟩ := covers_alternating.mp hj
      refine hsame.byte_eq j (covers_alternating.mpr ⟨k + 1, Nat.succ_lt_succ hk, ?_⟩)
      rw [hj, address_alternating_succ a _ bs.length]

end Memory

namespace Exec

variable {m m' : Machine} {a : Address}

/-! ## 2. Stores -/

/-- A byte is stored where it may be accessed. -/
theorem writeMemory_byte {b : Byte} (h : writeMemory a .byte (b.setWidth 32) m = .ok () m') :
    a.toNat < m.memory.capacity ∧ m' = { m with memory := m.memory.setByte a.toNat b } := by
  unfold writeMemory at h
  split at h
  · rename_i hin
    cases h
    have hb : (b.setWidth 32).setWidth 8 = b := by
      rw [BitVec.setWidth_setWidth_of_le _ (by decide), BitVec.setWidth_eq]
    refine ⟨Memory.accessible_byte_iff.mp hin, ?_⟩
    show { m with memory := m.memory.setByte a.toNat ((b.setWidth 32).setWidth 8) } = _
    rw [hb]
  · cases h

/-- The places do not come round to where they begin. -/
theorem alternating_ne {count k : Nat} (hfit : 2 * (count + 1) ≤ Long.count) (hk : k < count) :
    a.toNat ≠ ((Memory.alternating (a + 2) count).address k).toNat := by
  show a.toNat ≠ (a + 2 + BitVec.ofNat 32 (k * 2)).toNat
  have ha : a.toNat < Long.count := a.isLt
  rw [BitVec.add_assoc, BitVec.toNat_add, BitVec.toNat_add, BitVec.toNat_ofNat]
  have htwo : (2 : Address).toNat = 2 := rfl
  unfold Long.count at hfit ha
  omega

/-- **A store of alternate bytes that succeeds puts them there**, and the machine keeps all but its
    memory. By induction on the bytes: those behind the first one leave it alone, for the places do
    not come round to it. -/
theorem alternates_of_store {bs : List Byte} (hfit : 2 * bs.length ≤ Long.count)
    (h : storeAlternate bs a m = .ok () m') :
    m' = { m with memory := m'.memory } ∧ m'.memory.Alternates a bs := by
  induction bs generalizing a m with
  | nil =>
    cases h
    exact ⟨rfl, trivial⟩
  | cons b bs ih =>
    rw [List.length_cons] at hfit
    obtain ⟨_, m₁, hwrite, hrest⟩ := bind_ok h
    obtain ⟨hin, rfl⟩ := writeMemory_byte hwrite
    obtain ⟨hm', hbehind⟩ := ih (by omega) hrest
    have hsame := (storesIn_storeAlternate bs (a + 2) _).sameOutside hrest
    have hkept : m'.memory.byte a.toNat = (m.memory.setByte a.toNat b).byte a.toNat := by
      refine hsame.byte_eq _ fun block hblock hcovers => ?_
      cases hblock
      obtain ⟨k, hk, hj⟩ := Memory.covers_alternating.mp hcovers
      exact alternating_ne hfit hk hj
    refine ⟨hm', ?_, ?_, hbehind⟩
    · rw [hsame.capacity_eq, Memory.capacity_setByte]
      exact hin
    · rw [hkept, Memory.byte_setByte, if_pos ⟨rfl, hin⟩]

/-! ## 3. Loads -/

/-- A byte taken up behind others. -/
def shiftIn (acc : Long) (b : Byte) : Long := (acc <<< 8) ||| b.setWidth 32

/-- **A load of alternate bytes takes them up one behind the other**, by induction on the bytes. -/
theorem loadAlternate_of_alternates {bs : List Byte} (h : m.memory.Alternates a bs) (acc : Long) :
    loadAlternate bs.length a acc m = .ok (bs.foldl shiftIn acc) m := by
  induction bs generalizing a acc with
  | nil => rfl
  | cons b bs ih =>
    obtain ⟨hin, hfirst, hrest⟩ := h
    have hread : readMemory a .byte m = .ok (b.setWidth 32) m := by
      unfold readMemory
      rw [Memory.read_of_accessible (Memory.accessible_byte_iff.mpr hin)]
      show EStateM.Result.ok ((m.memory.byte a.toNat).setWidth 32) m = _
      rw [hfirst]
    rw [List.length_cons, List.foldl_cons]
    unfold loadAlternate
    show (readMemory a .byte >>= _) m = _
    rw [run_bind, hread]
    exact ih hrest _

end Exec

/-! ## 4. The bytes of an operand -/

namespace Memory

open Exec

/-- A byte taken up behind a narrow value is appended to it. -/
theorem shiftIn_setWidth {n : Nat} (x : BitVec n) (b : Byte) :
    shiftIn (x.setWidth 32) b = (x ++ b).setWidth 32 := by
  refine BitVec.eq_of_getLsbD_eq fun k hk => ?_
  unfold shiftIn
  rw [BitVec.getLsbD_or, BitVec.getLsbD_shiftLeft, BitVec.getLsbD_setWidth, BitVec.getLsbD_setWidth,
    BitVec.getLsbD_setWidth, BitVec.getLsbD_append]
  by_cases hlow : k < 8
  · simp [hk, hlow]
  · have hhigh : k - 8 < 32 := by omega
    simp [hk, hlow, hhigh, BitVec.getLsbD_of_ge b k (by omega)]

/-- **The low bytes of a value, taken up, are the value**, cut to its size. -/
theorem foldl_shiftIn_lowBytes (v : Long) (size : Size) :
    (lowBytes v size).foldl shiftIn 0 = size.truncate v := by
  have hfirst (b : Byte) : shiftIn 0 b = b.setWidth 32 := by
    unfold shiftIn
    rw [show (0 : Long) <<< 8 = 0#32 from rfl, BitVec.zero_or]
  rw [← operandBytes_eq, Size.truncate_eq_setWidth]
  cases size with
  | byte => exact hfirst _
  | word =>
    show shiftIn (shiftIn 0 _) _ = (v.setWidth 16).setWidth 32
    rw [hfirst, shiftIn_setWidth, Word.append_bytes]
  | long =>
    show shiftIn (shiftIn (shiftIn (shiftIn 0 _) _) _) _ = (v.setWidth 32).setWidth 32
    rw [hfirst, shiftIn_setWidth, shiftIn_setWidth, shiftIn_setWidth, Long.append_bytes,
      BitVec.setWidth_eq v]
    exact (BitVec.setWidth_eq v).symm

theorem length_lowBytes (v : Long) (size : Size) : (lowBytes v size).length = size.bytes := by
  rw [← operandBytes_eq, length_operandBytes]

theorem get_lowBytes (v : Long) (size : Size) (k : Nat) (hk : k < (lowBytes v size).length) :
    (lowBytes v size).get ⟨k, hk⟩ = v.extractLsb' (8 * (size.bytes - 1 - k)) 8 := by
  simp [lowBytes]

end Memory

/-- A write takes no more of a value than its size. -/
theorem Registers.writeData_truncate (r : Registers) (n : Fin 8) (v : Long) (size : Size) :
    r.writeData n (size.truncate v) size = r.writeData n v size := by
  unfold Registers.writeData
  rw [Size.merge_truncate]

namespace Instruction

open Exec

variable {i j : Instruction} {m m' x : Machine}

/-! ## 5. A register moved out and in again -/

/-- `MOVEP` to memory. -/
theorem execute_movep_store (hi : i.operation = .movep) (hbit : i.opcode.getLsbD 7 = true) :
    i.execute m =
      storeAlternate (Memory.lowBytes (m.registers.readData i.highRegister) i.size)
        (m.registers.readAddress i.lowRegister + wordDistance i) m := by
  rw [← Memory.operandBytes_eq]
  unfold execute
  rw [hi]
  show movep i m = _
  unfold movep
  rw [hbit]
  rfl

/-- `MOVEP` from memory, where the bytes of a value lie. -/
theorem execute_movep_load {base : Address} {v : Long} (hj : j.operation = .movep)
    (hbit : j.opcode.getLsbD 7 = false)
    (hbase : x.registers.readAddress j.lowRegister + wordDistance j = base)
    (hbytes : x.memory.Alternates base (Memory.lowBytes v j.size)) :
    j.execute x =
      .ok () { x with
        registers := x.registers.writeData j.highRegister (j.size.truncate v) j.size } := by
  have hload := loadAlternate_of_alternates hbytes 0
  rw [Memory.length_lowBytes, Memory.foldl_shiftIn_lowBytes] at hload
  unfold execute
  rw [hj]
  show movep j x = _
  unfold movep
  rw [hbit]
  show (loadAlternate j.size.bytes (x.registers.readAddress j.lowRegister + wordDistance j) 0 >>=
    _) x = _
  rw [hbase, run_bind, hload]
  rfl

/-- **`MOVEP` out of a register and into another one carries its low bytes over.** If the first one
    succeeds, it leaves the bytes of the register at every second address from its base on, most
    significant first, and every other byte, the rest of the machine and so the status register as
    they were. At any later machine at which these bytes are still there and the base is the same
    one, the second succeeds, gives its register those bits and leaves the others and the rest of
    the machine alone. The base may be odd, and addresses count modulo 2^32. -/
theorem movep_round_trip (hi : i.operation = .movep) (hstore : i.opcode.getLsbD 7 = true)
    (h : i.execute m = .ok () m') :
    let base := m.registers.readAddress i.lowRegister + wordDistance i
    let v := m.registers.readData i.highRegister
    m' = { m with memory := m'.memory } ∧ m'.memory.capacity = m.memory.capacity ∧
    (∀ k < i.size.bytes, m'.memory.byte (base + BitVec.ofNat 32 (k * 2)).toNat =
      v.extractLsb' (8 * (i.size.bytes - 1 - k)) 8) ∧
    (∀ a : Nat, (∀ k < i.size.bytes, a ≠ (base + BitVec.ofNat 32 (k * 2)).toNat) →
      m'.memory.byte a = m.memory.byte a) ∧
    ∀ (j : Instruction) (x : Machine), j.operation = .movep → j.opcode.getLsbD 7 = false →
      j.size = i.size → x.registers.readAddress j.lowRegister + wordDistance j = base →
      m'.memory.SameInside (Memory.alternating base i.size.bytes) x.memory →
      ∃ r, j.execute x = .ok () { x with registers := r } ∧
        r = x.registers.writeData j.highRegister v i.size ∧
        ∀ b < 32, (r.readData j.highRegister).getLsbD b =
          if b < i.size.bits then v.getLsbD b
          else (x.registers.readData j.highRegister).getLsbD b := by
  intro base v
  have hlength := Memory.length_lowBytes v i.size
  have hfit : 2 * (Memory.lowBytes v i.size).length ≤ Long.count := by
    rw [hlength]
    cases i.size <;> decide
  rw [execute_movep_store hi hstore] at h
  obtain ⟨hm', hbytes⟩ := alternates_of_store hfit h
  have hsame := (storesIn_storeAlternate (Memory.lowBytes v i.size) base m).sameOutside h
  rw [hlength] at hsame
  refine ⟨hm', hsame.capacity_eq, fun k hk => ?_, fun a ha => ?_,
    fun j x hj hload hsize hbase hinside => ?_⟩
  · have hk' : k < (Memory.lowBytes v i.size).length := hlength.symm ▸ hk
    exact (hbytes.byte_eq k hk').trans (Memory.get_lowBytes v i.size k hk')
  · refine hsame.byte_eq a fun block hblock hcovers => ?_
    cases hblock
    obtain ⟨k, hk, hj⟩ := Memory.covers_alternating.mp hcovers
    exact ha k hk hj
  · have hthere : x.memory.Alternates base (Memory.lowBytes v j.size) := by
      rw [hsize]
      exact hbytes.of_sameInside (hlength.symm ▸ hinside)
    refine ⟨_, execute_movep_load hj hload hbase hthere, ?_, fun b hb => ?_⟩
    · rw [Registers.writeData_truncate, hsize]
    · rw [Registers.writeData_truncate, hsize, Registers.readData_writeData, if_pos rfl,
        Size.getLsbD_merge]

/-- `MOVEP.L D0,4(A0)`. -/
def moveOut : Instruction :=
  { address := 8, opcode := 0x01C8, operation := .movep, size := .long
    extension := ⟨10, .one 4⟩, source := none, destination := none, length := 4 }

/-- `MOVEP.L 4(A0),D1`, behind it. -/
def moveIn : Instruction :=
  { address := 12, opcode := 0x0348, operation := .movep, size := .long
    extension := ⟨14, .one 4⟩, source := none, destination := none, length := 4 }

/-- A machine with both as its program, and A0 at the last address. -/
def aboutToMoveOut : Machine :=
  { Machine.new { memoryBytes := 16, traceInstructions := false } with
    registers := (Registers.zeros.writeData 0 0x12345678 .long).writeAddress 0 0xFFFFFFFF .long
    memory := (Memory.zeros 16).setBytes 8 [0x01, 0xC8, 0x00, 0x04, 0x03, 0x48, 0x00, 0x04]
    codeEnd := 16 }

/-- The bytes lie at 3, 5, 7 and 9, where the last one falls into the first instruction. -/
theorem movep_round_trip_odd :
    aboutToMoveOut.code.fetch 8 = .ok (some moveOut) 12 ∧
      aboutToMoveOut.code.fetch 12 = .ok (some moveIn) 16 ∧
      ∃ m' r, moveOut.execute aboutToMoveOut = .ok () m' ∧
        m'.memory.byte 3 = 0x12 ∧ m'.memory.byte 9 = 0x78 ∧ m'.memory.byte 8 = 0x01 ∧
        moveIn.execute m' = .ok () { m' with registers := r } ∧ r.readData 1 = 0x12345678 := by
  have hout : aboutToMoveOut.code.fetch 8 = .ok (some moveOut) 12 := rfl
  have hin : aboutToMoveOut.code.fetch 12 = .ok (some moveIn) 16 := rfl
  obtain ⟨m', h⟩ : ∃ m', moveOut.execute aboutToMoveOut = .ok () m' := ⟨_, rfl⟩
  obtain ⟨hm', -, hbytes, hothers, hback⟩ := movep_round_trip rfl (by decide) h
  have hregisters : m'.registers = aboutToMoveOut.registers := by rw [hm']
  obtain ⟨r, hload, hr, -⟩ := hback moveIn m' rfl (by decide) rfl
    (by rw [hregisters]; rfl) ⟨rfl, fun _ _ => rfl⟩
  refine ⟨hout, hin, m', r, h, ?_, ?_, ?_, hload, ?_⟩
  · exact (hbytes 0 (by decide)).trans (by decide)
  · exact (hbytes 3 (by decide)).trans (by decide)
  · exact (hothers 8 (by decide)).trans (by decide)
  · rw [hr, hregisters]
    decide

end Instruction

end Mc68000
