import Mc68000.Size
import Mc68000.Condition
import Mc68000.Text.Digits

/-!
# Registers

Eight data registers, seven address registers and two stack pointers, of which the S flag selects
the active one as `A7`; the program counter and the status register.

* `Register` -- the name of a data or an address register;
* `Registers` -- their values;
* `Registers.readData`, `writeData`, `readAddress`, `writeAddress`, `read`, `write` -- sized
  access. A write leaves the bits above its size alone;
* `Registers.increment`, `decrement` -- the steps of the auto-modify addressing modes;
* `Registers.listing` -- the text of all of them.

The lemmas say what a write does to each register: to the one it names, and to no other.
-/

namespace Mc68000

/-- The name of a data or an address register. `A7` is the active stack pointer. -/
inductive Register where
  | data (n : Fin 8)
  | address (n : Fin 8)
  deriving DecidableEq, Repr

/-- The values of the registers. -/
structure Registers where
  data : Vector Long 8
  address : Vector Long 7
  usp : Address
  ssp : Address
  pc : Address
  sr : Word
  deriving DecidableEq

namespace Registers

/-- All registers zero. -/
def zeros : Registers :=
  { data := Vector.replicate 8 0, address := Vector.replicate 7 0,
    usp := 0, ssp := 0, pc := 0, sr := 0 }

/-- The number of the register that stands for the active stack pointer. -/
def stackNumber : Fin 8 := ⟨7, by decide⟩

/-! ## 1. Mode and stack -/

/-- Whether the processor is in supervisor mode. -/
def isSupervisor (r : Registers) : Bool := Status.hasFlag r.sr Status.supervisor

/-- The active stack pointer. -/
def sp (r : Registers) : Address := if r.isSupervisor then r.ssp else r.usp

/-- Writes the active stack pointer. -/
def setSp (r : Registers) (v : Address) : Registers :=
  if r.isSupervisor then { r with ssp := v } else { r with usp := v }

/-! ## 2. Data and address registers -/

/-- The value of a data register. -/
def readData (r : Registers) (n : Fin 8) : Long := r.data[n.val]

/-- Writes the low bits of a data register. -/
def writeData (r : Registers) (n : Fin 8) (v : Long) (size : Size) : Registers :=
  { r with data := r.data.set n.val (size.merge (r.readData n) v) }

/-- The value of an address register. -/
def readAddress (r : Registers) (n : Fin 8) : Long :=
  if h : n.val < 7 then r.address[n.val] else r.sp

/-- Writes the low bits of an address register. -/
def writeAddress (r : Registers) (n : Fin 8) (v : Long) (size : Size) : Registers :=
  let merged := size.merge (r.readAddress n) v
  if h : n.val < 7 then { r with address := r.address.set n.val merged } else r.setSp merged

/-- The value of a register. -/
def read (r : Registers) : Register → Long
  | .data n => r.readData n
  | .address n => r.readAddress n

/-- Writes the low bits of a register. -/
def write (r : Registers) (reg : Register) (v : Long) (size : Size) : Registers :=
  match reg with
  | .data n => r.writeData n v size
  | .address n => r.writeAddress n v size

/-- How far an auto-modify mode moves an address register: by the operand, but by two for a byte
    on the stack pointer, which so stays even. -/
def autoStep (n : Fin 8) (size : Size) : Nat :=
  if n = stackNumber ∧ size = .byte then 2 else size.bytes

/-- Moves an address register up by one operand. -/
def increment (r : Registers) (n : Fin 8) (size : Size) : Registers :=
  r.writeAddress n (r.readAddress n + BitVec.ofNat 32 (autoStep n size)) .long

/-- Moves an address register down by one operand. -/
def decrement (r : Registers) (n : Fin 8) (size : Size) : Registers :=
  r.writeAddress n (r.readAddress n - BitVec.ofNat 32 (autoStep n size)) .long

/-! ## 3. Status register and program counter -/

/-- Writes the program counter. -/
def setPc (r : Registers) (v : Address) : Registers := { r with pc := v }

/-- Writes the status register; bits that do not exist are dropped. -/
def setSr (r : Registers) (w : Word) : Registers := { r with sr := Status.ofWord w }

/-- The condition codes. -/
def conditions (r : Registers) : Word := Status.conditionsOf r.sr

/-- Writes the condition codes; the system byte stays. -/
def setConditions (r : Registers) (w : Word) : Registers :=
  { r with sr := Status.withConditions r.sr w }

/-- Whether all bits of `flags` are set. -/
def flag (r : Registers) (flags : Word) : Bool := Status.hasFlag r.sr flags

/-- Sets or clears bits of the status register. -/
def setFlag (r : Registers) (flags : Word) (on : Bool) : Registers :=
  { r with sr := Status.setFlag r.sr flags on }

/-- Whether a condition holds. -/
def holds (r : Registers) (condition : Condition) : Bool := condition.holds r.sr

/-! ## 4. Listing -/

/-- A register as the listing shows it, in both bases. -/
def line (name : String) (v : Long) : String :=
  name ++ ": 0x" ++ Digits.upperHex 8 v.toNat ++ " (" ++ Digits.decimal v.toNat ++ ")\n"

/-- All registers, one a line, and last the status register with the names of its set flags. -/
def listing (r : Registers) : String :=
  String.join ((List.finRange 8).map fun n =>
    line ("D" ++ Digits.decimal n.val) (r.readData n)) ++
  String.join ((List.finRange 8).map fun n =>
    line ("A" ++ Digits.decimal n.val) (r.readAddress n)) ++
  line "USP" r.usp ++ line "SSP" r.ssp ++ line "PC" r.pc ++
  "Status Register: 0x" ++ Digits.upperHex 4 r.sr.toNat ++
  " (" ++ " ".intercalate (Status.flagNames r.sr) ++ ")"

/-! ## 5. What a write does -/

/-- A written data register reads back merged, and every other one stays. -/
theorem readData_writeData (r : Registers) (n k : Fin 8) (v : Long) (s : Size) :
    (r.writeData n v s).readData k = if k = n then s.merge (r.readData n) v else r.readData k := by
  simp only [writeData, readData, Vector.getElem_set]
  by_cases h : k = n
  · simp [h]
  · rw [if_neg h, if_neg fun e => h (Fin.ext e.symm)]

@[simp] theorem readAddress_writeData (r : Registers) (n k : Fin 8) (v : Long) (s : Size) :
    (r.writeData n v s).readAddress k = r.readAddress k := rfl

@[simp] theorem isSupervisor_setSp (r : Registers) (v : Address) :
    (r.setSp v).isSupervisor = r.isSupervisor := by
  unfold setSp
  split <;> rfl

@[simp] theorem sp_setSp (r : Registers) (v : Address) : (r.setSp v).sp = v := by
  have h := isSupervisor_setSp r v
  unfold sp
  rw [h]
  unfold setSp
  split <;> rfl

/-- A written stack pointer is what `A7` reads, and no other register changes. -/
theorem readAddress_setSp (r : Registers) (v : Address) (k : Fin 8) :
    (r.setSp v).readAddress k = if k = stackNumber then v else r.readAddress k := by
  by_cases h : k.val < 7
  · have hk : k ≠ stackNumber := fun e => absurd (e ▸ h) (by decide)
    rw [if_neg hk, readAddress, dif_pos h, readAddress, dif_pos h]
    unfold setSp
    split <;> rfl
  · have hk : k = stackNumber := Fin.ext (by have := k.isLt; show k.val = 7; omega)
    rw [if_pos hk, readAddress, dif_neg h, sp_setSp]

/-- A written address register reads back merged, and every other one stays. -/
theorem readAddress_writeAddress (r : Registers) (n k : Fin 8) (v : Long) (s : Size) :
    (r.writeAddress n v s).readAddress k =
      if k = n then s.merge (r.readAddress n) v else r.readAddress k := by
  unfold writeAddress
  dsimp only
  split
  case isFalse h =>
    have hn : n = stackNumber := Fin.ext (by have := n.isLt; show n.val = 7; omega)
    rw [readAddress_setSp, hn]
  case isTrue h =>
    by_cases hk : k.val < 7
    · simp only [readAddress, hk, h, dite_true, Vector.getElem_set]
      by_cases e : k = n
      · simp [e]
      · rw [if_neg e, if_neg fun e' => e (Fin.ext e'.symm)]
    · have e : k ≠ n := fun e => hk (e ▸ h)
      simp only [readAddress, hk, dite_false, if_neg e]
      rfl

/-- A register that is written reads back merged, of whichever kind. -/
theorem read_write (r : Registers) (reg : Register) (v : Long) (s : Size) :
    (r.write reg v s).read reg = s.merge (r.read reg) v := by
  cases reg with
  | data n => exact (readData_writeData ..).trans (if_pos rfl)
  | address n => exact (readAddress_writeAddress ..).trans (if_pos rfl)

@[simp] theorem readData_writeAddress (r : Registers) (n k : Fin 8) (v : Long) (s : Size) :
    (r.writeAddress n v s).readData k = r.readData k := by
  unfold writeAddress
  dsimp only
  split
  · rfl
  · unfold setSp
    split <;> rfl

@[simp] theorem sr_setSp (r : Registers) (v : Address) : (r.setSp v).sr = r.sr := by
  unfold setSp
  split <;> rfl

@[simp] theorem sr_writeAddress (r : Registers) (n : Fin 8) (v : Long) (s : Size) :
    (r.writeAddress n v s).sr = r.sr := by
  unfold writeAddress
  dsimp only
  split
  · rfl
  · exact sr_setSp _ _

@[simp] theorem pc_setSp (r : Registers) (v : Address) : (r.setSp v).pc = r.pc := by
  unfold setSp
  split <;> rfl

@[simp] theorem pc_writeAddress (r : Registers) (n : Fin 8) (v : Long) (s : Size) :
    (r.writeAddress n v s).pc = r.pc := by
  unfold writeAddress
  dsimp only
  split
  · rfl
  · exact pc_setSp _ _

@[simp] theorem data_setSp (r : Registers) (v : Address) : (r.setSp v).data = r.data := by
  unfold setSp
  split <;> rfl

@[simp] theorem data_writeAddress (r : Registers) (n : Fin 8) (v : Long) (s : Size) :
    (r.writeAddress n v s).data = r.data := by
  unfold writeAddress
  dsimp only
  split
  · rfl
  · exact data_setSp _ _

/-- In user mode the supervisor stack pointer is out of reach. -/
theorem ssp_setSp_of_user {r : Registers} (h : r.isSupervisor = false) (v : Address) :
    (r.setSp v).ssp = r.ssp := by
  rw [setSp, h]
  rfl

theorem ssp_writeAddress_of_user {r : Registers} (h : r.isSupervisor = false) (n : Fin 8)
    (v : Long) (s : Size) : (r.writeAddress n v s).ssp = r.ssp := by
  unfold writeAddress
  dsimp only
  split
  · rfl
  · exact ssp_setSp_of_user h _

end Registers

end Mc68000
