import Mc68000.Size
import Mc68000.Trap

/-!
# Memory

A flat store of bytes with a fixed capacity, read and written most significant byte first.

* `accessible` -- the rule for one access: it lies inside the store, and a word or a long starts
  at an even address;
* `Memory.byte`, `Memory.setByte` -- the view of a store as bytes by index. A byte past the end
  reads as zero, and setting one changes nothing;
* `Memory.read`, `Memory.write` -- accesses under the rule, at any size;
* `Memory.fill?`, `Memory.range` -- whole runs of bytes in and out.

`Memory.ext` and `Memory.byte_setByte` determine a store by its bytes, so nothing below has to
look inside it.
-/

namespace Mc68000

/-- Whether the bytes from `address` on, `length` of them, lie inside a store. -/
def inBounds (address : Address) (length capacity : Nat) : Bool :=
  address.toNat + length ≤ capacity

/-- Whether one access is allowed: inside the store, and a word or a long at an even address. -/
def accessible (address : Address) (size : Size) (capacity : Nat) : Bool :=
  (size = .byte || !address.getLsbD 0) && inBounds address size.bytes capacity

/-- The rule for one access as a check. -/
def checkAccess (address : Address) (size : Size) (capacity : Nat) : Except Trap Unit :=
  if accessible address size capacity then .ok () else .error .addressError

/-- A store of bytes. -/
structure Memory where
  private mk ::
  private bytes : ByteArray

namespace Memory

/-! ## 1. Bytes by index -/

/-- The number of bytes of a store. -/
def capacity (m : Memory) : Nat := m.bytes.size

/-- Zeros behind bytes. -/
private def pushZeros : Nat → ByteArray → ByteArray
  | 0, bytes => bytes
  | count + 1, bytes => pushZeros count (bytes.push 0)

private theorem pushZeros_eq (count : Nat) (a : Array UInt8) :
    pushZeros count ⟨a⟩ = ⟨a ++ Array.replicate count 0⟩ := by
  induction count generalizing a with
  | zero => simp [pushZeros]
  | succ count ih =>
    show pushZeros count ⟨a.push 0⟩ = _
    simp [ih, Array.replicate_succ']

/-- A store of zeros. -/
def zeros (capacity : Nat) : Memory := ⟨pushZeros capacity (ByteArray.emptyWithCapacity capacity)⟩

private theorem zeros_eq (capacity : Nat) : zeros capacity = ⟨⟨Array.replicate capacity 0⟩⟩ := by
  show (⟨pushZeros capacity ⟨#[]⟩⟩ : Memory) = _
  rw [pushZeros_eq, Array.empty_append]

/-- The byte at an index, zero past the end. -/
def byte (m : Memory) (i : Nat) : Byte :=
  if h : i < m.bytes.size then (m.bytes.get i h).toBitVec else 0

/-- The store with one byte set; past the end, the store itself. -/
def setByte (m : Memory) (i : Nat) (v : Byte) : Memory :=
  if h : i < m.bytes.size then ⟨m.bytes.set i ⟨v⟩ h⟩ else m

/-- The store with consecutive bytes set from an index on. -/
def setBytes (m : Memory) (i : Nat) : List Byte → Memory
  | [] => m
  | v :: vs => (m.setByte i v).setBytes (i + 1) vs

private theorem capacity_mk (a : Array UInt8) : (⟨⟨a⟩⟩ : Memory).capacity = a.size := rfl

private theorem byte_mk (a : Array UInt8) (i : Nat) :
    (⟨⟨a⟩⟩ : Memory).byte i = if h : i < a.size then a[i].toBitVec else 0 := rfl

private theorem setByte_mk (a : Array UInt8) (i : Nat) (v : Byte) :
    (⟨⟨a⟩⟩ : Memory).setByte i v =
      if h : i < a.size then ⟨⟨a.set i ⟨v⟩ h⟩⟩ else ⟨⟨a⟩⟩ := rfl

/-- Two stores are equal exactly if their arrays of bytes are. -/
instance : DecidableEq Memory
  | ⟨⟨a⟩⟩, ⟨⟨b⟩⟩ =>
    if h : a = b then .isTrue (h ▸ rfl)
    else .isFalse fun e => h (congrArg (fun m : Memory => m.bytes.data) e)

@[simp] theorem capacity_zeros (n : Nat) : (zeros n).capacity = n := by
  rw [zeros_eq, capacity_mk, Array.size_replicate]

@[simp] theorem byte_zeros (n i : Nat) : (zeros n).byte i = 0 := by
  by_cases h : i < n <;> simp [zeros_eq, byte_mk, h]

theorem byte_of_capacity_le {m : Memory} {i : Nat} (h : m.capacity ≤ i) : m.byte i = 0 := by
  unfold byte
  exact dif_neg (Nat.not_lt.mpr h)

@[simp] theorem capacity_setByte (m : Memory) (i : Nat) (v : Byte) :
    (m.setByte i v).capacity = m.capacity := by
  rcases m with ⟨⟨a⟩⟩
  by_cases h : i < a.size <;>
    simp only [setByte_mk, capacity_mk, h, dite_true, dite_false, Array.size_set]

/-- A set byte reads back, and every other byte stays. -/
theorem byte_setByte (m : Memory) (i j : Nat) (v : Byte) :
    (m.setByte i v).byte j = if j = i ∧ i < m.capacity then v else m.byte j := by
  rcases m with ⟨⟨a⟩⟩
  by_cases hi : i < a.size
  · by_cases hj : j < a.size
    · simp only [setByte_mk, byte_mk, capacity_mk, hi, hj, dite_true, Array.size_set,
        Array.getElem_set, and_true, eq_comm (a := j)]
      split <;> rfl
    · have hij : j ≠ i := fun e => hj (e ▸ hi)
      simp only [setByte_mk, byte_mk, capacity_mk, hi, hj, dite_true, dite_false, Array.size_set,
        hij, false_and, if_false]
  · simp only [setByte_mk, byte_mk, capacity_mk, hi, dite_false, and_false, if_false]

/-- Two stores of one capacity and with the same bytes are **the same store**. -/
theorem ext {m n : Memory} (hc : m.capacity = n.capacity) (hb : ∀ i, m.byte i = n.byte i) :
    m = n := by
  rcases m with ⟨⟨a⟩⟩
  rcases n with ⟨⟨b⟩⟩
  have hab : a = b := by
    refine Array.ext hc fun i h₁ h₂ => ?_
    have h := hb i
    have ha : i < a.size := h₁
    have hb : i < b.size := h₂
    simp only [byte_mk, ha, hb, dite_true] at h
    exact UInt8.toBitVec_inj.mp h
  rw [hab]

@[simp] theorem capacity_setBytes (m : Memory) (i : Nat) (vs : List Byte) :
    (m.setBytes i vs).capacity = m.capacity := by
  induction vs generalizing m i with
  | nil => rfl
  | cons v vs ih => rw [setBytes, ih, capacity_setByte]

/-- Setting a run is setting its first part, then the rest behind it. -/
theorem setBytes_append (m : Memory) (i : Nat) (vs ws : List Byte) :
    m.setBytes i (vs ++ ws) = (m.setBytes i vs).setBytes (i + vs.length) ws := by
  induction vs generalizing m i with
  | nil => rfl
  | cons v vs ih =>
    rw [List.cons_append, setBytes, setBytes, ih, List.length_cons, Nat.add_assoc,
      Nat.add_comm 1]

/-- Bytes outside the run that is set stay. -/
theorem byte_setBytes_of_outside (m : Memory) (i j : Nat) (vs : List Byte)
    (h : j < i ∨ i + vs.length ≤ j) : (m.setBytes i vs).byte j = m.byte j := by
  induction vs generalizing m i with
  | nil => rfl
  | cons v vs ih =>
    rw [List.length_cons] at h
    rw [setBytes, ih _ _ (by omega), byte_setByte, if_neg (by omega)]

/-- A run that is set reads back byte for byte, as far as the store reaches. -/
theorem byte_setBytes_of_inside (m : Memory) (i k : Nat) (vs : List Byte) (hk : k < vs.length)
    (hc : i + vs.length ≤ m.capacity) : (m.setBytes i vs).byte (i + k) = vs.get ⟨k, hk⟩ := by
  induction vs generalizing m i k with
  | nil => exact absurd hk (Nat.not_lt_zero k)
  | cons v vs ih =>
    rw [List.length_cons] at hk hc
    rw [setBytes]
    cases k with
    | zero =>
      rw [byte_setBytes_of_outside _ _ _ _ (by omega), byte_setByte, if_pos (by omega)]
      rfl
    | succ k =>
      have h := ih (m.setByte i v) (i + 1) k (by omega) (by rw [capacity_setByte]; omega)
      rw [show i + (k + 1) = i + 1 + k by omega, h]
      rfl

/-! ## 2. Accesses -/

/-- The operand at an index, most significant byte first, the bits above its size zero. -/
def fetch (m : Memory) (i : Nat) : Size → Long
  | .byte => (m.byte i).setWidth 32
  | .word => (m.byte i ++ m.byte (i + 1)).setWidth 32
  | .long => m.byte i ++ m.byte (i + 1) ++ m.byte (i + 2) ++ m.byte (i + 3)

/-- The low bytes of a value as an operand of a size, most significant first. -/
def operandBytes (v : Long) : Size → List Byte
  | .byte => [v.setWidth 8]
  | .word => Word.bytes (v.setWidth 16)
  | .long => Long.bytes v

/-- The store with an operand put at an index. -/
def store (m : Memory) (i : Nat) (size : Size) (v : Long) : Memory :=
  m.setBytes i (operandBytes v size)

/-- Reads an operand. -/
def read (m : Memory) (address : Address) (size : Size) : Except Trap Long :=
  if accessible address size m.capacity then .ok (m.fetch address.toNat size)
  else .error .addressError

/-- Reads a word. -/
def readWord (m : Memory) (address : Address) : Except Trap Word :=
  (m.read address .word).map (·.setWidth 16)

/-- Writes the low bytes of a value as an operand. -/
def write (m : Memory) (address : Address) (size : Size) (v : Long) : Except Trap Memory :=
  if accessible address size m.capacity then .ok (m.store address.toNat size v)
  else .error .addressError

/-! ## 3. Runs of bytes -/

/-- The store with every byte zero. -/
def clear (m : Memory) : Memory := zeros m.capacity

/-- Copies bytes into the store, first clearing it if asked to. Nothing happens unless all of them
    fit. -/
def fill? (m : Memory) (data : List Byte) (address : Address) (clearFirst : Bool) :
    Except Failure Memory :=
  if inBounds address data.length m.capacity then
    .ok ((if clearFirst then m.clear else m).setBytes address.toNat data)
  else .error (.loadOutOfRange address data.length m.capacity)

/-- The bytes of a range. -/
def range (m : Memory) (address : Address) (length : Nat) : Except Failure (List Byte) :=
  if inBounds address length m.capacity then
    .ok ((List.range length).map fun k => m.byte (address.toNat + k))
  else .error (.rangeOutOfBounds address length)

@[simp] theorem length_operandBytes (v : Long) (s : Size) :
    (operandBytes v s).length = s.bytes := by
  cases s <;> rfl

@[simp] theorem capacity_store (m : Memory) (i : Nat) (s : Size) (v : Long) :
    (m.store i s v).capacity = m.capacity := capacity_setBytes _ _ _

@[simp] theorem capacity_clear (m : Memory) : m.clear.capacity = m.capacity := capacity_zeros _

end Memory

end Mc68000
