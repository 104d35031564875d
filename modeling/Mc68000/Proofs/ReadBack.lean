import Mc68000.Memory

/-!
# What is written reads back

* `Word.append_bytes`, `Long.append_bytes` -- the bytes of a value, put together again;
* `Size.truncate_eq_setWidth` -- a truncated value as the low bits with zeros above;
* `Memory.fetch_store`, `read_store` -- **an operand that is stored reads back**, cut to its size;
* `Memory.read_byte_of_word` -- the byte at the address of a word is its high one.
-/

namespace Mc68000

/-! ## 1. Values and their bytes -/

theorem Word.append_bytes (w : Word) : w.extractLsb' 8 8 ++ w.extractLsb' 0 8 = w := by
  have happend : w.extractLsb' 8 8 ++ w.extractLsb' 0 8 = w.extractLsb' 0 16 :=
    BitVec.extractLsb'_append_extractLsb'_eq_extractLsb' rfl
  rw [happend, BitVec.extractLsb'_eq_self]

theorem Long.append_bytes (v : Long) :
    v.extractLsb' 24 8 ++ v.extractLsb' 16 8 ++ v.extractLsb' 8 8 ++ v.extractLsb' 0 8 = v := by
  have hhigh : v.extractLsb' 24 8 ++ v.extractLsb' 16 8 = v.extractLsb' 16 16 :=
    BitVec.extractLsb'_append_extractLsb'_eq_extractLsb' rfl
  have hthree : v.extractLsb' 16 16 ++ v.extractLsb' 8 8 = v.extractLsb' 8 24 :=
    BitVec.extractLsb'_append_extractLsb'_eq_extractLsb' rfl
  have hall : v.extractLsb' 8 24 ++ v.extractLsb' 0 8 = v.extractLsb' 0 32 :=
    BitVec.extractLsb'_append_extractLsb'_eq_extractLsb' rfl
  rw [hhigh, hthree, hall, BitVec.extractLsb'_eq_self]

theorem Size.truncate_eq_setWidth (size : Size) (v : Long) :
    size.truncate v = (v.setWidth size.bits).setWidth 32 := by
  refine BitVec.eq_of_getLsbD_eq fun k hk => ?_
  rw [getLsbD_truncate, BitVec.getLsbD_setWidth, BitVec.getLsbD_setWidth]
  simp [hk, Bool.and_comm]

/-! ## 2. Operands in memory -/

namespace Memory

variable {m : Memory} {i : Nat} {size : Size}

/-- **An operand that is stored reads back**, cut to its size. -/
theorem fetch_store (h : i + size.bytes ≤ m.capacity) (v : Long) :
    (m.store i size v).fetch i size = size.truncate v := by
  have hlength := length_operandBytes v size
  have hbyte (k : Nat) (hk : k < size.bytes) : (m.store i size v).byte (i + k) =
      (operandBytes v size).get ⟨k, hlength.symm ▸ hk⟩ :=
    byte_setBytes_of_inside m i k _ _ (hlength.symm ▸ h)
  rw [Size.truncate_eq_setWidth]
  unfold fetch
  cases size with
  | byte => exact congrArg (BitVec.setWidth 32) (hbyte 0 (by decide))
  | word =>
    have h₀ : (m.store i .word v).byte i = (v.setWidth 16).extractLsb' 8 8 := hbyte 0 (by decide)
    have h₁ : (m.store i .word v).byte (i + 1) = (v.setWidth 16).extractLsb' 0 8 :=
      hbyte 1 (by decide)
    dsimp only
    rw [h₀, h₁, Word.append_bytes]
    rfl
  | long =>
    have h₀ : (m.store i .long v).byte i = v.extractLsb' 24 8 := hbyte 0 (by decide)
    have h₁ : (m.store i .long v).byte (i + 1) = v.extractLsb' 16 8 := hbyte 1 (by decide)
    have h₂ : (m.store i .long v).byte (i + 2) = v.extractLsb' 8 8 := hbyte 2 (by decide)
    have h₃ : (m.store i .long v).byte (i + 3) = v.extractLsb' 0 8 := hbyte 3 (by decide)
    dsimp only
    rw [h₀, h₁, h₂, h₃, Long.append_bytes]
    simp [Size.bits, Size.bytes]

/-- A value that is read has no bits above its size. -/
theorem truncate_fetch (m : Memory) (i : Nat) (size : Size) :
    size.truncate (m.fetch i size) = m.fetch i size := by
  rw [Size.truncate_eq_setWidth]
  cases size with
  | byte => simp [fetch, Size.bits, Size.bytes]
  | word => simp [fetch, Size.bits, Size.bytes]
  | long => simp [fetch, Size.bits, Size.bytes]

/-- An operand that may be accessed lies inside the store. -/
theorem le_of_accessible {a : Address} {capacity : Nat} (h : accessible a size capacity = true) :
    a.toNat + size.bytes ≤ capacity :=
  of_decide_eq_true (Bool.and_eq_true_iff.mp h).2

theorem read_of_accessible {a : Address} (h : accessible a size m.capacity = true) :
    m.read a size = .ok (m.fetch a.toNat size) := if_pos h

theorem accessible_of_read {a : Address} {v : Long} (h : m.read a size = .ok v) :
    accessible a size m.capacity = true ∧ m.fetch a.toNat size = v := by
  unfold read at h
  split at h
  · cases h
    exact ⟨‹_›, rfl⟩
  · cases h

/-- So does one that is written by the rule for accesses. -/
theorem read_store {a : Address} (h : accessible a size m.capacity = true) (v : Long) :
    (m.store a.toNat size v).read a size = .ok (size.truncate v) := by
  have h' : accessible a size (m.store a.toNat size v).capacity = true := by
    rw [capacity_store]
    exact h
  rw [read_of_accessible h', fetch_store (le_of_accessible h)]

/-- The byte at the address of a word is its high byte. -/
theorem read_byte_of_word {a : Address} {w : Word}
    (h : m.read a .word = .ok (w.setWidth 32)) :
    m.read a .byte = .ok ((w.extractLsb' 8 8).setWidth 32) := by
  obtain ⟨ha, hfetch⟩ := accessible_of_read h
  have hle := le_of_accessible ha
  have hbyte : accessible a .byte m.capacity = true := by
    unfold accessible inBounds
    have hfirst : a.toNat + Size.byte.bytes ≤ m.capacity :=
      Nat.le_trans (Nat.add_le_add_left (by decide) _) hle
    simpa using hfirst
  rw [read_of_accessible hbyte]
  have hword : m.byte a.toNat ++ m.byte (a.toNat + 1) = w := by
    have hlow := congrArg (BitVec.setWidth 16) hfetch
    simpa [fetch] using hlow
  rw [← hword, BitVec.extractLsb'_append_eq_left]
  rfl

end Memory

end Mc68000
