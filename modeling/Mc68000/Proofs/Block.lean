import Mc68000.Memory

/-!
# Blocks of operands

Where in memory an instruction may write.

* `Block` -- operands of one size at a fixed distance from one another, `Block.single` -- only one;
* `Block.Covers` -- the bytes of their operands; `covers_single` -- those of one operand;
  `covers_of_contiguous` -- **operands that lie end to end are one run of bytes**;
* `Memory.SameOutside` -- two stores of one capacity that agree outside a block;
  `sameOutside_store` -- **a store changes the bytes of its operand at most**.
-/

namespace Mc68000

/-! ## 1. Blocks -/

/-- Operands of a size, each a stride behind the one before. Addresses count modulo 2^32. -/
structure Block where
  start : Address
  size : Size
  /-- The distance in bytes from one operand to the next. -/
  stride : Nat
  count : Nat
  deriving DecidableEq, Repr

namespace Block

/-- One operand. -/
def single (a : Address) (size : Size) : Block := ⟨a, size, size.bytes, 1⟩

/-- The address of an operand of a block. -/
def address (b : Block) (k : Nat) : Address := b.start + BitVec.ofNat 32 (k * b.stride)

/-- The byte at an index of a store belongs to an operand of the block. -/
def Covers (b : Block) (j : Nat) : Prop :=
  ∃ k < b.count, (b.address k).toNat ≤ j ∧ j < (b.address k).toNat + b.size.bytes

instance (b : Block) (j : Nat) : Decidable (b.Covers j) :=
  inferInstanceAs (Decidable (∃ k < b.count, _))

variable {b : Block} {a : Address} {size : Size} {j : Nat}

@[simp] theorem address_zero (b : Block) : b.address 0 = b.start := by
  rw [address, Nat.zero_mul]
  exact BitVec.add_zero b.start

theorem covers_single :
    (single a size).Covers j ↔ a.toNat ≤ j ∧ j < a.toNat + size.bytes := by
  constructor
  · rintro ⟨k, hk, hj⟩
    obtain rfl : k = 0 := Nat.lt_one_iff.mp hk
    rw [address_zero] at hj
    exact hj
  · intro hj
    refine ⟨0, Nat.zero_lt_one, ?_⟩
    rw [address_zero]
    exact hj

/-- The operands of a block that does not pass the last address lie at the multiples of the
    stride. -/
theorem toNat_address (hfit : b.start.toNat + b.count * b.stride ≤ Long.count) {k : Nat}
    (hk : k < b.count) (hstride : 0 < b.stride) :
    (b.address k).toNat = b.start.toNat + k * b.stride := by
  have hlt : k * b.stride < b.count * b.stride := Nat.mul_lt_mul_of_pos_right hk hstride
  have hsum : b.start.toNat + k * b.stride < Long.count := by omega
  rw [address, BitVec.toNat_add, BitVec.toNat_ofNat, Nat.add_mod_mod]
  exact Nat.mod_eq_of_lt hsum

/-- **Operands that lie end to end are one run of bytes.** -/
theorem covers_of_contiguous (hstride : b.stride = b.size.bytes)
    (hfit : b.start.toNat + b.count * b.stride ≤ Long.count) :
    b.Covers j ↔ b.start.toNat ≤ j ∧ j < b.start.toNat + b.count * b.stride := by
  have hpos : 0 < b.stride := by rw [hstride]; cases b.size <;> decide
  constructor
  · rintro ⟨k, hk, hj, hj'⟩
    have hnext : (k + 1) * b.stride ≤ b.count * b.stride := Nat.mul_le_mul_right _ hk
    rw [toNat_address hfit hk hpos] at hj hj'
    rw [Nat.succ_mul] at hnext
    omega
  · rintro ⟨hj, hj'⟩
    have hk : (j - b.start.toNat) / b.stride < b.count := by
      rw [Nat.div_lt_iff_lt_mul hpos]
      omega
    have hdiv := Nat.div_add_mod (j - b.start.toNat) b.stride
    have hmod := Nat.mod_lt (j - b.start.toNat) hpos
    rw [Nat.mul_comm] at hdiv
    refine ⟨_, hk, ?_⟩
    rw [toNat_address hfit hk hpos]
    omega

end Block

/-! ## 2. Stores that agree outside a block -/

namespace Memory

variable {block : Option Block} {m m' m'' : Memory}

/-- Two stores of one capacity that agree outside a block, everywhere if there is none. -/
structure SameOutside (block : Option Block) (m m' : Memory) : Prop where
  capacity_eq : m'.capacity = m.capacity
  byte_eq : ∀ j, (∀ b ∈ block, ¬ b.Covers j) → m'.byte j = m.byte j

theorem SameOutside.refl (block : Option Block) (m : Memory) : SameOutside block m m :=
  ⟨rfl, fun _ _ => rfl⟩

theorem SameOutside.trans (h : SameOutside block m m') (h' : SameOutside block m' m'') :
    SameOutside block m m'' :=
  ⟨h'.capacity_eq.trans h.capacity_eq,
    fun j hj => (h'.byte_eq j hj).trans (h.byte_eq j hj)⟩

/-- **A store changes the bytes of its operand at most.** -/
theorem sameOutside_store {b : Block} {a : Address} {size : Size} (m : Memory) (v : Long)
    (hcovers : ∀ j, a.toNat ≤ j → j < a.toNat + size.bytes → b.Covers j) :
    SameOutside (some b) m (m.store a.toNat size v) where
  capacity_eq := capacity_store ..
  byte_eq := by
    intro j hj
    have hnot : ¬ b.Covers j := hj b rfl
    have hout : j < a.toNat ∨ a.toNat + size.bytes ≤ j := by
      by_cases hin : a.toNat ≤ j ∧ j < a.toNat + size.bytes
      · exact absurd (hcovers j hin.1 hin.2) hnot
      · omega
    refine byte_setBytes_of_outside _ _ _ _ ?_
    rw [length_operandBytes]
    exact hout

theorem sameOutside_store_single (m : Memory) (a : Address) (size : Size) (v : Long) :
    SameOutside (some (.single a size)) m (m.store a.toNat size v) :=
  sameOutside_store m v fun _ hj hj' => Block.covers_single.mpr ⟨hj, hj'⟩

end Memory

end Mc68000
