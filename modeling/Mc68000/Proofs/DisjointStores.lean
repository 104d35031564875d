import Mathlib.Data.List.Pairwise
import Mc68000.Proofs.Block
import Mc68000.Proofs.ReadBack

/-!
# Stores that do not overlap

Operands stored one after the other, none of which shares a byte with another one.

* `Memory.Apart` -- two operands without a byte in common;
* `Memory.store_comm` -- **two stores that are apart commute**;
* `Memory.storeEach` -- operands stored one after the other;
* `Memory.storeEach_perm` -- **their order does not matter**;
* `Memory.fetch_storeEach` -- **each of them reads back**;
* `Memory.consecutive` -- values that lie end to end in memory; `pairwise_consecutive` -- they are
  apart as long as they do not fill the address space more than once, wherever they begin.
-/

namespace Mc68000.Memory

variable {m m' : Memory} {size : Size} {a b : Address} {l l' : List (Address × Long)}

/-! ## 1. Two stores -/

/-- Two operands of a size without a byte in common. -/
def Apart (size : Size) (a b : Address) : Prop :=
  a.toNat + size.bytes ≤ b.toNat ∨ b.toNat + size.bytes ≤ a.toNat

theorem Apart.symm (h : Apart size a b) : Apart size b a := Or.symm h

/-- What a run leaves at an index depends only on what was there. -/
theorem byte_setBytes_congr {j : Nat} (hc : m.capacity = m'.capacity) (hb : m.byte j = m'.byte j)
    (i : Nat) (vs : List Byte) : (m.setBytes i vs).byte j = (m'.setBytes i vs).byte j := by
  induction vs generalizing m m' i with
  | nil => exact hb
  | cons v vs ih =>
    refine ih ?_ ?_ (i + 1)
    · rw [capacity_setByte, capacity_setByte, hc]
    · rw [byte_setByte, byte_setByte, hc, hb]

/-- An operand is its bytes. -/
theorem fetch_congr {i : Nat}
    (h : ∀ j, i ≤ j → j < i + size.bytes → m'.byte j = m.byte j) :
    m'.fetch i size = m.fetch i size := by
  have hbyte (k : Nat) (hk : k < size.bytes) : m'.byte (i + k) = m.byte (i + k) :=
    h (i + k) (Nat.le_add_right i k) (Nat.add_lt_add_left hk i)
  cases size with
  | byte => exact congrArg (BitVec.setWidth 32) (hbyte 0 (by decide))
  | word =>
    have h₀ : m'.byte i = m.byte i := hbyte 0 (by decide)
    unfold fetch
    dsimp only
    rw [h₀, hbyte 1 (by decide)]
  | long =>
    have h₀ : m'.byte i = m.byte i := hbyte 0 (by decide)
    unfold fetch
    dsimp only
    rw [h₀, hbyte 1 (by decide), hbyte 2 (by decide), hbyte 3 (by decide)]

/-- **Two stores that are apart commute.** -/
theorem store_comm (h : Apart size a b) (m : Memory) (v w : Long) :
    (m.store a.toNat size v).store b.toNat size w =
      (m.store b.toNat size w).store a.toNat size v := by
  refine Memory.ext (by simp) fun j => ?_
  -- no byte is in both operands: the store of the one that it is not in may be left out
  have hleft {a b : Address} {v w : Long} (hout : j < a.toNat ∨ a.toNat + size.bytes ≤ j) :
      ((m.store a.toNat size v).store b.toNat size w).byte j =
        ((m.store b.toNat size w).store a.toNat size v).byte j := by
    rw [← length_operandBytes v size] at hout
    have hkept : (m.store a.toNat size v).byte j = m.byte j :=
      byte_setBytes_of_outside m _ _ _ hout
    calc ((m.store a.toNat size v).store b.toNat size w).byte j
        = (m.store b.toNat size w).byte j :=
          byte_setBytes_congr (capacity_store ..) hkept _ _
      _ = ((m.store b.toNat size w).store a.toNat size v).byte j :=
          (byte_setBytes_of_outside _ _ _ _ hout).symm
  by_cases hj : j < a.toNat ∨ a.toNat + size.bytes ≤ j
  · exact hleft hj
  · refine (hleft ?_).symm
    unfold Apart at h
    omega

/-! ## 2. Stores one after the other -/

/-- The store with operands put one after the other. -/
def storeEach (size : Size) (l : List (Address × Long)) (m : Memory) : Memory :=
  l.foldl (fun m p => m.store p.1.toNat size p.2) m

@[simp] theorem storeEach_nil (size : Size) (m : Memory) : storeEach size [] m = m := rfl

@[simp] theorem storeEach_cons (size : Size) (p : Address × Long) (l : List (Address × Long))
    (m : Memory) :
    storeEach size (p :: l) m = storeEach size l (m.store p.1.toNat size p.2) := rfl

@[simp] theorem capacity_storeEach (size : Size) (l : List (Address × Long)) (m : Memory) :
    (storeEach size l m).capacity = m.capacity := by
  induction l generalizing m with
  | nil => rw [storeEach_nil]
  | cons p l ih => rw [storeEach_cons, ih, capacity_store]

/-- **The order of stores that are apart does not matter.** -/
theorem storeEach_perm (hperm : l.Perm l') (hapart : l.Pairwise fun p q => Apart size p.1 q.1)
    (m : Memory) : storeEach size l m = storeEach size l' m := by
  have : Std.Symm fun p q : Address × Long => Apart size p.1 q.1 := ⟨fun _ _ => Apart.symm⟩
  refine hperm.foldl_eq' (fun p hp q hq m => ?_) m
  by_cases h : p = q
  · rw [h]
  · have hpq : Apart size p.1 q.1 := hapart.forall hp hq h
    exact store_comm hpq m p.2 q.2

/-- **Each of several stores that are apart reads back.** -/
theorem fetch_storeEach (hapart : l.Pairwise fun p q => Apart size p.1 q.1)
    {p : Address × Long} (hp : p ∈ l) (hin : p.1.toNat + size.bytes ≤ m.capacity) :
    (storeEach size l m).fetch p.1.toNat size = size.truncate p.2 := by
  obtain ⟨before, behind, rfl⟩ := List.append_of_mem hp
  -- the store of this operand may as well be the last one
  have hlast : (before ++ p :: behind).Perm ((before ++ behind) ++ [p]) :=
    List.perm_middle.trans (List.perm_append_singleton p _).symm
  rw [storeEach_perm hlast hapart, storeEach, List.foldl_append]
  refine fetch_store ?_ p.2
  rw [← storeEach, capacity_storeEach]
  exact hin

/-! ## 3. Values end to end -/

/-- Values and the addresses that they lie at, from an address on. -/
def consecutive (size : Size) (a : Address) (vs : List Long) : List (Address × Long) :=
  vs.mapIdx fun k v => (a + BitVec.ofNat 32 (k * size.bytes), v)

@[simp] theorem length_consecutive (size : Size) (a : Address) (vs : List Long) :
    (consecutive size a vs).length = vs.length := List.length_mapIdx

theorem mem_consecutive {vs : List Long} {p : Address × Long} :
    p ∈ consecutive size a vs ↔
      ∃ (k : Nat) (hk : k < vs.length), (a + BitVec.ofNat 32 (k * size.bytes), vs[k]) = p :=
  List.mem_mapIdx

theorem consecutive_cons (size : Size) (a : Address) (v : Long) (vs : List Long) :
    consecutive size a (v :: vs) =
      (a, v) :: consecutive size (a + BitVec.ofNat 32 size.bytes) vs := by
  unfold consecutive
  rw [List.mapIdx_cons, Nat.zero_mul, BitVec.add_zero]
  congr 2
  funext k v
  rw [Nat.succ_mul, Nat.add_comm, BitVec.ofNat_add, BitVec.add_assoc]

theorem consecutive_concat (size : Size) (a : Address) (vs : List Long) (v : Long) :
    consecutive size a (vs ++ [v]) =
      consecutive size a vs ++ [(a + BitVec.ofNat 32 (vs.length * size.bytes), v)] :=
  List.mapIdx_concat

/-- **Values end to end are apart**, also where they pass the last address, as long as they do not
    come round to where they began. -/
theorem pairwise_consecutive (size : Size) (a : Address) (vs : List Long)
    (hfit : vs.length * size.bytes ≤ Long.count) :
    (consecutive size a vs).Pairwise fun p q => Apart size p.1 q.1 := by
  refine List.pairwise_iff_getElem.mpr fun i j hi hj hij => ?_
  rw [length_consecutive] at hj
  obtain ⟨d, rfl⟩ := Nat.exists_eq_add_of_lt hij
  -- the second operand is a distance behind the first that is neither too short nor too long
  have hfrom : size.bytes ≤ (d + 1) * size.bytes := Nat.le_mul_of_pos_left _ (Nat.succ_pos d)
  have hto : (d + 1) * size.bytes + size.bytes ≤ Long.count := by
    refine Nat.le_trans ?_ hfit
    rw [← Nat.succ_mul]
    exact Nat.mul_le_mul_right _ (by omega)
  have hbehind : a + BitVec.ofNat 32 ((i + d + 1) * size.bytes) =
      a + BitVec.ofNat 32 (i * size.bytes) + BitVec.ofNat 32 ((d + 1) * size.bytes) := by
    rw [Nat.add_assoc, Nat.add_mul, BitVec.ofNat_add, BitVec.add_assoc]
  have hpos : 0 < size.bytes := by cases size <;> decide
  simp only [consecutive, List.getElem_mapIdx]
  rw [hbehind]
  generalize a + BitVec.ofNat 32 (i * size.bytes) = first
  generalize (d + 1) * size.bytes = distance at hfrom hto
  unfold Apart
  rw [BitVec.toNat_add, BitVec.toNat_ofNat]
  have hfirst : first.toNat < Long.count := first.isLt
  unfold Long.count at hto hfirst
  omega

end Mc68000.Memory
