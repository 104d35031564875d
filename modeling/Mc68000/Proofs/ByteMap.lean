import Mc68000.Proofs.ByteRuns
import Mc68000.Proofs.Loads
import Mc68000.Proofs.MultiplePrecision

/-!
# Memory is a map of bytes

Loads, clears and writes change a store; reads and dumps look into it. What they find is determined
by the calls before them, without the store: each byte is what the last call that reached it left.

* `Memory.Call` -- the calls that change a store, and `perform`, `after`, `afterAll` for what they
  make of one;
* `Call.Fits`, `Call.failure` -- the calls that succeed, and how the others fail;
* `lastByte?`, `lastBytes` -- the byte map, by the calls alone;
* `perform_eq`, `byte_taking` -- one call, on the store and on the map;
* `byte_afterAll` -- so any number of them;
* `refines_byteMap` -- **every read and every dump returns what the calls left**.
-/

namespace Mc68000.Memory

/-! ## 1. Calls on a store -/

/-- A call that changes a store. A write puts the low bytes of a value there, as many as an operand
    of its size has. -/
inductive Call where
  | load (bytes : List Byte) (address : Address) (clearFirst : Bool)
  | clear
  | write (address : Address) (size : Size) (v : Long)
  deriving DecidableEq, Repr

/-- Makes a call. -/
def perform (m : Memory) : Call → Except Failure Memory
  | .load bytes address clearFirst => m.fill? bytes address clearFirst
  | .clear => .ok m.clear
  | .write address size v => (m.write address size v).mapError .trap

/-- The store after a call. A call that fails leaves it. -/
def after (m : Memory) (c : Call) : Memory := (m.perform c).toOption.getD m

/-- The store after calls one behind the other. -/
def afterAll (m : Memory) (calls : List Call) : Memory := calls.foldl after m

/-! ## 2. The map of bytes -/

/-- An operand inside a store, at an even address if it is a word or a long. -/
def OperandFits (address : Address) (size : Size) (capacity : Nat) : Prop :=
  address.toNat + size.bytes ≤ capacity ∧ (size = .byte ∨ address.toNat % 2 = 0)

instance (address : Address) (size : Size) (capacity : Nat) :
    Decidable (OperandFits address size capacity) :=
  inferInstanceAs (Decidable (_ ∧ _))

/-- The byte that a run of bytes from an index on has at another one. -/
def runByte? (i : Nat) (bytes : List Byte) (j : Nat) : Option Byte :=
  if i ≤ j then bytes[j - i]? else none

/-- The low bytes of a value, the most significant of them first. -/
def lowBytes (v : Long) (size : Size) : List Byte :=
  (List.range size.bytes).map fun k => v.extractLsb' (8 * (size.bytes - 1 - k)) 8

/-- The number of a list of bytes, the most significant first. -/
def bigEndian (bytes : List Byte) : Nat := bytes.foldl (fun n b => 2 ^ 8 * n + b.toNat) 0

namespace Call

/-- The calls that a store of so many bytes takes. -/
def Fits (capacity : Nat) : Call → Prop
  | load bytes address _ => address.toNat + bytes.length ≤ capacity
  | clear => True
  | write address size _ => OperandFits address size capacity

instance (capacity : Nat) : DecidablePred (Fits capacity)
  | load .. => inferInstanceAs (Decidable (_ ≤ _))
  | clear => inferInstanceAs (Decidable True)
  | write address size _ => inferInstanceAs (Decidable (OperandFits address size capacity))

/-- How a call fails that does not fit. -/
def failure (capacity : Nat) : Call → Failure
  | load bytes address _ => .loadOutOfRange address bytes.length capacity
  | _ => .trap .addressError

/-- The byte that a call leaves at an index, if it reaches that far. Where a load or a clear puts
    nothing else, it leaves zero if it clears the store. -/
def byte? : Call → Nat → Option Byte
  | load bytes address clearFirst, j =>
    (runByte? address.toNat bytes j).or (if clearFirst then some 0 else none)
  | clear, _ => some 0
  | write address size v, j => runByte? address.toNat (lowBytes v size) j

end Call

/-- The byte that calls leave at an index: that of the last one that fits and reaches so far. -/
def lastByte? (capacity : Nat) (calls : List Call) (j : Nat) : Option Byte :=
  (calls.filter (Call.Fits capacity)).reverse.findSome? (·.byte? j)

/-- The bytes that calls leave in a range, zero where they leave none. -/
def lastBytes (capacity : Nat) (calls : List Call) (i length : Nat) : List Byte :=
  (List.range length).map fun k => (lastByte? capacity calls (i + k)).getD 0

/-! ## 3. One call -/

section

variable {m : Memory} {capacity : Nat} {a : Address} {size : Size}

theorem accessible_iff : accessible a size capacity = true ↔ OperandFits a size capacity := by
  have hbit : a.getLsbD 0 = decide (a.toNat % 2 = 1) := Nat.testBit_zero a.toNat
  unfold accessible inBounds OperandFits
  rw [hbit, Bool.and_eq_true_iff, Bool.or_eq_true_iff, decide_eq_true_iff, decide_eq_true_iff,
    Bool.not_eq_true', decide_eq_false_iff_not, Nat.mod_two_not_eq_one, and_comm]

/-- A store puts the low bytes of a value, in order. -/
theorem operandBytes_eq (v : Long) (size : Size) : operandBytes v size = lowBytes v size := by
  have hword (k : Nat) (hk : k + 8 ≤ 16) : (v.setWidth 16).extractLsb' k 8 = v.extractLsb' k 8 :=
    BitVec.extractLsb'_setWidth_of_le hk
  cases size with
  | byte =>
    show [v.setWidth 8] = [v.extractLsb' 0 8]
    rw [BitVec.setWidth_eq_extractLsb' (by decide)]
  | word =>
    show [(v.setWidth 16).extractLsb' 8 8, (v.setWidth 16).extractLsb' 0 8] = _
    rw [hword 8 (by decide), hword 0 (by decide)]
    rfl
  | long => rfl

/-- The store that a call leaves if it fits. -/
def taking (m : Memory) : Call → Memory
  | .load bytes address clearFirst => (m.beforeFill clearFirst).setBytes address.toNat bytes
  | .clear => m.clear
  | .write address size v => m.store address.toNat size v

/-- **A call succeeds exactly if it fits.** -/
theorem perform_eq (m : Memory) (c : Call) :
    m.perform c =
      if c.Fits m.capacity then .ok (m.taking c) else .error (c.failure m.capacity) := by
  by_cases hfits : c.Fits m.capacity
  · rw [if_pos hfits]
    cases c with
    | load => exact fill?_eq_ok_iff.mpr ⟨hfits, rfl⟩
    | clear => rfl
    | write => exact congrArg (Except.mapError Failure.trap) (if_pos (accessible_iff.mpr hfits))
  · rw [if_neg hfits]
    cases c with
    | load => exact if_neg fun h => hfits (of_decide_eq_true h)
    | clear => exact absurd trivial hfits
    | write => exact congrArg (Except.mapError Failure.trap) (if_neg (accessible_iff.not.mpr hfits))

theorem after_eq (m : Memory) (c : Call) :
    m.after c = if c.Fits m.capacity then m.taking c else m := by
  unfold after
  rw [perform_eq]
  split <;> rfl

@[simp] theorem capacity_taking (m : Memory) (c : Call) : (m.taking c).capacity = m.capacity := by
  cases c with
  | load bytes a clearFirst => exact (capacity_setBytes ..).trans (capacity_beforeFill m clearFirst)
  | clear => exact capacity_clear m
  | write => exact capacity_store ..

@[simp] theorem capacity_after (m : Memory) (c : Call) : (m.after c).capacity = m.capacity := by
  rw [after_eq]
  split
  · exact capacity_taking m c
  · rfl

/-- Where a run is set there is its byte, and elsewhere the one before. -/
theorem byte_setBytes_eq {i : Nat} {bytes : List Byte} (h : i + bytes.length ≤ m.capacity)
    (j : Nat) : (m.setBytes i bytes).byte j = (runByte? i bytes j).getD (m.byte j) := by
  rw [byte_setBytes h]
  unfold runByte?
  split <;> rfl

theorem byte_beforeFill (m : Memory) (clearFirst : Bool) (j : Nat) :
    (m.beforeFill clearFirst).byte j =
      (if clearFirst then some 0 else none : Option Byte).getD (m.byte j) := by
  cases clearFirst
  · rfl
  · exact byte_zeros _ j

/-- **A call that fits changes the bytes that it leaves**, and no others. -/
theorem byte_taking {c : Call} (hfits : c.Fits m.capacity) (j : Nat) :
    (m.taking c).byte j = (c.byte? j).getD (m.byte j) := by
  cases c with
  | load bytes a clearFirst =>
    have hfits' : a.toNat + bytes.length ≤ (m.beforeFill clearFirst).capacity := by
      rw [capacity_beforeFill]
      exact hfits
    rw [taking, byte_setBytes_eq hfits', byte_beforeFill, Call.byte?]
    cases runByte? a.toNat bytes j <;> rfl
  | clear => exact byte_zeros _ j
  | write a size v =>
    have hfits' : a.toNat + (operandBytes v size).length ≤ m.capacity := by
      rw [length_operandBytes]
      exact hfits.1
    rw [taking, store, byte_setBytes_eq hfits', operandBytes_eq]
    rfl

/-! ## 4. Any number of calls -/

@[simp] theorem capacity_afterAll (m : Memory) (calls : List Call) :
    (m.afterAll calls).capacity = m.capacity := by
  induction calls generalizing m with
  | nil => rfl
  | cons c calls ih => exact (ih _).trans (capacity_after m c)

/-- What the first call leaves stays where the others leave nothing. -/
theorem lastByte?_cons (capacity : Nat) (c : Call) (calls : List Call) (j : Nat) :
    lastByte? capacity (c :: calls) j =
      (lastByte? capacity calls j).or (if c.Fits capacity then c.byte? j else none) := by
  unfold lastByte?
  rw [List.filter_cons]
  by_cases hfits : c.Fits capacity
  · -- the calls are searched from the last one on, so the first one comes behind all others
    rw [if_pos hfits, if_pos (decide_eq_true hfits), List.reverse_cons, List.findSome?_append,
      List.findSome?_singleton]
  · rw [if_neg hfits, if_neg (by simpa using hfits), Option.or_none]

/-- **The bytes of a store are those that calls leave**, and as before where they leave none. -/
theorem byte_afterAll (m : Memory) (calls : List Call) (j : Nat) :
    (m.afterAll calls).byte j = (lastByte? m.capacity calls j).getD (m.byte j) := by
  induction calls generalizing m with
  | nil => rfl
  | cons c calls ih =>
    have hfirst : (m.after c).byte j =
        (if c.Fits m.capacity then c.byte? j else none).getD (m.byte j) := by
      rw [after_eq]
      split
      · exact byte_taking ‹_› j
      · rfl
    show ((m.after c).afterAll calls).byte j = _
    rw [ih, capacity_after, hfirst, lastByte?_cons, Option.getD_or]

theorem map_byte_afterAll (capacity : Nat) (calls : List Call) (i length : Nat) :
    (List.range length).map (fun k => ((zeros capacity).afterAll calls).byte (i + k)) =
      lastBytes capacity calls i length := by
  refine List.map_congr_left fun k _ => ?_
  rw [byte_afterAll, capacity_zeros, byte_zeros]

/-! ## 5. What is read -/

theorem number_eq_bigEndian (m : Memory) (i n : Nat) :
    m.number i n = bigEndian ((List.range n).map fun k => m.byte (i + k)) := by
  induction n with
  | zero => rfl
  | succ n ih =>
    rw [List.range_succ, List.map_append, bigEndian, List.foldl_append, ← bigEndian, ← ih]
    rfl

/-- A read that is allowed returns the number of the bytes there. -/
theorem map_toNat_read (m : Memory) (a : Address) (size : Size) :
    (m.read a size).map BitVec.toNat =
      if OperandFits a size m.capacity then
        .ok (bigEndian ((List.range size.bytes).map fun k => m.byte (a.toNat + k)))
      else .error .addressError := by
  unfold read
  by_cases hfits : OperandFits a size m.capacity
  · rw [if_pos (accessible_iff.mpr hfits), if_pos hfits, ← number_eq_bigEndian, ← toNat_fetch]
    rfl
  · rw [if_neg (accessible_iff.not.mpr hfits), if_neg hfits]
    rfl

theorem map_toNat_readWord (m : Memory) (a : Address) :
    (m.readWord a).map BitVec.toNat = (m.read a .word).map BitVec.toNat := by
  unfold readWord read
  split
  · have hword : (m.fetch a.toNat .word).toNat < 2 ^ 16 := by
      rw [toNat_fetch]
      exact number_lt m a.toNat 2
    refine congrArg Except.ok ?_
    show ((m.fetch a.toNat .word).setWidth 16).toNat = _
    rw [BitVec.toNat_setWidth, Nat.mod_eq_of_lt hword]
  · rfl

/-- **A store is a map of bytes.** After any calls on a store of zeros, the next call succeeds
    exactly if its range lies inside the store and, for a word or a long, its address is even; a
    call that fails leaves the store. A read by the same rule returns the number of the bytes that
    the calls left there, the most significant first, and a dump inside the store returns those
    bytes. -/
theorem refines_byteMap (capacity : Nat) (calls : List Call) :
    let store := (zeros capacity).afterAll calls
    (∀ c : Call,
      if c.Fits capacity then store.perform c = .ok (store.after c)
      else store.perform c = .error (c.failure capacity) ∧ store.after c = store) ∧
    (∀ (a : Address) (size : Size),
      (store.read a size).map BitVec.toNat =
        if OperandFits a size capacity then
          .ok (bigEndian (lastBytes capacity calls a.toNat size.bytes))
        else .error .addressError) ∧
    (∀ a : Address, (store.readWord a).map BitVec.toNat = (store.read a .word).map BitVec.toNat) ∧
    ∀ (a : Address) (length : Nat),
      store.range a length =
        if a.toNat + length ≤ capacity then .ok (lastBytes capacity calls a.toNat length)
        else .error (.rangeOutOfBounds a length) := by
  intro store
  have hcapacity : store.capacity = capacity := by
    rw [capacity_afterAll, capacity_zeros]
  refine ⟨fun c => ?_, fun a size => ?_, store.map_toNat_readWord, fun a length => ?_⟩
  · rw [perform_eq, after_eq, hcapacity]
    by_cases hfits : c.Fits capacity
    · rw [if_pos hfits, if_pos hfits, if_pos hfits]
    · rw [if_neg hfits, if_neg hfits, if_neg hfits]
      exact ⟨rfl, rfl⟩
  · rw [map_toNat_read, hcapacity, map_byte_afterAll]
  · unfold range
    rw [map_byte_afterAll, hcapacity]
    simp only [inBounds, decide_eq_true_eq]

-- The odd word and the long past the end leave nothing.
example :
    lastBytes 8 [.load [1, 2, 3, 4] 2 false, .write 4 .word 0xABCD, .write 3 .word 0xFFFF,
      .write 6 .long 0xFFFFFFFF] 2 6 = [1, 2, 0xAB, 0xCD, 0, 0] := by decide

end

end Mc68000.Memory
