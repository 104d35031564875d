import Mc68000.Machine

/-!
# Loads that succeed

* `Memory.fill?_eq_ok_iff` -- **bytes go into memory exactly if there is room for them**;
* `Machine.loadProgram_eq_ok_iff`, `loadData_eq_ok_iff` -- so do programs and data, and what else a
  load changes.
-/

namespace Mc68000

namespace Memory

variable {m m' : Memory} {bytes : List Byte} {address : Address} {clearFirst : Bool}

/-- The memory that a load puts its bytes into. -/
def beforeFill (m : Memory) (clearFirst : Bool) : Memory := if clearFirst then m.clear else m

theorem capacity_beforeFill (m : Memory) (clearFirst : Bool) :
    (m.beforeFill clearFirst).capacity = m.capacity := by
  cases clearFirst
  · rfl
  · exact capacity_clear m

theorem fill?_eq_ok_iff :
    m.fill? bytes address clearFirst = .ok m' ↔
      address.toNat + bytes.length ≤ m.capacity ∧
        m' = (m.beforeFill clearFirst).setBytes address.toNat bytes := by
  unfold fill? beforeFill inBounds
  by_cases hin : address.toNat + bytes.length ≤ m.capacity
  · rw [if_pos (decide_eq_true hin)]
    exact ⟨fun h => ⟨hin, (Except.ok.inj h).symm⟩, fun h => congrArg Except.ok h.2.symm⟩
  · rw [if_neg (by simpa using hin)]
    exact ⟨nofun, fun h => absurd h.1 hin⟩

theorem capacity_of_fill? (h : m.fill? bytes address clearFirst = .ok m') :
    m'.capacity = m.capacity := by
  obtain ⟨-, rfl⟩ := fill?_eq_ok_iff.mp h
  rw [capacity_setBytes, capacity_beforeFill]

end Memory

namespace Machine

variable {m m' : Machine} {bytes : List Byte} {address : Address} {clearFirst : Bool}

theorem loadProgram_eq_ok_iff :
    loadProgram bytes address clearFirst m = .ok () m' ↔
      bytes.length < Long.count ∧ address.toNat + bytes.length ≤ m.memory.capacity ∧
        m' =
          { m with
            memory := (m.memory.beforeFill clearFirst).setBytes address.toNat bytes
            codeStart := address
            codeEnd := address + BitVec.ofNat 32 bytes.length
            registers := m.registers.setPc address
            callDepth := 0
            runState := .running } := by
  unfold loadProgram
  by_cases hlong : Long.count ≤ bytes.length
  · rw [if_pos hlong]
    exact ⟨nofun, fun h => absurd h.1 (Nat.not_lt.mpr hlong)⟩
  · rw [if_neg hlong]
    cases hfill : m.memory.fill? bytes address clearFirst with
    | error f =>
      refine ⟨nofun, fun h => ?_⟩
      rw [Memory.fill?_eq_ok_iff.mpr ⟨h.2.1, rfl⟩] at hfill
      cases hfill
    | ok memory =>
      obtain ⟨hin, rfl⟩ := Memory.fill?_eq_ok_iff.mp hfill
      constructor
      · rintro ⟨⟩
        exact ⟨Nat.lt_of_not_le hlong, hin, rfl⟩
      · rintro ⟨-, -, rfl⟩
        rfl

theorem loadData_eq_ok_iff :
    loadData bytes address clearFirst m = .ok () m' ↔
      address.toNat + bytes.length ≤ m.memory.capacity ∧
        m' = { m with memory := (m.memory.beforeFill clearFirst).setBytes address.toNat bytes } := by
  unfold loadData
  cases hfill : m.memory.fill? bytes address clearFirst with
  | error f =>
    refine ⟨nofun, fun h => ?_⟩
    rw [Memory.fill?_eq_ok_iff.mpr ⟨h.1, rfl⟩] at hfill
    cases hfill
  | ok memory =>
    obtain ⟨hin, rfl⟩ := Memory.fill?_eq_ok_iff.mp hfill
    constructor
    · rintro ⟨⟩
      exact ⟨hin, rfl⟩
    · rintro ⟨-, rfl⟩
      rfl

end Machine

end Mc68000
