import Mc68000.Proofs.FetchWords
import Mc68000.Proofs.ReadBack

/-!
# Runs of bytes in memory

What a run of bytes that has been put into memory makes of it.

* `byte_setBytes` -- each byte;
* `setByte_setBytes`, `setBytes_setBytes` -- a byte of the run changed, and the whole run;
* `wordAt_setBytes` -- **the words of a run of words**;
* `range_setBytes` -- **the run read back**.
-/

namespace Mc68000.Memory

variable {m : Memory} {i : Nat} {vs : List Byte}

/-- A byte is one of a run that has been set, or as it was. -/
theorem byte_setBytes (hc : i + vs.length ≤ m.capacity) (k : Nat) :
    (m.setBytes i vs).byte k = if i ≤ k then vs[k - i]?.getD (m.byte k) else m.byte k := by
  by_cases hk : i ≤ k
  · rw [if_pos hk]
    by_cases hin : k - i < vs.length
    · have hbyte := byte_setBytes_of_inside m i (k - i) vs hin hc
      rw [Nat.add_sub_cancel' hk] at hbyte
      rw [hbyte, List.getElem?_eq_getElem hin]
      rfl
    · rw [List.getElem?_eq_none (by omega)]
      exact byte_setBytes_of_outside m i k vs (.inr (by omega))
  · rw [if_neg hk]
    exact byte_setBytes_of_outside m i k vs (.inl (by omega))

/-- A byte set in a run that has been set is a run that has been set. -/
theorem setByte_setBytes (hc : i + vs.length ≤ m.capacity) {j : Nat} (hj : j < vs.length)
    (x : Byte) : (m.setBytes i vs).setByte (i + j) x = m.setBytes i (vs.set j x) := by
  have hc' : i + (vs.set j x).length ≤ m.capacity := by rwa [List.length_set]
  refine Memory.ext (by simp) fun k => ?_
  rw [byte_setByte, byte_setBytes hc, byte_setBytes hc', capacity_setBytes]
  by_cases hk : k = i + j
  · subst hk
    rw [if_pos ⟨rfl, by omega⟩, if_pos (by omega), Nat.add_sub_cancel_left,
      List.getElem?_set_self hj]
    rfl
  · rw [if_neg fun h => hk h.1]
    by_cases hik : i ≤ k
    · rw [if_pos hik, if_pos hik, List.getElem?_set_ne (by omega)]
    · rw [if_neg hik, if_neg hik]

/-- A run that is there already changes nothing. -/
theorem setBytes_setBytes (hc : i + vs.length ≤ m.capacity) :
    (m.setBytes i vs).setBytes i vs = m.setBytes i vs := by
  refine Memory.ext (by simp) fun k => ?_
  rw [byte_setBytes (by rwa [capacity_setBytes]), byte_setBytes hc]
  by_cases hk : i ≤ k
  · rw [if_pos hk, if_pos hk]
    cases vs[k - i]? <;> rfl
  · rw [if_neg hk, if_neg hk]

/-- **A run of words, word by word.** -/
theorem wordAt_setBytes {ws : List Word} (hc : i + 2 * ws.length ≤ m.capacity) {k : Nat}
    (hk : k < ws.length) : (m.setBytes i (wordsToBytes ws)).wordAt (i + 2 * k) = ws[k] := by
  induction ws generalizing m i k with
  | nil => exact absurd hk (Nat.not_lt_zero k)
  | cons w ws ih =>
    rw [List.length_cons] at hc hk
    have hbytes : w.bytes.length = 2 := rfl
    rw [wordsToBytes_cons, setBytes_append, hbytes]
    cases k with
    | zero =>
      have hhigh : (m.setBytes i w.bytes).byte i = w.extractLsb' 8 8 :=
        byte_setBytes_of_inside m i 0 w.bytes Nat.zero_lt_two (by omega)
      have hlow : (m.setBytes i w.bytes).byte (i + 1) = w.extractLsb' 0 8 :=
        byte_setBytes_of_inside m i 1 w.bytes Nat.one_lt_two (by omega)
      have hbefore {j : Nat} (hj : j < i + 2) :=
        byte_setBytes_of_outside (m.setBytes i w.bytes) (i + 2) j (wordsToBytes ws) (.inl hj)
      show ((m.setBytes i w.bytes).setBytes (i + 2) _).byte i ++
        ((m.setBytes i w.bytes).setBytes (i + 2) _).byte (i + 1) = w
      rw [hbefore (by omega), hbefore (by omega), hhigh, hlow]
      exact w.append_bytes
    | succ k =>
      have hc' : i + 2 + 2 * ws.length ≤ (m.setBytes i w.bytes).capacity := by
        rw [capacity_setBytes]
        omega
      have hrest := ih hc' (Nat.lt_of_succ_lt_succ hk)
      rw [show i + 2 * (k + 1) = i + 2 + 2 * k by omega, hrest]
      rfl

/-- **A run reads back.** -/
theorem range_setBytes {a : Address} (hc : a.toNat + vs.length ≤ m.capacity) :
    (m.setBytes a.toNat vs).range a vs.length = .ok vs := by
  have hin : inBounds a vs.length (m.setBytes a.toNat vs).capacity = true := by
    rw [capacity_setBytes]
    exact decide_eq_true hc
  unfold range
  rw [if_pos hin]
  refine congrArg Except.ok (List.ext_getElem (by simp) fun k hk hk' => ?_)
  rw [List.getElem_map, List.getElem_range, byte_setBytes_of_inside m a.toNat k vs hk' hc]
  rfl

theorem accessible_byte_iff {a : Address} {capacity : Nat} :
    accessible a .byte capacity = true ↔ a.toNat + 1 ≤ capacity := by
  show decide (a.toNat + 1 ≤ capacity) = true ↔ _
  exact decide_eq_true_iff

end Mc68000.Memory
