import Mc68000.Word

/-!
# Passes over a list

What the passes of the sort do to the list, before any machine runs them.

* `pass`, `swaps` -- one pass, and how often it swaps. A value that is not below the next one
  changes places with it, so two equal values do too;
* `carry_cons` -- a pass is the same step at every pair;
* `pass_perm` -- a pass keeps the values;
* `pairwise_of_swaps_eq_zero` -- **a pass without a swap has found the list ascending, no two values
  equal**;
* `swaps_ne_zero_of_not_nodup` -- so over a list with two equal values there is always one more;
* `inversions_pass` -- **else every swap takes one inversion away**.
-/

namespace Mc68000.SortProgram

/-! ## 1. One pass -/

/-- What a pass makes of a value that it carries and of the values ahead. -/
def carry : Byte → List Byte → List Byte
  | x, [] => [x]
  | x, y :: ys => if x < y then x :: carry y ys else y :: carry x ys

/-- How often it swaps on the way. -/
def carrySwaps : Byte → List Byte → Nat
  | _, [] => 0
  | x, y :: ys => if x < y then carrySwaps y ys else carrySwaps x ys + 1

/-- The list after a pass. -/
def pass : List Byte → List Byte
  | [] => []
  | x :: xs => carry x xs

/-- The number of swaps of a pass. -/
def swaps : List Byte → Nat
  | [] => 0
  | x :: xs => carrySwaps x xs

section Carry

variable {x y : Byte} (ys : List Byte)

theorem carry_of_lt (h : x < y) : carry x (y :: ys) = x :: carry y ys := if_pos h

theorem carry_of_not_lt (h : ¬x < y) : carry x (y :: ys) = y :: carry x ys := if_neg h

theorem carrySwaps_of_lt (h : x < y) : carrySwaps x (y :: ys) = carrySwaps y ys := if_pos h

theorem carrySwaps_of_not_lt (h : ¬x < y) : carrySwaps x (y :: ys) = carrySwaps x ys + 1 :=
  if_neg h

/-- The values of a pair in order. -/
def lower (x y : Byte) : Byte := if x < y then x else y

@[inherit_doc lower]
def upper (x y : Byte) : Byte := if x < y then y else x

/-- A pair leaves its lower value behind, and the upper one is carried on. -/
theorem carry_cons (x y : Byte) : carry x (y :: ys) = lower x y :: carry (upper x y) ys := by
  unfold lower upper
  by_cases h : x < y
  · rw [carry_of_lt ys h, if_pos h, if_pos h]
  · rw [carry_of_not_lt ys h, if_neg h, if_neg h]

theorem carrySwaps_cons (x y : Byte) :
    carrySwaps x (y :: ys) = carrySwaps (upper x y) ys + if x < y then 0 else 1 := by
  unfold upper
  by_cases h : x < y
  · rw [carrySwaps_of_lt ys h, if_pos h, if_pos h]
    rfl
  · rw [carrySwaps_of_not_lt ys h, if_neg h, if_neg h]

end Carry

theorem carry_perm (x : Byte) (ys : List Byte) : (carry x ys).Perm (x :: ys) := by
  induction ys generalizing x with
  | nil => exact .refl [x]
  | cons y ys ih =>
    by_cases h : x < y
    · rw [carry_of_lt ys h]
      exact (ih y).cons x
    · rw [carry_of_not_lt ys h]
      exact ((ih x).cons y).trans (.swap x y ys)

/-- A pass keeps the values. -/
theorem pass_perm (xs : List Byte) : (pass xs).Perm xs := by
  cases xs with
  | nil => exact .nil
  | cons x xs => exact carry_perm x xs

/-! ## 2. The last pass -/

theorem pairwise_of_carrySwaps_eq_zero {x : Byte} {ys : List Byte} (h : carrySwaps x ys = 0) :
    (x :: ys).Pairwise (· < ·) ∧ carry x ys = x :: ys := by
  induction ys generalizing x with
  | nil => exact ⟨List.pairwise_singleton _ x, rfl⟩
  | cons y ys ih =>
    by_cases hlt : x < y
    · rw [carrySwaps_of_lt ys hlt] at h
      obtain ⟨hsorted, hsame⟩ := ih h
      refine ⟨List.pairwise_cons.mpr ⟨fun z hz => ?_, hsorted⟩, by rw [carry_of_lt ys hlt, hsame]⟩
      rcases List.mem_cons.mp hz with rfl | hz
      · exact hlt
      · exact BitVec.lt_trans hlt (List.rel_of_pairwise_cons hsorted hz)
    · rw [carrySwaps_of_not_lt ys hlt] at h
      exact absurd h (Nat.succ_ne_zero _)

/-- **A pass without a swap has found the list ascending**, and has left it. -/
theorem pairwise_of_swaps_eq_zero {xs : List Byte} (h : swaps xs = 0) :
    xs.Pairwise (· < ·) ∧ pass xs = xs := by
  cases xs with
  | nil => exact ⟨.nil, rfl⟩
  | cons x xs => exact pairwise_of_carrySwaps_eq_zero h

theorem nodup_of_pairwise_lt {xs : List Byte} (h : xs.Pairwise (· < ·)) : xs.Nodup := by
  refine h.imp ?_
  rintro x y hlt rfl
  exact BitVec.lt_irrefl x hlt

/-- **Over a list with two equal values there is no last pass.** -/
theorem swaps_ne_zero_of_not_nodup {xs : List Byte} (h : ¬xs.Nodup) : swaps xs ≠ 0 := fun h0 =>
  h (nodup_of_pairwise_lt (pairwise_of_swaps_eq_zero h0).1)

/-! ## 3. Inversions -/

/-- The number of pairs of values of which the greater comes first. -/
def inversions : List Byte → Nat
  | [] => 0
  | x :: xs => xs.countP (· < x) + inversions xs

theorem inversions_le (xs : List Byte) : inversions xs ≤ xs.length * xs.length := by
  induction xs with
  | nil => exact Nat.le_refl 0
  | cons x xs ih =>
    have hcount : xs.countP (· < x) ≤ xs.length := List.countP_le_length
    have hsquare : (xs.length + 1) * (xs.length + 1) =
        xs.length * xs.length + xs.length + xs.length + 1 := by
      rw [Nat.succ_mul, Nat.mul_succ]
      omega
    rw [inversions, List.length_cons, hsquare]
    omega

/-- Every swap on the way takes one inversion away, as long as the values are distinct. -/
theorem inversions_carry (x : Byte) (ys : List Byte) (h : (x :: ys).Nodup) :
    inversions (carry x ys) + carrySwaps x ys = inversions (x :: ys) := by
  induction ys generalizing x with
  | nil => rfl
  | cons y ys ih =>
    obtain ⟨hx, hys⟩ := List.nodup_cons.mp h
    by_cases hlt : x < y
    · have hrest := ih y hys
      have hcount : (carry y ys).countP (· < x) = (y :: ys).countP (· < x) :=
        (carry_perm y ys).countP_eq _
      rw [carry_of_lt ys hlt, carrySwaps_of_lt ys hlt, inversions, inversions, hcount]
      omega
    · -- the two are distinct, so the pair is an inversion, and the swap undoes it
      have hne : x ≠ y := fun e => hx (e ▸ List.mem_cons_self)
      have hyx : y < x := by bv_omega
      have hnodup : (x :: ys).Nodup :=
        List.nodup_cons.mpr ⟨fun hmem => hx (List.mem_cons_of_mem y hmem), hys.of_cons⟩
      have hrest := ih x hnodup
      have hcount : (carry x ys).countP (· < y) = ys.countP (· < y) := by
        rw [(carry_perm x ys).countP_eq, List.countP_cons_of_neg (by simpa using hlt)]
      have hfirst : (y :: ys).countP (· < x) = ys.countP (· < x) + 1 :=
        List.countP_cons_of_pos (by simpa using hyx)
      rw [carry_of_not_lt ys hlt, carrySwaps_of_not_lt ys hlt, inversions, hcount, inversions,
        hfirst, inversions]
      rw [inversions] at hrest
      omega

/-- **Every swap takes one inversion away**, as long as the values are distinct. -/
theorem inversions_pass {xs : List Byte} (h : xs.Nodup) :
    inversions (pass xs) + swaps xs = inversions xs := by
  cases xs with
  | nil => rfl
  | cons x xs => exact inversions_carry x xs h

end Mc68000.SortProgram
