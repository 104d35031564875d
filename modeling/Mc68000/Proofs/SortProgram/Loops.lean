import Mc68000.Proofs.ReadBack
import Mc68000.Proofs.SizedNumber
import Mc68000.Proofs.SortProgram.Passes
import Mc68000.Proofs.SortProgram.Steps

/-!
# The loops of the sort

From the instructions to the passes that they make over the list.

* `SwapCount` -- what is left of the count in D1, which takes in values of the list too: **it is
  zero only if nothing has been swapped**;
* `Cells.Carries` -- the invariant of a pass;
* `pair_leads` -- one pair;
* `pairs_lead` -- **all pairs of a pass**, by induction on the values ahead;
* `pass_leads` -- one pass, and what comes after it;
* `start_leads` -- the way to the first pass;
* `sort_leads` -- **over distinct values the passes come to an end**, by induction on the
  inversions;
* `endless_leads` -- **over others they never do**.
-/

namespace Mc68000.SortProgram

variable {n : Nat} {m₀ m : Machine} {c : Cells}

/-! ## 1. The counter -/

/-- The counter after some pairs and some swaps. Each swap loads a value over the low byte before
    it counts, so all that remains of the count is whether it is zero, and a bound. -/
structure SwapCount (pairs swapped : Nat) (d1 : Long) : Prop where
  zero_iff : Size.word.unsigned d1 = 0 ↔ swapped = 0
  lt_of_pairs : Size.word.unsigned d1 < 256 * (pairs + 1)

/-- The counter after a swap that has loaded a value. -/
def countedSwap (d1 : Long) (y : Byte) : Long :=
  let loaded := Size.byte.merge d1 (y.setWidth 32)
  Size.word.merge loaded (Size.word.truncate loaded + 1)

theorem toNat_setWidth_byte (y : Byte) : (y.setWidth 32).toNat = y.toNat := by
  rw [BitVec.toNat_setWidth]
  omega

theorem unsigned_countedSwap (d1 : Long) (y : Byte) :
    Size.word.unsigned (countedSwap d1 y) =
      (256 * (Size.word.unsigned d1 / 256) + y.toNat + 1) % 65536 := by
  have hy : y.toNat < 256 := y.isLt
  have hone : (1 : Long).toNat = 1 := rfl
  have hloaded := Size.toNat_merge .byte d1 (y.setWidth 32)
  rw [Size.unsigned_eq_mod .byte, toNat_setWidth_byte] at hloaded
  unfold countedSwap
  rw [Size.unsigned_merge]
  simp only [Size.unsigned_eq_mod, BitVec.toNat_add, Size.toNat_truncate, hloaded, hone,
    Size.count]
  omega

namespace SwapCount

variable {pairs swapped : Nat} {d1 : Long}

theorem cleared (d1 : Long) : SwapCount 0 0 (Size.word.merge d1 0) := by
  have hzero : Size.word.unsigned (Size.word.merge d1 0) = 0 := Size.unsigned_merge .word d1 0
  exact ⟨by rw [hzero], by rw [hzero]; decide⟩

theorem kept (h : SwapCount pairs swapped d1) : SwapCount (pairs + 1) swapped d1 :=
  ⟨h.zero_iff, by have := h.lt_of_pairs; omega⟩

/-- **The counter of a swap is not zero**: a list of at most 255 values is too short for it to
    wrap. -/
theorem counted (h : SwapCount pairs swapped d1) (hpairs : pairs ≤ 253) (y : Byte) :
    SwapCount (pairs + 1) (swapped + 1) (countedSwap d1 y) := by
  have hy : y.toNat < 256 := y.isLt
  have hlt := h.lt_of_pairs
  refine ⟨?_, ?_⟩ <;> rw [unsigned_countedSwap] <;> omega

end SwapCount

/-! ## 2. One pair -/

/-- Behind the first instructions A0 and A1 are at the two ends of the list. -/
structure Cells.Spans (n : Nat) (values : List Byte) (c : Cells) : Prop where
  a0_eq : c.a0 = listAddress
  a1_eq : c.a1 = lastAddress n
  values_eq : c.values = values

/-- Inside a pass A2 is at the value at `j`. -/
structure Cells.InPass (n : Nat) (values : List Byte) (j : Nat) (c : Cells) : Prop
    extends c.Spans n values where
  a2_eq : c.a2 = valueAddress j

/-- **The invariant of a pass**: it carries `x`, has put the values of `done` behind it and has
    those of `rest` ahead. -/
structure Cells.Carries (n : Nat) (done : List Byte) (x : Byte) (rest : List Byte) (swapped : Nat)
    (c : Cells) : Prop extends c.InPass n (done ++ x :: rest) done.length where
  count : SwapCount done.length swapped c.d1

/-- A byte taken from the list into a register is compared with the next as they are. -/
theorem order?_pair (d : Long) (x y : Byte) :
    (⟨.byte, Size.byte.truncate (Size.byte.merge d (x.setWidth 32)), y.setWidth 32⟩ :
      Comparison).order? .carrySet = some (decide (x < y)) := by
  have hx : x.toNat < 256 := x.isLt
  have hy : y.toNat < 256 := y.isLt
  refine congrArg some (decide_eq_decide.mpr ?_)
  dsimp only
  rw [Size.truncate_merge, Size.unsigned_eq_mod, Size.toNat_truncate, Size.unsigned_eq_mod,
    toNat_setWidth_byte, toNat_setWidth_byte, BitVec.lt_def]
  simp only [Size.count]
  omega

/-- The values of a pair are compared, and the branch goes by the outcome. -/
theorem compare_leads (hl : Loaded n m₀) (h : At n m₀ c m) (hpc : c.pc = takeFirst.address)
    {j : Nat} (ha2 : c.a2 = valueAddress j) {x y : Byte} (hx : c.values[j]? = some x)
    (hy : c.values[j + 1]? = some y) :
    Leads n m₀ m 3 { c with
      pc := if x < y then compareLast.address else takeSecond.address
      a2 := valueAddress (j + 1)
      d0 := Size.byte.merge c.d0 (x.setWidth 32) } := by
  refine (at_takeFirst hl h hpc ha2 hx).bind (j := 1) (k := 2) fun m₁ h₁ => ?_
  obtain ⟨m₂, hm₂, h₂, sr, hsr⟩ := at_comparePair hl h₁ rfl rfl hy
  have hheld : m₂.registers.holds (Condition.ofOpcode skipSwap.opcode) = decide (x < y) := by
    show Condition.holds .carrySet m₂.registers.sr = _
    rw [hsr]
    exact Comparison.holds_status sr (order?_pair c.d0 x y)
  obtain ⟨m₃, hm₃, h₃⟩ := at_branch hl h₂ (i := skipSwap) (by decide) rfl rfl hheld rfl rfl
  exact ⟨m₃, hm₂.trans hm₃, h₃⟩

/-- A byte in a register is put back into the list as it was. -/
theorem setWidth_truncate_byte (v : Byte) :
    (Size.byte.truncate (v.setWidth 32)).setWidth 8 = v := by
  have hback (v : Byte) : (v.setWidth 32).setWidth 8 = v := by
    rw [BitVec.setWidth_setWidth_of_le _ (by decide), BitVec.setWidth_eq]
  rw [Size.truncate_eq_setWidth]
  show BitVec.setWidth 8 (BitVec.setWidth 32 (BitVec.setWidth 8 _)) = v
  rw [hback, hback]

/-- The two values of a pair change places, and the counter takes note. -/
theorem swap_leads (hl : Loaded n m₀) (h : At n m₀ c m) (hpc : c.pc = takeSecond.address)
    {j : Nat} (hj : j + 1 < n) (ha2 : c.a2 = valueAddress (j + 1)) {x y : Byte}
    (hd0 : Size.byte.truncate c.d0 = Size.byte.truncate (x.setWidth 32))
    (hy : c.values[j + 1]? = some y) :
    Leads n m₀ m 4 { c with
      pc := compareLast.address
      d1 := countedSwap c.d1 y
      values := (c.values.set j y).set (j + 1) x } := by
  refine (at_takeSecond hl h hpc ha2 hy).bind (j := 1) (k := 3) fun m₁ h₁ => ?_
  refine (at_putSecond hl h₁ rfl (Nat.lt_of_succ_lt hj) ha2).bind (j := 1) (k := 2)
    fun m₂ h₂ => ?_
  refine (at_putFirst hl h₂ rfl hj ha2).bind (j := 1) (k := 1) fun m₃ h₃ => ?_
  have h₄ := at_countSwap hl h₃ rfl
  dsimp only at h₄
  rw [Size.truncate_merge, setWidth_truncate_byte, hd0, setWidth_truncate_byte] at h₄
  exact h₄

/-- **One pair**: it leaves the lower value behind and carries the upper one on. -/
theorem pair_leads (hl : Loaded n m₀) (h : At n m₀ c m) (hpc : c.pc = takeFirst.address)
    {done rest : List Byte} {x y : Byte} {swapped : Nat}
    (hc : c.Carries n done x (y :: rest) swapped) :
    ∃ k c', k ≤ 7 ∧ Leads n m₀ m k c' ∧ c'.pc = compareLast.address ∧
      c'.Carries n (done ++ [lower x y]) (upper x y) rest (swapped + if x < y then 0 else 1) := by
  have hlength : (done ++ x :: y :: rest).length = n := hc.values_eq ▸ h.length_eq
  rw [List.length_append, List.length_cons, List.length_cons] at hlength
  have hmax := hl.le_max
  have hnext (z : Byte) : (done ++ [z]).length = done.length + 1 := List.length_append
  have hx : c.values[done.length]? = some x := by simp [hc.values_eq]
  have hy : c.values[done.length + 1]? = some y := by simp [hc.values_eq]
  obtain ⟨m₁, hm₁, h₁⟩ := compare_leads hl h hpc hc.a2_eq hx hy
  unfold lower upper
  by_cases hlt : x < y
  · simp only [if_pos hlt] at h₁ ⊢
    have hsame : c.values = (done ++ [x]) ++ y :: rest := by
      rw [List.append_assoc]
      exact hc.values_eq
    refine ⟨3, _, by decide, ⟨m₁, hm₁, h₁⟩, rfl,
      ⟨⟨⟨hc.a0_eq, hc.a1_eq, hsame⟩, by rw [hnext]⟩, ?_⟩⟩
    rw [hnext]
    exact hc.count.kept
  · simp only [if_neg hlt] at h₁ ⊢
    obtain ⟨m₂, hm₂, h₂⟩ := swap_leads hl h₁ rfl (by omega) rfl (Size.truncate_merge ..) hy
    have hswapped : (c.values.set done.length y).set (done.length + 1) x =
        (done ++ [y]) ++ x :: rest := by simp [hc.values_eq]
    refine ⟨7, _, by decide, ⟨m₂, hm₁.trans hm₂, h₂⟩, rfl,
      ⟨⟨⟨hc.a0_eq, hc.a1_eq, hswapped⟩, by rw [hnext]⟩, ?_⟩⟩
    rw [hnext]
    exact hc.count.counted (by omega) y

/-! ## 3. All pairs -/

/-- After a pair the pass goes on as long as there is a value ahead. -/
theorem turn_leads (hl : Loaded n m₀) (h : At n m₀ c m) (hpc : c.pc = compareLast.address)
    {values : List Byte} {j : Nat} (hj : j < n) (hc : c.InPass n values j) :
    Leads n m₀ m 2 { c with
      pc := if j + 1 < n then takeFirst.address else testSwaps.address } := by
  have hmax := hl.le_max
  obtain ⟨m₁, hm₁, h₁, sr, hsr⟩ := at_compareLast hl h hpc
  have hheld : m₁.registers.holds (Condition.ofOpcode nextPair.opcode) = decide (j + 1 < n) := by
    show Condition.holds .higher m₁.registers.sr = _
    rw [hsr]
    refine Comparison.holds_status sr (congrArg some ?_)
    rw [decide_eq_decide]
    have hlist : listAddress.toNat = dataAddress.toNat + 1 := rfl
    show Size.long.unsigned c.a2 < Size.long.unsigned c.a1 ↔ _
    unfold Size.unsigned
    rw [Size.truncate_long, Size.truncate_long, hc.a1_eq, hc.a2_eq,
      toNat_lastAddress hmax, toNat_valueAddress (by omega)]
    omega
  obtain ⟨m₂, hm₂, h₂⟩ := at_branch hl h₁ (i := nextPair) (by decide) rfl rfl hheld rfl rfl
  exact ⟨m₂, hm₁.trans hm₂, h₂⟩

/-- **All pairs that are ahead**: they carry the value to its place, and the counter tells whether
    a swap was among them. -/
theorem pairs_lead (hl : Loaded n m₀) {rest : List Byte} :
    ∀ {m : Machine} {c : Cells} {done : List Byte} {x : Byte} {swapped : Nat}, At n m₀ c m →
      c.pc = compareLast.address → c.Carries n done x rest swapped →
      ∃ k c', k ≤ 9 * rest.length + 2 ∧ Leads n m₀ m k c' ∧ c'.pc = testSwaps.address ∧
        c'.Spans n (done ++ carry x rest) ∧
        (Size.word.unsigned c'.d1 = 0 ↔ swapped + carrySwaps x rest = 0) := by
  -- `Carries` is what each pair keeps, with one value less ahead
  induction rest with
  | nil =>
    intro m c done x swapped h hpc hc
    have hlength : (done ++ [x]).length = n := hc.values_eq ▸ h.length_eq
    rw [List.length_append, List.length_singleton] at hlength
    obtain ⟨m₁, hm₁, h₁⟩ := turn_leads hl h hpc (by omega) hc.toInPass
    rw [if_neg (by omega)] at h₁
    exact ⟨2, _, by decide, ⟨m₁, hm₁, h₁⟩, rfl, ⟨hc.a0_eq, hc.a1_eq, hc.values_eq⟩,
      hc.count.zero_iff⟩
  | cons y rest ih =>
    intro m c done x swapped h hpc hc
    have hlength : (done ++ x :: y :: rest).length = n := hc.values_eq ▸ h.length_eq
    rw [List.length_append, List.length_cons, List.length_cons] at hlength
    obtain ⟨m₁, hm₁, h₁⟩ := turn_leads hl h hpc (by omega) hc.toInPass
    rw [if_pos (by omega)] at h₁
    obtain ⟨k, c₂, hk, ⟨m₂, hm₂, h₂⟩, hpc₂, hc₂⟩ := pair_leads hl h₁ rfl
      ⟨⟨⟨hc.a0_eq, hc.a1_eq, hc.values_eq⟩, hc.a2_eq⟩, hc.count⟩
    obtain ⟨j, c₃, hj, ⟨m₃, hm₃, h₃⟩, hpc₃, hc₃, hzero⟩ := ih h₂ hpc₂ hc₂
    have hsteps : 2 + k + j ≤ 9 * (y :: rest).length + 2 := by
      rw [List.length_cons]
      omega
    refine ⟨_, c₃, hsteps, ⟨m₃, (hm₁.trans hm₂).trans hm₃, h₃⟩, hpc₃, ?_, ?_⟩
    · rw [carry_cons, List.append_cons]
      exact hc₃
    · rw [hzero, carrySwaps_cons]
      omega

/-! ## 4. Passes -/

/-- What a pass comes to: the next one, or the end of the program. -/
theorem pass_leads (hl : Loaded n m₀) (h : At n m₀ c m) (hpc : c.pc = clearSwaps.address)
    {values : List Byte} (hc : c.Spans n values) :
    ∃ k c', 0 < k ∧ k ≤ 9 * n ∧ Leads n m₀ m k c' ∧ c'.Spans n (pass values) ∧
      c'.pc = if swaps values ≠ 0 then clearSwaps.address else finish.address := by
  have hlength : values.length = n := hc.values_eq ▸ h.length_eq
  have hmin := hl.two_le
  match values with
  | [] | [_] => simp only [List.length_nil, List.length_singleton] at hlength; omega
  | x :: y :: rest =>
    rw [List.length_cons, List.length_cons] at hlength
    obtain ⟨m₁, hm₁, h₁⟩ := at_clearSwaps hl h hpc
    obtain ⟨m₂, hm₂, h₂⟩ := at_startPass hl h₁ rfl hc.a0_eq
    have hcarries : Cells.Carries n [] x (y :: rest) 0
        { c with
          pc := takeFirst.address
          a2 := listAddress
          d1 := Size.word.merge c.d1 0 } :=
      ⟨⟨⟨hc.a0_eq, hc.a1_eq, hc.values_eq⟩, rfl⟩, .cleared c.d1⟩
    obtain ⟨k, c₃, hk, ⟨m₃, hm₃, h₃⟩, hpc₃, hc₃⟩ := pair_leads hl h₂ rfl hcarries
    obtain ⟨j, c₄, hj, ⟨m₄, hm₄, h₄⟩, hpc₄, hc₄, hzero⟩ := pairs_lead hl h₃ hpc₃ hc₃
    obtain ⟨m₅, hm₅, h₅, hheld⟩ := at_testSwaps hl h₄ hpc₄
    obtain ⟨m₆, hm₆, h₆⟩ := at_branch hl h₅ (i := nextPass) (by decide) rfl rfl hheld rfl rfl
    have hpass := ((((hm₁.trans hm₂).trans hm₃).trans hm₄).trans hm₅).trans hm₆
    have hvalues : c₄.values = pass (x :: y :: rest) := by
      rw [hc₄.values_eq]
      exact (carry_cons rest x y).symm
    refine ⟨_, _, by omega, by omega, ⟨m₆, hpass, h₆⟩, ⟨hc₄.a0_eq, hc₄.a1_eq, hvalues⟩, ?_⟩
    have hswaps : Size.word.unsigned c₄.d1 ≠ 0 ↔ swaps (x :: y :: rest) ≠ 0 := by
      refine not_congr (hzero.trans ?_)
      rw [swaps, carrySwaps_cons]
      omega
    exact ite_congr (propext hswaps) (fun _ => rfl) fun _ => rfl

/-- The way to the first pass, whatever the registers. -/
theorem start_leads (hl : Loaded n m₀) (h : At n m₀ c m) (hpc : c.pc = loadList.address) :
    ∃ c', Leads n m₀ m 4 c' ∧ c'.pc = clearSwaps.address ∧ c'.Spans n c.values := by
  obtain ⟨m₁, hm₁, h₁⟩ := at_loadList hl h hpc
  obtain ⟨m₂, hm₂, h₂⟩ := at_clearCount hl h₁ rfl
  obtain ⟨m₃, hm₃, h₃⟩ := at_loadCount hl h₂ rfl rfl
  obtain ⟨m₄, hm₄, h₄⟩ := at_loadLast hl h₃ rfl rfl (signExtend_count hl.le_max _)
  exact ⟨_, ⟨m₄, ((hm₁.trans hm₂).trans hm₃).trans hm₄, h₄⟩, rfl, rfl, rfl, rfl⟩

/-- **Over distinct values the passes come to an end**, at most one for each inversion and one more,
    and the list is ascending there. -/
theorem sort_leads (hl : Loaded n m₀) {values : List Byte} (hd : values.Nodup)
    (h : At n m₀ c m) (hpc : c.pc = clearSwaps.address) (hc : c.Spans n values) :
    ∃ k c', k ≤ 9 * n * (inversions values + 1) ∧ Leads n m₀ m k c' ∧ c'.pc = finish.address ∧
      c'.values.Perm values ∧ c'.values.Pairwise (· < ·) := by
  induction hi : inversions values using Nat.strongRecOn generalizing values m c with
  | ind i ih =>
    obtain ⟨k, c₁, -, hk, ⟨m₁, hm₁, h₁⟩, hc₁, hpc₁⟩ := pass_leads hl h hpc hc
    have hmul : 9 * n * (i + 1) = 9 * n * i + 9 * n := Nat.mul_succ ..
    by_cases hs : swaps values = 0
    · rw [if_neg (not_not_intro hs)] at hpc₁
      obtain ⟨hsorted, hsame⟩ := pairwise_of_swaps_eq_zero hs
      rw [hsame] at hc₁
      exact ⟨k, c₁, by omega, ⟨m₁, hm₁, h₁⟩, hpc₁, by rw [hc₁.values_eq], by rwa [hc₁.values_eq]⟩
    · rw [if_pos hs] at hpc₁
      have hperm := pass_perm values
      have hfewer := inversions_pass hd
      obtain ⟨j, c₂, hj, ⟨m₂, hm₂, h₂⟩, hpc₂, hperm₂, hsorted⟩ :=
        ih _ (by omega) (hperm.nodup_iff.mpr hd) h₁ hpc₁ hc₁ rfl
      have hbound : 9 * n * (inversions (pass values) + 1) ≤ 9 * n * i :=
        Nat.mul_le_mul_left _ (by omega)
      exact ⟨k + j, c₂, by omega, ⟨m₂, hm₁.trans hm₂, h₂⟩, hpc₂, hperm₂.trans hperm, hsorted⟩

/-- **With two equal values there is always another pass.** -/
theorem endless_leads (hl : Loaded n m₀) {values : List Byte} (hd : ¬values.Nodup)
    (h : At n m₀ c m) (hpc : c.pc = clearSwaps.address) (hc : c.Spans n values) (steps : Nat) :
    ∃ k c', steps < k ∧ Leads n m₀ m k c' := by
  induction steps generalizing values m c with
  | zero =>
    obtain ⟨k, c₁, hk, -, h₁, -⟩ := pass_leads hl h hpc hc
    exact ⟨k, c₁, hk, h₁⟩
  | succ steps ih =>
    obtain ⟨k, c₁, hk, -, ⟨m₁, hm₁, h₁⟩, hc₁, hpc₁⟩ := pass_leads hl h hpc hc
    rw [if_pos (swaps_ne_zero_of_not_nodup hd)] at hpc₁
    have hd₁ : ¬(pass values).Nodup := (not_congr (pass_perm values).nodup_iff).mpr hd
    obtain ⟨j, c₂, hj, m₂, hm₂, h₂⟩ := ih hd₁ h₁ hpc₁ hc₁
    exact ⟨k + j, c₂, by omega, m₂, hm₁.trans hm₂, h₂⟩

end Mc68000.SortProgram
