import Mc68000.Proofs.MultiplePrecision

/-!
# Strings of packed decimals

Two strings of packed decimals of one length stand in memory, the highest digits first. The decimal
operations walk them from their ends, two digits each, and hand the carry on in the extend flag.

* `AddSub.Balances` -- what is left of a total and its carry make up for the total;
  `Balances.behind` -- **high parts behind low ones, linked by the carry**;
* `PackedDecimal.IsValid`, `PackedDecimal.value` -- bytes of two digits, and their numbers;
* `balances_digit`, `balances_decimal` -- the totals of one digit each and of one byte each;
* `Memory.IsDecimal`, `Memory.decimal` -- strings of digits, and their numbers;
* `LeavesDigits` -- what a row of operations leaves; `execute_digits` -- one of them;
* `decimal_total_of_strings` -- **a row of operations leaves the decimal total of the strings.**
-/

namespace Mc68000

open Status

/-! ## 1. Totals that balance -/

namespace AddSub

/-- What is left of a total together with its carry, worth a count, makes up for the total. -/
def Balances (op : AddSub) (count d s : Nat) (x : Bool) (result : Nat) (carried : Bool) : Prop :=
  match op with
  | add => d + s + x.toNat = result + count * carried.toNat
  | sub => d + count * carried.toNat = result + s + x.toNat

/-- Whether the total of two numbers below a count is none of them: a carry out of the count, or a
    borrow. -/
def exceeds (op : AddSub) (count d s : Nat) (x : Bool) : Bool :=
  match op with
  | add => count ≤ d + s + x.toNat
  | sub => d < s + x.toNat

variable {op : AddSub} {n b d s r d₀ s₀ r₀ d₁ s₁ r₁ : Nat} {x c c₀ c₁ : Bool}

/-- **High parts behind low ones, linked by the carry, balance as a whole.** -/
theorem Balances.behind (hlow : op.Balances b d₀ s₀ x r₀ c₀)
    (hhigh : op.Balances n d₁ s₁ c₀ r₁ c₁) :
    op.Balances (b * n) (b * d₁ + d₀) (b * s₁ + s₀) x (b * r₁ + r₀) c₁ := by
  unfold Balances at *
  cases op with
  | add =>
    have hscaled : b * (d₁ + s₁ + c₀.toNat) = b * (r₁ + n * c₁.toNat) := congrArg (b * ·) hhigh
    rw [Nat.mul_add, Nat.mul_add, Nat.mul_add, ← Nat.mul_assoc] at hscaled
    dsimp only at hlow ⊢
    omega
  | sub =>
    have hscaled : b * (d₁ + n * c₁.toNat) = b * (r₁ + s₁ + c₀.toNat) := congrArg (b * ·) hhigh
    rw [Nat.mul_add, Nat.mul_add, Nat.mul_add, ← Nat.mul_assoc] at hscaled
    dsimp only at hlow ⊢
    omega

/-- What is left is the total modulo the count. -/
theorem Balances.result_eq (h : op.Balances n d s x r c) (hr : r < n) :
    (r : Int) = op.total d s x % n := by
  have hsmall : (r : Int) % n = r := Int.emod_eq_of_lt (by omega) (by omega)
  unfold Balances at h
  unfold total
  cases op with
  | add =>
    have htotal : (d + s + x.toNat : Int) = r + n * c.toNat := by exact_mod_cast h
    dsimp only
    rw [htotal, Int.add_mul_emod_self_left, hsmall]
  | sub =>
    have hsum : (d + n * c.toNat : Int) = r + s + x.toNat := by exact_mod_cast h
    have htotal : (d - s - x.toNat : Int) = r - n * c.toNat := by omega
    dsimp only
    rw [htotal, Int.sub_mul_emod_self_left, hsmall]

/-- It carries exactly if the total leaves the count. -/
theorem Balances.carried_eq (h : op.Balances n d s x r c) (hr : r < n) :
    c = op.exceeds n d s x := by
  unfold Balances at h
  unfold exceeds
  cases op <;> cases c <;> simp only [Bool.toNat_true, Bool.toNat_false, Nat.mul_one,
    Nat.mul_zero, Nat.add_zero] at h
  · exact (decide_eq_false (by omega)).symm
  · exact (decide_eq_true (by omega)).symm
  · exact (decide_eq_false (by omega)).symm
  · exact (decide_eq_true (by omega)).symm

end AddSub

/-! ## 2. Two digits -/

namespace PackedDecimal

/-- Both halves of a byte are digits. -/
def IsValid (b : Byte) : Prop := tens b ≤ 9 ∧ ones b ≤ 9

instance (b : Byte) : Decidable (IsValid b) := inferInstanceAs (Decidable (_ ∧ _))

/-- The number of two digits. -/
def value (b : Byte) : Nat := 10 * tens b + ones b

theorem value_lt {b : Byte} (h : IsValid b) : value b < 100 := by
  obtain ⟨htens, hones⟩ := h
  unfold value
  omega

variable {h l n : Nat}

theorem tens_pack (hh : h < 16) : tens (pack h l) = h := by
  unfold tens pack
  rw [BitVec.toNat_ofNat]
  omega

theorem ones_pack (hl : l < 16) : ones (pack h l) = l := by
  unfold ones pack
  rw [BitVec.toNat_ofNat]
  omega

/-- Two digits packed are valid and stand for what they did. -/
theorem isValid_pack (hh : h ≤ 9) (hl : l ≤ 9) :
    IsValid (pack h l) ∧ value (pack h l) = 10 * h + l := by
  unfold IsValid value
  rw [tens_pack (by omega), ones_pack (by omega)]
  exact ⟨⟨hh, hl⟩, rfl⟩

end PackedDecimal

namespace AddSub

open PackedDecimal

/-- The byte and the carry of a decimal sum or difference. -/
def decimal : AddSub → Byte → Byte → Bool → Byte × Bool
  | add => PackedDecimal.add
  | sub => PackedDecimal.sub

/-- One digit of it. -/
def digit (op : AddSub) (d s : Nat) (x : Bool) : Nat × Bool :=
  match op with
  | add => addDigit (d + s + x.toNat)
  | sub =>
    let low := subDigit (d - s - x.toNat)
    ((low.1 % 16).toNat, low.2)

variable (op : AddSub) {x : Bool}

theorem decimal_eq (d s : Byte) : op.decimal d s x =
    let low := op.digit (ones d) (ones s) x
    let high := op.digit (tens d) (tens s) low.2
    (pack high.1 low.1, high.2) := by
  cases op <;> rfl

theorem balances_digit {d s : Nat} (hd : d ≤ 9) (hs : s ≤ 9) :
    (op.digit d s x).1 ≤ 9 ∧ op.Balances 10 d s x (op.digit d s x).1 (op.digit d s x).2 := by
  have hx := Bool.toNat_le x
  unfold Balances digit
  cases op with
  | add =>
    unfold addDigit
    by_cases h : d + s + x.toNat > 9
    · simp only [if_pos h, Bool.toNat_true]
      omega
    · simp only [if_neg h, Bool.toNat_false]
      omega
  | sub =>
    unfold subDigit
    by_cases h : (d - s - x.toNat : Int) < 0
    · simp only [if_pos h, Bool.toNat_true]
      omega
    · simp only [if_neg h, Bool.toNat_false]
      omega

/-- **Of two digits each, two digits are left, and with their carry they make up for the total.** -/
theorem balances_decimal {d s : Byte} (hd : IsValid d) (hs : IsValid s) :
    IsValid (op.decimal d s x).1 ∧
      op.Balances 100 (value d) (value s) x (value (op.decimal d s x).1) (op.decimal d s x).2 := by
  obtain ⟨hl, hlow⟩ := op.balances_digit (x := x) hd.2 hs.2
  obtain ⟨hh, hhigh⟩ := op.balances_digit (x := (op.digit (ones d) (ones s) x).2) hd.1 hs.1
  obtain ⟨hvalid, hvalue⟩ := isValid_pack hh hl
  rw [decimal_eq]
  refine ⟨hvalid, ?_⟩
  dsimp only
  rw [hvalue]
  exact hlow.behind hhigh

end AddSub

/-! ## 3. Strings of digits -/

namespace Memory

/-- A string of valid bytes stands in memory. -/
def IsDecimal (m : Memory) (i n : Nat) : Prop := ∀ j < n, PackedDecimal.IsValid (m.byte (i + j))

/-- The number of a string of digits, the highest first. -/
def decimal (m : Memory) (i : Nat) : Nat → Nat
  | 0 => 0
  | n + 1 => 100 * m.decimal i n + PackedDecimal.value (m.byte (i + n))

variable {m m' : Memory} {i n : Nat}

theorem IsDecimal.congr (h : m.IsDecimal i n) (hsame : ∀ k < n, m.byte (i + k) = m'.byte (i + k)) :
    m'.IsDecimal i n := by
  intro k hk
  rw [← hsame k hk]
  exact h k hk

theorem IsDecimal.init (h : m.IsDecimal i (n + 1)) :
    m.IsDecimal i n ∧ PackedDecimal.IsValid (m.byte (i + n)) :=
  ⟨fun k hk => h k (Nat.lt_succ_of_lt hk), h n (Nat.lt_succ_self n)⟩

theorem IsDecimal.snoc (h : m.IsDecimal i n) (hlast : PackedDecimal.IsValid (m.byte (i + n))) :
    m.IsDecimal i (n + 1) := by
  intro k hk
  rcases Nat.lt_succ_iff_lt_or_eq.mp hk with hlt | rfl
  · exact h k hlt
  · exact hlast

theorem IsDecimal.decimal_lt (h : m.IsDecimal i n) : m.decimal i n < 100 ^ n := by
  induction n with
  | zero => exact Nat.one_pos
  | succ n ih =>
    obtain ⟨hinit, hlast⟩ := h.init
    have hhigh := ih hinit
    have hlow := PackedDecimal.value_lt hlast
    rw [decimal, Nat.pow_succ]
    omega

theorem decimal_congr (h : ∀ k < n, m.byte (i + k) = m'.byte (i + k)) :
    m.decimal i n = m'.decimal i n := by
  induction n with
  | zero => rfl
  | succ n ih =>
    rw [decimal, decimal, ih fun k hk => h k (Nat.lt_succ_of_lt hk), h n (Nat.lt_succ_self n)]

end Memory

/-! ## 4. One operation -/

/-- A decimal sum or difference of the strings below two address registers. -/
structure Instruction.IsDecimal (i : Instruction) (op : AddSub) (y x : Fin 8) : Prop where
  operation_eq : i.operation = .decimal op
  below : i.opcode.getLsbD 3 = true
  lowRegister_eq : i.lowRegister = y
  highRegister_eq : i.highRegister = x

/-- What is left of two strings of digits, at `s` and at `d`, behind a row of operations. -/
structure LeavesDigits (op : AddSub) (s d k : Nat) (m m' : Machine) : Prop where
  isDecimal : m'.memory.IsDecimal d k
  balances : op.Balances (100 ^ k) (m.memory.decimal d k) (m.memory.decimal s k)
    (hasFlag m.registers.sr extend) (m'.memory.decimal d k) (hasFlag m'.registers.sr extend)
  zero_eq : hasFlag m'.registers.sr zero =
    (hasFlag m.registers.sr zero && decide (m'.memory.number d k = 0))
  agree : AgreeOutside PackedDecimal.mask m'.registers.sr m.registers.sr
  kept : ∀ j, j < d ∨ d + k ≤ j → m'.memory.byte j = m.memory.byte j

section

variable {op : AddSub} {y x : Fin 8} {s d k : Nat} {m m₁ m' : Machine} {i : Instruction}

/-- **What the rest of a row leaves stands in front of what its first operation left.** -/
theorem LeavesDigits.behind (hlow : LeavesDigits op (s + k) (d + k) 1 m m₁)
    (hhigh : LeavesDigits op s d k m₁ m') (hdisjoint : s + (k + 1) ≤ d ∨ d + (k + 1) ≤ s) :
    LeavesDigits op s d (k + 1) m m' := by
  have hlast : m'.memory.byte (d + k) = m₁.memory.byte (d + k) := hhigh.kept _ (by omega)
  have hd : m₁.memory.decimal d k = m.memory.decimal d k :=
    Memory.decimal_congr fun j hj => hlow.kept _ (by omega)
  have hs : m₁.memory.decimal s k = m.memory.decimal s k :=
    Memory.decimal_congr fun j hj => hlow.kept _ (by omega)
  obtain ⟨hvalid, hbalances, hzero, hagree, hkept⟩ := hhigh
  refine ⟨?_, ?_, ?_, hagree.trans hlow.agree, fun j hj => ?_⟩
  · refine hvalid.snoc ?_
    rw [hlast]
    exact hlow.isDecimal 0 Nat.one_pos
  · have hfirst := hlow.balances
    rw [hd, hs] at hbalances
    simp only [Memory.decimal, Nat.mul_zero, Nat.zero_add, Nat.add_zero, Nat.pow_one] at hfirst ⊢
    rw [hlast, Nat.pow_succ, Nat.mul_comm (100 ^ k)]
    exact hfirst.behind hbalances
  · rw [hzero, hlow.zero_eq, Bool.and_assoc, ← Bool.decide_and]
    simp only [Memory.number, Nat.mul_zero, Nat.zero_add, Nat.add_zero, hlast]
    congr 1
    rw [decide_eq_decide]
    omega
  · rw [hkept j (by omega), hlow.kept j (by omega)]

theorem PackedDecimal.hasFlag_zero_flags (sr : Word) (result : Byte) (carried : Bool) :
    hasFlag (PackedDecimal.flags sr result carried) zero =
      (hasFlag sr zero && decide (result = 0)) := by
  have hkept : hasFlag (setFlag (setFlag sr carry carried) extend carried) zero =
      hasFlag sr zero := by
    rw [hasFlag_setFlag_of_disjoint (by decide), hasFlag_setFlag_of_disjoint (by decide)]
  unfold PackedDecimal.flags
  dsimp only
  by_cases h : result = 0
  · rw [if_pos h, decide_eq_true h, Bool.and_true, hkept]
  · rw [if_neg h, decide_eq_false h, Bool.and_false, hasFlag_setFlag (by decide) (by decide)]

theorem PackedDecimal.hasFlag_extend_flags (sr : Word) (result : Byte) (carried : Bool) :
    hasFlag (PackedDecimal.flags sr result carried) extend = carried := by
  have hset : hasFlag (setFlag (setFlag sr carry carried) extend carried) extend = carried :=
    hasFlag_setFlag (by decide) (by decide) _ _
  unfold PackedDecimal.flags
  dsimp only
  split
  · exact hset
  · exact (hasFlag_setFlag_of_disjoint (by decide) _ _).trans hset

/-- What an operation on two bytes in memory does. -/
theorem Instruction.execute_decimal_memory {a b : Address} {r : Registers}
    (hop : i.operation = .decimal op)
    (hpair : Exec.extendedPair i .byte m = .ok (.memory a, .memory b) { m with registers := r })
    (ha : accessible a .byte m.memory.capacity = true)
    (hb : accessible b .byte m.memory.capacity = true) :
    let left := op.decimal (m.memory.byte b.toNat) (m.memory.byte a.toNat) (hasFlag r.sr extend)
    i.execute m = .ok ()
      { m with
        registers := { r with sr := PackedDecimal.flags r.sr left.1 left.2 }
        memory := m.memory.setByte b.toNat left.1 } := by
  have hvalue {a : Address} (h : accessible a .byte m.memory.capacity = true) :
      (Operand.memory a).value? .byte r m.memory = some ((m.memory.byte a.toNat).setWidth 32) :=
    congrArg Except.toOption (Memory.read_of_accessible h)
  have hback (b : Byte) : (b.setWidth 32).setWidth 8 = b := by
    rw [BitVec.setWidth_setWidth_of_le _ (by decide), BitVec.setWidth_eq]
  have hwrite (v : Byte) : Exec.write (.memory b) .byte (v.setWidth 32) { m with registers := r } =
      .ok () { m with registers := r, memory := m.memory.setByte b.toNat v } := by
    have hstore : m.memory.store b.toNat .byte (v.setWidth 32) = m.memory.setByte b.toNat v :=
      congrArg (m.memory.setByte b.toNat) (hback v)
    rw [← hstore]
    exact Exec.write_memory _ hb
  unfold execute
  rw [hop]
  show (Exec.extendedPair i .byte >>= _) m = _
  rw [Exec.bind_eq hpair]
  show (Exec.read (.memory a) .byte >>= _) { m with registers := r } = _
  rw [Exec.bind_eq (Exec.read_of_value? (hvalue ha))]
  dsimp only
  rw [Exec.bind_eq (Exec.read_of_value? (hvalue hb)), hback, hback]
  refine (Exec.bind_eq (hwrite _)).trans ?_
  cases op <;> rfl

/-- The operands below two address registers are the lowest limbs of the fields there. -/
theorem Exec.extendedPair_of_fields {size : Size} (hbit : i.opcode.getLsbD 3 = true)
    (hyx : i.lowRegister ≠ i.highRegister) (hy : i.lowRegister ≠ Registers.stackNumber)
    (hx : i.highRegister ≠ Registers.stackNumber)
    (hf : Fields size i.lowRegister i.highRegister s d (k + 1) m) :
    ∃ r : Registers,
      extendedPair i size m =
          .ok (.memory (BitVec.ofNat 32 (s + k * size.bytes)),
            .memory (BitVec.ofNat 32 (d + k * size.bytes))) { m with registers := r } ∧
        r.sr = m.registers.sr ∧
        r.readAddress i.lowRegister = BitVec.ofNat 32 (s + k * size.bytes) ∧
        r.readAddress i.highRegister = BitVec.ofNat 32 (d + k * size.bytes) := by
  have hfirst := Registers.readAddress_decrement_limb hy hf.source_end
  have hkept : (m.registers.decrement i.lowRegister size).readAddress i.highRegister =
      m.registers.readAddress i.highRegister := Registers.readAddress_decrement_of_ne hyx.symm
  have hsecond := Registers.readAddress_decrement_limb hx (hkept.trans hf.destination_end)
  have hpair : extendedPair i size m =
      let below := m.registers.decrement i.lowRegister size
      let belowBoth := below.decrement i.highRegister size
      .ok (.memory (below.readAddress i.lowRegister),
        .memory (belowBoth.readAddress i.highRegister)) { m with registers := belowBoth } := by
    unfold extendedPair
    dsimp only
    rw [if_pos hbit]
    rfl
  dsimp only at hpair
  rw [hfirst, hsecond] at hpair
  refine ⟨_, hpair, ?_, ?_, hsecond⟩
  · exact (Registers.sr_writeAddress ..).trans (Registers.sr_writeAddress ..)
  · exact (Registers.readAddress_decrement_of_ne hyx).trans hfirst

/-- The total of two bytes in place of the second one is what an operation leaves of them. -/
theorem leavesDigits_of_byte (hin : d < m.memory.capacity)
    (hsource : PackedDecimal.IsValid (m.memory.byte s))
    (hdestination : PackedDecimal.IsValid (m.memory.byte d)) :
    let left := op.decimal (m.memory.byte d) (m.memory.byte s) (hasFlag m.registers.sr extend)
    m'.memory = m.memory.setByte d left.1 →
    m'.registers.sr = PackedDecimal.flags m.registers.sr left.1 left.2 →
    LeavesDigits op s d 1 m m' := by
  intro left hmemory hsr
  obtain ⟨hvalid, hbalances⟩ := op.balances_decimal (x := hasFlag m.registers.sr extend)
    hdestination hsource
  have hlast : m'.memory.byte d = left.1 := by
    rw [hmemory, Memory.byte_setByte, if_pos ⟨rfl, hin⟩]
  refine ⟨fun j hj => ?_, ?_, ?_, ?_, fun j hj => ?_⟩
  · obtain rfl : j = 0 := by omega
    rw [Nat.add_zero, hlast]
    exact hvalid
  · simp only [Memory.decimal, Nat.mul_zero, Nat.zero_add, Nat.add_zero, Nat.pow_one, hlast, hsr,
      PackedDecimal.hasFlag_extend_flags]
    exact hbalances
  · simp only [Memory.number, Nat.mul_zero, Nat.zero_add, Nat.add_zero, hlast, hsr,
      PackedDecimal.hasFlag_zero_flags]
    congr 1
    rw [decide_eq_decide]
    exact BitVec.toNat_inj.symm
  · rw [hsr]
    exact PackedDecimal.agreeOutside_flags ..
  · rw [hmemory, Memory.byte_setByte, if_neg (by omega)]

/-- **One operation leaves the total of the last digits** with the extend flag. -/
theorem execute_digits (hi : i.IsDecimal op y x) (hyx : y ≠ x)
    (hy : y ≠ Registers.stackNumber) (hx : x ≠ Registers.stackNumber)
    (hf : Fields .byte y x s d (k + 1) m)
    (hsource : PackedDecimal.IsValid (m.memory.byte (s + k)))
    (hdestination : PackedDecimal.IsValid (m.memory.byte (d + k))) :
    ∃ m', i.execute m = .ok () m' ∧ Fields .byte y x s d k m' ∧
      LeavesDigits op (s + k) (d + k) 1 m m' ∧ ExtendFollows m'.registers.sr := by
  obtain ⟨hs, ha⟩ := limb_accessible (fun h => (hf.even h).1) hf.source_le
  obtain ⟨hd, hb⟩ := limb_accessible (fun h => (hf.even h).2) hf.destination_le
  have hin : d + k < m.memory.capacity := by
    have hle := hf.destination_le
    simp only [Size.bytes] at hle
    omega
  obtain ⟨hop, hbit, rfl, rfl⟩ := hi
  obtain ⟨r, hpair, hsr, hfirst, hsecond⟩ := Exec.extendedPair_of_fields hbit hyx hy hx hf
  have hexecute := Instruction.execute_decimal_memory hop hpair ha hb
  rw [hs, hd, hsr] at hexecute
  simp only [Size.bytes, Nat.mul_one] at hexecute
  refine ⟨_, hexecute, hf.lower ?_ ?_ ?_, leavesDigits_of_byte hin hsource hdestination rfl rfl,
    PackedDecimal.extendFollows_flags ..⟩
  · exact (Registers.readAddress_withSr hy _).trans hfirst
  · exact (Registers.readAddress_withSr hx _).trans hsecond
  · exact Memory.capacity_setByte ..

/-! ## 5. All operations -/

theorem LeavesDigits.nil (op : AddSub) (s d : Nat) (m : Machine) : LeavesDigits op s d 0 m m where
  isDecimal := fun j hj => absurd hj (Nat.not_lt_zero j)
  balances := by
    unfold AddSub.Balances Memory.decimal
    cases op <;> simp
  zero_eq := by simp [Memory.number]
  agree := .refl _ _
  kept := fun _ _ => rfl

variable {is : List Instruction}

/-- What a row of operations leaves: by induction on the row, its first operation at the last
    digits. -/
theorem leavesDigits_of_strings (his : ∀ i ∈ is, i.IsDecimal op y x) (hyx : y ≠ x)
    (hy : y ≠ Registers.stackNumber) (hx : x ≠ Registers.stackNumber)
    (hf : Fields .byte y x s d is.length m) (hsource : m.memory.IsDecimal s is.length)
    (hdestination : m.memory.IsDecimal d is.length) :
    ∃ m', Exec.executeAll is m = .ok () m' ∧ LeavesDigits op s d is.length m m' ∧
      ((is = [] → ExtendFollows m.registers.sr) → ExtendFollows m'.registers.sr) := by
  induction is generalizing m with
  | nil => exact ⟨m, rfl, .nil op s d m, fun h => h rfl⟩
  | cons i is ih =>
    obtain ⟨hs, hslast⟩ := hsource.init
    obtain ⟨hd, hdlast⟩ := hdestination.init
    have hdisjoint : s + (is.length + 1) ≤ d ∨ d + (is.length + 1) ≤ s := by
      simpa [Size.bytes] using hf.disjoint
    obtain ⟨m₁, hexecute, hf₁, hleaves, hfollows⟩ := execute_digits
      (m := { m with registers := m.registers.setPc i.nextAddress }) (his i List.mem_cons_self)
      hyx hy hx ⟨hf.source_end, hf.destination_end, hf.source_le, hf.destination_le, hf.even,
        hf.disjoint⟩ hslast hdlast
    have hlow : LeavesDigits op (s + is.length) (d + is.length) 1 m m₁ :=
      ⟨hleaves.isDecimal, hleaves.balances, hleaves.zero_eq, hleaves.agree, hleaves.kept⟩
    -- in front of the last digits both strings are as before
    have hs₁ : m₁.memory.IsDecimal s is.length :=
      hs.congr fun j hj => (hlow.kept _ (by omega)).symm
    have hd₁ : m₁.memory.IsDecimal d is.length :=
      hd.congr fun j hj => (hlow.kept _ (by omega)).symm
    obtain ⟨m', hrest, hhigh, hfollows'⟩ := ih (fun j hj => his j (List.mem_cons_of_mem i hj)) hf₁
      hs₁ hd₁
    rw [Exec.executeAll_cons hexecute]
    exact ⟨m', hrest, hlow.behind hhigh hdisjoint, fun _ => hfollows' fun _ => hfollows⟩

/-- **A row of decimal sums or differences is one of strings of as many bytes.** It succeeds. It
    leaves the digits of the total of the strings with the extend flag in place of the second one:
    modulo their count, with its carry or borrow in X and C. Z stays set if it was and all digits
    are zero. N and V stay, and so does all other memory, the first string with it. -/
theorem decimal_total_of_strings (his : ∀ i ∈ is, i.IsDecimal op y x) (hne : is ≠ []) (hyx : y ≠ x)
    (hy : y ≠ Registers.stackNumber) (hx : x ≠ Registers.stackNumber)
    (hf : Fields .byte y x s d is.length m) (hsource : m.memory.IsDecimal s is.length)
    (hdestination : m.memory.IsDecimal d is.length) :
    let k := is.length
    let first := m.memory.decimal s k
    let second := m.memory.decimal d k
    let extended := hasFlag m.registers.sr extend
    ∃ m', Exec.executeAll is m = .ok () m' ∧
      m'.memory.IsDecimal d k ∧
      (m'.memory.decimal d k : Int) = op.total second first extended % 100 ^ k ∧
      hasFlag m'.registers.sr carry = op.exceeds (100 ^ k) second first extended ∧
      hasFlag m'.registers.sr extend = op.exceeds (100 ^ k) second first extended ∧
      hasFlag m'.registers.sr zero =
        (hasFlag m.registers.sr zero && decide (m'.memory.number d k = 0)) ∧
      hasFlag m'.registers.sr negative = hasFlag m.registers.sr negative ∧
      hasFlag m'.registers.sr overflow = hasFlag m.registers.sr overflow ∧
      (∀ j < k, m'.memory.byte (s + j) = m.memory.byte (s + j)) ∧
      ∀ j, j < d ∨ d + k ≤ j → m'.memory.byte j = m.memory.byte j := by
  intro k first second extended
  obtain ⟨m', hexecute, hleaves, hfollows⟩ :=
    leavesDigits_of_strings his hyx hy hx hf hsource hdestination
  have hcarry : hasFlag m'.registers.sr extend = hasFlag m'.registers.sr carry :=
    hfollows fun h => absurd h hne
  have hdisjoint : s + k ≤ d ∨ d + k ≤ s := by
    simpa [Size.bytes] using hf.disjoint
  have hlt := hleaves.isDecimal.decimal_lt
  have hexceeds := hleaves.balances.carried_eq hlt
  refine ⟨m', hexecute, hleaves.isDecimal, ?_, hcarry.symm.trans hexceeds, hexceeds,
    hleaves.zero_eq, hleaves.agree.hasFlag_eq (by decide), hleaves.agree.hasFlag_eq (by decide),
    fun j hj => hleaves.kept _ (by omega), hleaves.kept⟩
  have hresult := hleaves.balances.result_eq hlt
  rw [Nat.cast_pow] at hresult
  exact hresult

/-- `ABCD -(A0),-(A1)`. -/
def addDecimals : Instruction :=
  { address := 4, opcode := 0xC308, operation := .decimal .add, size := .byte
    extension := ⟨6, .none⟩, source := none, destination := none, length := 2 }

/-- A machine about to add 1, 9998 and an extend flag that is set. -/
def aboutToAddDigits : Machine :=
  { Machine.new { memoryBytes := 6, traceInstructions := false } with
    registers := { ((Registers.zeros.writeAddress 0 2 .long).writeAddress 1 4 .long).setPc 6 with
      sr := Status.extend ||| Status.zero }
    memory := (Memory.zeros 6).setBytes 0 [0x00, 0x01, 0x99, 0x98, 0xC3, 0x08]
    codeStart := 4
    codeEnd := 6 }

/-- The carry runs through all digits. They are zero then, and Z stays set. -/
theorem decimal_total_of_two_bytes :
    aboutToAddDigits.code.fetch 4 = .ok (some addDecimals) 6 ∧
      ∃ m', Exec.executeAll [addDecimals, addDecimals] aboutToAddDigits = .ok () m' ∧
        m'.memory.decimal 2 2 = 0 ∧ hasFlag m'.registers.sr carry = true ∧
        hasFlag m'.registers.sr zero = decide (m'.memory.number 2 2 = 0) := by
  have hfields : Fields .byte 0 1 0 2 2 aboutToAddDigits :=
    ⟨rfl, rfl, by decide, by decide, fun h => absurd rfl h, by decide⟩
  have hdecimal : addDecimals.IsDecimal .add 0 1 := ⟨rfl, by decide, by decide, by decide⟩
  have hrow : ∀ i ∈ [addDecimals, addDecimals], i.IsDecimal .add 0 1 := by simpa using hdecimal
  have hfirst : aboutToAddDigits.memory.IsDecimal 0 2 := by
    unfold Memory.IsDecimal
    decide
  have hsecond : aboutToAddDigits.memory.IsDecimal 2 2 := by
    unfold Memory.IsDecimal
    decide
  obtain ⟨m', hexecute, -, hresult, hcarry, -, hzero, -⟩ := decimal_total_of_strings hrow
    (List.cons_ne_nil _ _) (by decide) (by decide) (by decide) hfields hfirst hsecond
  have hleft : (m'.memory.decimal 2 2 : Int) = 0 := hresult.trans (by decide)
  exact ⟨rfl, m', hexecute, by exact_mod_cast hleft, hcarry.trans (by decide), hzero⟩

end

end Mc68000
