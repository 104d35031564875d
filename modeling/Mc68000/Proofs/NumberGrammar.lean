import Mathlib.Data.Nat.Digits.Lemmas
import Mathlib.Tactic.Ring
import Mc68000.CommandLine.Arguments
import Mc68000.Proofs.Numerals

/-!
# The grammar of numbers

Which texts are numbers, said without the reader, and that the reader takes exactly these.

* `Number.IsDigit`, `Number.Denotes` -- a digit of a base, and the number that a run of digits
  denotes by their positions;
* `Number.Written` -- a number as a user may write it: a prefix or none, a plus sign or none, and
  digits, however many;
* `Number.value?_eq_some_iff` -- the reader of digits computes this positional value;
* `Number.parseChars?_eq_some_iff` -- **a text is read as `n` exactly if it is `n` written**;
* `Number.denotes_zeros_toDigits` -- the digits of a number denote it, with zeros in front or not;
* `CommandLine.number_grammar` -- **so each way to write a number that fits is read back, and the
  rest is refused by its text**.
-/

namespace Mc68000

namespace Number

open Digits

/-! ## 1. The grammar -/

/-- The sixteen digits in lower case. -/
def lowerHexAlphabet : List Char := "0123456789abcdef".toList

/-- A character is a digit of a base up to sixteen, its letters in either case. -/
def IsDigit (base : Nat) (c : Char) (d : Nat) : Prop :=
  d < base ∧ (hexAlphabet[d]? = some c ∨ lowerHexAlphabet[d]? = some c)

instance (base : Nat) (c : Char) (d : Nat) : Decidable (IsDigit base c d) :=
  inferInstanceAs (Decidable (_ ∧ _))

/-- A run of digits, the most significant first, denotes a number. -/
def Denotes (base : Nat) (cs : List Char) (n : Nat) : Prop :=
  cs ≠ [] ∧ ∃ ds, List.Forall₂ (IsDigit base) cs ds ∧ n = Nat.ofDigits base ds.reverse

/-- What announces base sixteen: `$`, `0x` or `0X`. -/
def hexPrefixes : List (List Char) := [['$'], ['0', 'x'], ['0', 'X']]

/-- What may stand in front of the digits. -/
def signs : List (List Char) := [[], ['+']]

/-- A number as a user may write it. -/
inductive Written : List Char → Nat → Prop where
  | hex {pre sign cs : List Char} {n : Nat} (hpre : pre ∈ hexPrefixes) (hsign : sign ∈ signs)
      (h : Denotes 16 cs n) : Written (pre ++ (sign ++ cs)) n
  | decimal {sign cs : List Char} {n : Nat} (hplain : ∀ pre ∈ hexPrefixes, ¬pre <+: sign ++ cs)
      (hsign : sign ∈ signs) (h : Denotes 10 cs n) : Written (sign ++ cs) n

/-! ## 2. Digits -/

variable {base : Nat} {digit? : Char → Option Nat} {cs : List Char} {n : Nat}

/-- A reader of digits that takes ASCII characters alone is compared with the alphabets on these,
    one by one. -/
theorem digit?_eq_some_iff (hascii : ∀ c d, digit? c = some d → c.toNat < 128)
    (hread : ∀ k < 128, ∀ d ∈ digit? (Char.ofNat k), IsDigit base (Char.ofNat k) d)
    (hupper : ∀ d < base, (hexAlphabet[d]?).bind digit? = some d)
    (hlower : ∀ d < base, (lowerHexAlphabet[d]?).bind digit? = some d) (c : Char) (d : Nat) :
    digit? c = some d ↔ IsDigit base c d := by
  constructor
  · intro h
    have hc := hread c.toNat (hascii c d h)
    rw [Char.ofNat_toNat] at hc
    exact hc d h
  · rintro ⟨hd, hc | hc⟩
    · exact (congrArg (·.bind digit?) hc).symm.trans (hupper d hd)
    · exact (congrArg (·.bind digit?) hc).symm.trans (hlower d hd)

theorem toNat_le_of_le {c c' : Char} (h : c ≤ c') : c.toNat ≤ c'.toNat :=
  UInt32.le_iff_toNat_le.mp h

theorem toNat_lt_of_ofHexChar? (c : Char) (d : Nat) (h : ofHexChar? c = some d) :
    c.toNat < 128 := by
  unfold ofHexChar? at h
  split at h
  · rename_i hc
    exact Nat.lt_of_le_of_lt (toNat_le_of_le hc.2) (by decide)
  · split at h
    · rename_i hc
      exact Nat.lt_of_le_of_lt (toNat_le_of_le hc.2) (by decide)
    · split at h
      · rename_i hc
        exact Nat.lt_of_le_of_lt (toNat_le_of_le hc.2) (by decide)
      · cases h

theorem toNat_lt_of_ofDecimalChar? (c : Char) (d : Nat) (h : ofDecimalChar? c = some d) :
    c.toNat < 128 := by
  unfold ofDecimalChar? at h
  split at h
  · rename_i hc
    exact Nat.lt_of_le_of_lt (toNat_le_of_le hc.2) (by decide)
  · cases h

theorem ofHexChar?_eq_some_iff (c : Char) (d : Nat) :
    ofHexChar? c = some d ↔ IsDigit 16 c d :=
  digit?_eq_some_iff toNat_lt_of_ofHexChar? (by decide +kernel) (by decide) (by decide) c d

theorem ofDecimalChar?_eq_some_iff (c : Char) (d : Nat) :
    ofDecimalChar? c = some d ↔ IsDigit 10 c d :=
  digit?_eq_some_iff toNat_lt_of_ofDecimalChar? (by decide +kernel) (by decide) (by decide) c d

/-- The digits read so far count one base more for each digit behind them. -/
theorem positional_cons (acc d : Nat) (ds : List Nat) :
    (acc * base + d) * base ^ ds.length + Nat.ofDigits base ds.reverse =
      acc * base ^ (ds.length + 1) + Nat.ofDigits base (d :: ds).reverse := by
  rw [List.reverse_cons, Nat.ofDigits_append, Nat.ofDigits_singleton, List.length_reverse]
  ring

theorem valueFrom?_eq_some_iff (hdigit : ∀ c d, digit? c = some d ↔ IsDigit base c d) (acc : Nat) :
    valueFrom? base digit? acc cs = some n ↔
      ∃ ds, List.Forall₂ (IsDigit base) cs ds ∧
        n = acc * base ^ cs.length + Nat.ofDigits base ds.reverse := by
  induction cs generalizing acc with
  | nil =>
    constructor
    · intro h
      cases h
      exact ⟨[], .nil, by simp⟩
    · rintro ⟨ds, hds, rfl⟩
      cases hds
      simp [valueFrom?]
  | cons c cs ih =>
    rw [valueFrom?]
    constructor
    · intro h
      cases hc : digit? c with
      | none => rw [hc] at h; cases h
      | some d =>
        rw [hc] at h
        obtain ⟨ds, hds, rfl⟩ := (ih _).mp h
        refine ⟨d :: ds, .cons ((hdigit c d).mp hc) hds, ?_⟩
        rw [List.length_cons, hds.length_eq, positional_cons]
    · rintro ⟨ds, hds, rfl⟩
      cases hds with
      | @cons _ d _ ds hc hds =>
        rw [(hdigit c d).mpr hc]
        refine (ih _).mpr ⟨ds, hds, ?_⟩
        rw [List.length_cons, hds.length_eq, positional_cons]

/-- **The reader of digits computes the positional value.** -/
theorem value?_eq_some_iff (hdigit : ∀ c d, digit? c = some d ↔ IsDigit base c d) :
    value? base digit? cs = some n ↔ Denotes base cs n := by
  cases cs with
  | nil => exact ⟨nofun, fun h => absurd rfl h.1⟩
  | cons c cs =>
    show valueFrom? base digit? 0 (c :: cs) = some n ↔ _
    rw [valueFrom?_eq_some_iff hdigit, Nat.zero_mul]
    simp only [Nat.zero_add]
    exact ⟨fun h => ⟨nofun, h⟩, fun h => h.2⟩

theorem Denotes.mem {c : Char} (h : Denotes base cs n) (hc : c ∈ cs) : ∃ d, IsDigit base c d := by
  obtain ⟨-, ds, hds, -⟩ := h
  induction hds with
  | nil => cases hc
  | cons hd _ ih =>
    rcases List.mem_cons.mp hc with rfl | hc
    · exact ⟨_, hd⟩
    · exact ih hc

/-- Whether a character is a digit of a base at all is a matter of a few comparisons. -/
theorem Denotes.not_mem {c : Char} (h : Denotes base cs n) (hc : ∀ d < base, ¬IsDigit base c d) :
    c ∉ cs := fun hmem => by
  obtain ⟨d, hd⟩ := h.mem hmem
  exact hc d hd.1 hd

/-! ## 3. Signs and prefixes -/

/-- What fits 32 bits. -/
theorem fits_eq_some_iff (hdigit : ∀ c d, digit? c = some d ↔ IsDigit base c d) (v : BitVec 32) :
    (match value? base digit? cs with
      | some n => if n < Long.count then some (BitVec.ofNat 32 n) else none
      | none => none) = some v ↔ Denotes base cs v.toNat := by
  rw [← value?_eq_some_iff hdigit]
  have hv : v.toNat < Long.count := v.isLt
  cases value? base digit? cs with
  | none => simp
  | some n =>
    dsimp only
    split
    · rename_i hn
      have hn : n < 2 ^ 32 := hn
      constructor
      · rintro h
        cases h
        rw [BitVec.toNat_ofNat, Nat.mod_eq_of_lt hn]
      · intro h
        cases h
        rw [BitVec.ofNat_toNat, BitVec.setWidth_eq]
    · rename_i hn
      constructor
      · nofun
      · intro h
        cases h
        exact absurd hv hn

/-- Digits are read behind a plus sign and without one. -/
theorem ofDigits?_eq_some_iff (hdigit : ∀ c d, digit? c = some d ↔ IsDigit base c d)
    (hplus : ∀ d < base, ¬IsDigit base '+' d) (v : BitVec 32) :
    ofDigits? base digit? cs = some v ↔
      ∃ sign ∈ signs, ∃ ds, cs = sign ++ ds ∧ Denotes base ds v.toNat := by
  refine (fits_eq_some_iff hdigit v).trans ?_
  split
  · rename_i rest
    constructor
    · intro h
      exact ⟨['+'], by simp [signs], rest, rfl, h⟩
    · rintro ⟨sign, hsign, ds, hcs, hds⟩
      simp only [signs, List.mem_cons, List.not_mem_nil, or_false] at hsign
      rcases hsign with rfl | rfl
      · -- a plus sign is no digit
        cases hcs
        exact absurd List.mem_cons_self (hds.not_mem hplus)
      · cases hcs
        exact hds
  · rename_i hne
    constructor
    · intro h
      exact ⟨[], by simp [signs], cs, rfl, h⟩
    · rintro ⟨sign, hsign, ds, rfl, hds⟩
      simp only [signs, List.mem_cons, List.not_mem_nil, or_false] at hsign
      rcases hsign with rfl | rfl
      · exact hds
      · exact absurd rfl (hne ds)

theorem ofHex?_eq_some_iff (v : BitVec 32) :
    ofHex? cs = some v ↔ ∃ sign ∈ signs, ∃ ds, cs = sign ++ ds ∧ Denotes 16 ds v.toNat :=
  ofDigits?_eq_some_iff ofHexChar?_eq_some_iff (by decide) v

theorem ofDecimal?_eq_some_iff (v : BitVec 32) :
    ofDecimal? cs = some v ↔ ∃ sign ∈ signs, ∃ ds, cs = sign ++ ds ∧ Denotes 10 ds v.toNat :=
  ofDigits?_eq_some_iff ofDecimalChar?_eq_some_iff (by decide) v

/-- A text with one of the prefixes is read in base sixteen behind it. -/
theorem parseChars?_of_announced {pre : List Char} (hpre : pre ∈ hexPrefixes) (cs : List Char) :
    parseChars? (pre ++ cs) = ofHex? cs := by
  simp only [hexPrefixes, List.mem_cons, List.not_mem_nil, or_false] at hpre
  rcases hpre with rfl | rfl | rfl <;> rfl

/-- Any other text is read in base ten. -/
theorem parseChars?_of_plain (hplain : ∀ pre ∈ hexPrefixes, ¬pre <+: cs) :
    parseChars? cs = ofDecimal? cs := by
  unfold parseChars?
  split
  · exact absurd ⟨_, rfl⟩ (hplain ['$'] (by simp [hexPrefixes]))
  · exact absurd ⟨_, rfl⟩ (hplain ['0', 'x'] (by simp [hexPrefixes]))
  · exact absurd ⟨_, rfl⟩ (hplain ['0', 'X'] (by simp [hexPrefixes]))
  · rfl

/-- **A text is read as a number exactly if it is that number written.** -/
theorem parseChars?_eq_some_iff (v : BitVec 32) :
    parseChars? cs = some v ↔ Written cs v.toNat := by
  constructor
  · intro h
    by_cases hpre : ∃ pre ∈ hexPrefixes, pre <+: cs
    · obtain ⟨pre, hmem, rest, rfl⟩ := hpre
      rw [parseChars?_of_announced hmem, ofHex?_eq_some_iff] at h
      obtain ⟨sign, hsign, ds, rfl, hds⟩ := h
      exact .hex hmem hsign hds
    · have hplain : ∀ pre ∈ hexPrefixes, ¬pre <+: cs := fun pre hmem hp => hpre ⟨pre, hmem, hp⟩
      rw [parseChars?_of_plain hplain, ofDecimal?_eq_some_iff] at h
      obtain ⟨sign, hsign, ds, rfl, hds⟩ := h
      exact .decimal hplain hsign hds
  · intro h
    cases h with
    | @hex pre sign ds n hpre hsign hds =>
      rw [parseChars?_of_announced hpre, ofHex?_eq_some_iff]
      exact ⟨sign, hsign, ds, rfl, hds⟩
    | @decimal sign ds n hplain hsign hds =>
      rw [parseChars?_of_plain hplain, ofDecimal?_eq_some_iff]
      exact ⟨sign, hsign, ds, rfl, hds⟩

/-! ## 4. Writing -/

/-- Decimal digits, with a sign or without, never look like base sixteen. -/
theorem Denotes.plain {sign : List Char} (hsign : sign ∈ signs) (h : Denotes 10 cs n) :
    ∀ pre ∈ hexPrefixes, ¬pre <+: sign ++ cs := by
  have habsent {c : Char} (hc : ∀ d < 10, ¬IsDigit 10 c d) (hplus : c ≠ '+') : c ∉ sign ++ cs := by
    intro hmem
    rcases List.mem_append.mp hmem with hmem | hmem
    · simp only [signs, List.mem_cons, List.not_mem_nil, or_false] at hsign
      rcases hsign with rfl | rfl
      · cases hmem
      · exact hplus (List.mem_singleton.mp hmem)
    · exact h.not_mem hc hmem
  intro pre hpre hstart
  simp only [hexPrefixes, List.mem_cons, List.not_mem_nil, or_false] at hpre
  rcases hpre with rfl | rfl | rfl
  · exact habsent (by decide) (by decide) (hstart.subset (by decide : '$' ∈ ['$']))
  · exact habsent (by decide) (by decide) (hstart.subset (by decide : 'x' ∈ ['0', 'x']))
  · exact habsent (by decide) (by decide) (hstart.subset (by decide : 'X' ∈ ['0', 'X']))

/-- **The digits of a number denote it**, whatever their letter case and the number of zeros in
    front. -/
theorem denotes_zeros_toDigits (hdigit : ∀ c d, digit? c = some d ↔ IsDigit base c d)
    (hbase : 1 < base) (letter : Char → Char)
    (hletter : ∀ d < base, digit? (letter d.digitChar) = some d) (zeros n : Nat) :
    Denotes base (List.replicate zeros '0' ++ (Nat.toDigits base n).map letter) n := by
  have hzero : digit? '0' = some 0 := (hdigit '0' 0).mpr ⟨by omega, .inl rfl⟩
  have hne : List.replicate zeros '0' ++ (Nat.toDigits base n).map letter ≠ [] := by
    simp [Nat.toDigits_ne_nil]
  rw [← value?_eq_some_iff hdigit, value?_of_ne_nil hne, valueFrom?_append,
    valueFrom?_zeros hzero]
  exact valueFrom?_toDigits letter hbase hletter n

theorem denotes_decimal (zeros n : Nat) :
    Denotes 10 (List.replicate zeros '0' ++ Nat.toDigits 10 n) n := by
  have h := denotes_zeros_toDigits ofDecimalChar?_eq_some_iff (by decide) id (by decide) zeros n
  rwa [List.map_id] at h

theorem denotes_hex {letter : Char → Char} (hletter : letter = id ∨ letter = Char.toUpper)
    (zeros n : Nat) :
    Denotes 16 (List.replicate zeros '0' ++ (Nat.toDigits 16 n).map letter) n := by
  refine denotes_zeros_toDigits ofHexChar?_eq_some_iff (by decide) letter ?_ zeros n
  rcases hletter with rfl | rfl
  · decide
  · exact ofHexChar?_toUpper_digitChar

/-- Digits without a sign are a number. -/
theorem Denotes.written (h : Denotes 10 cs n) : Written cs n := by
  have hunsigned : [] ∈ signs := List.mem_cons_self
  have hplain : ∀ pre ∈ hexPrefixes, ¬pre <+: [] ++ cs := h.plain hunsigned
  exact .decimal hplain hunsigned h

theorem Denotes.written_behind {pre : List Char} (hpre : pre ∈ hexPrefixes) (h : Denotes 16 cs n) :
    Written (pre ++ cs) n := by
  have hunsigned : [] ∈ signs := List.mem_cons_self
  show Written (pre ++ ([] ++ cs)) n
  exact .hex hpre hunsigned h

end Number

namespace CommandLine

open Number

/-! ## 5. Reading -/

theorem number_eq_ok_iff {text : String} {v : BitVec 32} :
    number text = .ok v ↔ Written text.toList v.toNat := by
  have hread : Number.parse? text = some v ↔ Written text.toList v.toNat :=
    parseChars?_eq_some_iff v
  rw [← hread, number]
  cases Number.parse? text with
  | none => exact ⟨nofun, nofun⟩
  | some n => exact ⟨fun h => by cases h; rfl, fun h => by cases h; rfl⟩

/-- What is not read is refused by its text. -/
theorem number_eq_error_iff {text : String} {e : ArgumentError} :
    number text = .error e ↔
      e = .invalidNumber text ∧ ∀ v : BitVec 32, ¬Written text.toList v.toNat := by
  constructor
  · intro h
    refine ⟨?_, fun v hv => ?_⟩
    · unfold number at h
      split at h
      · cases h
      · cases h
        rfl
    · rw [number_eq_ok_iff.mpr hv] at h
      cases h
  · rintro ⟨rfl, hnone⟩
    cases h : number text with
    | ok v => exact absurd (number_eq_ok_iff.mp h) (hnone v)
    | error e =>
      unfold number at h
      split at h
      · cases h
      · cases h
        rfl

/-- **The grammar of numbers.** A text is read as a number exactly if it is that number written and
    fits 32 bits; all else is refused by its text. So a number is read back from its decimal digits
    and, behind each of the prefixes, from its digits in base sixteen in either case, with any
    number of zeros in front. -/
theorem number_grammar :
    (∀ text : String,
      (∀ v : BitVec 32, number text = .ok v ↔ Written text.toList v.toNat) ∧
      (∀ e, number text = .error e ↔
        e = .invalidNumber text ∧ ∀ v : BitVec 32, ¬Written text.toList v.toNat) ∧
      (ArgumentError.invalidNumber text).message = "invalid number: " ++ text) ∧
    ∀ (v : BitVec 32) (zeros : Nat),
      number (String.ofList (List.replicate zeros '0' ++ Nat.toDigits 10 v.toNat)) = .ok v ∧
      ∀ pre ∈ hexPrefixes, ∀ letter : Char → Char, letter = id ∨ letter = Char.toUpper →
        number (String.ofList
          (pre ++ (List.replicate zeros '0' ++ (Nat.toDigits 16 v.toNat).map letter))) = .ok v := by
  refine ⟨fun text => ⟨fun v => number_eq_ok_iff, fun e => number_eq_error_iff, rfl⟩,
    fun v zeros => ⟨?_, fun pre hpre letter hletter => ?_⟩⟩
  · rw [number_eq_ok_iff, String.toList_ofList]
    exact (denotes_decimal zeros v.toNat).written
  · rw [number_eq_ok_iff, String.toList_ofList]
    exact (denotes_hex hletter zeros v.toNat).written_behind hpre

/-- The number 255 with zeros in front, in base ten and in base sixteen. -/
theorem number_grammar_padded :
    number "00255" = .ok 255 ∧ number "0X00FF" = .ok 255 ∧ number "$00ff" = .ok 255 := by
  obtain ⟨hdecimal, hhex⟩ := number_grammar.2 255 2
  exact ⟨hdecimal, hhex ['0', 'X'] (by decide) Char.toUpper (.inr rfl),
    hhex ['$'] (by decide) id (.inl rfl)⟩

/-- A sign behind the prefix is read, a second one is not. -/
example : number "$+10" = .ok 16 ∧ number "++1" = .error (.invalidNumber "++1") := by decide

end CommandLine

end Mc68000
