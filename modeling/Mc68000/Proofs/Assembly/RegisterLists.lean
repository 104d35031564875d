import Mathlib.Data.List.Basic
import Mc68000.Proofs.Assembly.Parts
import Mc68000.Proofs.ReadBack

/-!
# Lists of registers

Neighbours are drawn together in the text of a register list, and no register is lost by it.

* `expand`, `flatMap_expand_runsFrom` -- the runs of ascending numbers hold just these numbers;
* `runText_injective` -- one text, one run;
* `groups`, `groups_intercalate` -- texts with slashes between them are told apart;
* `registerList_inj` -- **one register list, one mask**.
-/

namespace Mc68000.Assembly

/-! ## 1. Runs -/

/-- The numbers of a run. -/
def expand (run : Nat × Nat) : List Nat := List.range' run.1 (run.2 + 1 - run.1)

/-- **The runs hold the numbers that they were drawn from**, in order. -/
theorem flatMap_expand_runsFrom (run? : Option (Nat × Nat)) (ns : List Nat)
    (h : ∀ run ∈ run?, run.1 ≤ run.2) :
    (runsFrom run? ns).flatMap expand = run?.toList.flatMap expand ++ ns := by
  fun_induction runsFrom run? ns with
  | case1 run? => rw [List.append_nil]
  | case2 n ns ih =>
    rw [ih (by simp)]
    simp [expand]
  | case3 ns first last ih =>
    have hle : first ≤ last := h _ rfl
    have hlonger : expand (first, last + 1) = expand (first, last) ++ [last + 1] := by
      have hcount : last + 1 + 1 - first = (last + 1 - first) + 1 := by omega
      have hlast : first + (last + 1 - first) = last + 1 := by omega
      rw [expand, expand, hcount, List.range'_concat, Nat.one_mul, hlast]
    rw [ih (by simp; omega)]
    simp [hlonger]
  | case4 n ns first last hgap ih =>
    rw [List.flatMap_cons, ih (by simp)]
    simp [expand]

/-! ## 2. The text of a run -/

/-- The characters of a run: the first register and, behind a hyphen, the last one. -/
theorem toList_runText {bank : String} {letter : Char} (hbank : bank.toList = [letter])
    (first last : Nat) :
    (runText bank first last).toList =
      if first = last then letter :: Nat.toDigits 10 first
      else (letter :: Nat.toDigits 10 first) ++ '-' :: letter :: Nat.toDigits 10 last := by
  unfold runText
  split <;> simp [Digits.decimal, hbank]

/-- **One text, one run.** -/
theorem runText_injective {bank : String} {letter : Char} (hbank : bank.toList = [letter])
    (hletter : letter ≠ '-') :
    Function.Injective fun run : Nat × Nat => runText bank run.1 run.2 := by
  have hhyphen (n : Nat) : '-' ∉ letter :: Nat.toDigits 10 n :=
    List.not_mem_cons_of_ne_of_not_mem hletter.symm (Digits.minus_not_mem_toDigits n)
  rintro ⟨first, last⟩ ⟨first', last'⟩ h
  have hchars := congrArg String.toList h
  simp only [toList_runText hbank] at hchars
  split at hchars <;> split at hchars
  · rename_i hsingle hsingle'
    have hfirst := Digits.toDigits_ten_inj (List.cons.inj hchars).2
    rw [← hsingle, ← hsingle', hfirst]
  · exact absurd (hchars ▸ List.mem_append_right _ List.mem_cons_self) (hhyphen first)
  · exact absurd (hchars ▸ List.mem_append_right _ List.mem_cons_self) (hhyphen first')
  · obtain ⟨hfirst, hlast⟩ := append_cons_inj (hhyphen _) (hhyphen _) hchars
    rw [Digits.toDigits_ten_inj (List.cons.inj hfirst).2,
      Digits.toDigits_ten_inj (List.cons.inj hlast).2]

/-- The texts of the runs of a bank tell its mask. -/
theorem bankRuns_inj {bank : String} {letter : Char} (hbank : bank.toList = [letter])
    (hletter : letter ≠ '-') {mask mask' : BitVec 8}
    (h : bankRuns bank mask = bankRuns bank mask') : mask = mask' := by
  have hruns := List.map_injective_iff.mpr (runText_injective hbank hletter) h
  have hnumbers : (List.range 8).filter mask.getLsbD = (List.range 8).filter mask'.getLsbD := by
    simpa [flatMap_expand_runsFrom] using congrArg (List.flatMap expand) hruns
  refine BitVec.eq_of_getLsbD_eq fun k hk => ?_
  have hmem : k ∈ (List.range 8).filter mask.getLsbD ↔ k ∈ (List.range 8).filter mask'.getLsbD := by
    rw [hnumbers]
  simp only [List.mem_filter, List.mem_range, hk, true_and] at hmem
  exact Bool.eq_iff_iff.mpr hmem

/-! ## 3. The text of a list -/

/-- The groups between slashes. -/
def groups (cs : List Char) : List (List Char) := (cs.splitOn '/').filter (· ≠ [])

/-- Texts with slashes between them are told apart. -/
theorem groups_intercalate {ts : List String} (hslash : ∀ t ∈ ts, '/' ∉ t.toList)
    (hne : ∀ t ∈ ts, t.toList ≠ []) :
    groups ("/".intercalate ts).toList = ts.map String.toList := by
  have hslash' : ∀ cs ∈ ts.map String.toList, '/' ∉ cs := by simpa using hslash
  by_cases hts : ts = []
  · subst hts
    decide
  · rw [groups, String.toList_intercalate,
      show "/".toList = ['/'] by decide, List.splitOn_intercalate _ hslash' (by simpa using hts)]
    exact List.filter_eq_self.mpr (by simpa using hne)

/-- The texts of the runs of one bank begin with its letter and have no slash. -/
theorem chars_of_mem_bankRuns {bank : String} {letter : Char} (hbank : bank.toList = [letter])
    (hslash : letter ≠ '/') {mask : BitVec 8} {t : String} (ht : t ∈ bankRuns bank mask) :
    t.toList.head? = some letter ∧ '/' ∉ t.toList := by
  obtain ⟨⟨first, last⟩, -, rfl⟩ := List.mem_map.mp ht
  have hdigits (n : Nat) : '/' ∉ Nat.toDigits 10 n := fun h =>
    absurd (Nat.isDigit_of_mem_toDigits (by decide) (by decide) h) (by decide)
  rw [toList_runText hbank]
  split
  · exact ⟨rfl, by simp [hslash.symm, hdigits]⟩
  · exact ⟨rfl, by simp [hslash.symm, hdigits]⟩

theorem toList_dataBank : "D".toList = ['D'] := by decide

theorem toList_addressBank : "A".toList = ['A'] := by decide

/-- The texts of the runs in a mask, both banks one after the other. -/
def runTexts (mask : Word) : List String :=
  bankRuns "D" (mask.extractLsb' 0 8) ++ bankRuns "A" (mask.extractLsb' 8 8)

theorem chars_of_mem_runTexts {mask : Word} {t : String} (ht : t ∈ runTexts mask) :
    '/' ∉ t.toList ∧ t.toList ≠ [] := by
  have hchars : ∃ letter, t.toList.head? = some letter ∧ '/' ∉ t.toList := by
    obtain ht | ht := List.mem_append.mp ht
    · exact ⟨'D', chars_of_mem_bankRuns toList_dataBank (by decide) ht⟩
    · exact ⟨'A', chars_of_mem_bankRuns toList_addressBank (by decide) ht⟩
  obtain ⟨letter, hletter, hslash⟩ := hchars
  refine ⟨hslash, fun hnil => ?_⟩
  rw [hnil] at hletter
  cases hletter

/-- The runs of the data registers are those that begin with a `D`. -/
theorem filter_runTexts (mask : Word) :
    (runTexts mask).filter (·.toList.head? == some 'D') =
      bankRuns "D" (mask.extractLsb' 0 8) := by
  rw [runTexts, List.filter_append, List.filter_eq_self.mpr fun t ht => ?_,
    List.filter_eq_nil_iff.mpr fun t ht => ?_, List.append_nil]
  · rw [(chars_of_mem_bankRuns toList_addressBank (by decide) ht).1]
    decide
  · rw [(chars_of_mem_bankRuns toList_dataBank (by decide) ht).1]
    decide

/-- The groups of a list are the texts of its runs. -/
theorem groups_registerList (mask : Word) :
    groups (registerList mask).toList = (runTexts mask).map String.toList :=
  groups_intercalate (fun _ ht => (chars_of_mem_runTexts ht).1)
    fun _ ht => (chars_of_mem_runTexts ht).2

/-- **One register list, one mask.** -/
theorem registerList_inj {mask mask' : Word} (h : registerList mask = registerList mask') :
    mask = mask' := by
  have htexts : runTexts mask = runTexts mask' := by
    refine List.map_injective_iff.mpr (fun s t => String.toList_inj.mp) ?_
    rw [← groups_registerList, ← groups_registerList, h]
  have hdata : bankRuns "D" (mask.extractLsb' 0 8) = bankRuns "D" (mask'.extractLsb' 0 8) := by
    rw [← filter_runTexts, ← filter_runTexts, htexts]
  have haddress : bankRuns "A" (mask.extractLsb' 8 8) = bankRuns "A" (mask'.extractLsb' 8 8) := by
    rw [runTexts, runTexts, hdata] at htexts
    exact List.append_cancel_left htexts
  have hlow := bankRuns_inj toList_dataBank (by decide) hdata
  have hhigh := bankRuns_inj toList_addressBank (by decide) haddress
  calc mask = mask.extractLsb' 8 8 ++ mask.extractLsb' 0 8 := (Word.append_bytes mask).symm
    _ = mask'.extractLsb' 8 8 ++ mask'.extractLsb' 0 8 := by rw [hlow, hhigh]
    _ = mask' := Word.append_bytes mask'

end Mc68000.Assembly
