import Mc68000.Proofs.Assembly.Operands
import Mc68000.Proofs.Assembly.RegisterLists
import Mc68000.Proofs.CheckedArithmetic
import Mc68000.Proofs.RegisterRestore

/-!
# The registers that a text lists

A reader for the lists of registers that `MOVEM` is shown with.

* `Assembly.listRegisters?` -- the registers of a list, its ranges drawn out and its groups taken
  apart at the slashes;
* `groupRegisters?_bankRuns` -- **the runs of a bank give back its registers**;
* `listRegisters?_registerList` -- **the list of a mask gives back its registers**, each of them at
  its place;
* `Assembly.shownRegisters?` -- the registers that a text lists on either side of the comma;
  `shownRegisters?_text` -- **for a transfer they are those of its mask**, with D0 at bit 0.
-/

namespace Mc68000

namespace Assembly

/-! ## 1. Lists -/

/-- The bank of a letter. -/
def bank? : Char → Option (Fin 8 → Register)
  | 'D' => some .data
  | 'A' => some .address
  | _ => none

/-- The registers of a group: one by its name, or all of a bank from one name to another. -/
def groupRegisters? : List Char → Option (List Register)
  | [letter, n] => do
    let bank ← bank? letter
    let n ← register? n
    return [bank n]
  | [letter, first, '-', letter', last] => do
    let bank ← bank? letter
    let first ← register? first
    let last ← register? last
    if letter' = letter then
      return ((List.finRange 8).filter fun n => first ≤ n ∧ n ≤ last).map bank
    else none
  | _ => none

/-- The registers of a list of groups with slashes between them, in the order of the text. -/
def listRegisters? (cs : List Char) : Option (List Register) :=
  ((groups cs).mapM groupRegisters?).map List.flatten

/-- A run of data registers is read back, and so is one of address registers. -/
theorem groupRegisters?_data : ∀ first last : Fin 8, first ≤ last →
    groupRegisters? (runText "D" first.val last.val).toList =
      some ((expand (first.val, last.val)).map fun n => .data (Fin.ofNat 8 n)) := by
  decide

theorem groupRegisters?_address : ∀ first last : Fin 8, first ≤ last →
    groupRegisters? (runText "A" first.val last.val).toList =
      some ((expand (first.val, last.val)).map fun n => .address (Fin.ofNat 8 n)) := by
  decide

/-- A run goes up. -/
theorem le_of_mem_runsFrom (run? : Option (Nat × Nat)) (ns : List Nat)
    (h : ∀ run ∈ run?, run.1 ≤ run.2) : ∀ run ∈ runsFrom run? ns, run.1 ≤ run.2 := by
  fun_induction runsFrom run? ns with
  | case1 run? => simpa using h
  | case2 n ns ih => exact ih (by simp)
  | case3 ns first last ih =>
    have hle : first ≤ last := h _ rfl
    exact ih (by simp; omega)
  | case4 n ns first last hgap ih =>
    intro run hrun
    rcases List.mem_cons.mp hrun with rfl | hrun
    · exact h _ rfl
    · exact ih (by simp) run hrun

/-- The ends of a run are among the numbers that it was drawn from. -/
theorem ends_mem_of_mem_runsFrom {ns : List Nat} {run : Nat × Nat} (h : run ∈ runsFrom none ns) :
    run.1 ≤ run.2 ∧ run.1 ∈ ns ∧ run.2 ∈ ns := by
  have hle := le_of_mem_runsFrom none ns (by simp) run h
  have hall := flatMap_expand_runsFrom none ns (by simp)
  have hinside : ∀ n ∈ expand run, n ∈ ns := by
    intro n hn
    have hn' : n ∈ (runsFrom none ns).flatMap expand := List.mem_flatMap.mpr ⟨run, h, hn⟩
    rw [hall] at hn'
    exact hn'
  refine ⟨hle, hinside _ ?_, hinside _ ?_⟩
  all_goals
    unfold expand
    rw [List.mem_range'_1]
    omega

/-- The registers of a bank in a mask. -/
def bankRegisters (bank : Fin 8 → Register) (mask : BitVec 8) : List Register :=
  ((List.range 8).filter mask.getLsbD).map fun n => bank (Fin.ofNat 8 n)

/-- **The texts of the runs of a bank give its registers.** -/
theorem groupRegisters?_bankRuns {name : String} {bank : Fin 8 → Register}
    (hrun : ∀ first last : Fin 8, first ≤ last →
      groupRegisters? (runText name first.val last.val).toList =
        some ((expand (first.val, last.val)).map fun n => bank (Fin.ofNat 8 n)))
    (mask : BitVec 8) :
    ∃ regs, ((bankRuns name mask).map String.toList).mapM groupRegisters? = some regs ∧
      regs.flatten = bankRegisters bank mask := by
  unfold bankRuns
  rw [List.map_map]
  refine ⟨_, Checked.mapM_eq_some (h := fun run => (expand run).map fun n => bank (Fin.ofNat 8 n))
    fun run hmem => ?_, ?_⟩
  · obtain ⟨hle, hfirst, hlast⟩ := ends_mem_of_mem_runsFrom hmem
    have hfirst' : run.1 < 8 := List.mem_range.mp (List.mem_of_mem_filter hfirst)
    have hlast' : run.2 < 8 := List.mem_range.mp (List.mem_of_mem_filter hlast)
    exact hrun ⟨run.1, hfirst'⟩ ⟨run.2, hlast'⟩ hle
  · have hall := flatMap_expand_runsFrom none ((List.range 8).filter mask.getLsbD) (by simp)
    rw [← List.flatMap_def, ← List.map_flatMap, hall]
    rfl

/-- The half of a mask at an offset holds the registers of one bank. -/
theorem map_ofPosition_half (bank : Fin 8 → Register) (mask : Word) (offset : Nat)
    (hposition : ∀ n < 8, (Fin.ofNat 16 (n + offset)).val = offset + n ∧
      Register.ofPosition (Fin.ofNat 16 (n + offset)) = bank (Fin.ofNat 8 n)) :
    (((List.range 8).map fun n => Fin.ofNat 16 (n + offset)).filter
        fun k => mask.getLsbD k.val).map Register.ofPosition =
      bankRegisters bank (mask.extractLsb' offset 8) := by
  unfold bankRegisters
  have hbits : (List.range 8).filter
        ((fun k : Fin 16 => mask.getLsbD k.val) ∘ fun n => Fin.ofNat 16 (n + offset)) =
      (List.range 8).filter (mask.extractLsb' offset 8).getLsbD := by
    refine List.filter_congr fun n hn => ?_
    have hn' := List.mem_range.mp hn
    rw [Function.comp_apply, (hposition n hn').1, BitVec.getLsbD_extractLsb']
    simp [hn']
  rw [List.filter_map, List.map_map, hbits]
  refine List.map_congr_left fun n hn => ?_
  exact (hposition n (List.mem_range.mp (List.mem_of_mem_filter hn))).2

/-- The registers of a mask are those of both banks, one behind the other. -/
theorem ofMask_eq (mask : Word) :
    Register.ofMask mask = bankRegisters .data (mask.extractLsb' 0 8) ++
      bankRegisters .address (mask.extractLsb' 8 8) := by
  have hhalves : List.finRange 16 = (List.range 8).map (fun n => Fin.ofNat 16 (n + 0)) ++
      (List.range 8).map fun n => Fin.ofNat 16 (n + 8) := by decide
  unfold Register.ofMask maskPositions
  rw [hhalves, List.filter_append, List.map_append, map_ofPosition_half .data mask 0,
    map_ofPosition_half .address mask 8]
  · decide
  · decide

/-- **A list of registers is read back from its text.** -/
theorem listRegisters?_registerList (mask : Word) :
    listRegisters? (registerList mask).toList = some (Register.ofMask mask) := by
  obtain ⟨regs, hdata, hflat⟩ :=
    groupRegisters?_bankRuns groupRegisters?_data (mask.extractLsb' 0 8)
  obtain ⟨regs', haddress, hflat'⟩ :=
    groupRegisters?_bankRuns groupRegisters?_address (mask.extractLsb' 8 8)
  unfold listRegisters?
  rw [groups_registerList, runTexts, List.map_append, List.mapM_append, hdata, haddress, ofMask_eq,
    ← hflat, ← hflat', ← List.flatten_append]
  rfl

/-! ## 2. Texts -/

/-- The registers that the text of a transfer lists: behind the name, in front of the comma if they
    are stored and behind it if they are loaded. -/
def shownRegisters? (stored : Bool) (t : String) : Option (List Register) :=
  let operands := (t.toList.dropWhile (· ≠ ' ')).drop 1
  listRegisters? (if stored then operands.takeWhile (· ≠ ',')
    else (operands.reverse.takeWhile (· ≠ ',')).reverse)

theorem comma_not_mem_registerList (mask : Word) : ',' ∉ (registerList mask).toList := fun h =>
  absurd (isListChar_registerList mask _ h) (by decide)

/-- **The text of a transfer lists the registers of its mask**, whichever way round the instruction
    holds it. -/
theorem shownRegisters?_text {i : Instruction} (hop : i.operation = .movem) :
    shownRegisters? (!i.opcode.getLsbD 10) i.text = some (Register.ofMask i.movemMask) := by
  have hcomma := comma_not_mem_registerList i.movemMask
  have hchars (a b : String) (ha : i.operandTexts = [a, b]) :
      (i.text.toList.dropWhile (· ≠ ' ')).drop 1 = a.toList ++ ',' :: b.toList := by
    have htext : i.text.toList = i.head.toList ++ ' ' :: (a.toList ++ ',' :: b.toList) := by
      rw [Instruction.text_eq, ha]
      simp [tail]
    rw [htext, (span_before (blank_not_mem_head i) _).2]
    rfl
  unfold shownRegisters?
  dsimp only
  cases hload : i.opcode.getLsbD 10 with
  | false =>
    rw [hchars (registerList i.movemMask) (i.operandText i.destination)
      (by simp only [Instruction.operandTexts, hop, hload, Bool.false_eq_true, if_false])]
    show listRegisters? (List.takeWhile _ _) = _
    rw [(span_before hcomma _).1, listRegisters?_registerList]
  | true =>
    rw [hchars (i.operandText i.destination) (registerList i.movemMask)
      (by simp only [Instruction.operandTexts, hop, hload, if_true])]
    show listRegisters? (List.takeWhile _ _).reverse = _
    have hcomma' : ',' ∉ (registerList i.movemMask).toList.reverse := by
      rw [List.mem_reverse]
      exact hcomma
    rw [List.reverse_append, List.reverse_cons, List.append_assoc, List.singleton_append,
      (span_before hcomma' _).1, List.reverse_reverse, listRegisters?_registerList]

end Assembly

end Mc68000
