import Mathlib.Data.List.Basic
import Mc68000.Proofs.Numerals
import Mc68000.Assembly

/-!
# The parts of an assembler text

A text is a name, and behind a blank the operands with commas between them.

* `Instruction.head`, `Instruction.operandTexts` -- the parts of the text of an instruction;
  `text_eq` -- **the text is made of them**;
* `Assembly.depthFrom` -- how many brackets are open behind a text, if no comma stands outside of
  all; `Closed` -- a text that closes all it opens;
* `intercalate_inj` -- closed texts with commas between them can be told apart again;
* `not_isWhitespace_head` -- a name is one run without blanks;
* `parts_of_text` -- **the text tells its parts**, if all operand texts are closed.
-/

namespace Mc68000

/-! ## 1. Names and operands -/

namespace Operation

/-- The operations that carry their size in the name. -/
def isSized : Operation → Bool
  | logicImmediate _ | arithImmediate _ | movep | move | movea | negx | clr | neg | not | tst | ext
  | movem | arithQuick _ | arithExtended _ | logic _ | arith _ | arithAddress _ | cmpm
  | shiftMemory _ _ | shiftRegister _ _ => true
  | _ => false

/-- The operations that carry a condition in the name. -/
def isConditional : Operation → Bool
  | scc | dbcc | bcc => true
  | _ => false

end Operation

namespace Instruction

open Assembly

/-- What stands behind the mnemonic: a size, a condition or nothing. -/
def mark (i : Instruction) : String :=
  if i.operation.isSized then i.size.suffix
  else if i.operation.isConditional then (Condition.ofOpcode i.opcode).suffix
  else ""

/-- The name of an instruction with its size or its condition. -/
def head (i : Instruction) : String := i.operation.mnemonic ++ i.mark

/-- The operands of an instruction as texts, in the order in which they are written. -/
def operandTexts (i : Instruction) : List String :=
  let low := i.lowRegister
  let high := i.highRegister
  let source := i.operandText i.source
  let destination := i.operandText i.destination
  let target := hex 4 i.branchTarget.toNat
  match i.operation with
  | .logicToCcr _ => ["#" ++ hex 2 (i.extension.word.setWidth 8).toNat, "CCR"]
  | .logicToSr _ => ["#" ++ hex 4 i.extension.word.toNat, "SR"]
  | .logicImmediate _ | .arithImmediate _ => [literalText i.size i.extension.long, destination]
  | .bitStatic _ => ["#" ++ Digits.decimal i.extension.word.toNat, destination]
  | .bitDynamic _ | .logic .eor => [dataName high, destination]
  | .movep =>
    let place := signedWord i.extension.word ++ "(" ++ addressName low ++ ")"
    if i.opcode.getLsbD 7 then [dataName high, place] else [place, dataName high]
  | .move | .movea => [source, destination]
  | .moveFromSr => ["SR", destination]
  | .moveToCcr => [source, "CCR"]
  | .moveToSr => [source, "SR"]
  | .moveUsp => if i.opcode.getLsbD 3 then ["USP", addressName low] else [addressName low, "USP"]
  | .negx | .clr | .neg | .not | .tst | .nbcd | .tas | .scc => [destination]
  | .ext | .swap => [dataName low]
  | .pea | .jmp | .jsr | .shiftMemory _ _ => [source]
  | .lea | .arithAddress _ => [source, addressName high]
  | .illegal | .reset | .nop | .rte | .rts | .trapv | .rtr => []
  | .trap => ["#" ++ Digits.decimal (i.opcode.setWidth 4).toNat]
  | .link => [addressName low, "#" ++ signedWord i.extension.word]
  | .unlk => [addressName low]
  | .stop => ["#" ++ hex 4 i.extension.word.toNat]
  | .movem =>
    let list := registerList i.movemMask
    if i.opcode.getLsbD 10 then [destination, list] else [list, destination]
  | .chk | .divide _ | .multiply _ => [source, dataName high]
  | .dbcc => [dataName low, target]
  | .bra | .bsr | .bcc => [target]
  | .arithQuick _ => ["#" ++ Digits.decimal i.quickValue, destination]
  | .moveq => ["#" ++ signedByte i.opcode, dataName high]
  | .decimal _ | .arithExtended _ =>
    if i.opcode.getLsbD 3 then
      ["-(" ++ addressName low ++ ")", "-(" ++ addressName high ++ ")"]
    else [dataName low, dataName high]
  | .arith .cmp => [destination, dataName high]
  | .logic _ | .arith _ =>
    if i.opcode.getLsbD 8 then [dataName high, destination] else [destination, dataName high]
  | .cmpm => ["(" ++ addressName low ++ ")+", "(" ++ addressName high ++ ")+"]
  | .exg =>
    match (i.opcode.extractLsb' 3 5).toNat with
    | 0x09 => [addressName high, addressName low]
    | 0x11 => [dataName high, addressName low]
    | _ => [dataName high, dataName low]
  | .shiftRegister _ _ =>
    if i.opcode.getLsbD 5 then [dataName high, dataName low]
    else ["#" ++ Digits.decimal i.quickValue, dataName low]

end Instruction

/-- What follows the name of an instruction: nothing, or a blank and the operands. -/
def Assembly.tail (ts : List String) : String := if ts = [] then "" else " " ++ ",".intercalate ts

open Assembly

/-- **The text of an instruction is made of its parts.** -/
theorem Instruction.text_eq (i : Instruction) : i.text = i.head ++ tail i.operandTexts := by
  rw [← String.toList_inj]
  cases hop : i.operation
  case logic op =>
    cases op <;> simp only [text, head, mark, operandTexts, hop, Operation.isSized, if_true]
    case eor => simp [tail]
    all_goals split <;> simp [tail]
  case arith op =>
    cases op <;> simp only [text, head, mark, operandTexts, hop, Operation.isSized, if_true]
    case cmp => simp [tail]
    all_goals split <;> simp [tail]
  case movep | moveUsp | movem | decimal | arithExtended | shiftRegister =>
    simp only [text, head, mark, operandTexts, hop, Operation.isSized, Operation.isConditional]
    split <;> simp [tail]
  case exg =>
    simp only [text, head, mark, operandTexts, hop, Operation.isSized, Operation.isConditional]
    generalize (i.opcode.extractLsb' 3 5).toNat = mode
    split <;> simp [tail]
  all_goals
    simp [text, head, mark, operandTexts, hop, Operation.isSized, Operation.isConditional, tail]

/-! ## 2. Brackets and commas -/

namespace Assembly

/-- How many brackets are open behind a text that begins with `depth` of them; `none` if a comma
    stands outside of all brackets. -/
def depthFrom (depth : Nat) : List Char → Option Nat
  | [] => some depth
  | c :: cs =>
    if c = '(' then depthFrom (depth + 1) cs
    else if c = ')' then depthFrom (depth - 1) cs
    else if c = ',' ∧ depth = 0 then none
    else depthFrom depth cs

/-- A text that closes all brackets it opens and has no comma outside of them. -/
def Closed (t : String) : Prop := depthFrom 0 t.toList = some 0

theorem depthFrom_append (depth : Nat) (cs ds : List Char) :
    depthFrom depth (cs ++ ds) = (depthFrom depth cs).bind (depthFrom · ds) := by
  induction cs generalizing depth with
  | nil => rfl
  | cons c cs ih =>
    rw [List.cons_append, depthFrom, depthFrom]
    split
    · exact ih _
    · split
      · exact ih _
      · split
        · rfl
        · exact ih _

/-- The characters that open, close or separate. -/
def delimiters : List Char := ['(', ')', ',']

/-- Other characters leave the depth as it is. -/
theorem depthFrom_plain {cs : List Char} (h : ∀ c ∈ cs, c ∉ delimiters) (depth : Nat) :
    depthFrom depth cs = some depth := by
  induction cs with
  | nil => rfl
  | cons c cs ih =>
    obtain ⟨hc, hcs⟩ := List.forall_mem_cons.mp h
    simp only [delimiters, List.mem_cons, List.not_mem_nil, or_false, not_or] at hc
    rw [depthFrom, if_neg hc.1, if_neg hc.2.1, if_neg fun hcomma => hc.2.2 hcomma.1]
    exact ih hcs

/-- A comma behind a closed text stands outside of all brackets. -/
theorem Closed.depthFrom_comma {t : String} (h : Closed t) (cs : List Char) :
    depthFrom 0 (t.toList ++ ',' :: cs) = none := by
  rw [depthFrom_append, h]
  rfl

/-- So a closed text is told from what follows its comma. -/
theorem Closed.append_inj {s t : String} (hs : Closed s) (ht : Closed t) {cs ds : List Char}
    (h : s.toList ++ ',' :: cs = t.toList ++ ',' :: ds) : s = t ∧ cs = ds := by
  obtain ⟨es, hlong, hrest⟩ | ⟨es, hlong, hrest⟩ := List.append_eq_append_iff.mp h
  · cases es with
    | nil => exact ⟨String.toList_inj.mp (by simpa using hlong.symm), (List.cons.inj hrest).2⟩
    | cons e es =>
      rw [← (List.cons.inj hrest).1] at hlong
      rw [Closed, hlong, hs.depthFrom_comma] at ht
      cases ht
  · cases es with
    | nil => exact ⟨String.toList_inj.mp (by simpa using hlong), (List.cons.inj hrest).2.symm⟩
    | cons e es =>
      rw [← (List.cons.inj hrest).1] at hlong
      rw [Closed, hlong, ht.depthFrom_comma] at hs
      cases hs

theorem toList_intercalate_cons (t u : String) (ts : List String) :
    (",".intercalate (t :: u :: ts)).toList =
      t.toList ++ ',' :: (",".intercalate (u :: ts)).toList := by
  rw [String.intercalate_cons_cons, String.toList_append, String.toList_append, List.append_assoc]
  rfl

/-- **Closed texts with commas between them are told apart.** -/
theorem intercalate_inj {ts us : List String} (hts : ∀ t ∈ ts, Closed t) (hus : ∀ u ∈ us, Closed u)
    (hne : ts ≠ []) (hne' : us ≠ []) (h : ",".intercalate ts = ",".intercalate us) : ts = us := by
  induction ts generalizing us with
  | nil => exact absurd rfl hne
  | cons t ts ih =>
    obtain ⟨u, us, rfl⟩ := List.exists_cons_of_ne_nil hne'
    obtain ⟨ht, hrest⟩ := List.forall_mem_cons.mp hts
    obtain ⟨hu, hrest'⟩ := List.forall_mem_cons.mp hus
    have hchars := congrArg String.toList h
    cases ts with
    | nil =>
      cases us with
      | nil => simpa using h
      | cons v us =>
        rw [String.intercalate_singleton, toList_intercalate_cons] at hchars
        rw [Closed, hchars, hu.depthFrom_comma] at ht
        cases ht
    | cons v ts =>
      rw [toList_intercalate_cons] at hchars
      cases us with
      | nil =>
        rw [String.intercalate_singleton] at hchars
        rw [Closed, ← hchars, ht.depthFrom_comma] at hu
        cases hu
      | cons w us =>
        rw [toList_intercalate_cons] at hchars
        obtain ⟨hfirst, hchars⟩ := ht.append_inj hu hchars
        rw [hfirst, ih hrest hrest' nofun nofun (String.toList_inj.mp hchars)]

/-! ## 3. Closed texts -/

@[simp] theorem depthFrom_decimal (depth n : Nat) :
    depthFrom depth (Digits.decimal n).toList = some depth := by
  refine depthFrom_plain (fun c hc hdelim => ?_) depth
  rw [Digits.decimal, String.toList_ofList] at hc
  have hdigit := Nat.isDigit_of_mem_toDigits (by decide) (by decide) hc
  revert hdigit
  simp only [delimiters, List.mem_cons, List.not_mem_nil, or_false] at hdelim
  rcases hdelim with rfl | rfl | rfl <;> decide

@[simp] theorem depthFrom_upperHex (depth width n : Nat) :
    depthFrom depth (Digits.upperHex width n).toList = some depth := by
  refine depthFrom_plain (fun c hc => ?_) depth
  rw [Digits.upperHex, String.toList_ofList] at hc
  have hall : (Digits.hexAlphabet.all fun c => c ∉ delimiters) = true := by decide
  exact of_decide_eq_true
    (List.all_eq_true.mp hall c (Digits.mem_hexAlphabet_of_mem_upperHexChars hc))

@[simp] theorem depthFrom_signedDecimal (depth : Nat) (z : Int) :
    depthFrom depth (Digits.signedDecimal z).toList = some depth := by
  unfold Digits.signedDecimal
  split <;> simp [depthFrom]

@[simp] theorem depthFrom_dataName (depth : Nat) (n : Fin 8) :
    depthFrom depth (dataName n).toList = some depth := by
  simp [dataName, depthFrom]

@[simp] theorem depthFrom_addressName (depth : Nat) (n : Fin 8) :
    depthFrom depth (addressName n).toList = some depth := by
  simp [addressName, depthFrom]

@[simp] theorem depthFrom_indexText (depth : Nat) (w : Word) :
    depthFrom depth (indexText w).toList = some depth := by
  unfold indexText
  split <;> split <;> simp [depthFrom_append, depthFrom]

@[simp] theorem depthFrom_literalText (depth : Nat) (size : Size) (v : Long) :
    depthFrom depth (literalText size v).toList = some depth := by
  simp [literalText, hex, depthFrom]

/-- The characters of a list of registers. -/
def isListChar (c : Char) : Bool := c.isDigit || "DA-/".toList.contains c

theorem isListChar_runText {bank : String} (hbank : bank ∈ ["D", "A"]) (first last : Nat) :
    ∀ c ∈ (runText bank first last).toList, isListChar c = true := by
  have hdecimal (n : Nat) : ∀ c ∈ (Digits.decimal n).toList, isListChar c = true := by
    intro c hc
    rw [Digits.decimal, String.toList_ofList] at hc
    rw [isListChar, Nat.isDigit_of_mem_toDigits (by decide) (by decide) hc, Bool.true_or]
  have hbank : ∀ c ∈ bank.toList, isListChar c = true := by
    have hbanks : ∀ bank ∈ ["D", "A"], bank.toList.all isListChar = true := by decide
    exact List.all_eq_true.mp (hbanks bank hbank)
  intro c hc
  unfold runText at hc
  split at hc
  all_goals
    simp only [String.toList_append, List.mem_append] at hc
  · exact hc.elim (hbank c) (hdecimal _ c)
  · obtain (((hc | hc) | hc) | hc) | hc := hc
    · exact hbank c hc
    · exact hdecimal _ c hc
    · rw [List.mem_singleton.mp hc]
      decide
    · exact hbank c hc
    · exact hdecimal _ c hc

theorem isListChar_registerList (mask : Word) :
    ∀ c ∈ (registerList mask).toList, isListChar c = true := by
  have hruns : ∀ t ∈ bankRuns "D" (mask.extractLsb' 0 8) ++ bankRuns "A" (mask.extractLsb' 8 8),
      ∀ c ∈ t.toList, isListChar c = true := by
    intro t ht
    obtain ht | ht := List.mem_append.mp ht
    all_goals
      obtain ⟨run, -, rfl⟩ := List.mem_map.mp ht
      exact isListChar_runText (by decide) run.1 run.2
  unfold registerList
  generalize bankRuns "D" _ ++ bankRuns "A" _ = ts at hruns
  induction ts with
  | nil => exact nofun
  | cons t ts ih =>
    obtain ⟨ht, hts⟩ := List.forall_mem_cons.mp hruns
    cases ts with
    | nil =>
      rw [String.intercalate_singleton]
      exact ht
    | cons u ts =>
      intro c hc
      rw [String.intercalate_cons_cons, String.toList_append, String.toList_append,
        List.mem_append, List.mem_append] at hc
      obtain (hc | hc) | hc := hc
      · exact ht c hc
      · rw [List.mem_singleton.mp hc]
        decide
      · exact ih hts c hc

theorem depthFrom_registerList (depth : Nat) (mask : Word) :
    depthFrom depth (registerList mask).toList = some depth := by
  refine depthFrom_plain (fun c hc hdelim => ?_) depth
  have hchar := isListChar_registerList mask c hc
  revert hchar
  simp only [delimiters, List.mem_cons, List.not_mem_nil, or_false] at hdelim
  rcases hdelim with rfl | rfl | rfl <;> decide

theorem depthFrom_operandText (i : Instruction) (ea : Option EffectiveAddress) :
    depthFrom 0 (i.operandText ea).toList = some 0 := by
  cases ea with
  | none =>
    show depthFrom 0 "?".toList = some 0
    decide
  | some ea =>
    show depthFrom 0 (ea.text i.size).toList = some 0
    unfold EffectiveAddress.text
    split
    · rename_i mode _
      rcases mode with n | n | n | n | mode | _
      case control =>
        cases mode <;>
          simp [AddressingMode.text, ControlMode.text, signedWord, signedByte, hex,
            depthFrom_append, depthFrom]
      all_goals simp [AddressingMode.text, depthFrom_append, depthFrom]
    · rfl

/-- **All operand texts are closed.** -/
theorem closed_operandTexts (i : Instruction) : ∀ t ∈ i.operandTexts, Closed t := by
  have hmask := depthFrom_registerList 0 i.movemMask
  have hea := depthFrom_operandText i
  unfold Instruction.operandTexts
  dsimp only
  -- one goal for each shape of an operation, two where an opcode bit turns the operands round
  split <;> (try split) <;>
    simp [Closed, hea, hmask, hex, signedWord, signedByte, depthFrom, depthFrom_append]

/-! ## 4. Reading a text -/

/-- A mnemonic is written in capital letters, one at least. -/
theorem capital_mnemonic (op : Operation) :
    op.mnemonic ≠ "" ∧ op.mnemonic.toList.all Char.isUpper = true := by
  cases op
  case logicToCcr o | logicToSr o | logicImmediate o | logic o | bitStatic o | bitDynamic o |
      arithImmediate o | arith o | arithAddress o | arithQuick o | arithExtended o | decimal o |
      multiply o | divide o =>
    cases o <;> decide
  case shiftMemory kind direction | shiftRegister kind direction =>
    cases kind <;> cases direction <;> decide
  all_goals decide

theorem isUpper_mnemonic (op : Operation) : op.mnemonic.toList.all Char.isUpper = true :=
  (capital_mnemonic op).2

theorem isUpper_condition (condition : Condition) :
    condition.suffix.toList.all Char.isUpper = true := by
  cases condition <;> decide

theorem not_mem_of_isUpper {t : String} (h : t.toList.all Char.isUpper = true) {c : Char}
    (hc : c.isUpper = false) : c ∉ t.toList := fun hmem =>
  absurd (List.all_eq_true.mp h c hmem) (by simp [hc])

/-- On characters that are at hand, blanks are found by looking at each. -/
theorem not_isWhitespace_of_all {t : String} (h : (t.toList.all fun c => !c.isWhitespace) = true) :
    ∀ c ∈ t.toList, c.isWhitespace = false := fun c hc =>
  Bool.not_eq_true' _ |>.mp (List.all_eq_true.mp h c hc)

theorem not_isWhitespace_of_isUpper {t : String} (h : t.toList.all Char.isUpper = true) :
    ∀ c ∈ t.toList, c.isWhitespace = false := by
  intro c hc
  have hupper := List.all_eq_true.mp h c hc
  cases hspace : c.isWhitespace with
  | false => rfl
  | true =>
    simp only [Char.isWhitespace, Bool.or_eq_true, decide_eq_true_eq] at hspace
    obtain ((rfl | rfl) | rfl) | rfl := hspace <;> cases hupper

theorem not_isWhitespace_mark (i : Instruction) : ∀ c ∈ i.mark.toList, c.isWhitespace = false := by
  have hsize : ∀ size : Size, ∀ c ∈ size.suffix.toList, c.isWhitespace = false := by
    intro size
    cases size <;> exact not_isWhitespace_of_all (by decide)
  unfold Instruction.mark
  split
  · exact hsize _
  · split
    · exact not_isWhitespace_of_isUpper (isUpper_condition _)
    · exact fun _ hc => absurd hc List.not_mem_nil

/-- The name of an instruction is one run without blanks. -/
theorem not_isWhitespace_head (i : Instruction) :
    ∀ c ∈ i.head.toList, c.isWhitespace = false := by
  intro c hc
  rw [Instruction.head, String.toList_append, List.mem_append] at hc
  exact hc.elim (not_isWhitespace_of_isUpper (isUpper_mnemonic _) c) (not_isWhitespace_mark i c)

theorem blank_not_mem_head (i : Instruction) : ' ' ∉ i.head.toList := fun h =>
  absurd (not_isWhitespace_head i ' ' h) (by decide)

/-- What stands in front of a character that is not in it, and what stands from it on. -/
theorem span_before {c : Char} {as : List Char} (h : c ∉ as) (bs : List Char) :
    (as ++ c :: bs).takeWhile (· ≠ c) = as ∧ (as ++ c :: bs).dropWhile (· ≠ c) = c :: bs := by
  have hother : ∀ a ∈ as, decide (a ≠ c) = true := fun a ha =>
    decide_eq_true fun heq => h (heq ▸ ha)
  rw [List.takeWhile_append_of_pos hother, List.dropWhile_append_of_pos hother,
    List.takeWhile_cons_of_neg (by simp), List.dropWhile_cons_of_neg (by simp), List.append_nil]
  exact ⟨rfl, rfl⟩

/-- A run without a character ends where the character first stands. -/
theorem append_cons_inj {c : Char} {as bs cs ds : List Char} (ha : c ∉ as) (hb : c ∉ bs)
    (h : as ++ c :: cs = bs ++ c :: ds) : as = bs ∧ cs = ds := by
  induction as generalizing bs with
  | nil =>
    cases bs with
    | nil => exact ⟨rfl, (List.cons.inj h).2⟩
    | cons b bs => exact absurd ((List.cons.inj h).1 ▸ List.mem_cons_self) hb
  | cons a as ih =>
    cases bs with
    | nil => exact absurd ((List.cons.inj h).1 ▸ List.mem_cons_self) ha
    | cons b bs =>
      obtain ⟨hfirst, hrest⟩ := List.cons.inj h
      obtain ⟨has, hcs⟩ :=
        ih (List.not_mem_of_not_mem_cons ha) (List.not_mem_of_not_mem_cons hb) hrest
      exact ⟨by rw [hfirst, has], hcs⟩

theorem tail_inj {ts us : List String} (hts : ∀ t ∈ ts, Closed t) (hus : ∀ u ∈ us, Closed u)
    (h : tail ts = tail us) : ts = us := by
  have hne : ∀ s : String, " " ++ s ≠ "" := fun s hs =>
    absurd (congrArg String.toList hs) (by simp)
  unfold tail at h
  split at h <;> split at h
  · rename_i hts hus
    rw [hts, hus]
  · exact absurd h.symm (hne _)
  · exact absurd h (hne _)
  · rename_i hts' hus'
    exact intercalate_inj hts hus hts' hus' ((String.append_right_inj " ").mp h)

/-- With a blank put behind it, what follows the name begins with a blank in any case. -/
theorem exists_blank_tail (ts : List String) :
    ∃ cs, (tail ts).toList ++ [' '] = ' ' :: cs := by
  unfold tail
  split
  · exact ⟨[], rfl⟩
  · exact ⟨(",".intercalate ts).toList ++ [' '], by simp⟩

/-- **The text of an instruction tells its name and its operands.** -/
theorem parts_of_text {i j : Instruction} (h : i.text = j.text) :
    i.head = j.head ∧ i.operandTexts = j.operandTexts := by
  rw [i.text_eq, j.text_eq] at h
  obtain ⟨cs, hcs⟩ := exists_blank_tail i.operandTexts
  obtain ⟨ds, hds⟩ := exists_blank_tail j.operandTexts
  have hchars : i.head.toList ++ ' ' :: cs = j.head.toList ++ ' ' :: ds := by
    rw [← hcs, ← hds, ← List.append_assoc, ← List.append_assoc, ← String.toList_append,
      ← String.toList_append, h]
  have hhead : i.head = j.head :=
    String.toList_inj.mp (append_cons_inj (blank_not_mem_head i) (blank_not_mem_head j) hchars).1
  rw [hhead, String.append_right_inj] at h
  exact ⟨hhead, tail_inj (closed_operandTexts i) (closed_operandTexts j) h⟩

end Assembly

end Mc68000
