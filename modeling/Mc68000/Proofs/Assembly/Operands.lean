import Mc68000.Proofs.Assembly.Parts
import Mc68000.Proofs.FetchWords

/-!
# What the text of an operand tells

* `AddressingMode.ofText?` -- the mode that a text names, by what is left behind the number at its
  front; `ofText?_text` -- **the mode is read back from its text**, whatever the size;
* `signedWord_inj`, `literalText_inj`, `indexText_inj` -- numbers, registers and index words are read
  back from their texts, up to the bits that do not count;
* `AddressingMode.operand_congr` -- **two operands of one mode with one text lead to the same
  place**, if their words stand at one address.
-/

namespace Mc68000

namespace Assembly

/-! ## 1. Registers and numbers -/

/-- The register of a digit. -/
def register? (c : Char) : Option (Fin 8) :=
  if h : c.toNat - 48 < 8 then some ⟨c.toNat - 48, h⟩ else none

@[simp] theorem register?_digitChar (n : Fin 8) : register? n.val.digitChar = some n := by
  revert n
  decide

theorem toList_dataName (n : Fin 8) : (dataName n).toList = ['D', n.val.digitChar] := by
  revert n
  decide

theorem toList_addressName (n : Fin 8) : (addressName n).toList = ['A', n.val.digitChar] := by
  revert n
  decide

/-- The characters of a signed number. -/
def isNumeral (c : Char) : Bool := c.isDigit || c == '-'

theorem isNumeral_of_mem_signedDecimal (z : Int) :
    ∀ c ∈ (Digits.signedDecimal z).toList, isNumeral c = true := by
  have hdigits : ∀ n : Nat, ∀ c ∈ Nat.toDigits 10 n, isNumeral c = true := fun n c hc => by
    rw [isNumeral, Nat.isDigit_of_mem_toDigits (by decide) (by decide) hc, Bool.true_or]
  intro c hc
  rw [Digits.toList_signedDecimal] at hc
  split at hc
  · rcases List.mem_cons.mp hc with rfl | hc
    · rfl
    · exact hdigits _ c hc
  · exact hdigits _ c hc

/-- A signed number has a digit. -/
theorem signedDecimal_ne_minus (z : Int) :
    (Digits.signedDecimal z).toList ≠ [] ∧ (Digits.signedDecimal z).toList ≠ ['-'] := by
  rw [Digits.toList_signedDecimal]
  split
  · exact ⟨nofun, fun h => Nat.toDigits_ne_nil (List.cons.inj h).2⟩
  · exact ⟨Nat.toDigits_ne_nil, fun h =>
      Digits.minus_not_mem_toDigits _ (h ▸ List.mem_singleton_self _)⟩

end Assembly

open Assembly

/-! ## 2. The mode of a text -/

namespace AddressingMode

/-- The mode of a text, from the number or minus sign at its front and from what stands behind. -/
def ofSpan? (lead : List Char) : List Char → Option AddressingMode
  | ['D', n] => (register? n).map dataDirect
  | ['A', n] => (register? n).map addressDirect
  | ['(', 'A', n, ')', '+'] => (register? n).map postIncrement
  | ['(', 'A', n, ')'] =>
    if lead = [] then (register? n).map fun n => control (.indirect n)
    else if lead = ['-'] then (register? n).map preDecrement
    else (register? n).map fun n => control (.displacement n)
  | ['(', 'P', 'C', ')'] => some (control .pcDisplacement)
  | '(' :: 'A' :: n :: ',' :: _ => (register? n).map fun n => control (.indexed n)
  | '(' :: 'P' :: 'C' :: ',' :: _ => some (control .pcIndexed)
  | '$' :: digits => some (control (if 'W' ∈ digits then .absoluteShort else .absoluteLong))
  | '#' :: _ => some immediate
  | _ => none

/-- The mode that a text names. -/
def ofText? (cs : List Char) : Option AddressingMode :=
  ofSpan? (cs.takeWhile isNumeral) (cs.dropWhile isNumeral)

/-- A signed number is all that stands in front of a bracket. -/
theorem span_signedDecimal (z : Int) (cs : List Char) :
    ((Digits.signedDecimal z).toList ++ '(' :: cs).takeWhile isNumeral =
        (Digits.signedDecimal z).toList ∧
      ((Digits.signedDecimal z).toList ++ '(' :: cs).dropWhile isNumeral = '(' :: cs := by
  have hall := isNumeral_of_mem_signedDecimal z
  rw [List.takeWhile_append_of_pos hall, List.dropWhile_append_of_pos hall,
    List.takeWhile_cons_of_neg (by decide), List.dropWhile_cons_of_neg (by decide)]
  exact ⟨List.append_nil _, rfl⟩

theorem span_signedWord (w : Word) (cs : List Char) :
    ((signedWord w).toList ++ '(' :: cs).takeWhile isNumeral = (signedWord w).toList ∧
      ((signedWord w).toList ++ '(' :: cs).dropWhile isNumeral = '(' :: cs :=
  span_signedDecimal _ cs

theorem span_signedByte (w : Word) (cs : List Char) :
    ((signedByte w).toList ++ '(' :: cs).takeWhile isNumeral = (signedByte w).toList ∧
      ((signedByte w).toList ++ '(' :: cs).dropWhile isNumeral = '(' :: cs :=
  span_signedDecimal _ cs

theorem letter_not_mem_hex {width n : Nat} {c : Char} (hc : c ∉ Digits.hexAlphabet) :
    c ∉ (Digits.upperHex width n).toList := by
  rw [Digits.upperHex, String.toList_ofList]
  exact fun h => hc (Digits.mem_hexAlphabet_of_mem_upperHexChars h)

theorem ofText?_of_span {cs lead rest : List Char}
    (h : cs.takeWhile isNumeral = lead ∧ cs.dropWhile isNumeral = rest) :
    ofText? cs = ofSpan? lead rest := by
  rw [ofText?, h.1, h.2]

/-- A text that begins with something else has no number in front. -/
theorem ofText?_cons {c : Char} (h : isNumeral c = false) (cs : List Char) :
    ofText? (c :: cs) = ofSpan? [] (c :: cs) := by
  have hc : ¬ isNumeral c = true := by rw [h]; decide
  exact ofText?_of_span ⟨List.takeWhile_cons_of_neg hc, List.dropWhile_cons_of_neg hc⟩

/-- The modes of a register alone. -/
theorem ofText?_register (n : Fin 8) :
    ofText? ['D', n.val.digitChar] = some (dataDirect n) ∧
    ofText? ['A', n.val.digitChar] = some (addressDirect n) ∧
    ofText? ['(', 'A', n.val.digitChar, ')', '+'] = some (postIncrement n) ∧
    ofText? ['-', '(', 'A', n.val.digitChar, ')'] = some (preDecrement n) ∧
    ofText? ['(', 'A', n.val.digitChar, ')'] = some (control (.indirect n)) := by
  revert n
  decide

/-- The modes that lead to memory and move no register. -/
theorem ofText?_control (mode : ControlMode) (e : Extension) :
    ofText? (mode.text e).toList = some (control mode) := by
  cases mode with
  | indirect n =>
    have htext : (ControlMode.text (.indirect n) e).toList = ['(', 'A', n.val.digitChar, ')'] := by
      simp [ControlMode.text, toList_addressName]
    rw [htext]
    exact (ofText?_register n).2.2.2.2
  | displacement n =>
    have htext : (ControlMode.text (.displacement n) e).toList =
        (signedWord e.word).toList ++ ['(', 'A', n.val.digitChar, ')'] := by
      simp [ControlMode.text, toList_addressName]
    have hword : (signedWord e.word).toList ≠ [] ∧ (signedWord e.word).toList ≠ ['-'] :=
      signedDecimal_ne_minus _
    have hspan (lead : List Char) : ofSpan? lead ['(', 'A', n.val.digitChar, ')'] =
        if lead = [] then (register? n.val.digitChar).map fun n => control (.indirect n)
        else if lead = ['-'] then (register? n.val.digitChar).map preDecrement
        else (register? n.val.digitChar).map fun n => control (.displacement n) := rfl
    rw [htext, ofText?_of_span (span_signedWord _ _), hspan, if_neg hword.1, if_neg hword.2,
      register?_digitChar]
    rfl
  | indexed n =>
    have htext : (ControlMode.text (.indexed n) e).toList =
        (signedByte e.word).toList ++ '(' :: 'A' :: n.val.digitChar :: ',' ::
          ((indexText e.word).toList ++ [')']) := by
      simp [ControlMode.text, toList_addressName]
    rw [htext, ofText?_of_span (span_signedByte _ _)]
    show (register? n.val.digitChar).map _ = _
    rw [register?_digitChar]
    rfl
  | absoluteShort =>
    have htext : (ControlMode.text .absoluteShort e).toList =
        '$' :: ((Digits.upperHex 4 e.word.toNat).toList ++ ['.', 'W']) := by
      simp [ControlMode.text, hex]
    rw [htext, ofText?_cons rfl]
    show some (control (if 'W' ∈ _ then _ else _)) = _
    rw [if_pos (List.mem_append_right _ (by decide))]
  | absoluteLong =>
    have htext : (ControlMode.text .absoluteLong e).toList =
        '$' :: ((Digits.upperHex 8 e.long.toNat).toList ++ ['.', 'L']) := by
      simp [ControlMode.text, hex]
    have hdigits : 'W' ∉ (Digits.upperHex 8 e.long.toNat).toList := letter_not_mem_hex (by decide)
    rw [htext, ofText?_cons rfl]
    show some (control (if 'W' ∈ _ then _ else _)) = _
    rw [if_neg fun h => (List.mem_append.mp h).elim hdigits (by decide)]
  | pcDisplacement =>
    have htext : (ControlMode.text .pcDisplacement e).toList =
        (signedWord e.word).toList ++ ['(', 'P', 'C', ')'] := by
      simp [ControlMode.text]
    rw [htext, ofText?_of_span (span_signedWord _ _)]
    rfl
  | pcIndexed =>
    have htext : (ControlMode.text .pcIndexed e).toList =
        (signedByte e.word).toList ++ '(' :: 'P' :: 'C' :: ',' ::
          ((indexText e.word).toList ++ [')']) := by
      simp [ControlMode.text]
    rw [htext, ofText?_of_span (span_signedByte _ _)]
    rfl

/-- **The mode is read back from its text.** -/
theorem ofText?_text (mode : AddressingMode) (e : Extension) (size : Size) :
    ofText? (mode.text e size).toList = some mode := by
  cases mode with
  | control mode => exact ofText?_control mode e
  | immediate =>
    have htext : (text .immediate e size).toList =
        '#' :: (hex (2 * size.bytes) (size.truncate e.long).toNat).toList := by
      simp [text, literalText]
    rw [htext, ofText?_cons rfl]
    rfl
  | dataDirect n | addressDirect n | postIncrement n | preDecrement n =>
    obtain ⟨hdata, haddress, hpost, hpre, -⟩ := ofText?_register n
    simpa [text, toList_dataName, toList_addressName]

end AddressingMode

theorem Instruction.operandText_of_mode (i : Instruction) {ea : EffectiveAddress}
    {mode : AddressingMode} (h : ea.mode? = some mode) :
    i.operandText (some ea) = mode.text ea.extension i.size := by
  show ea.text i.size = _
  rw [EffectiveAddress.text, h]

/-- **The text of an operand tells its mode**, or that it has none. -/
theorem Instruction.mode_of_operandText (i : Instruction) (ea : Option EffectiveAddress) :
    AddressingMode.ofText? (i.operandText ea).toList = ea.bind (·.mode?) := by
  have hnone : AddressingMode.ofText? "?".toList = none := by decide
  cases ea with
  | none => exact hnone
  | some ea =>
    show AddressingMode.ofText? (ea.text i.size).toList = ea.mode?
    unfold EffectiveAddress.text
    cases ea.mode? with
    | none => exact hnone
    | some mode => exact mode.ofText?_text _ _

namespace Assembly

/-! ## 3. One text, one value -/

theorem signedWord_inj {w v : Word} (h : signedWord w = signedWord v) : w = v :=
  BitVec.eq_of_toInt_eq (Digits.signedDecimal_inj h)

/-- A signed byte tells the low byte. -/
theorem signedByte_inj {w v : Word} (h : signedByte w = signedByte v) :
    w.setWidth 8 = v.setWidth 8 :=
  BitVec.eq_of_toInt_eq (Digits.signedDecimal_inj h)

theorem hex_inj {width n m : Nat} (h : hex width n = hex width m) : n = m :=
  Digits.upperHex_inj ((String.append_right_inj "$").mp h)

theorem literalText_inj {size : Size} {v u : Long} (h : literalText size v = literalText size u) :
    size.truncate v = size.truncate u :=
  BitVec.eq_of_toNat_eq (hex_inj ((String.append_right_inj "#").mp h))

theorem dataName_inj {n m : Fin 8} (h : dataName n = dataName m) : n = m := by
  have hchars := congrArg String.toList h
  rw [toList_dataName, toList_dataName] at hchars
  have hread := congrArg register? (List.cons.inj (List.cons.inj hchars).2).1
  rwa [register?_digitChar, register?_digitChar, Option.some_inj] at hread

theorem addressName_inj {n m : Fin 8} (h : addressName n = addressName m) : n = m := by
  have hchars := congrArg String.toList h
  rw [toList_addressName, toList_addressName] at hchars
  have hread := congrArg register? (List.cons.inj (List.cons.inj hchars).2).1
  rwa [register?_digitChar, register?_digitChar, Option.some_inj] at hread

theorem dataName_ne_addressName (n m : Fin 8) : dataName n ≠ addressName m := by
  intro h
  have hchars := congrArg String.toList h
  rw [toList_dataName, toList_addressName] at hchars
  exact absurd (List.cons.inj hchars).1 (by decide)

/-- An index text tells the register, its kind and the width that counts. -/
theorem indexText_inj {w v : Word} (h : indexText w = indexText v) :
    w.extractLsb' 12 3 = v.extractLsb' 12 3 ∧ w.getLsbD 15 = v.getLsbD 15 ∧
      w.getLsbD 11 = v.getLsbD 11 := by
  have hpieces : ∀ (n m : BitVec 3) (isAddress isAddress' isLong isLong' : Bool),
      (if isAddress then addressName n.toFin else dataName n.toFin) ++
          (if isLong then ".L" else ".W") =
        (if isAddress' then addressName m.toFin else dataName m.toFin) ++
          (if isLong' then ".L" else ".W") →
      n = m ∧ isAddress = isAddress' ∧ isLong = isLong' := by
    decide
  exact hpieces _ _ _ _ _ _ h

end Assembly

/-! ## 4. Where an operand leads -/

/-- Two words with the same index text and the same displacement lead to the same place. -/
theorem indexedAddress_congr {w v : Word} (hindex : indexText w = indexText v)
    (hbyte : signedByte w = signedByte v) (r : Registers) (base : Address) :
    indexedAddress r base w = indexedAddress r base v := by
  obtain ⟨hn, haddress, hlong⟩ := indexText_inj hindex
  have hdisplacement : w.byteDisplacement = v.byteDisplacement := by
    unfold Word.byteDisplacement
    rw [signedByte_inj hbyte]
  unfold indexedAddress
  rw [hn, haddress, hlong, hdisplacement]

/-- A signed number and what stands in brackets behind it are told apart. -/
theorem signedDecimal_append_inj {z y : Int} {cs ds : List Char}
    (h : (Digits.signedDecimal z).toList ++ '(' :: cs =
      (Digits.signedDecimal y).toList ++ '(' :: ds) :
    Digits.signedDecimal z = Digits.signedDecimal y ∧ cs = ds := by
  have hbracket (x : Int) : '(' ∉ (Digits.signedDecimal x).toList := fun hmem =>
    absurd (isNumeral_of_mem_signedDecimal _ _ hmem) (by decide)
  obtain ⟨hnumber, hrest⟩ := append_cons_inj (hbracket z) (hbracket y) h
  exact ⟨String.toList_inj.mp hnumber, hrest⟩

variable {e f : Extension}

/-- **One control mode with one text leads to one address.** -/
theorem ControlMode.address_congr (mode : ControlMode) (haddress : e.address = f.address)
    (htext : mode.text e = mode.text f) : mode.address e = mode.address f := by
  funext r
  cases mode with
  | indirect n => rfl
  | displacement n =>
    have hword : e.word = f.word := signedWord_inj (by simpa [text] using htext)
    rw [address, address, hword]
  | indexed n =>
    have hchars : (signedByte e.word).toList ++
          '(' :: ((addressName n).toList ++ ',' :: ((indexText e.word).toList ++ [')'])) =
        (signedByte f.word).toList ++
          '(' :: ((addressName n).toList ++ ',' :: ((indexText f.word).toList ++ [')'])) := by
      simpa [text] using congrArg String.toList htext
    obtain ⟨hbyte, hindex⟩ := signedDecimal_append_inj hchars
    exact indexedAddress_congr (String.toList_inj.mp (by simpa using hindex)) hbyte r _
  | absoluteShort =>
    have hword : e.word = f.word := BitVec.eq_of_toNat_eq (hex_inj (by simpa [text] using htext))
    rw [address, address, hword]
  | absoluteLong =>
    have hlong : e.long = f.long := BitVec.eq_of_toNat_eq (hex_inj (by simpa [text] using htext))
    rw [address, address, hlong]
  | pcDisplacement =>
    have hword : e.word = f.word := signedWord_inj (by simpa [text] using htext)
    rw [address, address, hword, haddress]
  | pcIndexed =>
    have hchars : (signedByte e.word).toList ++
          '(' :: 'P' :: 'C' :: ',' :: ((indexText e.word).toList ++ [')']) =
        (signedByte f.word).toList ++
          '(' :: 'P' :: 'C' :: ',' :: ((indexText f.word).toList ++ [')']) := by
      simpa [text] using congrArg String.toList htext
    obtain ⟨hbyte, hindex⟩ := signedDecimal_append_inj hchars
    rw [address, address, haddress]
    exact indexedAddress_congr (String.toList_inj.mp (by simpa using hindex)) hbyte r _

/-- A single word is the low half of a long. -/
theorem Extension.long_of_size_one (h : e.size = 1) : e.long = e.word.setWidth 32 := by
  rcases e with ⟨a, _ | w | ⟨high, low⟩⟩
  · cases h
  · rfl
  · cases h

/-- **One mode with one text leads to one operand.** -/
theorem AddressingMode.operand_congr (mode : AddressingMode) {size : Size}
    (haddress : e.address = f.address) (he : e.size = mode.extensionWords size)
    (hf : f.size = mode.extensionWords size) (htext : mode.text e size = mode.text f size) :
    mode.operand e size = mode.operand f size := by
  funext r
  rcases mode with n | n | n | n | mode | _
  case control => rw [operand, operand, mode.address_congr haddress htext]
  case immediate =>
    have hvalue := literalText_inj htext
    rw [operand, operand]
    by_cases hlong : size = .long
    · subst hlong
      rw [Size.truncate_long, Size.truncate_long] at hvalue
      rw [if_pos rfl, if_pos rfl, hvalue]
    · have hone : immediate.extensionWords size = 1 := by
        cases size
        · rfl
        · rfl
        · exact absurd rfl hlong
      rw [if_neg hlong, if_neg hlong, ← Extension.long_of_size_one (he.trans hone),
        ← Extension.long_of_size_one (hf.trans hone), hvalue]
  all_goals rfl

end Mc68000
