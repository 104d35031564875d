import Mc68000.Proofs.Assembly.Parts
import Mc68000.Proofs.Listing.Walk

/-!
# Reading a line of a listing back

* `tokens` -- the runs without blanks of a text; `tokens_append_blank`, `tokens_intercalate` -- what
  blanks part stays apart;
* `Row.Named` -- the text of a row begins with a name; `named_of_rowAt` -- so it does in a listing;
* `Row.ReadsBack` -- a line gives back the address and the words of its row, and the text after them;
* `Row.RunsTogether` -- the last word and the name of the instruction are one token;
* `line_reads_back` -- **a line reads back exactly if the row has at most four words**;
* `line_of_long_move` -- a row of five words.

Four words with blanks between them take 19 characters and leave five blanks of the column. Five
words fill all of its 24 characters.
-/

namespace Mc68000.Listing

/-! ## 1. Tokens -/

/-- The longest runs without blanks in a text. -/
def tokens (s : String) : List String :=
  ((s.toList.splitOnP Char.isWhitespace).filter (· ≠ [])).map String.ofList

/-- A text of at least one character, none of them a blank. -/
structure Solid (s : String) : Prop where
  ne_empty : s ≠ ""
  not_blank : ∀ c ∈ s.toList, c.isWhitespace = false

theorem Solid.append {s t : String} (hs : Solid s) (ht : Solid t) : Solid (s ++ t) where
  ne_empty := by simp [hs.ne_empty]
  not_blank := by
    intro c hc
    rw [String.toList_append, List.mem_append] at hc
    exact hc.elim (hs.not_blank c) (ht.not_blank c)

theorem ne_empty_of_mem_tokens {s t : String} (h : s ∈ tokens t) : s ≠ "" := by
  obtain ⟨cs, hcs, rfl⟩ := List.mem_map.mp h
  exact fun hempty => of_decide_eq_true (List.mem_filter.mp hcs).2
    (String.ofList_eq_empty_iff.mp hempty)

theorem tokens_empty : tokens "" = [] := by
  simp [tokens]

/-- **A blank parts the tokens** before it from those behind it. -/
theorem tokens_append_blank (s t : String) : tokens (s ++ " " ++ t) = tokens s ++ tokens t := by
  have hchars : (s ++ " " ++ t).toList = s.toList ++ ' ' :: t.toList := by simp
  rw [tokens, hchars, List.splitOnP_append_cons _ _ rfl, List.filter_append, List.map_append]
  rfl

theorem tokens_blank (t : String) : tokens (" " ++ t) = tokens t := by
  have h := tokens_append_blank "" t
  rwa [String.empty_append, tokens_empty, List.nil_append] at h

theorem tokens_of_solid {s : String} (h : Solid s) : tokens s = [s] := by
  have hne : s.toList ≠ [] := fun hnil => h.ne_empty (String.toList_eq_nil_iff.mp hnil)
  rw [tokens, List.splitOnP_eq_singleton fun c hc => by simp [h.not_blank c hc]]
  simp [hne]

/-- Solid texts with blanks between them are the tokens. -/
theorem tokens_intercalate {ss : List String} (h : ∀ s ∈ ss, Solid s) :
    tokens (" ".intercalate ss) = ss := by
  induction ss with
  | nil => exact tokens_empty
  | cons s ss ih =>
    have hs := h s List.mem_cons_self
    have hss := ih fun t ht => h t (List.mem_cons_of_mem _ ht)
    by_cases hne : ss = []
    · rw [hne, String.intercalate_singleton, tokens_of_solid hs]
    · rw [String.intercalate_cons_of_ne_nil hne, tokens_append_blank, hss, tokens_of_solid hs]
      rfl

/-- A run of blanks. -/
def blanks (count : Nat) : String := String.ofList (List.replicate count ' ')

theorem blanks_zero : blanks 0 = "" := rfl

theorem blanks_succ (count : Nat) : blanks (count + 1) = " " ++ blanks count := by
  rw [blanks, List.replicate_succ, String.ofList_cons]
  rfl

theorem tokens_blanks (count : Nat) (t : String) : tokens (blanks count ++ t) = tokens t := by
  induction count with
  | zero => rw [blanks_zero, String.empty_append]
  | succ count ih => rw [blanks_succ, String.append_assoc, tokens_blank, ih]

/-! ## 2. The parts of a line -/

/-- A text is the given number in so many base-sixteen digits. -/
structure IsHex (width n : Nat) (s : String) : Prop where
  length_eq : s.length = width
  value_eq : Digits.value? 16 Digits.ofHexChar? s.toList = some n

theorem isHex_upperHex {width n : Nat} (hwidth : 0 < width) (hn : n < 16 ^ width) :
    IsHex width n (Digits.upperHex width n) where
  length_eq := by
    rw [← String.length_toList, Digits.upperHex, String.toList_ofList]
    exact Digits.length_upperHexChars hwidth hn
  value_eq := by
    rw [Digits.upperHex, String.toList_ofList]
    exact Digits.value?_upperHexChars width n

theorem solid_upperHex (width n : Nat) : Solid (Digits.upperHex width n) where
  ne_empty := fun hempty => Digits.upperHexChars_ne_nil width n
    (String.ofList_eq_empty_iff.mp hempty)
  not_blank := by
    have halphabet : "0123456789ABCDEF".toList.all (fun c => !c.isWhitespace) = true := by decide
    intro c hc
    rw [Digits.upperHex, String.toList_ofList] at hc
    exact Assembly.not_isWhitespace_of_all halphabet c
      (Digits.mem_hexAlphabet_of_mem_upperHexChars hc)

/-- A text is a name, and a blank stands between the name and the rest. -/
structure Named (s name rest : String) : Prop where
  eq_append : s = name ++ rest
  solid : Solid name
  parted : rest = "" ∨ ∃ t, rest = " " ++ t

/-- What stands solidly before a name is one token with it. -/
theorem Named.tokens_append {s t name rest : String} (h : Named t name rest)
    (hs : s = "" ∨ Solid s) : tokens (s ++ t) = (s ++ name) :: tokens rest := by
  have hsolid : Solid (s ++ name) := by
    rcases hs with rfl | hs
    · rw [String.empty_append]
      exact h.solid
    · exact hs.append h.solid
  rw [h.eq_append, ← String.append_assoc]
  obtain rfl | ⟨t, rfl⟩ := h.parted
  · rw [String.append_empty, tokens_of_solid hsolid, tokens_empty]
  · rw [← String.append_assoc, tokens_append_blank, tokens_of_solid hsolid, tokens_blank]
    rfl

/-- A named text has its name as its first token. -/
theorem Named.tokens_eq {t name rest : String} (h : Named t name rest) :
    tokens t = name :: tokens rest := by
  have hempty := h.tokens_append (.inl rfl)
  rwa [String.empty_append, String.empty_append] at hempty

/-- The text of an instruction begins with its name. -/
theorem named_text (i : Instruction) :
    Named i.text i.head (Assembly.tail i.operandTexts) where
  eq_append := i.text_eq
  solid :=
    { ne_empty := by
        have hmnemonic : i.operation.mnemonic ≠ "" := (Assembly.capital_mnemonic _).1
        simp [Instruction.head, hmnemonic]
      not_blank := Assembly.not_isWhitespace_head i }
  parted := by
    unfold Assembly.tail
    split
    · exact .inl rfl
    · exact .inr ⟨_, rfl⟩

/-- The text of a row in a listing begins with a name. -/
theorem named_of_rowAt {c : Code} {a : Address} {row : Row} (h : rowAt c a = some row) :
    ∃ name rest, Named row.text name rest := by
  obtain ⟨i, -, -, rfl⟩ | ⟨-, -, rfl⟩ := rowAt_cases h
  · exact ⟨_, _, named_text i⟩
  · exact ⟨"DC.W", " " ++ Assembly.hex 4 (c.memory.wordAt a.toNat).toNat,
      { eq_append := by rw [← String.append_assoc]; rfl
        solid := ⟨by decide, Assembly.not_isWhitespace_of_all (by decide)⟩
        parted := .inr ⟨_, rfl⟩ }⟩

/-! ## 3. The line of a row -/

namespace Row

variable {row : Row}

/-- The address of a row as text. -/
def addressText (row : Row) : String := Digits.upperHex 8 row.address.toNat

/-- The words of a row as texts. -/
def wordTexts (row : Row) : List String := row.words.map fun w => Digits.upperHex 4 w.toNat

theorem solid_addressText (row : Row) : Solid row.addressText := solid_upperHex 8 _

theorem solid_wordTexts (row : Row) : ∀ s ∈ row.wordTexts, Solid s := by
  intro s hs
  obtain ⟨w, -, rfl⟩ := List.mem_map.mp hs
  exact solid_upperHex 4 w.toNat

/-- Each word takes four digits and a blank, the last one no blank. -/
theorem length_wordsText (h : row.words ≠ []) : row.wordsText.length + 1 = 5 * row.words.length := by
  have hlength (w : Word) : (Digits.upperHex 4 w.toNat).length = 4 :=
    (isHex_upperHex (by decide) w.isLt).length_eq
  obtain ⟨address, words, text, isData⟩ := row
  simp only [wordsText]
  induction words with
  | nil => exact absurd rfl h
  | cons w words ih =>
    by_cases hne : words = []
    · rw [hne]
      simp [hlength]
    · have hrest := ih hne
      rw [List.map_cons, String.intercalate_cons_of_ne_nil (by simpa using hne)]
      simp only [String.length_append, hlength, List.length_cons]
      have hblank : " ".length = 1 := rfl
      omega

/-- The line of a row, with the blanks that fill its column. -/
theorem line_eq (row : Row) :
    row.line = row.addressText ++ "  " ++ row.wordsText ++
      blanks (24 - row.wordsText.length) ++ row.text := by
  rw [line, blankFill, ← String.append_assoc]
  rfl

/-- The tokens of a line begin with the address. -/
theorem tokens_line (row : Row) :
    tokens row.line = row.addressText ::
      tokens (row.wordsText ++ (blanks (24 - row.wordsText.length) ++ row.text)) := by
  have hparts : row.line = row.addressText ++ " " ++
      (" " ++ (row.wordsText ++ (blanks (24 - row.wordsText.length) ++ row.text))) := by
    rw [line_eq]
    simp only [String.append_assoc]
    rfl
  rw [hparts, tokens_append_blank, tokens_blank, tokens_of_solid row.solid_addressText]
  rfl

/-- What the line of a row gives back. -/
structure ReadsBack (row : Row) : Prop where
  address_digits : IsHex 8 row.address.toNat row.addressText
  word_digits : ∀ w ∈ row.words, IsHex 4 w.toNat (Digits.upperHex 4 w.toNat)
  /-- The line is the address, the words with single blanks between them and the text, with a
      blank at least between the words and the text. -/
  layout : ∃ gap, 0 < gap ∧
    row.line = row.addressText ++ "  " ++ " ".intercalate row.wordTexts ++ blanks gap ++ row.text
  /-- The tokens of the line are the address, the words and the tokens of the text. -/
  tokens_eq : tokens row.line = row.addressText :: (row.wordTexts ++ tokens row.text)
  /-- The text begins with its first token. -/
  starts : ∃ name rest, row.text = name ++ rest ∧ tokens row.text = name :: tokens rest

/-- The last word of a row and the name in its text are one token. -/
def RunsTogether (row : Row) : Prop :=
  ∃ texts last name rest, row.wordTexts = texts ++ [last] ∧ row.text = name ++ rest ∧
    tokens row.text = name :: tokens rest ∧
    tokens row.line = row.addressText :: (texts ++ (last ++ name) :: tokens rest)

variable {name rest : String}

/-- Up to four words leave room for a blank. -/
theorem readsBack_of_le (hne : row.words ≠ []) (h : row.words.length ≤ 4)
    (hname : Named row.text name rest) : row.ReadsBack where
  address_digits := isHex_upperHex (by decide) row.address.isLt
  word_digits := fun w _ => isHex_upperHex (by decide) w.isLt
  layout := by
    have hlength := length_wordsText hne
    exact ⟨24 - row.wordsText.length, by omega, row.line_eq⟩
  tokens_eq := by
    have hlength := length_wordsText hne
    obtain ⟨gap, hgap⟩ : ∃ gap, 24 - row.wordsText.length = gap + 1 :=
      Nat.exists_eq_succ_of_ne_zero (by omega)
    have hparts : row.wordsText ++ (blanks (gap + 1) ++ row.text) =
        row.wordsText ++ " " ++ (blanks gap ++ row.text) := by
      rw [blanks_succ]
      simp only [String.append_assoc]
    rw [tokens_line, hgap, hparts, tokens_append_blank, tokens_blanks]
    exact congrArg (_ :: · ++ _) (tokens_intercalate row.solid_wordTexts)
  starts := ⟨name, rest, hname.eq_append, hname.tokens_eq⟩

/-- **Five words fill the column**, and the text follows without a blank. -/
theorem runsTogether_of_five (h : row.words.length = 5) (hname : Named row.text name rest) :
    row.RunsTogether := by
  have hne : row.words ≠ [] := List.ne_nil_of_length_pos (by omega)
  have hlength := length_wordsText hne
  have hfull : 24 - row.wordsText.length = 0 := by omega
  have hcount : row.wordTexts.length = 5 := by rw [wordTexts, List.length_map, h]
  obtain ⟨texts, last, htexts⟩ : ∃ texts last, row.wordTexts = texts ++ [last] :=
    List.eq_nil_or_concat' _ |>.resolve_left fun hnil => by rw [hnil] at hcount; cases hcount
  have hmany : texts ≠ [] := by
    rintro rfl
    rw [htexts] at hcount
    cases hcount
  have hsolid := row.solid_wordTexts
  rw [htexts] at hsolid
  have hwords : row.wordsText = " ".intercalate texts ++ " " ++ last := by
    show " ".intercalate row.wordTexts = _
    rw [htexts, String.intercalate_append_of_ne_nil hmany (List.cons_ne_nil _ _),
      String.intercalate_singleton]
  refine ⟨texts, last, name, rest, htexts, hname.eq_append, hname.tokens_eq, ?_⟩
  have hlast : tokens (last ++ row.text) = (last ++ name) :: tokens rest :=
    hname.tokens_append (.inr (hsolid last (by simp)))
  rw [tokens_line, hfull, hwords, blanks_zero, String.empty_append, String.append_assoc,
    tokens_append_blank, hlast,
    tokens_intercalate fun s hs => hsolid s (List.mem_append_left _ hs)]

/-- A row whose last word and text run together is not read back. -/
theorem RunsTogether.not_readsBack (h : row.RunsTogether) : ¬ row.ReadsBack := by
  obtain ⟨texts, last, name, rest, htexts, -, htext, hline⟩ := h
  intro hback
  have htokens := hback.tokens_eq
  rw [hline, htexts, htext, List.append_assoc] at htokens
  have hlast : last ++ name = last :=
    (List.cons.inj (List.append_cancel_left (List.cons.inj htokens).2)).1
  have hname : name ≠ "" := ne_empty_of_mem_tokens (t := row.text) (by rw [htext]; simp)
  exact hname (String.append_eq_left_iff.mp hlast)

end Row

/-- **The line of a row reads back** exactly if the row has at most four words. In a row of five
    words the last one runs together with the name of the instruction. -/
theorem line_reads_back (memory : Memory) (start stop : Address) (rows : List Row)
    (h : rows? memory start stop = some rows) : ∀ row ∈ rows,
      (row.ReadsBack ↔ row.words.length ≤ 4) ∧ (row.words.length = 5 → row.RunsTogether) := by
  intro row hrow
  obtain ⟨b, hwalk, -⟩ := walk_of_rows? h
  have hshows := hwalk.shows row hrow
  have hpos := hshows.count_pos
  have hcount := hshows.count_le
  obtain ⟨name, rest, hname⟩ := named_of_rowAt (hwalk.rowAt_eq row hrow).2.1
  have htogether (hfive : row.words.length = 5) : row.RunsTogether :=
    Row.runsTogether_of_five hfive hname
  refine ⟨⟨fun hback => ?_, fun hle => ?_⟩, htogether⟩
  · by_contra hmore
    exact (htogether (by omega)).not_readsBack hback
  · exact Row.readsBack_of_le (List.ne_nil_of_length_pos hpos) hle hname

/-- A `NOP` and `MOVE.L #$DEADBEEF,$1000.L`, five words. -/
def longMove : Memory :=
  (Memory.zeros 12).setBytes 0
    [0x4E, 0x71, 0x23, 0xFC, 0xDE, 0xAD, 0xBE, 0xEF, 0x00, 0x00, 0x10, 0x00]

def nopRow : Row := { address := 0, words := [0x4E71], text := "NOP", isData := false }

def longMoveRow : Row :=
  { address := 2, words := [0x23FC, 0xDEAD, 0xBEEF, 0x0000, 0x1000]
    text := "MOVE.L #$DEADBEEF,$00001000.L", isData := false }

theorem rows?_longMove : rows? longMove 0 12 = some [nopRow, longMoveRow] := by
  have hfirst : rowAt ⟨longMove, 12⟩ 0 = some nopRow := by decide +kernel
  have hsecond : rowAt ⟨longMove, 12⟩ 2 = some longMoveRow := by decide +kernel
  rw [rows?, rowsFrom?, if_pos (by decide), hfirst]
  show (if 0 < (2 : Address) then rowsFrom? _ #[nopRow] 2 else none) = _
  rw [if_pos (by decide), rowsFrom?, if_pos (by decide), hsecond]
  show (if 2 < (12 : Address) then rowsFrom? _ #[nopRow, longMoveRow] 12 else none) = _
  rw [if_pos (by decide), rowsFrom?, if_neg (by decide)]

/-- The line of the `NOP` reads back. That of the other instruction does not. -/
theorem line_reads_back_longMove :
    rows? longMove 0 12 = some [nopRow, longMoveRow] ∧ nopRow.ReadsBack ∧
      ¬ longMoveRow.ReadsBack ∧ longMoveRow.RunsTogether := by
  have hrows := line_reads_back longMove 0 12 _ rows?_longMove
  obtain ⟨hnop, -⟩ := hrows nopRow (by simp)
  obtain ⟨hmove, htogether⟩ := hrows longMoveRow (by simp)
  exact ⟨rows?_longMove, hnop.mpr (by decide), fun hback => absurd (hmove.mp hback) (by decide),
    htogether rfl⟩

/-- **A listing can have a line that does not read back.** -/
theorem line_of_long_move :
    ∃ rows, rows? longMove 0 12 = some rows ∧ ∃ row ∈ rows,
      row.line = "00000002  23FC DEAD BEEF 0000 1000MOVE.L #$DEADBEEF,$00001000.L" ∧
        ¬ row.ReadsBack := by
  have hname : Named longMoveRow.text "MOVE.L" " #$DEADBEEF,$00001000.L" :=
    { eq_append := by decide
      solid := ⟨by decide, Assembly.not_isWhitespace_of_all (by decide)⟩
      parted := .inr ⟨"#$DEADBEEF,$00001000.L", by decide⟩ }
  refine ⟨_, rows?_longMove, longMoveRow, by simp, by decide +kernel, ?_⟩
  exact (Row.runsTogether_of_five rfl hname).not_readsBack

end Mc68000.Listing
