import Mc68000.Proofs.InstructionLength
import Mc68000.Proofs.Numerals
import Mc68000.Assembly.Listing

/-!
# A listing as a walk through memory

* `rowAt_cases`, `rowAt_eq_none_iff` -- what a row can be, and where there is none;
* `Row.Shows` -- the words of a row are those in memory from its address on;
  `Row.Shows.readable_eq` -- and all of them can be read again;
* `Walk` -- rows one after the other, each below the end of the code and each from where the one
  before it stops; `rowsFrom?_cases` -- **a listing is a walk** that goes on until it has to rest,
  or turns over at the top of the address space;
* `Tiles`, `Row.Tells` -- what a walk says of memory, and a row of the fetch at its address;
* `rows_tile` -- **a listing tells all words from its start on**, none twice and none left out.
-/

namespace Mc68000.Listing

variable {c : Code} {a b : Address} {row : Row} {rows : List Row}

/-! ## 1. One row -/

/-- An instruction of the code begins at an address. -/
def BeginsInstruction (c : Code) (a : Address) : Prop := ∃ i b, c.fetch a = .ok (some i) b

theorem rowAt_of_fetch {i : Instruction} (h : c.fetch a = .ok (some i) b) :
    rowAt c a = some (instructionRow i) := by
  rw [rowAt, h]

theorem rowAt_of_not_begins (h : ¬ BeginsInstruction c a) :
    rowAt c a =
      if accessible a .word c.memory.capacity then some (dataRow a (c.memory.wordAt a.toNat))
      else none := by
  unfold rowAt
  split
  · rename_i i b hfetch
    exact absurd ⟨i, b, hfetch⟩ h
  · rw [Memory.readWord_eq]
    by_cases hin : accessible a .word c.memory.capacity = true
    · rw [if_pos hin, if_pos hin]
    · rw [if_neg hin, if_neg hin]

/-- **A row is an instruction or one word of data.** -/
theorem rowAt_cases (h : rowAt c a = some row) :
    (∃ i b, c.fetch a = .ok (some i) b ∧ row = instructionRow i) ∨
      (¬ BeginsInstruction c a ∧ accessible a .word c.memory.capacity = true ∧
        row = dataRow a (c.memory.wordAt a.toNat)) := by
  by_cases hbegins : BeginsInstruction c a
  · obtain ⟨i, b, hfetch⟩ := hbegins
    rw [rowAt_of_fetch hfetch] at h
    exact .inl ⟨i, b, hfetch, (Option.some.inj h).symm⟩
  · rw [rowAt_of_not_begins hbegins] at h
    split at h
    · rename_i hin
      exact .inr ⟨hbegins, hin, (Option.some.inj h).symm⟩
    · cases h

/-- An instruction begins only where a word can be read. -/
theorem accessible_of_begins (h : BeginsInstruction c a) :
    accessible a .word c.memory.capacity = true := by
  obtain ⟨i, b, hfetch⟩ := h
  obtain ⟨_, _, ⟨g⟩⟩ := Code.groups_of_fetch hfetch
  cases g.opcode_stream with
  | cons _ hin _ _ => exact hin

/-- There is no row exactly where no word can be read. -/
theorem rowAt_eq_none_iff :
    rowAt c a = none ↔ c.memory.readWord a = .error .addressError := by
  rw [Memory.readWord_eq]
  by_cases hbegins : BeginsInstruction c a
  · rw [if_pos (accessible_of_begins hbegins)]
    obtain ⟨i, b, hfetch⟩ := hbegins
    simp [rowAt_of_fetch hfetch]
  · rw [rowAt_of_not_begins hbegins]
    split <;> simp

/-- What a row shows: one to five words, those that the store holds from its address on. -/
structure Row.Shows (c : Code) (row : Row) : Prop where
  count_pos : 1 ≤ row.words.length
  count_le : row.words.length ≤ 5
  aligned : row.address.toNat % 2 = 0
  inside : row.address.toNat + 2 * row.words.length ≤ c.memory.capacity
  word_eq : ∀ k (hk : k < row.words.length),
    row.words[k] = c.memory.wordAt (row.address.toNat + 2 * k)

theorem shows_instructionRow {i : Instruction} (h : c.fetch a = .ok (some i) b) :
    (instructionRow i).Shows c := by
  have hf := Code.fetch_faithful h
  have hmoves := Code.fetch_moves h
  have hlength := Code.lengthOf_mem (c.memory.wordAt a.toNat)
  have hnext := hf.next_eq
  have hwords := hf.length_eq
  simp only [List.mem_cons, List.not_mem_nil, or_false] at hlength
  have haccess := accessible_of_begins ⟨i, b, h⟩
  have haddress : (instructionRow i).address = a := hf.address_eq
  exact
    { count_pos := by show 1 ≤ i.words.length; omega
      count_le := by show i.words.length ≤ 5; omega
      aligned := by rw [haddress]; exact (Code.accessible_word_iff.mp haccess).1
      inside := by
        have hcap := hf.next_le_capacity
        show i.address.toNat + 2 * i.words.length ≤ c.memory.capacity
        rw [hf.address_eq]
        omega
      word_eq := by rw [haddress]; exact hf.word_eq }

theorem shows_dataRow (h : accessible a .word c.memory.capacity = true) :
    (dataRow a (c.memory.wordAt a.toNat)).Shows c := by
  obtain ⟨haligned, hinside⟩ := Code.accessible_word_iff.mp h
  refine ⟨Nat.le_refl 1, Nat.le_add_left 1 4, haligned, hinside, fun k hk => ?_⟩
  obtain rfl : k = 0 := Nat.lt_one_iff.mp hk
  rfl

theorem shows_of_rowAt (h : rowAt c a = some row) : row.address = a ∧ row.Shows c := by
  obtain ⟨i, b, hfetch, rfl⟩ | ⟨-, hin, rfl⟩ := rowAt_cases h
  · exact ⟨(Code.fetch_faithful hfetch).address_eq, shows_instructionRow hfetch⟩
  · exact ⟨rfl, shows_dataRow hin⟩

/-- No row reaches past the last address. -/
theorem end_le_count (h : rowAt c a = some row) :
    row.address.toNat + 2 * row.words.length ≤ Long.count := by
  obtain ⟨haddress, hshows⟩ := shows_of_rowAt h
  obtain ⟨i, b, hfetch, rfl⟩ | ⟨-, -, rfl⟩ := rowAt_cases h
  · have hf := Code.fetch_faithful hfetch
    have hwords : (instructionRow i).words.length = i.words.length := rfl
    have hb : b.toNat < Long.count := b.isLt
    have := hf.next_eq
    have := hf.length_eq
    rw [haddress]
    omega
  · have hwords : (dataRow a (c.memory.wordAt a.toNat)).words.length = 1 := rfl
    have haligned := hshows.aligned
    have ha : (dataRow a (c.memory.wordAt a.toNat)).address.toNat < Long.count := a.isLt
    unfold Long.count at *
    omega

/-- The row of an instruction ends below the end of the code. That of a data word may end one byte
    past it, for only its first byte has to lie below. -/
theorem end_le_of_rowAt (h : rowAt c a = some row) (hbelow : a < c.codeEnd) :
    a.toNat + 2 * row.words.length ≤ c.codeEnd.toNat ∨
      (a.toNat + 1 = c.codeEnd.toNat ∧ row.words.length = 1) := by
  obtain ⟨i, b, hfetch, rfl⟩ | ⟨-, -, rfl⟩ := rowAt_cases h
  · have hf := Code.fetch_faithful hfetch
    have hwords : (instructionRow i).words.length = i.words.length := rfl
    have := hf.next_le_codeEnd
    have := hf.next_eq
    have := hf.length_eq
    exact .inl (by omega)
  · have hwords : (dataRow a (c.memory.wordAt a.toNat)).words.length = 1 := rfl
    have hlt : a.toNat < c.codeEnd.toNat := hbelow
    omega

/-- The words that can be read at so many places from an address on. -/
def readable (c : Code) (a : Address) (count : Nat) : List Word :=
  (List.range count).filterMap fun k => (c.memory.readWord (a + BitVec.ofNat 32 (2 * k))).toOption

/-- The words of a row that does not reach past the last address can be read again. -/
theorem Row.Shows.readable_eq (h : row.Shows c)
    (htop : row.address.toNat + 2 * row.words.length ≤ Long.count) :
    readable c row.address row.words.length = row.words := by
  have hread (k : Nat) (hk : k < row.words.length) :
      c.memory.readWord (row.address + BitVec.ofNat 32 (2 * k)) = .ok row.words[k] := by
    have hplace : (row.address + BitVec.ofNat 32 (2 * k)).toNat = row.address.toNat + 2 * k := by
      rw [BitVec.toNat_add, BitVec.toNat_ofNat]
      unfold Long.count at htop
      omega
    have haligned := h.aligned
    have hinside := h.inside
    have hin : accessible (row.address + BitVec.ofNat 32 (2 * k)) .word c.memory.capacity = true :=
      Code.accessible_word_iff.mpr (by rw [hplace]; omega)
    rw [Memory.readWord_eq, if_pos hin, hplace, h.word_eq k hk]
  have hwords : (List.range row.words.length).map (fun k =>
      (c.memory.readWord (row.address + BitVec.ofNat 32 (2 * k))).toOption) =
        row.words.map some := by
    refine List.ext_getElem (by simp) fun k hk _ => ?_
    have hk : k < row.words.length := by simpa using hk
    simp only [List.getElem_map, List.getElem_range, hread k hk]
    rfl
  calc readable c row.address row.words.length
      = ((List.range row.words.length).map fun k =>
          (c.memory.readWord (row.address + BitVec.ofNat 32 (2 * k))).toOption).filterMap id := by
        rw [List.filterMap_map]
        rfl
    _ = row.words := by
        rw [hwords, List.filterMap_map]
        exact List.filterMap_some

/-! ## 2. Walks -/

/-- Rows one after the other, from one address to another. -/
inductive Walk (c : Code) : Address → List Row → Address → Prop where
  | nil (a : Address) : Walk c a [] a
  | cons {a b : Address} {row : Row} {rows : List Row} (hbelow : a < c.codeEnd)
      (hrow : rowAt c a = some row) (hrises : a < row.nextAddress)
      (hrest : Walk c row.nextAddress rows b) : Walk c a (row :: rows) b

/-- A walk goes no further: the code ends, or no word can be read. -/
def Rests (c : Code) (a : Address) : Prop := c.codeEnd ≤ a ∨ rowAt c a = none

/-- The next row would lead back to a lower address. -/
def TurnsOver (c : Code) (a : Address) : Prop :=
  a < c.codeEnd ∧ ∃ row, rowAt c a = some row ∧ row.nextAddress ≤ a

/-- **A listing is a walk** to where it rests; it has no end if the walk turns over. -/
theorem rowsFrom?_cases (c : Code) (acc : Array Row) (a : Address) :
    ∃ listed b, Walk c a listed b ∧
      ((Rests c b ∧ rowsFrom? c acc a = some (acc.toList ++ listed)) ∨
        (TurnsOver c b ∧ rowsFrom? c acc a = none)) := by
  fun_induction rowsFrom? c acc a with
  | case1 acc a hbelow hnone =>
    exact ⟨[], a, .nil a, .inl ⟨.inr hnone, by rw [List.append_nil]⟩⟩
  | case2 acc a hbelow row hrow hrises ih =>
    obtain ⟨listed, b, hwalk, hend⟩ := ih
    refine ⟨row :: listed, b, .cons hbelow hrow hrises hwalk, ?_⟩
    rwa [Array.toList_push, List.append_assoc] at hend
  | case3 acc a hbelow row hrow hturns =>
    exact ⟨[], a, .nil a, .inr ⟨⟨hbelow, row, hrow, BitVec.not_lt.mp hturns⟩, rfl⟩⟩
  | case4 acc a hpast =>
    exact ⟨[], a, .nil a, .inl ⟨.inl (BitVec.not_lt.mp hpast), by rw [List.append_nil]⟩⟩

/-- The rows of a listing are a walk that rests. -/
theorem walk_of_rows? {memory : Memory} {start stop : Address}
    (h : rows? memory start stop = some rows) :
    ∃ b, Walk ⟨memory, stop⟩ start rows b ∧ Rests ⟨memory, stop⟩ b := by
  obtain ⟨listed, b, hwalk, ⟨hrests, heq⟩ | ⟨-, heq⟩⟩ :=
    rowsFrom?_cases ⟨memory, stop⟩ #[] start
  · obtain rfl : listed = rows := by
      rw [rows?, heq] at h
      exact Option.some.inj h
    exact ⟨b, hwalk, hrests⟩
  · rw [rows?, heq] at h
    cases h

/-- The words of all rows, one row after the other. -/
def wordsOf (rows : List Row) : List Word := rows.flatMap (·.words)

@[simp] theorem wordsOf_cons (row : Row) (rows : List Row) :
    wordsOf (row :: rows) = row.words ++ wordsOf rows := rfl

/-- A row whose end does not turn over ends two bytes further for each of its words. -/
theorem toNat_nextAddress (hrow : rowAt c a = some row) (hrises : a < row.nextAddress) :
    row.nextAddress.toNat = a.toNat + 2 * row.words.length := by
  obtain ⟨haddress, hshows⟩ := shows_of_rowAt hrow
  have hcount := hshows.count_le
  have hrises : a.toNat < row.nextAddress.toNat := hrises
  have ha := a.isLt
  rw [Row.nextAddress, haddress, BitVec.toNat_add, BitVec.toNat_ofNat] at hrises ⊢
  omega

/-- A row turns over only at the last word of the address space. -/
theorem TurnsOver.top (h : TurnsOver c a) :
    a.toNat + 2 = Long.count ∧ c.codeEnd.toNat + 1 = Long.count ∧
      Long.count ≤ c.memory.capacity := by
  obtain ⟨hbelow, row, hrow, hturns⟩ := h
  obtain ⟨haddress, hshows⟩ := shows_of_rowAt hrow
  have hend := end_le_of_rowAt hrow hbelow
  have haligned := hshows.aligned
  have hinside := hshows.inside
  have hcount := hshows.count_le
  have hcodeEnd : c.codeEnd.toNat < Long.count := c.codeEnd.isLt
  have hturns : row.nextAddress.toNat ≤ a.toNat := hturns
  have hpos := hshows.count_pos
  rw [Row.nextAddress, haddress, BitVec.toNat_add, BitVec.toNat_ofNat] at hturns
  rw [haddress] at haligned hinside
  unfold Long.count at *
  omega

namespace Walk

theorem rowAt_eq (h : Walk c a rows b) : ∀ row ∈ rows,
    row.address < c.codeEnd ∧ rowAt c row.address = some row ∧
      row.address < row.nextAddress := by
  induction h with
  | nil => exact nofun
  | cons hbelow hrow hrises _ ih =>
    intro row' hrow'
    rcases List.mem_cons.mp hrow' with rfl | hmem
    · rw [(shows_of_rowAt hrow).1]
      exact ⟨hbelow, hrow, hrises⟩
    · exact ih row' hmem

theorem shows (h : Walk c a rows b) (row : Row) (hrow : row ∈ rows) : row.Shows c :=
  (shows_of_rowAt (h.rowAt_eq row hrow).2.1).2

theorem head?_address (h : Walk c a rows b) : ∀ row ∈ rows.head?, row.address = a := by
  cases h with
  | nil => exact nofun
  | cons _ hrow _ _ =>
    rintro row ⟨⟩
    exact (shows_of_rowAt hrow).1

theorem follows (h : Walk c a rows b) (k : Nat) (hk : k + 1 < rows.length) :
    rows[k + 1].address = rows[k].nextAddress := by
  induction h generalizing k with
  | nil => cases hk
  | cons _ _ _ hrest ih =>
    cases k with
    | zero =>
      refine hrest.head?_address _ ?_
      rw [List.getElem_cons_succ, Option.mem_def, List.head?_eq_getElem?]
      exact List.getElem?_eq_getElem _
    | succ k => exact ih k (Nat.lt_of_succ_lt_succ hk)

/-- A walk moves two bytes for each word that it shows. -/
theorem toNat_end (h : Walk c a rows b) : b.toNat = a.toNat + 2 * (wordsOf rows).length := by
  induction h with
  | nil => rfl
  | cons _ hrow hrises _ ih =>
    rw [ih, toNat_nextAddress hrow hrises, wordsOf_cons, List.length_append]
    omega

/-- **The words of a walk are those in memory**, without a gap. -/
theorem word_eq (h : Walk c a rows b) (k : Nat) (hk : k < (wordsOf rows).length) :
    (wordsOf rows)[k] = c.memory.wordAt (a.toNat + 2 * k) := by
  induction h generalizing k with
  | nil => cases hk
  | @cons a b row rows _ hrow hrises _ ih =>
    obtain ⟨haddress, hshows⟩ := shows_of_rowAt hrow
    simp only [wordsOf_cons, List.length_append] at hk ⊢
    by_cases hfirst : k < row.words.length
    · rw [List.getElem_append_left hfirst, hshows.word_eq k hfirst, haddress]
    · rw [List.getElem_append_right (by omega), ih _ (by omega), toNat_nextAddress hrow hrises]
      congr 1
      omega

/-- A walk of at least one row ends inside the store, at an even address. -/
theorem end_inside (h : Walk c a rows b) (hne : rows ≠ []) :
    b.toNat ≤ c.memory.capacity ∧ a.toNat % 2 = 0 := by
  induction h with
  | nil => exact absurd rfl hne
  | @cons a b row rows _ hrow hrises hrest ih =>
    obtain ⟨haddress, hshows⟩ := shows_of_rowAt hrow
    have hnext := toNat_nextAddress hrow hrises
    have hinside := hshows.inside
    have haligned := hshows.aligned
    rw [haddress] at hinside haligned
    refine ⟨?_, haligned⟩
    cases rows with
    | nil => cases hrest; omega
    | cons row' rows => exact (ih (List.cons_ne_nil _ _)).1

end Walk

/-! ## 3. What a listing tells -/

/-- The rows of a listing lie side by side in memory, from the start to where nothing is left to
    list. -/
structure Tiles (c : Code) (start : Address) (rows : List Row) : Prop where
  first : ∀ row ∈ rows.head?, row.address = start
  next : ∀ k (hk : k + 1 < rows.length),
    rows[k + 1].address.toNat = rows[k].address.toNat + 2 * rows[k].words.length
  wordCount : ∀ row ∈ rows, 1 ≤ row.words.length ∧ row.words.length ≤ 5
  /-- The words of all rows are those in memory, in order. -/
  word_eq : ∀ k (hk : k < (wordsOf rows).length),
    (wordsOf rows)[k] = c.memory.wordAt (start.toNat + 2 * k)
  inside : rows ≠ [] → start.toNat + 2 * (wordsOf rows).length ≤ c.memory.capacity
  /-- The listing stops past its end or where no word can be read. -/
  rests : ∃ past : Address, past.toNat = start.toNat + 2 * (wordsOf rows).length ∧
    (c.codeEnd.toNat ≤ past.toNat ∨ c.memory.readWord past = .error .addressError)

theorem Walk.tiles (h : Walk c a rows b) (hrests : Rests c b) : Tiles c a rows where
  first := h.head?_address
  next := by
    intro k hk
    obtain ⟨-, hrow, hrises⟩ := h.rowAt_eq rows[k] (List.getElem_mem _)
    rw [h.follows k hk, toNat_nextAddress hrow hrises]
  wordCount := fun row hrow => ⟨(h.shows row hrow).count_pos, (h.shows row hrow).count_le⟩
  word_eq := h.word_eq
  inside := fun hne => h.toNat_end ▸ (h.end_inside hne).1
  rests := ⟨b, h.toNat_end, hrests.imp_right rowAt_eq_none_iff.mp⟩

/-- A row tells what the fetch at its address finds: the whole instruction, or else one word as
    data. -/
structure Row.Tells (c : Code) (row : Row) : Prop where
  isData_iff : row.isData = true ↔ ¬ BeginsInstruction c row.address
  instruction : ∀ i b, c.fetch row.address = .ok (some i) b →
    row.words = i.words ∧ i.length = 2 * row.words.length ∧ row.text = i.text
  /-- The words are those that can be read again from the address on, none left out. -/
  reread : readable c row.address row.words.length = row.words
  data : row.isData = true → ∃ w, row.words = [w] ∧
    row.text = "DC.W $" ++ Digits.upperHex 4 w.toNat ∧
      (Digits.upperHexChars 4 w.toNat).length = 4

theorem tells_of_rowAt (h : rowAt c a = some row) : row.Tells c := by
  obtain ⟨haddress, hshows⟩ := shows_of_rowAt h
  have hreread := hshows.readable_eq (end_le_count h)
  obtain ⟨i, b, hfetch, rfl⟩ | ⟨hbegins, -, rfl⟩ := rowAt_cases h
  · have hbegins : BeginsInstruction c (instructionRow i).address :=
      ⟨i, b, haddress ▸ hfetch⟩
    refine ⟨⟨nofun, fun h => absurd hbegins h⟩, fun j b' hj => ?_, hreread, nofun⟩
    rw [haddress, hfetch] at hj
    cases hj
    exact ⟨rfl, (Code.fetch_faithful hfetch).length_eq, rfl⟩
  · refine ⟨⟨fun _ => hbegins, fun _ => rfl⟩, fun i b hi => absurd ⟨i, b, hi⟩ hbegins, hreread,
      fun _ => ?_⟩
    exact ⟨_, rfl, rfl, Digits.length_upperHexChars (by decide) (BitVec.isLt _)⟩

/-- **A listing tells all words from its start on.** In a store below four gibibytes it always has
    an end. -/
theorem rows_tile (memory : Memory) (start stop : Address)
    (hcapacity : memory.capacity < Long.count) :
    ∃ rows, rows? memory start stop = some rows ∧ Tiles ⟨memory, stop⟩ start rows ∧
      (∀ row ∈ rows, row.Tells ⟨memory, stop⟩) ∧ (start.toNat % 2 = 1 → rows = []) := by
  obtain ⟨rows, b, hwalk, ⟨hrests, heq⟩ | ⟨hturns, -⟩⟩ :=
    rowsFrom?_cases ⟨memory, stop⟩ #[] start
  · refine ⟨rows, heq, hwalk.tiles hrests, fun row hrow => ?_, fun hodd => ?_⟩
    · exact tells_of_rowAt (hwalk.rowAt_eq row hrow).2.1
    · by_contra hne
      have := (hwalk.end_inside hne).2
      omega
  · have hcap : Long.count ≤ memory.capacity := hturns.top.2.2
    exact absurd hcapacity (Nat.not_lt.mpr hcap)

/-- A `NOP`, a word that stands for nothing, and `ORI.W #$1234,D1`. -/
def mixedWords : Memory :=
  (Memory.zeros 8).setBytes 0 [0x4E, 0x71, 0xFF, 0xFF, 0x00, 0x41, 0x12, 0x34]

/-- Up to address six the last instruction is cut off; an odd start lists nothing. -/
theorem rows_tile_mixedWords :
    mixedWords.capacity < Long.count ∧
      (∃ rows, rows? mixedWords 0 6 = some rows ∧ Tiles ⟨mixedWords, 6⟩ 0 rows ∧
        ∀ row ∈ rows, row.Tells ⟨mixedWords, 6⟩) ∧
      rows? mixedWords 1 6 = some [] := by
  have hcapacity : mixedWords.capacity < Long.count := by decide
  obtain ⟨rows, heq, htiles, htells, -⟩ := rows_tile mixedWords 0 6 hcapacity
  obtain ⟨none, heq', -, -, hnone⟩ := rows_tile mixedWords 1 6 hcapacity
  obtain rfl : none = [] := hnone rfl
  exact ⟨hcapacity, ⟨rows, heq, htiles, htells⟩, heq'⟩

end Mc68000.Listing
