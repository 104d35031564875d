import Mathlib.Data.List.Forall2
import Mc68000.Proofs.Listing.Line
import Mc68000.Text.HexDump

/-!
# Reading a hex dump back

A dump is taken apart again without the function that made it.

* `rowInduction` -- bytes row by row; `getElem?_rows`, `length_rows`, `flatten_rows` -- the rows are
  the bytes, sixteen by sixteen;
* `lines`, `bytesOf` -- the lines of a text, and the bytes that they list;
* `lines_join` -- lines that a newline ends are told apart again;
* `Shows` -- a line has the address and the bytes of its row;
* `dump_lossless` -- **a dump has the lines that its bytes need, and the bytes are read back**.
-/

namespace Mc68000.HexDump

open Listing (tokens IsHex)

variable {address : Address} {bytes : List Byte}

/-! ## 1. Rows -/

/-- Bytes are none, or a row and the bytes behind it. -/
theorem rowInduction {P : List Byte → Prop} (nil : P [])
    (row : ∀ bytes, bytes ≠ [] → P (bytes.drop 16) → P bytes) (bytes : List Byte) : P bytes := by
  induction h : bytes.length using Nat.strongRecOn generalizing bytes with
  | _ length ih =>
    by_cases hnil : bytes = []
    · rw [hnil]
      exact nil
    · have hpos : 0 < bytes.length := List.length_pos_iff.mpr hnil
      have hless : (bytes.drop 16).length < length := by
        rw [List.length_drop]
        omega
      exact row bytes hnil (ih _ hless _ rfl)

theorem rowsFrom_nil (acc : Array (List Byte)) : rowsFrom acc [] = acc := by
  rw [rowsFrom]

theorem rowsFrom_of_ne_nil (acc : Array (List Byte)) (h : bytes ≠ []) :
    rowsFrom acc bytes = rowsFrom (acc.push (bytes.take 16)) (bytes.drop 16) := by
  cases bytes with
  | nil => exact absurd rfl h
  | cons b bs => rw [rowsFrom]; rfl

/-- Rows found so far stay in front. -/
theorem toList_rowsFrom (acc : Array (List Byte)) (bytes : List Byte) :
    (rowsFrom acc bytes).toList = acc.toList ++ rows bytes := by
  have hrows : ∀ acc, (rowsFrom acc bytes).toList = acc.toList ++ (rowsFrom #[] bytes).toList := by
    induction bytes using rowInduction with
    | nil => simp [rowsFrom_nil]
    | row bytes h ih =>
      intro acc
      rw [rowsFrom_of_ne_nil acc h, rowsFrom_of_ne_nil #[] h, ih, ih (#[].push _)]
      simp
  exact hrows acc

theorem rows_nil : rows [] = [] := by
  rw [rows, rowsFrom_nil]

theorem rows_of_ne_nil (h : bytes ≠ []) : rows bytes = bytes.take 16 :: rows (bytes.drop 16) := by
  rw [rows, rowsFrom_of_ne_nil _ h, toList_rowsFrom]
  rfl

/-- **A row starts at each sixteenth byte.** -/
theorem getElem?_rows (bytes : List Byte) (i : Nat) :
    (rows bytes)[i]? =
      if 16 * i < bytes.length then some ((bytes.drop (16 * i)).take 16) else none := by
  induction bytes using rowInduction generalizing i with
  | nil => simp [rows_nil]
  | row bytes h ih =>
    have hpos : 0 < bytes.length := List.length_pos_iff.mpr h
    rw [rows_of_ne_nil h]
    cases i with
    | zero => simp [hpos]
    | succ i =>
      have hinside : 16 * i < bytes.length - 16 ↔ 16 * (i + 1) < bytes.length := by omega
      have hstart : 16 + 16 * i = 16 * (i + 1) := by omega
      rw [List.getElem?_cons_succ, ih, List.length_drop, List.drop_drop, hstart]
      simp only [hinside]

theorem length_rows (bytes : List Byte) : (rows bytes).length = (bytes.length + 15) / 16 := by
  induction bytes using rowInduction with
  | nil => simp [rows_nil]
  | row bytes h ih =>
    have hpos : 0 < bytes.length := List.length_pos_iff.mpr h
    rw [rows_of_ne_nil h, List.length_cons, ih, List.length_drop]
    omega

theorem flatten_rows (bytes : List Byte) : (rows bytes).flatten = bytes := by
  induction bytes using rowInduction with
  | nil => simp [rows_nil]
  | row bytes h ih => rw [rows_of_ne_nil h, List.flatten_cons, ih, List.take_append_drop]

/-! ## 2. Lines -/

/-- The lines of a text, each of which a newline ends. -/
def lines (text : String) : List String :=
  (text.toList.splitOn '\n').dropLast.map String.ofList

/-- **Lines that a newline ends are told apart again.** -/
theorem lines_join {ls : List String} (h : ∀ l ∈ ls, '\n' ∉ l.toList) :
    lines (String.join (ls.map (· ++ "\n"))) = ls := by
  have hsplit : (String.join (ls.map (· ++ "\n"))).toList.splitOn '\n' =
      ls.map String.toList ++ [[]] := by
    induction ls with
    | nil => simp
    | cons l ls ih =>
      obtain ⟨hl, hls⟩ := List.forall_mem_cons.mp h
      have hchars : (String.join ((l :: ls).map (· ++ "\n"))).toList =
          l.toList ++ '\n' :: (String.join (ls.map (· ++ "\n"))).toList := by
        simp
      have hline : l.toList.splitOn '\n' = [l.toList] :=
        List.splitOnP_eq_singleton fun c hc => by simpa using fun e : c = '\n' => hl (e ▸ hc)
      rw [hchars, List.splitOn_append_cons_self, hline, ih hls]
      rfl
  rw [lines, hsplit, List.dropLast_concat, List.map_map]
  simp [Function.comp_def]

/-- The byte that a text gives in base sixteen. -/
def byteOf? (text : String) : Option Byte :=
  (Digits.value? 16 Digits.ofHexChar? text.toList).map (BitVec.ofNat 8)

/-- The bytes that the lines of a text list behind their first token. -/
def bytesOf (text : String) : List Byte :=
  (lines text).flatMap fun line => (tokens line).tail.filterMap byteOf?

/-! ## 3. One line -/

/-- A text is the given number in so many base-sixteen digits, all in upper case. -/
structure IsUpperHex (width n : Nat) (s : String) : Prop extends IsHex width n s where
  upper : ∀ c ∈ s.toList, c ∈ Digits.hexAlphabet

theorem isUpperHex_upperHex {width n : Nat} (hwidth : 0 < width) (hn : n < 16 ^ width) :
    IsUpperHex width n (Digits.upperHex width n) where
  toIsHex := Listing.isHex_upperHex hwidth hn
  upper := by
    intro c hc
    rw [Digits.upperHex, String.toList_ofList] at hc
    exact Digits.mem_hexAlphabet_of_mem_upperHexChars hc

theorem byteOf?_upperHex (b : Byte) : byteOf? (Digits.upperHex 2 b.toNat) = some b := by
  rw [byteOf?, Digits.upperHex, String.toList_ofList, Digits.value?_upperHexChars]
  simp

/-- A row as it stands in its line. -/
def byteTexts (row : List Byte) : List String := row.map fun b => Digits.upperHex 2 b.toNat

/-- A line without its newline. -/
def lineText (a : Address) (row : List Byte) : String :=
  Digits.upperHex 8 a.toNat ++ "  " ++ " ".intercalate (byteTexts row)

theorem line_eq (a : Address) (row : List Byte) : line a row = lineText a row ++ "\n" := rfl

theorem solid_byteTexts (row : List Byte) : ∀ s ∈ byteTexts row, Listing.Solid s := by
  intro s hs
  obtain ⟨b, -, rfl⟩ := List.mem_map.mp hs
  exact Listing.solid_upperHex 2 b.toNat

/-- The tokens of a line are the address and the bytes. -/
theorem tokens_lineText (a : Address) (row : List Byte) :
    tokens (lineText a row) = Digits.upperHex 8 a.toNat :: byteTexts row := by
  have hparts : lineText a row =
      Digits.upperHex 8 a.toNat ++ " " ++ (" " ++ " ".intercalate (byteTexts row)) := by
    simp only [lineText, String.append_assoc]
    rfl
  rw [hparts, Listing.tokens_append_blank, Listing.tokens_blank,
    Listing.tokens_of_solid (Listing.solid_upperHex 8 a.toNat),
    Listing.tokens_intercalate (solid_byteTexts row)]
  rfl

theorem filterMap_byteTexts (row : List Byte) : (byteTexts row).filterMap byteOf? = row := by
  induction row with
  | nil => rfl
  | cons b row ih =>
    rw [byteTexts] at ih ⊢
    rw [List.map_cons, List.filterMap_cons_some (byteOf?_upperHex b), ih]

/-- What stands in a text with separators stands in the separator or in one of the parts. -/
theorem mem_intercalate {sep : String} {ss : List String} {c : Char}
    (h : c ∈ (sep.intercalate ss).toList) : c ∈ sep.toList ∨ ∃ s ∈ ss, c ∈ s.toList := by
  induction ss with
  | nil => simp at h
  | cons s ss ih =>
    by_cases hne : ss = []
    · rw [hne, String.intercalate_singleton] at h
      exact .inr ⟨s, List.mem_cons_self, h⟩
    · rw [String.intercalate_cons_of_ne_nil hne, String.toList_append, String.toList_append,
        List.mem_append, List.mem_append] at h
      rcases h with (hs | hsep) | hss
      · exact .inr ⟨s, List.mem_cons_self, hs⟩
      · exact .inl hsep
      · rcases ih hss with hsep | ⟨t, ht, hc⟩
        · exact .inl hsep
        · exact .inr ⟨t, List.mem_cons_of_mem _ ht, hc⟩

theorem newline_not_mem_upperHex (width n : Nat) : '\n' ∉ (Digits.upperHex width n).toList := by
  intro h
  have hblank := (Listing.solid_upperHex width n).not_blank '\n' h
  exact absurd hblank (by decide)

theorem newline_not_mem_lineText (a : Address) (row : List Byte) :
    '\n' ∉ (lineText a row).toList := by
  intro h
  rw [lineText, String.toList_append, String.toList_append, List.mem_append, List.mem_append] at h
  rcases h with (haddress | hgap) | hbytes
  · exact newline_not_mem_upperHex _ _ haddress
  · exact absurd hgap (by decide)
  · rcases mem_intercalate hbytes with hsep | ⟨s, hs, hc⟩
    · exact absurd hsep (by decide)
    · obtain ⟨b, -, rfl⟩ := List.mem_map.mp hs
      exact newline_not_mem_upperHex _ _ hc

/-! ## 4. Dumps -/

/-- A line shows the row of bytes that starts sixteen times `i` bytes behind the first one: its
    address in eight digits, two blanks, and each byte in two digits with one blank between them. -/
structure Shows (address : Address) (bytes : List Byte) (i : Nat) (line : String) : Prop where
  /-- No row is empty, so its distance fits every width that the number of bytes fits. -/
  starts : 16 * i < bytes.length
  parts : ∃ addressText byteTexts,
    line = addressText ++ "  " ++ " ".intercalate byteTexts ∧
    IsUpperHex 8 ((address.toNat + 16 * i) % 2 ^ 32) addressText ∧
    List.Forall₂ (fun b s => IsUpperHex 2 b.toNat s)
      (bytes.extract (16 * i) (min (16 * i + 16) bytes.length)) byteTexts

/-- The lines of a dump without their newlines. -/
def lineTexts (address : Address) (bytes : List Byte) : List String :=
  (rows bytes).zipIdx.map fun p => lineText (address + BitVec.ofNat 32 (16 * p.2)) p.1

theorem hexDump_eq (address : Address) (bytes : List Byte) :
    hexDump address bytes = String.join ((lineTexts address bytes).map (· ++ "\n")) := by
  rw [hexDump, lineTexts, List.map_map]
  rfl

theorem lines_hexDump (address : Address) (bytes : List Byte) :
    lines (hexDump address bytes) = lineTexts address bytes := by
  rw [hexDump_eq]
  refine lines_join fun l hl => ?_
  obtain ⟨p, -, rfl⟩ := List.mem_map.mp hl
  exact newline_not_mem_lineText _ p.1

theorem forall₂_byteTexts (row : List Byte) :
    List.Forall₂ (fun b s => IsUpperHex 2 b.toNat s) row (byteTexts row) := by
  rw [byteTexts, List.forall₂_map_right_iff, List.forall₂_same]
  intro b _
  exact isUpperHex_upperHex (by decide) b.isLt

/-- A row ends with its sixteenth byte, or with the last byte of all. -/
theorem extract_eq (bytes : List Byte) (i : Nat) :
    bytes.extract (16 * i) (min (16 * i + 16) bytes.length) = (bytes.drop (16 * i)).take 16 := by
  refine List.take_eq_take_iff.mpr ?_
  rw [List.length_drop]
  omega

/-- **Each line shows its row.** -/
theorem shows_of_getElem? {i : Nat} {line : String}
    (h : (lineTexts address bytes)[i]? = some line) : Shows address bytes i line := by
  rw [lineTexts, List.getElem?_map, List.getElem?_zipIdx, getElem?_rows] at h
  by_cases hstart : 16 * i < bytes.length
  · rw [if_pos hstart, Nat.zero_add] at h
    have hline : lineText (address + BitVec.ofNat 32 (16 * i)) ((bytes.drop (16 * i)).take 16) =
        line := Option.some.inj h
    have haddress : (address + BitVec.ofNat 32 (16 * i)).toNat =
        (address.toNat + 16 * i) % 2 ^ 32 := by
      rw [BitVec.toNat_add, BitVec.toNat_ofNat, Nat.add_mod_mod]
    refine ⟨hstart, Digits.upperHex 8 (address + BitVec.ofNat 32 (16 * i)).toNat,
      byteTexts ((bytes.drop (16 * i)).take 16), ?_, ?_, ?_⟩
    · rw [← hline, lineText]
    · rw [haddress]
      exact isUpperHex_upperHex (by decide) (Nat.mod_lt _ (by decide))
    · rw [extract_eq]
      exact forall₂_byteTexts _
  · rw [if_neg hstart] at h
    cases h

theorem length_lineTexts (address : Address) (bytes : List Byte) :
    (lineTexts address bytes).length = (bytes.length + 15) / 16 := by
  rw [lineTexts, List.length_map, List.length_zipIdx, length_rows]

/-- **The bytes are read back**, whatever the address. -/
theorem bytesOf_hexDump (address : Address) (bytes : List Byte) :
    bytesOf (hexDump address bytes) = bytes := by
  have hline (p : List Byte × Nat) :
      (tokens (lineText (address + BitVec.ofNat 32 (16 * p.2)) p.1)).tail.filterMap byteOf? =
        p.1 := by
    rw [tokens_lineText]
    exact filterMap_byteTexts p.1
  calc bytesOf (hexDump address bytes)
      = (rows bytes).zipIdx.flatMap fun p => p.1 := by
        rw [bytesOf, lines_hexDump, lineTexts, List.flatMap_map]
        simp only [hline]
    _ = (rows bytes).flatten := by
        rw [List.flatMap_def, List.zipIdx_map_fst]
    _ = bytes := flatten_rows bytes

/-- **A dump loses nothing.** It is as many lines as the bytes need, each ended by a newline and
    each with the address and the bytes of its row. So the bytes are read back from it, and no two
    lists of bytes have one dump, whatever the addresses. -/
theorem dump_lossless (address : Address) (bytes : List Byte) :
    hexDump address bytes = String.join ((lines (hexDump address bytes)).map (· ++ "\n")) ∧
    (lines (hexDump address bytes)).length = (bytes.length + 15) / 16 ∧
    (∀ i line, (lines (hexDump address bytes))[i]? = some line → Shows address bytes i line) ∧
    bytesOf (hexDump address bytes) = bytes ∧
    ∀ address' bytes', hexDump address' bytes' = hexDump address bytes → bytes' = bytes := by
  refine ⟨?_, ?_, fun i line h => ?_, bytesOf_hexDump address bytes, fun address' bytes' h => ?_⟩
  · rw [lines_hexDump]
    exact hexDump_eq address bytes
  · rw [lines_hexDump]
    exact length_lineTexts address bytes
  · rw [lines_hexDump] at h
    exact shows_of_getElem? h
  · rw [← bytesOf_hexDump address' bytes', h, bytesOf_hexDump]

/-- Eighteen bytes: a full row and two bytes more. -/
def eighteenBytes : List Byte := (List.range 18).map (BitVec.ofNat 8)

/-- The second line of their dump at the top of the addresses, where the row begins at 8. -/
theorem dump_lossless_wrapping :
    ∃ line, (lines (hexDump 0xFFFFFFF8 eighteenBytes))[1]? = some line ∧
      Shows 0xFFFFFFF8 eighteenBytes 1 line := by
  obtain ⟨-, hlength, hshows, -⟩ := dump_lossless 0xFFFFFFF8 eighteenBytes
  have htwo : 1 < (lines (hexDump 0xFFFFFFF8 eighteenBytes)).length := by
    rw [hlength]
    decide
  have hsecond := List.getElem?_eq_getElem htwo
  exact ⟨_, hsecond, hshows 1 _ hsecond⟩

end Mc68000.HexDump
