import Mc68000.Proofs.Listing.Walk

/-!
# How far a listing reaches

* `Rising` -- each row begins where the one before it ends, and ends above where it begins;
* `Within` -- a listing that rises, stays below a limit and has no more rows than words fit there;
* `Straddles` -- the last word that begins below the end lies across it: the end is odd, the start
  is not, and the byte at the end can be read;
* `listing_within` -- **a listing stays below its end exactly if no word straddles it.** Else its
  last row shows the byte at the end, and at the top of the address space it has no end at all;
* `listing_past_end` -- an end inside a word, and one at the top of a full store.

The row of an instruction has to lie below the end as a whole, but a data word only has to begin
there.
-/

namespace Mc68000.Listing

variable {c : Code} {a b : Address} {row : Row} {rows : List Row}

/-! ## 1. Rising rows -/

/-- Each row begins where the one before it ends, and ends above where it begins. -/
structure Rising (rows : List Row) : Prop where
  rises : ∀ row ∈ rows, row.address < row.nextAddress
  follows : rows.IsChain fun row next => next.address = row.nextAddress

/-- A listing from `start` that rises and shows nothing at `limit` or above. -/
structure Within (start : Address) (limit : Nat) (rows : List Row) : Prop extends Rising rows where
  count_le : rows.length ≤ (limit - start.toNat) / 2
  below : ∀ row ∈ rows, row.address.toNat + 2 * row.words.length ≤ limit

theorem Walk.rising (h : Walk c a rows b) : Rising rows :=
  ⟨fun row hrow => (h.rowAt_eq row hrow).2.2, List.isChain_iff_getElem.mpr h.follows⟩

/-- Every row shows a word at least. -/
theorem Walk.length_le (h : Walk c a rows b) : rows.length ≤ (wordsOf rows).length := by
  induction h with
  | nil => exact Nat.le_refl 0
  | cons _ hrow _ _ ih =>
    have hpos := (shows_of_rowAt hrow).2.count_pos
    rw [wordsOf_cons, List.length_append, List.length_cons]
    omega

/-- A row ends no higher than the walk. -/
theorem Walk.end_of_mem (h : Walk c a rows b) (hmem : row ∈ rows) :
    row.address.toNat + 2 * row.words.length ≤ b.toNat := by
  induction h with
  | nil => cases hmem
  | cons _ hrow hrises hrest ih =>
    rcases List.mem_cons.mp hmem with rfl | hmem
    · have := hrest.toNat_end
      rw [(shows_of_rowAt hrow).1]
      rw [toNat_nextAddress hrow hrises] at this
      omega
    · exact ih hmem

/-- A walk that ends at or below a limit stays within it. -/
theorem Walk.within (h : Walk c a rows b) {limit : Nat} (hlimit : b.toNat ≤ limit) :
    Within a limit rows where
  toRising := h.rising
  count_le := by
    have := h.toNat_end
    have := h.length_le
    omega
  below := fun _ hmem => Nat.le_trans (h.end_of_mem hmem) hlimit

/-! ## 2. The end of a walk -/

/-- The last row of a walk ends where the walk does. -/
theorem Walk.exists_last (h : Walk c a rows b) (hne : rows ≠ []) :
    ∃ row ∈ rows, row.address.toNat + 2 * row.words.length = b.toNat ∧
      row.address < c.codeEnd ∧ rowAt c row.address = some row := by
  induction h with
  | nil => exact absurd rfl hne
  | @cons a b row rows hbelow hrow hrises hrest ih =>
    have haddress := (shows_of_rowAt hrow).1
    cases rows with
    | nil =>
      cases hrest
      refine ⟨row, List.mem_singleton_self row, ?_, haddress ▸ hbelow, haddress ▸ hrow⟩
      rw [haddress, toNat_nextAddress hrow hrises]
    | cons row' rows =>
      obtain ⟨last, hmem, hlast⟩ := ih (List.cons_ne_nil _ _)
      exact ⟨last, List.mem_cons_of_mem _ hmem, hlast⟩

/-- A walk ends at the end of the code at the latest, or with a data word across it. -/
theorem Walk.end_le (h : Walk c a rows b) (hne : rows ≠ []) :
    b.toNat ≤ c.codeEnd.toNat ∨
      (b.toNat = c.codeEnd.toNat + 1 ∧ ∃ row ∈ rows, row.isData = true ∧
        row.address.toNat + 1 = c.codeEnd.toNat) := by
  obtain ⟨row, hmem, hend, hbelow, hrow⟩ := h.exists_last hne
  obtain hle | ⟨hacross, hcount⟩ := end_le_of_rowAt hrow hbelow
  · exact .inl (by omega)
  · refine .inr ⟨by omega, row, hmem, ?_, hacross⟩
    -- an instruction row would lie below the end as a whole
    obtain ⟨i, b', hfetch, heq⟩ | ⟨-, -, heq⟩ := rowAt_cases hrow
    · have hf := Code.fetch_faithful hfetch
      have hwords : row.words.length = i.words.length := congrArg (·.words.length) heq
      have := hf.next_eq
      have := hf.next_le_codeEnd
      have := hf.length_eq
      omega
    · rw [heq]
      rfl

/-! ## 3. Listings -/

/-- The last word that begins below the end of a listing lies across it and can be read. -/
structure Straddles (memory : Memory) (start stop : Address) : Prop where
  start_even : start.toNat % 2 = 0
  start_lt : start < stop
  stop_odd : stop.toNat % 2 = 1
  stop_readable : stop.toNat < memory.capacity

/-- A walk over a straddling word goes on until it shows it. -/
theorem Straddles.past {memory : Memory} {start stop : Address}
    (h : Straddles memory start stop) (hwalk : Walk ⟨memory, stop⟩ start rows b)
    (hrests : Rests ⟨memory, stop⟩ b) : rows ≠ [] ∧ stop.toNat < b.toNat := by
  have heven : b.toNat % 2 = 0 := by
    have := hwalk.toNat_end
    have := h.start_even
    omega
  have hpast : stop.toNat < b.toNat := by
    have hodd := h.stop_odd
    rcases hrests with hend | hnone
    · have hend : stop.toNat ≤ b.toNat := hend
      omega
    · by_contra hle
      have hread := h.stop_readable
      have hin : accessible b .word memory.capacity = true :=
        Code.accessible_word_iff.mpr ⟨heven, by omega⟩
      have herror := rowAt_eq_none_iff.mp hnone
      rw [Memory.readWord_eq, if_pos hin] at herror
      cases herror
  refine ⟨?_, hpast⟩
  rintro rfl
  have hlt : start.toNat < stop.toNat := h.start_lt
  cases hwalk
  omega

/-- Where the walk turns over, a word straddles the end. -/
theorem straddles_of_turnsOver {memory : Memory} {start stop : Address}
    (hwalk : Walk ⟨memory, stop⟩ start rows b) (hturns : TurnsOver ⟨memory, stop⟩ b) :
    Straddles memory start stop := by
  obtain ⟨hb, hstop, hcap⟩ := hturns.top
  have hend := hwalk.toNat_end
  have hstop : stop.toNat + 1 = Long.count := hstop
  have hcap : Long.count ≤ memory.capacity := hcap
  unfold Long.count at *
  exact ⟨by omega, (by omega : start.toNat < stop.toNat), by omega, by omega⟩

/-- A walk over a code in which no word straddles the end stays below the end. -/
theorem within_of_not_straddles {memory : Memory} {start stop : Address}
    (hwalk : Walk ⟨memory, stop⟩ start rows b) (hno : ¬ Straddles memory start stop) :
    Within start stop.toNat rows := by
  by_cases hne : rows = []
  · subst hne
    exact ⟨⟨nofun, .nil⟩, Nat.zero_le _, nofun⟩
  obtain hle | ⟨hpast, row, hmem, -, hacross⟩ := hwalk.end_le hne
  · exact hwalk.within hle
  -- the data word across the end is the one that straddles it
  · obtain ⟨hinside, heven⟩ := hwalk.end_inside hne
    have haligned := (hwalk.shows row hmem).aligned
    have hacross : row.address.toNat + 1 = stop.toNat := hacross
    have hpast : b.toNat = stop.toNat + 1 := hpast
    have hinside : b.toNat ≤ memory.capacity := hinside
    have hend := hwalk.toNat_end
    have hlength := hwalk.length_le
    have hpos := List.length_pos_iff.mpr hne
    exact absurd ⟨heven, (by omega : start.toNat < stop.toNat), by omega, by omega⟩ hno

/-- A walk over a straddling word that comes to rest stays below the byte after the end, and shows
    the straddling word as data. -/
theorem Straddles.within {memory : Memory} {start stop : Address}
    (h : Straddles memory start stop) (hwalk : Walk ⟨memory, stop⟩ start rows b)
    (hrests : Rests ⟨memory, stop⟩ b) :
    Within start (stop.toNat + 1) rows ∧ ¬ Within start stop.toNat rows ∧
      ∃ row ∈ rows, row.isData = true ∧ row.address.toNat + 1 = stop.toNat := by
  obtain ⟨hne, hpast⟩ := h.past hwalk hrests
  obtain hle | ⟨hend, hdata⟩ := hwalk.end_le hne
  · exact absurd hpast (Nat.not_lt.mpr hle)
  · refine ⟨hwalk.within (Nat.le_of_eq hend), fun hwithin => ?_, hdata⟩
    obtain ⟨row, hmem, hlast, -⟩ := hwalk.exists_last hne
    have := hwithin.below row hmem
    omega

/-- A listing over a straddling word that has an end shows a byte too much. -/
theorem Straddles.past_end {memory : Memory} {start stop : Address}
    (h : Straddles memory start stop) (htop : stop.toNat + 1 < Long.count) :
    ∃ rows, rows? memory start stop = some rows ∧ Within start (stop.toNat + 1) rows ∧
      ¬ Within start stop.toNat rows ∧
      ∃ row ∈ rows, row.isData = true ∧ row.address.toNat + 1 = stop.toNat := by
  obtain ⟨rows, b, hwalk, ⟨hrests, heq⟩ | ⟨hturns, -⟩⟩ :=
    rowsFrom?_cases ⟨memory, stop⟩ #[] start
  · exact ⟨rows, heq, h.within hwalk hrests⟩
  · exact absurd hturns.top.2.1 (Nat.ne_of_lt htop)

/-- A listing over a straddling word has no end if nothing comes after this word. -/
theorem Straddles.endless {memory : Memory} {start stop : Address}
    (h : Straddles memory start stop) (htop : stop.toNat + 1 = Long.count) :
    rows? memory start stop = none := by
  obtain ⟨rows, b, hwalk, ⟨hrests, -⟩ | ⟨-, heq⟩⟩ := rowsFrom?_cases ⟨memory, stop⟩ #[] start
  · have hpast := (h.past hwalk hrests).2
    have hb : b.toNat < Long.count := b.isLt
    omega
  · exact heq

/-- **A listing stays below its end** exactly if no word straddles it: it then has an end, its
    position rises from row to row, it has at most half as many rows as bytes, and it shows no byte
    at the end or above. If a word does straddle the end, the listing shows this word as data, one
    byte too far; and if nothing comes after this word, the listing goes on at address zero. -/
theorem listing_within (memory : Memory) (start stop : Address) :
    ((∃ rows, rows? memory start stop = some rows ∧ Within start stop.toNat rows) ↔
      ¬ Straddles memory start stop) ∧
    (Straddles memory start stop → stop.toNat + 1 < Long.count →
      ∃ rows, rows? memory start stop = some rows ∧ Within start (stop.toNat + 1) rows ∧
        ∃ row ∈ rows, row.isData = true ∧ row.address.toNat + 1 = stop.toNat) ∧
    (Straddles memory start stop → stop.toNat + 1 = Long.count →
      rows? memory start stop = none) := by
  refine ⟨⟨?_, fun hno => ?_⟩, fun h htop => ?_, Straddles.endless⟩
  · rintro ⟨rows, heq, hwithin⟩ h
    obtain ⟨b, hwalk, hrests⟩ := walk_of_rows? heq
    exact (h.within hwalk hrests).2.1 hwithin
  · obtain ⟨rows, b, hwalk, ⟨hrests, heq⟩ | ⟨hturns, -⟩⟩ :=
      rowsFrom?_cases ⟨memory, stop⟩ #[] start
    · exact ⟨rows, heq, within_of_not_straddles hwalk hno⟩
    · exact absurd (straddles_of_turnsOver hwalk hturns) hno
  · obtain ⟨rows, heq, hwithin, -, hdata⟩ := h.past_end htop
    exact ⟨rows, heq, hwithin, hdata⟩

/-- A store of a single word, the `NOP`. -/
def oneWord : Memory := (Memory.zeros 2).setBytes 0 [0x4E, 0x71]

/-- **A listing can show a byte past its end**, and it can fail to end: of the word at address zero
    only the first byte lies below address one, and in a full store a listing to the last address
    comes back to its start. -/
theorem listing_past_end :
    (∃ rows, rows? oneWord 0 1 = some rows ∧
      ∃ row ∈ rows, 1 < row.address.toNat + 2 * row.words.length) ∧
    rows? (Memory.zeros Long.count) 0 0xFFFFFFFF = none := by
  refine ⟨?_, Straddles.endless ⟨rfl, by decide, rfl, ?_⟩ rfl⟩
  · have hacross : Straddles oneWord 0 1 := ⟨rfl, by decide, rfl, by decide⟩
    obtain ⟨rows, heq, -, -, row, hmem, -, hlast⟩ := hacross.past_end (by decide)
    obtain ⟨b, hwalk, -⟩ := walk_of_rows? heq
    have hpos := (hwalk.shows row hmem).count_pos
    have hlast : row.address.toNat + 1 = 1 := hlast
    exact ⟨rows, heq, row, hmem, by omega⟩
  · rw [Memory.capacity_zeros]
    decide

end Mc68000.Listing
