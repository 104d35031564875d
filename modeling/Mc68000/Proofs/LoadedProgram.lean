import Mc68000.Proofs.ByteRuns
import Mc68000.Proofs.InstructionLength
import Mc68000.Proofs.Loads
import Mc68000.Run

/-!
# A loaded program is fetched word for word

A load puts words into memory and sets the program counter and the end of the code. The reader of
instruction words looks at all three.

* `Code.readAll` -- the words that can be read from an address on, and what ends them;
* `readAll_of_stream`, `stream_of_wordAt` -- words at their place inside the code are all read;
* `Machine.Fetchable` -- a machine that has words as its program, and reads these and no more;
* `stream_of_load`, `fetchable_of_load`, `end_of_wrapped` -- below the top of the address space, and
  across it;
* `fetchable_iff_of_load` -- **a load makes its words fetchable exactly if they end below 2^32**,
  and clears or keeps all other memory;
* `top_word_not_fetched` -- so the last word of a memory of 4 GiB is no program.

The check of a load is made in unbounded numbers, and the end of the code is an address: only one of
them wraps.
-/

namespace Mc68000

namespace Code

/-! ## 1. Reading on -/

/-- A word that is read leaves less of the code in front of the reader. -/
theorem left_of_nextWord {c : Code} {a b : Address} {w : Word} (h : c.nextWord a = .ok w b) :
    c.codeEnd.toNat - b.toNat < c.codeEnd.toNat - a.toNat := by
  have hstream := stream_nextWord h
  have hend := (hstream.end_le (List.cons_ne_nil _ _)).1
  have hnext : b.toNat = a.toNat + 2 := hstream.toNat_end
  omega

/-- The words that can be read one after the other, and the failure that ends them. -/
def readAll (c : Code) (pc : Address) : List Word × Failure :=
  match h : c.nextWord pc with
  | .error f _ => ([], f)
  | .ok w next =>
    have := left_of_nextWord h
    let rest := c.readAll next
    (w :: rest.1, rest.2)
termination_by c.codeEnd.toNat - pc.toNat

variable {c : Code} {a b : Address} {w : Word} {ws : List Word} {f : Failure}

theorem readAll_of_ok (h : c.nextWord a = .ok w b) :
    c.readAll a = (w :: (c.readAll b).1, (c.readAll b).2) := by
  rw [readAll]
  split
  · rename_i h'
    cases h.symm.trans h'
  · rename_i h'
    cases h.symm.trans h'
    rfl

theorem readAll_of_error (h : c.nextWord a = .error f b) : c.readAll a = ([], f) := by
  rw [readAll]
  split
  · rename_i h'
    cases h.symm.trans h'
    rfl
  · rename_i h'
    cases h.symm.trans h'

/-- Where no word fits before the end of the code, none is read. -/
theorem readAll_of_end (h : c.codeEnd.toNat < a.toNat + 2) :
    c.readAll a = ([], .pastEndOfCode a) := by
  refine readAll_of_error (b := a) ?_
  unfold nextWord
  rw [if_pos h]

/-- **A stream of words is read to its end**, and there the reading goes on. -/
theorem readAll_of_stream (h : Stream c a ws b) :
    c.readAll a = (ws ++ (c.readAll b).1, (c.readAll b).2) := by
  induction h with
  | nil => rfl
  | cons hend hin hw _ ih =>
    have hread := nextWord_eq c _ hend
    rw [if_pos hin, hw] at hread
    rw [readAll_of_ok hread, ih]
    rfl

/-- Words at their place inside the code and the store are a stream. -/
theorem stream_of_wordAt (heven : a.toNat % 2 = 0)
    (hend : a.toNat + 2 * ws.length ≤ c.codeEnd.toNat)
    (hin : a.toNat + 2 * ws.length ≤ c.memory.capacity)
    (hwords : ∀ k (hk : k < ws.length), c.memory.wordAt (a.toNat + 2 * k) = ws[k]) :
    ∃ b, Stream c a ws b := by
  induction ws generalizing a with
  | nil => exact ⟨a, .nil a⟩
  | cons w ws ih =>
    rw [List.length_cons] at hend hin
    have hnext : (a + 2).toNat = a.toNat + 2 := Stream.toNat_add_two (c := c) (by omega)
    obtain ⟨b, hrest⟩ := ih (a := a + 2) (by omega) (by omega) (by omega) fun k hk => by
      have hword := hwords (k + 1) (Nat.succ_lt_succ hk)
      rw [hnext, Nat.add_assoc, Nat.add_comm 2]
      exact hword
    have hfirst := hwords 0 (Nat.succ_pos _)
    exact ⟨b, .cons (by omega) (accessible_word_iff.mpr ⟨heven, by omega⟩) hfirst hrest⟩

end Code

namespace Machine

/-! ## 2. Programs that can be fetched -/

/-- A machine that has words as its program from an address on: they lie between the bounds of the
    code, they and nothing else are read from the program counter on, and the machine is at the end
    of its code only if there are none. -/
structure Fetchable (words : List Word) (address : Address) (m : Machine) : Prop where
  start_eq : m.codeStart = address
  end_eq : m.codeEnd.toNat = address.toNat + 2 * words.length
  reads : m.code.readAll m.registers.pc = (words, .pastEndOfCode m.codeEnd)
  atEnd_iff : m.atEndOfCode = true ↔ words = []

/-- The code of such a machine does not end below its start. -/
theorem Fetchable.start_le {words : List Word} {address : Address} {m : Machine}
    (h : m.Fetchable words address) : m.codeStart ≤ m.codeEnd := by
  rw [BitVec.le_def, h.start_eq, h.end_eq]
  exact Nat.le_add_right _ _

variable {m m' : Machine} {words : List Word} {address : Address} {clearFirst : Bool}

/-- The machine is at the end of its code if the program counter is not below it. -/
theorem atEndOfCode_iff : m.atEndOfCode = true ↔ m.codeEnd.toNat ≤ m.registers.pc.toNat := by
  unfold atEndOfCode
  rw [decide_eq_true_iff, BitVec.le_def]

/-- The end of the code that a load sets, as a number. -/
theorem toNat_codeEnd_of_load
    (h : loadProgram (wordsToBytes words) address clearFirst m = .ok () m') :
    m'.codeEnd.toNat = (address.toNat + 2 * words.length) % Long.count := by
  obtain ⟨-, -, rfl⟩ := loadProgram_eq_ok_iff.mp h
  show (address + BitVec.ofNat 32 (wordsToBytes words).length).toNat = _
  rw [length_wordsToBytes, BitVec.toNat_add, BitVec.toNat_ofNat, Nat.add_mod_mod]
  rfl

/-- Words that end below the top of the address space stand one after the other from the program
    counter to the end of the code. -/
theorem stream_of_load (heven : address.toNat % 2 = 0)
    (h : loadProgram (wordsToBytes words) address clearFirst m = .ok () m')
    (hfits : address.toNat + 2 * words.length < Long.count) :
    Code.Stream m'.code address words m'.codeEnd := by
  have hend := toNat_codeEnd_of_load h
  rw [Nat.mod_eq_of_lt hfits] at hend
  obtain ⟨-, hin, hm'⟩ := loadProgram_eq_ok_iff.mp h
  rw [length_wordsToBytes] at hin
  have hmemory : m'.memory =
      (m.memory.beforeFill clearFirst).setBytes address.toNat (wordsToBytes words) := by rw [hm']
  have hbefore : address.toNat + 2 * words.length ≤ (m.memory.beforeFill clearFirst).capacity := by
    rwa [Memory.capacity_beforeFill]
  obtain ⟨b, hstream⟩ : ∃ b, Code.Stream m'.code address words b := by
    refine Code.stream_of_wordAt heven (Nat.le_of_eq hend.symm) ?_ fun k hk => ?_
    · show _ ≤ m'.memory.capacity
      rwa [hmemory, Memory.capacity_setBytes]
    · show m'.memory.wordAt _ = _
      rw [hmemory]
      exact Memory.wordAt_setBytes hbefore hk
  have hb : b = m'.codeEnd := BitVec.eq_of_toNat_eq (hstream.toNat_end.trans hend.symm)
  exact hb ▸ hstream

/-- **Words that end below the top of the address space are fetched as they were loaded.** -/
theorem fetchable_of_load (heven : address.toNat % 2 = 0)
    (h : loadProgram (wordsToBytes words) address clearFirst m = .ok () m')
    (hfits : address.toNat + 2 * words.length < Long.count) : m'.Fetchable words address := by
  have hstream := stream_of_load heven h hfits
  have hend := hstream.toNat_end
  obtain ⟨-, -, hm'⟩ := loadProgram_eq_ok_iff.mp h
  have hpc : m'.registers.pc = address := by rw [hm']; rfl
  have hstop : m'.code.readAll m'.codeEnd = ([], .pastEndOfCode m'.codeEnd) :=
    Code.readAll_of_end (Nat.lt_add_of_pos_right Nat.two_pos)
  refine ⟨by rw [hm'], hend, ?_, ?_⟩
  · rw [hpc, Code.readAll_of_stream hstream, hstop, List.append_nil]
  · rw [atEndOfCode_iff, hend, hpc, ← List.length_eq_zero_iff]
    omega

/-- **Across the top of the address space the end of the code wraps** to below its start: the
    machine is at its end at once, and no word is read. -/
theorem end_of_wrapped (h : loadProgram (wordsToBytes words) address clearFirst m = .ok () m')
    (hwraps : Long.count ≤ address.toNat + 2 * words.length) :
    m'.codeEnd < m'.codeStart ∧ m'.atEndOfCode = true ∧
      m'.code.readAll m'.registers.pc = ([], .pastEndOfCode address) := by
  have hend := toNat_codeEnd_of_load h
  obtain ⟨hlong, -, hm'⟩ := loadProgram_eq_ok_iff.mp h
  rw [length_wordsToBytes] at hlong
  have haddress := Long.toNat_lt_count address
  -- fewer than 2^32 bytes from an address below 2^32 wrap once
  have hbelow : m'.codeEnd.toNat < address.toNat := by
    rw [hend, Nat.mod_eq_sub_mod hwraps, Nat.mod_eq_of_lt (by omega)]
    omega
  have hpc : m'.registers.pc = address := by rw [hm']; rfl
  refine ⟨?_, ?_, ?_⟩
  · rw [BitVec.lt_def, show m'.codeStart = address by rw [hm']]
    exact hbelow
  · rw [atEndOfCode_iff, hpc]
    exact Nat.le_of_lt hbelow
  · rw [hpc]
    exact Code.readAll_of_end (Nat.lt_add_right 2 hbelow)

/-- A load changes no byte outside its words but those that it clears. -/
theorem byte_of_load (h : loadProgram (wordsToBytes words) address clearFirst m = .ok () m')
    {k : Nat} (hk : k < address.toNat ∨ address.toNat + 2 * words.length ≤ k) :
    m'.memory.byte k = if clearFirst then 0 else m.memory.byte k := by
  obtain ⟨-, -, rfl⟩ := loadProgram_eq_ok_iff.mp h
  dsimp only
  rw [Memory.byte_setBytes_of_outside _ _ _ _ (by rwa [length_wordsToBytes])]
  cases clearFirst
  · rfl
  · exact Memory.byte_zeros _ k

/-! ## 3. Loads -/

/-- **What a load makes of its words.** They can be fetched, in order and up to the end of the code,
    exactly if they end below 2^32, as they do in every memory of less than 4 GiB. Else the code
    ends below its start: the machine is at its end at once, and no word is read. In either case
    all memory outside the words is zero if it was cleared, and else as before. -/
theorem fetchable_iff_of_load (heven : address.toNat % 2 = 0)
    (h : loadProgram (wordsToBytes words) address clearFirst m = .ok () m') :
    (m'.Fetchable words address ↔ address.toNat + 2 * words.length < Long.count) ∧
    (m.memory.capacity < Long.count → m'.Fetchable words address) ∧
    (¬m'.Fetchable words address →
      m'.codeEnd < m'.codeStart ∧ m'.atEndOfCode = true ∧ words ≠ [] ∧
        m'.code.readAll m'.registers.pc = ([], .pastEndOfCode address)) ∧
    m'.memory.capacity = m.memory.capacity ∧
    ∀ k, k < address.toNat ∨ address.toNat + 2 * words.length ≤ k →
      m'.memory.byte k = if clearFirst then 0 else m.memory.byte k := by
  have hiff : m'.Fetchable words address ↔ address.toNat + 2 * words.length < Long.count :=
    ⟨fun hm' => hm'.end_eq ▸ Long.toNat_lt_count _, fetchable_of_load heven h⟩
  obtain ⟨-, hin, hm'⟩ := loadProgram_eq_ok_iff.mp h
  rw [length_wordsToBytes] at hin
  refine ⟨hiff, fun hsmall => hiff.mpr (Nat.lt_of_le_of_lt hin hsmall), fun hnot => ?_, ?_,
    fun k hk => byte_of_load h hk⟩
  · have hwraps := Nat.le_of_not_lt fun hfits => hnot (hiff.mpr hfits)
    obtain ⟨hbelow, hat, hnone⟩ := end_of_wrapped h hwraps
    refine ⟨hbelow, hat, ?_, hnone⟩
    rintro rfl
    exact Nat.not_lt.mpr hwraps (Long.toNat_lt_count address)
  · rw [hm', Memory.capacity_setBytes, Memory.capacity_beforeFill]

/-- A new machine with a byte of memory for every address. -/
def addressable : Machine := new { memoryBytes := Long.count, traceInstructions := false }

/-- One word has room at every even address of it. -/
theorem exists_load_word (w : Word) (address : Address) (h : address.toNat + 2 ≤ Long.count) :
    ∃ m', loadProgram (wordsToBytes [w]) address false addressable = .ok () m' := by
  have hcapacity : addressable.memory.capacity = Long.count := Memory.capacity_zeros _
  refine ⟨_, loadProgram_eq_ok_iff.mpr ⟨?_, ?_, rfl⟩⟩
  · rw [length_wordsToBytes]
    exact (by decide : 2 * 1 < Long.count)
  · rw [length_wordsToBytes, hcapacity]
    exact h

/-- The last word but one that there can be is a program, and ends where the last one begins. -/
theorem fetchable_below_top :
    ∃ m', loadProgram (wordsToBytes [0x4E71]) 0xFFFFFFFC false addressable = .ok () m' ∧
      m'.Fetchable [0x4E71] 0xFFFFFFFC ∧ m'.atEndOfCode = false := by
  obtain ⟨m', h⟩ := exists_load_word 0x4E71 0xFFFFFFFC (by decide)
  have hm' := (fetchable_iff_of_load (by decide) h).1.mpr (by decide)
  exact ⟨m', h, hm', Bool.eq_false_iff.mpr fun hat => List.cons_ne_nil _ _ (hm'.atEnd_iff.mp hat)⟩

/-- **The last word that there can be is loaded and is no program**: its end wraps to zero, so the
    machine is at the end of its code before it has fetched it. -/
theorem top_word_not_fetched :
    ∃ m', loadProgram (wordsToBytes [0x4E71]) 0xFFFFFFFE false addressable = .ok () m' ∧
      ¬m'.Fetchable [0x4E71] 0xFFFFFFFE ∧ m'.codeEnd.toNat = 0 ∧ m'.codeEnd < m'.codeStart ∧
      m'.atEndOfCode = true ∧
      m'.code.readAll m'.registers.pc = ([], .pastEndOfCode 0xFFFFFFFE) := by
  obtain ⟨m', h⟩ := exists_load_word 0x4E71 0xFFFFFFFE (by decide)
  have hend := toNat_codeEnd_of_load h
  obtain ⟨hbelow, hat, hnone⟩ := end_of_wrapped h (by decide)
  refine ⟨m', h, fun hm' => ?_, hend, hbelow, hat, hnone⟩
  exact List.cons_ne_nil _ _ (hm'.atEnd_iff.mp hat)

end Machine

end Mc68000
