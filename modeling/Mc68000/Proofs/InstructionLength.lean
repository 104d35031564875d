import Mc68000.Proofs.FetchWords

/-!
# How long an instruction is

The opcode alone tells how many words an instruction has, and a fetch looks at those words only.

* `Code.lengthOf` -- the number of bytes of the instruction that an opcode begins, two for an opcode
  that stands for nothing; `lengthOf_mem` -- one to five words;
* `Code.FirstShort` -- the first address, word by word, at which no whole word fits below the end;
* `Code.Agree` -- two codes that hold the same words at an address;
* `Code.Takes` -- **a reader that takes a fixed number of words**: it succeeds exactly if they all
  fit, it fails at the first that does not, and it depends on no other byte;
* `Takes.bind` -- one such reader after the other; `takes_nextWord` … `takes_finish` -- every reader
  that a fetch is made of is one;
* `exists_fetch` -- an opcode that stands for something is fetched if its words fit;
* `fetch_by_length` -- **so a fetch is decided by the length of its opcode**.
-/

namespace Mc68000

/-! ## 1. Lengths -/

/-- The number of words that an operand field takes from the instruction stream, zero if there is
    no field or if it is unassigned. -/
def Layout.fieldWords (size : Size) (field? : Option (BitVec 6)) : Nat :=
  ((field?.bind AddressingMode.ofField?).map (·.extensionWords size)).getD 0

/-- The number of words behind the opcode. -/
def Layout.words (layout : Layout) : Nat :=
  layout.ownWords + fieldWords layout.size layout.source +
    fieldWords layout.size layout.destination

namespace Layout

theorem fieldWords_le_two (size : Size) (field? : Option (BitVec 6)) :
    fieldWords size field? ≤ 2 := by
  unfold fieldWords
  cases field?.bind AddressingMode.ofField? with
  | none => exact Nat.zero_le 2
  | some mode => exact mode.extensionWords_le_two size

theorem literalWords_le_two (size : Size) : literalWords size ≤ 2 := by
  cases size <;> decide

/-- An operation with words of its own has no source operand. -/
theorem ownWords_of_of? {op : Operation} {opcode : Word} {layout : Layout}
    (h : of? op opcode = some layout) :
    layout.ownWords ≤ 2 ∧ (layout.source = none ∨ layout.ownWords = 0) := by
  cases op
  case logicImmediate | arithImmediate =>
    obtain ⟨size, _, rfl⟩ := Option.map_eq_some_iff.mp h
    exact ⟨literalWords_le_two size, .inl rfl⟩
  case negx | clr | neg | not | tst | arithQuick | logic | arith | arithExtended | cmpm |
      shiftRegister =>
    obtain ⟨size, _, rfl⟩ := Option.map_eq_some_iff.mp h
    exact ⟨Nat.zero_le 2, .inl rfl⟩
  case bra | bsr | bcc =>
    cases h
    refine ⟨?_, .inl rfl⟩
    show (if opcode.setWidth 8 = 0#8 then 1 else 0) ≤ 2
    split <;> omega
  case logicToCcr | logicToSr | bitStatic | movep | link | stop | dbcc | movem =>
    cases h
    exact ⟨Nat.le_succ 1, .inl rfl⟩
  all_goals
    cases h
    exact ⟨Nat.zero_le 2, .inr rfl⟩

theorem words_le_four {op : Operation} {opcode : Word} {layout : Layout}
    (h : of? op opcode = some layout) : layout.words ≤ 4 := by
  have hsource := fieldWords_le_two layout.size layout.source
  have hdestination := fieldWords_le_two layout.size layout.destination
  obtain ⟨hown, hnone | hzero⟩ := ownWords_of_of? h
  · have hsource : fieldWords layout.size layout.source = 0 := by rw [hnone]; rfl
    unfold words
    omega
  · unfold words
    omega

end Layout

namespace Code

/-- The number of words behind an opcode. -/
def wordsBehind (opcode : Word) : Nat := ((decode? opcode).map (·.2.words)).getD 0

/-- The number of bytes of the instruction that an opcode begins. One that stands for nothing is
    only itself. -/
def lengthOf (opcode : Word) : Nat := 2 * (1 + wordsBehind opcode)

theorem of?_of_decode? {opcode : Word} {op : Operation} {layout : Layout}
    (h : decode? opcode = some (op, layout)) : Layout.of? op opcode = some layout := by
  obtain ⟨op', _, h⟩ := Option.bind_eq_some_iff.mp h
  obtain ⟨layout', hlayout, h⟩ := Option.bind_eq_some_iff.mp h
  cases h
  exact hlayout

theorem wordsBehind_le_four (opcode : Word) : wordsBehind opcode ≤ 4 := by
  unfold wordsBehind
  cases hd : decode? opcode with
  | none => exact Nat.zero_le 4
  | some decoded => exact Layout.words_le_four (of?_of_decode? hd)

/-- **An instruction has one to five words.** -/
theorem lengthOf_mem (opcode : Word) : lengthOf opcode ∈ [2, 4, 6, 8, 10] := by
  have h := wordsBehind_le_four opcode
  simp only [lengthOf, List.mem_cons, List.not_mem_nil, or_false]
  omega

/-! ## 2. Readers of a fixed number of words -/

/-- `p` is the first address, word by word from `a` on, at which no whole word fits below the end
    of the code. -/
structure FirstShort (c : Code) (a p : Address) : Prop where
  aligned : ∃ k, p.toNat = a.toNat + 2 * k
  short : c.codeEnd.toNat < p.toNat + 2
  first : ∀ k, a.toNat + 2 * k < p.toNat → a.toNat + 2 * k + 2 ≤ c.codeEnd.toNat

/-- Two codes hold the same `count` words at `a`, whole and below both ends. -/
structure Agree (c c' : Code) (a : Address) (count : Nat) : Prop where
  le_codeEnd : a.toNat + 2 * count ≤ c.codeEnd.toNat
  le_codeEnd' : a.toNat + 2 * count ≤ c'.codeEnd.toNat
  le_capacity : a.toNat + 2 * count ≤ c.memory.capacity
  le_capacity' : a.toNat + 2 * count ≤ c'.memory.capacity
  byte_eq : ∀ j, a.toNat ≤ j → j < a.toNat + 2 * count → c.memory.byte j = c'.memory.byte j

/-- A reader that takes `count` words, neither more nor less, whatever the code. -/
structure Takes {α : Type} (count : Nat) (x : Code → EStateM Failure Address α) : Prop where
  moves : ∀ {c : Code} {a b : Address} {v : α}, x c a = .ok v b →
    b.toNat = a.toNat + 2 * count
  /-- In a code inside its store the end of the code alone decides between success and failure. -/
  outcome : ∀ (c : Code) (a : Address), c.codeEnd.toNat ≤ c.memory.capacity →
    a.toNat % 2 = 0 → a.toNat ≤ c.codeEnd.toNat →
    (a.toNat + 2 * count ≤ c.codeEnd.toNat ∧ ∃ v b, x c a = .ok v b) ∨
      (c.codeEnd.toNat < a.toNat + 2 * count ∧
        ∃ p, x c a = .error (.pastEndOfCode p) p ∧ c.FirstShort a p)
  /-- No other byte matters. -/
  congr : ∀ {c c' : Code} {a : Address}, Agree c c' a count → x c a = x c' a

/-- An even address is one that a word may be read from. -/
theorem accessible_word_iff {a : Address} {capacity : Nat} :
    accessible a .word capacity = true ↔ a.toNat % 2 = 0 ∧ a.toNat + 2 ≤ capacity := by
  have hbit : a.getLsbD 0 = decide (a.toNat % 2 = 1) := Nat.testBit_zero a.toNat
  rw [accessible, hbit, inBounds, Bool.and_eq_true_iff, decide_eq_true_iff]
  refine and_congr ?_ Iff.rfl
  simp

namespace FirstShort

variable {c : Code} {a b p : Address}

theorem self (h : c.codeEnd.toNat < a.toNat + 2) : c.FirstShort a a :=
  ⟨⟨0, rfl⟩, h, fun _ hk => absurd hk (by omega)⟩

/-- Words that fit put nothing in the way of the first that does not. -/
theorem of_behind {k : Nat} (hb : b.toNat = a.toNat + 2 * k) (hend : b.toNat ≤ c.codeEnd.toNat)
    (h : c.FirstShort b p) : c.FirstShort a p := by
  obtain ⟨⟨n, hn⟩, hshort, hfirst⟩ := h
  refine ⟨⟨k + n, by omega⟩, hshort, fun j hj => ?_⟩
  by_cases hjk : j < k
  · omega
  · have := hfirst (j - k) (by omega)
    omega

end FirstShort

namespace Agree

variable {c c' : Code} {a b : Address} {k n : Nat}

theorem first (h : Agree c c' a (k + n)) : Agree c c' a k where
  le_codeEnd := by have := h.le_codeEnd; omega
  le_codeEnd' := by have := h.le_codeEnd'; omega
  le_capacity := by have := h.le_capacity; omega
  le_capacity' := by have := h.le_capacity'; omega
  byte_eq := fun j hj hj' => h.byte_eq j hj (by omega)

theorem behind (h : Agree c c' a (k + n)) (hb : b.toNat = a.toNat + 2 * k) : Agree c c' b n where
  le_codeEnd := by have := h.le_codeEnd; omega
  le_codeEnd' := by have := h.le_codeEnd'; omega
  le_capacity := by have := h.le_capacity; omega
  le_capacity' := by have := h.le_capacity'; omega
  byte_eq := fun j hj hj' => h.byte_eq j (by omega) (by omega)

theorem wordAt_eq (h : Agree c c' a (1 + n)) :
    c.memory.wordAt a.toNat = c'.memory.wordAt a.toNat := by
  unfold Memory.wordAt
  rw [h.byte_eq a.toNat (by omega) (by omega), h.byte_eq (a.toNat + 1) (by omega) (by omega)]

end Agree

namespace Takes

variable {α β : Type} {k n : Nat}

theorem pure (v : α) : Takes 0 fun _ => (Pure.pure v : EStateM Failure Address α) where
  moves := fun h => by cases h; rfl
  outcome := fun _ a _ _ ha => .inl ⟨ha, v, a, rfl⟩
  congr := fun _ => rfl

theorem bind {x : Code → EStateM Failure Address α} {f : α → Code → EStateM Failure Address β}
    (hx : Takes k x) (hf : ∀ v, Takes n (f v)) : Takes (k + n) fun c => x c >>= (f · c) where
  moves := by
    intro c a b r h
    obtain ⟨v, a', hxa, hfa⟩ := bind_eq_ok h
    have h₁ := hx.moves hxa
    have h₂ := (hf v).moves hfa
    omega
  outcome := by
    intro c a hcap heven hend
    rw [run_bind]
    obtain ⟨hfit, v, b, hxa⟩ | ⟨hshort, p, hxa, hp⟩ := hx.outcome c a hcap heven hend
    · have hb := hx.moves hxa
      rw [hxa]
      obtain ⟨hfit', hok⟩ | ⟨hshort', p, hfa, hp⟩ :=
        (hf v).outcome c b hcap (by omega) (by omega)
      · exact .inl ⟨by omega, hok⟩
      · exact .inr ⟨by omega, p, hfa, hp.of_behind hb (by omega)⟩
    · rw [hxa]
      exact .inr ⟨by omega, p, rfl, hp⟩
  congr := by
    intro c c' a h
    rw [run_bind, run_bind, ← hx.congr h.first]
    cases hxa : x c a with
    | error e b => rfl
    | ok v b => exact (hf v).congr (h.behind (hx.moves hxa))

/-- To look at the position takes nothing. -/
theorem here {x : Address → Code → EStateM Failure Address α} (hx : ∀ a, Takes k (x a)) :
    Takes k fun c => get >>= (x · c) where
  moves := fun {_ a _ _} h => (hx a).moves h
  outcome := fun c a => (hx a).outcome c a
  congr := fun {_ _ a} h => (hx a).congr h

/-- What is done with the words taken takes no more. -/
theorem map {x : Code → EStateM Failure Address α} (hx : Takes k x) (g : α → β) :
    Takes k fun c => x c >>= fun v => Pure.pure (g v) :=
  hx.bind fun v => .pure (g v)

end Takes

/-! ## 3. The readers of a fetch -/

theorem nextWord_eq (c : Code) (a : Address) (hend : a.toNat + 2 ≤ c.codeEnd.toNat) :
    c.nextWord a =
      if accessible a .word c.memory.capacity then .ok (c.memory.wordAt a.toNat) (a + 2)
      else .error (.trap .addressError) a := by
  unfold nextWord
  rw [if_neg (by omega), Memory.readWord_eq]
  by_cases hin : accessible a .word c.memory.capacity = true
  · rw [if_pos hin, if_pos hin]
  · rw [if_neg hin, if_neg hin]

theorem takes_nextWord : Takes 1 nextWord where
  moves := fun h => (stream_nextWord h).toNat_end
  outcome := by
    intro c a hcap heven _
    by_cases hend : a.toNat + 2 ≤ c.codeEnd.toNat
    · refine .inl ⟨hend, c.memory.wordAt a.toNat, a + 2, ?_⟩
      rw [nextWord_eq c a hend, if_pos (accessible_word_iff.mpr ⟨heven, by omega⟩)]
    · refine .inr ⟨by omega, a, ?_, .self (by omega)⟩
      unfold nextWord
      rw [if_pos (by omega)]
  congr := by
    intro c c' a h
    have hin : accessible a .word c.memory.capacity = accessible a .word c'.memory.capacity := by
      rw [Bool.eq_iff_iff, accessible_word_iff, accessible_word_iff]
      have h₁ := h.le_capacity
      have h₂ := h.le_capacity'
      omega
    rw [nextWord_eq c a h.le_codeEnd, nextWord_eq c' a h.le_codeEnd', hin,
      Agree.wordAt_eq (n := 0) h]

theorem takes_nextWords {count : Nat} (hcount : count ≤ 2) :
    Takes count (nextWords · count) := by
  match count with
  | 0 => exact .here fun a => .pure (Extension.mk a .none)
  | 1 => exact .here fun a => takes_nextWord.map fun w => Extension.mk a (.one w)
  | 2 =>
    exact .here fun a => takes_nextWord.bind fun high =>
      takes_nextWord.map fun low => Extension.mk a (.two high low)

theorem takes_effectiveAddress? (size : Size) (field? : Option (BitVec 6)) :
    Takes (Layout.fieldWords size field?) (effectiveAddress? · size field?) := by
  have hcount := Layout.fieldWords_le_two size field?
  cases field? with
  | none => exact .pure none
  | some field => exact ((takes_nextWords hcount).map fun e => EffectiveAddress.mk field e).map some

/-- The rest of a fetch behind the opcode. -/
def finish (c : Code) (address : Address) (opcode : Word) :
    EStateM Failure Address (Option Instruction) :=
  match decode? opcode with
  | none => return none
  | some (operation, layout) => do
    let extension ← c.nextWords layout.ownWords
    let source ← c.effectiveAddress? layout.size layout.source
    let destination ← c.effectiveAddress? layout.size layout.destination
    let pc ← get
    return some
      { address, opcode, operation, size := layout.size, extension, source, destination,
        length := (pc - address).toNat }

theorem fetch_eq (c : Code) (pc : Address) :
    c.fetch pc = (c.nextWord >>= c.finish pc) pc := rfl

theorem takes_finish (address : Address) (opcode : Word) :
    Takes (wordsBehind opcode) (finish · address opcode) := by
  unfold finish wordsBehind
  cases hd : decode? opcode with
  | none => exact .pure none
  | some decoded =>
    obtain ⟨operation, layout⟩ := decoded
    have hown := (Layout.ownWords_of_of? (of?_of_decode? hd)).1
    show Takes (layout.ownWords + _ + _) _
    rw [Nat.add_assoc]
    refine (takes_nextWords hown).bind fun extension => ?_
    refine (takes_effectiveAddress? _ _).bind fun source => ?_
    exact (takes_effectiveAddress? _ _).bind fun destination => .here fun pc => .pure _

/-! ## 4. Fetches -/

theorem nextWord_eq_wordAt {c : Code} {a b : Address} {w : Word} (h : c.nextWord a = .ok w b) :
    w = c.memory.wordAt a.toNat := (stream_nextWord h).getElem_eq 0 Nat.zero_lt_one

/-- No instruction comes out only of an opcode that stands for nothing. -/
theorem decode?_of_finish {c : Code} {address a b : Address} {opcode : Word}
    (h : c.finish address opcode a = .ok none b) : decode? opcode = none := by
  unfold finish at h
  cases hd : decode? opcode with
  | none => rfl
  | some decoded =>
    rw [hd] at h
    obtain ⟨extension, _, _, h⟩ := bind_eq_ok h
    obtain ⟨source, _, _, h⟩ := bind_eq_ok h
    obtain ⟨destination, _, _, h⟩ := bind_eq_ok h
    obtain ⟨past, _, _, h⟩ := bind_eq_ok h
    cases h

theorem finish_eq_none {c : Code} {address a b : Address} {opcode : Word}
    (h : c.finish address opcode a = .ok none b) : wordsBehind opcode = 0 := by
  rw [wordsBehind, decode?_of_finish h]
  rfl

/-- Behind an opcode that can be read, the fetch goes on with the words that it asks for. -/
theorem fetch_of_readable {c : Code} {pc : Address} (heven : pc.toNat % 2 = 0)
    (hcap : c.codeEnd.toNat ≤ c.memory.capacity) (hpc : pc.toNat + 2 ≤ c.codeEnd.toNat) :
    c.fetch pc = c.finish pc (c.memory.wordAt pc.toNat) (pc + 2) := by
  rw [fetch_eq, run_bind, nextWord_eq c pc hpc,
    if_pos (accessible_word_iff.mpr ⟨heven, by omega⟩)]

/-- A fetch that succeeds has moved by the length of the opcode. -/
theorem fetch_moves {c : Code} {pc pc' : Address} {i? : Option Instruction}
    (h : c.fetch pc = .ok i? pc') :
    pc'.toNat = pc.toNat + lengthOf (c.memory.wordAt pc.toNat) := by
  rw [fetch_eq] at h
  obtain ⟨opcode, a, hopcode, hrest⟩ := bind_eq_ok h
  have hfirst := takes_nextWord.moves hopcode
  have hbehind := (takes_finish pc opcode).moves hrest
  rw [lengthOf, ← nextWord_eq_wordAt hopcode]
  omega

/-- **A fetch in a code inside its store** succeeds exactly if the whole instruction fits below the
    end, and else fails at its first word that does not. -/
theorem fetch_outcome {c : Code} {pc : Address} (heven : pc.toNat % 2 = 0)
    (hcap : c.codeEnd.toNat ≤ c.memory.capacity) (hpc : pc.toNat + 2 ≤ c.codeEnd.toNat) :
    if pc.toNat + lengthOf (c.memory.wordAt pc.toNat) ≤ c.codeEnd.toNat then
      ∃ i? pc', c.fetch pc = .ok i? pc'
    else ∃ p, c.fetch pc = .error (.pastEndOfCode p) p ∧ c.FirstShort pc p := by
  have hnext : (pc + 2).toNat = pc.toNat + 2 * 1 := Stream.toNat_add_two hpc
  rw [fetch_of_readable heven hcap hpc, lengthOf]
  obtain ⟨hfit, hok⟩ | ⟨hshort, p, herror, hp⟩ :=
    (takes_finish pc (c.memory.wordAt pc.toNat)).outcome c (pc + 2) hcap (by omega) (by omega)
  · rw [if_pos (by omega)]
    exact hok
  · rw [if_neg (by omega)]
    exact ⟨p, herror, hp.of_behind hnext (by omega)⟩

/-- An opcode that stands for something is fetched if all its words fit. -/
theorem exists_fetch {c : Code} {pc : Address} {decoded : Operation × Layout}
    (heven : pc.toNat % 2 = 0) (hcap : c.codeEnd.toNat ≤ c.memory.capacity)
    (hdecode : decode? (c.memory.wordAt pc.toNat) = some decoded)
    (hfits : pc.toNat + lengthOf (c.memory.wordAt pc.toNat) ≤ c.codeEnd.toNat) :
    ∃ i past, c.fetch pc = .ok (some i) past := by
  have hfirst : pc.toNat + 2 ≤ c.codeEnd.toNat := by
    rw [lengthOf] at hfits
    omega
  have houtcome := fetch_outcome heven hcap hfirst
  rw [if_pos hfits] at houtcome
  obtain ⟨i?, past, hfetch⟩ := houtcome
  cases i? with
  | some i => exact ⟨i, past, hfetch⟩
  | none =>
    have hrest := hfetch
    rw [fetch_of_readable heven hcap hfirst] at hrest
    cases (decode?_of_finish hrest).symm.trans hdecode

/-- **A fetch depends on no byte** but those of the instruction. -/
theorem fetch_congr {c c' : Code} {pc : Address}
    (h : Agree c c' pc (1 + wordsBehind (c.memory.wordAt pc.toNat))) :
    c.fetch pc = c'.fetch pc := by
  rw [fetch_eq, fetch_eq, run_bind, run_bind, ← takes_nextWord.congr h.first]
  cases hopcode : c.nextWord pc with
  | error e a => rfl
  | ok opcode a =>
    rw [← nextWord_eq_wordAt hopcode] at h
    exact (takes_finish pc opcode).congr (h.behind (takes_nextWord.moves hopcode))

/-- **The opcode alone decides a fetch.** With `len` the length of the opcode at `pc`, a fetch in a
    code inside its store succeeds exactly if `len` bytes fit below the end; it then moves by `len`,
    and else it fails at the first word that does not fit. It depends on those bytes only. -/
theorem fetch_by_length (c : Code) (pc : Address) (heven : pc.toNat % 2 = 0)
    (hcap : c.codeEnd.toNat ≤ c.memory.capacity) (hpc : pc.toNat + 2 ≤ c.codeEnd.toNat) :
    let len := lengthOf (c.memory.wordAt pc.toNat)
    len ∈ [2, 4, 6, 8, 10] ∧
      (if pc.toNat + len ≤ c.codeEnd.toNat then
        ∃ i? pc', c.fetch pc = .ok i? pc' ∧ pc'.toNat = pc.toNat + len ∧
          (i? = none → len = 2) ∧ ∀ i ∈ i?, i.length = len
      else ∃ p, c.fetch pc = .error (.pastEndOfCode p) p ∧ c.FirstShort pc p) ∧
      ∀ c' : Code, pc.toNat + len ≤ c.codeEnd.toNat →
        pc.toNat + len ≤ c'.codeEnd.toNat → pc.toNat + len ≤ c'.memory.capacity →
        (∀ j, pc.toNat ≤ j → j < pc.toNat + len → c.memory.byte j = c'.memory.byte j) →
        c'.fetch pc = c.fetch pc := by
  intro len
  refine ⟨lengthOf_mem _, ?_, fun c' hfit hfit' hcap' hbytes => ?_⟩
  · have houtcome := fetch_outcome heven hcap hpc
    by_cases hfit : pc.toNat + len ≤ c.codeEnd.toNat
    · rw [if_pos hfit] at houtcome ⊢
      obtain ⟨i?, pc', hfetch⟩ := houtcome
      have hmoves := fetch_moves hfetch
      refine ⟨i?, pc', hfetch, hmoves, ?_, ?_⟩
      · rintro rfl
        rw [fetch_of_readable heven hcap hpc] at hfetch
        show 2 * (1 + wordsBehind _) = 2
        rw [finish_eq_none hfetch]
      · rintro i rfl
        have hnext := (fetch_faithful hfetch).next_eq
        omega
    · rw [if_neg hfit] at houtcome ⊢
      exact houtcome
  · have hlen : len = 2 * (1 + wordsBehind (c.memory.wordAt pc.toNat)) := rfl
    refine (fetch_congr ⟨?_, ?_, ?_, ?_, fun j hj hj' => hbytes j hj ?_⟩).symm <;> omega

/-- The code `ADDI.L #$10000,$2000.L`, five words, in a store of the given capacity and up to the
    given end. -/
def addLiteral (capacity : Nat) (codeEnd : Address) : Code :=
  { memory := (Memory.zeros capacity).setBytes 0
      [0x06, 0xB9, 0x00, 0x01, 0x00, 0x00, 0x00, 0x00, 0x20, 0x00]
    codeEnd }

/-- One byte short, it cannot be fetched, for its fifth word does not fit; whole, it can, and a
    larger store makes no difference. -/
theorem fetch_addLiteral :
    (∃ p, (addLiteral 10 9).fetch 0 = .error (.pastEndOfCode p) p ∧
        (addLiteral 10 9).FirstShort 0 p) ∧
      (∃ i? pc', (addLiteral 10 10).fetch 0 = .ok i? pc' ∧ pc'.toNat = 10) ∧
      (addLiteral 16 12).fetch 0 = (addLiteral 10 10).fetch 0 := by
  have hshort := (fetch_by_length (addLiteral 10 9) 0 (by decide) (by decide) (by decide)).2.1
  obtain ⟨-, hwhole, hlocal⟩ :=
    fetch_by_length (addLiteral 10 10) 0 (by decide) (by decide) (by decide)
  rw [if_neg (by decide)] at hshort
  rw [if_pos (by decide)] at hwhole
  obtain ⟨i?, pc', hfetch, hpc', -⟩ := hwhole
  refine ⟨hshort, ⟨i?, pc', hfetch, hpc'⟩, ?_⟩
  have hbytes : ∀ j < 10, (addLiteral 10 10).memory.byte j = (addLiteral 16 12).memory.byte j := by
    decide
  exact hlocal _ (by decide) (by decide) (by decide) fun j _ hj => hbytes j hj

end Code

end Mc68000
