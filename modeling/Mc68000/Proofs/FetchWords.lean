import Mc68000.Fetch

/-!
# What is fetched is what is stored

An instruction is nothing but the words in memory from its address on, in order and without a gap.

* `Memory.wordAt` -- the word at an index, most significant byte first;
* `Code.Stream` -- the words from one address to another, all inside the code;
* `stream_nextWord` … `stream_effectiveAddress?` -- each reader takes a stream of words and records
  where it begins;
* `fetch_error` -- the two ways a fetch can fail;
* `fetch_faithful` -- **a fetched instruction is the stream of its words**; `opcode_of_fetch`,
  `word_of_fetch` -- the first two of them.
-/

namespace Mc68000

/-- The word at an index of a store. -/
def Memory.wordAt (m : Memory) (i : Nat) : Word := m.byte i ++ m.byte (i + 1)

theorem Memory.readWord_eq (m : Memory) (a : Address) :
    m.readWord a =
      if accessible a .word m.capacity then .ok (m.wordAt a.toNat) else .error .addressError := by
  unfold readWord read
  split
  · refine congrArg Except.ok ?_
    exact BitVec.setWidth_setWidth_of_le _ (by decide)
  · rfl

/-- The number of words that a field takes for an operand of a size, zero if it is unassigned. -/
def EffectiveAddress.wordCount (ea : EffectiveAddress) (size : Size) : Nat :=
  (ea.mode?.map (·.extensionWords size)).getD 0

theorem EffectiveAddress.wordCount_le_two (ea : EffectiveAddress) (size : Size) :
    ea.wordCount size ≤ 2 := by
  unfold wordCount
  cases ea.mode? with
  | none => exact Nat.zero_le 2
  | some mode => exact mode.extensionWords_le_two size

namespace Code

/-! ## 1. Streams of words -/

/-- The words from `a` to `b`, each of them inside the code and the store. -/
inductive Stream (c : Code) : Address → List Word → Address → Prop where
  | nil (a : Address) : Stream c a [] a
  | cons {a b : Address} {w : Word} {ws : List Word} (hend : a.toNat + 2 ≤ c.codeEnd.toNat)
      (hin : accessible a .word c.memory.capacity = true) (hw : c.memory.wordAt a.toNat = w)
      (hws : Stream c (a + 2) ws b) : Stream c a (w :: ws) b

namespace Stream

variable {c : Code} {a b d : Address} {ws vs : List Word}

theorem append (h : Stream c a ws b) (h' : Stream c b vs d) : Stream c a (ws ++ vs) d := by
  induction h with
  | nil => exact h'
  | cons hend hin hw _ ih => exact .cons hend hin hw (ih h')

theorem toNat_add_two (hend : a.toNat + 2 ≤ c.codeEnd.toNat) : (a + 2).toNat = a.toNat + 2 := by
  rw [BitVec.toNat_add]
  exact Nat.mod_eq_of_lt (Nat.lt_of_le_of_lt hend c.codeEnd.isLt)

/-- The stream ends two bytes further for each of its words. -/
theorem toNat_end (h : Stream c a ws b) : b.toNat = a.toNat + 2 * ws.length := by
  induction h with
  | nil => rfl
  | cons hend _ _ _ ih => rw [ih, toNat_add_two hend, List.length_cons]; omega

theorem getElem_eq (h : Stream c a ws b) (k : Nat) (hk : k < ws.length) :
    ws[k] = c.memory.wordAt (a.toNat + 2 * k) := by
  induction h generalizing k with
  | nil => cases hk
  | cons hend _ hw _ ih =>
    cases k with
    | zero => exact hw.symm
    | succ k =>
      have hk' := ih k (Nat.lt_of_succ_lt_succ hk)
      rw [toNat_add_two hend] at hk'
      rw [List.getElem_cons_succ, hk']
      congr 1
      omega

theorem end_le (h : Stream c a ws b) (hws : ws ≠ []) :
    b.toNat ≤ c.codeEnd.toNat ∧ b.toNat ≤ c.memory.capacity := by
  induction h with
  | nil => exact absurd rfl hws
  | cons hend hin _ hrest ih =>
    cases hrest with
    | nil =>
      rw [toNat_add_two hend]
      exact ⟨hend, of_decide_eq_true (Bool.and_eq_true_iff.mp hin).2⟩
    | cons => exact ih (List.cons_ne_nil _ _)

end Stream

/-! ## 2. Readers -/

section Bind

variable {α β : Type} {x : EStateM Failure Address α} {f : α → EStateM Failure Address β}
  {a b : Address}

theorem bind_eq_ok {r : β} (h : (x >>= f) a = .ok r b) :
    ∃ v a', x a = .ok v a' ∧ f v a' = .ok r b := by
  change EStateM.bind x f a = _ at h
  unfold EStateM.bind at h
  cases hx : x a with
  | ok v a' => rw [hx] at h; exact ⟨v, a', rfl, h⟩
  | error e a' => rw [hx] at h; cases h

theorem bind_eq_error {e : Failure} (h : (x >>= f) a = .error e b) :
    x a = .error e b ∨ ∃ v a', x a = .ok v a' ∧ f v a' = .error e b := by
  change EStateM.bind x f a = _ at h
  unfold EStateM.bind at h
  cases hx : x a with
  | ok v a' => rw [hx] at h; exact .inr ⟨v, a', rfl, h⟩
  | error e' a' => rw [hx] at h; cases h; exact .inl rfl

end Bind

variable {c : Code} {a b : Address}

theorem stream_nextWord {w : Word} (h : c.nextWord a = .ok w b) : Stream c a [w] b := by
  unfold nextWord at h
  split at h
  · cases h
  · rename_i hend
    rw [Memory.readWord_eq] at h
    by_cases hin : accessible a .word c.memory.capacity = true
    · rw [if_pos hin] at h
      cases h
      exact .cons (Nat.le_of_not_gt hend) hin rfl (.nil _)
    · rw [if_neg hin] at h
      cases h

theorem stream_nextWords {count : Nat} {e : Extension} (h : c.nextWords count a = .ok e b) :
    Stream c a e.toList b ∧ e.address = a ∧ e.size = min count 2 := by
  obtain ⟨address, _, hget, h⟩ := bind_eq_ok h
  cases hget
  match count with
  | 0 => cases h; exact ⟨.nil a, rfl, rfl⟩
  | 1 =>
    obtain ⟨w, b', hw, h⟩ := bind_eq_ok h
    cases h
    exact ⟨stream_nextWord hw, rfl, rfl⟩
  | count + 2 =>
    obtain ⟨high, b₁, hhigh, h⟩ := bind_eq_ok h
    obtain ⟨low, b₂, hlow, h⟩ := bind_eq_ok h
    cases h
    refine ⟨(stream_nextWord hhigh).append (stream_nextWord hlow), rfl, ?_⟩
    exact (Nat.min_eq_right (Nat.le_add_left 2 count)).symm

theorem stream_effectiveAddress {size : Size} {field : BitVec 6} {ea : EffectiveAddress}
    (h : c.effectiveAddress size field a = .ok ea b) :
    Stream c a ea.extension.toList b ∧ ea.extension.address = a ∧
      ea.extension.size = ea.wordCount size := by
  obtain ⟨e, b', hwords, h⟩ := bind_eq_ok h
  obtain ⟨hstream, haddress, hsize⟩ := stream_nextWords hwords
  cases h
  refine ⟨hstream, haddress, hsize.trans (Nat.min_eq_left ?_)⟩
  exact EffectiveAddress.wordCount_le_two ⟨field, e⟩ size

/-- The words of an operand, none if there is no operand. -/
def operandWords (ea? : Option EffectiveAddress) : List Word :=
  (ea?.map (·.extension.toList)).getD []

theorem stream_effectiveAddress? {size : Size} {field? : Option (BitVec 6)}
    {ea? : Option EffectiveAddress} (h : c.effectiveAddress? size field? a = .ok ea? b) :
    Stream c a (operandWords ea?) b ∧
      ∀ ea ∈ ea?, ea.extension.address = a ∧ ea.extension.size = ea.wordCount size := by
  cases field? with
  | none => cases h; exact ⟨.nil a, nofun⟩
  | some field =>
    obtain ⟨ea, b', hea, h⟩ := bind_eq_ok h
    cases h
    obtain ⟨hstream, hgroup⟩ := stream_effectiveAddress hea
    refine ⟨hstream, fun ea' he => ?_⟩
    cases he
    exact hgroup

/-! ## 3. Instructions -/

/-- The groups of words that a fetch takes, each from where the one before it ends. -/
structure Groups (c : Code) (i : Instruction) (a b : Address) where
  /-- The address past the opcode. -/
  own : Address
  /-- The address past the words of the operation itself. -/
  source : Address
  /-- The address past the words of the source operand. -/
  destination : Address
  opcode_stream : Stream c a [i.opcode] own
  own_stream : Stream c own i.extension.toList source
  source_stream : Stream c source (operandWords i.source) destination
  destination_stream : Stream c destination (operandWords i.destination) b
  own_address : i.extension.address = own
  source_group : ∀ ea ∈ i.source,
    ea.extension.address = source ∧ ea.extension.size = ea.wordCount i.size
  destination_group : ∀ ea ∈ i.destination,
    ea.extension.address = destination ∧ ea.extension.size = ea.wordCount i.size

theorem groups_of_fetch {i : Instruction} (h : c.fetch a = .ok (some i) b) :
    i.address = a ∧ i.length = (b - a).toNat ∧ Nonempty (Groups c i a b) := by
  obtain ⟨address, _, hget, h⟩ := bind_eq_ok h
  cases hget
  obtain ⟨opcode, a₁, hopcode, h⟩ := bind_eq_ok h
  have hs₁ := stream_nextWord hopcode
  cases hd : decode? opcode with
  | none => rw [hd] at h; cases h
  | some decoded =>
    obtain ⟨operation, layout⟩ := decoded
    rw [hd] at h
    obtain ⟨extension, a₂, hextension, h⟩ := bind_eq_ok h
    obtain ⟨source, a₃, hsource, h⟩ := bind_eq_ok h
    obtain ⟨destination, a₄, hdestination, h⟩ := bind_eq_ok h
    obtain ⟨past, _, hget, h⟩ := bind_eq_ok h
    cases hget
    cases h
    obtain ⟨hs₂, hown, _⟩ := stream_nextWords hextension
    obtain ⟨hs₃, hsrc⟩ := stream_effectiveAddress? hsource
    obtain ⟨hs₄, hdst⟩ := stream_effectiveAddress? hdestination
    exact ⟨rfl, rfl, ⟨⟨a₁, a₂, a₃, hs₁, hs₂, hs₃, hs₄, hown, hsrc, hdst⟩⟩⟩

theorem Groups.stream {i : Instruction} (g : Groups c i a b) : Stream c a i.words b :=
  ((g.opcode_stream.append g.own_stream).append g.source_stream).append g.destination_stream

/-- An instruction is what the store holds from `pc` to `pc'`. -/
structure Faithful (c : Code) (pc pc' : Address) (i : Instruction) : Prop where
  address_eq : i.address = pc
  length_eq : i.length = 2 * i.words.length
  next_eq : pc'.toNat = pc.toNat + i.length
  next_le_codeEnd : pc'.toNat ≤ c.codeEnd.toNat
  next_le_capacity : pc'.toNat ≤ c.memory.capacity
  /-- The words are those in memory, in order. -/
  word_eq : ∀ k (hk : k < i.words.length), i.words[k] = c.memory.wordAt (pc.toNat + 2 * k)
  own_address : i.extension.address.toNat = pc.toNat + 2
  source_address : ∀ ea ∈ i.source,
    ea.extension.address.toNat = pc.toNat + 2 * (1 + i.extension.size)
  destination_address : ∀ ea ∈ i.destination,
    ea.extension.address.toNat =
      pc.toNat + 2 * (1 + i.extension.size + (operandWords i.source).length)
  source_size : ∀ ea ∈ i.source, ea.extension.size = ea.wordCount i.size
  destination_size : ∀ ea ∈ i.destination, ea.extension.size = ea.wordCount i.size

/-- **A fetched instruction is the stream of its words.** -/
theorem fetch_faithful {pc pc' : Address} {i : Instruction} (h : c.fetch pc = .ok (some i) pc') :
    Faithful c pc pc' i := by
  obtain ⟨haddress, hlength, ⟨g⟩⟩ := groups_of_fetch h
  have hend := g.stream.toNat_end
  have hinside := g.stream.end_le (List.cons_ne_nil _ _)
  have hown : g.own.toNat = pc.toNat + 2 := g.opcode_stream.toNat_end
  have hsource : g.source.toNat = g.own.toNat + 2 * i.extension.size := g.own_stream.toNat_end
  have hdestination := g.source_stream.toNat_end
  have hlen : i.length = 2 * i.words.length := by
    have hpc' := pc'.isLt
    rw [hlength, BitVec.toNat_sub]
    omega
  exact
    { address_eq := haddress
      length_eq := hlen
      next_eq := by omega
      next_le_codeEnd := hinside.1
      next_le_capacity := hinside.2
      word_eq := g.stream.getElem_eq
      own_address := by rw [g.own_address, hown]
      source_address := fun ea hea => by rw [(g.source_group ea hea).1]; omega
      destination_address := fun ea hea => by rw [(g.destination_group ea hea).1]; omega
      source_size := fun ea hea => (g.source_group ea hea).2
      destination_size := fun ea hea => (g.destination_group ea hea).2 }

/-- The code `MOVE.L #$12345678,$0010.W` at address zero: four words, of which two are the literal
    and one is the address. -/
def storeLiteral : Code :=
  { memory := (Memory.zeros 8).setBytes 0 [0x21, 0xFC, 0x12, 0x34, 0x56, 0x78, 0x00, 0x10]
    codeEnd := 8 }

theorem faithful_storeLiteral :
    ∃ i pc', storeLiteral.fetch 0 = .ok (some i) pc' ∧ Faithful storeLiteral 0 pc' i := by
  obtain ⟨i, pc', h⟩ : ∃ i pc', storeLiteral.fetch 0 = .ok (some i) pc' := ⟨_, _, rfl⟩
  exact ⟨i, pc', h, fetch_faithful h⟩

/-- The opcode of a fetched instruction is the first word. -/
theorem opcode_of_fetch {pc past : Address} {i : Instruction}
    (h : c.fetch pc = .ok (some i) past) :
    i.opcode = c.memory.wordAt pc.toNat :=
  (fetch_faithful h).word_eq 0 (Nat.zero_lt_succ _)

/-- The first word of an operation itself stands behind its opcode. -/
theorem word_of_fetch {pc past : Address} {i : Instruction}
    (h : c.fetch pc = .ok (some i) past) (hsize : i.extension.size ≠ 0) :
    i.extension.word = c.memory.wordAt (pc.toNat + 2) := by
  obtain ⟨-, -, ⟨g⟩⟩ := groups_of_fetch h
  have hown : g.own.toNat = pc.toNat + 2 := g.opcode_stream.toNat_end
  have hfirst : i.extension.toList[0]? = some i.extension.word := by
    unfold Extension.size at hsize
    unfold Extension.toList Extension.word at *
    cases hwords : i.extension.words with
    | none => exact absurd (hwords ▸ rfl) hsize
    | one w | two high low => rfl
  obtain ⟨hpos, hget⟩ := List.getElem?_eq_some_iff.mp hfirst
  rw [← hget, g.own_stream.getElem_eq 0 hpos, hown]

/-! ## 4. Failures -/

/-- What a fetch can fail with: a word past the end of the code, or one that cannot be read. -/
def IsFetchFailure (f : Failure) : Prop := (∃ pc, f = .pastEndOfCode pc) ∨ f = .trap .addressError

theorem nextWord_error {f : Failure} (h : c.nextWord a = .error f b) : IsFetchFailure f := by
  unfold nextWord at h
  split at h
  · cases h; exact .inl ⟨a, rfl⟩
  · rw [Memory.readWord_eq] at h
    by_cases hin : accessible a .word c.memory.capacity = true
    · rw [if_pos hin] at h; cases h
    · rw [if_neg hin] at h; cases h; exact .inr rfl

theorem nextWords_error {count : Nat} {f : Failure} (h : c.nextWords count a = .error f b) :
    IsFetchFailure f := by
  obtain hget | ⟨address, _, _, h⟩ := bind_eq_error h
  · cases hget
  match count with
  | 0 => cases h
  | 1 =>
    obtain hw | ⟨w, _, _, h⟩ := bind_eq_error h
    · exact nextWord_error hw
    · cases h
  | count + 2 =>
    obtain hhigh | ⟨high, _, _, h⟩ := bind_eq_error h
    · exact nextWord_error hhigh
    obtain hlow | ⟨low, _, _, h⟩ := bind_eq_error h
    · exact nextWord_error hlow
    · cases h

theorem effectiveAddress?_error {size : Size} {field? : Option (BitVec 6)} {f : Failure}
    (h : c.effectiveAddress? size field? a = .error f b) : IsFetchFailure f := by
  cases field? with
  | none => cases h
  | some field =>
    obtain hea | ⟨ea, _, _, h⟩ := bind_eq_error h
    · obtain hwords | ⟨e, _, _, h⟩ := bind_eq_error hea
      · exact nextWords_error hwords
      · cases h
    · cases h

/-- **A fetch fails in two ways only.** -/
theorem fetch_error {f : Failure} (h : c.fetch a = .error f b) : IsFetchFailure f := by
  obtain hget | ⟨address, _, hget, h⟩ := bind_eq_error h
  · cases hget
  cases hget
  obtain hopcode | ⟨opcode, _, _, h⟩ := bind_eq_error h
  · exact nextWord_error hopcode
  cases hd : decode? opcode with
  | none => rw [hd] at h; cases h
  | some decoded =>
    rw [hd] at h
    obtain hown | ⟨extension, _, _, h⟩ := bind_eq_error h
    · exact nextWords_error hown
    obtain hsource | ⟨source, _, _, h⟩ := bind_eq_error h
    · exact effectiveAddress?_error hsource
    obtain hdestination | ⟨destination, _, _, h⟩ := bind_eq_error h
    · exact effectiveAddress?_error hdestination
    · cases h

end Code

end Mc68000
