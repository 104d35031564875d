import Mc68000.Proofs.Assembly.Names
import Mc68000.Proofs.Assembly.Operands
import Mc68000.Proofs.Assembly.RegisterLists
import Mc68000.Semantics

/-!
# Instructions that are written alike

* `Instruction.Placed` -- the words of the operands are the last ones of an instruction;
  `placed_of_fetch` -- **a fetched instruction has them there**;
* `Instruction.Alike` -- two fetched instructions of one place, one length and one text;
* `Alike.operation_eq`, `Alike.size_eq` -- they have one operation and one size;
* `Alike.destination_congr`, `Alike.source_congr` -- operands that are written alike are resolved
  alike.
-/

namespace Mc68000

/-! ## 1. Where the words of the operands stand -/

/-- The number of words of an operand, zero if there is none or if its field is unassigned. -/
def modeWords (mode? : Option AddressingMode) (size : Size) : Nat :=
  (mode?.map (·.extensionWords size)).getD 0

namespace Instruction

/-- The words of the operands are the last ones of an instruction. -/
structure Placed (i : Instruction) : Prop where
  source_size : ∀ ea ∈ i.source, ea.extension.size = ea.wordCount i.size
  destination_size : ∀ ea ∈ i.destination, ea.extension.size = ea.wordCount i.size
  source_end : ∀ ea ∈ i.source,
    ea.extension.address.toNat + 2 * (modeWords (i.source.bind (·.mode?)) i.size +
        modeWords (i.destination.bind (·.mode?)) i.size) = i.address.toNat + i.length
  destination_end : ∀ ea ∈ i.destination,
    ea.extension.address.toNat + 2 * modeWords (i.destination.bind (·.mode?)) i.size =
      i.address.toNat + i.length

end Instruction

theorem Code.length_operandWords {ea? : Option EffectiveAddress} {size : Size}
    (h : ∀ ea ∈ ea?, ea.extension.size = ea.wordCount size) :
    (operandWords ea?).length = modeWords (ea?.bind (·.mode?)) size := by
  cases ea? with
  | none => rfl
  | some ea => exact h ea rfl

/-- **A fetched instruction has the words of its operands at its end.** -/
theorem Code.placed_of_fetch {c : Code} {a b : Address} {i : Instruction}
    (h : c.fetch a = .ok (some i) b) : i.Placed := by
  have hf := fetch_faithful h
  have hsource := length_operandWords hf.source_size
  have hdestination := length_operandWords hf.destination_size
  have hwords : i.words.length =
      1 + i.extension.size + (operandWords i.source).length +
        (operandWords i.destination).length := by
    show (i.opcode :: i.extension.toList ++ operandWords i.source ++
      operandWords i.destination).length = _
    rw [List.length_append, List.length_append, List.length_cons, Extension.size]
    omega
  have hlength := hf.length_eq
  have haddress := congrArg BitVec.toNat hf.address_eq
  refine ⟨hf.source_size, hf.destination_size, fun ea hea => ?_, fun ea hea => ?_⟩
  · have := hf.source_address ea hea
    omega
  · have := hf.destination_address ea hea
    omega

/-! ## 2. Operands -/

namespace Exec

variable {ea? : Option EffectiveAddress} {ea : EffectiveAddress} {mode : AddressingMode}

theorem resolve_of_none (h : ea?.bind (·.mode?) = none) (size : Size) :
    resolve ea? size = throw .illegalInstruction := by
  funext m
  cases ea? with
  | none => rfl
  | some ea =>
    have hmode : ea.mode? = none := h
    simp only [resolve, EffectiveAddress.resolve, hmode]
    rfl

theorem control_of_none (h : ea?.bind (·.mode?) = none) :
    control ea? = throw .illegalInstruction := by
  funext m
  cases ea? with
  | none => rfl
  | some ea =>
    have hmode : ea.mode? = none := h
    simp only [control, EffectiveAddress.controlAddress, hmode]
    rfl

theorem resolve_of_some (h : ea.mode? = some mode) (size : Size) :
    resolve (some ea) size = fun m =>
      .ok (mode.operand ea.extension size m.registers).1
        { m with registers := (mode.operand ea.extension size m.registers).2 } := by
  funext m
  simp only [resolve, EffectiveAddress.resolve, h]

/-- A register is no place in memory. -/
theorem control_of_register (h : ea.mode? = some mode) (hmode : ∀ c, mode ≠ .control c) :
    control (some ea) = throw .illegalInstruction := by
  funext m
  cases mode with
  | control c => exact absurd rfl (hmode c)
  | _ => simp only [control, EffectiveAddress.controlAddress, h]; rfl

theorem control_of_control {c : ControlMode} (h : ea.mode? = some (.control c)) :
    control (some ea) = fun m => .ok (c.address ea.extension m.registers) m := by
  funext m
  simp only [control, EffectiveAddress.controlAddress, h]

end Exec

section Operands

open Assembly

variable {i j : Instruction} {a b : Option EffectiveAddress}

/-- What two operands share that are written alike. -/
structure SameOperand (i j : Instruction) (a b : Option EffectiveAddress) : Prop where
  mode_eq : a.bind (·.mode?) = b.bind (·.mode?)
  resolve_eq : Exec.resolve a i.size = Exec.resolve b j.size
  control_eq : Exec.control a = Exec.control b

/-- Operands that are written alike have one mode. -/
theorem mode_eq_of_operandText (h : i.operandText a = j.operandText b) :
    a.bind (·.mode?) = b.bind (·.mode?) := by
  rw [← i.mode_of_operandText a, ← j.mode_of_operandText b, h]

/-- **Operands that are written alike** lead to the same place, if their words stand at one
    address. -/
theorem sameOperand (hsize : i.size = j.size) (htext : i.operandText a = j.operandText b)
    (haddress : ∀ x ∈ a, ∀ y ∈ b, x.extension.address = y.extension.address)
    (ha : ∀ x ∈ a, x.extension.size = x.wordCount i.size)
    (hb : ∀ y ∈ b, y.extension.size = y.wordCount j.size) : SameOperand i j a b := by
  have hmode := mode_eq_of_operandText htext
  suffices h : Exec.resolve a i.size = Exec.resolve b j.size ∧ Exec.control a = Exec.control b from
    ⟨hmode, h.1, h.2⟩
  cases hmode? : a.bind (·.mode?) with
  | none =>
    have hmode?' := hmode.symm.trans hmode?
    rw [Exec.resolve_of_none hmode?, Exec.resolve_of_none hmode?', Exec.control_of_none hmode?,
      Exec.control_of_none hmode?']
    exact ⟨rfl, rfl⟩
  | some mode =>
    obtain ⟨x, rfl, hx⟩ := Option.bind_eq_some_iff.mp hmode?
    obtain ⟨y, rfl, hy⟩ := Option.bind_eq_some_iff.mp (hmode.symm.trans hmode?)
    have haddress := haddress x rfl y rfl
    have hcount (ea : EffectiveAddress) (hea : ea.mode? = some mode) (size : Size) :
        ea.wordCount size = mode.extensionWords size := by
      rw [EffectiveAddress.wordCount, hea]
      rfl
    have htext : mode.text x.extension i.size = mode.text y.extension i.size := by
      rw [i.operandText_of_mode hx, j.operandText_of_mode hy, ← hsize] at htext
      exact htext
    have hoperand := mode.operand_congr haddress ((ha x rfl).trans (hcount x hx _))
      ((hb y rfl).trans (by rw [hcount y hy, hsize])) htext
    refine ⟨?_, ?_⟩
    · rw [Exec.resolve_of_some hx, Exec.resolve_of_some hy, ← hsize, hoperand]
    · by_cases hcontrol : ∃ c, mode = .control c
      · obtain ⟨c, rfl⟩ := hcontrol
        rw [Exec.control_of_control hx, Exec.control_of_control hy,
          c.address_congr haddress htext]
      · have hno : ∀ c, mode ≠ .control c := fun c hc => hcontrol ⟨c, hc⟩
        rw [Exec.control_of_register hx hno, Exec.control_of_register hy hno]

/-- The text of an operand is no name of a special register. -/
theorem operandText_ne {t : String} (ht : AddressingMode.ofText? t.toList = none) (hmark : t ≠ "?")
    (i : Instruction) (a : Option EffectiveAddress) : i.operandText a ≠ t := by
  intro h
  have hmode := i.mode_of_operandText a
  rw [h, ht] at hmode
  refine hmark (h.symm.trans ?_)
  cases a with
  | none => rfl
  | some ea =>
    have hnone : ea.mode? = none := hmode.symm
    show ea.text i.size = "?"
    rw [EffectiveAddress.text, hnone]

theorem specialNames_ne_operandText {t : String} (ht : t ∈ ["CCR", "SR", "USP"]) (i : Instruction)
    (a : Option EffectiveAddress) : i.operandText a ≠ t := by
  have hnames : ∀ t ∈ ["CCR", "SR", "USP"],
      AddressingMode.ofText? t.toList = none ∧ t ≠ "?" := by decide
  exact operandText_ne (hnames t ht).1 (hnames t ht).2 i a

theorem specialNames_ne_addressName : ∀ t ∈ ["CCR", "SR", "USP"], ∀ n : Fin 8,
    addressName n ≠ t := by
  decide

theorem hash_ne_dataName (s : String) (n : Fin 8) : "#" ++ s ≠ dataName n := by
  intro h
  have hchars := congrArg String.toList h
  rw [toList_dataName, String.toList_append] at hchars
  exact absurd (List.cons.inj hchars).1 (by decide)

end Operands

/-! ## 3. Namesakes -/

/-- The one of some namesakes that operands belong to. -/
def Operation.ofOperands (op : Operation) (ts : List String) : Operation :=
  match op with
  | logicToCcr o | logicToSr o => if ts[1]? = some "CCR" then logicToCcr o else logicToSr o
  | bitStatic o | bitDynamic o =>
    if (ts[0]?.bind (·.toList.head?)) = some '#' then bitStatic o else bitDynamic o
  | moveFromSr | moveToCcr | moveToSr | moveUsp =>
    if ts[0]? = some "SR" then moveFromSr
    else if ts[1]? = some "CCR" then moveToCcr
    else if ts[1]? = some "SR" then moveToSr
    else moveUsp
  | shiftMemory kind direction | shiftRegister kind direction =>
    if ts.length = 1 then shiftMemory kind direction else shiftRegister kind direction
  | op => op

theorem Operation.ofOperands_of_mem_namesakes {op op' : Operation} (h : op' ∈ op.namesakes) :
    op'.ofOperands = op.ofOperands := by
  cases op
  case logicToCcr | logicToSr | bitStatic | bitDynamic | shiftMemory | shiftRegister =>
    simp only [namesakes, List.mem_cons, List.not_mem_nil, or_false] at h
    rcases h with rfl | rfl <;> rfl
  case moveFromSr | moveToCcr | moveToSr | moveUsp =>
    simp only [namesakes, List.mem_cons, List.not_mem_nil, or_false] at h
    rcases h with rfl | rfl | rfl | rfl <;> rfl
  all_goals rw [List.mem_singleton.mp h]

/-- The operations on a single bit. -/
def Operation.isBit : Operation → Bool
  | bitStatic _ | bitDynamic _ => true
  | _ => false

/-- An operation without a size in its name comes in one size only, those on single bits apart. -/
theorem Layout.size_eq_of_of? {op : Operation} {opcode opcode' : Word} {layout layout' : Layout}
    (h : of? op opcode = some layout) (h' : of? op opcode' = some layout')
    (hsized : op.isSized = false) (hbit : op.isBit = false) : layout.size = layout'.size := by
  cases op
  case bitStatic | bitDynamic => cases hbit
  case logicImmediate | arithImmediate | movep | move | movea | negx | clr | neg | not | tst | ext |
      movem | arithQuick | arithExtended | logic | arith | arithAddress | cmpm | shiftMemory |
      shiftRegister =>
    cases hsized
  all_goals
    cases h
    cases h'
    rfl

/-- The size of an operation on a single bit of an operand. -/
def AddressingMode.bitSize : Option AddressingMode → Size
  | some (dataDirect _) => .long
  | _ => .byte

theorem AddressingMode.bitSize_ofField? (field : BitVec 6) :
    Layout.bitSize field = bitSize (ofField? field) := by
  revert field
  decide

theorem Instruction.Decoded.size_of_isBit {i : Instruction} {layout : Layout} (h : i.Decoded layout)
    (hbit : i.operation.isBit = true) :
    i.size = AddressingMode.bitSize (i.destination.bind (·.mode?)) := by
  obtain ⟨words, field, hlayout⟩ :
      ∃ words field, layout = .destinationOnly (Layout.bitSize field) words field := by
    have hof := h.of?_eq
    cases hop : i.operation
    case bitStatic | bitDynamic =>
      rw [hop] at hof
      exact ⟨_, _, (Option.some.inj hof).symm⟩
    all_goals
      rw [hop] at hbit
      cases hbit
  have hdestination := h.destination_eq
  rw [hlayout] at hdestination
  obtain ⟨ea, hea, hfield⟩ := Option.map_eq_some_iff.mp hdestination
  rw [h.size_eq, hlayout, hea]
  exact (AddressingMode.bitSize_ofField? field).trans (congrArg _ (congrArg _ hfield.symm))

namespace Instruction

open Assembly

variable {i j : Instruction}

/-- **The operands of an instruction tell it from its namesakes.** -/
theorem ofOperands_operandTexts (i : Instruction) :
    i.operation.ofOperands i.operandTexts = i.operation := by
  have hnames (t : String) (ht : t ∈ ["CCR", "SR", "USP"]) (a : Option EffectiveAddress) :
      i.operandText a ≠ t := specialNames_ne_operandText ht i a
  have hnames' := specialNames_ne_addressName
  simp only [List.forall_mem_cons] at hnames hnames'
  cases hop : i.operation
  case logicToCcr | logicToSr | shiftMemory =>
    simp [Operation.ofOperands, operandTexts, hop]
  case bitStatic | bitDynamic =>
    simp [Operation.ofOperands, operandTexts, hop, toList_dataName]
  case moveFromSr | moveToCcr | moveToSr =>
    simp [Operation.ofOperands, operandTexts, hop, hnames]
  case moveUsp | shiftRegister =>
    simp only [Operation.ofOperands, operandTexts, hop]
    split <;> simp [hnames']
  all_goals rfl

/-! ## 4. One text, one operation and one size -/

/-- Two fetched instructions of one place, one length and one text. -/
structure Alike (i j : Instruction) : Prop where
  address_eq : i.address = j.address
  length_eq : i.length = j.length
  head_eq : i.head = j.head
  texts_eq : i.operandTexts = j.operandTexts
  decoded : ∃ layout, i.Decoded layout
  decoded' : ∃ layout, j.Decoded layout
  placed : i.Placed
  placed' : j.Placed

theorem alike_of_fetch {c c' : Code} {a b a' b' : Address} (hi : c.fetch a = .ok (some i) b)
    (hj : c'.fetch a' = .ok (some j) b') (haddress : i.address = j.address)
    (hlength : i.length = j.length) (htext : i.text = j.text) : Alike i j where
  address_eq := haddress
  length_eq := hlength
  head_eq := (parts_of_text htext).1
  texts_eq := (parts_of_text htext).2
  decoded := Code.decoded_of_fetch hi
  decoded' := Code.decoded_of_fetch hj
  placed := Code.placed_of_fetch hi
  placed' := Code.placed_of_fetch hj

namespace Alike

theorem operation_eq (h : Alike i j) : i.operation = j.operation := by
  obtain ⟨_, hi⟩ := h.decoded
  obtain ⟨_, hj⟩ := h.decoded'
  have hmem := namesake_of_head hi hj h.head_eq
  calc i.operation = i.operation.ofOperands i.operandTexts := i.ofOperands_operandTexts.symm
    _ = j.operation.ofOperands j.operandTexts := by
      rw [h.texts_eq, Operation.ofOperands_of_mem_namesakes hmem]
    _ = j.operation := j.ofOperands_operandTexts

theorem condition_eq (h : Alike i j) (hconditional : i.operation.isConditional = true) :
    Condition.ofOpcode i.opcode = Condition.ofOpcode j.opcode :=
  (condition_of_head h.head_eq hconditional (h.operation_eq ▸ hconditional)).2

/-- The size of an operation on a single bit is that of its mode. -/
theorem size_eq_of_isBit (h : Alike i j) (hbit : i.operation.isBit = true) : i.size = j.size := by
  obtain ⟨_, hi⟩ := h.decoded
  obtain ⟨_, hj⟩ := h.decoded'
  have hdestination : i.operandText i.destination = j.operandText j.destination := by
    have htexts := h.texts_eq
    have hop := h.operation_eq
    cases hi' : i.operation
    case bitStatic o | bitDynamic o =>
      simp only [operandTexts, hi', ← hop, List.cons.injEq, and_true] at htexts
      exact htexts.2
    all_goals simp [hi', Operation.isBit] at hbit
  rw [hi.size_of_isBit hbit, hj.size_of_isBit (h.operation_eq ▸ hbit),
    mode_eq_of_operandText hdestination]

/-- **One text, one size.** -/
theorem size_eq (h : Alike i j) : i.size = j.size := by
  obtain ⟨_, hi⟩ := h.decoded
  obtain ⟨_, hj⟩ := h.decoded'
  cases hsized : i.operation.isSized with
  | true => exact (mnemonic_size_of_head h.head_eq hsized).2
  | false =>
    cases hbit : i.operation.isBit with
    | true => exact h.size_eq_of_isBit hbit
    | false =>
      rw [hi.size_eq, hj.size_eq]
      exact Layout.size_eq_of_of? hi.of?_eq (h.operation_eq ▸ hj.of?_eq) hsized hbit

/-! ## 5. Operands of such instructions -/

theorem end_eq (h : Alike i j) : i.address.toNat + i.length = j.address.toNat + j.length := by
  rw [h.address_eq, h.length_eq]

/-- **Destinations that are written alike are one.** -/
theorem destination_congr (h : Alike i j)
    (htext : i.operandText i.destination = j.operandText j.destination) :
    SameOperand i j i.destination j.destination := by
  refine sameOperand h.size_eq htext (fun x hx y hy => BitVec.eq_of_toNat_eq ?_)
    h.placed.destination_size h.placed'.destination_size
  have hend := h.placed.destination_end x hx
  have hend' := h.placed'.destination_end y hy
  have hboth := h.end_eq
  rw [mode_eq_of_operandText htext, h.size_eq] at hend
  omega

/-- **Sources that are written alike are one**, behind which the destination takes as many words. -/
theorem source_congr (h : Alike i j)
    (hdestination : i.destination.bind (·.mode?) = j.destination.bind (·.mode?))
    (htext : i.operandText i.source = j.operandText j.source) :
    SameOperand i j i.source j.source := by
  refine sameOperand h.size_eq htext (fun x hx y hy => BitVec.eq_of_toNat_eq ?_)
    h.placed.source_size h.placed'.source_size
  have hend := h.placed.source_end x hx
  have hend' := h.placed'.source_end y hy
  have hboth := h.end_eq
  rw [mode_eq_of_operandText htext, hdestination, h.size_eq] at hend
  omega

theorem source_congr_of_only (h : Alike i j) (honly : i.operation.hasDestination = false)
    (htext : i.operandText i.source = j.operandText j.source) :
    SameOperand i j i.source j.source := by
  obtain ⟨_, hi⟩ := h.decoded
  obtain ⟨_, hj⟩ := h.decoded'
  refine h.source_congr ?_ htext
  rw [hi.destination_eq_none honly, hj.destination_eq_none (h.operation_eq ▸ honly)]

end Alike

end Instruction

end Mc68000
