import Mc68000.Proofs.InstructionLength

/-!
# What an opcode fixes

An instruction that is fetched has the layout of its opcode.

* `Instruction.Decoded` -- an instruction with the operation, the size and the operand fields of a
  layout; `decoded_of_fetch` -- **every fetched instruction is one**; `size_of_fetch` -- and has its
  words;
* `Code.fetch_of_stream` -- **an opcode that stands for something is fetched from its words**;
* `Operation.hasSource`, `hasDestination` -- the operations with a source and with a destination
  field; `Decoded.source_eq_none`, `destination_eq_none` -- the others have none;
* `Operation.fixedSize?` -- the size of an operation that comes in one size only;
* `Decoded.destination_movea` -- `MOVEA` names an address register as its destination.
-/

namespace Mc68000

/-- An instruction with the operation of its opcode and the size and the operand fields of a
    layout. -/
structure Instruction.Decoded (i : Instruction) (layout : Layout) : Prop where
  decode_eq : Code.decode? i.opcode = some (i.operation, layout)
  size_eq : i.size = layout.size
  source_eq : i.source.map (·.field) = layout.source
  destination_eq : i.destination.map (·.field) = layout.destination

namespace Code

/-! ## 1. Fetched instructions -/

theorem field_effectiveAddress? {c : Code} {a b : Address} {size : Size}
    {field? : Option (BitVec 6)} {ea? : Option EffectiveAddress}
    (h : c.effectiveAddress? size field? a = .ok ea? b) : ea?.map (·.field) = field? := by
  cases field? with
  | none => cases h; rfl
  | some field =>
    obtain ⟨ea, b', hea, h⟩ := bind_eq_ok h
    cases h
    obtain ⟨e, b'', _, h⟩ := bind_eq_ok hea
    cases h
    rfl

/-- **A fetched instruction has the layout of its opcode.** -/
theorem decoded_of_fetch {c : Code} {pc pc' : Address} {i : Instruction}
    (h : c.fetch pc = .ok (some i) pc') : ∃ layout, i.Decoded layout := by
  obtain ⟨address, _, _, h⟩ := bind_eq_ok h
  obtain ⟨opcode, _, _, h⟩ := bind_eq_ok h
  cases hd : decode? opcode with
  | none => rw [hd] at h; cases h
  | some decoded =>
    obtain ⟨operation, layout⟩ := decoded
    rw [hd] at h
    obtain ⟨extension, _, _, h⟩ := bind_eq_ok h
    obtain ⟨source, _, hsource, h⟩ := bind_eq_ok h
    obtain ⟨destination, _, hdestination, h⟩ := bind_eq_ok h
    obtain ⟨past, _, _, h⟩ := bind_eq_ok h
    cases h
    exact ⟨layout, hd, rfl, field_effectiveAddress? hsource, field_effectiveAddress? hdestination⟩

/-- A fetched instruction has as many words of its own as its layout says. -/
theorem size_of_fetch {c : Code} {pc past : Address} {i : Instruction}
    (h : c.fetch pc = .ok (some i) past) :
    ∃ layout, i.Decoded layout ∧ i.extension.size = min layout.ownWords 2 := by
  obtain ⟨layout, hdecoded⟩ := decoded_of_fetch h
  obtain ⟨address, _, _, h⟩ := bind_eq_ok h
  obtain ⟨opcode, _, _, h⟩ := bind_eq_ok h
  refine ⟨layout, hdecoded, ?_⟩
  cases hd : decode? opcode with
  | none => rw [hd] at h; cases h
  | some decoded =>
    obtain ⟨operation, own⟩ := decoded
    rw [hd] at h
    obtain ⟨extension, _, hextension, h⟩ := bind_eq_ok h
    obtain ⟨source, _, _, h⟩ := bind_eq_ok h
    obtain ⟨destination, _, _, h⟩ := bind_eq_ok h
    obtain ⟨past, _, _, h⟩ := bind_eq_ok h
    cases h
    cases hdecoded.decode_eq.symm.trans hd
    exact (stream_nextWords hextension).2.2

/-- **An opcode that stands for something is fetched from a stream** that goes on with its words up
    to the end of the code. -/
theorem fetch_of_stream {c : Code} {a : Address} {opcode : Word} {ws : List Word}
    {op : Operation} {layout : Layout} (h : Stream c a (opcode :: ws) c.codeEnd)
    (hdecode : decode? opcode = some (op, layout)) (hwords : layout.words ≤ ws.length) :
    ∃ i past, c.fetch a = .ok (some i) past ∧ i.opcode = opcode ∧ i.operation = op ∧
      i.Decoded layout ∧ i.address = a ∧ i.length = 2 * (1 + layout.words) := by
  have hopcode : c.memory.wordAt a.toNat = opcode := (h.getElem_eq 0 (Nat.succ_pos _)).symm
  have hlength : lengthOf (c.memory.wordAt a.toNat) = 2 * (1 + layout.words) := by
    rw [hopcode, lengthOf, wordsBehind, hdecode]
    rfl
  have hend := h.toNat_end
  rw [List.length_cons] at hend
  have heven : a.toNat % 2 = 0 := by
    cases h with
    | cons _ hin _ _ => exact (accessible_word_iff.mp hin).1
  obtain ⟨i, past, hfetch⟩ := exists_fetch heven (h.end_le (List.cons_ne_nil _ _)).2
    (hopcode ▸ hdecode) (by omega)
  obtain ⟨layout', hdecoded⟩ := decoded_of_fetch hfetch
  have hword := (opcode_of_fetch hfetch).trans hopcode
  have hlayout := hdecoded.decode_eq
  rw [hword, hdecode] at hlayout
  cases hlayout
  have hfaithful := fetch_faithful hfetch
  have hmoves := fetch_moves hfetch
  have hnext := hfaithful.next_eq
  exact ⟨i, past, hfetch, hword, rfl, hdecoded, hfaithful.address_eq, by omega⟩

end Code

/-! ## 2. Operand fields and sizes -/

namespace Operation

/-- The operations with a source field. -/
def hasSource : Operation → Bool
  | move | movea | moveToCcr | moveToSr | pea | jsr | jmp | lea | chk | divide _ | multiply _
  | arithAddress _ | shiftMemory _ _ => true
  | _ => false

/-- The operations with a destination field. -/
def hasDestination : Operation → Bool
  | logicImmediate _ | arithImmediate _ | bitStatic _ | bitDynamic _ | move | movea | moveFromSr
  | negx | clr | neg | not | tst | arithQuick _ | logic _ | arith _ | nbcd | tas | scc | movem =>
    true
  | _ => false

/-- The size of an operation that writes an operand and comes in one size only. -/
def fixedSize? : Operation → Option Size
  | nbcd | tas | scc | decimal _ => some .byte
  | moveFromSr | shiftMemory _ _ => some .word
  | _ => none

end Operation

namespace Layout

variable {op : Operation} {opcode : Word} {layout : Layout}

/-- What the tables say of a layout, at once: they all follow from the operation alone. -/
theorem tables_of_of? (h : of? op opcode = some layout) :
    layout.source.isSome = op.hasSource ∧ layout.destination.isSome = op.hasDestination ∧
      ∀ size ∈ op.fixedSize?, layout.size = size := by
  cases op
  case logicImmediate | arithImmediate | negx | clr | neg | not | tst | arithQuick | logic | arith |
      arithExtended | cmpm | shiftRegister =>
    obtain ⟨size, _, rfl⟩ := Option.map_eq_some_iff.mp h
    exact ⟨rfl, rfl, nofun⟩
  case nbcd | tas | scc | decimal | moveFromSr | shiftMemory =>
    cases h
    exact ⟨rfl, rfl, fun size hsize => Option.some.inj hsize⟩
  all_goals
    cases h
    exact ⟨rfl, rfl, nofun⟩

end Layout

/-- Kind one of an operand field is an address register. -/
theorem AddressingMode.ofField?_addressDirect (reg : BitVec 3) :
    ofField? (1#3 ++ reg) = some (.addressDirect reg.toFin) := by
  revert reg
  decide

/-- The patterns of `MOVEA` are those of moves whose destination field is of kind one. -/
theorem Pattern.kind_of_movea {opcode : Word} {p : Pattern}
    (hp : p ∈ group (opcode.extractLsb' 12 4)) (hfits : p.fits opcode = true)
    (hop : p.operation = .movea) : opcode.extractLsb' 6 3 = 1 := by
  have htable : ∀ top : BitVec 4, ∀ p ∈ group top, p.operation = .movea →
      p.mask = 0xF1C0 ∧ p.value.extractLsb' 6 3 = 1 := by decide
  obtain ⟨hmask, hvalue⟩ := htable _ p hp hop
  have hbits : opcode &&& 0xF1C0 = p.value := hmask ▸ of_decide_eq_true hfits
  calc opcode.extractLsb' 6 3
      = opcode.extractLsb' 6 3 &&& (0xF1C0 : Word).extractLsb' 6 3 := by
        rw [show (0xF1C0 : Word).extractLsb' 6 3 = BitVec.allOnes 3 by decide, BitVec.and_allOnes]
    _ = (opcode &&& 0xF1C0).extractLsb' 6 3 := BitVec.extractLsb'_and.symm
    _ = 1 := by rw [hbits, hvalue]

namespace Instruction.Decoded

variable {i : Instruction} {layout : Layout}

theorem of?_eq (h : i.Decoded layout) : Layout.of? i.operation i.opcode = some layout :=
  Code.of?_of_decode? h.decode_eq

theorem source_eq_none (h : i.Decoded layout) (hop : i.operation.hasSource = false) :
    i.source = none := by
  have hsome := (Layout.tables_of_of? h.of?_eq).1
  rw [← h.source_eq, Option.isSome_map, hop] at hsome
  exact Option.isNone_iff_eq_none.mp (by simpa using hsome)

theorem destination_eq_none (h : i.Decoded layout) (hop : i.operation.hasDestination = false) :
    i.destination = none := by
  have hsome := (Layout.tables_of_of? h.of?_eq).2.1
  rw [← h.destination_eq, Option.isSome_map, hop] at hsome
  exact Option.isNone_iff_eq_none.mp (by simpa using hsome)

theorem size_eq_fixed (h : i.Decoded layout) {size : Size}
    (hop : i.operation.fixedSize? = some size) : i.size = size :=
  h.size_eq.trans ((Layout.tables_of_of? h.of?_eq).2.2 size hop)

theorem ofOpcode?_eq (h : i.Decoded layout) : Operation.ofOpcode? i.opcode = some i.operation := by
  obtain ⟨op, hop, hlayout⟩ := Option.bind_eq_some_iff.mp h.decode_eq
  obtain ⟨layout', _, heq⟩ := Option.bind_eq_some_iff.mp hlayout
  cases heq
  exact hop

/-- `MOVEA` names an address register as its destination. -/
theorem destination_movea (h : i.Decoded layout) (hop : i.operation = .movea) :
    i.destination.bind (·.mode?) = some (.addressDirect i.highRegister) := by
  have hkind : i.opcode.extractLsb' 6 3 = 1 := by
    obtain ⟨p, hp, hfits, hmovea⟩ := Operation.exists_pattern_of_ofOpcode? h.ofOpcode?_eq
    exact Pattern.kind_of_movea hp hfits (hmovea.trans hop)
  have hlayout : layout.destination = some (1#3 ++ i.opcode.extractLsb' 9 3) := by
    have hof := h.of?_eq
    rw [hop] at hof
    rw [← Option.some.inj hof, hkind]
    rfl
  obtain ⟨ea, hea, hfield⟩ := Option.map_eq_some_iff.mp (h.destination_eq.trans hlayout)
  rw [hea, Option.bind_some, EffectiveAddress.mode?, hfield]
  exact AddressingMode.ofField?_addressDirect _

end Instruction.Decoded

end Mc68000
