import Mc68000.Proofs.InstructionLength
import Mc68000.SortProgram

/-!
# The instructions of the sort

The words of the sort, decoded: what a machine fetches wherever it stands in the program.

* `loadList` … `finish` -- the eighteen instructions by what they are for;
* `listing` -- all of them, in the order of the program;
* `HoldsProgram` -- a code that has the words of the program at their place;
* `fetch_listing` -- **such a code yields these instructions**.
-/

namespace Mc68000.SortProgram

/-! ## 1. The instructions -/

/-- An operand without words of its own, of an instruction at an address. -/
def operandAt (address : Address) (field : BitVec 6) : EffectiveAddress :=
  ⟨field, ⟨address + 2, .none⟩⟩

/-- An instruction of one word. -/
def oneWord (address : Address) (opcode : Word) (operation : Operation) (size : Size)
    (source destination : Option (BitVec 6)) : Instruction :=
  { address, opcode, operation, size, extension := ⟨address + 2, .none⟩,
    source := source.map (operandAt address), destination := destination.map (operandAt address),
    length := 2 }

/-- `LEA $2000.W,A0` -/
def loadList : Instruction :=
  { oneWord 0x1000 0x41F8 .lea .long none none with
    source := some ⟨0x38, ⟨0x1002, .one 0x2000⟩⟩
    length := 4 }

/-- `CLR.W D0` -/
def clearCount : Instruction := oneWord 0x1004 0x4240 .clr .word none (some 0x00)

/-- `MOVE.B (A0)+,D0` -/
def loadCount : Instruction := oneWord 0x1006 0x1018 .move .byte (some 0x18) (some 0x00)

/-- `LEA -1(A0,D0.W),A1` -/
def loadLast : Instruction :=
  { oneWord 0x1008 0x43F0 .lea .long none none with
    source := some ⟨0x30, ⟨0x100A, .one 0x00FF⟩⟩
    length := 4 }

/-- `CLR.W D1`: the next pass starts here. -/
def clearSwaps : Instruction := oneWord 0x100C 0x4241 .clr .word none (some 0x01)

/-- `MOVEA.L A0,A2` -/
def startPass : Instruction := oneWord 0x100E 0x2448 .movea .long (some 0x08) (some 0x0A)

/-- `MOVE.B (A2)+,D0`: the next pair starts here. -/
def takeFirst : Instruction := oneWord 0x1010 0x101A .move .byte (some 0x1A) (some 0x00)

/-- `CMP.B (A2),D0` -/
def comparePair : Instruction := oneWord 0x1012 0xB012 (.arith .cmp) .byte none (some 0x12)

/-- `BCS.S` to `compareLast` -/
def skipSwap : Instruction := oneWord 0x1014 0x650A .bcc .word none none

/-- `MOVE.B (A2),D1` -/
def takeSecond : Instruction := oneWord 0x1016 0x1212 .move .byte (some 0x12) (some 0x01)

/-- `MOVE.B D1,-1(A2)` -/
def putSecond : Instruction :=
  { oneWord 0x1018 0x1541 .move .byte (some 0x01) none with
    destination := some ⟨0x2A, ⟨0x101A, .one 0xFFFF⟩⟩
    length := 4 }

/-- `MOVE.B D0,(A2)` -/
def putFirst : Instruction := oneWord 0x101C 0x1480 .move .byte (some 0x00) (some 0x12)

/-- `ADDQ.W #1,D1` -/
def countSwap : Instruction := oneWord 0x101E 0x5241 (.arithQuick .add) .word none (some 0x01)

/-- `CMPA.L A2,A1` -/
def compareLast : Instruction := oneWord 0x1020 0xB3CA (.arithAddress .cmp) .long (some 0x0A) none

/-- `BHI.S` to `takeFirst` -/
def nextPair : Instruction := oneWord 0x1022 0x62EC .bcc .word none none

/-- `TST.W D1` -/
def testSwaps : Instruction := oneWord 0x1024 0x4A41 .tst .word none (some 0x01)

/-- `BNE.S` to `clearSwaps` -/
def nextPass : Instruction := oneWord 0x1026 0x66E4 .bcc .word none none

/-- `RTS` -/
def finish : Instruction := oneWord 0x1028 0x4E75 .rts .word none none

/-- The program, decoded. -/
def listing : List Instruction :=
  [loadList, clearCount, loadCount, loadLast, clearSwaps, startPass, takeFirst, comparePair,
    skipSwap, takeSecond, putSecond, putFirst, countSwap, compareLast, nextPair, testSwaps,
    nextPass, finish]

/-! ## 2. The words in memory -/

/-- The address past the program. -/
def endAddress : Address := 0x102A

/-- A code that has the words of the program at their place and ends behind them. -/
structure HoldsProgram (c : Code) : Prop where
  codeEnd_eq : c.codeEnd = endAddress
  le_capacity : endAddress.toNat ≤ c.memory.capacity
  wordAt_eq : ∀ k (h : k < words.length),
    c.memory.wordAt (loadAddress.toNat + 2 * k) = words[k]

variable {c : Code}

/-- The word at a place of the program is the one of the listing. -/
theorem HoldsProgram.nextWord_eq (h : HoldsProgram c) (k : Nat) {a : Address} {w : Word}
    (hw : words[k]? = some w) (ha : a.toNat = loadAddress.toNat + 2 * k) :
    c.nextWord a = .ok w (a + 2) := by
  obtain ⟨hk, rfl⟩ := List.getElem?_eq_some_iff.mp hw
  have hk' : k < 21 := hk
  have hend := h.le_capacity
  have hstart : loadAddress.toNat = 0x1000 := rfl
  have hlast : endAddress.toNat = 0x102A := rfl
  have hcode : a.toNat + 2 ≤ c.codeEnd.toNat := by
    rw [h.codeEnd_eq]
    omega
  have hin : accessible a .word c.memory.capacity = true :=
    Code.accessible_word_iff.mpr ⟨by omega, by omega⟩
  rw [Code.nextWord_eq c a hcode, if_pos hin, ha, h.wordAt_eq k hk]

/-! ## 3. Fetches -/

/-- The fetch of an instruction of the program, once its opcode has been read. -/
theorem fetch_of_finish (h : HoldsProgram c) (k : Nat) {i : Instruction}
    (hw : words[k]? = some i.opcode) (ha : i.address.toNat = loadAddress.toNat + 2 * k)
    (hi : c.finish i.address i.opcode (i.address + 2) = .ok (some i) i.nextAddress) :
    c.fetch i.address = .ok (some i) i.nextAddress := by
  rw [Code.fetch_eq, run_bind, h.nextWord_eq k hw ha]
  exact hi

/-- A fetch part by part behind its opcode. -/
theorem finish_eq {address a a₁ a₂ a₃ : Address} {opcode : Word} {operation : Operation}
    {layout : Layout} {extension : Extension} {source destination : Option EffectiveAddress}
    (hd : Code.decode? opcode = some (operation, layout))
    (hown : c.nextWords layout.ownWords a = .ok extension a₁)
    (hsource : c.effectiveAddress? layout.size layout.source a₁ = .ok source a₂)
    (hdestination : c.effectiveAddress? layout.size layout.destination a₂ = .ok destination a₃) :
    c.finish address opcode a =
      .ok (some
        { address, opcode, operation, size := layout.size, extension, source, destination,
          length := (a₃ - address).toNat }) a₃ := by
  unfold Code.finish
  rw [hd]
  dsimp only
  rw [run_bind, hown]
  dsimp only
  rw [run_bind, hsource]
  dsimp only
  rw [run_bind, hdestination]
  rfl

/-- An operand with one word of its own. -/
theorem effectiveAddress?_eq {size : Size} {field : BitVec 6} {mode : AddressingMode} {w : Word}
    {a b : Address} (hmode : AddressingMode.ofField? field = some mode)
    (hcount : mode.extensionWords size = 1) (hw : c.nextWord a = .ok w b) :
    c.effectiveAddress? size (some field) a = .ok (some ⟨field, ⟨a, .one w⟩⟩) b := by
  have hwords : c.nextWords 1 a = .ok ⟨a, .one w⟩ b := by
    show (c.nextWord >>= fun w => pure (Extension.mk a (.one w))) a = _
    rw [run_bind, hw]
    rfl
  have haddress : c.effectiveAddress size field a = .ok ⟨field, ⟨a, .one w⟩⟩ b := by
    unfold Code.effectiveAddress
    rw [hmode]
    show (c.nextWords (mode.extensionWords size) >>= _) a = _
    rw [hcount, run_bind, hwords]
    rfl
  show (c.effectiveAddress size field >>= _) a = _
  rw [run_bind, haddress]
  rfl

theorem fetch_loadList (h : HoldsProgram c) :
    c.fetch loadList.address = .ok (some loadList) loadList.nextAddress := by
  have hw : c.nextWord 0x1002 = .ok 0x2000 0x1004 := h.nextWord_eq 1 rfl rfl
  have hd : Code.decode? 0x41F8 = some (.lea, .sourceOnly .long 0x38) := rfl
  have hsource : c.effectiveAddress? .long (some 0x38) 0x1002 = .ok loadList.source 0x1004 :=
    effectiveAddress?_eq rfl rfl hw
  exact fetch_of_finish h 0 rfl rfl (finish_eq hd rfl hsource rfl)

theorem fetch_loadLast (h : HoldsProgram c) :
    c.fetch loadLast.address = .ok (some loadLast) loadLast.nextAddress := by
  have hw : c.nextWord 0x100A = .ok 0x00FF 0x100C := h.nextWord_eq 5 rfl rfl
  have hd : Code.decode? 0x43F0 = some (.lea, .sourceOnly .long 0x30) := rfl
  have hsource : c.effectiveAddress? .long (some 0x30) 0x100A = .ok loadLast.source 0x100C :=
    effectiveAddress?_eq rfl rfl hw
  exact fetch_of_finish h 4 rfl rfl (finish_eq hd rfl hsource rfl)

theorem fetch_putSecond (h : HoldsProgram c) :
    c.fetch putSecond.address = .ok (some putSecond) putSecond.nextAddress := by
  have hw : c.nextWord 0x101A = .ok 0xFFFF 0x101C := h.nextWord_eq 13 rfl rfl
  have hd : Code.decode? 0x1541 = some (.move, ⟨.byte, 0, some 0x01, some 0x2A⟩) := rfl
  have hdestination : c.effectiveAddress? .byte (some 0x2A) 0x101A =
      .ok putSecond.destination 0x101C := effectiveAddress?_eq rfl rfl hw
  exact fetch_of_finish h 12 rfl rfl (finish_eq hd rfl rfl hdestination)

/-- **Wherever it stands in the program, a machine fetches what the listing says.** -/
theorem fetch_listing (h : HoldsProgram c) {i : Instruction} (hi : i ∈ listing) :
    c.fetch i.address = .ok (some i) i.nextAddress := by
  simp only [listing, List.mem_cons, List.not_mem_nil, or_false] at hi
  rcases hi with rfl | rfl | rfl | rfl | rfl | rfl | rfl | rfl | rfl | rfl | rfl | rfl | rfl |
    rfl | rfl | rfl | rfl | rfl
  · exact fetch_loadList h
  · exact fetch_of_finish h 2 rfl rfl rfl
  · exact fetch_of_finish h 3 rfl rfl rfl
  · exact fetch_loadLast h
  · exact fetch_of_finish h 6 rfl rfl rfl
  · exact fetch_of_finish h 7 rfl rfl rfl
  · exact fetch_of_finish h 8 rfl rfl rfl
  · exact fetch_of_finish h 9 rfl rfl rfl
  · exact fetch_of_finish h 10 rfl rfl rfl
  · exact fetch_of_finish h 11 rfl rfl rfl
  · exact fetch_putSecond h
  · exact fetch_of_finish h 14 rfl rfl rfl
  · exact fetch_of_finish h 15 rfl rfl rfl
  · exact fetch_of_finish h 16 rfl rfl rfl
  · exact fetch_of_finish h 17 rfl rfl rfl
  · exact fetch_of_finish h 18 rfl rfl rfl
  · exact fetch_of_finish h 19 rfl rfl rfl
  · exact fetch_of_finish h 20 rfl rfl rfl

end Mc68000.SortProgram
