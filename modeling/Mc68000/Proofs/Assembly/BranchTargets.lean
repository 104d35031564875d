import Mc68000.Proofs.Assembly.Meaning.Plain
import Mc68000.Proofs.Comparison
import Mc68000.Proofs.Linkage
import Mc68000.Proofs.Runs

/-!
# Where a branch goes

The listing and the execution each find the target of a branch on their own. Here both are held
against the words in memory.

* `Assembly.shownAddress?` -- the address that a text shows; `shownAddress?_text` -- **for a branch
  it is the target**;
* `Memory.branchDistance` -- the distance that the words at an address stand for;
  `branchTarget_of_fetch` -- a fetched branch has its target from there;
* `Instruction.takesBranch`, `pc_of_branch` -- whether a branch is taken, and where it then goes;
* `Instruction.branch_as_shown` -- **a step of a branch that is taken ends at the address shown**.
-/

namespace Mc68000

/-! ## 1. The address in a text -/

/-- The number behind the first `$` of a text, in base sixteen and up to the end of the text. -/
def Assembly.shownAddress? (t : String) : Option Nat :=
  Digits.value? 16 Digits.ofHexChar? ((t.toList.dropWhile (· ≠ '$')).drop 1)

/-- The operations that branch to a distance of their own. -/
def Operation.isBranch : Operation → Bool
  | bra | bsr | bcc | dbcc => true
  | _ => false

theorem Operation.isBranch_iff {op : Operation} :
    op.isBranch = true ↔ op = .bra ∨ op = .bsr ∨ op = .bcc ∨ op = .dbcc := by
  constructor
  · intro h
    cases op <;> simp_all [isBranch]
  · rintro (rfl | rfl | rfl | rfl) <;> rfl

namespace Assembly

/-- A number is found behind a text without a dollar sign. -/
theorem shownAddress?_append_hex {s : String} (h : '$' ∉ s.toList) (width n : Nat) :
    shownAddress? (s ++ hex width n) = some n := by
  have hdigits : (hex width n).toList = '$' :: Digits.upperHexChars width n := by
    rw [hex, String.toList_append, Digits.upperHex, String.toList_ofList]
    simp
  unfold shownAddress?
  rw [String.toList_append, hdigits, (span_before h _).2]
  exact Digits.value?_upperHexChars width n

/-- The name of a branch carries no size, and there is no dollar sign in it. -/
theorem dollar_not_mem_head {i : Instruction} (hop : i.operation.isBranch = true) :
    '$' ∉ i.head.toList := by
  have hmnemonic : '$' ∉ i.operation.mnemonic.toList := not_mem_of_isUpper (isUpper_mnemonic _) rfl
  have hcondition : '$' ∉ (Condition.ofOpcode i.opcode).suffix.toList :=
    not_mem_of_isUpper (isUpper_condition _) rfl
  have hmark : '$' ∉ i.mark.toList := by
    unfold Instruction.mark
    rcases Operation.isBranch_iff.mp hop with hop | hop | hop | hop
    all_goals
      rw [hop]
      first
      | exact hcondition
      | exact List.not_mem_nil
  rw [Instruction.head, String.toList_append]
  exact fun h => (List.mem_append.mp h).elim hmnemonic hmark

/-- **The text of a branch shows its target.** -/
theorem shownAddress?_text {i : Instruction} (hop : i.operation.isBranch = true) :
    shownAddress? i.text = some i.branchTarget.toNat := by
  have hhead := dollar_not_mem_head hop
  -- what stands in front of the number: the name and, for `DBcc`, a register
  obtain ⟨front, hfront, htext⟩ : ∃ front : String, '$' ∉ front.toList ∧
      i.text = i.head ++ front ++ hex 4 i.branchTarget.toNat := by
    rw [Instruction.text_eq]
    rcases Operation.isBranch_iff.mp hop with hop | hop | hop | hop
    case inr.inr.inr =>
      have hregister : ∀ n : Fin 8, '$' ∉ (" " ++ dataName n ++ ",").toList := by decide
      refine ⟨_, hregister i.lowRegister, ?_⟩
      simp only [Instruction.operandTexts, hop, tail, String.intercalate_cons_cons,
        String.intercalate_singleton, String.append_assoc, reduceCtorEq, if_false]
    all_goals
      refine ⟨" ", by decide, ?_⟩
      simp only [Instruction.operandTexts, hop, tail, String.intercalate_singleton,
        String.append_assoc, reduceCtorEq, if_false]
  rw [htext]
  refine shownAddress?_append_hex ?_ _ _
  rw [String.toList_append]
  exact fun h => (List.mem_append.mp h).elim hhead hfront

end Assembly

/-! ## 2. The distance in memory -/

/-- The distance that the words of a branch stand for: the low byte of the opcode or, for `DBcc` and
    behind a low byte of zero, the word behind the opcode. -/
def Memory.branchDistance (memory : Memory) (op : Operation) (pc : Address) : Long :=
  let low : Byte := (memory.wordAt pc.toNat).setWidth 8
  if op = .dbcc ∨ low = 0#8 then (memory.wordAt (pc.toNat + 2)).signExtend 32
  else low.signExtend 32

namespace Instruction

open Assembly Exec

variable {i : Instruction}

/-- A branch that needs a word for its distance has one. -/
theorem extension_size_of_branch {c : Code} {pc past : Address}
    (h : c.fetch pc = .ok (some i) past) (hop : i.operation.isBranch = true)
    (hwide : i.operation = .dbcc ∨ i.opcode.setWidth 8 = 0#8) : i.extension.size = 1 := by
  obtain ⟨layout, hdecoded, hsize⟩ := Code.size_of_fetch h
  have hlayout := hdecoded.of?_eq
  have hown : layout.ownWords = 1 := by
    rcases Operation.isBranch_iff.mp hop with hop | hop | hop | hop
    case inr.inr.inr =>
      rw [hop] at hlayout
      cases hlayout
      rfl
    all_goals
      have hlow : i.opcode.setWidth 8 = 0#8 := hwide.resolve_left (by rw [hop]; decide)
      rw [hop] at hlayout
      cases hlayout
      exact if_pos hlow
  rw [hsize, hown]
  rfl

/-- **A fetched branch has its target from its words**, counted from the word behind the opcode. -/
theorem branchTarget_of_fetch {c : Code} {pc past : Address}
    (h : c.fetch pc = .ok (some i) past) (hop : i.operation.isBranch = true) :
    i.branchTarget = pc + 2 + c.memory.branchDistance i.operation pc := by
  unfold branchTarget Memory.branchDistance
  dsimp only
  rw [(Code.fetch_faithful h).address_eq, ← Code.opcode_of_fetch h]
  congr 1
  by_cases hwide : i.operation = .dbcc ∨ i.opcode.setWidth 8 = 0#8
  · rw [if_pos hwide, ← Code.word_of_fetch h (by rw [extension_size_of_branch h hop hwide]; decide)]
    split
    · rfl
    · rename_i hdbcc
      unfold branchDistance
      rw [if_pos (hwide.resolve_left hdbcc)]
      rfl
  · obtain ⟨hdbcc, hlow⟩ := not_or.mp hwide
    unfold branchDistance
    rw [if_neg hwide, if_neg hdbcc, if_neg hlow]
    rfl

/-! ## 3. Where the execution goes -/

/-- Whether a branch is taken from given registers: always, if its condition holds or, for `DBcc`,
    if the condition does not hold and the counter has not come down to zero. -/
def takesBranch (i : Instruction) (r : Registers) : Bool :=
  match i.operation with
  | .bra | .bsr => true
  | .bcc => r.holds (Condition.ofOpcode i.opcode)
  | .dbcc =>
    !r.holds (Condition.ofOpcode i.opcode) && Size.word.unsigned (r.readData i.lowRegister) != 0
  | _ => false

/-- It does not depend on where the branch stands. -/
theorem takesBranch_setPc (r : Registers) (a : Address) :
    i.takesBranch (r.setPc a) = i.takesBranch r := rfl

theorem branchTarget_of_ne_dbcc (hop : i.operation ≠ .dbcc) :
    i.branchTarget = i.address + 2 + i.branchDistance := by
  unfold branchTarget
  rw [if_neg hop]

theorem branchTarget_of_dbcc (hop : i.operation = .dbcc) :
    i.branchTarget = i.address + 2 + wordDistance i := by
  unfold branchTarget
  rw [if_pos hop]
  rfl

/-- **A branch goes to its target if it is taken**, and else leaves the program counter alone. -/
theorem pc_of_branch {m m' : Machine} (hop : i.operation.isBranch = true)
    (h : i.execute m = .ok () m') :
    m'.registers.pc = if i.takesBranch m.registers then i.branchTarget else m.registers.pc := by
  unfold takesBranch
  rcases Operation.isBranch_iff.mp hop with hop | hop | hop | hop
  · rw [branchTarget_of_ne_dbcc (by rw [hop]; decide), hop]
    unfold execute at h
    rw [hop] at h
    cases h
    rfl
  · rw [branchTarget_of_ne_dbcc (by rw [hop]; decide), hop]
    unfold execute at h
    rw [hop] at h
    obtain ⟨_, m₁, _, hjump⟩ := bind_ok h
    cases hjump
    rfl
  · rw [branchTarget_of_ne_dbcc (by rw [hop]; decide), hop]
    rw [execute_bcc hop] at h
    dsimp only
    split at h
    · rename_i hholds
      cases h
      rw [if_pos hholds]
      rfl
    · rename_i hholds
      cases h
      rw [if_neg hholds]
  · rw [branchTarget_of_dbcc hop, hop]
    rw [execute_dbcc hop] at h
    dsimp only
    split at h
    · rename_i hholds
      cases h
      simp [hholds]
    · rename_i hholds
      cases h
      dsimp only
      rw [pc_counted]
      by_cases hzero : Size.word.unsigned (m.registers.readData i.lowRegister) = 0
      · simp [hholds, hzero]
      · simp [hholds, hzero]

/-! ## 4. The listing and a step -/

/-- **A branch goes where its text says.** A branch that has been fetched and retires shows the
    address that its words lead to, modulo 2^32. If it is taken, the program counter is there
    afterwards; if not, it is past the words of the branch. -/
theorem branch_as_shown {m m' : Machine} {past : Address} {cycles : Nat}
    (hfetch : m.code.fetch m.registers.pc = .ok (some i) past)
    (hop : i.operation.isBranch = true) (h : m.step = .ok (.retired cycles) m') :
    let target := m.registers.pc + 2 + m.memory.branchDistance i.operation m.registers.pc
    shownAddress? i.text = some target.toNat ∧
    (i.takesBranch m.registers = true →
      m'.registers.pc = target ∧ shownAddress? i.text = some m'.registers.pc.toNat) ∧
    (i.takesBranch m.registers = false →
      m'.registers.pc = i.nextAddress ∧ i.nextAddress = past) := by
  intro target
  have hmemory : m.code.memory = m.memory := rfl
  have htarget := branchTarget_of_fetch hfetch hop
  rw [hmemory] at htarget
  have hshown : shownAddress? i.text = some target.toNat := by
    rw [shownAddress?_text hop, htarget]
  have hpc : m'.registers.pc = if i.takesBranch m.registers then target else i.nextAddress := by
    obtain ⟨-, m₁, hexecute, rfl⟩ := Machine.executed_of_retired hfetch h
    have hmoved := pc_of_branch hop hexecute
    rw [takesBranch_setPc, htarget] at hmoved
    exact hmoved
  refine ⟨hshown, fun htaken => ?_, fun htaken => ?_⟩
  · rw [htaken, if_pos rfl] at hpc
    exact ⟨hpc, hpc ▸ hshown⟩
  · rw [htaken, if_neg Bool.false_ne_true] at hpc
    exact ⟨hpc, (Code.nextAddress_of_fetch hfetch).1⟩

/-- `BNE *-2`. -/
def branchBack : Instruction :=
  { address := 0, opcode := 0x66FC, operation := .bcc, size := .word, extension := ⟨2, .none⟩
    source := none, destination := none, length := 2 }

/-- `DBF D1,*-2`, behind it. -/
def countBack : Instruction :=
  { address := 2, opcode := 0x51C9, operation := .dbcc, size := .word
    extension := ⟨4, .one 0xFFFC⟩, source := none, destination := none, length := 4 }

/-- A machine with both as its program and the program counter at one of them. Its flags and its
    registers are zero. -/
def aboutToBranch (pc : Address) : Machine :=
  { Machine.new { memoryBytes := 6, traceInstructions := false } with
    registers := Registers.zeros.setPc pc
    memory := (Memory.zeros 6).setBytes 0 [0x66, 0xFC, 0x51, 0xC9, 0xFF, 0xFC]
    codeEnd := 6 }

/-- The first goes below zero and so to the top of the address space. The second has nothing left to
    count. -/
theorem branch_as_shown_wrapping :
    (∃ m' cycles, (aboutToBranch 0).step = .ok (.retired cycles) m' ∧
      m'.registers.pc = 0xFFFFFFFE ∧
      shownAddress? branchBack.text = some m'.registers.pc.toNat) ∧
    ∃ m' cycles, (aboutToBranch 2).step = .ok (.retired cycles) m' ∧
      m'.registers.pc = 6 ∧ shownAddress? countBack.text = some 0 := by
  have hback : (aboutToBranch 0).code.fetch 0 = .ok (some branchBack) 2 := rfl
  have hcount : (aboutToBranch 2).code.fetch 2 = .ok (some countBack) 6 := rfl
  constructor
  · obtain ⟨m', cycles, h⟩ : ∃ m' cycles, (aboutToBranch 0).step = .ok (.retired cycles) m' :=
      ⟨_, _, rfl⟩
    obtain ⟨-, htaken, -⟩ := branch_as_shown hback rfl h
    obtain ⟨hpc, hshown⟩ := htaken (by decide)
    exact ⟨m', cycles, h, hpc.trans (by decide), hshown⟩
  · obtain ⟨m', cycles, h⟩ : ∃ m' cycles, (aboutToBranch 2).step = .ok (.retired cycles) m' :=
      ⟨_, _, rfl⟩
    obtain ⟨hshown, -, hnot⟩ := branch_as_shown hcount rfl h
    obtain ⟨hpc, hnext⟩ := hnot (by decide)
    exact ⟨m', cycles, h, hpc.trans hnext, hshown.trans (by decide)⟩

end Instruction

end Mc68000
