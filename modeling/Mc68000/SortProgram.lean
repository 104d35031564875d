import Mc68000.Run

/-!
# A sort in machine code

A bubble sort of bytes that runs on the machine.

* `SortProgram.words` -- the program: it sorts the list at `dataAddress` in place, a count byte and
  as many values, and returns when a pass has swapped nothing;
* `SortProgram.sampleData` -- a list to sort;
* `SortProgram.prepare`, `SortProgram.run?` -- both loaded into a machine, and the program run.
-/

namespace Mc68000.SortProgram

/-- Where the program is loaded. -/
def loadAddress : Address := 0x1000

/-- Where the list is: a count byte, then the values. -/
def dataAddress : Address := 0x2000

/-- The user stack pointer that the program starts with. -/
def stackPointer : Address := 0x4000

/-- The program. -/
def words : List Word :=
  [0x41F8, 0x2000,  -- LEA     $2000.W,A0
   0x4240,          -- CLR.W   D0
   0x1018,          -- MOVE.B  (A0)+,D0
   0x43F0, 0x00FF,  -- LEA     -1(A0,D0.W),A1
   0x4241,          -- CLR.W   D1             the next pass starts here
   0x2448,          -- MOVEA.L A0,A2
   0x101A,          -- MOVE.B  (A2)+,D0       the next pair starts here
   0xB012,          -- CMP.B   (A2),D0
   0x650A,          -- BCS.S   to CMPA.L: the pair is in order
   0x1212,          -- MOVE.B  (A2),D1
   0x1541, 0xFFFF,  -- MOVE.B  D1,-1(A2)
   0x1480,          -- MOVE.B  D0,(A2)
   0x5241,          -- ADDQ.W  #1,D1
   0xB3CA,          -- CMPA.L  A2,A1
   0x62EC,          -- BHI.S   to the next pair
   0x4A41,          -- TST.W   D1
   0x66E4,          -- BNE.S   to the next pass
   0x4E75]          -- RTS

/-- The number of values in the sample list. -/
def sampleCount : Nat := 50

/-- The value at a place of the sample list: two falling sequences take turns. -/
def sampleValue (k : Nat) : Byte :=
  BitVec.ofNat 8 (if k % 2 = 0 then (100 - k) * 2 else (50 - k) * 2)

/-- The values of the sample list. -/
def sampleValues : List Byte := (List.range sampleCount).map sampleValue

/-- The sample list as the program wants it: the count, then the values. -/
def sampleData : List Byte := BitVec.ofNat 8 sampleCount :: sampleValues

/-- What a run of the program has done. -/
structure Report where
  unsorted : List Byte
  sorted : List Byte
  outcome : RunOutcome
  /-- The registers after the run. -/
  listing : String
  deriving DecidableEq, Repr

/-- Puts the program and the sample list into a machine. -/
def prepare : Request Unit := do
  Machine.loadProgram (wordsToBytes words) loadAddress true
  modify (·.applySnapshot { Snapshot.empty with usp := some stackPointer })
  Machine.loadData sampleData dataAddress false

/-- The report of a machine on which the program has ended. -/
def report (outcome : RunOutcome) : Request Report := fun m =>
  match m.memory.range dataAddress sampleData.length with
  | .error f => .error f m
  | .ok bytes =>
    .ok { unsorted := sampleValues, sorted := bytes.drop 1, outcome,
          listing := m.registers.listing } m

/-- Puts the program into a machine and runs it, `none` if it does not end. -/
def run? (m : Machine) : Option (EStateM.Result Failure Machine Report) :=
  match prepare m with
  | .error f m => some (.error f m)
  | .ok () m =>
    match m.run? with
    | none => none
    | some (.error f m) => some (.error f m)
    | some (.ok outcome m) => some (report outcome m)

end Mc68000.SortProgram
