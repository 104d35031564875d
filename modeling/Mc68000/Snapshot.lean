import Mc68000.Registers

/-!
# Snapshots

Register values of which each may be missing, as a host hands them over.

* `Snapshot` -- one optional value for each register;
* `Registers.snapshot` -- all values of a set of registers;
* `Snapshot.applyTo` -- writes the values that are there;
* `Snapshot.overlay` -- two snapshots as one, the upper one in front.
-/

namespace Mc68000

/-- Optional register values. The address registers are those below the stack pointers. -/
structure Snapshot where
  data : Vector (Option Long) 8
  address : Vector (Option Long) 7
  usp : Option Address
  ssp : Option Address
  pc : Option Address
  sr : Option Word
  deriving DecidableEq

namespace Snapshot

/-- No values. -/
def empty : Snapshot :=
  { data := Vector.replicate 8 none, address := Vector.replicate 7 none,
    usp := none, ssp := none, pc := none, sr := none }

/-- Whether there are no values. -/
def isEmpty (s : Snapshot) : Bool := s = empty

/-- Writes the values that are there, whatever the mode. Bits of the status register that do not
    exist are dropped. -/
def applyTo (s : Snapshot) (r : Registers) : Registers :=
  { data := Vector.zipWith (fun new old => new.getD old) s.data r.data
    address := Vector.zipWith (fun new old => new.getD old) s.address r.address
    usp := s.usp.getD r.usp
    ssp := s.ssp.getD r.ssp
    pc := s.pc.getD r.pc
    sr := (s.sr.map Status.ofWord).getD r.sr }

/-- The values of both; where both have one, that of `top`. -/
def overlay (base top : Snapshot) : Snapshot :=
  { data := Vector.zipWith (fun b t => t.or b) base.data top.data
    address := Vector.zipWith (fun b t => t.or b) base.address top.address
    usp := top.usp.or base.usp
    ssp := top.ssp.or base.ssp
    pc := top.pc.or base.pc
    sr := top.sr.or base.sr }

end Snapshot

/-- The values of all registers. -/
def Registers.snapshot (r : Registers) : Snapshot :=
  { data := r.data.map some, address := r.address.map some,
    usp := some r.usp, ssp := some r.ssp, pc := some r.pc, sr := some r.sr }

end Mc68000
