import Mc68000.Proofs.HostSession
import Mc68000.Proofs.StatusBits
import Mc68000.Snapshot

/-!
# Snapshots compose

Snapshots are applied one behind the other, or laid over each other first. They take the place of
writes to single registers, and of the registers themselves.

* `applyTo_overlay`, `overlay_assoc`, `overlay_self`, `overlay_empty`, `empty_overlay` -- **the laws
  of laying one over the other**;
* `RegisterCall` -- the calls that write registers, and `Registers.performAll` for a row of them;
* `Bank` -- a row of registers of one kind, which is written as a whole or one by one;
* `Snapshot.performAll_writes` -- **applying one is writing what it names**, and
  `Snapshot.changes_applyTo`: it changes nothing else;
* `Status.Implemented` -- no bit is set that does not exist, and `implemented_performAll`,
  `implemented_of_serveAll`: no call and no session sets one;
* `applyTo_snapshot` -- then **a snapshot gives the registers back**, wherever it is applied;
* `registers_transfer` -- so it carries them from one machine to another.
-/

namespace Mc68000

attribute [ext] Registers Snapshot

/-! ## 1. Values over values -/

section

variable {α : Type} {n : Nat} (a b c : Vector (Option α) n) (vs : Vector α n)

/-- Values where there are any, over others that are all there. -/
theorem zipWith_getD_zipWith_or :
    (Vector.zipWith (fun b t => t.or b) a b).zipWith (fun new old => new.getD old) vs =
      b.zipWith (fun new old => new.getD old) (a.zipWith (fun new old => new.getD old) vs) := by
  refine Vector.ext fun k hk => ?_
  simp only [Vector.getElem_zipWith, Option.getD_or]

theorem zipWith_or_assoc :
    Vector.zipWith (fun b t => t.or b) (Vector.zipWith (fun b t => t.or b) a b) c =
      Vector.zipWith (fun b t => t.or b) a (Vector.zipWith (fun b t => t.or b) b c) := by
  refine Vector.ext fun k hk => ?_
  simp only [Vector.getElem_zipWith, Option.or_assoc]

theorem zipWith_or_self : Vector.zipWith (fun b t => t.or b) a a = a := by
  refine Vector.ext fun k hk => ?_
  rw [Vector.getElem_zipWith, Option.or_self]

theorem zipWith_or_none : Vector.zipWith (fun b t => t.or b) a (Vector.replicate n none) = a := by
  refine Vector.ext fun k hk => ?_
  rw [Vector.getElem_zipWith, Vector.getElem_replicate, Option.none_or]

theorem zipWith_none_or : Vector.zipWith (fun b t => t.or b) (Vector.replicate n none) a = a := by
  refine Vector.ext fun k hk => ?_
  rw [Vector.getElem_zipWith, Vector.getElem_replicate, Option.or_none]

theorem zipWith_getD_none :
    (Vector.replicate n none).zipWith (fun new old => new.getD old) vs = vs := by
  refine Vector.ext fun k hk => ?_
  rw [Vector.getElem_zipWith, Vector.getElem_replicate, Option.getD_none]

theorem zipWith_getD_map_some (ws : Vector α n) :
    (vs.map some).zipWith (fun new old => new.getD old) ws = vs := by
  refine Vector.ext fun k hk => ?_
  rw [Vector.getElem_zipWith, Vector.getElem_map, Option.getD_some]

end

namespace Snapshot

variable (a b c : Snapshot) (r : Registers)

/-- **To lay one over the other is to apply one after the other.** -/
theorem applyTo_overlay : (a.overlay b).applyTo r = b.applyTo (a.applyTo r) := by
  refine Registers.ext ?_ ?_ ?_ ?_ ?_ ?_
  · exact zipWith_getD_zipWith_or ..
  · exact zipWith_getD_zipWith_or ..
  · exact Option.getD_or
  · exact Option.getD_or
  · exact Option.getD_or
  · show ((b.sr.or a.sr).map Status.ofWord).getD r.sr = _
    rw [Option.map_or, Option.getD_or]
    rfl

theorem overlay_assoc : (a.overlay b).overlay c = a.overlay (b.overlay c) := by
  refine Snapshot.ext ?_ ?_ ?_ ?_ ?_ ?_
  · exact zipWith_or_assoc ..
  · exact zipWith_or_assoc ..
  · exact Option.or_assoc.symm
  · exact Option.or_assoc.symm
  · exact Option.or_assoc.symm
  · exact Option.or_assoc.symm

theorem overlay_self : a.overlay a = a :=
  Snapshot.ext (zipWith_or_self _) (zipWith_or_self _) Option.or_self Option.or_self
    Option.or_self Option.or_self

theorem overlay_empty : a.overlay empty = a :=
  Snapshot.ext (zipWith_or_none _) (zipWith_or_none _) rfl rfl rfl rfl

theorem empty_overlay : empty.overlay a = a :=
  Snapshot.ext (zipWith_none_or _) (zipWith_none_or _) Option.or_none Option.or_none
    Option.or_none Option.or_none

theorem applyTo_empty : empty.applyTo r = r :=
  Registers.ext (zipWith_getD_none _) (zipWith_getD_none _) rfl rfl rfl rfl

end Snapshot

/-! ## 2. Calls that write registers -/

/-- A call that writes registers. -/
inductive RegisterCall where
  | writeData (n : Fin 8) (v : Long) (size : Size)
  | writeAddress (n : Fin 8) (v : Long) (size : Size)
  | increment (n : Fin 8) (size : Size)
  | decrement (n : Fin 8) (size : Size)
  | setSp (v : Address)
  | setUsp (v : Address)
  | setSsp (v : Address)
  | setPc (v : Address)
  | setSr (w : Word)
  | setConditions (w : Word)
  | setFlag (flags : Word) (on : Bool)
  | apply (s : Snapshot)
  deriving DecidableEq

namespace Registers

/-- The registers after a call. -/
def perform (r : Registers) : RegisterCall → Registers
  | .writeData n v size => r.writeData n v size
  | .writeAddress n v size => r.writeAddress n v size
  | .increment n size => r.increment n size
  | .decrement n size => r.decrement n size
  | .setSp v => r.setSp v
  | .setUsp v => { r with usp := v }
  | .setSsp v => { r with ssp := v }
  | .setPc v => r.setPc v
  | .setSr w => r.setSr w
  | .setConditions w => r.setConditions w
  | .setFlag flags on => r.setFlag flags on
  | .apply s => s.applyTo r

/-- The registers after calls one behind the other. -/
def performAll (r : Registers) (calls : List RegisterCall) : Registers := calls.foldl perform r

theorem performAll_append (r : Registers) (calls more : List RegisterCall) :
    r.performAll (calls ++ more) = (r.performAll calls).performAll more := List.foldl_append

theorem readAddress_castSucc (r : Registers) (n : Fin 7) :
    r.readAddress n.castSucc = r.address.get n := dif_pos n.isLt

theorem writeData_long (r : Registers) (n : Fin 8) (v : Long) :
    r.writeData n v .long = { r with data := r.data.set n.val v n.isLt } := by
  unfold writeData
  rw [Size.merge_long]

theorem writeAddress_castSucc_long (r : Registers) (n : Fin 7) (v : Long) :
    r.writeAddress n.castSucc v .long = { r with address := r.address.set n.val v n.isLt } := by
  unfold writeAddress
  rw [Size.merge_long]
  exact dif_pos n.isLt

end Registers

/-! ## 3. A snapshot as writes -/

/-- Registers of one kind, with the call that writes one of them. -/
structure Bank (n : Nat) where
  get : Registers → Vector Long n
  put : Registers → Vector Long n → Registers
  call : Fin n → Long → RegisterCall
  get_put : ∀ r vs, get (put r vs) = vs
  put_get : ∀ r, put r (get r) = r
  put_put : ∀ r vs ws, put (put r vs) ws = put r ws
  perform_call : ∀ r k v, r.perform (call k v) = put r ((get r).set k.val v k.isLt)

namespace Bank

/-- The data registers. -/
def data : Bank 8 where
  get := Registers.data
  put r data := { r with data }
  call n v := .writeData n v .long
  get_put _ _ := rfl
  put_get _ := rfl
  put_put _ _ _ := rfl
  perform_call r n v := r.writeData_long n v

/-- The address registers below the stack pointers. -/
def address : Bank 7 where
  get := Registers.address
  put r address := { r with address }
  call n v := .writeAddress n.castSucc v .long
  get_put _ _ := rfl
  put_get _ := rfl
  put_put _ _ _ := rfl
  perform_call r n v := r.writeAddress_castSucc_long n v

variable {n : Nat} (b : Bank n) (vs : Vector (Option Long) n)

/-- The calls that write those of some registers that have a value. -/
def writes (ks : List (Fin n)) : List RegisterCall :=
  ks.filterMap fun k => (vs.get k).map (b.call k)

/-- One register with its value, if it has one. -/
def fill (ws : Vector Long n) (k : Fin n) : Vector Long n :=
  ws.set k.val ((vs.get k).getD (ws.get k)) k.isLt

theorem get_fill (ws : Vector Long n) (k j : Fin n) :
    (fill vs ws k).get j = if k.val = j.val then (vs.get k).getD (ws.get k) else ws.get j :=
  Vector.getElem_set ..

theorem get_fill_of_ne {k j : Fin n} (h : j ≠ k) (ws : Vector Long n) :
    (fill vs ws k).get j = ws.get j := by
  rw [get_fill, if_neg fun e => h (Fin.ext e.symm)]

variable {vs} {ks : List (Fin n)} {j : Fin n}

theorem get_foldl_fill_of_not_mem (h : j ∉ ks) (ws : Vector Long n) :
    (ks.foldl (fill vs) ws).get j = ws.get j := by
  induction ks generalizing ws with
  | nil => rfl
  | cons k ks ih =>
    have hhead : j ≠ k := fun e => h (e ▸ List.mem_cons_self)
    have htail : j ∉ ks := fun hin => h (List.mem_cons_of_mem k hin)
    rw [List.foldl_cons, ih htail, get_fill_of_ne vs hhead]

/-- A register that is filled any number of times has its value. -/
theorem get_foldl_fill_of_mem (h : j ∈ ks) (ws : Vector Long n) :
    (ks.foldl (fill vs) ws).get j = (vs.get j).getD (ws.get j) := by
  induction ks generalizing ws with
  | nil => exact absurd h List.not_mem_nil
  | cons k ks ih =>
    rw [List.foldl_cons]
    by_cases hk : j = k
    · subst hk
      have hfilled : (fill vs ws j).get j = (vs.get j).getD (ws.get j) := by
        rw [get_fill, if_pos rfl]
      -- its number may come again behind, and then the same value is put there
      by_cases hin : j ∈ ks
      · rw [ih hin, hfilled]
        cases vs.get j <;> rfl
      · rw [get_foldl_fill_of_not_mem hin, hfilled]
    · have hin : j ∈ ks := (List.mem_cons.mp h).resolve_left hk
      rw [ih hin, get_fill_of_ne vs hk]

variable (vs)

theorem writes_cons (k : Fin n) (ks : List (Fin n)) :
    b.writes vs (k :: ks) = ((vs.get k).map (b.call k)).toList ++ b.writes vs ks := by
  unfold writes
  cases h : vs.get k with
  | none => rw [List.filterMap_cons_none (by rw [h]; rfl)]; rfl
  | some v => rw [List.filterMap_cons_some (by rw [h]; rfl)]; rfl

theorem performAll_write (k : Fin n) (r : Registers) :
    r.performAll ((vs.get k).map (b.call k)).toList = b.put r (fill vs (b.get r) k) := by
  unfold fill
  cases vs.get k with
  | none =>
    have hsame : (b.get r).set k.val ((b.get r).get k) k.isLt = b.get r :=
      Vector.set_getElem_self k.isLt
    show r = b.put r ((b.get r).set k.val ((b.get r).get k) k.isLt)
    rw [hsame, b.put_get]
  | some v => exact b.perform_call r k v

/-- Written one by one, registers are filled one by one. -/
theorem performAll_writes (ks : List (Fin n)) (r : Registers) :
    r.performAll (b.writes vs ks) = b.put r (ks.foldl (fill vs) (b.get r)) := by
  induction ks generalizing r with
  | nil => exact (b.put_get r).symm
  | cons k ks ih =>
    rw [writes_cons, Registers.performAll_append, performAll_write, ih, b.get_put, b.put_put,
      List.foldl_cons]

/-- All of them written, the registers have the values that are there. -/
theorem performAll_writes_finRange (r : Registers) :
    r.performAll (b.writes vs (List.finRange n)) =
      b.put r (vs.zipWith (fun new old => new.getD old) (b.get r)) := by
  rw [b.performAll_writes]
  refine congrArg (b.put r) (Vector.ext fun k hk => ?_)
  rw [Vector.getElem_zipWith]
  exact get_foldl_fill_of_mem (List.mem_finRange ⟨k, hk⟩) (b.get r)

end Bank

namespace Snapshot

/-- The calls that write the registers that a snapshot names: the status register first, which
    selects the stack pointer, and each stack pointer by its own name. -/
def writes (s : Snapshot) : List RegisterCall :=
  (s.sr.map .setSr).toList ++ Bank.data.writes s.data (List.finRange 8) ++
    Bank.address.writes s.address (List.finRange 7) ++ (s.usp.map .setUsp).toList ++
    (s.ssp.map .setSsp).toList ++ (s.pc.map .setPc).toList

/-- **To apply a snapshot is to write what it names**, one register after the other. -/
theorem performAll_writes (s : Snapshot) (r : Registers) : r.performAll s.writes = s.applyTo r := by
  -- no write but the first reads the mode, since A7 is not among the address registers
  have hsr (r : Registers) : r.performAll (s.sr.map .setSr).toList =
      { r with sr := (s.sr.map Status.ofWord).getD r.sr } := by
    cases s.sr <;> rfl
  have husp (r : Registers) : r.performAll (s.usp.map .setUsp).toList =
      { r with usp := s.usp.getD r.usp } := by
    cases s.usp <;> rfl
  have hssp (r : Registers) : r.performAll (s.ssp.map .setSsp).toList =
      { r with ssp := s.ssp.getD r.ssp } := by
    cases s.ssp <;> rfl
  have hpc (r : Registers) : r.performAll (s.pc.map .setPc).toList =
      { r with pc := s.pc.getD r.pc } := by
    cases s.pc <;> rfl
  unfold writes
  simp only [Registers.performAll_append]
  rw [hsr, Bank.performAll_writes_finRange, Bank.performAll_writes_finRange, husp, hssp, hpc]
  rfl

/-- What a snapshot changes: the registers that it names, and no others. -/
structure Changes (s : Snapshot) (r r' : Registers) : Prop where
  data (n : Fin 8) : r'.readData n = (s.data.get n).getD (r.readData n)
  address (n : Fin 7) :
    r'.readAddress n.castSucc = (s.address.get n).getD (r.readAddress n.castSucc)
  usp : r'.usp = s.usp.getD r.usp
  ssp : r'.ssp = s.ssp.getD r.ssp
  pc : r'.pc = s.pc.getD r.pc
  sr : r'.sr = (s.sr.map (· &&& Status.implemented)).getD r.sr

theorem changes_applyTo (s : Snapshot) (r : Registers) : s.Changes r (s.applyTo r) where
  data _ := Vector.getElem_zipWith ..
  address n := by
    rw [Registers.readAddress_castSucc, Registers.readAddress_castSucc]
    exact Vector.getElem_zipWith ..
  usp := rfl
  ssp := rfl
  pc := rfl
  sr := rfl

/-- All fields of a snapshot are there and have the values of registers. -/
structure Full (s : Snapshot) (r : Registers) : Prop where
  data (n : Fin 8) : s.data.get n = some (r.readData n)
  address (n : Fin 7) : s.address.get n = some (r.readAddress n.castSucc)
  usp : s.usp = some r.usp
  ssp : s.ssp = some r.ssp
  pc : s.pc = some r.pc
  sr : s.sr = some r.sr

theorem full_snapshot (r : Registers) : r.snapshot.Full r where
  data _ := Vector.getElem_map ..
  address n := by
    rw [Registers.readAddress_castSucc]
    exact Vector.getElem_map ..
  usp := rfl
  ssp := rfl
  pc := rfl
  sr := rfl

end Snapshot

/-! ## 4. Bits that exist -/

namespace Status

/-- No bit is set that does not exist. -/
def Implemented (sr : Word) : Prop := sr &&& ~~~implemented = 0

variable {sr : Word}

theorem implemented_zero : Implemented 0 := by
  unfold Implemented
  decide

theorem implemented_iff : Implemented sr ↔ AgreeOutside implemented sr 0 := by
  have hzero : (0 : Word) &&& ~~~implemented = 0 := implemented_zero
  unfold Implemented AgreeOutside
  rw [hzero]

theorem implemented_iff_bit :
    Implemented sr ↔ ∀ k, implemented.getLsbD k = false → sr.getLsbD k = false := by
  rw [implemented_iff, agreeOutside_iff]
  simp

/-- Such a word is written as it is. -/
theorem ofWord_eq (h : Implemented sr) : ofWord sr = sr := by
  refine BitVec.eq_of_getLsbD_eq fun k _ => ?_
  rw [ofWord, BitVec.getLsbD_and]
  cases hk : implemented.getLsbD k with
  | true => rw [Bool.and_true]
  | false => rw [implemented_iff_bit.mp h k hk, Bool.false_and]

theorem implemented_ofWord (w : Word) : Implemented (ofWord w) := by
  refine implemented_iff_bit.mpr fun k hk => ?_
  rw [ofWord, BitVec.getLsbD_and, hk, Bool.and_false]

/-- A change of bits that exist keeps to them. -/
theorem AgreeOutside.implemented {mask sr' : Word} (hmask : mask &&& Status.implemented = mask)
    (h : AgreeOutside mask sr' sr) (hsr : Implemented sr) : Implemented sr' :=
  implemented_iff.mpr ((h.mono hmask).trans (implemented_iff.mp hsr))

theorem implemented_setFlag (h : Implemented sr) (flags : Word) (on : Bool) :
    Implemented (setFlag sr flags on) := by
  refine implemented_iff_bit.mpr fun k hk => ?_
  have hbit := implemented_iff_bit.mp h k hk
  cases on with
  | true =>
    show (sr ||| (flags &&& implemented)).getLsbD k = false
    rw [BitVec.getLsbD_or, BitVec.getLsbD_and, hbit, hk, Bool.and_false, Bool.or_false]
  | false =>
    show (sr &&& ~~~flags).getLsbD k = false
    rw [getLsbD_and_not, hbit, Bool.false_and]

end Status

open Status

namespace Snapshot

theorem implemented_applyTo (s : Snapshot) {r : Registers} (h : Implemented r.sr) :
    Implemented (s.applyTo r).sr := by
  show Implemented ((s.sr.map ofWord).getD r.sr)
  cases s.sr with
  | none => exact h
  | some w => exact implemented_ofWord w

/-- **Applied to any registers, the snapshot of others gives these.** -/
theorem applyTo_snapshot {r : Registers} (h : Implemented r.sr) (x : Registers) :
    r.snapshot.applyTo x = r :=
  Registers.ext (zipWith_getD_map_some ..) (zipWith_getD_map_some ..) rfl rfl rfl (ofWord_eq h)

end Snapshot

namespace Registers

/-- No call sets a bit that does not exist. -/
theorem implemented_perform {r : Registers} (h : Implemented r.sr) (call : RegisterCall) :
    Implemented (r.perform call).sr := by
  cases call with
  | writeData | setUsp | setSsp | setPc => exact h
  | writeAddress n v size => exact (r.sr_writeAddress n v size).symm ▸ h
  | increment | decrement => exact (r.sr_writeAddress ..).symm ▸ h
  | setSp v => exact (r.sr_setSp v).symm ▸ h
  | setSr w => exact implemented_ofWord w
  | setConditions w => exact (agreeOutside_withConditions r.sr w).implemented (by decide) h
  | setFlag flags on => exact implemented_setFlag h flags on
  | apply s => exact s.implemented_applyTo h

theorem implemented_performAll {r : Registers} (h : Implemented r.sr)
    (calls : List RegisterCall) : Implemented (r.performAll calls).sr := by
  induction calls generalizing r with
  | nil => exact h
  | cons call calls ih => exact ih (implemented_perform h call)

end Registers

/-- **Snapshots compose.** To apply one laid over another is to apply both; laying over is
    associative and idempotent, and the empty snapshot is neutral. To apply one is to write what it
    names, and changes nothing else, in either mode. On registers that calls have made of zeros no
    bit of the status register is set that does not exist; their snapshot has all fields, and gives
    them back wherever it is applied. -/
theorem Snapshot.compose :
    (∀ (a b c : Snapshot) (r : Registers),
      (a.overlay b).applyTo r = b.applyTo (a.applyTo r) ∧
        (a.overlay b).overlay c = a.overlay (b.overlay c) ∧ a.overlay a = a ∧
        a.overlay empty = a ∧ empty.overlay a = a ∧ empty.applyTo r = r) ∧
    (∀ (s : Snapshot) (r : Registers),
      s.Changes r (s.applyTo r) ∧ r.performAll s.writes = s.applyTo r) ∧
    ∀ calls : List RegisterCall,
      let r := Registers.zeros.performAll calls
      r.sr &&& ~~~implemented = 0 ∧ r.snapshot.Full r ∧ ∀ x, r.snapshot.applyTo x = r := by
  refine ⟨fun a b c r => ?_, fun s r => ⟨s.changes_applyTo r, s.performAll_writes r⟩,
    fun calls => ?_⟩
  · exact ⟨a.applyTo_overlay b r, a.overlay_assoc b c, a.overlay_self, a.overlay_empty,
      a.empty_overlay, applyTo_empty r⟩
  · intro r
    have himplemented : Implemented r.sr := Registers.implemented_performAll implemented_zero calls
    exact ⟨himplemented, full_snapshot r, applyTo_snapshot himplemented⟩

/-! ## 5. Snapshots of machines -/

namespace Machine

variable {m m' : Machine}

theorem implemented_update {p : Part} (hu : Update p m m') (h : Implemented m.registers.sr) :
    Implemented m'.registers.sr := by
  cases hu with
  | writeData | setPc | store | setDepth | finish | setUsp | stop => exact h
  | writeAddress _ n v size => exact (m.registers.sr_writeAddress n v size).symm ▸ h
  | setSp _ v => exact (m.registers.sr_setSp v).symm ▸ h
  | setFlags _ mask sr hmask hsr => exact (hsr.mono hmask).implemented (by decide) h
  | setSr _ w => exact implemented_ofWord w

theorem implemented_changed {parts : List Part} (hm : Changed parts m m')
    (h : Implemented m.registers.sr) : Implemented m'.registers.sr := by
  induction hm with
  | refl => exact h
  | tail _ hstep ih =>
    obtain ⟨p, -, hu⟩ := hstep
    exact implemented_update hu ih

theorem implemented_settle {α : Type} {x : Exec α} {ok trap : List Part}
    (hx : Exec.Touches ok trap x) (h : Implemented m.registers.sr) :
    Implemented (settle (x m)).2.registers.sr := by
  have hm := hx m
  cases hxm : x m with
  | ok a m' => rw [hxm] at hm; exact implemented_changed hm h
  | error t m' => rw [hxm] at hm; exact implemented_changed hm h

theorem implemented_step (h : Implemented m.registers.sr) :
    Implemented (settle (step m)).2.registers.sr := by
  rcases step_cases m with ⟨_, hs⟩ | ⟨_, hs⟩ | ⟨_, _, _, _, hs⟩ | ⟨_, _, _, hs⟩ | ⟨i, _, _, _, hs⟩
  · rw [hs]; exact h
  · rw [hs]; exact h
  · rw [hs]; exact h
  · rw [hs]; exact h
  · have hexecute := implemented_settle
      (m := { m with registers := m.registers.setPc i.nextAddress }) i.touches_execute h
    rw [hs]
    cases hx : i.execute { m with registers := m.registers.setPc i.nextAddress } with
    | ok _ m' => rw [hx] at hexecute; exact hexecute
    | error t m' => rw [hx] at hexecute; exact hexecute

theorem implemented_serve {call : HostCall} {reply : HostReply}
    (hcall : m.serve? call = some (reply, m')) (h : Implemented m.registers.sr) :
    Implemented m'.registers.sr := by
  cases call with
  | execute call =>
    obtain ⟨⟨answer, m₁⟩, hperform, e⟩ := Option.map_eq_some_iff.mp hcall
    cases e
    have hstep (m : Machine) (hm : Implemented m.registers.sr) :
        Implemented (settle (step m)).2.registers.sr := implemented_step hm
    exact invariant_perform hstep hperform h
  | resume =>
    cases hcall
    unfold resume
    split <;> exact h
  | reset => cases hcall; exact implemented_zero
  | loadProgram bytes address clearFirst =>
    have hload : Implemented (settle (loadProgram bytes address clearFirst m)).2.registers.sr := by
      unfold loadProgram
      split
      · exact h
      · split <;> exact h
    cases hcall
    exact hload
  | loadData bytes address clearFirst =>
    have hload : Implemented (settle (loadData bytes address clearFirst m)).2.registers.sr := by
      unfold loadData
      split <;> exact h
    cases hcall
    exact hload
  | applySnapshot s => cases hcall; exact s.implemented_applyTo h
  | pushLong v => cases hcall; exact implemented_settle (Exec.touches_push .long v) h
  | pushWord v => cases hcall; exact implemented_settle (Exec.touches_push .word _) h
  | popLong => cases hcall; exact implemented_settle Exec.touches_popLong h
  | popWord => cases hcall; exact implemented_settle Exec.touches_popWord h

theorem implemented_of_serveAll {config : Config} {calls : List HostCall}
    {replies : List HostReply} (h : (new config).serveAll? calls = some (replies, m')) :
    Implemented m'.registers.sr := by
  have hserve (m m' : Machine) (call : HostCall) (reply : HostReply)
      (hs : m.serve? call = some (reply, m')) (_ : True) (hm : Implemented m.registers.sr) :
      Implemented m'.registers.sr := implemented_serve hs hm
  exact invariant_serveAll hserve h (fun _ _ => trivial) implemented_zero

/-- **What a host takes from a machine it can give to any other.** After any session on a new
    machine, its snapshot makes the registers of another one the same. -/
theorem registers_transfer {config : Config} {calls : List HostCall} {replies : List HostReply}
    (h : (new config).serveAll? calls = some (replies, m')) (other : Machine) :
    (other.applySnapshot m'.registers.snapshot).registers = m'.registers :=
  Snapshot.applyTo_snapshot (implemented_of_serveAll h) other.registers

end Machine

end Mc68000
