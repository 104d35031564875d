import Mc68000.Proofs.Block
import Mc68000.Proofs.Footprint.Primitives

/-!
# Confinement

Where exactly an action that succeeds writes: which address registers, and which bytes.

* `Registers.addressIn`, `idleSp` -- the address registers as one mode sees them, and the stack
  pointer of the other mode;
* `Confined` -- a machine that differs from another in given address registers and in a block of
  memory at most, as far as these parts go;
* `Exec.Confines` -- an action that keeps to this and to its mode; `Confines.bind` -- actions one
  after the other; `confines_of_touches`, `confines_write` -- **the footprint of an action, or the
  operand that it writes, tells where**;
* `Registers.movedBy`, `fieldTargets`, `fieldBlock?` -- what an operand field moves, and the
  register or the operand in memory that it leads to;
* `Exec.resolve_eq`, `resolve_ok` -- resolving a field, by where it leads and what it moves;
* `Exec.Settles` -- an action that is confined once given registers have moved;
  `settles_written`, `settles_read`, `settles_push` -- the forms of operations, by what moves first.
-/

namespace Mc68000

open Status

/-! ## 1. Address registers of a mode -/

namespace Registers

/-- An address register as a mode sees it, whatever mode the registers are in. -/
def addressIn (r : Registers) (supervisor : Bool) (n : Fin 8) : Long :=
  if h : n.val < 7 then r.address[n.val] else if supervisor then r.ssp else r.usp

/-- The stack pointer that a mode leaves idle. -/
def idleSp (r : Registers) (supervisor : Bool) : Address := if supervisor then r.usp else r.ssp

theorem addressIn_isSupervisor (r : Registers) (n : Fin 8) :
    r.addressIn r.isSupervisor n = r.readAddress n := rfl

/-- `r'` is in the mode of `r` and has its idle stack pointer. -/
structure IdleKept (r r' : Registers) : Prop where
  mode_eq : r'.isSupervisor = r.isSupervisor
  idleSp_eq : r'.idleSp r.isSupervisor = r.idleSp r.isSupervisor

theorem IdleKept.refl (r : Registers) : IdleKept r r := ⟨rfl, rfl⟩

theorem IdleKept.trans {r r' r'' : Registers} (h : IdleKept r r') (h' : IdleKept r' r'') :
    IdleKept r r'' := by
  have hidle := h'.idleSp_eq
  rw [h.mode_eq] at hidle
  exact ⟨h'.mode_eq.trans h.mode_eq, hidle.trans h.idleSp_eq⟩

theorem idleKept_setSp (r : Registers) (v : Address) : IdleKept r (r.setSp v) := by
  refine ⟨isSupervisor_setSp r v, ?_⟩
  unfold setSp idleSp
  split <;> rfl

theorem idleKept_writeAddress (r : Registers) (n : Fin 8) (v : Long) (s : Size) :
    IdleKept r (r.writeAddress n v s) := by
  unfold writeAddress
  dsimp only
  split
  · exact ⟨rfl, rfl⟩
  · exact idleKept_setSp r _

theorem addressIn_setSp {r : Registers} {k : Fin 8} (hk : k ≠ stackNumber) (v : Address) :
    (r.setSp v).addressIn r.isSupervisor k = r.addressIn r.isSupervisor k := by
  have hread := readAddress_setSp r v k
  rw [if_neg hk, ← addressIn_isSupervisor, isSupervisor_setSp] at hread
  exact hread

theorem addressIn_writeAddress {r : Registers} {n k : Fin 8} (hk : k ≠ n) (v : Long) (s : Size) :
    (r.writeAddress n v s).addressIn r.isSupervisor k = r.addressIn r.isSupervisor k := by
  have hread := readAddress_writeAddress r n k v s
  rw [if_neg hk, ← addressIn_isSupervisor, (idleKept_writeAddress r n v s).mode_eq] at hread
  exact hread

end Registers

/-! ## 2. Confined machines -/

/-- In the eyes of a mode `m'` has the address registers of `m`, those in `targets` apart, and its
    memory, a block apart. -/
structure Confined (supervisor : Bool) (targets : List (Fin 8)) (block : Option Block)
    (m m' : Machine) : Prop where
  memory : m.memory.SameOutside block m'.memory
  address_eq : ∀ n ∉ targets,
    m'.registers.addressIn supervisor n = m.registers.addressIn supervisor n
  idleSp_eq : m'.registers.idleSp supervisor = m.registers.idleSp supervisor

namespace Confined

variable {supervisor : Bool} {targets : List (Fin 8)} {block : Option Block} {m m' m'' : Machine}

theorem refl (supervisor : Bool) (targets : List (Fin 8)) (block : Option Block) (m : Machine) :
    Confined supervisor targets block m m := ⟨.refl _ _, fun _ _ => rfl, rfl⟩

theorem trans (h : Confined supervisor targets block m m')
    (h' : Confined supervisor targets block m' m'') : Confined supervisor targets block m m'' where
  memory := h.memory.trans h'.memory
  address_eq := fun n hn => (h'.address_eq n hn).trans (h.address_eq n hn)
  idleSp_eq := h'.idleSp_eq.trans h.idleSp_eq

/-- What changes no address register at all is confined to anything in this respect. -/
theorem of_registers (hmemory : m.memory.SameOutside block m'.memory)
    (haddress : m'.registers.address = m.registers.address)
    (husp : m'.registers.usp = m.registers.usp) (hssp : m'.registers.ssp = m.registers.ssp) :
    Confined supervisor targets block m m' where
  memory := hmemory
  address_eq := fun n _ => by unfold Registers.addressIn; rw [haddress, husp, hssp]
  idleSp_eq := by unfold Registers.idleSp; rw [husp, hssp]

end Confined

namespace Changed

variable {parts : List Part} {m m' : Machine}

/-- The mode is part of the system. -/
theorem isSupervisor_eq (h : Changed parts m m') (hsystem : Part.system ∉ parts) :
    m'.registers.isSupervisor = m.registers.isSupervisor := by
  refine view_eq (fun m => m.registers.isSupervisor) (fun p hmem m m' hu => ?_) h
  cases hu with
  | setFlags _ mask sr hmask hsr => exact (hsr.mono hmask).hasFlag_eq (by decide)
  | setSr => exact absurd hmem hsystem
  | writeAddress => exact (Registers.idleKept_writeAddress ..).mode_eq
  | setSp => exact Registers.isSupervisor_setSp ..
  | _ => rfl

/-- Neither the address registers nor the idle stack pointer change. -/
theorem confined {block : Option Block} (h : Changed parts m m')
    (haddress : Part.address ∉ parts) (hsystem : Part.system ∉ parts)
    (hmemory : m.memory.SameOutside block m'.memory) (supervisor : Bool)
    (targets : List (Fin 8)) : Confined supervisor targets block m m' := by
  have hstill : ∀ p ∈ parts, ∀ m m', Update p m m' →
      (m'.registers.address, m'.registers.usp, m'.registers.ssp) =
        (m.registers.address, m.registers.usp, m.registers.ssp) := by
    intro p hp m m' hu
    cases hu with
    | writeAddress | setSp => exact absurd hp haddress
    | setUsp => exact absurd hp hsystem
    | _ => rfl
  have heq := h.view_eq (fun m => (m.registers.address, m.registers.usp, m.registers.ssp)) hstill
  obtain ⟨haddr, husp, hssp⟩ : m'.registers.address = m.registers.address ∧
      m'.registers.usp = m.registers.usp ∧ m'.registers.ssp = m.registers.ssp := by
    simpa only [Prod.mk.injEq] using heq
  exact .of_registers hmemory haddr husp hssp

end Changed

/-! ## 3. Confining actions -/

/-- Parts without an address register, memory or the system. -/
class Quiet (parts : List Part) : Prop where
  address : Part.address ∉ parts
  memory : Part.memory ∉ parts
  system : Part.system ∉ parts

namespace Quiet

variable {parts : List Part} [h : Quiet parts]

theorem insert {p : Part} (haddress : p ≠ .address) (hmemory : p ≠ .memory)
    (hsystem : p ≠ .system) : Quiet (p :: parts) where
  address := List.not_mem_cons_of_ne_of_not_mem haddress.symm h.address
  memory := List.not_mem_cons_of_ne_of_not_mem hmemory.symm h.memory
  system := List.not_mem_cons_of_ne_of_not_mem hsystem.symm h.system

instance nil : Quiet [] := ⟨List.not_mem_nil, List.not_mem_nil, List.not_mem_nil⟩

instance data : Quiet (.data :: parts) := insert nofun nofun nofun

instance pc : Quiet (.pc :: parts) := insert nofun nofun nofun

instance flags {mask : Word} : Quiet (.flags mask :: parts) := insert nofun nofun nofun

instance callDepth : Quiet (.callDepth :: parts) := insert nofun nofun nofun

instance finish : Quiet (.finish :: parts) := insert nofun nofun nofun

end Quiet

/-- The operand's own address register, if it is one. -/
def Operand.addressTargets : Operand → List (Fin 8)
  | .address n => [n]
  | _ => []

/-- The operand's place in memory, if it has one. -/
def Operand.block? (operand : Operand) (size : Size) : Option Block :=
  match operand with
  | .memory a => some (.single a size)
  | _ => none

namespace Exec

variable {α β : Type} {x : Exec α} {f : α → Exec β} {ok trap : List Part}
  {targets : List (Fin 8)} {block : Option Block}

/-- Whenever the action succeeds, it has kept its mode, every address register but those of
    `targets`, and every byte but those of a block. -/
def Confines (targets : List (Fin 8)) (block : Option Block) (x : Exec α) : Prop :=
  ∀ m a m', x m = .ok a m' → m'.registers.isSupervisor = m.registers.isSupervisor ∧
    Confined m.registers.isSupervisor targets block m m'

theorem confines_throw (t : Trap) : Confines targets block (throw t : Exec α) :=
  fun _ _ _ h => by cases h

theorem confines_throw_bind (t : Trap) : Confines targets block ((throw t : Exec α) >>= f) :=
  fun _ _ _ h => by cases h

theorem Confines.bind (hx : Confines targets block x) (hf : ∀ a, Confines targets block (f a)) :
    Confines targets block (x >>= f) := by
  intro m b m' h
  obtain ⟨a, m₁, hxa, hfa⟩ := bind_ok h
  obtain ⟨hmode, hconf⟩ := hx m a m₁ hxa
  obtain ⟨hmode', hconf'⟩ := hf a m₁ b m' hfa
  rw [hmode] at hmode' hconf'
  exact ⟨hmode', hconf.trans hconf'⟩

/-- **What touches no address register and no memory is confined to anything.** -/
theorem confines_of_touches [hq : Quiet ok] (hx : Touches ok trap x) :
    Confines targets block x := by
  intro m a m' h
  have hm := hx.changed h
  have hmemory : m.memory.SameOutside block m'.memory := hm.memory_eq hq.memory ▸ .refl _ _
  exact ⟨hm.isSupervisor_eq hq.system, hm.confined hq.address hq.system hmemory _ _⟩

theorem confines_of_commits [Quiet ok] (hx : Commits ok x) : Confines targets block x :=
  confines_of_touches (hx.safe : Touches ok [] x)

theorem Confines.pure (a : α) : Confines targets block (Pure.pure a : Exec α) :=
  confines_of_commits (.pure a : Commits [] (Pure.pure a : Exec α))

theorem confines_read (operand : Operand) (size : Size) :
    Confines targets block (read operand size) := confines_of_touches (touches_read operand size)

theorem confines_changeFlags (change : FlagChange) (size : Size) :
    Confines targets block (changeFlags change size) :=
  confines_of_commits (commits_changeFlags change size)

theorem confines_setFlag {flag : Word} (hflag : flag &&& conditions = flag) (on : Bool) :
    Confines targets block (setFlag flag on) :=
  confines_of_commits (commits_setFlag (by decide) hflag on)

theorem confines_decimalFlags (result : Byte) (carried : Bool) :
    Confines targets block (modifyStatus (PackedDecimal.flags · result carried)) :=
  confines_of_commits (commits_modifyStatus (by decide)
    fun sr => PackedDecimal.agreeOutside_flags sr result carried)

theorem confines_writeAddress {n : Fin 8} (hn : n ∈ targets) (v : Long) (size : Size) :
    Confines targets block (modifyRegisters (·.writeAddress n v size)) := by
  intro m a m' h
  cases h
  have hother (k : Fin 8) (hk : k ∉ targets) : k ≠ n := fun e => hk (e ▸ hn)
  have hidle := Registers.idleKept_writeAddress m.registers n v size
  refine ⟨hidle.mode_eq, .refl _ _, fun k hk => ?_, hidle.idleSp_eq⟩
  exact Registers.addressIn_writeAddress (hother k hk) v size

theorem confines_setSp (hn : Registers.stackNumber ∈ targets) (v : Address) :
    Confines targets block (modifyRegisters (·.setSp v)) := by
  intro m a m' h
  cases h
  have hother (k : Fin 8) (hk : k ∉ targets) : k ≠ Registers.stackNumber := fun e => hk (e ▸ hn)
  have hidle := Registers.idleKept_setSp m.registers v
  refine ⟨hidle.mode_eq, .refl _ _, fun k hk => ?_, hidle.idleSp_eq⟩
  exact Registers.addressIn_setSp (hother k hk) v

theorem confines_writeMemory (a : Address) (size : Size) (v : Long) :
    Confines targets (some (.single a size)) (writeMemory a size v) := by
  intro m _ m' h
  unfold writeMemory at h
  split at h
  · cases h
    exact ⟨rfl, Memory.sameOutside_store_single .., fun _ _ => rfl, rfl⟩
  · cases h

/-- **A write is confined to the operand that it writes.** -/
theorem confines_write (operand : Operand) (size : Size) (v : Long) :
    Confines operand.addressTargets (operand.block? size) (write operand size v) := by
  cases operand with
  | register reg =>
    cases reg with
    | data n => exact confines_of_commits (commits_writeData n v size)
    | address n => exact confines_writeAddress List.mem_cons_self v size
  | memory a => exact confines_writeMemory a size v
  | immediate => exact confines_throw _

end Exec

/-! ## 4. Operand fields and the stack -/

/-- The address register that a field names as a whole, if it names one. -/
def fieldTargets (ea? : Option EffectiveAddress) : List (Fin 8) :=
  match ea?.bind (·.mode?) with
  | some (.addressDirect n) => [n]
  | _ => []

namespace Registers

/-- The operand that a field leads to with the registers after it, `none` if there is no field or
    if it is unassigned. -/
def fieldOperand? (r : Registers) (ea? : Option EffectiveAddress) (size : Size) :
    Option (Operand × Registers) :=
  ea?.bind fun ea => ea.mode?.map fun mode => mode.operand ea.extension size r

/-- The registers after a field has moved its own. -/
def movedBy (r : Registers) (ea? : Option EffectiveAddress) (size : Size) : Registers :=
  ((r.fieldOperand? ea? size).map (·.2)).getD r

/-- The operand in memory that a field leads to, if it leads there. -/
def fieldBlock? (r : Registers) (ea? : Option EffectiveAddress) (size : Size) : Option Block :=
  (r.fieldOperand? ea? size).bind (·.1.block? size)

/-- The registers after a push. -/
def pushed (r : Registers) (size : Size) : Registers := r.setSp (r.sp - BitVec.ofNat 32 size.bytes)

/-- The registers after a pop. -/
def popped (r : Registers) (size : Size) : Registers := r.setSp (r.sp + BitVec.ofNat 32 size.bytes)

/-- Where a push stores. -/
def pushBlock (r : Registers) (size : Size) : Block :=
  .single (r.sp - BitVec.ofNat 32 size.bytes) size

theorem idleKept_movedBy (r : Registers) (ea? : Option EffectiveAddress) (size : Size) :
    IdleKept r (r.movedBy ea? size) := by
  unfold movedBy fieldOperand?
  cases ea? with
  | none => exact .refl r
  | some ea =>
    rw [Option.bind_some]
    cases ea.mode? with
    | none => exact .refl r
    | some mode =>
      cases mode with
      | postIncrement | preDecrement => exact idleKept_writeAddress ..
      | _ => exact .refl r

/-- An operand that is an address register is the one that its field names. -/
theorem addressTargets_operand {ea : EffectiveAddress} {mode : AddressingMode}
    (hmode : ea.mode? = some mode) (size : Size) (r : Registers) :
    (mode.operand ea.extension size r).1.addressTargets = fieldTargets (some ea) := by
  unfold fieldTargets
  rw [Option.bind_some, hmode]
  cases mode <;> rfl

end Registers

/-! ## 5. Settling actions -/

namespace Exec

variable {α β : Type} {x : Exec α} {f : α → Exec β} {ok trap : List Part}
  {targets : List (Fin 8)} {block : Option Block} {m : Machine} {r r₁ : Registers}

/-- An action that, if it succeeds, only replaces the registers. -/
def Moves (m : Machine) (r : Registers) (x : Exec α) : Prop :=
  ∀ a m', x m = .ok a m' → m' = { m with registers := r }

/-- An action that, if it succeeds, is confined as soon as the registers are replaced. -/
def Settles (m : Machine) (r : Registers) (targets : List (Fin 8)) (block : Option Block)
    (x : Exec α) : Prop :=
  ∀ a m', x m = .ok a m' →
    Confined m.registers.isSupervisor targets block { m with registers := r } m'

theorem Confines.settles (hx : Confines targets block x) (m : Machine) :
    Settles m m.registers targets block x := fun a m' h => (hx m a m' h).2

/-- First the registers move, then the rest is confined. -/
theorem Moves.bind (hx : Moves m r₁ x) (hmode : r₁.isSupervisor = m.registers.isSupervisor)
    (hf : ∀ a, Settles { m with registers := r₁ } r targets block (f a)) :
    Settles m r targets block (x >>= f) := by
  intro b m' h
  obtain ⟨a, m₁, hxa, hfa⟩ := bind_ok h
  obtain rfl := hx a m₁ hxa
  have hconf := hf a b m' hfa
  dsimp only at hconf
  rw [hmode] at hconf
  exact hconf

/-- An action that touches nothing moves nothing. -/
theorem moves_of_touches (hx : Touches [] trap x) (m : Machine) : Moves m m.registers x := by
  intro a m' h
  have hm := hx.changed h
  cases hm with
  | refl => rfl
  | tail _ hstep =>
    obtain ⟨p, hp, _⟩ := hstep
    exact absurd hp List.not_mem_nil

/-- An action that touches nothing comes before without a difference. -/
theorem settles_bind_of_touches (hx : Touches [] trap x)
    (hf : ∀ a, Settles m r targets block (f a)) : Settles m r targets block (x >>= f) :=
  (moves_of_touches hx m).bind rfl hf

theorem settles_bind_of_commits (hx : Commits [] x) (hf : ∀ a, Settles m r targets block (f a)) :
    Settles m r targets block (x >>= f) := settles_bind_of_touches (hx.safe : Touches [] [] x) hf

theorem moves_modifyRegisters (g : Registers → Registers) (m : Machine) :
    Moves m (g m.registers) (modifyRegisters g) := fun _ _ h => by cases h; rfl

/-- **Resolving a field leads to its operand** with the registers after it, or is refused. -/
theorem resolve_eq (ea? : Option EffectiveAddress) (size : Size) (m : Machine) :
    resolve ea? size m =
      match m.registers.fieldOperand? ea? size with
      | some (operand, registers) => .ok operand { m with registers }
      | none => .error .illegalInstruction m := by
  unfold resolve EffectiveAddress.resolve Registers.fieldOperand?
  cases ea? with
  | none => rfl
  | some ea =>
    rw [Option.bind_some]
    dsimp only
    cases ea.mode? with
    | none => rfl
    | some mode => rfl

/-- **Resolving a field moves what the field moves**, and the operand is where the field leads. -/
theorem resolve_ok {ea? : Option EffectiveAddress} {size : Size} {operand : Operand}
    {m m' : Machine} (h : resolve ea? size m = .ok operand m') :
    m' = { m with registers := m.registers.movedBy ea? size } ∧
      operand.addressTargets = fieldTargets ea? ∧
      operand.block? size = m.registers.fieldBlock? ea? size := by
  unfold resolve EffectiveAddress.resolve at h
  unfold Registers.movedBy Registers.fieldBlock? Registers.fieldOperand?
  cases ea? with
  | none => cases h
  | some ea =>
    rw [Option.bind_some]
    dsimp only at h
    cases hmode : ea.mode? with
    | none => rw [hmode] at h; cases h
    | some mode =>
      rw [hmode] at h
      cases h
      exact ⟨rfl, Registers.addressTargets_operand hmode .., rfl⟩

/-- What follows a field may depend on where it leads. -/
theorem settles_resolve {ea? : Option EffectiveAddress} {size : Size} {g : Operand → Exec β}
    (hg : ∀ operand, operand.addressTargets = fieldTargets ea? →
      operand.block? size = m.registers.fieldBlock? ea? size →
      Settles { m with registers := m.registers.movedBy ea? size } r targets block (g operand)) :
    Settles m r targets block (resolve ea? size >>= g) := by
  intro b m' h
  obtain ⟨operand, m₁, hres, hrest⟩ := bind_ok h
  obtain ⟨rfl, htargets, hblock⟩ := resolve_ok hres
  have hconf := hg operand htargets hblock b m' hrest
  rw [(m.registers.idleKept_movedBy ea? size).mode_eq] at hconf
  exact hconf

/-- An operation that may write what a field leads to. -/
theorem settles_written {ea? : Option EffectiveAddress} {size : Size} {g : Operand → Exec β}
    (hg : ∀ operand, Confines operand.addressTargets (operand.block? size) (g operand)) :
    Settles m (m.registers.movedBy ea? size) (fieldTargets ea?) (m.registers.fieldBlock? ea? size)
      (resolve ea? size >>= g) := by
  refine settles_resolve fun operand htargets hblock => ?_
  have hoperand := hg operand
  rw [htargets, hblock] at hoperand
  exact hoperand.settles _

/-- An operation that only reads what a field leads to. -/
theorem settles_read {ea? : Option EffectiveAddress} {size : Size} {g : Operand → Exec β}
    (hg : ∀ operand, Confines targets block (g operand)) :
    Settles m (m.registers.movedBy ea? size) targets block (resolve ea? size >>= g) :=
  settles_resolve fun operand _ _ => (hg operand).settles _

/-- A field that must move no register moves none. -/
theorem control_ok {ea? : Option EffectiveAddress} {a : Address} {m m' : Machine}
    (h : control ea? m = .ok a m') (size : Size) :
    m' = m ∧ m.registers.movedBy ea? size = m.registers := by
  refine ⟨moves_of_touches (touches_control ea?) m a m' h, ?_⟩
  unfold control EffectiveAddress.controlAddress at h
  unfold Registers.movedBy Registers.fieldOperand?
  cases ea? with
  | none => rfl
  | some ea =>
    rw [Option.bind_some]
    dsimp only at h
    cases hmode : ea.mode? with
    | none => rfl
    | some mode =>
      rw [hmode] at h
      cases mode with
      | control mode => rfl
      | _ => cases h

theorem settles_control {ea? : Option EffectiveAddress} {size : Size} {g : Address → Exec β}
    (move : Registers → Registers)
    (hg : ∀ a, Settles m (move m.registers) targets block (g a)) :
    Settles m (move (m.registers.movedBy ea? size)) targets block (control ea? >>= g) := by
  intro b m' h
  obtain ⟨a, m₁, hcontrol, hrest⟩ := bind_ok h
  obtain ⟨rfl, hstay⟩ := control_ok hcontrol size
  rw [hstay]
  exact hg a b m' hrest

/-- Behind a push nothing else is stored. -/
theorem settles_push {size : Size} {v : Long} {g : Unit → Exec β}
    (hg : ∀ u, Confines targets (some (m.registers.pushBlock size)) (g u)) :
    Settles m (m.registers.pushed size) targets (some (m.registers.pushBlock size))
      (push size v >>= g) := by
  intro b m' h
  obtain ⟨_, m₁, hpush, hrest⟩ := bind_ok h
  obtain ⟨_, _, hr, hpush⟩ := bind_ok hpush
  cases hr
  obtain ⟨_, m₂, hwrite, hsp⟩ := bind_ok hpush
  unfold writeMemory at hwrite
  split at hwrite
  case isFalse => cases hwrite
  case isTrue ha =>
    cases hwrite
    cases hsp
    obtain ⟨_, hconf⟩ := hg () _ b m' hrest
    dsimp only at hconf
    rw [Registers.isSupervisor_setSp] at hconf
    have hstored : Confined m.registers.isSupervisor targets
        (some (m.registers.pushBlock size)) { m with registers := m.registers.pushed size }
        { m with
          registers := m.registers.pushed size
          memory := m.memory.store (m.registers.sp - BitVec.ofNat 32 size.bytes).toNat size v } :=
      ⟨Memory.sameOutside_store_single .., fun _ _ => rfl, rfl⟩
    exact hstored.trans hconf

theorem moves_pop (size : Size) (m : Machine) : Moves m (m.registers.popped size) (pop size) := by
  intro v m' h
  obtain ⟨_, _, hr, hpop⟩ := bind_ok h
  cases hr
  obtain ⟨w, m₁, hread, hrest⟩ := bind_ok hpop
  obtain rfl : m₁ = m := moves_of_touches (touches_readMemory _ size) m w m₁ hread
  cases hrest
  rfl

theorem moves_popWord (m : Machine) : Moves m (m.registers.popped .word) popWord := by
  intro w m' h
  obtain ⟨v, m₁, hpop, h⟩ := bind_ok h
  cases h
  exact moves_pop .word m v m' hpop

/-- What changes no address register may change the mode at the end. -/
theorem settles_modifyRegisters {g : Registers → Registers}
    (hg : ∀ r, (g r).address = r.address ∧ (g r).usp = r.usp ∧ (g r).ssp = r.ssp) :
    Settles m m.registers targets block (modifyRegisters g) := by
  intro u m' h
  cases h
  obtain ⟨haddress, husp, hssp⟩ := hg m.registers
  exact .of_registers (.refl _ _) haddress husp hssp

end Exec

end Mc68000
