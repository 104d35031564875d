import Mc68000.Proofs.DisjointStores
import Mc68000.Proofs.Execution

/-!
# The stack

Words and longs go onto the active stack and come off it again.

* `Exec.push_eq`, `pop_eq` -- a push and a pop as one access each;
* `Exec.pop_of_push` -- **what is pushed is popped**, at any later time at which the stack pointer
  is the same and the operand is still there;
* `StackItem`, `Exec.pushAll`, `popAll` -- values of both widths, one after the other;
* `Machine.Stacked` -- a machine with values on the stack of another one; `stacked_of_pushAll`;
* `popAll_of_pushAll` -- **the last value on the stack comes off first**;
* `Exec.stack_lifo` -- the same with what the values leave alone, and what a refused push or pop
  leaves.
-/

namespace Mc68000

/-! ## 1. Stack pointers -/

namespace Registers

theorem setSp_setSp (r : Registers) (v w : Address) : (r.setSp v).setSp w = r.setSp w := by
  have hmode := isSupervisor_setSp r v
  unfold setSp at hmode ⊢
  rw [hmode]
  split <;> rfl

theorem setSp_sp (r : Registers) : r.setSp r.sp = r := by
  unfold setSp sp
  split <;> rfl

/-- A pop takes the stack pointer back to where a push has found it. -/
theorem popped_of_pushed {r r' : Registers} {size : Size} (h : r'.sp = (r.pushed size).sp) :
    r'.popped size = r'.setSp r.sp := by
  unfold popped
  rw [h, pushed, sp_setSp, BitVec.sub_add_cancel]

end Registers

/-! ## 2. One value -/

namespace Exec

variable {size : Size} {v : Long} {m m' k : Machine}

/-- **A push** stores below the stack pointer, or traps and changes nothing. -/
theorem push_eq (size : Size) (v : Long) (m : Machine) :
    push size v m =
      if accessible (m.registers.pushed size).sp size m.memory.capacity then
        .ok () { m with
          registers := m.registers.pushed size
          memory := m.memory.store (m.registers.pushed size).sp.toNat size v }
      else .error .addressError m := by
  unfold Registers.pushed
  rw [Registers.sp_setSp]
  show (writeMemory (m.registers.sp - BitVec.ofNat 32 size.bytes) size v >>= fun _ => _) m = _
  rw [run_bind]
  unfold writeMemory
  by_cases haccess : accessible (m.registers.sp - BitVec.ofNat 32 size.bytes) size
      m.memory.capacity = true
  · rw [if_pos haccess, if_pos haccess]
    rfl
  · rw [if_neg haccess, if_neg haccess]

/-- **A pop** reads at the stack pointer, or traps and changes nothing. -/
theorem pop_eq (size : Size) (m : Machine) :
    pop size m =
      match m.memory.read m.registers.sp size with
      | .ok v => .ok v { m with registers := m.registers.popped size }
      | .error t => .error t m := by
  show (readMemory m.registers.sp size >>= fun _ => _) m = _
  rw [run_bind]
  unfold readMemory
  cases m.memory.read m.registers.sp size <;> rfl

/-- A push that succeeds, and the access that it makes. -/
theorem push_ok (h : push size v m = .ok () m') :
    accessible (m.registers.pushed size).sp size m.memory.capacity = true ∧
      m' = { m with
        registers := m.registers.pushed size
        memory := m.memory.store (m.registers.pushed size).sp.toNat size v } := by
  rw [push_eq] at h
  split at h
  · cases h
    exact ⟨‹_›, rfl⟩
  · cases h

/-- **What is pushed is popped**, at any later time at which the stack pointer is the same and the
    operand is still there. The stack pointer is then as before the push. -/
theorem pop_of_push (h : push size v m = .ok () m')
    (hsp : k.registers.sp = m'.registers.sp)
    (hslot : k.memory.read m'.registers.sp size = m'.memory.read m'.registers.sp size) :
    pop size k =
      .ok (size.truncate v) { k with registers := k.registers.setSp m.registers.sp } := by
  obtain ⟨haccess, rfl⟩ := push_ok h
  dsimp only at hsp hslot
  rw [Memory.read_store haccess] at hslot
  rw [pop_eq, hsp, hslot, Registers.popped_of_pushed hsp]

theorem push_error {t : Trap} (h : push size v m = .error t m') : t = .addressError ∧ m' = m := by
  rw [push_eq] at h
  split at h
  · cases h
  · cases h
    exact ⟨rfl, rfl⟩

theorem pop_error {t : Trap} (h : pop size m = .error t m') : t = .addressError ∧ m' = m := by
  rw [pop_eq] at h
  unfold Memory.read at h
  split at h
  · cases h
  · rename_i hread
    cases h
    split at hread
    · cases hread
    · cases hread
      exact ⟨rfl, rfl⟩

end Exec

/-! ## 3. Values of both widths -/

/-- A value that a host or an instruction puts on the stack. -/
inductive StackItem where
  | word (w : Word)
  | long (v : Long)
  deriving DecidableEq, Repr

namespace StackItem

/-- Whether the value is a long. -/
def isLong : StackItem → Bool
  | word _ => false
  | long _ => true

/-- The size of the value. -/
def size (item : StackItem) : Size := Size.longIf item.isLong

/-- The value with zeros above it. -/
def value : StackItem → Long
  | word w => w.setWidth 32
  | long v => v

/-- The value that the low bits of an operand are at a width. -/
def ofValue (isLong : Bool) (v : Long) : StackItem :=
  if isLong then long v else word (v.setWidth 16)

theorem ofValue_value (item : StackItem) :
    ofValue item.isLong (item.size.truncate item.value) = item := by
  cases item with
  | word w =>
    have hvalue : (Size.word.truncate (w.setWidth 32)).setWidth 16 = w := by
      rw [Size.truncate_eq_setWidth]
      simp [Size.bits, Size.bytes]
    exact congrArg word hvalue
  | long v => exact congrArg long (Size.truncate_long v)

/-- The number of bytes of some values together. -/
def totalBytes : List StackItem → Nat
  | [] => 0
  | item :: items => item.size.bytes + totalBytes items

end StackItem

namespace Exec

/-- Pushes a value of either width. -/
def pushItem : StackItem → Exec Unit
  | .word w => pushWord w
  | .long v => pushLong v

/-- Pops a value of the given width. -/
def popItem (isLong : Bool) : Exec StackItem :=
  if isLong then return .long (← popLong) else return .word (← popWord)

/-- Pushes values, the first one first. -/
def pushAll : List StackItem → Exec Unit
  | [] => return ()
  | item :: items => do
    pushItem item
    pushAll items

/-- Pops values of the given widths, and lists them in the order in which they come. -/
def popAll : List Bool → Exec (List StackItem)
  | [] => return []
  | isLong :: widths => do
    let item ← popItem isLong
    let items ← popAll widths
    return item :: items

variable {item : StackItem} {items : List StackItem} {widths : List Bool} {m m' m'' k : Machine}

theorem pushItem_eq (item : StackItem) : pushItem item = push item.size item.value := by
  cases item <;> rfl

theorem popItem_eq (isLong : Bool) (m : Machine) :
    popItem isLong m =
      match pop (Size.longIf isLong) m with
      | .ok v m' => .ok (StackItem.ofValue isLong v) m'
      | .error t m' => .error t m' := by
  cases isLong with
  | false =>
    have hsize : Size.longIf false = .word := rfl
    show (popWord >>= fun w => _) m = _
    unfold popWord
    rw [run_bind, run_bind, hsize]
    cases pop .word m <;> rfl
  | true =>
    have hsize : Size.longIf true = .long := rfl
    show (popLong >>= fun v => _) m = _
    unfold popLong
    rw [run_bind, hsize]
    cases pop .long m <;> rfl

theorem pushItem_error {t : Trap} (h : pushItem item m = .error t m') :
    t = .addressError ∧ m' = m := by
  rw [pushItem_eq] at h
  exact push_error h

theorem popItem_error {isLong : Bool} {t : Trap} (h : popItem isLong m = .error t m') :
    t = .addressError ∧ m' = m := by
  rw [popItem_eq] at h
  cases hpop : pop (Size.longIf isLong) m with
  | ok v m₁ => rw [hpop] at h; cases h
  | error e m₁ =>
    rw [hpop] at h
    cases h
    exact pop_error hpop

/-- **An item that is pushed is popped** by its width. -/
theorem popItem_of_pushItem (h : pushItem item m = .ok () m')
    (hsp : k.registers.sp = m'.registers.sp)
    (hslot : k.memory.read m'.registers.sp item.size = m'.memory.read m'.registers.sp item.size) :
    popItem item.isLong k =
      .ok item { k with registers := k.registers.setSp m.registers.sp } := by
  rw [pushItem_eq] at h
  have hpop : pop (Size.longIf item.isLong) k = _ := pop_of_push h hsp hslot
  rw [popItem_eq, hpop]
  exact congrArg (EStateM.Result.ok · _) item.ofValue_value

theorem popAll_append {items' : List StackItem} {widths' : List Bool}
    (h : popAll widths m = .ok items m') (h' : popAll widths' m' = .ok items' m'') :
    popAll (widths ++ widths') m = .ok (items ++ items') m'' := by
  induction widths generalizing m items with
  | nil =>
    cases h
    exact h'
  | cons isLong widths ih =>
    obtain ⟨item, m₁, hfirst, hrest⟩ := bind_ok h
    obtain ⟨rest, m₂, hpops, hlist⟩ := bind_ok hrest
    cases hlist
    show (popItem isLong >>= fun item => _) m = _
    rw [bind_eq hfirst]
    exact bind_eq (ih hpops)

end Exec

/-! ## 4. Values on a stack -/

/-- `m'` is `m` with values of so many bytes in all on the active stack: the stack pointer is that
    far lower, without a wrap, and memory is as before below it and from where it was. -/
structure Machine.Stacked (bytes : Nat) (m m' : Machine) : Prop where
  eq : m' = { m with registers := m.registers.setSp m'.registers.sp, memory := m'.memory }
  sp_add : m'.registers.sp.toNat + bytes = m.registers.sp.toNat
  capacity_eq : m'.memory.capacity = m.memory.capacity
  byte_eq : ∀ j, j < m'.registers.sp.toNat ∨ m.registers.sp.toNat ≤ j →
    m'.memory.byte j = m.memory.byte j

namespace Machine.Stacked

variable {a b : Nat} {m m' m'' : Machine}

theorem refl (m : Machine) : Stacked 0 m m := ⟨by rw [Registers.setSp_sp], rfl, rfl, fun _ _ => rfl⟩

theorem trans (h : Stacked a m m') (h' : Stacked b m' m'') : Stacked (a + b) m m'' where
  eq := by
    have hlast := h'.eq
    rw [h.eq, Registers.setSp_setSp] at hlast
    exact hlast
  sp_add := by
    have hfirst := h.sp_add
    have hlast := h'.sp_add
    omega
  capacity_eq := h'.capacity_eq.trans h.capacity_eq
  byte_eq := fun j hj => by
    have hfirst := h.sp_add
    have hlast := h'.sp_add
    rw [h'.byte_eq j (by omega), h.byte_eq j (by omega)]

end Machine.Stacked

namespace Exec

open Machine

variable {items : List StackItem} {size : Size} {v : Long} {m m' : Machine}

/-- **One push** in a store that ends below the last address. The stack pointer cannot wrap, since
    the operand would reach past the end. -/
theorem stacked_push (hcapacity : m.memory.capacity < Long.count) (h : push size v m = .ok () m') :
    Stacked size.bytes m m' := by
  obtain ⟨haccess, rfl⟩ := push_ok h
  have hin := Memory.le_of_accessible haccess
  have hlow : (m.registers.pushed size).sp = m.registers.sp - BitVec.ofNat 32 size.bytes :=
    Registers.sp_setSp ..
  have hsp : (m.registers.pushed size).sp.toNat + size.bytes = m.registers.sp.toNat := by
    have hbytes : size.bytes ≤ 4 := by cases size <;> decide
    rw [hlow] at hin ⊢
    unfold Long.count at hcapacity
    rw [BitVec.toNat_sub, BitVec.toNat_ofNat] at hin ⊢
    have hlt := m.registers.sp.isLt
    omega
  refine ⟨?_, hsp, Memory.capacity_store .., fun j hj => ?_⟩
  · dsimp only
    rw [hlow]
    rfl
  · refine Memory.byte_setBytes_of_outside _ _ _ _ ?_
    rw [Memory.length_operandBytes, hsp]
    exact hj

/-- **Values pushed one after the other.** -/
theorem stacked_of_pushAll (hcapacity : m.memory.capacity < Long.count)
    (h : pushAll items m = .ok () m') : Stacked (StackItem.totalBytes items) m m' := by
  induction items generalizing m with
  | nil =>
    cases h
    exact .refl _
  | cons item items ih =>
    obtain ⟨_, m₁, hpush, hrest⟩ := bind_ok h
    rw [pushItem_eq] at hpush
    have hfirst := stacked_push hcapacity hpush
    have hlast := ih (by rw [hfirst.capacity_eq]; exact hcapacity) hrest
    exact hfirst.trans hlast

/-- **The last value on the stack comes off first.** The induction is on the values: the first of
    them lies above all later ones, so it is still there when these have come off. -/
theorem popAll_of_pushAll (hcapacity : m.memory.capacity < Long.count)
    (h : pushAll items m = .ok () m') :
    popAll (items.reverse.map StackItem.isLong) m' =
      .ok items.reverse { m with memory := m'.memory } := by
  induction items generalizing m with
  | nil =>
    cases h
    rfl
  | cons item items ih =>
    obtain ⟨_, m₁, hpush, hrest⟩ := bind_ok h
    have hfirst : Stacked item.size.bytes m m₁ := stacked_push hcapacity (by rwa [← pushItem_eq])
    have hcapacity₁ : m₁.memory.capacity < Long.count := by rwa [hfirst.capacity_eq]
    have hlater := stacked_of_pushAll hcapacity₁ hrest
    have hslot : m'.memory.read m₁.registers.sp item.size =
        m₁.memory.read m₁.registers.sp item.size := by
      unfold Memory.read
      rw [hlater.capacity_eq, Memory.fetch_congr fun j hj _ => hlater.byte_eq j (.inr hj)]
    have hpop := popItem_of_pushItem (k := { m₁ with memory := m'.memory }) hpush rfl hslot
    rw [List.reverse_cons, List.map_append]
    refine popAll_append (ih hcapacity₁ hrest) ?_
    show (popItem item.isLong >>= fun item => _) _ = _
    rw [bind_eq hpop, hfirst.eq]
    dsimp only
    rw [Registers.setSp_setSp, Registers.setSp_sp]
    rfl

/-- **The stack is last in, first out.** After pushes that succeed in a store that ends below the
    last address, pops of the same widths in reverse order give the values back and leave the
    machine as it was, but for the bytes between the lowest stack pointer and the first one. A push
    or a pop that is refused leaves the whole machine as it was. -/
theorem stack_lifo (hcapacity : m.memory.capacity < Long.count)
    (h : pushAll items m = .ok () m') :
    (∃ k, popAll (items.reverse.map StackItem.isLong) m' = .ok items.reverse k ∧
      k = { m with memory := k.memory } ∧ k.registers = m.registers ∧
      m'.registers.sp.toNat + StackItem.totalBytes items = m.registers.sp.toNat ∧
      k.memory.capacity = m.memory.capacity ∧
      ∀ j, j < m'.registers.sp.toNat ∨ m.registers.sp.toNat ≤ j →
        k.memory.byte j = m.memory.byte j) ∧
    (∀ (x x' : Machine) (item : StackItem) (t : Trap), pushItem item x = .error t x' →
      t = .addressError ∧ x' = x) ∧
    (∀ (x x' : Machine) (isLong : Bool) (t : Trap), popItem isLong x = .error t x' →
      t = .addressError ∧ x' = x) := by
  have hstacked := stacked_of_pushAll hcapacity h
  refine ⟨⟨_, popAll_of_pushAll hcapacity h, rfl, rfl, hstacked.sp_add, hstacked.capacity_eq,
    hstacked.byte_eq⟩, ?_, ?_⟩
  · exact fun _ _ _ _ herror => pushItem_error herror
  · exact fun _ _ _ _ herror => popItem_error herror

/-- Values of both widths. -/
def mixedItems : List StackItem := [.long 0x01020304, .word 0xFFFE, .long 5]

/-- A machine in supervisor mode with room for them. -/
def aboutToPush : Machine :=
  { Machine.new { memoryBytes := 12, traceInstructions := false } with
    registers := { Registers.zeros with usp := 6, ssp := 12, sr := Status.supervisor } }

/-- They come off the supervisor stack again, ten bytes in all. -/
theorem stack_lifo_mixed :
    aboutToPush.memory.capacity < Long.count ∧
      ∃ m' k, pushAll mixedItems aboutToPush = .ok () m' ∧ m'.registers.ssp = 2 ∧
        popAll [true, false, true] m' = .ok [.long 5, .word 0xFFFE, .long 0x01020304] k ∧
        k.registers = aboutToPush.registers ∧ k.memory.byte 1 = 0 := by
  have hcapacity : aboutToPush.memory.capacity < Long.count := by decide
  obtain ⟨m', h, hssp, hsp⟩ : ∃ m', pushAll mixedItems aboutToPush = .ok () m' ∧
      m'.registers.ssp = 2 ∧ m'.registers.sp = 2 := ⟨_, rfl, by decide, by decide⟩
  obtain ⟨⟨k, hpops, -, hregisters, -, -, hbyte⟩, -, -⟩ := stack_lifo hcapacity h
  refine ⟨hcapacity, m', k, h, hssp, hpops, hregisters, ?_⟩
  rw [hbyte 1 (.inl (by rw [hsp]; decide))]
  decide

end Exec

end Mc68000
