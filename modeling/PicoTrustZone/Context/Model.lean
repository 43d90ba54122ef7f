import PicoTrustZone.Lib.ByteMemory
import PicoTrustZone.Lib.Transition
import Mathlib.Algebra.Group.Nat.Defs

/-!
# The secure context manager

The five non-secure callable entries of `secure/src/tz_context.c`, over the
three static variables of that file and the banked secure registers they use.

A slot owns `TZ_PROCESS_STACK_SIZE` bytes of `ProcessStackMemory`.  While a
slot is inactive, that is, while its `sp` is 0, the first word of its stack
holds the index of the next free slot.  `ProcessStackFreeSlot` is the first
free slot, and `0xFFFFFFFF` ends the list.

Every array access is checked.  An entry returns `none` where the C code would
index past the end of an array, so a theorem about `some` results speaks about
defined executions, and in-bounds theorems say that `none` never happens.

The registers are plain words.  The hardware keeps the low bits of `PSP` and
`PSPLIM` at zero, and `ProcessStackMemory` is an array of `uint64_t`, so no
value the entries write loses a bit.
-/

namespace TzContext

/-- `uint32_t`. -/
abbrev Word := BitVec 32

/-! ## Configuration -/

/-- The compile-time and link-time parameters of the context manager. -/
structure Config where
  /-- `TZ_PROCESS_STACK_SLOTS`. -/
  slots : Nat
  /-- `TZ_PROCESS_STACK_SIZE`, in bytes. -/
  stackSize : Nat
  /-- The address the linker gives to `ProcessStackMemory`. -/
  base : Nat
  slots_pos : 1 ≤ slots
  size_pos : 0 < stackSize
  size_dvd : 8 ∣ stackSize
  base_pos : 0 < base
  fits : base + slots * stackSize < 2 ^ 32

/-- A pool of two slots of 16 bytes. -/
def Config.small : Config where
  slots := 2
  stackSize := 16
  base := 0x20001000
  slots_pos := by decide
  size_pos := by decide
  size_dvd := by decide
  base_pos := by decide
  fits := by decide

/-- `&ProcessStackMemory[n]`. -/
def Config.slotBase (cfg : Config) (n : Nat) : Nat := cfg.base + n * cfg.stackSize

/-- One past the last byte of the stack of slot `n`. -/
def Config.slotTop (cfg : Config) (n : Nat) : Nat := cfg.slotBase n + cfg.stackSize

theorem Config.slotBase_succ (cfg : Config) (n : Nat) : cfg.slotBase (n + 1) = cfg.slotTop n := by
  simp only [slotTop, slotBase, Nat.succ_mul, Nat.add_assoc]

@[simp] theorem Config.slotBase_zero (cfg : Config) : cfg.slotBase 0 = cfg.base := by
  simp [slotBase]

theorem Config.eight_le_size (cfg : Config) : 8 ≤ cfg.stackSize :=
  Nat.le_of_dvd cfg.size_pos cfg.size_dvd

theorem Config.slotBase_pos (cfg : Config) (n : Nat) : 0 < cfg.slotBase n :=
  Nat.add_pos_left cfg.base_pos _

theorem Config.slotTop_le_of_lt (cfg : Config) {i j : Nat} (h : i < j) :
    cfg.slotTop i ≤ cfg.slotBase j := by
  rw [← cfg.slotBase_succ]
  exact Nat.add_le_add_left (Nat.mul_le_mul_right _ h) _

theorem Config.slotTop_lt (cfg : Config) {n : Nat} (h : n < cfg.slots) :
    cfg.slotTop n < 2 ^ 32 :=
  Nat.lt_of_le_of_lt (cfg.slotTop_le_of_lt h) cfg.fits

theorem Config.slotBase_lt (cfg : Config) {n : Nat} (h : n < cfg.slots) :
    cfg.slotBase n < 2 ^ 32 :=
  Nat.lt_of_le_of_lt (Nat.le_add_right _ _) (cfg.slotTop_lt h)

theorem Config.slots_lt (cfg : Config) : cfg.slots < 0xFFFFFFFF := by
  have h8 : cfg.slots * 8 ≤ cfg.slots * cfg.stackSize := Nat.mul_le_mul_left _ cfg.eight_le_size
  have hfit := cfg.fits
  omega

/-- The stacks of two slots do not meet. -/
theorem Config.slots_apart (cfg : Config) {i j : Nat} (h : i ≠ j) :
    cfg.slotTop i ≤ cfg.slotBase j ∨ cfg.slotTop j ≤ cfg.slotBase i :=
  (Nat.lt_or_gt_of_ne h).imp (cfg.slotTop_le_of_lt ·) (cfg.slotTop_le_of_lt ·)

/-- The link words of two slots do not meet. -/
theorem Config.links_apart (cfg : Config) {i j : Nat} (h : i ≠ j) :
    ByteMemory.Apart (cfg.slotBase i) (cfg.slotBase j) := by
  have h8 := cfg.eight_le_size
  have hij := cfg.slots_apart h
  simp only [slotTop] at hij
  rw [ByteMemory.Apart]
  omega

/-! ## State -/

/-- `stack_info_t`. -/
structure StackInfo where
  /-- Stack space top. -/
  spTop : Word
  /-- Stack space limit. -/
  spLimit : Word
  /-- Current stack pointer, 0 for an inactive slot. -/
  sp : Word
deriving DecidableEq, Repr

/-- The static variables of `tz_context.c` and the secure registers it uses. -/
structure State where
  /-- `ProcessStackInfo`. -/
  processStackInfo : Nat → StackInfo
  /-- The bytes of `ProcessStackMemory`, by address. -/
  processStackMemory : ByteMemory
  /-- `ProcessStackFreeSlot`. -/
  processStackFreeSlot : Word
  psp : Word
  psplim : Word
  control : Word

/-- The value of `ProcessStackFreeSlot` and of a link that ends the free list. -/
def noSlot : Word := 0xFFFFFFFF

namespace State

/-- `ProcessStackInfo[n].sp`. -/
def sp (s : State) (n : Nat) : Word := (s.processStackInfo n).sp

/-- `*((uint32_t *)ProcessStackMemory[n])`. -/
def link (s : State) (cfg : Config) (n : Nat) : Word :=
  s.processStackMemory.word (cfg.slotBase n)

/-- Overwrite `ProcessStackInfo[n]`. -/
def setInfo (s : State) (n : Nat) (i : StackInfo) : State :=
  { s with processStackInfo := Function.update s.processStackInfo n i }

/-- Overwrite `ProcessStackInfo[n].sp`. -/
def setSp (s : State) (n : Nat) (v : Word) : State :=
  s.setInfo n { s.processStackInfo n with sp := v }

/-- Overwrite the first word of `ProcessStackMemory[n]`. -/
def setLink (s : State) (cfg : Config) (n : Nat) (v : Word) : State :=
  { s with processStackMemory := s.processStackMemory.setWord (cfg.slotBase n) v }

/-- Overwrite `ProcessStackFreeSlot`. -/
def setHead (s : State) (v : Word) : State := { s with processStackFreeSlot := v }

/-- Install a process stack: `__set_PSPLIM` and `__set_PSP`. -/
def setStack (s : State) (limit top : Word) : State := { s with psplim := limit, psp := top }

/-! ### Checked array accesses -/

/-- Read `ProcessStackInfo[slot]`. -/
def readInfo (s : State) (cfg : Config) (slot : Word) : Option StackInfo :=
  if slot.toNat < cfg.slots then some (s.processStackInfo slot.toNat) else none

/-- Write `ProcessStackInfo[slot]`. -/
def writeInfo (s : State) (cfg : Config) (slot : Word) (i : StackInfo) : Option State :=
  if slot.toNat < cfg.slots then some (s.setInfo slot.toNat i) else none

/-- Write `ProcessStackInfo[slot].sp`. -/
def writeSp (s : State) (cfg : Config) (slot : Word) (v : Word) : Option State :=
  if slot.toNat < cfg.slots then some (s.setSp slot.toNat v) else none

/-- Read the first word of `ProcessStackMemory[slot]`. -/
def readLink (s : State) (cfg : Config) (slot : Word) : Option Word :=
  if slot.toNat < cfg.slots then some (s.link cfg slot.toNat) else none

/-- Write the first word of `ProcessStackMemory[slot]`. -/
def writeLink (s : State) (cfg : Config) (slot : Word) (v : Word) : Option State :=
  if slot.toNat < cfg.slots then some (s.setLink cfg slot.toNat v) else none

end State

/-! ## The entries

Each entry takes the value `__get_IPSR()` reads.  It is 0 in thread mode. -/

/-- One pass of the loop of `TZ_InitContextSystem_S`. -/
def initSlot (cfg : Config) (s : State) (n : Nat) : Option State := do
  let s ← s.writeInfo cfg (BitVec.ofNat 32 n)
    { sp := 0
      spLimit := BitVec.ofNat 32 (cfg.slotBase n)
      spTop := BitVec.ofNat 32 (cfg.slotBase n) + BitVec.ofNat 32 cfg.stackSize }
  s.writeLink cfg (BitVec.ofNat 32 n) (BitVec.ofNat 32 n + 1)

/-- The first `n` passes. -/
def initSlots (cfg : Config) : Nat → State → Option State
  | 0, s => some s
  | n + 1, s => do
      let s ← initSlots cfg n s
      initSlot cfg s n

/-- `TZ_InitContextSystem_S`. -/
def tzInitContextSystemS (cfg : Config) (ipsr : Word) (s : State) : Option (Word × State) :=
  if ipsr = 0 then some (0, s)
  else do
    let s ← initSlots cfg cfg.slots s
    let s ← s.writeLink cfg (BitVec.ofNat 32 cfg.slots - 1) noSlot
    let s := s.setHead 0
    let s := s.setStack (BitVec.ofNat 32 cfg.base) (BitVec.ofNat 32 cfg.base)
    -- privileged thread mode using PSP
    return (1, { s with control := 2 })

/-- `TZ_AllocModuleContext_S`.  The module is ignored: all stacks have one size. -/
def tzAllocModuleContextS (cfg : Config) (ipsr _module : Word) (s : State) :
    Option (Word × State) :=
  if ipsr = 0 then some (0, s)
  else if s.processStackFreeSlot = noSlot then some (0, s)
  else do
    let slot := s.processStackFreeSlot
    let next ← s.readLink cfg slot
    let s := s.setHead next
    let info ← s.readInfo cfg slot
    let s ← s.writeSp cfg slot info.spTop
    return (slot + 1, s)

/-- `TZ_FreeModuleContext_S`. -/
def tzFreeModuleContextS (cfg : Config) (ipsr id : Word) (s : State) : Option (Word × State) :=
  if ipsr = 0 then some (0, s)
  else if id = 0 ∨ cfg.slots < id.toNat then some (0, s)
  else do
    let slot := id - 1
    let info ← s.readInfo cfg slot
    if info.sp = 0 then return (0, s)
    else
      let s ← s.writeSp cfg slot 0
      let s ← s.writeLink cfg slot s.processStackFreeSlot
      return (1, s.setHead slot)

/-- `TZ_LoadContext_S`. -/
def tzLoadContextS (cfg : Config) (ipsr id : Word) (s : State) : Option (Word × State) :=
  if ipsr = 0 ∨ s.control &&& 2 = 0 then some (0, s)
  else if id = 0 ∨ cfg.slots < id.toNat then some (0, s)
  else do
    let slot := id - 1
    let info ← s.readInfo cfg slot
    if info.sp = 0 then return (0, s)
    else return (1, s.setStack info.spLimit info.sp)

/-- `TZ_StoreContext_S`. -/
def tzStoreContextS (cfg : Config) (ipsr id : Word) (s : State) : Option (Word × State) :=
  if ipsr = 0 ∨ s.control &&& 2 = 0 then some (0, s)
  else if id = 0 ∨ cfg.slots < id.toNat then some (0, s)
  else do
    let slot := id - 1
    let info ← s.readInfo cfg slot
    if info.sp = 0 then return (0, s)
    else
      let sp := s.psp
      if sp < info.spLimit ∨ sp > info.spTop then return (0, s)
      else
        let s ← s.writeSp cfg slot sp
        -- default process stack pointer and stack limit
        return (1, s.setStack (BitVec.ofNat 32 cfg.base) (BitVec.ofNat 32 cfg.base))

/-- A call of one of the five entries, with its argument. -/
inductive Entry where
  | init
  | alloc (module : Word)
  | free (id : Word)
  | load (id : Word)
  | store (id : Word)
deriving DecidableEq, Repr

/-- Run an entry to completion. -/
def exec (cfg : Config) (ipsr : Word) : Entry → State → Option (Word × State)
  | .init => tzInitContextSystemS cfg ipsr
  | .alloc module => tzAllocModuleContextS cfg ipsr module
  | .free id => tzFreeModuleContextS cfg ipsr id
  | .load id => tzLoadContextS cfg ipsr id
  | .store id => tzStoreContextS cfg ipsr id

/-! ## Runs -/

/-- What happens to the context manager and its clients. -/
inductive Event where
  /-- An entry is called with this `IPSR` and returns `ret`. -/
  | call (ipsr : Word) (entry : Entry) (ret : Word)
  /-- Secure code changes the secure `PSP`. -/
  | setPsp (v : Word)
  /-- Secure code changes the secure `CONTROL`. -/
  | setControl (v : Word)
  /-- Secure code writes a word of `ProcessStackMemory`. -/
  | write (addr : Nat) (v : Word)
deriving DecidableEq, Repr

/-- One event. -/
def Step (cfg : Config) (s : State) : Event → State → Prop
  | .call ipsr entry ret, s' => exec cfg ipsr entry s = some (ret, s')
  | .setPsp v, s' => s' = { s with psp := v }
  | .setControl v, s' => s' = { s with control := v }
  | .write addr v, s' => s' = { s with processStackMemory := s.processStackMemory.setWord addr v }

/-- The static variables as the C start-up code leaves them.  The registers and
the stack bytes are arbitrary. -/
def IsReset (s : State) : Prop :=
  s.processStackFreeSlot = noSlot ∧ ∀ n, s.processStackInfo n = ⟨0, 0, 0⟩

/-- A reset state with all registers and stack bytes zero. -/
def State.zero : State where
  processStackInfo := fun _ => ⟨0, 0, 0⟩
  processStackMemory := fun _ => 0
  processStackFreeSlot := noSlot
  psp := 0
  psplim := 0
  control := 0

theorem isReset_zero : IsReset State.zero := ⟨rfl, fun _ => rfl⟩

/-- The four bytes at `addr` lie in the stack of an allocated slot. -/
def InAllocated (cfg : Config) (s : State) (addr : Nat) : Prop :=
  ∃ n < cfg.slots, s.sp n ≠ 0 ∧ cfg.slotBase n ≤ addr ∧ addr + 4 ≤ cfg.slotTop n

/-- Clients call what they like, with any registers, and write the stacks of
allocated slots only. -/
def Client (cfg : Config) (s : State) : Event → Prop
  | .write addr _ => InAllocated cfg s addr
  | _ => True

/-- One event of a client. -/
abbrev ClientStep (cfg : Config) : State → Event → State → Prop :=
  Transition.Guarded (Client cfg) (Step cfg)

/-- A run of calls and client steps. -/
abbrev ClientRun (cfg : Config) : State → List Event → State → Prop :=
  Transition.Run (ClientStep cfg)

instance (cfg : Config) (s : State) (addr : Nat) : Decidable (InAllocated cfg s addr) :=
  inferInstanceAs (Decidable (∃ n, n < cfg.slots ∧ _))

instance (cfg : Config) (s : State) : (e : Event) → Decidable (Client cfg s e)
  | .call .. => isTrue trivial
  | .setPsp _ => isTrue trivial
  | .setControl _ => isTrue trivial
  | .write addr _ => inferInstanceAs (Decidable (InAllocated cfg s addr))

/-- The state an event leads to, if it can happen. -/
def next (cfg : Config) (s : State) : Event → Option State
  | .call ipsr entry ret =>
      match exec cfg ipsr entry s with
      | some (r, s') => if r = ret then some s' else none
      | none => none
  | .setPsp v => some { s with psp := v }
  | .setControl v => some { s with control := v }
  | .write addr v =>
      some { s with processStackMemory := s.processStackMemory.setWord addr v }

theorem step_of_next {cfg : Config} {s s' : State} {e : Event} (h : next cfg s e = some s') :
    Step cfg s e s' := by
  cases e with
  | call ipsr entry ret =>
      rw [next] at h
      split at h
      · next r s₁ hx =>
        split at h
        · next hr => cases h; rw [Step, hx, hr]
        · cases h
      · cases h
  | setPsp v => exact (Option.some.inj h).symm
  | setControl v => exact (Option.some.inj h).symm
  | write addr v => exact (Option.some.inj h).symm

/-- A run of clients, computed. -/
theorem clientRun_of_play {cfg : Config} {s s' : State} {es : List Event}
    (h : Transition.play (Transition.guardedNext (Client cfg) (next cfg)) s es = some s') :
    ClientRun cfg s es s' :=
  Transition.Run.of_play_guarded (fun _ _ _ => step_of_next) h

/-- Some call of `TZ_InitContextSystem_S` succeeded. -/
def Initialised (es : List Event) : Prop := ∃ ipsr, Event.call ipsr .init 1 ∈ es

end TzContext
