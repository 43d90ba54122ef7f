import PicoTrustZone.Lib.ByteMemory
import PicoTrustZone.Lib.Transition

/-!
# The secure contexts of the kernel port

The non-secure callable functions of `secure_context.c` and
`secure_context_port.c`, over memory and the banked secure registers they use.

A context is three words on the secure heap: the saved stack pointer at its
address, `pucStackLimit` after it and `pucStackStart` last.  Its handle is its
address.  The heap keeps its variables and block headers in the same memory, so
`pvPortMalloc` and `vPortFree` are functions of the memory, and every statement
holds for all of them.

`SecureContext_Init` of this repository is edited: the two writes that leave
thread mode without a stack are commented out.

`PSP` and `PSPLIM` are words here: the two and three low bits that the processor does
not implement are kept.  They are zero for stacks of whole words on this heap.
-/

namespace SecureContext

/-- `uint32_t`, and a pointer. -/
abbrev Word := BitVec 32

/-- The build options of the port. -/
structure Config where
  /-- `configENABLE_MPU`. -/
  mpu : Bool
  /-- `configENABLE_FPU`. -/
  fpu : Bool

/-- `FreeRTOSConfig.h` of this repository. -/
def freeRTOSConfig : Config := ⟨false, false⟩

/-- The secure heap.  A call that does not return is `none`. -/
structure Heap where
  pvPortMalloc : ByteMemory → Word → Option (Word × ByteMemory)
  vPortFree : ByteMemory → Word → Option ByteMemory

/-- Memory and the secure registers the functions use. -/
structure State where
  memory : ByteMemory
  psp : Word
  psplim : Word
  control : Word
  /-- The first register of the floating point unit. -/
  s0 : Word

namespace State

/-- Read a word. -/
def word (s : State) (a : Word) : Word := s.memory.word a.toNat

/-- Store a word. -/
def setWord (s : State) (a v : Word) : State :=
  { s with memory := s.memory.setWord a.toNat v }

/-- `CONTROL` bit 1: thread mode uses `PSP`. -/
def UsesPsp (s : State) : Prop := s.control &&& 2 ≠ 0

instance (s : State) : Decidable s.UsesPsp := inferInstanceAs (Decidable (_ ≠ _))

end State

/-- `securecontextNO_STACK`. -/
def securecontextNoStack : Word := 0x0

/-- `securecontextCONTROL_VALUE_PRIVILEGED`. -/
def securecontextControlValuePrivileged : Word := 0x02

/-- `securecontextCONTROL_VALUE_UNPRIVILEGED`. -/
def securecontextControlValueUnprivileged : Word := 0x03

/-- `sizeof( SecureContext_t )`. -/
def sizeofSecureContext : Word := 12

/-! ## The functions

Each function takes the value of `IPSR`.  It is 0 in thread mode. -/

/-- `SecureContext_Init`. -/
def secureContextInit (cfg : Config) (ipsr : Word) (s : State) : State :=
  if ipsr ≠ 0 then
    -- the writes of `securecontextNO_STACK` to PSPLIM and PSP are commented out
    if cfg.mpu then { s with control := securecontextControlValueUnprivileged }
    else { s with control := securecontextControlValuePrivileged }
  else s

/-- The part of `SecureContext_AllocateContext` that fills in a context whose
stack starts at `stack`. -/
def initialiseContext (cfg : Config) (context stack size privileged : Word) (s : State) : State :=
  let start := stack + size
  let s := s.setWord (context + 8) start
  let s := s.setWord (context + 4) stack
  if cfg.mpu then
    let sp := start - 4
    let s := s.setWord sp <| if privileged ≠ 0 then securecontextControlValuePrivileged
      else securecontextControlValueUnprivileged
    s.setWord context sp
  else s.setWord context start

/-- `SecureContext_AllocateContext`.  A build without `configENABLE_MPU` does not
have the argument `privileged`. -/
def secureContextAllocateContext (cfg : Config) (heap : Heap) (ipsr size privileged : Word)
    (s : State) : Option (Word × State) :=
  if ipsr ≠ 0 then do
    let (context, memory) ← heap.pvPortMalloc s.memory sizeofSecureContext
    if context ≠ 0 then
      let (stack, memory) ← heap.pvPortMalloc memory size
      if stack ≠ 0 then
        return (context, initialiseContext cfg context stack size privileged { s with memory })
      else
        -- free the context to avoid a memory leak
        let memory ← heap.vPortFree memory context
        return (0, { s with memory })
    else return (0, { s with memory })
  else return (0, s)

/-- `SecureContext_FreeContext`.  The assertion stops the processor. -/
def secureContextFreeContext (heap : Heap) (ipsr context : Word) (s : State) : Option State :=
  if ipsr ≠ 0 then
    if context = 0 then none
    else do
      let memory ← heap.vPortFree s.memory (s.word (context + 4))
      let memory ← heap.vPortFree memory context
      return { s with memory }
  else return s

/-- `SecureContext_LoadContext`. -/
def secureContextLoadContext (cfg : Config) (ipsr context : Word) (s : State) : State :=
  if ipsr ≠ 0 then
    let r1 := s.word context
    let r2 := s.word (context + 4)
    -- with an MPU the task's `CONTROL` is on top of its stack
    if cfg.mpu then { s with control := s.word r1, psplim := r2, psp := r1 + 4 }
    else { s with psplim := r2, psp := r1 }
  else s

/-- `SecureContext_SaveContext`. -/
def secureContextSaveContext (cfg : Config) (ipsr context : Word) (s : State) : State :=
  if ipsr ≠ 0 then
    let r1 := s.psp
    -- the store below the stack triggers the deferred stacking
    let s := if cfg.fpu then s.setWord (r1 - 4) s.s0 else s
    let (r1, s) := if cfg.mpu then (r1 - 4, s.setWord (r1 - 4) s.control) else (r1, s)
    let s := s.setWord context r1
    { s with psplim := securecontextNoStack, psp := securecontextNoStack }
  else s

/-! ## Runs -/

/-- What happens to the secure side. -/
inductive Event where
  | init (ipsr : Word)
  /-- A context is allocated, and the handle is returned. -/
  | allocate (ipsr size privileged handle : Word)
  | free (ipsr handle : Word)
  | load (ipsr handle : Word)
  | save (ipsr handle : Word)
  /-- Secure code changes `PSP`. -/
  | setPsp (v : Word)
  /-- Secure code changes `CONTROL`. -/
  | setControl (v : Word)
  /-- Secure code writes a word. -/
  | write (addr v : Word)
deriving DecidableEq, Repr

/-- The state an event leads to, if it can happen. -/
def next (cfg : Config) (heap : Heap) (s : State) : Event → Option State
  | .init ipsr => some (secureContextInit cfg ipsr s)
  | .allocate ipsr size privileged handle =>
      match secureContextAllocateContext cfg heap ipsr size privileged s with
      | some (ret, s') => if ret = handle then some s' else none
      | none => none
  | .free ipsr handle => secureContextFreeContext heap ipsr handle s
  | .load ipsr handle => some (secureContextLoadContext cfg ipsr handle s)
  | .save ipsr handle => some (secureContextSaveContext cfg ipsr handle s)
  | .setPsp v => some { s with psp := v }
  | .setControl v => some { s with control := v }
  | .write addr v => some (s.setWord addr v)

/-! ## What the functions do to the registers -/

/-- The initialisation leaves the stack registers as it finds them. -/
theorem secureContextInit_stack (cfg : Config) (ipsr : Word) (s : State) :
    (secureContextInit cfg ipsr s).psp = s.psp ∧
      (secureContextInit cfg ipsr s).psplim = s.psplim := by
  rw [secureContextInit]
  split
  · split
    · exact ⟨rfl, rfl⟩
    · exact ⟨rfl, rfl⟩
  · exact ⟨rfl, rfl⟩

/-- From handler mode the initialisation makes thread mode use `PSP`. -/
theorem usesPsp_secureContextInit {ipsr : Word} (h : ipsr ≠ 0) (cfg : Config) (s : State) :
    (secureContextInit cfg ipsr s).UsesPsp := by
  rw [secureContextInit, if_pos h]
  cases cfg.mpu with
  | true =>
      show securecontextControlValueUnprivileged &&& 2 ≠ 0
      decide
  | false =>
      show securecontextControlValuePrivileged &&& 2 ≠ 0
      decide

theorem initialiseContext_stack (cfg : Config) (context stack size privileged : Word) (s : State) :
    (initialiseContext cfg context stack size privileged s).psp = s.psp ∧
      (initialiseContext cfg context stack size privileged s).psplim = s.psplim := by
  rw [initialiseContext]
  cases cfg.mpu with
  | true => exact ⟨rfl, rfl⟩
  | false => exact ⟨rfl, rfl⟩

/-- Allocating a context leaves the stack registers alone. -/
theorem secureContextAllocateContext_stack {cfg : Config} {heap : Heap}
    {ipsr size privileged handle : Word} {s s' : State}
    (h : secureContextAllocateContext cfg heap ipsr size privileged s = some (handle, s')) :
    s'.psp = s.psp ∧ s'.psplim = s.psplim := by
  rw [secureContextAllocateContext] at h
  split at h
  · simp only [Option.bind_eq_bind, Option.bind_eq_some_iff] at h
    obtain ⟨⟨context, memory⟩, _, h⟩ := h
    split at h
    · simp only [Option.bind_eq_some_iff] at h
      obtain ⟨⟨stack, memory'⟩, _, h⟩ := h
      split at h
      · cases h
        exact initialiseContext_stack ..
      · simp only [Option.bind_eq_some_iff] at h
        obtain ⟨memory'', _, h⟩ := h
        cases h
        exact ⟨rfl, rfl⟩
    · cases h
      exact ⟨rfl, rfl⟩
  · cases h
    exact ⟨rfl, rfl⟩

/-- Freeing a context leaves the stack registers alone. -/
theorem secureContextFreeContext_stack {heap : Heap} {ipsr handle : Word} {s s' : State}
    (h : secureContextFreeContext heap ipsr handle s = some s') :
    s'.psp = s.psp ∧ s'.psplim = s.psplim := by
  rw [secureContextFreeContext] at h
  split at h
  · split at h
    · cases h
    · simp only [Option.bind_eq_bind, Option.bind_eq_some_iff] at h
      obtain ⟨memory, _, memory', _, h⟩ := h
      cases h
      exact ⟨rfl, rfl⟩
  · cases h
    exact ⟨rfl, rfl⟩

/-- Saving from handler mode takes the stack away. -/
theorem secureContextSaveContext_stack {ipsr : Word} (h : ipsr ≠ 0) (cfg : Config) (context : Word)
    (s : State) :
    (secureContextSaveContext cfg ipsr context s).psp = securecontextNoStack ∧
      (secureContextSaveContext cfg ipsr context s).psplim = securecontextNoStack := by
  rw [secureContextSaveContext, if_pos h]
  exact ⟨rfl, rfl⟩

end SecureContext
