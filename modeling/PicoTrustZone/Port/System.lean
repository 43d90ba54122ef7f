import PicoTrustZone.Port.Calls

/-!
# Tasks under the scheduler

The port with the tasks that it switches.  Tasks are created and deleted, the scheduler
starts, and from then on the task that runs changes its registers, its stack and its
secure stack, asks for a secure context, and is switched out for another one, in any
order.  A task may ask again while it has a secure context: the handle is overwritten,
and the context that it named stays on the heap.
-/

namespace Port

open ByteMemory Transition
open SecureContext (Word freeRTOSConfig secureHeap Manages savedContexts freedContexts)
open SecureHeap (Layout Outside)

/-! ## Events -/

/-- The port with its tasks. -/
structure System where
  state : State
  started : Bool
  tasks : List Task
  /-- The context that a task had when it was last switched out, or created. -/
  saved : Word → Context
  contexts : List SecureContext.Context
  /-- The handles that a second request of a task has overwritten. -/
  lost : List Word

/-- What happens. -/
inductive Event where
  /-- `prvInitialiseNewTask` makes the stack of a new task. -/
  | create (τ : Task) (pxStack ulStackDepth pxTaskCode pvParameters : Word)
  /-- `vStartFirstTask`. -/
  | start (selected : Word)
  /-- The task that runs changes its registers. -/
  | run (r4r11 : Registers) (psp lr : Word)
  /-- Secure code changes its stack pointer. -/
  | runSecure (psp : Word)
  /-- The task that runs, or secure code for it, writes a byte. -/
  | write (addr : Word) (b : BitVec 8)
  /-- `vPortAllocateSecureContext`, by the task that runs. -/
  | allocate (ulSecureStackSize : Word)
  /-- `PendSV_Handler`. -/
  | pendSV (selected : Word)
  /-- `vPortFreeSecureContext`, when a task is deleted. -/
  | delete (tcb : Word)
deriving DecidableEq

/-- What an event does to the state. -/
def act (img : Image) (s : State) : Event → Option State
  | .create τ pxStack ulStackDepth pxTaskCode pvParameters =>
      some <| s.withMemory <|
        prvInitialiseNewTask img pxTaskCode ulStackDepth pvParameters τ.tcb pxStack s.memory
  | .start selected => vStartFirstTask img selected s
  | .run r4r11 psp lr => some { s with r4r11, psp, lr }
  | .runSecure psp => some { s with secure := { s.secure with psp } }
  | .write addr b => some <| s.withMemory <| Function.update s.memory addr.toNat b
  | .allocate ulSecureStackSize => vPortAllocateSecureContext img ulSecureStackSize s
  | .pendSV selected => some (pendSVHandler selected s)
  | .delete tcb => vPortFreeSecureContext img tcb s

/-- A request overwrites the handle of the task that runs. -/
def overwritten (handle : Word) (lost : List Word) : List Word :=
  if handle = 0 then lost else handle :: lost

/-- What an event does to the tasks. -/
def track (y : System) (s' : State) : Event → System
  | .create τ pxStack ulStackDepth _ _ =>
      { y with
        state := s'
        tasks := τ :: y.tasks
        saved := Function.update y.saved τ.tcb (initialContext pxStack ulStackDepth) }
  | .start _ => { y with state := s', started := true }
  | .allocate size =>
      { y with
        state := s'
        contexts := ⟨s'.xSecureContext, s'.word (s'.xSecureContext + 4), size,
          s'.word s'.xSecureContext⟩ :: y.contexts
        lost := overwritten y.state.xSecureContext y.lost }
  | .pendSV _ =>
      { y with
        state := s'
        saved := Function.update y.saved y.state.pxCurrentTCB y.state.context
        contexts := savedContexts y.contexts y.state.xSecureContext y.state.secure.psp }
  | .delete tcb =>
      { y with
        state := s'
        tasks := y.tasks.filter fun τ => τ.tcb ≠ tcb
        contexts := freedContexts y.contexts (y.saved tcb).xSecureContext }
  | .run _ _ _ | .runSecure _ | .write _ _ => { y with state := s' }

/-- The system that an event leads to, unless the processor stops. -/
def next (img : Image) (y : System) (e : Event) : Option System :=
  (act img y.state e).map fun s' => track y s' e

/-- One event. -/
def Step (img : Image) (y : System) (e : Event) (y' : System) : Prop := next img y e = some y'

namespace System

/-- The task with this control block runs. -/
def Running (y : System) (tcb : Word) : Prop := y.started = true ∧ y.state.pxCurrentTCB = tcb

instance (y : System) (tcb : Word) : Decidable (y.Running tcb) :=
  inferInstanceAs (Decidable (_ ∧ _))

/-- The context of a task: in the registers if it runs. -/
def context (y : System) (tcb : Word) : Context :=
  if y.Running tcb then y.state.context else y.saved tcb

/-- The secure context of a task. -/
def handle (y : System) (tcb : Word) : Word := (y.context tcb).xSecureContext

/-- An address in the secure stack of the task that runs. -/
def InSecureStack (y : System) (z : Nat) : Prop :=
  ∃ d ∈ y.contexts, y.started = true ∧ d.handle = y.state.xSecureContext ∧
    d.stack.toNat ≤ z ∧ z < d.stack.toNat + d.size.toNat

instance (y : System) (z : Nat) : Decidable (y.InSecureStack z) :=
  inferInstanceAs (Decidable (∃ d ∈ y.contexts, _ ∧ _ ∧ _ ∧ _))

end System

/-- The rules of the kernel, the tasks and secure code.  A task leaves room on its stack
for its context, and writes neither into control blocks nor into what other tasks own.  It
may ask for a secure context at any time. -/
def Allowed (img : Image) (y : System) : Event → Prop
  | .create τ pxStack ulStackDepth _ _ =>
      Fresh τ pxStack ulStackDepth ∧ τ.Clear img.heap ∧ ∀ τ' ∈ y.tasks, τ.Separate τ'
  | .start selected => y.started = false ∧ ∃ τ ∈ y.tasks, τ.tcb = selected
  | .run _ psp _ =>
      ∃ τ ∈ y.tasks, y.Running τ.tcb ∧ τ.stack + 44 ≤ psp.toNat ∧ psp.toNat ≤ τ.limit
  | .runSecure _ => y.started = true
  | .write addr _ =>
      (∀ τ ∈ y.tasks, τ.Owns addr.toNat →
        y.Running τ.tcb ∧ τ.stack ≤ addr.toNat ∧ addr.toNat < τ.limit) ∧
      (Outside img.heap addr.toNat ∨ y.InSecureStack addr.toNat)
  | .allocate _ => y.started = true
  | .pendSV selected => y.started = true ∧ ∃ τ ∈ y.tasks, τ.tcb = selected
  | .delete tcb => (∃ τ ∈ y.tasks, τ.tcb = tcb) ∧ ¬ y.Running tcb

instance (τ : Task) (pxStack ulStackDepth : Word) : Decidable (Fresh τ pxStack ulStackDepth) :=
  decidable_of_iff (τ.stack = pxStack.toNat ∧
      τ.limit = pxStack.toNat + 4 * ulStackDepth.toNat ∧ 22 ≤ ulStackDepth.toNat)
    ⟨fun ⟨h1, h2, h3⟩ => ⟨h1, h2, h3⟩, fun ⟨h1, h2, h3⟩ => ⟨h1, h2, h3⟩⟩

instance (img : Image) (y : System) : (e : Event) → Decidable (Allowed img y e)
  | .create τ pxStack ulStackDepth _ _ =>
      inferInstanceAs (Decidable (Fresh τ pxStack ulStackDepth ∧ τ.Clear img.heap ∧
        ∀ τ' ∈ y.tasks, τ.Separate τ'))
  | .start _ | .pendSV _ => inferInstanceAs (Decidable (_ ∧ ∃ τ ∈ y.tasks, _))
  | .run _ psp _ => inferInstanceAs (Decidable (∃ τ ∈ y.tasks,
      y.Running τ.tcb ∧ τ.stack + 44 ≤ psp.toNat ∧ psp.toNat ≤ τ.limit))
  | .runSecure _ | .allocate _ => inferInstanceAs (Decidable (y.started = true))
  | .write addr _ => inferInstanceAs (Decidable ((∀ τ ∈ y.tasks, τ.Owns addr.toNat → _ ∧ _) ∧
      (Outside img.heap addr.toNat ∨ y.InSecureStack addr.toNat)))
  | .delete tcb => inferInstanceAs (Decidable ((∃ τ ∈ y.tasks, τ.tcb = tcb) ∧ ¬ y.Running tcb))

/-- A task asks for a secure context only while it has none. -/
def FirstRequest (y : System) (e : Event) : Prop :=
  ∀ size, e = .allocate size → y.state.xSecureContext = 0

/-- The runs of a system that keeps the rules. -/
abbrev SystemRun (img : Image) : System → List Event → System → Prop :=
  Run (Guarded (Allowed img) (Step img))

/-- Those in which no task asks for a secure context while it has one. -/
abbrev FirstRequestRun (img : Image) : System → List Event → System → Prop :=
  Run (Guarded FirstRequest (Guarded (Allowed img) (Step img)))

/-- Before the first task is created. -/
def systemStart (s : State) : System := ⟨s, false, [], fun _ => s.context, [], []⟩

end Port
