import PicoTrustZone.Lib.BlockTransfer
import PicoTrustZone.SecureContext.OnHeap

/-!
# The non-secure port

`portasm.c` and `port.c`: the context switch, the system calls that start the
scheduler and that allocate and free secure contexts, and the stack that a task is
created with.  `FreeRTOSConfig.h` of this repository enables TrustZone and neither
the MPU nor the FPU.

The functions work on the registers of the non-secure side, on memory, and on the
secure side through the calls of `secure_context.h`.  The handlers push what a call
might clobber on the main stack and pop it again; this is not modelled, and neither
are barriers and `BASEPRI`.  Nor are the floating point registers, which the handlers
of this build do not save, though the secure image enables the unit for both sides.
`PSP` and `PSPLIM` are words here: the two and three low bits that the processor does
not implement are kept, and `aligned_of_run` says when they are zero.
-/

namespace Port

open ByteMemory
open SecureContext (Word freeRTOSConfig secureHeap)

/-- `r4` to `r11`. -/
abbrev Registers := Vector Word 8

/-- What the linker decides. -/
structure Image where
  /-- The objects of the secure heap. -/
  heap : SecureHeap.Layout
  /-- `&xSecureContext`. -/
  xSecureContext : Word
  prvTaskExitError : Word

/-- The secure side with the memory, the non-secure registers, and the variables that
the handlers use. -/
structure State where
  secure : SecureContext.State
  r4r11 : Registers
  psp : Word
  psplim : Word
  control : Word
  /-- `EXC_RETURN` in a handler. -/
  lr : Word
  pxCurrentTCB : Word
  xSecureContext : Word

namespace State

/-- The memory of both sides. -/
abbrev memory (s : State) : ByteMemory := s.secure.memory

/-- Read a word. -/
def word (s : State) (a : Word) : Word := s.memory.word a.toNat

/-- Change the memory. -/
def withMemory (s : State) (m : ByteMemory) : State :=
  { s with secure := { s.secure with memory := m } }

/-- Store a word. -/
def setWord (s : State) (a v : Word) : State := s.withMemory (s.memory.setWord a.toNat v)

/-- Store registers. -/
def stm (s : State) (a : Word) (vs : List Word) : State := s.withMemory (s.memory.stm a vs)

end State

/-- `IPSR` in `PendSV_Handler`. -/
def pendSVIpsr : Word := 14

/-- `IPSR` in `SVC_Handler`. -/
def svCallIpsr : Word := 11

/-- `EXC_RETURN` bit 6: the frame of the exception is on the secure stack.  The handler
shifts it to the sign. -/
def SecureStackUsed (lr : Word) : Prop := (lr <<< 25).msb = true

instance (lr : Word) : Decidable (SecureStackUsed lr) := inferInstanceAs (Decidable (_ = _))

/-! ## The context switch -/

/-- `PendSV_Handler` from `save_ns_context` on. -/
def saveNsContext (r0 r1 : Word) (s : State) : State :=
  let r1 := r1 - 44
  let s := s.setWord s.pxCurrentTCB r1
  let r1 := r1 + 12
  let s := s.stm r1 s.r4r11.toList
  let r1 := r1 - 12
  s.stm r1 [r0, s.psplim, s.lr]

/-- `PendSV_Handler` up to `select_next_task`. -/
def saveContext (s : State) : State :=
  let r1 := s.psp
  let r0 := s.xSecureContext
  if r0 = 0 then saveNsContext r0 r1 s
  else
    let s := { s with
      secure := SecureContext.secureContextSaveContext freeRTOSConfig pendSVIpsr r0 s.secure }
    if SecureStackUsed s.lr then
      -- the hardware has put r4 to r11 on the secure stack
      let r1 := r1 - 12
      let s := s.setWord s.pxCurrentTCB r1
      s.stm r1 [r0, s.psplim, s.lr]
    else saveNsContext r0 r1 s

/-- `PendSV_Handler` from `restore_ns_context` on. -/
def restoreNsContext (r1 : Word) (s : State) : State :=
  { s with r4r11 := s.memory.ldm r1 8, psp := r1 + 32 }

/-- `PendSV_Handler` behind the call of `vTaskSwitchContext`. -/
def restoreContext (s : State) : State :=
  let r1 := s.word s.pxCurrentTCB
  let r0 := s.word r1
  let r2 := s.word (r1 + 4)
  let r3 := s.word (r1 + 8)
  let r1 := r1 + 12
  let s := { s with psplim := r2, lr := r3, xSecureContext := r0 }
  if r0 = 0 then restoreNsContext r1 s
  else
    let s := { s with
      secure := SecureContext.secureContextLoadContext freeRTOSConfig pendSVIpsr r0 s.secure }
    if SecureStackUsed r3 then { s with psp := r1 } else restoreNsContext r1 s

/-- `PendSV_Handler`, in which `vTaskSwitchContext` selects a task. -/
def pendSVHandler (selected : Word) (s : State) : State :=
  restoreContext { saveContext s with pxCurrentTCB := selected }

/-! ## System calls -/

/-- `r4` to `r11` when the first task starts: those that the scheduler was started with, but
for `r4`, which holds the address of the variable `xSecureContext`. -/
def firstRegisters (img : Image) (r4r11 : Registers) : Registers := r4r11.set 0 img.xSecureContext

/-- `vRestoreContextOfFirstTask`. -/
def vRestoreContextOfFirstTask (img : Image) (s : State) : State :=
  let r0 := s.word s.pxCurrentTCB
  let r1 := s.word r0
  let r2 := s.word (r0 + 4)
  let r3 := s.word (r0 + 8)
  let r0 := r0 + 12
  { s with
    r4r11 := firstRegisters img s.r4r11
    xSecureContext := r1
    psplim := r2
    control := 2
    psp := r0 + 32
    lr := r3 }

/-- `portSVC_ALLOCATE_SECURE_CONTEXT`. -/
def portSvcAllocateSecureContext : BitVec 8 := 0

/-- `portSVC_FREE_SECURE_CONTEXT`. -/
def portSvcFreeSecureContext : BitVec 8 := 1

/-- `portSVC_START_SCHEDULER`. -/
def portSvcStartScheduler : BitVec 8 := 2

/-- `vPortSVCHandler_C`, from the number of the call and the `r0` of its caller on.  An
assertion stops the processor. -/
def vPortSVCHandlerC (img : Image) (ucSVCNumber : BitVec 8) (ulR0 : Word) (s : State) :
    Option State :=
  if ucSVCNumber = portSvcAllocateSecureContext then do
    let (handle, secure) ← SecureContext.secureContextAllocateContext freeRTOSConfig
      (secureHeap img.heap) svCallIpsr ulR0 0 s.secure
    let s : State := { s with secure, xSecureContext := handle }
    if s.xSecureContext ≠ 0 then
      return { s with
        secure := SecureContext.secureContextLoadContext freeRTOSConfig svCallIpsr
          s.xSecureContext s.secure }
    else none
  else if ucSVCNumber = portSvcFreeSecureContext then do
    let secure ← SecureContext.secureContextFreeContext (secureHeap img.heap) svCallIpsr ulR0
      s.secure
    return { s with secure }
  else if ucSVCNumber = portSvcStartScheduler then
    some <| vRestoreContextOfFirstTask img
      { s with secure := SecureContext.secureContextInit freeRTOSConfig svCallIpsr s.secure }
  else none

/-- `vPortAllocateSecureContext`. -/
def vPortAllocateSecureContext (img : Image) (ulSecureStackSize : Word) (s : State) :
    Option State :=
  vPortSVCHandlerC img portSvcAllocateSecureContext ulSecureStackSize s

/-- `vPortFreeSecureContext`. -/
def vPortFreeSecureContext (img : Image) (pulTCB : Word) (s : State) : Option State :=
  let r1 := s.word pulTCB
  let r0 := s.word r1
  if r0 ≠ 0 then vPortSVCHandlerC img portSvcFreeSecureContext r0 s else some s

/-- `vStartFirstTask`, for the task that is selected when the scheduler starts. -/
def vStartFirstTask (img : Image) (selected : Word) (s : State) : Option State :=
  vPortSVCHandlerC img portSvcStartScheduler 0 { s with pxCurrentTCB := selected }

/-! ## The stack of a new task -/

/-- `portINITIAL_XPSR`. -/
def portInitialXpsr : Word := 0x01000000

/-- `portINITIAL_EXC_RETURN`. -/
def portInitialExcReturn : Word := 0xffffffbc

/-- `portNO_SECURE_CONTEXT`. -/
def portNoSecureContext : Word := 0

/-- What `pxPortInitialiseStack` pushes, in this order. -/
def initialFrame (img : Image) (pxEndOfStack pxCode pvParameters : Word) : List Word :=
  [ -- xPSR, PC, LR, R12, R3 to R0
    portInitialXpsr, pxCode, img.prvTaskExitError, 0x12121212, 0x03030303, 0x02020202, 0x01010101,
    pvParameters,
    -- R11 to R4
    0x11111111, 0x10101010, 0x09090909, 0x08080808, 0x07070707, 0x06060606, 0x05050505, 0x04040404,
    -- EXC_RETURN, PSPLIM, xSecureContext
    portInitialExcReturn, pxEndOfStack, portNoSecureContext ]

/-- Push a word. -/
def push (p : Word × ByteMemory) (v : Word) : Word × ByteMemory :=
  let pxTopOfStack := p.1 - 4
  (pxTopOfStack, p.2.setWord pxTopOfStack.toNat v)

/-- `pxPortInitialiseStack`. -/
def pxPortInitialiseStack (img : Image) (pxTopOfStack pxEndOfStack pxCode pvParameters : Word)
    (m : ByteMemory) : Word × ByteMemory :=
  (initialFrame img pxEndOfStack pxCode pvParameters).foldl push (pxTopOfStack, m)

/-- `portBYTE_ALIGNMENT_MASK`. -/
def portByteAlignmentMask : Word := 0x0007

/-- `tskSTACK_FILL_BYTE`. -/
def tskStackFillByte : BitVec 8 := 0xa5

/-- `memset`. -/
def memset (m : ByteMemory) (a : Word) (v : BitVec 8) (n : Word) : ByteMemory := fun z =>
  if a.toNat ≤ z ∧ z < a.toNat + n.toNat then v else m z

/-- The part of `prvInitialiseNewTask` that makes the stack, for the task with the control
block `pxNewTCB`. -/
def prvInitialiseNewTask (img : Image)
    (pxTaskCode ulStackDepth pvParameters pxNewTCB pxStack : Word) (m : ByteMemory) : ByteMemory :=
  let m := memset m pxStack tskStackFillByte (ulStackDepth * 4)
  let pxTopOfStack := pxStack + (ulStackDepth - 1) * 4
  let pxTopOfStack := pxTopOfStack &&& ~~~portByteAlignmentMask
  let (pxTopOfStack, m) := pxPortInitialiseStack img pxTopOfStack pxStack pxTaskCode pvParameters m
  m.setWord pxNewTCB.toNat pxTopOfStack

end Port
