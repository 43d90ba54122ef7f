import PicoTrustZone.Lib.ByteMemory
import PicoTrustZone.Lib.Pointer

/-!
# The secure heap

`secure_heap.c`: a first-fit allocator whose free blocks are linked in the order of
their addresses.  Every block starts with a header of two words, the next free block
and the size.  The top bit of the size says that the block is used.

The heap, the header `xStart` that the list starts from and the static variables are
objects in one memory, so the functions here are functions of the memory alone.
`none` is a call that does not return: an assertion stops the processor, and a loop
can run forever.  `heap_4.c` of the non-secure side is the same code with a heap of
another size.
-/

namespace SecureHeap

/-- `size_t`, and a pointer. -/
abbrev Word := BitVec 32

/-- The static variables, but for `xStart`. -/
inductive Static where
  | pxEnd
  | xFreeBytesRemaining
  | xMinimumEverFreeBytesRemaining
  | xBlockAllocatedBit
deriving DecidableEq, Repr

/-- Where the objects are.  They do not overlap, and there is an address behind each
of them. -/
structure Layout where
  ucHeap : Nat
  /-- `secureconfigTOTAL_HEAP_SIZE`. -/
  totalHeapSize : Nat
  xStart : Nat
  static : Static → Nat
  ucHeap_pos : 0 < ucHeap
  ucHeap_lt : ucHeap + totalHeapSize < 2 ^ 32
  large : 32 ≤ totalHeapSize
  small : totalHeapSize < 2 ^ 31
  xStart_lt : xStart + 8 < 2 ^ 32
  xStart_apart : xStart + 8 ≤ ucHeap ∨ ucHeap + totalHeapSize ≤ xStart
  static_lt : ∀ v, static v + 4 < 2 ^ 32
  static_ucHeap : ∀ v, static v + 4 ≤ ucHeap ∨ ucHeap + totalHeapSize ≤ static v
  static_xStart : ∀ v, static v + 4 ≤ xStart ∨ xStart + 8 ≤ static v
  static_static : ∀ v w, v ≠ w → ByteMemory.Apart (static v) (static w)

/-- `secureconfigTOTAL_HEAP_SIZE` of this repository. -/
def secureconfigTotalHeapSize : Nat := 10 * 1024

/-- `secureportBYTE_ALIGNMENT`. -/
def secureportByteAlignment : Word := 8

/-- `secureportBYTE_ALIGNMENT_MASK`. -/
def secureportByteAlignmentMask : Word := 0x0007

/-- `sizeof( BlockLink_t )`. -/
def sizeofBlockLink : Word := 8

/-- `xHeapStructSize`. -/
def xHeapStructSize : Word :=
  (sizeofBlockLink + (secureportByteAlignment - 1)) &&& ~~~secureportByteAlignmentMask

/-- `secureheapMINIMUM_BLOCK_SIZE`. -/
def secureheapMinimumBlockSize : Word := xHeapStructSize <<< 1

/-- `secureheapBITS_PER_BYTE`. -/
def secureheapBitsPerByte : Nat := 8

/-- `sizeof( size_t )`. -/
def sizeofSizeT : Nat := 4

@[simp] theorem xHeapStructSize_eq : xHeapStructSize = 8 := rfl

@[simp] theorem secureheapMinimumBlockSize_eq : secureheapMinimumBlockSize = 16 := rfl

/-! ## Memory accesses -/

/-- `pxBlock->pxNextFreeBlock`. -/
def pxNextFreeBlock (m : ByteMemory) (pxBlock : Word) : Word := m.word pxBlock.toNat

/-- `pxBlock->xBlockSize`. -/
def xBlockSize (m : ByteMemory) (pxBlock : Word) : Word := m.word (pxBlock + 4).toNat

def setNextFreeBlock (m : ByteMemory) (pxBlock v : Word) : ByteMemory := m.setWord pxBlock.toNat v

def setBlockSize (m : ByteMemory) (pxBlock v : Word) : ByteMemory :=
  m.setWord (pxBlock + 4).toNat v

namespace Layout

variable (L : Layout)

/-- `&xStart`. -/
def xStartPtr : Word := ptr L.xStart

/-- Read a static variable. -/
def get (m : ByteMemory) (v : Static) : Word := m.word (L.static v)

/-- Write a static variable. -/
def set (m : ByteMemory) (v : Static) (x : Word) : ByteMemory := m.setWord (L.static v) x

end Layout

/-! ## The functions -/

variable (L : Layout)

/-- `pucAlignedHeap` and the `xTotalHeapSize` that is left. -/
def alignedHeap : Word × Word :=
  let uxAddress := ptr L.ucHeap
  let xTotalHeapSize := ptr L.totalHeapSize
  if uxAddress &&& secureportByteAlignmentMask ≠ 0 then
    let uxAddress := uxAddress + (secureportByteAlignment - 1)
    let uxAddress := uxAddress &&& ~~~secureportByteAlignmentMask
    (uxAddress, xTotalHeapSize - (uxAddress - ptr L.ucHeap))
  else (uxAddress, xTotalHeapSize)

/-- `prvHeapInit`. -/
def prvHeapInit (m : ByteMemory) : ByteMemory :=
  let (pucAlignedHeap, xTotalHeapSize) := alignedHeap L
  let m := setNextFreeBlock m L.xStartPtr pucAlignedHeap
  let m := setBlockSize m L.xStartPtr 0
  let uxAddress := pucAlignedHeap + xTotalHeapSize
  let uxAddress := uxAddress - xHeapStructSize
  let uxAddress := uxAddress &&& ~~~secureportByteAlignmentMask
  let m := L.set m .pxEnd uxAddress
  let m := setBlockSize m (L.get m .pxEnd) 0
  let m := setNextFreeBlock m (L.get m .pxEnd) 0
  let pxFirstFreeBlock := pucAlignedHeap
  let m := setBlockSize m pxFirstFreeBlock (uxAddress - pxFirstFreeBlock)
  let m := setNextFreeBlock m pxFirstFreeBlock (L.get m .pxEnd)
  let m := L.set m .xMinimumEverFreeBytesRemaining (xBlockSize m pxFirstFreeBlock)
  let m := L.set m .xFreeBytesRemaining (xBlockSize m pxFirstFreeBlock)
  L.set m .xBlockAllocatedBit ((1 : Word) <<< (sizeofSizeT * secureheapBitsPerByte - 1))

/-- The loop of `prvInsertBlockIntoFreeList`, from `pxIterator` on.  It only follows
links, so a loop that has seen every address once never ends. -/
def findIterator (m : ByteMemory) (pxBlockToInsert : Word) : Nat → Word → Option Word
  | 0, _ => none
  | n + 1, pxIterator =>
      if pxNextFreeBlock m pxIterator < pxBlockToInsert then
        findIterator m pxBlockToInsert n (pxNextFreeBlock m pxIterator)
      else some pxIterator

/-- Join the block behind `pxIterator` that touches it.  The result is the block that
is then to be inserted. -/
def joinBefore (pxIterator pxBlockToInsert : Word) (m : ByteMemory) : Word × ByteMemory :=
  if pxIterator + xBlockSize m pxIterator = pxBlockToInsert then
    (pxIterator, setBlockSize m pxIterator (xBlockSize m pxIterator + xBlockSize m pxBlockToInsert))
  else (pxBlockToInsert, m)

/-- Join the block with the free block behind it if they touch, and give it its link. -/
def joinBehind (pxIterator pxBlockToInsert : Word) (m : ByteMemory) : ByteMemory :=
  if pxBlockToInsert + xBlockSize m pxBlockToInsert = pxNextFreeBlock m pxIterator then
    if pxNextFreeBlock m pxIterator ≠ L.get m .pxEnd then
      let m := setBlockSize m pxBlockToInsert
        (xBlockSize m pxBlockToInsert + xBlockSize m (pxNextFreeBlock m pxIterator))
      setNextFreeBlock m pxBlockToInsert (pxNextFreeBlock m (pxNextFreeBlock m pxIterator))
    else setNextFreeBlock m pxBlockToInsert (L.get m .pxEnd)
  else setNextFreeBlock m pxBlockToInsert (pxNextFreeBlock m pxIterator)

/-- `prvInsertBlockIntoFreeList`. -/
def prvInsertBlockIntoFreeList (m : ByteMemory) (pxBlockToInsert : Word) : Option ByteMemory := do
  let pxIterator ← findIterator m pxBlockToInsert (2 ^ 32) L.xStartPtr
  let (pxBlockToInsert, m) := joinBefore pxIterator pxBlockToInsert m
  let m := joinBehind L pxIterator pxBlockToInsert m
  -- a block that was joined to the one before must not point to itself
  return if pxIterator ≠ pxBlockToInsert then setNextFreeBlock m pxIterator pxBlockToInsert else m

/-- The size of a block for `xWantedSize` bytes. -/
def wantedBlockSize (xWantedSize : Word) : Option Word :=
  if xWantedSize > 0 then
    let xWantedSize := xWantedSize + xHeapStructSize
    if xWantedSize &&& secureportByteAlignmentMask ≠ 0x00 then
      let xWantedSize :=
        xWantedSize + (secureportByteAlignment - (xWantedSize &&& secureportByteAlignmentMask))
      if xWantedSize &&& secureportByteAlignmentMask = 0 then some xWantedSize else none
    else some xWantedSize
  else some xWantedSize

/-- The loop of `pvPortMalloc`: the first block of adequate size and the block before
it in the list. -/
def findBlock (m : ByteMemory) (xWantedSize : Word) : Nat → Word → Word → Option (Word × Word)
  | 0, _, _ => none
  | n + 1, pxPreviousBlock, pxBlock =>
      if xBlockSize m pxBlock < xWantedSize ∧ pxNextFreeBlock m pxBlock ≠ 0 then
        findBlock m xWantedSize n pxBlock (pxNextFreeBlock m pxBlock)
      else some (pxPreviousBlock, pxBlock)

/-- Cut the block in two if it is larger than required. -/
def splitBlock (pxBlock xWantedSize : Word) (m : ByteMemory) : Option ByteMemory :=
  if xBlockSize m pxBlock - xWantedSize > secureheapMinimumBlockSize then
    let pxNewBlockLink := pxBlock + xWantedSize
    if pxNewBlockLink &&& secureportByteAlignmentMask = 0 then
      let m := setBlockSize m pxNewBlockLink (xBlockSize m pxBlock - xWantedSize)
      let m := setBlockSize m pxBlock xWantedSize
      prvInsertBlockIntoFreeList L m pxNewBlockLink
    else none
  else some m

/-- The accounting of `pvPortMalloc`, and the header of the block that is returned. -/
def markAllocated (pxBlock : Word) (m : ByteMemory) : ByteMemory :=
  let m := L.set m .xFreeBytesRemaining (L.get m .xFreeBytesRemaining - xBlockSize m pxBlock)
  let m :=
    if L.get m .xFreeBytesRemaining < L.get m .xMinimumEverFreeBytesRemaining then
      L.set m .xMinimumEverFreeBytesRemaining (L.get m .xFreeBytesRemaining)
    else m
  let m := setBlockSize m pxBlock (xBlockSize m pxBlock ||| L.get m .xBlockAllocatedBit)
  setNextFreeBlock m pxBlock 0

/-- Take `pxBlock` out of the list and return the memory behind its header. -/
def takeBlock (pxPreviousBlock pxBlock xWantedSize : Word) (m : ByteMemory) :
    Option (Word × ByteMemory) := do
  let pvReturn := pxNextFreeBlock m pxPreviousBlock + xHeapStructSize
  let m := setNextFreeBlock m pxPreviousBlock (pxNextFreeBlock m pxBlock)
  let m ← splitBlock L pxBlock xWantedSize m
  return (pvReturn, markAllocated L pxBlock m)

/-- The part of `pvPortMalloc` behind the initialisation: `pvReturn`. -/
def allocateBlock (m : ByteMemory) (xWantedSize : Word) : Option (Word × ByteMemory) :=
  if xWantedSize &&& L.get m .xBlockAllocatedBit = 0 then do
    let xWantedSize ← wantedBlockSize xWantedSize
    if xWantedSize > 0 ∧ xWantedSize ≤ L.get m .xFreeBytesRemaining then
      let (pxPreviousBlock, pxBlock) ←
        findBlock m xWantedSize (2 ^ 32) L.xStartPtr (pxNextFreeBlock m L.xStartPtr)
      if pxBlock ≠ L.get m .pxEnd then takeBlock L pxPreviousBlock pxBlock xWantedSize m
      else return (0, m)
    else return (0, m)
  else return (0, m)

/-- `pvPortMalloc`. -/
def pvPortMalloc (m : ByteMemory) (xWantedSize : Word) : Option (Word × ByteMemory) := do
  let m := if L.get m .pxEnd = 0 then prvHeapInit L m else m
  let (pvReturn, m) ← allocateBlock L m xWantedSize
  if pvReturn &&& secureportByteAlignmentMask = 0 then return (pvReturn, m) else none

/-- `vPortFree`. -/
def vPortFree (m : ByteMemory) (pv : Word) : Option ByteMemory :=
  if pv ≠ 0 then
    let pxLink := pv - xHeapStructSize
    if xBlockSize m pxLink &&& L.get m .xBlockAllocatedBit ≠ 0 then
      if pxNextFreeBlock m pxLink = 0 then
        let m := setBlockSize m pxLink (xBlockSize m pxLink &&& ~~~L.get m .xBlockAllocatedBit)
        let m := L.set m .xFreeBytesRemaining (L.get m .xFreeBytesRemaining + xBlockSize m pxLink)
        prvInsertBlockIntoFreeList L m pxLink
      else none
    else none
  else some m

/-- `xPortGetFreeHeapSize`. -/
def xPortGetFreeHeapSize (m : ByteMemory) : Word := L.get m .xFreeBytesRemaining

/-- `xPortGetMinimumEverFreeHeapSize`. -/
def xPortGetMinimumEverFreeHeapSize (m : ByteMemory) : Word :=
  L.get m .xMinimumEverFreeBytesRemaining

end SecureHeap
