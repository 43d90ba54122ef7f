import PicoTrustZone.Boot.Heap
import PicoTrustZone.Lib.Intervals

/-!
# Heap, stacks and scratch sections

The linker scripts put the heap at the top of RAM and the stacks at the tops of
the two scratch banks.  In `secure.ld` the banks follow the RAM.  In
`nonsecure.ld` the RAM of 448 KiB contains both banks: 440 KiB would end where
they start.  The `ASSERT` of the scripts compares `__StackLimit` with
`__HeapLimit`.  Both are the top of RAM, so it holds in every link.

`heapApart_iff` is the bound that a heap of the non-secure image has to keep by
itself: the first byte from `__end__` on that a stack or a scratch section
occupies.
-/

namespace Boot

/-- A program with the sizes of the sections in its scratch banks.  Each bank
holds a scratch section at its bottom and a stack at its top. -/
structure Layout extends Program where
  /-- `SIZEOF(.scratch_x)`. -/
  scratchXSize : Nat
  /-- `SIZEOF(.scratch_y)`. -/
  scratchYSize : Nat
  /-- `SIZEOF(.stack1_dummy)`, the stack of core 1. -/
  stackOneSize : Nat
  /-- `SIZEOF(.stack_dummy)`, the stack of core 0. -/
  stackSize : Nat
  fits_x : scratchXSize + stackOneSize ≤ image.scratchX.length
  fits_y : scratchYSize + stackSize ≤ image.scratchY.length

namespace Layout

variable (l : Layout)

/-- `__StackOneTop`. -/
def stackOneTop : Nat := l.image.scratchX.top

/-- `__StackTop`. -/
def stackTop : Nat := l.image.scratchY.top

/-- `__StackOneBottom`. -/
def stackOneBottom : Nat := l.stackOneTop - l.stackOneSize

/-- `__StackBottom`. -/
def stackBottom : Nat := l.stackTop - l.stackSize

/-- `.scratch_x`, the stack of core 1, `.scratch_y` and the stack of core 0, as
half-open intervals. -/
def occupied : List (Nat × Nat) :=
  [(l.image.scratchX.origin, l.image.scratchX.origin + l.scratchXSize),
    (l.stackOneBottom, l.stackOneTop),
    (l.image.scratchY.origin, l.image.scratchY.origin + l.scratchYSize),
    (l.stackBottom, l.stackTop)]

/-- The first byte from `__end__` on that a stack or a scratch section occupies,
or `__HeapLimit`. -/
def ceiling : Nat := Intervals.ceiling l.heapStart l.heapLimit l.occupied

end Layout

/-- After every call of the sequence the heap is disjoint from the stacks and the
scratch sections. -/
def HeapApart (l : Layout) (incrs : List Word) : Prop :=
  ∀ pre, pre <+: incrs →
    Intervals.Apart l.heapStart (brk l.toProgram (heapEndAfter l.toProgram pre)).toNat l.occupied

/-- The banks of the secure image follow its RAM. -/
theorem Layout.heapLimit_le_of_secure {l : Layout} (h : l.image = .secure) :
    ∀ i ∈ l.occupied, l.heapLimit ≤ i.1 := by
  have hx := l.fits_x
  have hy := l.fits_y
  simp only [occupied, stackOneBottom, stackOneTop, stackBottom, stackTop, Program.heapLimit, h,
    MemoryRegion.top, Image.scratchX, Image.scratchY, Image.ram] at hx hy ⊢
  simp only [List.forall_mem_cons]
  refine ⟨by omega, by omega, by omega, by omega, fun _ hi => absurd hi (List.not_mem_nil)⟩

/-- **Heap and stacks.**  In each image, for every value of `__end__`, all sizes
of the stacks and the scratch sections, and every sequence of calls that keeps
the break inside the linker's own limits: the heap is disjoint from the
stacks and the scratch sections after every call if and only if the break never
passes the first byte from `__end__` on that one of them occupies.  In the
secure image it always is. -/
theorem heapApart_iff (l : Layout) {incrs : List Word} (hkeeps : KeepsBreak l.toProgram incrs) :
    (HeapApart l incrs ↔ ∀ pre, pre <+: incrs → requested l.toProgram pre ≤ l.ceiling) ∧
      (l.image = .secure → HeapApart l incrs) := by
  have h := hkeeps.fits
  have hlimit : ∀ pre, pre <+: incrs →
      (brk l.toProgram (heapEndAfter l.toProgram pre)).toNat ≤ l.heapLimit := by
    intro pre hpre
    have hin := (h pre hpre).2
    rw [← h.brk_eq pre hpre] at hin
    omega
  constructor
  · refine forall_congr' fun pre => imp_congr_right fun hpre => ?_
    rw [Intervals.apart_iff_le_ceiling (hlimit pre hpre), ← h.brk_eq pre hpre, Layout.ceiling]
    omega
  · intro hsecure pre hpre
    exact Intervals.apart_of_le fun i hi =>
      Nat.le_trans (hlimit pre hpre) (Layout.heapLimit_le_of_secure hsecure i hi)

/-- A non-secure image with 4 KiB of data and a stack of 2 KiB on core 0. -/
def Layout.small : Layout where
  image := .nonsecure
  heapStart := 0x20013000
  origin_le := by decide
  le_top := by decide
  scratchXSize := 0
  scratchYSize := 0
  stackOneSize := 0
  stackSize := 0x800
  fits_x := by decide
  fits_y := by decide

theorem heapApart_iff_small :
    (HeapApart .small [0x1000] ↔
        ∀ pre, pre <+: [0x1000] → requested Layout.small.toProgram pre ≤ Layout.small.ceiling) ∧
      (Layout.small.image = .secure → HeapApart .small [0x1000]) :=
  heapApart_iff .small (by decide)

/-- In the non-secure image a heap inside the linker's own limits covers the stack of
core 0. -/
theorem not_heapApart :
    KeepsBreak Layout.small.toProgram [0x6F000] ∧ Layout.small.ceiling = 0x20081800 ∧
      ¬ HeapApart .small [0x6F000] := by
  refine ⟨by decide, by decide, fun h => ?_⟩
  exact h [0x6F000] (List.prefix_refl _) (0x20081800, 0x20082000) (by decide) 0x20081800
    (by decide) (by decide) ⟨by decide, by decide⟩

end Boot
