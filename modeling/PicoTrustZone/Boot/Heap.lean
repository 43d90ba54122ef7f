import PicoTrustZone.Boot.MemoryMap
import Mathlib.Algebra.Group.Nat.Defs
import Mathlib.Data.List.Infix

/-!
# The program break

`_sbrk` of `secure/src/syscalls.c`, which `nonsecure/src/syscalls.c` repeats
word for word.  It moves the break by the increment it is given and never
fails.  The linker scripts end the heap at the top of RAM, but no code reads
`__HeapLimit`.

The definition is strong and replaces the weak one of the SDK, which stops at
`__StackLimit`, the same address (`weakSbrk`).  So whether the break stays
inside the heap depends on the callers alone: it does exactly when no request
leaves the heap (`heapContained_iff`).
-/

namespace Boot

/-- `uint32_t`, and a pointer. -/
abbrev Word := BitVec 32

/-- An image as it is linked, with a value of `__end__`, which is also `_end`
and `__heap_start`. -/
structure Program where
  image : Image
  heapStart : Nat
  origin_le : image.ram.origin ≤ heapStart
  le_top : heapStart ≤ image.ram.top

namespace Program

/-- `__HeapLimit`, and `__StackLimit`: `ORIGIN(RAM) + LENGTH(RAM)`. -/
def heapLimit (p : Program) : Nat := p.image.ram.top

/-- `&_end`. -/
def endWord (p : Program) : Word := BitVec.ofNat 32 p.heapStart

/-- `&__StackLimit`. -/
def limitWord (p : Program) : Word := BitVec.ofNat 32 p.heapLimit

end Program

/-- `_sbrk`: the result and the new value of the static `heap_end`. -/
def sbrk (p : Program) (heapEnd incr : Word) : Word × Word :=
  let heapEnd := if heapEnd = 0 then p.endWord else heapEnd
  let prevHeapEnd := heapEnd
  let heapEnd := heapEnd + incr
  (prevHeapEnd, heapEnd)

/-- The weak `_sbrk` of the SDK.  The flag is `PICO_USE_OPTIMISTIC_SBRK`. -/
def weakSbrk (optimistic : Bool) (p : Program) (heapEnd incr : Word) : Word × Word :=
  let heapEnd := if heapEnd = 0 then p.endWord else heapEnd
  let prevHeapEnd := heapEnd
  let nextHeapEnd := heapEnd + incr
  if nextHeapEnd > p.limitWord then
    if optimistic then
      if heapEnd = p.limitWord then (-1, heapEnd) else (prevHeapEnd, p.limitWord)
    else (-1, heapEnd)
  else (prevHeapEnd, nextHeapEnd)

/-- The break: `_end` before the first call. -/
def brk (p : Program) (heapEnd : Word) : Word := if heapEnd = 0 then p.endWord else heapEnd

/-- `heap_end` after a sequence of calls.  The static starts as a null pointer. -/
def heapEndAfter (p : Program) (incrs : List Word) : Word :=
  incrs.foldl (fun heapEnd incr => (sbrk p heapEnd incr).2) 0

/-- The same with the weak definition. -/
def weakHeapEndAfter (optimistic : Bool) (p : Program) (incrs : List Word) : Word :=
  incrs.foldl (fun heapEnd incr => (weakSbrk optimistic p heapEnd incr).2) 0

/-! ## Containment -/

/-- The break the requests ask for, without wrapping. -/
def requested (p : Program) (incrs : List Word) : Int :=
  incrs.foldl (fun b incr => b + incr.toInt) p.heapStart

/-- The break asked for is in the heap. -/
def InHeap (p : Program) (b : Int) : Prop := p.heapStart ≤ b ∧ b ≤ p.heapLimit

/-- A call moves the break by the increment, if that stays in the heap, and
otherwise returns `(void *)-1` and leaves the break alone. -/
def CallContained (p : Program) (heapEnd incr : Word) : Prop :=
  let next : Int := (brk p heapEnd).toNat + incr.toInt
  (InHeap p next → (sbrk p heapEnd incr).1 = brk p heapEnd ∧
    ((brk p (sbrk p heapEnd incr).2).toNat : Int) = next) ∧
  (¬ InHeap p next → (sbrk p heapEnd incr).1 = -1 ∧
    brk p (sbrk p heapEnd incr).2 = brk p heapEnd)

/-- The bytes a successful call grants. -/
def Grants (p : Program) (heapEnd incr : Word) (a : Nat) : Prop :=
  (sbrk p heapEnd incr).1 ≠ -1 ∧ (sbrk p heapEnd incr).1.toNat ≤ a ∧
    (a : Int) < (sbrk p heapEnd incr).1.toNat + incr.toInt

/-- Every call of the sequence is contained, the break stays in the heap, and no
call in the secure image grants bytes of the secure stack banks or of the
non-secure RAM. -/
structure HeapContained (p : Program) (incrs : List Word) : Prop where
  calls : ∀ pre incr, pre ++ [incr] <+: incrs → CallContained p (heapEndAfter p pre) incr
  break_mem : ∀ pre, pre <+: incrs → InHeap p (brk p (heapEndAfter p pre)).toNat
  grants : p.image = .secure → ∀ pre incr, pre ++ [incr] <+: incrs →
    ∀ a, Grants p (heapEndAfter p pre) incr a → ¬ Image.secure.scratchX.Contains a ∧
      ¬ Image.secure.scratchY.Contains a ∧ ¬ Image.nonsecure.ram.Contains a

/-- No request leaves the heap. -/
def Fits (p : Program) (incrs : List Word) : Prop :=
  ∀ pre, pre <+: incrs → InHeap p (requested p pre)

/-- Every call leaves `heap_end` in the heap. -/
def KeepsBreak (p : Program) (incrs : List Word) : Prop :=
  ∀ pre, pre <+: incrs → pre ≠ [] → InHeap p (heapEndAfter p pre).toNat

instance (p : Program) (b : Int) : Decidable (InHeap p b) := inferInstanceAs (Decidable (_ ∧ _))

instance (p : Program) (incrs : List Word) : Decidable (Fits p incrs) :=
  decidable_of_iff (∀ pre ∈ incrs.inits, InHeap p (requested p pre)) <|
    forall_congr' fun pre => imp_congr_left (List.mem_inits pre incrs)

instance (p : Program) (incrs : List Word) : Decidable (KeepsBreak p incrs) :=
  decidable_of_iff (∀ pre ∈ incrs.inits, pre ≠ [] → InHeap p (heapEndAfter p pre).toNat) <|
    forall_congr' fun pre => imp_congr_left (List.mem_inits pre incrs)

/-! ## One call -/

theorem Image.ram_top_lt : ∀ image : Image, image.ram.top < 2 ^ 31
  | .secure => by decide
  | .nonsecure => by decide

theorem Image.ram_origin_pos : ∀ image : Image, 0 < image.ram.origin
  | .secure => by decide
  | .nonsecure => by decide

theorem Program.heapLimit_lt (p : Program) : p.heapLimit < 2 ^ 31 := p.image.ram_top_lt

theorem Program.heapStart_pos (p : Program) : 0 < p.heapStart :=
  Nat.lt_of_lt_of_le p.image.ram_origin_pos p.origin_le

theorem Program.toNat_endWord (p : Program) : p.endWord.toNat = p.heapStart := by
  have htop := p.le_top
  have hlimit := p.heapLimit_lt
  rw [endWord, BitVec.toNat_ofNat]
  simp only [heapLimit] at hlimit
  omega

theorem brk_eq_self {p : Program} {heapEnd : Word} (h : heapEnd ≠ 0) : brk p heapEnd = heapEnd :=
  if_neg h

theorem sbrk_fst (p : Program) (heapEnd incr : Word) : (sbrk p heapEnd incr).1 = brk p heapEnd :=
  rfl

/-- A request inside the heap is granted. -/
theorem brk_sbrk {p : Program} {heapEnd incr : Word}
    (h : InHeap p ((brk p heapEnd).toNat + incr.toInt)) :
    ((brk p (sbrk p heapEnd incr).2).toNat : Int) = (brk p heapEnd).toNat + incr.toInt := by
  have hstart := p.heapStart_pos
  have hlimit := p.heapLimit_lt
  obtain ⟨hlo, hhi⟩ := h
  -- the sum does not wrap
  have hsum : ((brk p heapEnd + incr).toNat : Int) = (brk p heapEnd).toNat + incr.toInt := by
    rw [BitVec.toNat_add]
    rw [BitVec.toInt_eq_toNat_cond] at hlo hhi ⊢
    omega
  have hne : brk p heapEnd + incr ≠ 0 := by
    intro h0
    have hzero : (0 : Word).toNat = 0 := rfl
    rw [h0, hzero] at hsum
    omega
  have hnext : (sbrk p heapEnd incr).2 = brk p heapEnd + incr := rfl
  rw [hnext, brk_eq_self hne, hsum]

/-! ## Sequences of calls -/

theorem heapEndAfter_append (p : Program) (pre : List Word) (incr : Word) :
    heapEndAfter p (pre ++ [incr]) = (sbrk p (heapEndAfter p pre) incr).2 := by
  rw [heapEndAfter, List.foldl_append]
  rfl

theorem requested_append (p : Program) (pre : List Word) (incr : Word) :
    requested p (pre ++ [incr]) = requested p pre + incr.toInt := by
  rw [requested, List.foldl_append]
  rfl

theorem brk_heapEndAfter_nil (p : Program) :
    ((brk p (heapEndAfter p [])).toNat : Int) = requested p [] := by
  show ((p.endWord.toNat : Nat) : Int) = p.heapStart
  rw [p.toNat_endWord]

theorem Program.inHeap_requested_nil (p : Program) : InHeap p (requested p []) := by
  have htop := p.le_top
  simp only [InHeap, requested, List.foldl_nil, heapLimit]
  omega

/-- While the requests stay in the heap, the break is what they ask for. -/
theorem Fits.brk_eq {p : Program} {incrs : List Word} (h : Fits p incrs) (pre : List Word)
    (hpre : pre <+: incrs) : ((brk p (heapEndAfter p pre)).toNat : Int) = requested p pre := by
  induction pre using List.reverseRecOn with
  | nil => exact brk_heapEndAfter_nil p
  | append_singleton pre incr ih =>
      have hbefore := ih ((List.prefix_append pre [incr]).trans hpre)
      have hnext := h (pre ++ [incr]) hpre
      rw [requested_append, ← hbefore] at hnext ⊢
      rw [heapEndAfter_append]
      exact brk_sbrk hnext

/-- A call that moves the break from the heap to the heap does not wrap. -/
theorem toNat_sbrk {p : Program} {heapEnd incr : Word} (hb : InHeap p (brk p heapEnd).toNat)
    (hnext : InHeap p (sbrk p heapEnd incr).2.toNat) :
    ((sbrk p heapEnd incr).2.toNat : Int) = (brk p heapEnd).toNat + incr.toInt := by
  have hlimit := p.heapLimit_lt
  obtain ⟨_, hhi⟩ := hb
  obtain ⟨_, hnext⟩ := hnext
  have hsum : (sbrk p heapEnd incr).2 = brk p heapEnd + incr := rfl
  rw [hsum, BitVec.toNat_add] at hnext ⊢
  rw [BitVec.toInt_eq_toNat_cond]
  omega

/-- If no call from a break in the heap asks to leave it, no request leaves the
heap. -/
theorem fits_of_calls {p : Program} {incrs : List Word}
    (h : ∀ pre incr, pre ++ [incr] <+: incrs → InHeap p (brk p (heapEndAfter p pre)).toNat →
      InHeap p ((brk p (heapEndAfter p pre)).toNat + incr.toInt)) : Fits p incrs := by
  have hboth : ∀ pre, pre <+: incrs → InHeap p (requested p pre) ∧
      ((brk p (heapEndAfter p pre)).toNat : Int) = requested p pre := by
    intro pre
    induction pre using List.reverseRecOn with
    | nil => exact fun _ => ⟨p.inHeap_requested_nil, brk_heapEndAfter_nil p⟩
    | append_singleton pre incr ih =>
        intro hpre
        obtain ⟨hin, hbefore⟩ := ih ((List.prefix_append pre [incr]).trans hpre)
        rw [← hbefore] at hin
        have hnext := h pre incr hpre hin
        rw [heapEndAfter_append, requested_append, brk_sbrk hnext, ← hbefore]
        exact ⟨hnext, rfl⟩
  exact fun pre hpre => (hboth pre hpre).1

/-- If every call leaves `heap_end` in the heap, no request leaves it. -/
theorem KeepsBreak.fits {p : Program} {incrs : List Word} (h : KeepsBreak p incrs) :
    Fits p incrs := by
  refine fits_of_calls fun pre incr hpre hin => ?_
  have hnext := h (pre ++ [incr]) hpre (by simp)
  rw [heapEndAfter_append] at hnext
  rw [← toNat_sbrk hin hnext]
  exact hnext

/-- A contained call is a request inside the heap: the code never returns
`(void *)-1` from a break in the heap. -/
theorem CallContained.inHeap {p : Program} {heapEnd incr : Word}
    (h : CallContained p heapEnd incr) (hb : InHeap p (brk p heapEnd).toNat) :
    InHeap p ((brk p heapEnd).toNat + incr.toInt) := by
  by_contra hout
  have hret := (h.2 hout).1
  have hlimit := p.heapLimit_lt
  have hhi := hb.2
  rw [sbrk_fst] at hret
  rw [hret] at hhi
  have hmax : (-1 : Word).toNat = 2 ^ 32 - 1 := by decide
  omega

/-- If the calls are contained, the requests stay in the heap. -/
theorem HeapContained.fits {p : Program} {incrs : List Word} (h : HeapContained p incrs) :
    Fits p incrs :=
  fits_of_calls fun pre incr hpre hin => (h.calls pre incr hpre).inHeap hin

/-! ## The result -/

/-- **The break and the heap.**  In each image, for every value of `__end__`
and every sequence of increments, the break stays inside the heap, as the
linker scripts lay it out, if and only if no request leaves it. -/
theorem heapContained_iff (p : Program) (incrs : List Word) :
    HeapContained p incrs ↔ Fits p incrs := by
  refine ⟨HeapContained.fits, fun h => ⟨?_, ?_, ?_⟩⟩
  · intro pre incr hpre
    have hbefore := h.brk_eq pre ((List.prefix_append pre [incr]).trans hpre)
    have hnext := h (pre ++ [incr]) hpre
    rw [requested_append, ← hbefore] at hnext
    exact ⟨fun hin => ⟨rfl, brk_sbrk hin⟩, fun hout => absurd hnext hout⟩
  · intro pre hpre
    rw [h.brk_eq pre hpre]
    exact h pre hpre
  · intro hsecure pre incr hpre a hgrant
    have hbefore := h.brk_eq pre ((List.prefix_append pre [incr]).trans hpre)
    have hnext := (h (pre ++ [incr]) hpre).2
    rw [requested_append, ← hbefore] at hnext
    have hbelow := hgrant.2.2
    rw [sbrk_fst] at hbelow
    -- the heap of the secure image ends where its stack banks start
    have hlimit : p.heapLimit = 0x20010000 := by rw [Program.heapLimit, hsecure]; rfl
    rw [hlimit] at hnext
    simp only [MemoryRegion.Contains, Image.scratchX, Image.scratchY, Image.ram]
    omega

/-- A secure image with 16 KiB of data. -/
def Program.small : Program := ⟨.secure, 0x20004000, by decide, by decide⟩

/-- One request takes the break of the secure image through the stack banks into
the RAM of the non-secure image.  The weak definition refuses it. -/
theorem not_heapContained :
    sbrk .small 0 0x10000 = (0x20004000, 0x20014000) ∧
      Program.small.heapLimit = 0x20010000 ∧
      Grants .small (heapEndAfter .small []) 0x10000 0x20012000 ∧
      Image.nonsecure.ram.Contains 0x20012000 ∧
      weakSbrk false .small 0 0x10000 = (-1, 0x20004000) ∧
      ¬ HeapContained .small [0x10000] := by
  have hgrant : Grants .small (heapEndAfter .small []) 0x10000 0x20012000 :=
    ⟨by decide, by decide, by decide⟩
  have hns : Image.nonsecure.ram.Contains 0x20012000 := by decide
  refine ⟨by decide, by decide, hgrant, hns, by decide, fun h => ?_⟩
  exact (h.grants rfl [] 0x10000 (List.prefix_refl _) _ hgrant).2.2 hns

/-! ## The weak definition -/

theorem Program.endWord_le (p : Program) : p.endWord ≤ p.limitWord := by
  have htop := p.le_top
  have hlimit := p.heapLimit_lt
  rw [BitVec.le_def, p.toNat_endWord, Program.limitWord, BitVec.toNat_ofNat]
  simp only [Program.heapLimit] at hlimit ⊢
  omega

theorem brk_le {p : Program} {heapEnd : Word} (h : heapEnd ≤ p.limitWord) :
    brk p heapEnd ≤ p.limitWord := by
  rw [brk]
  split
  · exact p.endWord_le
  · exact h

theorem weakSbrk_le {optimistic : Bool} {p : Program} {heapEnd incr : Word}
    (h : brk p heapEnd ≤ p.limitWord) : (weakSbrk optimistic p heapEnd incr).2 ≤ p.limitWord := by
  show (if brk p heapEnd + incr > p.limitWord then
    if optimistic then
      if brk p heapEnd = p.limitWord then (-1, brk p heapEnd) else (brk p heapEnd, p.limitWord)
    else (-1, brk p heapEnd)
  else (brk p heapEnd, brk p heapEnd + incr) : Word × Word).2 ≤ _
  split
  · split
    · split
      · exact h
      · exact BitVec.le_refl _
    · exact h
  · next hnext => exact BitVec.not_lt.mp hnext

/-- The weak definition keeps the break at or below `__StackLimit`, whatever
the increments are. -/
theorem weakBrk_le (optimistic : Bool) (p : Program) (incrs : List Word) :
    brk p (weakHeapEndAfter optimistic p incrs) ≤ p.limitWord := by
  induction incrs using List.reverseRecOn with
  | nil => exact p.endWord_le
  | append_singleton incrs incr ih =>
      rw [weakHeapEndAfter, List.foldl_append]
      exact brk_le (weakSbrk_le ih)

end Boot
