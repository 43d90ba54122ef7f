import PicoTrustZone.Heap.Model
import PicoTrustZone.Lib.BlockChain
import Mathlib.Algebra.Group.Nat.Defs

/-!
# The nodes of the secure heap

A node is `xStart` or an aligned address inside the heap: the nodes are where headers
can be.  Two nodes are the same or their headers do not meet, and no static variable
meets a header.  So the accesses of `Model` become reads and writes of words that
interact only at one address.
-/

namespace SecureHeap

open ByteMemory Pointer

namespace Layout

variable (L : Layout)

/-- Where the first block is. -/
def start : Nat := (L.ucHeap + 7) / 8 * 8

/-- Where `pxEnd` points to. -/
def stop : Nat := (L.ucHeap + L.totalHeapSize - 8) / 8 * 8

theorem start_pos : 0 < L.start := by
  have := L.ucHeap_pos
  rw [start]
  omega

theorem le_start : L.ucHeap ≤ L.start := by
  rw [start]
  omega

theorem start_lt_stop : L.start < L.stop := by
  have := L.large
  rw [start, stop]
  omega

theorem stop_le : L.stop + 8 ≤ L.ucHeap + L.totalHeapSize := by
  have := L.large
  rw [stop]
  omega

theorem dvd_start : 8 ∣ L.start := Nat.dvd_mul_left ..

theorem dvd_stop : 8 ∣ L.stop := Nat.dvd_mul_left ..

/-- The blocks together are smaller than the heap. -/
theorem stop_sub_start_lt : L.stop - L.start < 2 ^ 31 := by
  have := L.le_start
  have := L.stop_le
  have := L.small
  omega

theorem stop_lt : L.stop + 8 < 2 ^ 32 := Nat.lt_of_le_of_lt L.stop_le L.ucHeap_lt

/-- An address in the heap that can have a header. -/
def Inner (a : Nat) : Prop := L.start ≤ a ∧ a ≤ L.stop ∧ 8 ∣ a

/-- An address that can have a header. -/
def Node (a : Nat) : Prop := a = L.xStart ∨ L.Inner a

theorem node_xStart : L.Node L.xStart := .inl rfl

theorem inner_start : L.Inner L.start :=
  ⟨Nat.le_refl _, Nat.le_of_lt L.start_lt_stop, L.dvd_start⟩

theorem inner_stop : L.Inner L.stop :=
  ⟨Nat.le_of_lt L.start_lt_stop, Nat.le_refl _, L.dvd_stop⟩

theorem xStart_apart_start : L.xStart + 8 ≤ L.start ∨ L.stop + 8 ≤ L.xStart := by
  have := L.le_start
  have := L.stop_le
  have := L.xStart_apart
  omega

variable {L} {a b : Nat}

namespace Inner

theorem node (h : L.Inner a) : L.Node a := .inr h

theorem pos (h : L.Inner a) : 0 < a := Nat.lt_of_lt_of_le L.start_pos h.1

theorem lt (h : L.Inner a) : a + 8 < 2 ^ 32 := by
  have := L.stop_lt
  have := h.2.1
  omega

theorem ne_xStart (h : L.Inner a) : a ≠ L.xStart := by
  have := L.xStart_apart_start
  have := h.1
  have := h.2.1
  omega

end Inner

namespace Node

theorem lt (h : L.Node a) : a + 8 < 2 ^ 32 := by
  rcases h with rfl | h
  · exact L.xStart_lt
  · exact h.lt

/-- The headers of two nodes do not meet. -/
theorem apart (ha : L.Node a) (hb : L.Node b) (hne : a ≠ b) : a + 8 ≤ b ∨ b + 8 ≤ a := by
  have := L.xStart_apart_start
  rcases ha with rfl | ⟨ha, ha', hda⟩
  · rcases hb with rfl | ⟨hb, hb', _⟩ <;> omega
  · rcases hb with rfl | ⟨hb, hb', hdb⟩ <;> omega

/-- No static variable meets a header. -/
theorem static_apart (ha : L.Node a) (v : Static) :
    L.static v + 4 ≤ a ∨ a + 8 ≤ L.static v := by
  have := L.static_xStart v
  have := L.static_ucHeap v
  have := L.le_start
  have := L.stop_le
  rcases ha with rfl | ⟨ha, ha', _⟩ <;> omega

/-! ### Accesses through a pointer -/

variable {m : ByteMemory} {v : Word}

theorem pxNextFreeBlock_eq (h : L.Node a) (m : ByteMemory) :
    pxNextFreeBlock m (ptr a) = m.word a := by
  have := h.lt
  rw [pxNextFreeBlock, toNat_ptr (by omega)]

theorem toNat_ptr_add_four (h : L.Node a) : (ptr a + 4).toNat = a + 4 := by
  have := h.lt
  have hadd : ptr a + 4 = ptr (a + 4) := ptr_add a 4
  rw [hadd, toNat_ptr (by omega)]

theorem xBlockSize_eq (h : L.Node a) (m : ByteMemory) :
    xBlockSize m (ptr a) = m.word (a + 4) := by
  rw [xBlockSize, h.toNat_ptr_add_four]

theorem setNextFreeBlock_eq (h : L.Node a) (m : ByteMemory) (v : Word) :
    setNextFreeBlock m (ptr a) v = m.setWord a v := by
  have := h.lt
  rw [setNextFreeBlock, toNat_ptr (by omega)]

theorem setBlockSize_eq (h : L.Node a) (m : ByteMemory) (v : Word) :
    setBlockSize m (ptr a) v = m.setWord (a + 4) v := by
  rw [setBlockSize, h.toNat_ptr_add_four]

/-! ### Accesses that do not interact -/

theorem link_setSize (ha : L.Node a) (hb : L.Node b) :
    (m.setWord (a + 4) v).word b = m.word b := by
  refine word_setWord_of_apart ?_
  rcases eq_or_ne a b with rfl | hne
  · exact .inr (Nat.le_refl _)
  · rcases ha.apart hb hne with h | h
    · exact .inl (by omega)
    · exact .inr (by omega)

theorem size_setLink (ha : L.Node a) (hb : L.Node b) :
    (m.setWord a v).word (b + 4) = m.word (b + 4) := by
  refine word_setWord_of_apart ?_
  rcases eq_or_ne a b with rfl | hne
  · exact .inl (Nat.le_refl _)
  · rcases ha.apart hb hne with h | h
    · exact .inl (by omega)
    · exact .inr (by omega)

theorem link_setLink (ha : L.Node a) (hb : L.Node b) (hne : a ≠ b) :
    (m.setWord a v).word b = m.word b := by
  refine word_setWord_of_apart ?_
  rcases ha.apart hb hne with h | h
  · exact .inl (by omega)
  · exact .inr (by omega)

theorem size_setSize (ha : L.Node a) (hb : L.Node b) (hne : a ≠ b) :
    (m.setWord (a + 4) v).word (b + 4) = m.word (b + 4) := by
  refine word_setWord_of_apart ?_
  rcases ha.apart hb hne with h | h
  · exact .inl (by omega)
  · exact .inr (by omega)

theorem get_setLink (ha : L.Node a) (s : Static) :
    L.get (m.setWord a v) s = L.get m s := by
  refine word_setWord_of_apart ?_
  rcases ha.static_apart s with h | h
  · exact .inr h
  · exact .inl (by omega)

theorem get_setSize (ha : L.Node a) (s : Static) :
    L.get (m.setWord (a + 4) v) s = L.get m s := by
  refine word_setWord_of_apart ?_
  rcases ha.static_apart s with h | h
  · exact .inr (by omega)
  · exact .inl (by omega)

theorem link_set (ha : L.Node a) (s : Static) : (L.set m s v).word a = m.word a := by
  refine word_setWord_of_apart ?_
  rcases ha.static_apart s with h | h
  · exact .inl h
  · exact .inr (by omega)

theorem size_set (ha : L.Node a) (s : Static) :
    (L.set m s v).word (a + 4) = m.word (a + 4) := by
  refine word_setWord_of_apart ?_
  rcases ha.static_apart s with h | h
  · exact .inl (by omega)
  · exact .inr (by omega)

end Node

/-- The loops start from `xStart`. -/
theorem pxNextFreeBlock_xStartPtr (L : Layout) (m : ByteMemory) :
    pxNextFreeBlock m L.xStartPtr = m.word L.xStart := L.node_xStart.pxNextFreeBlock_eq m

@[simp] theorem get_set_self (m : ByteMemory) (s : Static) (v : Word) :
    L.get (L.set m s v) s = v := word_setWord_self ..

theorem get_set_of_ne {m : ByteMemory} {s t : Static} {v : Word} (h : s ≠ t) :
    L.get (L.set m s v) t = L.get m t := word_setWord_of_apart (L.static_static s t h)

end Layout

end SecureHeap
