import Mathlib.Data.Nat.Basic
import Mathlib.Logic.Function.Basic
import Mathlib.Tactic.Cases

/-!
# Byte memory

A memory maps byte addresses to bytes.  Words are 32 bits wide and stored with
the least significant byte at the lowest address.  Nothing here bounds an
address: a client that owns a range of addresses says so itself.

Two word accesses interact only if their four-byte ranges meet.
`word_setWord_self` and `word_setWord_of_apart` are the two halves of this, and
`setWord_apply_of_notMem` is the frame rule for single bytes.
-/

/-- A memory: the byte at every address. -/
abbrev ByteMemory := Nat → BitVec 8

namespace ByteMemory

/-- The word at `a`, least significant byte first. -/
def word (m : ByteMemory) (a : Nat) : BitVec 32 :=
  m (a + 3) ++ m (a + 2) ++ m (a + 1) ++ m a

/-- Store the word `v` at `a`. -/
def setWord (m : ByteMemory) (a : Nat) (v : BitVec 32) : ByteMemory := fun x =>
  if a ≤ x ∧ x < a + 4 then v.extractLsb' (8 * (x - a)) 8 else m x

/-- Two word addresses whose four-byte ranges do not meet. -/
def Apart (a b : Nat) : Prop := a + 4 ≤ b ∨ b + 4 ≤ a

theorem Apart.symm {a b : Nat} (h : Apart a b) : Apart b a := Or.symm h

/-! ## Reading back a word -/

theorem setWord_apply_of_notMem {m : ByteMemory} {a x : Nat} {v : BitVec 32}
    (h : x < a ∨ a + 4 ≤ x) : m.setWord a v x = m x := by
  rw [setWord]
  rw [if_neg (by omega)]

theorem setWord_apply_add {m : ByteMemory} {a i : Nat} {v : BitVec 32} (h : i < 4) :
    m.setWord a v (a + i) = v.extractLsb' (8 * i) 8 := by
  rw [setWord]
  rw [if_pos (by omega), Nat.add_sub_cancel_left]

/-- The four bytes of a word, put back together. -/
theorem append_bytes (v : BitVec 32) :
    v.extractLsb' 24 8 ++ v.extractLsb' 16 8 ++ v.extractLsb' 8 8 ++ v.extractLsb' 0 8 = v := by
  apply BitVec.eq_of_getLsbD_eq
  intro i hi
  simp only [BitVec.getLsbD_append, BitVec.getLsbD_extractLsb']
  grind

@[simp] theorem word_setWord_self (m : ByteMemory) (a : Nat) (v : BitVec 32) :
    (m.setWord a v).word a = v := by
  have h0 : m.setWord a v a = v.extractLsb' 0 8 := setWord_apply_add (i := 0) (by omega)
  rw [word]
  rw [setWord_apply_add (i := 3) (by omega), setWord_apply_add (i := 2) (by omega),
    setWord_apply_add (i := 1) (by omega), h0]
  exact append_bytes v

theorem word_setWord_of_apart {m : ByteMemory} {a b : Nat} {v : BitVec 32} (h : Apart a b) :
    (m.setWord a v).word b = m.word b := by
  rw [Apart] at h
  unfold word
  rw [setWord_apply_of_notMem (by omega), setWord_apply_of_notMem (by omega),
    setWord_apply_of_notMem (by omega), setWord_apply_of_notMem (by omega)]

/-- A word depends on its own bytes only. -/
theorem word_congr {m m' : ByteMemory} {a : Nat} (h : ∀ x, a ≤ x → x < a + 4 → m' x = m x) :
    m'.word a = m.word a := by
  unfold word
  rw [h a (by omega) (by omega), h (a + 1) (by omega) (by omega), h (a + 2) (by omega) (by omega),
    h (a + 3) (by omega) (by omega)]

/-! ## Equal memories -/

/-- Storing the word that is already there changes nothing. -/
theorem setWord_eq_self {m : ByteMemory} {a : Nat} {v : BitVec 32} (h : m.word a = v) :
    m.setWord a v = m := by
  funext x
  by_cases hx : a ≤ x ∧ x < a + 4
  · obtain ⟨i, rfl⟩ : ∃ i, x = a + i := ⟨x - a, by omega⟩
    rw [setWord_apply_add (by omega), ← h]
    apply BitVec.eq_of_getLsbD_eq
    intro j hj
    obtain rfl | rfl | rfl | rfl : i = 0 ∨ i = 1 ∨ i = 2 ∨ i = 3 := by omega
    all_goals
      simp only [word, BitVec.getLsbD_append, BitVec.getLsbD_extractLsb', Nat.add_zero]
      grind
  · exact setWord_apply_of_notMem (by omega)

/-- The last store at an address wins. -/
theorem setWord_setWord (m : ByteMemory) (a : Nat) (v w : BitVec 32) :
    (m.setWord a v).setWord a w = m.setWord a w := by
  funext x
  unfold setWord
  split
  · rfl
  · rfl

/-- Stores at addresses apart commute. -/
theorem setWord_comm {m : ByteMemory} {a b : Nat} {v w : BitVec 32} (h : Apart a b) :
    (m.setWord a v).setWord b w = (m.setWord b w).setWord a v := by
  rw [Apart] at h
  funext x
  unfold setWord
  by_cases ha : a ≤ x ∧ x < a + 4
  · rw [if_neg (by omega), if_pos ha, if_pos ha]
  · rw [if_neg ha, if_neg ha]

end ByteMemory
