import PicoTrustZone.Lib.ByteMemory
import PicoTrustZone.Lib.Pointer

/-!
# Load and store multiple

A block transfer moves registers to or from consecutive words, the first register at
the lowest address.  What is stored is loaded again (`ldm_stm`), and nothing outside the
words is touched, as long as the words do not wrap around the address space.
-/

namespace ByteMemory

/-- Store registers from `a` on. -/
def stm (m : ByteMemory) (a : BitVec 32) : List (BitVec 32) → ByteMemory
  | [] => m
  | v :: vs => stm (m.setWord a.toNat v) (a + 4) vs

/-- Load `n` registers from `a` on. -/
def ldm (m : ByteMemory) (a : BitVec 32) (n : Nat) : Vector (BitVec 32) n :=
  Vector.ofFn fun i => m.word (a + BitVec.ofNat 32 (4 * i)).toNat

variable {m m' : ByteMemory} {a : BitVec 32} {n i : Nat} {vs : List (BitVec 32)}

/-- The address of a word behind `a`. -/
theorem toNat_add_ofNat {k : Nat} (h : a.toNat + k < 2 ^ 32) :
    (a + BitVec.ofNat 32 k).toNat = a.toNat + k := by
  rw [BitVec.toNat_add, BitVec.toNat_ofNat]
  omega

/-- A store changes its words only. -/
theorem stm_apply_of_notMem {z : Nat} (h : a.toNat + 4 * vs.length ≤ 2 ^ 32)
    (hz : z < a.toNat ∨ a.toNat + 4 * vs.length ≤ z) : stm m a vs z = m z := by
  induction vs generalizing a m with
  | nil => rfl
  | cons v vs ih =>
      rw [List.length_cons] at h hz
      rw [stm]
      cases vs with
      | nil => exact setWord_apply_of_notMem (by simp at hz; omega)
      | cons w vs =>
          rw [List.length_cons] at h hz
          have hnext : (a + 4).toNat = a.toNat + 4 := toNat_add_ofNat (k := 4) (by omega)
          rw [ih (by rw [List.length_cons, hnext]; omega) (by rw [List.length_cons, hnext]; omega)]
          exact setWord_apply_of_notMem (by omega)

/-- The words that are stored. -/
theorem word_stm (h : a.toNat + 4 * vs.length ≤ 2 ^ 32) (hi : i < vs.length) :
    (stm m a vs).word (a.toNat + 4 * i) = vs[i] := by
  induction vs generalizing a m i with
  | nil => cases hi
  | cons v vs ih =>
      rw [List.length_cons] at h hi
      rw [stm]
      cases i with
      | zero =>
          cases vs with
          | nil => exact word_setWord_self ..
          | cons w vs =>
              rw [List.length_cons] at h
              have hnext : (a + 4).toNat = a.toNat + 4 := toNat_add_ofNat (k := 4) (by omega)
              have hkeep : (stm (m.setWord a.toNat v) (a + 4) (w :: vs)).word a.toNat =
                  (m.setWord a.toNat v).word a.toNat := word_congr fun z hz hz' =>
                stm_apply_of_notMem (by rw [List.length_cons, hnext]; omega)
                  (by rw [hnext]; omega)
              exact hkeep.trans (word_setWord_self ..)
      | succ i =>
          have hnext : (a + 4).toNat = a.toNat + 4 := toNat_add_ofNat (k := 4) (by omega)
          have hrest := ih (m := m.setWord a.toNat v) (a := a + 4) (i := i)
            (by rw [hnext]; omega) (by omega)
          rw [hnext] at hrest
          rw [Nat.mul_succ, Nat.add_comm (4 * i) 4, ← Nat.add_assoc, hrest]
          rfl

theorem getElem_ldm (h : a.toNat + 4 * n ≤ 2 ^ 32) (hi : i < n) :
    (ldm m a n)[i] = m.word (a.toNat + 4 * i) := by
  rw [ldm, Vector.getElem_ofFn, toNat_add_ofNat (by omega)]

/-- What is stored is loaded again. -/
theorem ldm_stm (v : Vector (BitVec 32) n) (h : a.toNat + 4 * n ≤ 2 ^ 32) :
    ldm (stm m a v.toList) a n = v := by
  apply Vector.ext
  intro i hi
  rw [getElem_ldm h hi, word_stm (by rwa [Vector.length_toList]) (by rwa [Vector.length_toList])]
  exact Vector.getElem_toList _

/-- A load depends on its words only. -/
theorem ldm_congr (h : a.toNat + 4 * n ≤ 2 ^ 32)
    (hm : ∀ z, a.toNat ≤ z → z < a.toNat + 4 * n → m' z = m z) : ldm m' a n = ldm m a n := by
  apply Vector.ext
  intro i hi
  rw [getElem_ldm h hi, getElem_ldm h hi]
  exact word_congr fun z hz hz' => hm z (by omega) (by omega)

end ByteMemory
