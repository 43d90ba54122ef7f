import Mathlib.Algebra.Group.Nat.Defs
import Mathlib.Data.Nat.Basic
import Mathlib.Tactic.Cases

/-!
# Pointers and numbers

A pointer is a word, and an address is a number.  `ptr a` is the pointer to the
address `a`.  Arithmetic on pointers is arithmetic on addresses as long as nothing
leaves the address space, and the masks that programs use to align an address or to
mark a size are a remainder and a bound.
-/

/-- The pointer to an address. -/
abbrev ptr (a : Nat) : BitVec 32 := BitVec.ofNat 32 a

namespace Pointer

variable {a b : Nat}

@[simp] theorem toNat_ptr (h : a < 2 ^ 32) : (ptr a).toNat = a := by
  rw [BitVec.toNat_ofNat, Nat.mod_eq_of_lt h]

theorem ptr_inj (ha : a < 2 ^ 32) (hb : b < 2 ^ 32) : ptr a = ptr b ↔ a = b := by
  rw [← BitVec.toNat_inj, toNat_ptr ha, toNat_ptr hb]

theorem ptr_eq_zero (ha : a < 2 ^ 32) : ptr a = 0 ↔ a = 0 :=
  ptr_inj ha (Nat.two_pow_pos 32)

theorem ptr_lt (ha : a < 2 ^ 32) (hb : b < 2 ^ 32) : ptr a < ptr b ↔ a < b := by
  rw [BitVec.lt_def, toNat_ptr ha, toNat_ptr hb]

theorem ptr_le (ha : a < 2 ^ 32) (hb : b < 2 ^ 32) : ptr a ≤ ptr b ↔ a ≤ b := by
  rw [BitVec.le_def, toNat_ptr ha, toNat_ptr hb]

theorem ptr_add (a b : Nat) : ptr a + ptr b = ptr (a + b) := (BitVec.ofNat_add a b).symm

theorem ptr_sub (h : b ≤ a) : ptr a - ptr b = ptr (a - b) := by
  rw [BitVec.sub_eq_iff_eq_add, ptr_add, Nat.sub_add_cancel h]

/-! ## Masks -/

theorem and_not_eq_sub {w : Nat} (x y : BitVec w) : x &&& ~~~y = x - (x &&& y) := by
  have h : (x &&& ~~~y) &&& (x &&& y) = 0 := by
    apply BitVec.eq_of_getLsbD_eq
    intro i hi
    simp only [BitVec.getLsbD_and, BitVec.getLsbD_not]
    cases hy : y.getLsbD i <;> simp
  rw [eq_comm, BitVec.sub_eq_iff_eq_add, BitVec.add_eq_or_of_and_eq_zero _ _ h]
  apply BitVec.eq_of_getLsbD_eq
  intro i hi
  simp only [BitVec.getLsbD_or, BitVec.getLsbD_and, BitVec.getLsbD_not]
  cases y.getLsbD i <;> simp [hi]

/-- The low three bits of an address. -/
theorem ptr_and_seven (h : a < 2 ^ 32) : ptr a &&& 7 = ptr (a % 8) := by
  apply BitVec.eq_of_toNat_eq
  rw [BitVec.toNat_and, toNat_ptr h, toNat_ptr (by omega)]
  exact Nat.and_two_pow_sub_one_eq_mod a 3

theorem ptr_and_seven_eq_zero (h : a < 2 ^ 32) : ptr a &&& 7 = 0 ↔ 8 ∣ a := by
  rw [ptr_and_seven h, ptr_eq_zero (by omega)]
  omega

/-- An address rounded down. -/
theorem ptr_and_not_seven (h : a < 2 ^ 32) : ptr a &&& ~~~7 = ptr (a / 8 * 8) := by
  rw [and_not_eq_sub, ptr_and_seven h, ptr_sub (by omega)]
  congr 1
  omega

/-- The top bit of a word. -/
theorem ptr_and_top (h : a < 2 ^ 32) :
    ptr a &&& ptr (2 ^ 31) = if a < 2 ^ 31 then 0 else ptr (2 ^ 31) := by
  have hbit : (ptr a).getLsbD 31 = decide (2 ^ 31 ≤ a) := by
    rw [BitVec.getLsbD_last (ptr a), toNat_ptr h]
  have htop : ptr (2 ^ 31) = BitVec.twoPow 32 31 := rfl
  rw [htop, BitVec.and_twoPow, hbit]
  simp only [decide_eq_true_eq]
  split
  · rw [if_neg (by omega)]
  · rw [if_pos (by omega)]
    rfl

/-- The top bit is clear. -/
theorem ptr_and_top_eq_zero (h : a < 2 ^ 32) : ptr a &&& ptr (2 ^ 31) = 0 ↔ a < 2 ^ 31 := by
  rw [ptr_and_top h]
  split
  · next hlt => exact iff_of_true rfl hlt
  · next hlt => exact iff_of_false (by decide) hlt

/-- Set the top bit. -/
theorem ptr_or_top (h : a < 2 ^ 31) : ptr a ||| ptr (2 ^ 31) = ptr (a + 2 ^ 31) := by
  rw [← BitVec.add_eq_or_of_and_eq_zero _ _ ((ptr_and_top_eq_zero (by omega)).mpr h), ptr_add]

/-- Clear the top bit. -/
theorem ptr_and_not_top (h : a < 2 ^ 31) : ptr (a + 2 ^ 31) &&& ~~~ptr (2 ^ 31) = ptr a := by
  rw [and_not_eq_sub, ptr_and_top (by omega), if_neg (by omega), ptr_sub (by omega),
    Nat.add_sub_cancel]

end Pointer
