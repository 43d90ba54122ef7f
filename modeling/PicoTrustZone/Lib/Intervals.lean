import Mathlib.Data.Nat.Basic
import Mathlib.Order.Lattice
import Mathlib.Tactic.Cases

/-!
# A growing interval among fixed ones

An interval `[lo, b)` grows at its top, up to `limit`, among a list of fixed
half-open intervals.  `ceiling` is the first address from `lo` on that one of
them occupies, or `limit` if there is none below it.  The growing interval
stays apart from all of them exactly until `b` passes the ceiling
(`apart_iff_le_ceiling`).
-/

namespace Intervals

/-- `[lo, b)` meets none of the intervals. -/
def Apart (lo b : Nat) (l : List (Nat × Nat)) : Prop :=
  ∀ i ∈ l, ∀ a, lo ≤ a → a < b → ¬ (i.1 ≤ a ∧ a < i.2)

/-- The first occupied address from `lo` on, or `limit`. -/
def ceiling (lo limit : Nat) : List (Nat × Nat) → Nat
  | [] => limit
  | i :: l => if max i.1 lo < i.2 then min (max i.1 lo) (ceiling lo limit l) else ceiling lo limit l

variable {lo limit b : Nat} {l : List (Nat × Nat)}

theorem apart_cons {i : Nat × Nat} :
    Apart lo b (i :: l) ↔ (max i.1 lo < i.2 → b ≤ max i.1 lo) ∧ Apart lo b l := by
  constructor
  · intro h
    refine ⟨fun hi => ?_, fun j hj => h j (List.mem_cons_of_mem _ hj)⟩
    by_contra hb
    -- the first address of the interval that is not below `lo`
    exact h i (List.mem_cons_self ..) (max i.1 lo) (Nat.le_max_right ..) (by omega)
      ⟨Nat.le_max_left .., hi⟩
  · rintro ⟨hi, hl⟩ j hj a hlo hab ⟨h1, h2⟩
    rcases List.mem_cons.mp hj with rfl | hj
    · have hmax : max j.1 lo ≤ a := Nat.max_le.mpr ⟨h1, hlo⟩
      have hb := hi (Nat.lt_of_le_of_lt hmax h2)
      omega
    · exact hl j hj a hlo hab ⟨h1, h2⟩

/-- The interval stays apart until it passes the ceiling. -/
theorem apart_iff_le_ceiling (hb : b ≤ limit) : Apart lo b l ↔ b ≤ ceiling lo limit l := by
  induction l with
  | nil => exact iff_of_true (fun _ hi => nomatch hi) hb
  | cons i l ih =>
      rw [apart_cons, ih, ceiling]
      split
      · next hi => rw [Nat.le_min, imp_iff_right hi]
      · next hi => exact and_iff_right fun h => absurd h hi

/-- Intervals that start at or above `b` are out of reach. -/
theorem apart_of_le (h : ∀ i ∈ l, b ≤ i.1) : Apart lo b l := by
  intro i hi a _ hab h1
  have hle := h i hi
  omega

end Intervals
