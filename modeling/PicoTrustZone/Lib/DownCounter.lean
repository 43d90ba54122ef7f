import Mathlib.Logic.Function.Iterate
import Mathlib.Tactic.Cases
import Mathlib.Tactic.SplitIfs

/-!
# Reloading down counters

A counter that goes down by one in every cycle.  The cycle that finds it at zero
loads its reload value instead.  The counter *fires* in the cycle that takes it
from one to zero.

With a reload value `r`, from any value up to `r`, it fires once in every `r + 1`
cycles (`fires_iff`).  The reload value zero is the exception: the counter stays
at zero and never fires (`not_fires_zero`).
-/

namespace DownCounter

/-- The predicate holds once in every `n` cycles. -/
def OnceEvery (n : Nat) (P : Nat → Prop) : Prop :=
  ∃ t₀, t₀ < n ∧ ∀ t, P t ↔ t % n = t₀

theorem OnceEvery.exists_holds {n : Nat} {P : Nat → Prop} (h : OnceEvery n P) : ∃ t, P t := by
  obtain ⟨t₀, hlt, hiff⟩ := h
  exact ⟨t₀, (hiff t₀).mpr (Nat.mod_eq_of_lt hlt)⟩

/-- The value after one cycle. -/
def next (r v : Nat) : Nat := if v = 0 then r else v - 1

/-- The cycle `t` takes the counter from one to zero. -/
def Fires (r v t : Nat) : Prop := (next r)^[t] v = 1

@[simp] theorem next_zero (r : Nat) : next r 0 = r := rfl

@[simp] theorem next_succ (r v : Nat) : next r (v + 1) = v := rfl

theorem next_le {r v : Nat} (hv : v ≤ r) : next r v ≤ r := by
  cases v with
  | zero => exact Nat.le_refl r
  | succ v => exact Nat.le_of_succ_le hv

/-- The value after `t` cycles, by the place of `t` in the period. -/
theorem iterate_next {r v : Nat} (hv : v ≤ r) (t : Nat) :
    (next r)^[t] v =
      if t % (r + 1) ≤ v then v - t % (r + 1) else v + (r + 1) - t % (r + 1) := by
  induction t with
  | zero => simp
  | succ t ih =>
      have hlt : t % (r + 1) < r + 1 := Nat.mod_lt _ (Nat.succ_pos r)
      have hstep : (t + 1) % (r + 1) = if t % (r + 1) = r then 0 else t % (r + 1) + 1 := by
        rcases Nat.eq_zero_or_pos r with rfl | hr
        · simp [Nat.mod_one]
        · rw [Nat.add_mod_eq_ite, Nat.mod_eq_of_lt (a := 1) (by omega)]
          split_ifs <;> omega
      rw [Function.iterate_succ_apply', ih, hstep, next]
      split_ifs <;> omega

/-- **The period.**  A counter with a positive reload value fires at one place of
a period of `r + 1` cycles. -/
theorem fires_iff {r v : Nat} (hr : 0 < r) (hv : v ≤ r) (t : Nat) :
    Fires r v t ↔ t % (r + 1) = next r v := by
  have hlt : t % (r + 1) < r + 1 := Nat.mod_lt _ (Nat.succ_pos r)
  rw [Fires, iterate_next hv]
  cases v with
  | zero =>
      rw [next_zero]
      split <;> omega
  | succ v =>
      rw [next_succ]
      split <;> omega

theorem onceEvery_fires {r v : Nat} (hr : 0 < r) (hv : v ≤ r) :
    OnceEvery (r + 1) (Fires r v) :=
  ⟨next r v, Nat.lt_succ_of_le (next_le hv), fires_iff hr hv⟩

/-- With the reload value zero the counter stays at zero. -/
theorem not_fires_zero (t : Nat) : ¬ Fires 0 0 t := by
  have hfix : (next 0)^[t] 0 = 0 := Function.iterate_fixed (next_zero 0) t
  rw [Fires, hfix]
  exact Nat.zero_ne_one

end DownCounter
