import PicoTrustZone.Lib.Transition
import Mathlib.Logic.Function.Basic

/-!
# Threads with registers of their own

A machine that has a register file for each thread and runs one thread at a time.  The
registers of a thread change in its own steps, when it begins, and in no other step: a
switch to another thread moves nothing.  A program that keeps one register file and
saves and restores it implements this machine.
-/

namespace Multiplex

open Transition

variable {ι ρ : Type*}

/-- The register files, and the thread that runs. -/
@[ext] structure Machine (ι ρ : Type*) where
  current : Option ι
  registers : ι → Option ρ

/-- What happens. -/
inductive Action (ι ρ : Type*) where
  | spawn (i : ι) (r : ρ)
  /-- The first thread begins. -/
  | begin (i : ι) (R : ρ → ρ → Prop)
  /-- The thread that runs takes a step. -/
  | run (R : ρ → ρ → Prop)
  | switch (i : ι)
  | retire (i : ι)
  /-- Nothing happens to the registers. -/
  | idle

/-- An action that selects the thread, makes it or ends it. -/
def Action.Concerns (i : ι) : Action ι ρ → Prop
  | .spawn j _ | .begin j _ | .switch j | .retire j => j = i
  | .run _ | .idle => False

/-- An action that leaves a register file that fulfils `P` so. -/
def Action.Preserves (P : ρ → Prop) : Action ι ρ → Prop
  | .spawn _ r => P r
  | .begin _ R | .run R => ∀ r r', P r → R r r' → P r'
  | .switch _ | .retire _ | .idle => True

namespace Machine

variable [DecidableEq ι]

/-- Give a thread registers. -/
def set (M : Machine ι ρ) (i : ι) (r : Option ρ) : Machine ι ρ :=
  { M with registers := Function.update M.registers i r }

/-- One action. -/
inductive Step : Machine ι ρ → Action ι ρ → Machine ι ρ → Prop where
  | spawn {M : Machine ι ρ} {i : ι} {r : ρ} : M.registers i = none →
      Step M (.spawn i r) (M.set i (some r))
  | begin {M : Machine ι ρ} {i : ι} {r r' : ρ} {R : ρ → ρ → Prop} : M.current = none →
      M.registers i = some r → R r r' →
      Step M (.begin i R) { M.set i (some r') with current := some i }
  | run {M : Machine ι ρ} {i : ι} {r r' : ρ} {R : ρ → ρ → Prop} : M.current = some i →
      M.registers i = some r → R r r' → Step M (.run R) (M.set i (some r'))
  | switch {M : Machine ι ρ} {i j : ι} {r : ρ} : M.current = some j → M.registers i = some r →
      Step M (.switch i) { M with current := some i }
  | retire {M : Machine ι ρ} {i : ι} {r : ρ} : M.current ≠ some i → M.registers i = some r →
      Step M (.retire i) (M.set i none)
  | idle {M : Machine ι ρ} : Step M .idle M

variable {M M' : Machine ι ρ} {a : Action ι ρ} {as : List (Action ι ρ)} {i : ι}

/-- A thread that does not run is left alone in one step. -/
theorem Step.suspended (h : M.Step a M') (hi : M.current ≠ some i) (ha : ¬ a.Concerns i) :
    M'.current ≠ some i ∧ M'.registers i = M.registers i := by
  have hset : ∀ {j : ι} {r : Option ρ}, j ≠ i → (M.set j r).registers i = M.registers i :=
    fun hne => Function.update_of_ne (fun he => hne he.symm) ..
  cases h with
  | spawn _ => exact ⟨hi, hset ha⟩
  | begin _ _ _ => exact ⟨fun he => ha (Option.some_inj.mp he), hset ha⟩
  | run hc _ _ => exact ⟨hi, hset fun he => hi (he ▸ hc)⟩
  | switch _ _ => exact ⟨fun he => ha (Option.some_inj.mp he), rfl⟩
  | retire _ _ => exact ⟨hi, hset ha⟩
  | idle => exact ⟨hi, rfl⟩

/-- And in a run. -/
theorem suspended_of_run (h : Run Step M as M') (hi : M.current ≠ some i)
    (has : ∀ a ∈ as, ¬ a.Concerns i) :
    M'.current ≠ some i ∧ M'.registers i = M.registers i :=
  h.invariant_of_mem
    (I := fun N => N.current ≠ some i ∧ N.registers i = M.registers i)
    (fun a ha _ _ hN hs =>
      ⟨(hs.suspended hN.1 (has a ha)).1, (hs.suspended hN.1 (has a ha)).2.trans hN.2⟩)
    ⟨hi, rfl⟩

/-- What holds of all registers. -/
def All (P : ρ → Prop) (M : Machine ι ρ) : Prop := ∀ i r, M.registers i = some r → P r

/-- It holds after a step that preserves it. -/
theorem Step.all {P : ρ → Prop} (h : M.Step a M') (ha : a.Preserves P) (hM : M.All P) :
    M'.All P := by
  have hset : ∀ {j : ι} {r : Option ρ}, (∀ r', r = some r' → P r') → (M.set j r).All P := by
    intro j r hr k r' hk
    rcases Decidable.em (k = j) with rfl | hne
    · have heq : (M.set k r).registers k = r := Function.update_self ..
      exact hr r' (heq.symm.trans hk)
    · have heq : (M.set j r).registers k = M.registers k := Function.update_of_ne hne ..
      exact hM k r' (heq.symm.trans hk)
  cases h with
  | spawn _ =>
      refine hset fun r' hr' => ?_
      cases hr'
      exact ha
  | begin _ hr hR =>
      refine hset fun r' hr' => ?_
      cases hr'
      exact ha _ _ (hM _ _ hr) hR
  | run _ hr hR =>
      refine hset fun r' hr' => ?_
      cases hr'
      exact ha _ _ (hM _ _ hr) hR
  | switch _ _ => exact hM
  | retire _ _ => exact hset nofun
  | idle => exact hM

/-- And after a run. -/
theorem all_of_run {P : ρ → Prop} (h : Run Step M as M') (has : ∀ a ∈ as, a.Preserves P)
    (hM : M.All P) : M'.All P :=
  h.invariant_of_mem (I := All P) (fun a ha _ _ hN hs => hs.all (has a ha) hN) hM

/-- What is known of the machine after a thread is selected. -/
theorem Step.switch_spec (h : M.Step (.switch i) M') :
    M'.current = some i ∧ M'.registers i = M.registers i := by
  cases h with
  | switch _ _ => exact ⟨rfl, rfl⟩

theorem Step.begin_spec {R : ρ → ρ → Prop} (h : M.Step (.begin i R) M') :
    M'.current = some i ∧
      ∃ r r', M.registers i = some r ∧ R r r' ∧ M'.registers i = some r' := by
  cases h with
  | begin _ hr hR => exact ⟨rfl, _, _, hr, hR, Function.update_self ..⟩

/-- A thread keeps the registers that it was made with. -/
theorem spawn_of_run {M₁ M₂ : Machine ι ρ} {r : ρ} (hspawn : M.Step (.spawn i r) M₁)
    (hi : M.current ≠ some i) (h : Run Step M₁ as M₂) (has : ∀ a ∈ as, ¬ a.Concerns i) :
    M₂.current ≠ some i ∧ M₂.registers i = some r := by
  cases hspawn with
  | spawn _ =>
      obtain ⟨hc, heq⟩ := suspended_of_run h hi has
      exact ⟨hc, heq.trans (Function.update_self ..)⟩

end Machine

end Multiplex
