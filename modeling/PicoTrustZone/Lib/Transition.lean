import Mathlib.Logic.Basic
import Mathlib.Tactic.Cases

/-!
# Labelled transition systems

A transition system is a relation `step : σ → ι → σ → Prop`.  The label says
what happened, results included, so a deterministic program and its
environment are one relation.  `Run step s ls s'` is a finite run.

Two rules carry the developments that use this module.  `Run.invariant` turns a
step lemma into a lemma about every run, and `Run.simulate` turns a step-wise
simulation into a simulation of runs over the same labels.  `Guarded` cuts a
system down to the steps an environment promises.
-/

namespace Transition

variable {σ τ ι : Type*}

/-- Finite runs, first step first. -/
inductive Run (step : σ → ι → σ → Prop) : σ → List ι → σ → Prop where
  | nil {s : σ} : Run step s [] s
  | cons {s s' s'' : σ} {l : ι} {ls : List ι} :
      step s l s' → Run step s' ls s'' → Run step s (l :: ls) s''

/-- The steps of a system that the environment allows in the state they start
from. -/
def Guarded (allowed : σ → ι → Prop) (step : σ → ι → σ → Prop) (s : σ) (l : ι) (s' : σ) : Prop :=
  allowed s l ∧ step s l s'

namespace Run

variable {step step' : σ → ι → σ → Prop}

theorem single {s s' : σ} {l : ι} (h : step s l s') : Run step s [l] s' := .cons h .nil

theorem append {s s' s'' : σ} {ls ls' : List ι}
    (h : Run step s ls s') (h' : Run step s' ls' s'') : Run step s (ls ++ ls') s'' := by
  induction h with
  | nil => exact h'
  | cons hs _ ih => exact .cons hs (ih h')

/-- A run over `ls ++ ls'` passes through a state in the middle. -/
theorem split {s s'' : σ} {ls ls' : List ι} (h : Run step s (ls ++ ls') s'') :
    ∃ s', Run step s ls s' ∧ Run step s' ls' s'' := by
  induction ls generalizing s with
  | nil => exact ⟨s, .nil, h⟩
  | cons l ls ih =>
      cases h with
      | cons hs hr =>
          obtain ⟨s', h1, h2⟩ := ih hr
          exact ⟨s', .cons hs h1, h2⟩

theorem mono {s s' : σ} {ls : List ι} (hle : ∀ s l s', step s l s' → step' s l s')
    (h : Run step s ls s') : Run step' s ls s' := by
  induction h with
  | nil => exact .nil
  | cons hs _ ih => exact .cons (hle _ _ _ hs) ih

/-- What one step preserves, a run preserves. -/
theorem invariant {I : σ → Prop} (hstep : ∀ s l s', I s → step s l s' → I s')
    {s s' : σ} {ls : List ι} (h : Run step s ls s') (hi : I s) : I s' := by
  induction h with
  | nil => exact hi
  | cons hs _ ih => exact ih (hstep _ _ _ hi hs)

/-- The same, where the step lemma may use that the label occurs in the run. -/
theorem invariant_of_mem {I : σ → Prop} {s s' : σ} {ls : List ι}
    (h : Run step s ls s') (hstep : ∀ l ∈ ls, ∀ s s', I s → step s l s' → I s') (hi : I s) :
    I s' := by
  induction h with
  | nil => exact hi
  | cons hs _ ih =>
      exact ih (fun l hl => hstep l (List.mem_cons_of_mem _ hl))
        (hstep _ (List.mem_cons_self ..) _ _ hi hs)

/-- A step-wise simulation relates whole runs over the same labels. -/
theorem simulate {abstract : τ → ι → τ → Prop} {R : σ → τ → Prop}
    (hstep : ∀ s t l s', R s t → step s l s' → ∃ t', abstract t l t' ∧ R s' t')
    {s s' : σ} {ls : List ι} (h : Run step s ls s') {t : τ} (hR : R s t) :
    ∃ t', Run abstract t ls t' ∧ R s' t' := by
  induction h generalizing t with
  | nil => exact ⟨t, .nil, hR⟩
  | cons hs _ ih =>
      obtain ⟨t', ht, hR'⟩ := hstep _ _ _ _ hR hs
      obtain ⟨t'', hr, hR''⟩ := ih hR'
      exact ⟨t'', .cons ht hr, hR''⟩

end Run

/-! ## Computed runs -/

/-- Follow a list of labels with a computable step function. -/
def play (next : σ → ι → Option σ) : σ → List ι → Option σ
  | s, [] => some s
  | s, l :: ls =>
      match next s l with
      | some s' => play next s' ls
      | none => none

/-- A computed run is a run. -/
theorem Run.of_play {step : σ → ι → σ → Prop} {next : σ → ι → Option σ}
    (hnext : ∀ s l s', next s l = some s' → step s l s') :
    ∀ {s s' : σ} {ls : List ι}, play next s ls = some s' → Run step s ls s'
  | s, s', [], h => by
      cases h
      exact .nil
  | s, s', l :: ls, h => by
      rw [play] at h
      cases hs : next s l with
      | none => rw [hs] at h; cases h
      | some s₁ =>
          rw [hs] at h
          exact .cons (hnext s l s₁ hs) (Run.of_play hnext h)

/-- A run of a function is computed. -/
theorem Run.play_eq {step : σ → ι → σ → Prop} (next : σ → ι → Option σ)
    (hnext : ∀ s l s', step s l s' → next s l = some s') {s s' : σ} {ls : List ι}
    (h : Run step s ls s') : play next s ls = some s' := by
  induction h with
  | nil => rfl
  | cons hs _ ih =>
      rw [play, hnext _ _ _ hs]
      exact ih

section

variable (allowed : σ → ι → Prop) [∀ s l, Decidable (allowed s l)]

/-- A step function cut down to the allowed steps. -/
def guardedNext (next : σ → ι → Option σ) (s : σ) (l : ι) : Option σ :=
  if allowed s l then next s l else none

variable {allowed}

theorem guarded_of_guardedNext {step : σ → ι → σ → Prop} {next : σ → ι → Option σ}
    (hnext : ∀ s l s', next s l = some s' → step s l s') (s : σ) (l : ι) (s' : σ)
    (h : guardedNext allowed next s l = some s') : Guarded allowed step s l s' := by
  rw [guardedNext] at h
  split at h
  · next hallowed => exact ⟨hallowed, hnext s l s' h⟩
  · cases h

/-- A computed run of allowed steps is a run of the guarded system. -/
theorem Run.of_play_guarded {step : σ → ι → σ → Prop} {next : σ → ι → Option σ}
    (hnext : ∀ s l s', next s l = some s' → step s l s') {s s' : σ} {ls : List ι}
    (h : play (guardedNext allowed next) s ls = some s') : Run (Guarded allowed step) s ls s' :=
  Run.of_play (guarded_of_guardedNext hnext) h

end

end Transition
