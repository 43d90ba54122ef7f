import Mathlib.Data.List.Basic
import Mathlib.Tactic.Cases

/-!
# Noninterference

A view of a transition system says what an observer sees of a step: nothing, or
an input together with the output it got.  `Observed` is a finite run with what
is seen of it.  The environment of the system chooses the inputs.

Two states that differ only in what the observer must not learn are related by
an `Unwinding`: a step that is not seen stays inside the relation, and steps
with equal inputs have equal outputs and stay inside it.  Then two runs with the
same inputs have the same outputs (`Unwinding.observed_eq`), whatever happens in
them unseen and however often.
-/

namespace Noninterference

variable {σ ι α β : Type*}

/-- A run with the inputs and outputs that are seen of it. -/
inductive Observed (step : σ → ι → σ → Prop) (view : σ → ι → σ → Option (α × β)) :
    σ → List (α × β) → σ → Prop where
  | nil {s : σ} : Observed step view s [] s
  | silent {s s' s'' : σ} {l : ι} {obs : List (α × β)} :
      step s l s' → view s l s' = none → Observed step view s' obs s'' →
      Observed step view s obs s''
  | visible {s s' s'' : σ} {l : ι} {o : α × β} {obs : List (α × β)} :
      step s l s' → view s l s' = some o → Observed step view s' obs s'' →
      Observed step view s (o :: obs) s''

/-- A relation between states that differ only in what is not to be seen. -/
structure Unwinding (step : σ → ι → σ → Prop) (view : σ → ι → σ → Option (α × β))
    (R : σ → σ → Prop) : Prop where
  symm : ∀ {s t}, R s t → R t s
  silent : ∀ {s t s' l}, R s t → step s l s' → view s l s' = none → R s' t
  visible : ∀ {s t s' t' l m a b c}, R s t → step s l s' → step t m t' →
    view s l s' = some (a, b) → view t m t' = some (a, c) → b = c ∧ R s' t'

variable {step : σ → ι → σ → Prop} {view : σ → ι → σ → Option (α × β)}

namespace Unwinding

variable {R : σ → σ → Prop}

/-- The steps before the first one that is seen stay inside the relation. -/
theorem next_visible (hU : Unwinding step view R) {s t t' : σ} {o : α × β} {obs : List (α × β)}
    (h : Observed step view t (o :: obs) t') (hR : R s t) :
    ∃ t₁ l t₂, R s t₁ ∧ step t₁ l t₂ ∧ view t₁ l t₂ = some o ∧ Observed step view t₂ obs t' := by
  generalize hall : o :: obs = all at h
  induction h with
  | nil => cases hall
  | silent hs hv _ ih => exact ih (hU.symm (hU.silent (hU.symm hR) hs hv)) hall
  | visible hs hv hrest _ =>
      cases hall
      exact ⟨_, _, _, hR, hs, hv, hrest⟩

/-- A run in which nothing is seen stays inside the relation. -/
theorem all_silent (hU : Unwinding step view R) {s t t' : σ} (h : Observed step view t [] t')
    (hR : R s t) : R s t' := by
  generalize hall : ([] : List (α × β)) = all at h
  induction h with
  | nil => exact hR
  | silent hs hv _ ih => exact ih (hU.symm (hU.silent (hU.symm hR) hs hv)) hall
  | visible _ _ _ _ => cases hall

/-- **Unwinding.**  Runs from related states with the same inputs have the same
outputs, and end in related states. -/
theorem observed_eq (hU : Unwinding step view R) {s s' t t' : σ} {obs obs' : List (α × β)}
    (h : Observed step view s obs s') (h' : Observed step view t obs' t') (hR : R s t)
    (hin : obs.map Prod.fst = obs'.map Prod.fst) : obs = obs' ∧ R s' t' := by
  induction h generalizing t obs' with
  | nil =>
      cases obs' with
      | nil => exact ⟨rfl, hU.all_silent h' hR⟩
      | cons o obs' => cases hin
  | silent hs hv _ ih => exact ih h' (hU.silent hR hs hv) hin
  | @visible s s₁ s' l o obs hs hv _ ih =>
      cases obs' with
      | nil => cases hin
      | cons o' obs' =>
          obtain ⟨a, b⟩ := o
          obtain ⟨a', b'⟩ := o'
          obtain ⟨rfl, htail⟩ := List.cons.inj hin
          obtain ⟨t₁, m, t₂, hR', ht, hv', hrest⟩ := hU.next_visible h' hR
          obtain ⟨rfl, hR''⟩ := hU.visible hR' hs ht hv hv'
          obtain ⟨rfl, hend⟩ := ih hrest hR'' htail
          exact ⟨rfl, hend⟩

end Unwinding

/-! ## Computed observations -/

/-- Follow a list of labels with a computable step function, and collect what is
seen. -/
def observe (next : σ → ι → Option σ) (view : σ → ι → σ → Option (α × β)) :
    σ → List ι → Option (List (α × β) × σ)
  | s, [] => some ([], s)
  | s, l :: ls =>
      match next s l with
      | none => none
      | some s' => (observe next view s' ls).map fun r => ((view s l s').toList ++ r.1, r.2)

/-- A computed observation is one. -/
theorem Observed.of_observe {next : σ → ι → Option σ}
    (hnext : ∀ s l s', next s l = some s' → step s l s') :
    ∀ {s : σ} {ls : List ι} {r : List (α × β) × σ}, observe next view s ls = some r →
      Observed step view s r.1 r.2
  | s, [], r, h => by
      cases h
      exact .nil
  | s, l :: ls, r, h => by
      rw [observe] at h
      cases hs : next s l with
      | none => rw [hs] at h; cases h
      | some s' =>
          rw [hs] at h
          obtain ⟨q, hq, rfl⟩ := Option.map_eq_some_iff.mp h
          have hrest := Observed.of_observe hnext hq
          cases hv : view s l s' with
          | none => exact .silent (hnext s l s' hs) hv hrest
          | some o => exact .visible (hnext s l s' hs) hv hrest

end Noninterference
