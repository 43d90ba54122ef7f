import PicoTrustZone.Lib.Transition
import Mathlib.Data.List.Perm.Basic

/-!
# Nested preemption

On one core a call that is preempted stands still until the calls that preempt
it have returned.  So calls nest, and an interleaving is a tree: between two
accesses of a call other calls run from start to end, and each of them may be
preempted in turn.

`Machine` is a program cut into its accesses to the shared state, `Nested` is a
nested execution and `Sequence` is a run of whole calls.  `Serial` says that a
nested execution of a call has the results and the final state of a sequence of
the same calls.  `Serial.preempt` is the rule before a call takes effect.

While a call has taken effect in part, the calls that preempt it see a state
that no sequence produces.  The rules for this phase take a function `f` from
the states a sequence produces to the states that are seen, and an invariant
`I` of the former.  A call that runs at `f u` has the effect it has at `u`, or
it is dropped: it does nothing, and it can move to a place in the sequence where
it does nothing either (`Sequence.hide`).  `Resumed` collects what ran while
the call was suspended, and the call itself goes in front of it
(`Serial.of_resumed_first`) or behind it (`Serial.of_resumed_last`).
-/

namespace Preempt

open scoped List

variable {σ ι κ ρ : Type*}

/-- A program that accesses the shared state step by step.  A call starts at a
control point or returns at once, and `none` is a fault. -/
structure Machine (σ ι κ ρ : Type*) where
  entry : ι → κ ⊕ ρ
  access : κ → σ → Option ((κ ⊕ ρ) × σ)

namespace Machine

/-- A call that is not preempted, and its outcome. -/
inductive Alone (M : Machine σ ι κ ρ) : κ ⊕ ρ → σ → Option (ρ × σ) → Prop where
  | done {r : ρ} {s : σ} : Alone M (.inr r) s (some (r, s))
  | fault {k : κ} {s : σ} : M.access k s = none → Alone M (.inl k) s none
  | step {k : κ} {s s' : σ} {p : κ ⊕ ρ} {o : Option (ρ × σ)} :
      M.access k s = some (p, s') → Alone M p s' o → Alone M (.inl k) s o

/-- A call with the calls that preempt it, and its outcome.  The list holds the
preempting calls with their results, in the order in which they return.  A step
is taken only where `ok` holds. -/
inductive Nested (M : Machine σ ι κ ρ) (ok : κ → σ → Prop) :
    κ ⊕ ρ → σ → List (ι × ρ) → Option (ρ × σ) → Prop where
  | done {r : ρ} {s : σ} : Nested M ok (.inr r) s [] (some (r, s))
  | fault {k : κ} {s : σ} : ok k s → M.access k s = none → Nested M ok (.inl k) s [] none
  | step {k : κ} {s s' : σ} {p : κ ⊕ ρ} {cs : List (ι × ρ)} {o : Option (ρ × σ)} :
      ok k s → M.access k s = some (p, s') → Nested M ok p s' cs o → Nested M ok (.inl k) s cs o
  | preempt {k : κ} {c : ι} {r : ρ} {s s' : σ} {cs cs' : List (ι × ρ)} {o : Option (ρ × σ)} :
      Nested M ok (M.entry c) s cs (some (r, s')) → Nested M ok (.inl k) s' cs' o →
      Nested M ok (.inl k) s (cs ++ (c, r) :: cs') o
  | preemptFault {k : κ} {c : ι} {s : σ} {cs : List (ι × ρ)} :
      Nested M ok (M.entry c) s cs none → Nested M ok (.inl k) s cs none

end Machine

/-! ## Sequences of calls -/

section

variable (exec : ι → σ → Option (ρ × σ))

/-- A run of whole calls with their results. -/
abbrev Sequence : σ → List (ι × ρ) → σ → Prop :=
  Transition.Run fun s l s' => exec l.1 s = some (l.2, s')

/-- The outcome of a call and the results of the calls that preempt it are those
of a sequence of the same calls. -/
def Serial (c : ι) (s : σ) (cs : List (ι × ρ)) (o : Option (ρ × σ)) : Prop :=
  ∃ r s' order, o = some (r, s') ∧ order ~ (c, r) :: cs ∧ Sequence exec s order s'

end

variable {exec : ι → σ → Option (ρ × σ)}

theorem not_serial_none {c : ι} {s : σ} {cs : List (ι × ρ)} : ¬ Serial exec c s cs none := by
  rintro ⟨_, _, _, ho, _⟩
  cases ho

/-- A call that is not preempted. -/
theorem Serial.of_exec {c : ι} {s s' : σ} {r : ρ} (h : exec c s = some (r, s')) :
    Serial exec c s [] (some (r, s')) :=
  ⟨r, s', [(c, r)], rfl, .refl _, .single h⟩

/-- A call that is preempted before it takes effect. -/
theorem Serial.preempt {c c' : ι} {s s' : σ} {r : ρ} {cs cs' : List (ι × ρ)}
    {o : Option (ρ × σ)} (h : Serial exec c' s cs (some (r, s'))) (h' : Serial exec c s' cs' o) :
    Serial exec c s (cs ++ (c', r) :: cs') o := by
  obtain ⟨r₁, s₁, order, ho, hperm, hrun⟩ := h
  obtain ⟨rfl, rfl⟩ := Prod.mk.inj (Option.some.inj ho)
  obtain ⟨r₂, s₂, order', rfl, hperm', hrun'⟩ := h'
  refine ⟨r₂, s₂, order ++ order', rfl, ?_, hrun.append hrun'⟩
  calc order ++ order' ~ ((c', r) :: cs) ++ (c, r₂) :: cs' := hperm.append hperm'
    _ ~ (c, r₂) :: ((c', r) :: cs ++ cs') := List.perm_middle
    _ ~ (c, r₂) :: (cs ++ (c', r) :: cs') := List.perm_middle.symm.cons _

/-- Calls that do nothing. -/
theorem Sequence.of_noop {s : σ} : ∀ {ls : List (ι × ρ)},
    (∀ l ∈ ls, exec l.1 s = some (l.2, s)) → Sequence exec s ls s
  | [], _ => .nil
  | l :: _, h =>
      .cons (h l (List.mem_cons_self ..)) (of_noop fun l hl => h l (List.mem_cons_of_mem _ hl))

/-! ## Calls that run while another one has taken effect in part -/

section

variable {I : σ → Prop} {f : σ → σ} {Dropped : ι × ρ → Prop}

/-- What calls do at `f u`: nothing, or what they do at `u`. -/
def Commutes (exec : ι → σ → Option (ρ × σ)) (I : σ → Prop) (f : σ → σ)
    (Dropped : ι × ρ → Prop) : Prop :=
  ∀ (u : σ) (l : ι × ρ) (s' : σ), I u → exec l.1 (f u) = some (l.2, s') →
    (Dropped l ∧ s' = f u) ∨ ∃ u', exec l.1 u = some (l.2, u') ∧ I u' ∧ s' = f u'

/-- A sequence at `f u` is a sequence at `u`, up to dropped calls. -/
theorem Sequence.hide (hcomm : Commutes exec I f Dropped) {s s' : σ} {ls : List (ι × ρ)}
    (h : Sequence exec s ls s') : ∀ {u : σ}, s = f u → I u →
    ∃ dropped kept u', dropped ++ kept ~ ls ∧ (∀ l ∈ dropped, Dropped l) ∧
      Sequence exec u kept u' ∧ I u' ∧ s' = f u' := by
  induction h with
  | nil => exact fun hs hI => ⟨[], [], _, .refl _, fun _ hl => (nomatch hl), .nil, hI, hs⟩
  | @cons s s₁ s' l ls hl _ ih =>
      intro u hs hI
      subst hs
      rcases hcomm u l s₁ hI hl with ⟨hd, hs₁⟩ | ⟨u₁, hu₁, hI₁, hs₁⟩
      · obtain ⟨dropped, kept, u', hperm, hdrop, hrun, hI', hs'⟩ := ih hs₁ hI
        refine ⟨l :: dropped, kept, u', hperm.cons l, ?_, hrun, hI', hs'⟩
        intro x hx
        rcases List.mem_cons.mp hx with rfl | hx
        · exact hd
        · exact hdrop x hx
      · obtain ⟨dropped, kept, u', hperm, hdrop, hrun, hI', hs'⟩ := ih hs₁ hI₁
        exact ⟨dropped, l :: kept, u', List.perm_middle.trans (hperm.cons l), hdrop,
          .cons hu₁ hrun, hI', hs'⟩

/-- What ran while a call was suspended at `f u`, up to its return with `r`.
Its own effect makes `finish u'` of the state `u'` that the others reach. -/
def Resumed (exec : ι → σ → Option (ρ × σ)) (I : σ → Prop) (Dropped : ι × ρ → Prop) (r : ρ)
    (finish : σ → σ) (u : σ) (cs : List (ι × ρ)) (o : Option (ρ × σ)) : Prop :=
  ∃ dropped kept u', dropped ++ kept ~ cs ∧ (∀ l ∈ dropped, Dropped l) ∧
    Sequence exec u kept u' ∧ I u' ∧ o = some (r, finish u')

variable {r : ρ} {finish : σ → σ}

theorem Resumed.done {u : σ} (hI : I u) :
    Resumed exec I Dropped r finish u [] (some (r, finish u)) :=
  ⟨[], [], u, .refl _, fun _ hl => (nomatch hl), .nil, hI, rfl⟩

/-- Another call preempts the suspended one. -/
theorem Resumed.preempt (hcomm : Commutes exec I f Dropped) {u s' : σ} {c : ι} {r' : ρ}
    {cs cs' : List (ι × ρ)} {o : Option (ρ × σ)} (hI : I u)
    (h : Serial exec c (f u) cs (some (r', s')))
    (h' : ∀ u', I u' → s' = f u' → Resumed exec I Dropped r finish u' cs' o) :
    Resumed exec I Dropped r finish u (cs ++ (c, r') :: cs') o := by
  obtain ⟨r₁, s₁, order, ho, hperm, hrun⟩ := h
  obtain ⟨rfl, rfl⟩ := Prod.mk.inj (Option.some.inj ho)
  obtain ⟨dropped, kept, u₁, hsplit, hdrop, hrun₁, hI₁, hs₁⟩ := hrun.hide hcomm rfl hI
  obtain ⟨dropped', kept', u₂, hsplit', hdrop', hrun₂, hI₂, ho₂⟩ := h' u₁ hI₁ hs₁
  refine ⟨dropped ++ dropped', kept ++ kept', u₂, ?_, ?_, hrun₁.append hrun₂, hI₂, ho₂⟩
  · calc dropped ++ dropped' ++ (kept ++ kept') ~ dropped ++ kept ++ (dropped' ++ kept') := by
          simp only [List.append_assoc]
          refine List.Perm.append_left _ ?_
          rw [← List.append_assoc, ← List.append_assoc]
          exact List.perm_append_comm.append_right _
      _ ~ ((c, r') :: cs) ++ cs' := (hsplit.trans hperm).append hsplit'
      _ ~ cs ++ (c, r') :: cs' := List.perm_middle.symm
  · intro l hl
    rcases List.mem_append.mp hl with hl | hl
    · exact hdrop l hl
    · exact hdrop' l hl

/-- The call goes in front of what ran while it was suspended.  The dropped
calls go in front of it. -/
theorem Serial.of_resumed_first {c : ι} {s u : σ} {cs : List (ι × ρ)} {o : Option (ρ × σ)}
    (hcall : exec c s = some (r, u)) (hdrop : ∀ l, Dropped l → exec l.1 s = some (l.2, s))
    (h : Resumed exec I Dropped r id u cs o) : Serial exec c s cs o := by
  obtain ⟨dropped, kept, u', hperm, hd, hrun, _, ho⟩ := h
  refine ⟨r, u', dropped ++ (c, r) :: kept, ho, List.perm_middle.trans (hperm.cons _), ?_⟩
  exact (Sequence.of_noop fun l hl => hdrop l (hd l hl)).append (.cons hcall hrun)

/-- The call goes behind what ran while it was suspended.  The dropped calls go
behind it. -/
theorem Serial.of_resumed_last {c : ι} {s : σ} {cs : List (ι × ρ)} {o : Option (ρ × σ)}
    (hcall : ∀ u, I u → exec c u = some (r, finish u))
    (hdrop : ∀ u, I u → ∀ l, Dropped l → exec l.1 (finish u) = some (l.2, finish u))
    (h : Resumed exec I Dropped r finish s cs o) : Serial exec c s cs o := by
  obtain ⟨dropped, kept, u', hperm, hd, hrun, hI, ho⟩ := h
  refine ⟨r, finish u', kept ++ (c, r) :: dropped, ho, ?_, ?_⟩
  · exact List.perm_middle.trans ((List.perm_append_comm.trans hperm).cons _)
  · exact hrun.append (.cons (hcall u' hI) (Sequence.of_noop fun l hl => hdrop u' hI l (hd l hl)))

end

end Preempt
