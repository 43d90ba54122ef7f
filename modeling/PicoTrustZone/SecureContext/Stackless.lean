import PicoTrustZone.SecureContext.OnHeap

/-!
# Thread mode without a stack

The header promises that `SecureContext_Init` sets `PSP` to `NULL`, so that a
task must allocate and load a context before it calls the secure side.
`SecureContext_SaveContext` writes `securecontextNO_STACK` to both stack
registers.  The same two writes are commented out in `SecureContext_Init`.

So the promise depends on what the registers hold before.
`unlessLoaded_iff_of_run` says exactly when it is kept in a state of a run: if
the registers were null at the initialisation, or a context has been loaded or
saved since.  Over all runs the first condition is the only one
(`stackless_iff`).
-/

namespace SecureContext

variable {cfg : Config} {heap : Heap}

/-! ## Ghost state -/

/-- A state with the loaded context and the handles that were returned. -/
structure Tracked where
  state : State
  /-- The handle of the last load, if nothing was saved since. -/
  loaded : Option Word
  handles : List Word

/-- An event that loads or saves a context.  In thread mode both do nothing. -/
def Switches : Event → Prop
  | .load ipsr _ => ipsr ≠ 0
  | .save ipsr _ => ipsr ≠ 0
  | _ => False

instance : (e : Event) → Decidable (Switches e)
  | .load _ _ => inferInstanceAs (Decidable (_ ≠ _))
  | .save _ _ => inferInstanceAs (Decidable (_ ≠ _))
  | .init _ | .allocate _ _ _ _ | .free _ _ | .setPsp _ | .setControl _ | .write _ _ => isFalse id

/-- How an event changes the loaded context. -/
def trackLoaded (loaded : Option Word) : Event → Option Word
  | .load ipsr handle => if ipsr ≠ 0 then some handle else loaded
  | .save ipsr _ => if ipsr ≠ 0 then none else loaded
  | _ => loaded

/-- How an event changes the handles.  `NULL` is not one. -/
def trackHandles (handles : List Word) : Event → List Word
  | .allocate _ _ _ handle => if handle ≠ 0 then handle :: handles else handles
  | _ => handles

/-- The tracked state an event leads to. -/
def trackedNext (cfg : Config) (heap : Heap) (t : Tracked) (e : Event) : Option Tracked :=
  (next cfg heap t.state e).map fun s => ⟨s, trackLoaded t.loaded e, trackHandles t.handles e⟩

/-- One event, with the ghost state. -/
def TrackedStep (cfg : Config) (heap : Heap) (t : Tracked) (e : Event) (t' : Tracked) : Prop :=
  trackedNext cfg heap t e = some t'

/-! ## The rules of the run -/

/-- Thread code moves `PSP` while a context is loaded, and not before. -/
def MovesLoaded (t : Tracked) : Event → Prop
  | .setPsp _ => t.loaded ≠ none
  | _ => True

/-- After the initialisation contexts are allocated, loaded and saved from
handler mode, with handles that were returned. -/
def ContextCalls (t : Tracked) : Event → Prop
  | .init _ => False
  | .allocate ipsr _ _ _ => ipsr ≠ 0
  | .free _ _ => False
  | .load ipsr handle => ipsr ≠ 0 ∧ handle ∈ t.handles
  | .save ipsr handle => ipsr ≠ 0 ∧ handle ∈ t.handles
  | e => MovesLoaded t e

theorem ContextCalls.movesLoaded {t : Tracked} {e : Event} (h : ContextCalls t e) :
    MovesLoaded t e := by
  cases e with
  | setPsp v => exact h
  | _ => exact trivial

/-- A run of any calls, in which thread code keeps to its stack. -/
abbrev StackRun (cfg : Config) (heap : Heap) : Tracked → List Event → Tracked → Prop :=
  Transition.Run (Transition.Guarded MovesLoaded (TrackedStep cfg heap))

/-- A run of allocations, loads and saves. -/
abbrev ContextRun (cfg : Config) (heap : Heap) : Tracked → List Event → Tracked → Prop :=
  Transition.Run (Transition.Guarded ContextCalls (TrackedStep cfg heap))

theorem stackRun_of_contextRun {t t' : Tracked} {es : List Event}
    (h : ContextRun cfg heap t es t') : StackRun cfg heap t es t' :=
  h.mono fun _ _ _ hs => ⟨hs.1.movesLoaded, hs.2⟩

/-- `SecureContext_Init` has been called, and no context has been allocated. -/
def initialised (cfg : Config) (ipsr : Word) (s : State) : Tracked :=
  ⟨secureContextInit cfg ipsr s, none, []⟩

/-! ## The property -/

/-- Both stack registers are null. -/
def NoStack (s : State) : Prop := s.psp = securecontextNoStack ∧ s.psplim = securecontextNoStack

/-- Without a loaded context there is no stack. -/
def UnlessLoaded (t : Tracked) : Prop := t.loaded = none → NoStack t.state

/-- If thread mode uses `PSP`, it has no stack unless a context is loaded. -/
def Stackless (t : Tracked) : Prop := t.state.UsesPsp → UnlessLoaded t

/-! ## One step -/

/-- The stack registers change only when a context is switched or `PSP` is
moved. -/
theorem stack_of_next {s s' : State} {e : Event} (h : next cfg heap s e = some s')
    (hswitch : ¬ Switches e) (hmove : ∀ v, e ≠ .setPsp v) :
    s'.psp = s.psp ∧ s'.psplim = s.psplim := by
  cases e with
  | init ipsr =>
      cases h
      exact secureContextInit_stack cfg ipsr s
  | allocate ipsr size privileged handle =>
      rw [next] at h
      split at h
      · next ret s₁ hret =>
        split at h
        · cases h
          exact secureContextAllocateContext_stack hret
        · cases h
      · cases h
  | free ipsr handle => exact secureContextFreeContext_stack h
  | load ipsr handle =>
      cases h
      have hthread : ¬ ipsr ≠ 0 := hswitch
      rw [secureContextLoadContext, if_neg hthread]
      exact ⟨rfl, rfl⟩
  | save ipsr handle =>
      cases h
      have hthread : ¬ ipsr ≠ 0 := hswitch
      rw [secureContextSaveContext, if_neg hthread]
      exact ⟨rfl, rfl⟩
  | setPsp v => exact absurd rfl (hmove v)
  | setControl v =>
      cases h
      exact ⟨rfl, rfl⟩
  | write addr v =>
      cases h
      exact ⟨rfl, rfl⟩

theorem trackLoaded_of_not_switches {e : Event} (h : ¬ Switches e) (loaded : Option Word) :
    trackLoaded loaded e = loaded := by
  cases e with
  | load ipsr handle => exact if_neg h
  | save ipsr handle => exact if_neg h
  | _ => rfl

/-- An event that does not switch keeps the loaded context.  If there is none, it
keeps the stack registers. -/
theorem kept_of_not_switches {t t' : Tracked} {e : Event}
    (hs : Transition.Guarded MovesLoaded (TrackedStep cfg heap) t e t') (hswitch : ¬ Switches e) :
    t'.loaded = t.loaded ∧
      (t.loaded = none → t'.state.psp = t.state.psp ∧ t'.state.psplim = t.state.psplim) := by
  obtain ⟨hmoves, hstep⟩ := hs
  obtain ⟨s', hnext, rfl⟩ := Option.map_eq_some_iff.mp hstep
  refine ⟨trackLoaded_of_not_switches hswitch t.loaded, fun hnone => ?_⟩
  refine stack_of_next hnext hswitch fun v he => ?_
  rw [he] at hmoves
  exact hmoves hnone

/-- After a load there is a loaded context, and after a save there is no stack. -/
theorem unlessLoaded_of_switches {t t' : Tracked} {e : Event} (hstep : TrackedStep cfg heap t e t')
    (hswitch : Switches e) : UnlessLoaded t' := by
  obtain ⟨s', hnext, rfl⟩ := Option.map_eq_some_iff.mp hstep
  intro hnone
  cases e with
  | load ipsr handle =>
      have hsome : trackLoaded t.loaded (.load ipsr handle) = some handle := if_pos hswitch
      rw [hsome] at hnone
      cases hnone
  | save ipsr handle =>
      cases hnext
      exact secureContextSaveContext_stack hswitch cfg handle t.state
  | _ => exact hswitch.elim

theorem UnlessLoaded.step {t t' : Tracked} {e : Event} (h : UnlessLoaded t)
    (hs : Transition.Guarded MovesLoaded (TrackedStep cfg heap) t e t') : UnlessLoaded t' := by
  rcases Decidable.em (Switches e) with hswitch | hswitch
  · exact unlessLoaded_of_switches hs.2 hswitch
  · obtain ⟨hloaded, hstack⟩ := kept_of_not_switches hs hswitch
    intro hnone
    rw [hloaded] at hnone
    obtain ⟨hpsp, hlim⟩ := hstack hnone
    obtain ⟨hp, hl⟩ := h hnone
    exact ⟨hpsp.trans hp, hlim.trans hl⟩

/-! ## Runs -/

theorem UnlessLoaded.run {t t' : Tracked} {es : List Event} (h : UnlessLoaded t)
    (hr : StackRun cfg heap t es t') : UnlessLoaded t' :=
  hr.invariant (fun _ _ _ hi hs => hi.step hs) h

/-- A run that switches nothing keeps the stack registers. -/
theorem kept_of_run {t t' : Tracked} {es : List Event} (hr : StackRun cfg heap t es t')
    (hswitch : ¬ ∃ e ∈ es, Switches e) (hnone : t.loaded = none) :
    t'.loaded = none ∧ t'.state.psp = t.state.psp ∧ t'.state.psplim = t.state.psplim := by
  refine hr.invariant_of_mem (I := fun u =>
    u.loaded = none ∧ u.state.psp = t.state.psp ∧ u.state.psplim = t.state.psplim)
    (fun e he t₁ t₂ hi hs => ?_) ⟨hnone, rfl, rfl⟩
  obtain ⟨hn, hp, hl⟩ := hi
  obtain ⟨hloaded, hstack⟩ := kept_of_not_switches hs fun h => hswitch ⟨e, he, h⟩
  obtain ⟨hpsp, hlim⟩ := hstack hn
  exact ⟨hloaded.trans hn, hpsp.trans hp, hlim.trans hl⟩

/-- In a state of a run that starts without a loaded context, there is no stack
unless a context is loaded, exactly if there was none at the start or a context
has been loaded or saved. -/
theorem unlessLoaded_iff_of_run {t t' : Tracked} {es : List Event}
    (hr : StackRun cfg heap t es t') (hnone : t.loaded = none) :
    UnlessLoaded t' ↔ NoStack t.state ∨ ∃ e ∈ es, Switches e := by
  constructor
  · intro h
    rcases Decidable.em (∃ e ∈ es, Switches e) with hswitch | hswitch
    · exact .inr hswitch
    · obtain ⟨hn, hp, hl⟩ := kept_of_run hr hswitch hnone
      obtain ⟨hpsp, hlim⟩ := h hn
      exact .inl ⟨hp.symm.trans hpsp, hl.symm.trans hlim⟩
  · rintro (hstart | ⟨e, he, hswitch⟩)
    · exact UnlessLoaded.run (fun _ => hstart) hr
    · -- from the switch on it holds, whatever came before
      obtain ⟨pre, post, rfl⟩ := List.append_of_mem he
      obtain ⟨t₁, _, hpost⟩ := hr.split
      cases hpost with
      | cons hs hrest => exact (unlessLoaded_of_switches hs.2 hswitch).run hrest

/-- **No secure stack without a context.**  For every initial state, in every
run of `SecureContext_Init` and then allocations, loads and saves from handler
mode: thread mode has no secure stack while no context is loaded, if and only if
`PSP` and `PSPLIM` are null before the initialisation. -/
theorem stackless_iff (cfg : Config) (heap : Heap) (s : State) {ipsr : Word} (h : ipsr ≠ 0) :
    (∀ es t, ContextRun cfg heap (initialised cfg ipsr s) es t → Stackless t) ↔ NoStack s := by
  obtain ⟨hpsp, hlim⟩ := secureContextInit_stack cfg ipsr s
  constructor
  · intro hall
    obtain ⟨hp, hl⟩ := hall [] _ .nil (usesPsp_secureContextInit h cfg s) rfl
    exact ⟨hpsp.symm.trans hp, hlim.symm.trans hl⟩
  · intro hstart es t hr _
    refine (unlessLoaded_iff_of_run (stackRun_of_contextRun hr) rfl).mpr (.inl ?_)
    exact ⟨hpsp.trans hstart.1, hlim.trans hstart.2⟩

/-- A state with these values in the stack registers. -/
def State.withStack (psp psplim : Word) : State := ⟨fun _ => 0, psp, psplim, 0, 0⟩

/-- The secure heap of an image. -/
def imageHeap : Heap := secureHeap SecureHeap.imageLayout

theorem stackless_iff_null :
    (∀ es t, ContextRun freeRTOSConfig imageHeap
        (initialised freeRTOSConfig 11 (.withStack 0 0)) es t → Stackless t) ↔
      NoStack (.withStack 0 0) :=
  stackless_iff freeRTOSConfig imageHeap (.withStack 0 0) (by decide)

/-- If `PSP` holds an address when the context management is initialised, a task
that has allocated a context and not loaded it runs on that address, with no
stack limit. -/
theorem not_stackless :
    ¬ ∀ es t, ContextRun freeRTOSConfig imageHeap
      (initialised freeRTOSConfig 11 (.withStack 0x20001000 0)) es t → Stackless t := by
  intro hall
  have hplay : (trackedNext freeRTOSConfig imageHeap
      (initialised freeRTOSConfig 11 (.withStack 0x20001000 0))
      (.allocate 11 256 0 0x20000110)).map
        (fun t => (t.state.control, t.loaded, t.state.psp)) = some (2, none, 0x20001000) := by
    decide +kernel
  obtain ⟨t, hnext, hsummary⟩ := Option.map_eq_some_iff.mp hplay
  simp only [Prod.mk.injEq] at hsummary
  obtain ⟨hcontrol, hloaded, hpsp⟩ := hsummary
  have hstep : ContextRun freeRTOSConfig imageHeap
      (initialised freeRTOSConfig 11 (.withStack 0x20001000 0))
      [.allocate 11 256 0 0x20000110] t :=
    .single ⟨(by decide : (11 : Word) ≠ 0), hnext⟩
  have huses : t.state.UsesPsp := by
    rw [State.UsesPsp, hcontrol]
    decide
  have hnull := (hall _ t hstep huses hloaded).1
  rw [hpsp] at hnull
  exact absurd hnull (by decide)

end SecureContext
