import PicoTrustZone.Context.Tracked

/-!
# The stack of a freed context

While a slot is inactive the first word of its stack is a link of the free
list, so no thread may run on that stack.  `TZ_StoreContext_S` and
`TZ_InitContextSystem_S` take care of this: they install the empty default
stack when a context goes away.  `TZ_FreeModuleContext_S` does not look at the
registers.  If it frees the loaded context, `PSP` and `PSPLIM` stay on the
stack of a slot that is now inactive.

This is the only way.  In every run that never frees the loaded context, the
window between `PSPLIM` and `PSP` is empty or lies in the stack of an allocated
slot (`stackInUse_of_run`).  A run that does free it is one step of the thread
away from a window inside an inactive slot (`freesLoaded_exposes`).
-/

namespace TzContext

variable {cfg : Config}

/-! ## The rules of the run -/

/-- Handler-mode calls, and thread code that writes above `PSPLIM` only: what it
pushes below `PSP`, and the frames of the loaded stack. -/
def Thread (cfg : Config) (t : Tracked) : Event → Prop
  | .write addr _ => t.state.psplim.toNat ≤ addr ∧
      (addr + 4 ≤ t.state.psp.toNat ∨ ∃ k ∈ t.loaded, addr + 4 ≤ cfg.slotTop k)
  | e => HandlerCalls cfg t e

instance (cfg : Config) (t : Tracked) : (e : Event) → Decidable (Thread cfg t e)
  | .call ipsr entry ret => inferInstanceAs (Decidable (HandlerCalls cfg t (.call ipsr entry ret)))
  | .setPsp v => inferInstanceAs (Decidable (HandlerCalls cfg t (.setPsp v)))
  | .setControl v => inferInstanceAs (Decidable (HandlerCalls cfg t (.setControl v)))
  | .write _ _ => inferInstanceAs (Decidable (_ ∧ (_ ∨ ∃ k ∈ t.loaded, _)))

/-- A call that frees the context whose stack is installed. -/
def FreesLoaded (cfg : Config) (t : Tracked) : Event → Prop
  | .call _ (.free id) _ => t.state.Live cfg id ∧ t.loaded = some (id - 1).toNat
  | _ => False

instance (cfg : Config) (t : Tracked) : (e : Event) → Decidable (FreesLoaded cfg t e)
  | .call _ (.free _) _ => inferInstanceAs (Decidable (_ ∧ _))
  | .call _ .init _ | .call _ (.alloc _) _ | .call _ (.load _) _ | .call _ (.store _) _ =>
      isFalse id
  | .setPsp _ | .setControl _ | .write _ _ => isFalse id

/-- Thread code and calls that never free the loaded context. -/
def KeepsLoaded (cfg : Config) (t : Tracked) (e : Event) : Prop :=
  Thread cfg t e ∧ ¬ FreesLoaded cfg t e

instance (cfg : Config) (t : Tracked) (e : Event) : Decidable (KeepsLoaded cfg t e) :=
  inferInstanceAs (Decidable (_ ∧ _))

/-- A run of handler-mode calls and thread code. -/
abbrev ThreadRun (cfg : Config) : Tracked → List Event → Tracked → Prop :=
  Transition.Run (Transition.Guarded (Thread cfg) (TrackedStep cfg))

/-- A run that never frees the loaded context. -/
abbrev KeepsLoadedRun (cfg : Config) : Tracked → List Event → Tracked → Prop :=
  Transition.Run (Transition.Guarded (KeepsLoaded cfg) (TrackedStep cfg))

theorem Thread.handlerCalls {t : Tracked} {e : Event} (h : Thread cfg t e) :
    HandlerCalls cfg t e := by
  cases e with
  | call _ _ _ => exact h
  | setPsp _ => exact h
  | setControl _ => exact trivial
  | write _ _ => exact trivial

/-! ## The property -/

/-- The window `[PSPLIM, PSP)` is empty or inside the stack of an allocated
slot. -/
def StackInUse (cfg : Config) (s : State) : Prop :=
  s.psp.toNat ≤ s.psplim.toNat ∨
    ∃ n < cfg.slots, s.sp n ≠ 0 ∧
      cfg.slotBase n ≤ s.psplim.toNat ∧ s.psp.toNat ≤ cfg.slotTop n

instance (cfg : Config) (s : State) : Decidable (StackInUse cfg s) :=
  inferInstanceAs (Decidable (_ ∨ ∃ n, n < cfg.slots ∧ _))

/-- A word pushed into `[PSPLIM, PSP)` leaves the links of the inactive slots
alone. -/
def PushesSpareLinks (cfg : Config) (s : State) : Prop :=
  ∀ addr v, s.psplim.toNat ≤ addr → addr + 4 ≤ s.psp.toNat →
    ∀ n, s.sp n = 0 →
      (s.processStackMemory.setWord addr v).word (cfg.slotBase n) = s.link cfg n

theorem StackInUse.pushesSpareLinks {s : State} (h : StackInUse cfg s) :
    PushesSpareLinks cfg s := by
  intro addr v hlo hhi n hn
  rcases h with hempty | ⟨k, hk, hactive, hbase, htop⟩
  · omega
  · exact link_write_of_inAllocated ⟨k, hk, hactive, by omega, by omega⟩ hn

/-! ## The invariant -/

/-- The initialised context manager is not dormant: slot 0 is on the free list
or active. -/
theorem Ready.not_dormant {s : State} (h : Ready cfg s) : ¬ Dormant s := by
  intro hd
  obtain ⟨_, l, hchain, hmem⟩ := h
  rw [hd.head] at hchain
  have hzero : (0 : Word) ∈ l := (hmem 0).mpr ⟨cfg.slots_pos, hd.inactive _⟩
  rw [hchain.eq_nil] at hzero
  cases hzero

/-- The loaded context is allocated, and the pool is dormant or ready. -/
structure Held (cfg : Config) (t : Tracked) : Prop where
  installed : Installed cfg t
  active : ∀ k ∈ t.loaded, t.state.sp k ≠ 0
  pool : Dormant t.state ∨ Ready cfg t.state

theorem held_of_isReset {s : State} (h : IsReset s) : Held cfg ⟨s, none⟩ :=
  ⟨installed_of_isReset h, fun _ hk => (nomatch hk), .inl (dormant_of_isReset h)⟩

/-- In an initialised state the window is in use. -/
theorem Held.stackInUse {t : Tracked} (h : Held cfg t) (hready : Ready cfg t.state) :
    StackInUse cfg t.state := by
  cases h.installed with
  | dormant hd _ => exact absurd hd hready.not_dormant
  | idle _ _ hp hlm => exact Or.inl (by omega)
  | @loaded k _ hk hlt hlm _ hhi => exact Or.inr ⟨k, hlt, h.active k hk, by omega, hhi⟩

/-- What thread code writes lies in the stack of an allocated slot. -/
theorem Held.inAllocated {t : Tracked} (h : Held cfg t) (hready : Ready cfg t.state)
    {addr : Nat} {v : Word} (hw : Thread cfg t (.write addr v)) :
    InAllocated cfg t.state addr := by
  obtain ⟨hlo, hhi⟩ := hw
  cases h.installed with
  | dormant hd _ => exact absurd hd hready.not_dormant
  | idle _ hn hp hlm =>
      rcases hhi with hpush | ⟨k, hk, _⟩
      · omega
      · rw [hn] at hk
        cases hk
  | @loaded k _ hk hlt hlm _ hpsp =>
      refine ⟨k, hlt, h.active k hk, by omega, ?_⟩
      rcases hhi with hpush | ⟨j, hj, htop⟩
      · omega
      · obtain rfl : k = j := Option.some.inj (hk.symm.trans hj)
        exact htop

/-- A call that does not free the loaded context keeps it allocated. -/
theorem Held.active_call {t : Tracked} (h : Held cfg t) {ipsr ret : Word} {e : Entry}
    {s' : State} (he : Effect cfg t.state e ret s')
    (hkeep : ¬ FreesLoaded cfg t (.call ipsr e ret)) :
    ∀ k ∈ track t.loaded (.call ipsr e ret), s'.sp k ≠ 0 := by
  intro k hk
  cases he with
  | refused e =>
      have htrack : track t.loaded (.call ipsr e 0) = t.loaded := by cases e <;> rfl
      rw [htrack] at hk
      exact h.active k hk
  | init => cases hk
  | alloc module hne hlt =>
      have hrec : Records cfg t.state := by
        rcases h.pool with hd | hr
        · exact absurd hd.head hne
        · exact hr.records
      have hactive := h.active k hk
      show ((t.state.popSlot cfg).sp k) ≠ 0
      rw [State.popSlot]
      by_cases hslot : k = t.state.processStackFreeSlot.toNat
      · rw [hslot, State.setSp_sp_self]
        exact hrec.top_ne_zero hlt
      · rw [State.setSp_sp_ne _ hslot]
        exact hactive
  | free id hlive =>
      have hslot : k ≠ (id - 1).toNat := by
        rintro rfl
        exact hkeep ⟨hlive, hk⟩
      rw [State.pushSlot, State.setHead_sp, State.setLink_sp, State.setSp_sp_ne _ hslot]
      exact h.active k hk
  | load id hc hlive =>
      obtain rfl : (id - 1).toNat = k := Option.some.inj hk
      exact hlive.2
  | store id hc hlive hrange => cases hk

/-- One event keeps the invariant and does not lose the initialisation. -/
theorem Held.step {t t' : Tracked} {e : Event} (h : Held cfg t)
    (hs : Transition.Guarded (KeepsLoaded cfg) (TrackedStep cfg) t e t') :
    Held cfg t' ∧
      (Ready cfg t.state ∨ (∃ ipsr, e = .call ipsr .init 1) → Ready cfg t'.state) := by
  obtain ⟨⟨hthread, hkeep⟩, hstep⟩ := hs
  have hinst : Installed cfg t' := h.installed.step ⟨hthread.handlerCalls, hstep⟩
  obtain ⟨hs, htrack⟩ := hstep
  have hactive : ∀ k ∈ t'.loaded, t'.state.sp k ≠ 0 := by
    rw [htrack]
    cases e with
    | call ipsr entry ret => exact h.active_call (effect_of_exec hs) hkeep
    | setPsp v => rw [hs]; exact h.active
    | setControl v => rw [hs]; exact h.active
    | write addr v => rw [hs]; exact h.active
  rcases h.pool with hd | hready
  · rcases hd.step hs with ⟨hd', hne⟩ | ⟨hready', _⟩
    · refine ⟨⟨hinst, hactive, .inl hd'⟩, ?_⟩
      rintro (hready | ⟨ipsr, he⟩)
      · exact absurd hd hready.not_dormant
      · exact absurd he (hne ipsr)
    · exact ⟨⟨hinst, hactive, .inr hready'⟩, fun _ => hready'⟩
  · have hclient : Client cfg t.state e := by
      cases e with
      | write addr v => exact h.inAllocated hready hthread
      | call _ _ _ => exact trivial
      | setPsp _ => exact trivial
      | setControl _ => exact trivial
    have hready' := hready.step ⟨hclient, hs⟩
    exact ⟨⟨hinst, hactive, .inr hready'⟩, fun _ => hready'⟩

/-- A run keeps the invariant, and is ready once an initialisation succeeded. -/
theorem Held.run {t t' : Tracked} {es : List Event} (hr : KeepsLoadedRun cfg t es t')
    (h : Held cfg t) :
    Held cfg t' ∧ (Ready cfg t.state ∨ Initialised es → Ready cfg t'.state) := by
  induction hr with
  | nil => exact ⟨h, fun hi => hi.resolve_right not_initialised_nil⟩
  | cons hs _ ih =>
      obtain ⟨hheld, hready⟩ := h.step hs
      obtain ⟨hheld', hready'⟩ := ih hheld
      refine ⟨hheld', fun hi => hready' ?_⟩
      rw [initialised_cons] at hi
      rcases hi with hr | hinit | hlater
      · exact Or.inl (hready (Or.inl hr))
      · exact Or.inl (hready (Or.inr hinit))
      · exact Or.inr hlater

/-! ## The result -/

/-- **Freed stacks are not in use.**  In every run of handler-mode calls that
never frees the loaded context, once an initialisation succeeded, the window
between `PSPLIM` and `PSP` is empty or inside the stack of an allocated slot,
pushes leave the links of the inactive slots alone, and the free list is
intact. -/
theorem stackInUse_of_run {s : State} {es : List Event} {t : Tracked} (h0 : IsReset s)
    (hr : KeepsLoadedRun cfg ⟨s, none⟩ es t) (hi : Initialised es) :
    StackInUse cfg t.state ∧ PushesSpareLinks cfg t.state ∧ ∃ l, FreeList cfg t.state l := by
  obtain ⟨hheld, hready⟩ := Held.run hr (held_of_isReset h0)
  have hin := hheld.stackInUse (hready (Or.inr hi))
  exact ⟨hin, hin.pushesSpareLinks, (hready (Or.inr hi)).freeList⟩

/-- Load slot 0, use eight bytes of its stack, store it and free it. -/
def retiredEvents : List Event :=
  [.call 11 .init 1, .call 11 (.alloc 0) 1, .call 14 (.load 1) 1, .write 0x2000100C 0xDEADBEEF,
    .setPsp 0x20001008, .call 14 (.store 1) 1, .call 11 (.free 1) 1]

theorem retiredEvents_play :
    (trackedPlay (KeepsLoaded .small) .small ⟨.zero, none⟩ retiredEvents).isSome := by decide

/-- The state `retiredEvents` leads to. -/
def retiredState : Tracked :=
  (trackedPlay (KeepsLoaded .small) .small ⟨.zero, none⟩ retiredEvents).get retiredEvents_play

theorem stackInUse_of_run_retired :
    StackInUse .small retiredState.state ∧ PushesSpareLinks .small retiredState.state ∧
      ∃ l, FreeList .small retiredState.state l :=
  stackInUse_of_run isReset_zero (trackedRun_of_play (Option.some_get retiredEvents_play).symm)
    ⟨11, by decide⟩

/-- **Freeing the loaded context exposes the free list.**  After it thread code
may raise `PSP` to the top of its stack, and then the window `[PSPLIM, PSP)` is
the stack of an inactive slot, link word included. -/
theorem freesLoaded_exposes {s : State} {es : List Event} {t t' : Tracked} {e : Event}
    (h0 : IsReset s) (hr : KeepsLoadedRun cfg ⟨s, none⟩ es t)
    (hs : Transition.Guarded (Thread cfg) (TrackedStep cfg) t e t') (hf : FreesLoaded cfg t e) :
    ∃ v t'', Transition.Guarded (Thread cfg) (TrackedStep cfg) t' (.setPsp v) t'' ∧
      ¬ StackInUse cfg t''.state := by
  obtain ⟨hheld, _⟩ := Held.run hr (held_of_isReset h0)
  have hinst : Installed cfg t' := hheld.installed.step ⟨hs.1.handlerCalls, hs.2⟩
  cases e with
  | setPsp v => exact hf.elim
  | setControl v => exact hf.elim
  | write addr v => exact hf.elim
  | call ipsr entry ret =>
    cases entry with
    | init => exact hf.elim
    | alloc module => exact hf.elim
    | load id => exact hf.elim
    | store id => exact hf.elim
    | free id =>
      obtain ⟨hlive, hk⟩ := hf
      obtain ⟨hi, hstep, htrack⟩ := hs
      have hloaded : t'.loaded = some (id - 1).toNat := htrack.trans hk
      have hlt := hlive.1.slot_lt
      -- the call succeeds, so the slot is inactive afterwards
      have hfreed : t'.state.sp (id - 1).toNat = 0 := by
        have hexec : exec cfg ipsr (.free id) t.state = some (ret, t'.state) := hstep
        rw [exec, tzFreeModuleContextS_eq, if_pos ⟨hi, hlive⟩] at hexec
        obtain ⟨_, hs'⟩ := Prod.mk.inj (Option.some.inj hexec)
        rw [← hs', State.pushSlot, State.setHead_sp, State.setLink_sp, State.setSp_sp_self]
      have hlimit : t'.state.psplim.toNat = cfg.slotBase (id - 1).toNat := by
        cases hinst with
        | dormant _ hn => rw [hn] at hloaded; cases hloaded
        | idle _ hn _ _ => rw [hn] at hloaded; cases hloaded
        | loaded _ hj _ hlm _ _ =>
            rw [Option.some.inj (hj.symm.trans hloaded)] at hlm
            exact hlm
      have htop := Config.toNat_slotTop hlt
      have hsize := cfg.size_pos
      refine ⟨BitVec.ofNat 32 (cfg.slotTop (id - 1).toNat), ⟨{ t'.state with psp := _ }, _⟩,
        ⟨⟨_, hloaded, ?_, Nat.le_of_eq htop⟩, rfl, rfl⟩, ?_⟩
      · rw [BitVec.le_def, htop, hlimit]
        exact Nat.le_add_right _ _
      · rintro (hempty | ⟨n, hn, hactive, hbase, hhi⟩)
        · simp only [htop, hlimit] at hempty
          rw [Config.slotTop] at hempty
          omega
        · simp only [htop, hlimit] at hbase hhi
          have hne : n ≠ (id - 1).toNat := by
            rintro rfl
            exact hactive hfreed
          have happart := cfg.slots_apart hne
          simp only [Config.slotTop] at happart hhi
          omega

/-- Free the loaded context. -/
def freedEvents : List Event :=
  [.call 11 .init 1, .call 11 (.alloc 0) 1, .call 14 (.load 1) 1, .setPsp 0x20001008,
    .call 11 (.free 1) 1]

/-- Push over the link word and allocate the slot again. -/
def pushEvents : List Event := [.write 0x20001000 0xDEADBEEF, .call 11 (.alloc 0) 1]

theorem freedEvents_play :
    (trackedPlay (Thread .small) .small ⟨.zero, none⟩ freedEvents).isSome := by decide

/-- The state `freedEvents` leads to. -/
def freedState : Tracked :=
  (trackedPlay (Thread .small) .small ⟨.zero, none⟩ freedEvents).get freedEvents_play

theorem pushEvents_play :
    (trackedPlay (Thread .small) .small freedState pushEvents).isSome := by decide

/-- The state `pushEvents` leads to from there. -/
def pushedState : Tracked :=
  (trackedPlay (Thread .small) .small freedState pushEvents).get pushEvents_play

/-- After the loaded context is freed, the window lies in an inactive slot, and
a push makes the allocator follow a link that is not a slot, past the end of the
arrays. -/
theorem not_stackInUse :
    ThreadRun .small ⟨.zero, none⟩ freedEvents freedState ∧ Initialised freedEvents ∧
      ¬ StackInUse .small freedState.state ∧
      ThreadRun .small freedState pushEvents pushedState ∧
      pushedState.state.processStackFreeSlot = 0xDEADBEEF ∧
      exec .small 11 (.alloc 0) pushedState.state = none := by
  refine ⟨trackedRun_of_play (Option.some_get freedEvents_play).symm, ⟨11, by decide⟩, by decide,
    trackedRun_of_play (Option.some_get pushEvents_play).symm, by decide, ?_⟩
  rw [exec, tzAllocModuleContextS_eq, if_neg (by decide), if_neg (by decide)]

end TzContext
