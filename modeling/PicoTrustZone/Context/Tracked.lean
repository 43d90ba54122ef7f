import PicoTrustZone.Context.FreeList

/-!
# Tracking the loaded context

The code keeps no record of the context that is loaded.  `Tracked` adds the
record as ghost state: the slot of the last successful `TZ_LoadContext_S`, or
none after a successful initialisation or store.

The rules of a run say what thread code may do between the calls.  They see
the ghost state, so a rule can speak about the loaded slot.  `HandlerCalls` is
the basic one: calls come from handler mode, and `PSP` stays inside the window
of the loaded slot.  `Installed` is what every such run keeps true of the two
stack registers.
-/

namespace TzContext

variable {cfg : Config}

/-! ## Ghost state -/

/-- A state with the slot whose context is loaded. -/
structure Tracked where
  state : State
  /-- The slot of the last successful load, if no initialisation or store
  succeeded since. -/
  loaded : Option Nat

/-- How an event changes the loaded slot. -/
def track (loaded : Option Nat) : Event → Option Nat
  | .call _ .init ret => if ret = 1 then none else loaded
  | .call _ (.load id) ret => if ret = 1 then some (id - 1).toNat else loaded
  | .call _ (.store _) ret => if ret = 1 then none else loaded
  | _ => loaded

/-- One event, with the loaded slot tracked. -/
def TrackedStep (cfg : Config) (t : Tracked) (e : Event) (t' : Tracked) : Prop :=
  Step cfg t.state e t'.state ∧ t'.loaded = track t.loaded e

/-- Calls come from handler mode.  Between them thread code moves `PSP` inside
the closed window of the loaded slot and leaves it alone if none is loaded. -/
def HandlerCalls (cfg : Config) (t : Tracked) : Event → Prop
  | .call ipsr _ _ => ipsr ≠ 0
  | .setPsp v => ∃ k ∈ t.loaded, t.state.psplim ≤ v ∧ v.toNat ≤ cfg.slotTop k
  | .setControl _ => True
  | .write _ _ => True

/-- A run of calls from handler mode. -/
abbrev HandlerRun (cfg : Config) : Tracked → List Event → Tracked → Prop :=
  Transition.Run (Transition.Guarded (HandlerCalls cfg) (TrackedStep cfg))

/-- What is known about the installed stack: nothing before the initialisation,
the default stack when no context is loaded, and the window of the loaded slot
otherwise. -/
inductive Installed (cfg : Config) (t : Tracked) : Prop where
  | dormant : Dormant t.state → t.loaded = none → Installed cfg t
  | idle : Records cfg t.state → t.loaded = none →
      t.state.psp.toNat = cfg.base → t.state.psplim.toNat = cfg.base → Installed cfg t
  | loaded {k : Nat} : Records cfg t.state → t.loaded = some k → k < cfg.slots →
      t.state.psplim.toNat = cfg.slotBase k →
      cfg.slotBase k ≤ t.state.psp.toNat → t.state.psp.toNat ≤ cfg.slotTop k → Installed cfg t

theorem Config.toNat_base (cfg : Config) : (BitVec.ofNat 32 cfg.base).toNat = cfg.base := by
  have h := cfg.toNat_slotBase cfg.slots_pos
  rwa [cfg.slotBase_zero] at h

/-- Reading and writing registers and stack bytes keeps the records. -/
theorem Installed.congr {t t' : Tracked} (h : Installed cfg t)
    (hinfo : t'.state.processStackInfo = t.state.processStackInfo)
    (hhead : t'.state.processStackFreeSlot = t.state.processStackFreeSlot)
    (hpsp : t'.state.psp = t.state.psp) (hlim : t'.state.psplim = t.state.psplim)
    (hl : t'.loaded = t.loaded) : Installed cfg t' := by
  cases h with
  | dormant hd hn =>
      refine .dormant ⟨hhead.trans hd.head, fun n => ?_⟩ (hl.trans hn)
      rw [State.sp, hinfo]
      exact hd.inactive n
  | idle hrec hn hp hlm =>
      rw [← hpsp] at hp
      rw [← hlim] at hlm
      exact .idle (hrec.congr hinfo) (hl.trans hn) hp hlm
  | loaded hrec hk hlt hlm hlo hhi =>
      rw [← hpsp] at hlo hhi
      rw [← hlim] at hlm
      exact .loaded (hrec.congr hinfo) (hl.trans hk) hlt hlm hlo hhi

/-- A successful load installs the window of its slot. -/
theorem Records.installed_load {t : Tracked} (h : Records cfg t.state) {id : Word}
    (hlive : t.state.Live cfg id) :
    Installed cfg ⟨t.state.loadSlot (id - 1), some (id - 1).toNat⟩ := by
  obtain ⟨hlo, hhi⟩ := h.saved _ hlive.1.slot_lt hlive.2
  exact .loaded (h.congr rfl) rfl hlive.1.slot_lt (h.toNat_limit hlive.1.slot_lt) hlo hhi

/-- A call keeps the knowledge about the installed stack. -/
theorem Installed.call {t : Tracked} (h : Installed cfg t) {ipsr ret : Word} {e : Entry}
    {s' : State} (he : Effect cfg t.state e ret s') :
    Installed cfg ⟨s', track t.loaded (.call ipsr e ret)⟩ := by
  have hbase := cfg.toNat_base
  cases he with
  | refused e =>
      -- a refused call returns 0, so the loaded slot stays
      have htrack : track t.loaded (.call ipsr e 0) = t.loaded := by cases e <;> rfl
      rw [htrack]
      exact h.congr rfl rfl rfl rfl rfl
  | init => exact .idle (records_initialise _) rfl hbase hbase
  | alloc module hne hlt =>
      cases h with
      | dormant hd _ => exact absurd hd.head hne
      | idle hrec hn hp hlm => exact .idle (hrec.effect (.alloc module hne hlt)) hn hp hlm
      | loaded hrec hk hkl hlm hlo hhi =>
          exact .loaded (hrec.effect (.alloc module hne hlt)) hk hkl hlm hlo hhi
  | free id hlive =>
      cases h with
      | dormant hd _ => exact absurd (hd.inactive _) hlive.2
      | idle hrec hn hp hlm => exact .idle (hrec.effect (.free id hlive)) hn hp hlm
      | loaded hrec hk hkl hlm hlo hhi =>
          exact .loaded (hrec.effect (.free id hlive)) hk hkl hlm hlo hhi
  | load id hc hlive =>
      cases h with
      | dormant hd _ => exact absurd (hd.inactive _) hlive.2
      | idle hrec _ _ _ => exact hrec.installed_load hlive
      | loaded hrec _ _ _ _ _ => exact hrec.installed_load hlive
  | store id hc hlive hrange =>
      cases h with
      | dormant hd _ => exact absurd (hd.inactive _) hlive.2
      | idle hrec _ _ _ => exact .idle (hrec.effect (.store id hc hlive hrange)) rfl hbase hbase
      | loaded hrec _ _ _ _ _ =>
          exact .idle (hrec.effect (.store id hc hlive hrange)) rfl hbase hbase

theorem Installed.step {t t' : Tracked} {e : Event} (h : Installed cfg t)
    (hs : Transition.Guarded (HandlerCalls cfg) (TrackedStep cfg) t e t') : Installed cfg t' := by
  obtain ⟨hallowed, hstep, htrack⟩ := hs
  cases e with
  | call ipsr entry ret =>
      have hcall : Installed cfg ⟨t'.state, track t.loaded (.call ipsr entry ret)⟩ :=
        h.call (effect_of_exec hstep)
      rw [← htrack] at hcall
      exact hcall
  | setPsp v =>
      obtain ⟨k, hk, hlo, hhi⟩ := hallowed
      have hlo' : t.state.psplim.toNat ≤ v.toNat := hlo
      cases h with
      | dormant _ hn => rw [hn] at hk; cases hk
      | idle _ hn _ _ => rw [hn] at hk; cases hk
      | @loaded j hrec hj hlt hlm _ _ =>
          obtain rfl : j = k := Option.some.inj (hj.symm.trans hk)
          rw [hlm] at hlo'
          refine .loaded (hrec.congr ?_) (htrack.trans hj) hlt ?_ ?_ ?_
          · rw [hstep]
          · rw [hstep]; exact hlm
          · rw [hstep]; exact hlo'
          · rw [hstep]; exact hhi
  | setControl v =>
      obtain ⟨s', loaded'⟩ := t'
      obtain rfl : s' = { t.state with control := v } := hstep
      exact h.congr rfl rfl rfl rfl htrack
  | write addr v =>
      obtain ⟨s', loaded'⟩ := t'
      obtain rfl : s' = { t.state with
        processStackMemory := t.state.processStackMemory.setWord addr v } := hstep
      exact h.congr rfl rfl rfl rfl htrack

theorem installed_of_isReset {s : State} (h : IsReset s) : Installed cfg ⟨s, none⟩ :=
  .dormant (dormant_of_isReset h) rfl

theorem Installed.run {t t' : Tracked} {es : List Event} (h : Installed cfg t)
    (hr : HandlerRun cfg t es t') : Installed cfg t' :=
  hr.invariant (fun _ _ _ hi hs => hi.step hs) h

/-! ## Computed runs -/

instance (cfg : Config) (t : Tracked) : (e : Event) → Decidable (HandlerCalls cfg t e)
  | .call _ _ _ => inferInstanceAs (Decidable (_ ≠ _))
  | .setPsp _ => inferInstanceAs (Decidable (∃ k ∈ t.loaded, _))
  | .setControl _ => isTrue trivial
  | .write _ _ => isTrue trivial

/-- The tracked state an event leads to. -/
def trackedNext (cfg : Config) (t : Tracked) (e : Event) : Option Tracked :=
  (next cfg t.state e).map fun s => ⟨s, track t.loaded e⟩

theorem step_of_trackedNext {t t' : Tracked} {e : Event} (h : trackedNext cfg t e = some t') :
    TrackedStep cfg t e t' := by
  obtain ⟨s', hs, rfl⟩ := Option.map_eq_some_iff.mp h
  exact ⟨step_of_next hs, rfl⟩

section

variable (rule : Tracked → Event → Prop) [∀ t e, Decidable (rule t e)]

/-- Follow the events that the rule allows. -/
def trackedPlay (cfg : Config) : Tracked → List Event → Option Tracked :=
  Transition.play (Transition.guardedNext rule (trackedNext cfg))

variable {rule}

/-- A tracked run, computed. -/
theorem trackedRun_of_play {t t' : Tracked} {es : List Event}
    (h : trackedPlay rule cfg t es = some t') :
    Transition.Run (Transition.Guarded rule (TrackedStep cfg)) t es t' :=
  Transition.Run.of_play_guarded (fun _ _ _ => step_of_trackedNext) h

end

end TzContext
