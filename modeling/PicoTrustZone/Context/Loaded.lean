import PicoTrustZone.Context.Tracked

/-!
# Stores and the loaded context

`TZ_StoreContext_S` infers the loaded context from `PSP`, by a range test with
both ends inclusive.  In handler mode, with thread code that keeps `PSP` inside
the loaded stack, a store can still hit a slot that is not loaded.  The windows
of neighbouring slots share an end, and the default `PSP` is the lower end of
slot 0.

`storeRespects_iff` says that these shared ends are the only way: a store
respects the loaded context exactly when `PSP` does not sit on an end that
belongs to another allocated slot (`Boundary`).
-/

namespace TzContext

variable {cfg : Config}

/-! ## Stores and the loaded slot -/

/-- A store respects the loaded context: it succeeds for the loaded slot only,
and otherwise returns 0 and changes no saved stack pointer. -/
def StoreRespects (cfg : Config) (t : Tracked) (ipsr id : Word) : Prop :=
  ∀ ret s', exec cfg ipsr (.store id) t.state = some (ret, s') →
    (ret = 1 ∧ t.loaded = some (id - 1).toNat) ∨
      (ret = 0 ∧ ∀ n, (s'.processStackInfo n).sp = (t.state.processStackInfo n).sp)

/-- `psp` is an end of the loaded window, or the default, that also belongs to
the slot of `id`. -/
def SharedEnd (cfg : Config) (psp id : Word) : Option Nat → Prop
  | none => id.toNat = 1
  | some k =>
      (id.toNat = k + 2 ∧ psp.toNat = cfg.slotTop k) ∨
        (id.toNat = k ∧ psp.toNat = cfg.slotBase k)

instance (cfg : Config) (psp id : Word) : (loaded : Option Nat) →
    Decidable (SharedEnd cfg psp id loaded)
  | none => inferInstanceAs (Decidable (_ = _))
  | some _ => inferInstanceAs (Decidable (_ ∨ _))

/-- `PSP` sits on an end that also belongs to the allocated slot of `id`. -/
def Boundary (cfg : Config) (t : Tracked) (id : Word) : Prop :=
  t.state.control &&& 2 ≠ 0 ∧ t.state.Live cfg id ∧ SharedEnd cfg t.state.psp id t.loaded

instance (cfg : Config) (t : Tracked) (id : Word) : Decidable (Boundary cfg t id) :=
  inferInstanceAs (Decidable (_ ∧ _))

/-- Two closed windows meet in a shared end only. -/
theorem Config.windows_meet (cfg : Config) {j k p : Nat} (hne : j ≠ k)
    (hj : cfg.slotBase j ≤ p ∧ p ≤ cfg.slotTop j) (hk : cfg.slotBase k ≤ p ∧ p ≤ cfg.slotTop k) :
    (j = k + 1 ∧ p = cfg.slotTop k) ∨ (j + 1 = k ∧ p = cfg.slotBase k) := by
  have hsize := cfg.size_pos
  obtain hlt | hgt := Nat.lt_or_gt_of_ne hne
  · refine Or.inr ?_
    have htop := cfg.slotTop_le_of_lt hlt
    refine ⟨?_, by omega⟩
    by_contra hgap
    have hjk : j + 1 < k := by omega
    have hnext := cfg.slotTop_le_of_lt hjk
    rw [Config.slotTop, cfg.slotBase_succ] at hnext
    omega
  · refine Or.inl ?_
    have htop := cfg.slotTop_le_of_lt hgt
    refine ⟨?_, by omega⟩
    by_contra hgap
    have hkj : k + 1 < j := by omega
    have hnext := cfg.slotTop_le_of_lt hkj
    rw [Config.slotTop, cfg.slotBase_succ] at hnext
    omega

/-- The range test passes for a slot that is not loaded only at a boundary. -/
theorem Installed.boundary {t : Tracked} (h : Installed cfg t) {id : Word}
    (hc : t.state.control &&& 2 ≠ 0) (hlive : t.state.Live cfg id)
    (hrange : t.state.InRange (id - 1)) (hne : t.loaded ≠ some (id - 1).toNat) :
    Boundary cfg t id := by
  have hid := toNat_sub_one hlive.1.1
  have hpos : id.toNat ≠ 0 := fun h0 => hlive.1.1 (BitVec.eq_of_toNat_eq h0)
  refine ⟨hc, hlive, ?_⟩
  cases h with
  | dormant hd _ => exact absurd (hd.inactive _) hlive.2
  | idle hrec hn hp _ =>
      rw [hn]
      show id.toNat = 1
      have hw := (hrec.inRange_iff hlive.1.slot_lt).mp hrange
      rw [hp, hid] at hw
      -- the default PSP is below every slot but the first
      by_contra hne1
      have hlt : 0 < id.toNat - 1 := by omega
      have htop := cfg.slotTop_le_of_lt hlt
      have hsize := cfg.size_pos
      rw [Config.slotTop, cfg.slotBase_zero] at htop
      omega
  | @loaded k hrec hk _ _ hlo hhi =>
      rw [hk]
      have hw := (hrec.inRange_iff hlive.1.slot_lt).mp hrange
      have hslot : (id - 1).toNat ≠ k := fun he => hne (by rw [hk, he])
      obtain ⟨hj, hp⟩ | ⟨hj, hp⟩ := cfg.windows_meet hslot hw ⟨hlo, hhi⟩
      · exact Or.inl ⟨by omega, hp⟩
      · exact Or.inr ⟨by omega, hp⟩

/-- At a boundary the range test passes for a slot that is not loaded. -/
theorem Installed.not_loaded_of_boundary {t : Tracked} (h : Installed cfg t) {id : Word}
    (hb : Boundary cfg t id) :
    t.state.InRange (id - 1) ∧ t.loaded ≠ some (id - 1).toNat := by
  obtain ⟨_, hlive, hends⟩ := hb
  have hid := toNat_sub_one hlive.1.1
  have hpos : id.toNat ≠ 0 := fun h0 => hlive.1.1 (BitVec.eq_of_toNat_eq h0)
  cases h with
  | dormant hd _ => exact absurd (hd.inactive _) hlive.2
  | idle hrec hn hp _ =>
      rw [hn] at hends ⊢
      refine ⟨(hrec.inRange_iff hlive.1.slot_lt).mpr ?_, by simp⟩
      have hone : id.toNat = 1 := hends
      have hzero : (id - 1).toNat = 0 := by omega
      rw [hp, hzero, cfg.slotBase_zero, Config.slotTop, cfg.slotBase_zero]
      omega
  | @loaded k hrec hk _ _ hlo hhi =>
      rw [hk] at hends ⊢
      rw [hrec.inRange_iff hlive.1.slot_lt, hid, ne_eq, Option.some.injEq]
      obtain ⟨hj, hp⟩ | ⟨hj, hp⟩ := hends
      · have hslot : id.toNat - 1 = k + 1 := by omega
        have hbase := cfg.slotBase_succ k
        rw [hslot, hp, ← hbase, Config.slotTop]
        omega
      · have hslot : id.toNat - 1 + 1 = k := by omega
        have hbase := cfg.slotBase_succ (id.toNat - 1)
        rw [hslot] at hbase
        rw [hp, hbase, Config.slotTop]
        omega

theorem Installed.respects_iff {t : Tracked} (h : Installed cfg t) {ipsr : Word}
    (hi : ipsr ≠ 0) (id : Word) : StoreRespects cfg t ipsr id ↔ ¬ Boundary cfg t id := by
  constructor
  · intro hresp hb
    obtain ⟨hrange, hne⟩ := h.not_loaded_of_boundary hb
    have hexec : exec cfg ipsr (.store id) t.state = some (1, t.state.storeSlot cfg (id - 1)) := by
      rw [exec, tzStoreContextS_eq, if_pos ⟨⟨hi, hb.1⟩, hb.2.1, hrange⟩]
    obtain ⟨_, hloaded⟩ | ⟨hret, _⟩ := hresp _ _ hexec
    · exact hne hloaded
    · cases hret
  · intro hb ret s' hexec
    cases effect_of_exec hexec with
    | refused _ => exact Or.inr ⟨rfl, fun _ => rfl⟩
    | store _ hc hlive hrange =>
        refine Or.inl ⟨rfl, ?_⟩
        by_contra hne
        exact hb (h.boundary hc hlive hrange hne)

/-! ## Two runs -/

/-- Load slot 0, use eight bytes of its stack and store it. -/
def storedEvents : List Event :=
  [.call 11 .init 1, .call 11 (.alloc 0) 1, .call 14 (.load 1) 1, .setPsp 0x20001008,
    .call 14 (.store 1) 1]

theorem storedEvents_play :
    (trackedPlay (HandlerCalls .small) .small ⟨.zero, none⟩ storedEvents).isSome := by decide

/-- The state `storedEvents` leads to. -/
def storedState : Tracked :=
  (trackedPlay (HandlerCalls .small) .small ⟨.zero, none⟩ storedEvents).get storedEvents_play

theorem handlerRun_stored : HandlerRun .small ⟨.zero, none⟩ storedEvents storedState :=
  trackedRun_of_play (Option.some_get storedEvents_play).symm

/-- Allocate both slots and load slot 0, whose stack is still empty. -/
def neighbourEvents : List Event :=
  [.call 11 .init 1, .call 11 (.alloc 0) 1, .call 11 (.alloc 0) 2, .call 14 (.load 1) 1]

theorem neighbourEvents_play :
    (trackedPlay (HandlerCalls .small) .small ⟨.zero, none⟩ neighbourEvents).isSome := by decide

/-- The state `neighbourEvents` leads to. -/
def neighbourState : Tracked :=
  (trackedPlay (HandlerCalls .small) .small ⟨.zero, none⟩ neighbourEvents).get neighbourEvents_play

theorem handlerRun_neighbour :
    HandlerRun .small ⟨.zero, none⟩ neighbourEvents neighbourState :=
  trackedRun_of_play (Option.some_get neighbourEvents_play).symm

/-! ## The result -/

/-- **Stores and the loaded context.**  In every run from handler mode, at
every state reached and for every identifier, a store respects the loaded
context if and only if `PSP` is not on an end that belongs to the allocated
slot of the identifier. -/
theorem storeRespects_iff {s : State} {es : List Event} {t : Tracked} (h0 : IsReset s)
    (hr : HandlerRun cfg ⟨s, none⟩ es t) {ipsr : Word} (hi : ipsr ≠ 0) (id : Word) :
    StoreRespects cfg t ipsr id ↔ ¬ Boundary cfg t id :=
  Installed.respects_iff ((installed_of_isReset h0).run hr) hi id

theorem storeRespects_iff_stored :
    StoreRespects .small storedState 14 2 ↔ ¬ Boundary .small storedState 2 :=
  storeRespects_iff isReset_zero handlerRun_stored (by decide) 2

/-- A second store of the same context succeeds and replaces the stack pointer
just saved, and a store to the neighbour of the loaded slot succeeds. -/
theorem not_storeRespects :
    (HandlerRun .small ⟨.zero, none⟩ storedEvents storedState ∧
      storedState.state.sp 0 = 0x20001008 ∧
      (exec .small 14 (.store 1) storedState.state).map (fun r => (r.1, r.2.sp 0)) =
        some (1, 0x20001000) ∧
      ¬ StoreRespects .small storedState 14 1) ∧
    HandlerRun .small ⟨.zero, none⟩ neighbourEvents neighbourState ∧
      neighbourState.loaded = some 0 ∧
      (exec .small 14 (.store 2) neighbourState.state).map (fun r => (r.1, r.2.sp 1)) =
        some (1, 0x20001010) ∧
      ¬ StoreRespects .small neighbourState 14 2 := by
  have hagain : Boundary .small storedState 1 := by decide
  have hnext : Boundary .small neighbourState 2 := by decide
  have hstored := (installed_of_isReset isReset_zero).run handlerRun_stored
  have hneighbour := (installed_of_isReset isReset_zero).run handlerRun_neighbour
  refine ⟨⟨handlerRun_stored, by decide, by decide, ?_⟩,
    handlerRun_neighbour, by decide, by decide, ?_⟩
  · intro h
    exact (hstored.respects_iff (by decide) 1).mp h hagain
  · intro h
    exact (hneighbour.respects_iff (by decide) 2).mp h hnext

end TzContext
