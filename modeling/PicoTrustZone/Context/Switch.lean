import PicoTrustZone.Context.FreeList

/-!
# Context switching

A scheduler stores the context of a thread when it switches away and loads it
when it comes back.  In between anything may happen to the other contexts.
`switch_lossless` says that the thread notices nothing: `PSP`, `PSPLIM` and
every byte of its stack are as they were at the store.

The proof is a frame argument.  `Parked` is what the store establishes, and
every event on another context keeps it (`Parked.step`).  An allocation takes
its slot from the free list, which holds inactive slots only, and the link a
release writes lies in the stack of the slot released.
-/

namespace TzContext

variable {cfg : Config} {s s' : State}

/-! ## The rules of the run -/

/-- The loaded context is replaced, or the context of `id` is freed. -/
def Displaces (id : Word) : Event → Prop
  | .call _ .init ret => ret = 1
  | .call _ (.load _) ret => ret = 1
  | .call _ (.store _) ret => ret = 1
  | .call _ (.free j) ret => j = id ∧ ret = 1
  | _ => False

instance (id : Word) : (e : Event) → Decidable (Displaces id e)
  | .call _ .init _ | .call _ (.load _) _ | .call _ (.store _) _ =>
      inferInstanceAs (Decidable (_ = _))
  | .call _ (.free _) _ => inferInstanceAs (Decidable (_ ∧ _))
  | .call _ (.alloc _) _ | .setPsp _ | .setControl _ | .write _ _ => isFalse False.elim

/-- Client steps while the context of `id` stays loaded. -/
def Resident (cfg : Config) (id : Word) (s : State) (e : Event) : Prop :=
  Client cfg s e ∧ ¬ Displaces id e

instance (cfg : Config) (id : Word) (s : State) (e : Event) : Decidable (Resident cfg id s e) :=
  inferInstanceAs (Decidable (_ ∧ _))

/-- Allocations, calls for other contexts than `id`, any register changes, and
writes into the stacks of other allocated slots. -/
def Elsewhere (cfg : Config) (id : Word) (s : State) : Event → Prop
  | .call _ .init _ => False
  | .call _ (.alloc _) _ => True
  | .call _ (.free j) _ => j ≠ id
  | .call _ (.load j) _ => j ≠ id
  | .call _ (.store j) _ => j ≠ id
  | .setPsp _ => True
  | .setControl _ => True
  | .write addr _ => ∃ n < cfg.slots, n ≠ (id - 1).toNat ∧ s.sp n ≠ 0 ∧
      cfg.slotBase n ≤ addr ∧ addr + 4 ≤ cfg.slotTop n

instance (cfg : Config) (id : Word) (s : State) : (e : Event) → Decidable (Elsewhere cfg id s e)
  | .call _ .init _ => isFalse False.elim
  | .call _ (.free _) _ | .call _ (.load _) _ | .call _ (.store _) _ =>
      inferInstanceAs (Decidable (_ ≠ _))
  | .call _ (.alloc _) _ | .setPsp _ | .setControl _ => isTrue trivial
  | .write _ _ => inferInstanceAs (Decidable (∃ n, n < cfg.slots ∧ _))

/-- A run while the context of `id` stays loaded. -/
abbrev ResidentRun (cfg : Config) (id : Word) : State → List Event → State → Prop :=
  Transition.Run (Transition.Guarded (Resident cfg id) (Step cfg))

/-- A run that leaves the context of `id` alone. -/
abbrev ElsewhereRun (cfg : Config) (id : Word) : State → List Event → State → Prop :=
  Transition.Run (Transition.Guarded (Elsewhere cfg id) (Step cfg))

theorem Elsewhere.client {id : Word} {e : Event} (h : Elsewhere cfg id s e) : Client cfg s e := by
  cases e with
  | call _ _ _ => exact trivial
  | setPsp _ => exact trivial
  | setControl _ => exact trivial
  | write addr v =>
      obtain ⟨n, hn, _, hactive, hlo, hhi⟩ := h
      exact ⟨n, hn, hactive, hlo, hhi⟩

/-! ## While the context is loaded -/

/-- What stays true while the context of `id` is loaded. -/
structure Occupied (cfg : Config) (id : Word) (s : State) : Prop where
  ready : Ready cfg s
  limit : s.psplim = BitVec.ofNat 32 (cfg.slotBase (id - 1).toNat)

theorem Occupied.step {id : Word} {e : Event} (h : Occupied cfg id s)
    (hs : Transition.Guarded (Resident cfg id) (Step cfg) s e s') : Occupied cfg id s' := by
  obtain ⟨⟨hclient, hstay⟩, hstep⟩ := hs
  refine ⟨h.ready.step ⟨hclient, hstep⟩, ?_⟩
  cases e with
  | setPsp v => rw [hstep]; exact h.limit
  | setControl v => rw [hstep]; exact h.limit
  | write addr v => rw [hstep]; exact h.limit
  | call ipsr entry ret =>
      -- only the displacing calls install a stack
      cases effect_of_exec hstep with
      | refused _ => exact h.limit
      | init => exact absurd rfl hstay
      | alloc _ _ _ => exact h.limit
      | free _ _ => exact h.limit
      | load _ _ _ => exact absurd rfl hstay
      | store _ _ _ _ => exact absurd rfl hstay

theorem Occupied.run {id : Word} {es : List Event} (h : Occupied cfg id s)
    (hr : ResidentRun cfg id s es s') : Occupied cfg id s' :=
  hr.invariant (fun _ _ _ hi hs => hi.step hs) h

/-- A successful load occupies the stack registers. -/
theorem Ready.occupied_load (h : Ready cfg s) {ipsr id : Word}
    (hload : exec cfg ipsr (.load id) s = some (1, s')) : Occupied cfg id s' := by
  have heffect := effect_of_exec hload
  refine ⟨h.effect heffect, ?_⟩
  cases heffect with
  | load _ _ hlive => exact h.records.limit _ hlive.1.slot_lt

/-! ## While the context is stored -/

/-- The context of `id` is stored with stack pointer `sp`, and the bytes of its
stack are those of `m`. -/
structure Parked (cfg : Config) (id sp : Word) (m : ByteMemory) (s : State) : Prop where
  ready : Ready cfg s
  live : s.Live cfg id
  saved : s.sp (id - 1).toNat = sp
  bytes : ∀ x, cfg.slotBase (id - 1).toNat ≤ x → x < cfg.slotTop (id - 1).toNat →
    s.processStackMemory x = m x

/-- A state with the same record and the same bytes for `id` is parked too. -/
theorem Parked.congr {id sp : Word} {m : ByteMemory} (h : Parked cfg id sp m s)
    (hready : Ready cfg s') (hsp : s'.sp (id - 1).toNat = s.sp (id - 1).toNat)
    (hbytes : ∀ x, cfg.slotBase (id - 1).toNat ≤ x → x < cfg.slotTop (id - 1).toNat →
      s'.processStackMemory x = s.processStackMemory x) : Parked cfg id sp m s' where
  ready := hready
  live := ⟨h.live.1, by rw [hsp]; exact h.live.2⟩
  saved := hsp.trans h.saved
  bytes := fun x hlo hhi => (hbytes x hlo hhi).trans (h.bytes x hlo hhi)

/-- A word written inside the stack of another slot. -/
theorem Config.setWord_elsewhere (cfg : Config) {n k addr x : Nat} (m : ByteMemory) (v : Word)
    (hne : n ≠ k) (hlo : cfg.slotBase n ≤ addr) (hhi : addr + 4 ≤ cfg.slotTop n)
    (hx : cfg.slotBase k ≤ x) (hx' : x < cfg.slotTop k) : m.setWord addr v x = m x := by
  have happart := cfg.slots_apart hne
  exact ByteMemory.setWord_apply_of_notMem (by omega)

theorem Config.link_le_top (cfg : Config) (n : Nat) : cfg.slotBase n + 4 ≤ cfg.slotTop n := by
  have h8 := cfg.eight_le_size
  rw [Config.slotTop]
  omega

/-- The slot of an identifier other than `id`. -/
theorem State.Live.slot_ne {id j : Word} (h : s.Live cfg id) (hj : s.Live cfg j) (hne : j ≠ id) :
    (j - 1).toNat ≠ (id - 1).toNat := by
  intro heq
  have hid := toNat_sub_one h.1.1
  have hjd := toNat_sub_one hj.1.1
  have hid0 : id.toNat ≠ 0 := fun h0 => h.1.1 (BitVec.eq_of_toNat_eq h0)
  have hjd0 : j.toNat ≠ 0 := fun h0 => hj.1.1 (BitVec.eq_of_toNat_eq h0)
  exact hne (BitVec.eq_of_toNat_eq (by omega))

theorem Parked.step {id sp : Word} {m : ByteMemory} {e : Event} (h : Parked cfg id sp m s)
    (hs : Transition.Guarded (Elsewhere cfg id) (Step cfg) s e s') : Parked cfg id sp m s' := by
  obtain ⟨hallowed, hstep⟩ := hs
  have hready : Ready cfg s' := h.ready.step ⟨hallowed.client, hstep⟩
  cases e with
  | setPsp v => cases hstep; exact h.congr hready rfl fun _ _ _ => rfl
  | setControl v => cases hstep; exact h.congr hready rfl fun _ _ _ => rfl
  | write addr v =>
      cases hstep
      obtain ⟨n, _, hne, _, hlo, hhi⟩ := hallowed
      exact h.congr hready rfl fun x => cfg.setWord_elsewhere _ v hne hlo hhi
  | call ipsr entry ret =>
      cases effect_of_exec hstep with
      | refused _ => exact h
      | init => exact hallowed.elim
      | alloc module hne hlt =>
          -- the head of the free list is inactive, so it is another slot
          have hslot : (id - 1).toNat ≠ s.processStackFreeSlot.toNat := by
            obtain ⟨l, hfree⟩ := h.ready.freeList
            have hinactive := (hfree.head_cases.resolve_left hne).2
            intro heq
            rw [← heq] at hinactive
            exact h.live.2 hinactive
          refine h.congr hready ?_ fun _ _ _ => rfl
          rw [State.popSlot, State.setSp_sp_ne _ hslot, State.setHead_sp]
      | free j hlive =>
          have hslot := h.live.slot_ne hlive hallowed
          refine h.congr hready ?_ fun x => ?_
          · rw [State.pushSlot, State.setHead_sp, State.setLink_sp, State.setSp_sp_ne _ hslot.symm]
          · exact cfg.setWord_elsewhere _ _ hslot (Nat.le_refl _) (cfg.link_le_top _)
      | load j hc hlive => exact h.congr hready rfl fun _ _ _ => rfl
      | store j hc hlive hrange =>
          have hslot := h.live.slot_ne hlive hallowed
          refine h.congr hready ?_ fun _ _ _ => rfl
          rw [State.storeSlot, State.setStack_sp, State.setSp_sp_ne _ hslot.symm]

theorem Parked.run {id sp : Word} {m : ByteMemory} {es : List Event} (h : Parked cfg id sp m s)
    (hr : ElsewhereRun cfg id s es s') : Parked cfg id sp m s' :=
  hr.invariant (fun _ _ _ hi hs => hi.step hs) h

/-- A successful store parks the context with the current `PSP`. -/
theorem Ready.parked_store (h : Ready cfg s) {ipsr id : Word}
    (hstore : exec cfg ipsr (.store id) s = some (1, s')) :
    Parked cfg id s.psp s.processStackMemory s' := by
  have heffect := effect_of_exec hstore
  have hready := h.effect heffect
  cases heffect with
  | store _ _ hlive hrange =>
      have hsp : (s.storeSlot cfg (id - 1)).sp (id - 1).toNat = s.psp := by
        rw [State.storeSlot, State.setStack_sp, State.setSp_sp_self]
      have hlo := ((h.records.inRange_iff hlive.1.slot_lt).mp hrange).1
      refine ⟨hready, ⟨hlive.1, ?_⟩, hsp, fun _ _ _ => rfl⟩
      rw [hsp]
      exact cfg.ne_zero_of_slotBase_le hlo

/-- A parked context can be loaded in handler mode. -/
theorem Parked.load {id sp : Word} {m : ByteMemory} (h : Parked cfg id sp m s) {ipsr : Word}
    (hi : ipsr ≠ 0) (hc : s.control &&& 2 ≠ 0) :
    exec cfg ipsr (.load id) s = some (1, s.loadSlot (id - 1)) := by
  rw [exec, tzLoadContextS_eq, if_pos ⟨⟨hi, hc⟩, h.live⟩]

/-! ## The result -/

/-- **Context switching is lossless and isolating.**  A context is loaded and
used, then stored, then other contexts run, then it is loaded again.  That load
succeeds, it installs the `PSP` and `PSPLIM` of the store, and every byte of
the stack is as it was. -/
theorem switch_lossless {s₀ s₁ s₂ s₃ s₄ s₅ : State} {es mid tail : List Event}
    {id ipsr₁ ipsr₃ ipsr₅ : Word} (h0 : IsReset s₀) (hr : ClientRun cfg s₀ es s₁)
    (hload : exec cfg ipsr₁ (.load id) s₁ = some (1, s₂))
    (hmid : ResidentRun cfg id s₂ mid s₃)
    (hstore : exec cfg ipsr₃ (.store id) s₃ = some (1, s₄))
    (htail : ElsewhereRun cfg id s₄ tail s₅)
    (hi : ipsr₅ ≠ 0) (hc : s₅.control &&& 2 ≠ 0) :
    ∃ s₆, exec cfg ipsr₅ (.load id) s₅ = some (1, s₆) ∧
      s₆.psp = s₃.psp ∧ s₆.psplim = s₃.psplim ∧
      ∀ x, cfg.slotBase (id - 1).toNat ≤ x → x < cfg.slotTop (id - 1).toNat →
        s₆.processStackMemory x = s₃.processStackMemory x := by
  have hready : Ready cfg s₁ := by
    have hd := (dormant_of_isReset h0).run hr
    by_cases hinit : Initialised es
    · exact hd.1 hinit
    · -- a dormant state has no context to load
      cases effect_of_exec hload with
      | load _ _ hlive => exact absurd ((hd.2 hinit).inactive _) hlive.2
  have hocc : Occupied cfg id s₃ := (hready.occupied_load hload).run hmid
  have hparked := (hocc.ready.parked_store hstore).run htail
  refine ⟨_, hparked.load hi hc, hparked.saved, ?_, hparked.bytes⟩
  rw [hocc.limit]
  exact hparked.ready.records.limit _ hparked.live.1.slot_lt

/-- Allocate both slots and load the first. -/
def switchIn : List Event :=
  [.call 11 .init 1, .call 11 (.alloc 0) 1, .call 11 (.alloc 0) 2]

/-- Use eight bytes of the stack. -/
def switchUse : List Event := [.write 0x2000100C 0xDEADBEEF, .setPsp 0x20001008]

/-- Run the second context, free it and allocate its slot again. -/
def switchAway : List Event :=
  [.call 14 (.load 2) 1, .write 0x20001010 0xFFFFFFFF, .setPsp 0x20001014,
    .call 14 (.store 2) 1, .call 11 (.free 2) 1, .call 11 (.alloc 0) 2]

def switchInPlay : Option State :=
  Transition.play (Transition.guardedNext (Client .small) (next .small)) .zero switchIn

theorem switchInPlay_isSome : switchInPlay.isSome := by decide

def switchLoad : Option State :=
  next .small (switchInPlay.get switchInPlay_isSome) (.call 14 (.load 1) 1)

theorem switchLoad_isSome : switchLoad.isSome := by decide

def switchUsePlay : Option State :=
  Transition.play (Transition.guardedNext (Resident .small 1) (next .small))
    (switchLoad.get switchLoad_isSome) switchUse

theorem switchUsePlay_isSome : switchUsePlay.isSome := by decide

/-- The state before the store. -/
def switchUsed : State := switchUsePlay.get switchUsePlay_isSome

def switchStore : Option State := next .small switchUsed (.call 14 (.store 1) 1)

theorem switchStore_isSome : switchStore.isSome := by decide

def switchAwayPlay : Option State :=
  Transition.play (Transition.guardedNext (Elsewhere .small 1) (next .small))
    (switchStore.get switchStore_isSome) switchAway

theorem switchAwayPlay_isSome : switchAwayPlay.isSome := by decide

/-- The state before the context is loaded again. -/
def switchedAway : State := switchAwayPlay.get switchAwayPlay_isSome

theorem switch_lossless_small :
    ∃ s, exec .small 14 (.load 1) switchedAway = some (1, s) ∧
      s.psp = switchUsed.psp ∧ s.psplim = switchUsed.psplim ∧
      ∀ x, Config.small.slotBase 0 ≤ x → x < Config.small.slotTop 0 →
        s.processStackMemory x = switchUsed.processStackMemory x :=
  switch_lossless isReset_zero (clientRun_of_play (Option.some_get switchInPlay_isSome).symm)
    (step_of_next (Option.some_get switchLoad_isSome).symm)
    (Transition.Run.of_play_guarded (fun _ _ _ => step_of_next)
      (Option.some_get switchUsePlay_isSome).symm)
    (step_of_next (Option.some_get switchStore_isSome).symm)
    (Transition.Run.of_play_guarded (fun _ _ _ => step_of_next)
      (Option.some_get switchAwayPlay_isSome).symm)
    (by decide) (by decide)

end TzContext
