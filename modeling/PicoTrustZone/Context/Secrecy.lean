import PicoTrustZone.Context.FreeList
import PicoTrustZone.Lib.Noninterference

/-!
# Secrecy of the stack contents

The allocator keeps the links of its free list in the same memory as the stacks
of the secure threads, and the non-secure side sees what it does with them: the
identifiers it hands out, and the registers it loads.  Nothing of what a thread
wrote may show in that.

It does not, because a link word is always written before it is read again:
a release writes the link of the slot it frees, and the initialisation writes
all of them.  So two states that `Agree` on everything except the stacks of the
allocated slots cannot be told apart by calls, and they still agree afterwards
(`unwinding_agree`).  `outputs_eq_of_inputs_eq` is what follows for whole runs.
-/

namespace TzContext

open Noninterference

variable {cfg : Config} {s s' t t' : State}

/-! ## What is seen of a run -/

/-- What the caller and the thread code fix at a call. -/
structure CallInput where
  ipsr : Word
  entry : Entry
  psp : Word
  control : Word
deriving DecidableEq

/-- What a call returns, and the registers and static variables it leaves apart
from the stacks. -/
structure CallOutput where
  ret : Word
  processStackInfo : Nat → StackInfo
  processStackFreeSlot : Word
  psp : Word
  psplim : Word
  control : Word

/-- The calls are seen, and what happens between them is not. -/
def callView (s : State) (e : Event) (s' : State) : Option (CallInput × CallOutput) :=
  match e with
  | .call ipsr entry ret =>
      some (⟨ipsr, entry, s.psp, s.control⟩,
        ⟨ret, s'.processStackInfo, s'.processStackFreeSlot, s'.psp, s'.psplim, s'.control⟩)
  | .setPsp _ | .setControl _ | .write _ _ => none

/-- A run of calls and client steps, as it is seen. -/
abbrev CallsObserved (cfg : Config) : State → List (CallInput × CallOutput) → State → Prop :=
  Observed (ClientStep cfg) callView

/-! ## States that agree -/

/-- The states differ at most in `PSP`, `CONTROL` and the stacks of the allocated
slots. -/
structure Agree (cfg : Config) (s t : State) : Prop where
  info : t.processStackInfo = s.processStackInfo
  head : t.processStackFreeSlot = s.processStackFreeSlot
  psplim : t.psplim = s.psplim
  link : ∀ n < cfg.slots, s.sp n = 0 → t.link cfg n = s.link cfg n

namespace Agree

theorem refl (s : State) : Agree cfg s s := ⟨rfl, rfl, rfl, fun _ _ _ => rfl⟩

theorem sp (h : Agree cfg s t) (n : Nat) : t.sp n = s.sp n := by
  rw [State.sp, State.sp, h.info]

theorem symm (h : Agree cfg s t) : Agree cfg t s :=
  ⟨h.info.symm, h.head.symm, h.psplim.symm, fun n hn h0 =>
    (h.link n hn (by rw [← h.sp]; exact h0)).symm⟩

theorem live_iff (h : Agree cfg s t) (id : Word) : t.Live cfg id ↔ s.Live cfg id := by
  rw [State.Live, State.Live, h.sp]

theorem inRange_iff (h : Agree cfg s t) (hpsp : t.psp = s.psp) (slot : Word) :
    t.InRange slot ↔ s.InRange slot := by
  rw [State.InRange, State.InRange, h.info, hpsp]

/-! ### Equal updates of both states -/

theorem setHead (h : Agree cfg s t) (v : Word) : Agree cfg (s.setHead v) (t.setHead v) :=
  ⟨h.info, rfl, h.psplim, h.link⟩

theorem setStack (h : Agree cfg s t) (limit top : Word) :
    Agree cfg (s.setStack limit top) (t.setStack limit top) :=
  ⟨h.info, h.head, rfl, h.link⟩

/-- A slot that is active afterwards has no link to agree on. -/
theorem setSp (h : Agree cfg s t) (n : Nat) {v : Word} (hv : v ≠ 0) :
    Agree cfg (s.setSp n v) (t.setSp n v) := by
  refine ⟨?_, h.head, h.psplim, fun k hk h0 => ?_⟩
  · rw [State.setSp, State.setSp, State.setInfo, State.setInfo, h.info]
  · rcases eq_or_ne k n with rfl | hkn
    · rw [State.setSp_sp_self] at h0
      exact absurd h0 hv
    · rw [State.setSp_sp_ne _ hkn] at h0
      exact h.link k hk h0

/-- A slot that becomes inactive gets its link in the same call. -/
theorem clear (h : Agree cfg s t) (n : Nat) (link : Word) :
    Agree cfg ((s.setSp n 0).setLink cfg n link) ((t.setSp n 0).setLink cfg n link) := by
  refine ⟨?_, h.head, h.psplim, fun k hk h0 => ?_⟩
  · rw [State.setLink_info, State.setLink_info, State.setSp, State.setSp, State.setInfo,
      State.setInfo, h.info]
  · rcases eq_or_ne k n with rfl | hkn
    · rw [State.setLink_link_self, State.setLink_link_self]
    · rw [State.setLink_link_ne _ hkn, State.setLink_link_ne _ hkn]
      rw [State.setLink_sp, State.setSp_sp_ne _ hkn] at h0
      exact h.link k hk h0

/-- The initialisation writes every link. -/
theorem initialise (h : Agree cfg s t) : Agree cfg (s.initialise cfg) (t.initialise cfg) := by
  refine ⟨?_, rfl, rfl, fun k hk _ => ?_⟩
  · funext n
    have hs := s.slotsInit_info cfg n cfg.slots
    have ht := t.slotsInit_info cfg n cfg.slots
    rw [h.info, ← hs] at ht
    exact ht
  · rcases Nat.lt_or_ge (k + 1) cfg.slots with hlt | hlast
    · rw [State.initialise_link s hlt, State.initialise_link t hlt]
    · obtain rfl : k = cfg.slots - 1 := by omega
      rw [State.initialise_link_last, State.initialise_link_last]

/-- Client writes do not reach the links of the inactive slots. -/
theorem write (h : Agree cfg s t) {addr : Nat} {v : Word} (hw : InAllocated cfg s addr) :
    Agree cfg { s with processStackMemory := s.processStackMemory.setWord addr v } t :=
  ⟨h.info, h.head, h.psplim, fun n hn h0 =>
    (h.link n hn h0).trans (link_write_of_inAllocated hw h0).symm⟩

end Agree

/-! ## One call -/

/-- States that agree, with the same `PSP` and `CONTROL`. -/
structure SameOutput (cfg : Config) (s t : State) : Prop where
  agree : Agree cfg s t
  psp : t.psp = s.psp
  control : t.control = s.control

/-- A call from states that agree returns the same in both and leaves states
that agree. -/
theorem SameOutput.exec (h : SameOutput cfg s t) (hready : Ready cfg s) {ipsr ret : Word}
    {e : Entry} (hs : exec cfg ipsr e s = some (ret, s')) :
    ∃ t', exec cfg ipsr e t = some (ret, t') ∧ SameOutput cfg s' t' := by
  obtain ⟨hagree, hpsp, hcontrol⟩ := h
  cases e with
  | init =>
      rw [TzContext.exec, tzInitContextSystemS_eq] at hs ⊢
      split at hs
      · next hi =>
        cases hs
        exact ⟨t, if_pos hi, hagree, hpsp, hcontrol⟩
      · next hi =>
        cases hs
        exact ⟨_, if_neg hi, hagree.initialise, rfl, rfl⟩
  | alloc module =>
      rw [TzContext.exec, tzAllocModuleContextS_eq] at hs ⊢
      rw [hagree.head]
      split at hs
      · next hg =>
        cases hs
        exact ⟨t, if_pos hg, hagree, hpsp, hcontrol⟩
      · next hg =>
        split at hs
        · next hlt =>
          cases hs
          refine ⟨_, (if_neg hg).trans (if_pos hlt), ?_, hpsp, hcontrol⟩
          -- the head is inactive, so both states read the same link
          obtain ⟨_, hfree⟩ := hready.freeList
          have h0 := (hfree.head_cases.resolve_left (not_or.mp hg).2).2
          have hlink := hagree.link _ hlt h0
          rw [State.popSlot, State.popSlot, hagree.head, hlink, hagree.info]
          exact (hagree.setHead _).setSp _ (hready.records.top_ne_zero hlt)
        · cases hs
  | free id =>
      rw [TzContext.exec, tzFreeModuleContextS_eq] at hs ⊢
      split at hs
      · next hg =>
        cases hs
        refine ⟨_, if_pos ⟨hg.1, (hagree.live_iff id).mpr hg.2⟩, ?_, hpsp, hcontrol⟩
        rw [State.pushSlot, State.pushSlot, hagree.head]
        exact (hagree.clear _ _).setHead _
      · next hg =>
        cases hs
        refine ⟨t, if_neg fun ht => hg ?_, hagree, hpsp, hcontrol⟩
        exact ⟨ht.1, (hagree.live_iff id).mp ht.2⟩
  | load id =>
      rw [TzContext.exec, tzLoadContextS_eq] at hs ⊢
      rw [hcontrol]
      split at hs
      · next hg =>
        cases hs
        refine ⟨_, if_pos ⟨hg.1, (hagree.live_iff id).mpr hg.2⟩, ?_, hagree.sp _, hcontrol⟩
        rw [State.loadSlot, State.loadSlot, hagree.info, hagree.sp]
        exact hagree.setStack _ _
      · next hg =>
        cases hs
        refine ⟨t, if_neg fun ht => hg ?_, hagree, hpsp, hcontrol⟩
        exact ⟨ht.1, (hagree.live_iff id).mp ht.2⟩
  | store id =>
      rw [TzContext.exec, tzStoreContextS_eq] at hs ⊢
      rw [hcontrol]
      have hlive := hagree.live_iff id
      have hrange := hagree.inRange_iff hpsp (id - 1)
      split at hs
      · next hg =>
        cases hs
        refine ⟨_, if_pos ⟨hg.1, hlive.mpr hg.2.1, hrange.mpr hg.2.2⟩, ?_, rfl, hcontrol⟩
        have hlt := hg.2.1.1.slot_lt
        have hlo := ((hready.records.inRange_iff hlt).mp hg.2.2).1
        rw [State.storeSlot, State.storeSlot, hpsp]
        exact (hagree.setSp _ (cfg.ne_zero_of_slotBase_le hlo)).setStack _ _
      · next hg =>
        cases hs
        refine ⟨t, if_neg fun ht => hg ?_, hagree, hpsp, hcontrol⟩
        exact ⟨ht.1, hlive.mp ht.2.1, hrange.mp ht.2.2⟩

/-! ## Runs -/

/-- Initialised states that agree. -/
structure Indistinguishable (cfg : Config) (s t : State) : Prop where
  left : Ready cfg s
  right : Ready cfg t
  agree : Agree cfg s t

theorem Indistinguishable.silent {e : Event} (h : Indistinguishable cfg s t)
    (hs : ClientStep cfg s e s') (hv : callView s e s' = none) : Indistinguishable cfg s' t := by
  refine ⟨h.left.step hs, h.right, ?_⟩
  obtain ⟨hallowed, hstep⟩ := hs
  cases e with
  | call ipsr entry ret => cases hv
  | setPsp v =>
      cases hstep
      exact ⟨h.agree.info, h.agree.head, h.agree.psplim, h.agree.link⟩
  | setControl v =>
      cases hstep
      exact ⟨h.agree.info, h.agree.head, h.agree.psplim, h.agree.link⟩
  | write addr v =>
      cases hstep
      exact h.agree.write hallowed

theorem Indistinguishable.visible {e f : Event} {a : CallInput} {b c : CallOutput}
    (h : Indistinguishable cfg s t) (hs : ClientStep cfg s e s') (ht : ClientStep cfg t f t')
    (hv : callView s e s' = some (a, b)) (hw : callView t f t' = some (a, c)) :
    b = c ∧ Indistinguishable cfg s' t' := by
  have hleft := h.left.step hs
  have hright := h.right.step ht
  cases e with
  | setPsp v => cases hv
  | setControl v => cases hv
  | write addr v => cases hv
  | call ipsr entry ret =>
    cases f with
    | setPsp v => cases hw
    | setControl v => cases hw
    | write addr v => cases hw
    | call ipsr' entry' ret' =>
      obtain ⟨hin, rfl⟩ := Prod.mk.inj (Option.some.inj hv)
      obtain ⟨hin', rfl⟩ := Prod.mk.inj (Option.some.inj hw)
      -- the inputs are equal, so the same call is made with the same registers
      obtain ⟨rfl, rfl, hpsp, hcontrol⟩ := CallInput.mk.inj (hin.trans hin'.symm)
      obtain ⟨t₁, hexec, hsame⟩ :=
        SameOutput.exec ⟨h.agree, hpsp.symm, hcontrol.symm⟩ h.left hs.2
      obtain ⟨rfl, rfl⟩ := Prod.mk.inj (Option.some.inj (hexec.symm.trans ht.2))
      refine ⟨?_, hleft, hright, hsame.agree⟩
      rw [hsame.agree.info, hsame.agree.head, hsame.psp, hsame.agree.psplim, hsame.control]

theorem unwinding_agree (cfg : Config) :
    Unwinding (ClientStep cfg) callView (Indistinguishable cfg) where
  symm := fun h => ⟨h.right, h.left, h.agree.symm⟩
  silent := fun h hs hv => h.silent hs hv
  visible := fun h hs ht hv hw => h.visible hs ht hv hw

/-- **Stack contents stay secret.**  Two runs from the same initialised state,
in which thread code writes what it likes into the stacks of allocated slots: if
the calls are the same and `PSP` and `CONTROL` are the same before each call,
every call returns the same in both and leaves the same records and registers. -/
theorem outputs_eq_of_inputs_eq {s₀ s₁ s₂ : State} {es : List Event}
    {obs₁ obs₂ : List (CallInput × CallOutput)} (h0 : IsReset s₀) (hr : ClientRun cfg s₀ es s)
    (hi : Initialised es) (h₁ : CallsObserved cfg s obs₁ s₁) (h₂ : CallsObserved cfg s obs₂ s₂)
    (hin : obs₁.map Prod.fst = obs₂.map Prod.fst) : obs₁.map Prod.snd = obs₂.map Prod.snd := by
  have hready : Ready cfg s := ((dormant_of_isReset h0).run hr).1 hi
  obtain ⟨rfl, _⟩ := (unwinding_agree cfg).observed_eq h₁ h₂ ⟨hready, hready, .refl s⟩ hin
  rfl

/-- Write a word into the stack of slot 0, free the slot and allocate it again. -/
def reuseEvents (v : Word) : List Event :=
  [.write 0x20001000 v, .call 11 (.free 1) 1, .call 11 (.alloc 0) 1]

/-- What is seen of them after `smallEvents`. -/
def reuseObserve (v : Word) : Option (List (CallInput × CallOutput) × State) :=
  observe (Transition.guardedNext (Client .small) (next .small)) callView smallState (reuseEvents v)

theorem reuseObserve_isSome : (reuseObserve 1).isSome ∧ (reuseObserve 0xDEADBEEF).isSome := by
  decide

theorem callsObserved_reuse {v : Word} (h : (reuseObserve v).isSome) :
    CallsObserved .small smallState ((reuseObserve v).get h).1 ((reuseObserve v).get h).2 :=
  Observed.of_observe (Transition.guarded_of_guardedNext fun _ _ _ => step_of_next)
    (Option.some_get h).symm

theorem outputs_eq_of_inputs_eq_reuse :
    ((reuseObserve 1).get reuseObserve_isSome.1).1.map Prod.snd =
      ((reuseObserve 0xDEADBEEF).get reuseObserve_isSome.2).1.map Prod.snd :=
  outputs_eq_of_inputs_eq isReset_zero clientRun_small initialised_small
    (callsObserved_reuse reuseObserve_isSome.1) (callsObserved_reuse reuseObserve_isSome.2)
    (by decide)

end TzContext
