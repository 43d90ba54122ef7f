import PicoTrustZone.SecureContext.OnHeap
import PicoTrustZone.SecureContext.Stackless

/-!
# The kernel as a client of the secure contexts

The kernel allocates, frees, loads and saves contexts in any order, and secure code
runs on the stack of the context that is loaded.  If the kernel uses handles that it
was given and does not free the context that is loaded, and secure code writes into
its own stack, then in every run each call returns, and a context that is saved is
found again as it was.
-/

namespace SecureContext

open ByteMemory Transition
open SecureHeap (Layout Outside Abstract)

variable {L : Layout}

/-! ## Ghost state -/

/-- A state with its contexts and the handle of the one that is loaded. -/
structure Managed where
  state : State
  contexts : List Context
  loaded : Option Word

/-- How an event changes the contexts. -/
def trackContexts (u : Managed) (s' : State) : Event → List Context
  | .allocate _ size _ handle =>
      if handle = 0 then u.contexts
      else ⟨handle, s'.word (handle + 4), size, s'.word handle⟩ :: u.contexts
  | .free ipsr handle => if ipsr ≠ 0 then freedContexts u.contexts handle else u.contexts
  | .save ipsr handle =>
      if ipsr ≠ 0 then savedContexts u.contexts handle u.state.psp else u.contexts
  | _ => u.contexts

/-- The state that an event leads to, with its ghost state. -/
def managedNext (L : Layout) (u : Managed) (e : Event) : Option Managed :=
  (next freeRTOSConfig (secureHeap L) u.state e).map fun s' =>
    ⟨s', trackContexts u s' e, trackLoaded u.loaded e⟩

/-- One event, with the ghost state. -/
def ManagedStep (L : Layout) (u : Managed) (e : Event) (u' : Managed) : Prop :=
  managedNext L u e = some u'

/-- An address in the stack of the context that is loaded. -/
def InLoadedStack (u : Managed) (z : Nat) : Prop :=
  ∃ c ∈ u.contexts, u.loaded = some c.handle ∧ c.stack.toNat ≤ z ∧
    z < c.stack.toNat + c.size.toNat

/-- The rules: handles are those of contexts, the loaded context is not freed, and
secure code writes into its stack or outside the heap. -/
def Obeys (L : Layout) (u : Managed) : Event → Prop
  | .free ipsr handle =>
      ipsr ≠ 0 → (∃ c ∈ u.contexts, c.handle = handle) ∧ u.loaded ≠ some handle
  | .load ipsr handle => ipsr ≠ 0 → ∃ c ∈ u.contexts, c.handle = handle
  | .save ipsr handle => ipsr ≠ 0 → ∃ c ∈ u.contexts, c.handle = handle
  | .write addr _ => ∀ z, addr.toNat ≤ z → z < addr.toNat + 4 → Outside L z ∨ InLoadedStack u z
  | _ => True

instance (u : Managed) (z : Nat) : Decidable (InLoadedStack u z) :=
  inferInstanceAs (Decidable (∃ c ∈ u.contexts, _ ∧ _ ∧ _))

instance (L : Layout) (u : Managed) : (e : Event) → Decidable (Obeys L u e)
  | .free _ _ => inferInstanceAs (Decidable (_ → (∃ c ∈ u.contexts, _) ∧ _))
  | .load _ _ => inferInstanceAs (Decidable (_ → ∃ c ∈ u.contexts, _))
  | .save _ _ => inferInstanceAs (Decidable (_ → ∃ c ∈ u.contexts, _))
  | .write addr _ =>
      decidable_of_iff (∀ i < 4, Outside L (addr.toNat + i) ∨ InLoadedStack u (addr.toNat + i))
        ⟨fun h z hlo hhi => by
            have := h (z - addr.toNat) (by omega)
            rwa [Nat.add_sub_cancel' hlo] at this,
          fun h i hi => h _ (Nat.le_add_right ..) (by omega)⟩
  | .init _ | .allocate _ _ _ _ | .setPsp _ | .setControl _ => isTrue trivial

/-- The runs of a kernel that obeys the rules. -/
abbrev ManagedRun (L : Layout) : Managed → List Event → Managed → Prop :=
  Run (Guarded (Obeys L) (ManagedStep L))

/-- Before the first call: the heap is as the startup code leaves it. -/
def managedStart (s : State) : Managed := ⟨s, [], none⟩

/-! ## The invariant -/

/-- The memory holds the contexts, and the stack limit is that of the loaded one. -/
structure Sound (L : Layout) (u : Managed) : Prop where
  manages : ∃ t, Manages L u.state.memory u.contexts t
  loaded : ∀ handle, u.loaded = some handle →
    ∃ c ∈ u.contexts, c.handle = handle ∧ u.state.psplim = c.stack

variable {u u' u₁ u₂ u₃ u₄ : Managed} {e : Event} {es es' : List Event} {s : State} {c : Context}
  {cs : List Context} {handle ipsr sp : Word}

theorem Sound.init (h : SecureHeap.Started L ⟨s.memory, []⟩) : Sound L (managedStart s) := by
  refine ⟨⟨.init L, .init h, ?_⟩, ?_⟩
  · intro c hc
    cases hc
  · intro handle hh
    cases hh

theorem mem_savedContexts_of_ne (hc : c ∈ cs) (hne : c.handle ≠ handle) :
    c ∈ savedContexts cs handle sp :=
  List.mem_map.mpr ⟨c, hc, if_neg hne⟩

theorem mem_freedContexts : c ∈ freedContexts cs handle ↔ c ∈ cs ∧ c.handle ≠ handle := by
  rw [freedContexts, List.mem_filter, decide_eq_true_eq]

/-- What a write of secure code changes. -/
theorem write_apply {addr v : Word} {z : Nat} (ho : Obeys L u (.write addr v))
    (hz : ¬ Outside L z) (hstack : ¬ InLoadedStack u z) :
    (u.state.setWord addr v).memory z = u.state.memory z := by
  refine setWord_apply_of_notMem ?_
  rcases Nat.lt_or_ge z addr.toNat with hlt | hge
  · exact .inl hlt
  · rcases Nat.lt_or_ge z (addr.toNat + 4) with hlt | hge'
    · rcases ho z hge hlt with hout | hin
      · exact absurd hout hz
      · exact absurd hin hstack
    · exact .inr hge'

/-- The stack of a context is not the heap's. -/
theorem kept_of_stack {z : Nat} (hc : c ∈ cs) (hlo : c.stack.toNat ≤ z)
    (hhi : z < c.stack.toNat + c.size.toNat) : Kept L cs z :=
  .lent hc (Context.mem_blocks.mpr (.inl rfl)) hlo hhi

/-- An event that frees, loads or saves the context with this handle. -/
def Concerns (handle : Word) : Event → Prop
  | .free ipsr h => ipsr ≠ 0 ∧ h = handle
  | .load ipsr h => ipsr ≠ 0 ∧ h = handle
  | .save ipsr h => ipsr ≠ 0 ∧ h = handle
  | _ => False

instance (handle : Word) : (e : Event) → Decidable (Concerns handle e)
  | .free _ _ | .load _ _ | .save _ _ => inferInstanceAs (Decidable (_ ∧ _))
  | .init _ | .allocate _ _ _ _ | .setPsp _ | .setControl _ | .write _ _ => isFalse id

/-- What an event leaves of a context that is not loaded. -/
structure KeepsContext (u u' : Managed) (c : Context) : Prop where
  mem : c ∈ u'.contexts
  notLoaded : u'.loaded ≠ some c.handle
  stack : ∀ z, c.stack.toNat ≤ z → z < c.stack.toNat + c.size.toNat →
    u'.state.memory z = u.state.memory z

/-- What an event leaves of the contexts that it does not concern. -/
def KeepsOthers (e : Event) (u u' : Managed) : Prop :=
  ∀ c ∈ u.contexts, u.loaded ≠ some c.handle → ¬ Concerns c.handle e → KeepsContext u u' c

/-! ## One event -/

/-- An event that changes neither the memory nor the stack limit. -/
theorem Sound.idle {s' : State} (h : Sound L u) (hm : s'.memory = u.state.memory)
    (hlim : s'.psplim = u.state.psplim) :
    Sound L ⟨s', u.contexts, u.loaded⟩ ∧ KeepsOthers e u ⟨s', u.contexts, u.loaded⟩ := by
  obtain ⟨⟨t, ht⟩, hl⟩ := h
  constructor
  · refine ⟨⟨t, ?_⟩, fun handle hh => ?_⟩
    · show Manages L s'.memory u.contexts t
      rw [hm]
      exact ht
    · obtain ⟨c, hc, hch, hcl⟩ := hl handle hh
      exact ⟨c, hc, hch, hlim.trans hcl⟩
  · intro c hc hnl _
    exact ⟨hc, hnl, fun z _ _ => congrFun hm z⟩

theorem Sound.step_init (h : Sound L u) (hs : ManagedStep L u (.init ipsr) u') :
    Sound L u' ∧ KeepsOthers (.init ipsr) u u' := by
  cases hs
  refine h.idle ?_ (secureContextInit_stack freeRTOSConfig ipsr u.state).2
  rw [secureContextInit]
  split
  · rfl
  · rfl

theorem Sound.step_allocate {size privileged : Word} (h : Sound L u)
    (hs : ManagedStep L u (.allocate ipsr size privileged handle) u') :
    Sound L u' ∧ KeepsOthers (.allocate ipsr size privileged handle) u u' := by
  obtain ⟨s', hnext, rfl⟩ := Option.map_eq_some_iff.mp hs
  rw [next] at hnext
  split at hnext
  · next ret s₁ hret =>
    split at hnext
    · next hr =>
      cases hnext
      subst hr
      rcases Decidable.em (ipsr = 0) with hthread | hipsr
      · rw [secureContextAllocateContext, if_neg (not_not.mpr hthread)] at hret
        cases hret
        exact h.idle rfl rfl
      · obtain ⟨⟨t, ht⟩, hl⟩ := h
        obtain ⟨handle', m, t', hcall, hkept, hcases⟩ := ht.allocate hipsr size privileged
        cases hret.symm.trans hcall
        rcases hcases with ⟨rfl, hm, _⟩ | ⟨hne, stack, _, _, _, _, hm⟩
        · refine ⟨⟨⟨t', hm⟩, hl⟩, fun c hc hnl _ => ⟨hc, hnl, fun z hlo hhi => ?_⟩⟩
          exact hkept z (kept_of_stack hc hlo hhi)
        · -- the new context is in front of the others
          obtain ⟨hsp, hlimit, _⟩ := hm.stored _ (List.mem_cons_self ..)
          dsimp only at hsp hlimit
          have hcs : trackContexts u { u.state with memory := m }
              (.allocate ipsr size privileged ret) =
                ⟨ret, stack, size, stack + size⟩ :: u.contexts := by
            simp only [trackContexts, if_neg hne, State.word, hsp, hlimit]
          rw [hcs]
          refine ⟨⟨⟨t', hm⟩, fun handle hh => ?_⟩, fun c hc hnl _ => ?_⟩
          · obtain ⟨c, hc, hch, hlim⟩ := hl handle hh
            exact ⟨c, List.mem_cons_of_mem _ hc, hch, hlim⟩
          · refine ⟨List.mem_cons_of_mem _ hc, hnl, fun z hlo hhi => ?_⟩
            exact hkept z (kept_of_stack hc hlo hhi)
    · cases hnext
  · cases hnext

theorem Sound.step_free (h : Sound L u) (ho : Obeys L u (.free ipsr handle))
    (hs : ManagedStep L u (.free ipsr handle) u') :
    Sound L u' ∧ KeepsOthers (.free ipsr handle) u u' := by
  obtain ⟨s', hnext, rfl⟩ := Option.map_eq_some_iff.mp hs
  rw [next] at hnext
  rcases Decidable.em (ipsr = 0) with hthread | hipsr
  · rw [secureContextFreeContext, if_neg (not_not.mpr hthread)] at hnext
    cases hnext
    simp only [trackContexts, if_neg (not_not.mpr hthread)]
    exact h.idle rfl rfl
  · obtain ⟨⟨t, ht⟩, hl⟩ := h
    obtain ⟨⟨d, hd, rfl⟩, hnl⟩ := ho hipsr
    obtain ⟨m, _, t', hcall, _, _, hm, hkept⟩ := ht.free hd hipsr
    cases hnext.symm.trans hcall
    simp only [trackContexts, if_pos hipsr]
    refine ⟨⟨⟨t', hm⟩, fun handle hh => ?_⟩, fun c hc hnl' hn => ?_⟩
    · obtain ⟨c, hc, hch, hlim⟩ := hl handle hh
      refine ⟨c, mem_freedContexts.mpr ⟨hc, fun he => hnl ?_⟩, hch, hlim⟩
      rw [← he, hch]
      exact hh
    · have hmem : c ∈ freedContexts u.contexts d.handle :=
        mem_freedContexts.mpr ⟨hc, fun heq => hn ⟨hipsr, heq.symm⟩⟩
      exact ⟨hmem, hnl', fun z hlo hhi => hkept z (kept_of_stack hmem hlo hhi)⟩

theorem Sound.step_load (h : Sound L u) (ho : Obeys L u (.load ipsr handle))
    (hs : ManagedStep L u (.load ipsr handle) u') :
    Sound L u' ∧ KeepsOthers (.load ipsr handle) u u' := by
  obtain ⟨s', hnext, rfl⟩ := Option.map_eq_some_iff.mp hs
  rw [next, Option.some_inj] at hnext
  subst hnext
  rcases Decidable.em (ipsr = 0) with hthread | hipsr
  · rw [secureContextLoadContext, if_neg (not_not.mpr hthread)]
    simp only [trackContexts, trackLoaded, if_neg (not_not.mpr hthread)]
    exact h.idle rfl rfl
  · obtain ⟨⟨t, ht⟩, _⟩ := h
    obtain ⟨d, hd, rfl⟩ := ho hipsr
    rw [ht.load hd hipsr]
    simp only [trackContexts, trackLoaded, if_pos hipsr]
    refine ⟨⟨⟨t, ht⟩, fun handle hh => ?_⟩, fun c hc _ hn => ⟨hc, fun heq => hn ?_, ?_⟩⟩
    · cases hh
      exact ⟨d, hd, rfl, rfl⟩
    · exact ⟨hipsr, Option.some_inj.mp heq⟩
    · exact fun _ _ _ => rfl

/-- The stack of one context is not in the descriptor of another. -/
theorem Sound.stack_apart (h : Sound L u) (hc : c ∈ u.contexts) {d : Context}
    (hd : d ∈ u.contexts) (hne : c.handle ≠ d.handle) {z : Nat} (hlo : c.stack.toNat ≤ z)
    (hhi : z < c.stack.toNat + c.size.toNat) :
    z < d.handle.toNat ∨ d.handle.toNat + 12 ≤ z := by
  obtain ⟨⟨t, ht⟩, _⟩ := h
  have hdis := ht.heap.disjoint_of_ne hc hd (fun heq => hne (congrArg _ heq)) _
    (Context.mem_blocks.mpr (.inl rfl)) _ (Context.mem_blocks.mpr (.inr rfl))
  rw [SecureHeap.Disjoint] at hdis
  dsimp only at hdis
  omega

theorem Sound.step_save (h : Sound L u) (ho : Obeys L u (.save ipsr handle))
    (hs : ManagedStep L u (.save ipsr handle) u') :
    Sound L u' ∧ KeepsOthers (.save ipsr handle) u u' := by
  obtain ⟨s', hnext, rfl⟩ := Option.map_eq_some_iff.mp hs
  rw [next, Option.some_inj] at hnext
  subst hnext
  rcases Decidable.em (ipsr = 0) with hthread | hipsr
  · rw [secureContextSaveContext, if_neg (not_not.mpr hthread)]
    simp only [trackContexts, trackLoaded, if_neg (not_not.mpr hthread)]
    exact h.idle rfl rfl
  · obtain ⟨t, ht⟩ := h.manages
    obtain ⟨d, hd, rfl⟩ := ho hipsr
    obtain ⟨m, hcall, hm, hkept⟩ := ht.save hd hipsr
    rw [hcall]
    simp only [trackContexts, trackLoaded, if_pos hipsr]
    refine ⟨⟨⟨t, hm⟩, fun handle hh => by cases hh⟩, fun c hc _ hn => ?_⟩
    have hne : c.handle ≠ d.handle := fun heq => hn ⟨hipsr, heq.symm⟩
    refine ⟨mem_savedContexts_of_ne hc hne, by simp, fun z hlo hhi => hkept z ?_⟩
    exact h.stack_apart hc hd hne hlo hhi

/-- The stack of a context that is not loaded is not the one in use. -/
theorem Sound.not_inLoadedStack (h : Sound L u) (hc : c ∈ u.contexts)
    (hnl : u.loaded ≠ some c.handle) {z : Nat} (hlo : c.stack.toNat ≤ z)
    (hhi : z < c.stack.toNat + c.size.toNat) : ¬ InLoadedStack u z := by
  rintro ⟨d, hd, hld, hlo', hhi'⟩
  obtain ⟨⟨t, ht⟩, _⟩ := h
  have hne : c ≠ d := fun heq => hnl (heq ▸ hld)
  have hdis := ht.heap.disjoint_of_ne hc hd hne _ (Context.mem_blocks.mpr (.inl rfl)) _
    (Context.mem_blocks.mpr (.inl rfl))
  rw [SecureHeap.Disjoint] at hdis
  dsimp only at hdis
  omega

theorem Sound.step_write {addr v : Word} (h : Sound L u) (ho : Obeys L u (.write addr v))
    (hs : ManagedStep L u (.write addr v) u') :
    Sound L u' ∧ KeepsOthers (.write addr v) u u' := by
  obtain ⟨t, ht⟩ := h.manages
  cases hs
  constructor
  · refine ⟨⟨t, ht.write fun z hz hstack => write_apply ho hz ?_⟩, h.loaded⟩
    rintro ⟨c, hc, _, hlo, hhi⟩
    have := hstack c hc
    omega
  · intro c hc hnl _
    refine ⟨hc, hnl, fun z hlo hhi => ?_⟩
    refine write_apply ho (fun hout => ?_) (h.not_inLoadedStack hc hnl hlo hhi)
    obtain ⟨hin, hin'⟩ := ht.heap.inHeap hc (Context.mem_blocks.mpr (.inl rfl))
    have := hout.ucHeap
    dsimp only at hin hin'
    omega

/-- What one event preserves. -/
theorem Sound.step (h : Sound L u) (ho : Obeys L u e) (hs : ManagedStep L u e u') :
    Sound L u' ∧ KeepsOthers e u u' := by
  cases e with
  | init ipsr => exact h.step_init hs
  | allocate ipsr size privileged handle => exact h.step_allocate hs
  | free ipsr handle => exact h.step_free ho hs
  | load ipsr handle => exact h.step_load ho hs
  | save ipsr handle => exact h.step_save ho hs
  | setPsp v =>
      cases hs
      exact h.idle rfl rfl
  | setControl v =>
      cases hs
      exact h.idle rfl rfl
  | write addr v => exact h.step_write ho hs

/-- What a run preserves. -/
theorem Sound.run (h : Sound L u) (hr : ManagedRun L u es u') : Sound L u' :=
  hr.invariant (fun _ _ _ hi hs => (hi.step hs.1 hs.2).1) h

/-! ## Contexts that are not loaded -/

/-- A context that is not loaded, in a memory where its stack holds what it held in `m`. -/
structure ParkedContext (u : Managed) (c : Context) (m : ByteMemory) : Prop where
  mem : c ∈ u.contexts
  notLoaded : u.loaded ≠ some c.handle
  stack : ∀ z, c.stack.toNat ≤ z → z < c.stack.toNat + c.size.toNat → u.state.memory z = m z

/-- What one event does to it. -/
theorem ParkedContext.step {m : ByteMemory} (hp : ParkedContext u c m) (hk : KeepsOthers e u u')
    (he : ¬ Concerns c.handle e) : ParkedContext u' c m := by
  obtain ⟨hc, hnl, hstack⟩ := hk c hp.mem hp.notLoaded he
  exact ⟨hc, hnl, fun z hlo hhi => (hstack z hlo hhi).trans (hp.stack z hlo hhi)⟩

/-- What a run does to it. -/
theorem ParkedContext.run {m : ByteMemory} (hp : ParkedContext u c m) (h : Sound L u)
    (hr : ManagedRun L u es u') (he : ∀ e ∈ es, ¬ Concerns c.handle e) :
    Sound L u' ∧ ParkedContext u' c m := by
  refine hr.invariant_of_mem (I := fun v => Sound L v ∧ ParkedContext v c m) ?_ ⟨h, hp⟩
  rintro e hmem v v' ⟨hv, hpv⟩ ⟨ho, hs⟩
  obtain ⟨hv', hk⟩ := hv.step ho hs
  exact ⟨hv', hpv.step hk (he e hmem)⟩

/-- A saved context, as its handle is not loaded any more. -/
theorem Sound.parked_save (h : Sound L u) (hc : c ∈ u.contexts) (hipsr : ipsr ≠ 0)
    (hs : ManagedStep L u (.save ipsr c.handle) u') :
    ParkedContext u' { c with sp := u.state.psp } u.state.memory := by
  obtain ⟨s', hnext, rfl⟩ := Option.map_eq_some_iff.mp hs
  obtain ⟨⟨t, hm⟩, _⟩ := h
  rw [next, Option.some_inj] at hnext
  subst hnext
  obtain ⟨m', hcall, _, hkept⟩ := hm.save hc hipsr
  rw [hcall]
  simp only [trackContexts, trackLoaded, if_pos hipsr]
  refine ⟨List.mem_map.mpr ⟨c, hc, if_pos rfl⟩, by simp, fun z hlo hhi => hkept z ?_⟩
  have hdis := hm.heap.disjoint_self hc
  rw [SecureHeap.Disjoint] at hdis
  dsimp only at hdis hlo hhi
  omega

/-! ## Every run -/

/-- Whatever a kernel does that obeys the rules, each call returns, the descriptors hold
the stacks, descriptors and stacks lie in the heap and do not meet, and the stack limit
is the bottom of the stack that is loaded. -/
theorem contexts_safe_of_run (h : SecureHeap.Started L ⟨s.memory, []⟩)
    (hr : ManagedRun L (managedStart s) es u) :
    (∀ ipsr size privileged, ∃ handle s', secureContextAllocateContext freeRTOSConfig
        (secureHeap L) ipsr size privileged u.state = some (handle, s')) ∧
      (∀ ipsr handle, Obeys L u (.free ipsr handle) →
        ∃ s', secureContextFreeContext (secureHeap L) ipsr handle u.state = some s') ∧
      (∀ c ∈ u.contexts, c.Stored u.state.memory) ∧
      (u.contexts.flatMap Context.blocks).Pairwise SecureHeap.Disjoint ∧
      (∀ x ∈ u.contexts.flatMap Context.blocks,
        8 ∣ x.1 ∧ L.ucHeap ≤ x.1 ∧ x.1 + x.2 ≤ L.ucHeap + L.totalHeapSize) ∧
      ∀ handle, u.loaded = some handle →
        ∃ c ∈ u.contexts, c.handle = handle ∧ u.state.psplim = c.stack := by
  obtain ⟨⟨t, hm⟩, hl⟩ := (Sound.init h).run hr
  obtain ⟨hdisjoint, hbounds⟩ := SecureHeap.Simulates.disjoint hm.heap
  refine ⟨fun ipsr size privileged => ?_, fun ipsr handle ho => ?_, hm.stored, hdisjoint, hbounds,
    hl⟩
  · rcases Decidable.em (ipsr = 0) with hthread | hipsr
    · exact ⟨0, u.state, if_neg (not_not.mpr hthread)⟩
    · obtain ⟨handle, m, _, hcall, _⟩ := hm.allocate hipsr size privileged
      exact ⟨handle, _, hcall⟩
  · rcases Decidable.em (ipsr = 0) with hthread | hipsr
    · exact ⟨u.state, if_neg (not_not.mpr hthread)⟩
    · obtain ⟨⟨c, hc, rfl⟩, _⟩ := ho hipsr
      obtain ⟨m, _, _, hcall, _⟩ := hm.free hc hipsr
      exact ⟨_, hcall⟩

/-- A run that is computed, with the contexts at its end. -/
theorem exists_managedRun (L : Layout) (u : Managed) (es : List Event) (cs : List Context)
    (h : (play (guardedNext (Obeys L) (managedNext L)) u es).map Managed.contexts = some cs) :
    ∃ u', ManagedRun L u es u' ∧ u'.contexts = cs := by
  obtain ⟨u', hu, hcs⟩ := Option.map_eq_some_iff.mp h
  exact ⟨u', Run.of_play_guarded (fun _ _ _ h => h) hu, hcs⟩

/-- The registers and the memory of an image that has been started. -/
def imageStart : State := .withStack 0 0

theorem started_imageStart :
    SecureHeap.Started SecureHeap.imageLayout ⟨imageStart.memory, []⟩ :=
  SecureHeap.started_imageState

/-- Two contexts are allocated, and the first one is loaded and moves its stack pointer. -/
def imageContextEvents : List Event :=
  [.allocate 11 256 0 0x20000110, .allocate 11 64 0 0x20000230, .load 11 0x20000110,
    .setPsp 0x20000220]

/-- The contexts afterwards. -/
def imageContexts : List Context :=
  [⟨0x20000230, 0x20000248, 64, 0x20000288⟩, ⟨0x20000110, 0x20000128, 256, 0x20000228⟩]

theorem exists_imageContexts : ∃ u, ManagedRun SecureHeap.imageLayout
    (managedStart imageStart) imageContextEvents u ∧ u.contexts = imageContexts :=
  exists_managedRun _ _ _ _ (by decide +kernel)

theorem contexts_safe_of_run_image : ∃ u, ManagedRun SecureHeap.imageLayout
    (managedStart imageStart) imageContextEvents u ∧
    ∀ c ∈ imageContexts, c.Stored u.state.memory := by
  obtain ⟨u, hr, hcs⟩ := exists_imageContexts
  obtain ⟨_, _, hstored, _⟩ := contexts_safe_of_run started_imageStart hr
  rw [hcs] at hstored
  exact ⟨u, hr, hstored⟩

/-- A context that was saved is found as it was, whatever happens to others meanwhile:
other contexts are allocated, freed, loaded, run and saved in between, and then loading
it restores the stack pointer and the stack limit, and its stack holds what it held. -/
theorem restored_of_run {ipsr' : Word} (h : SecureHeap.Started L ⟨s.memory, []⟩)
    (hr : ManagedRun L (managedStart s) es u₁) (hc : c ∈ u₁.contexts) (hipsr : ipsr ≠ 0)
    (hsave : ManagedStep L u₁ (.save ipsr c.handle) u₂) (hr' : ManagedRun L u₂ es' u₃)
    (hothers : ∀ e ∈ es', ¬ Concerns c.handle e) (hipsr' : ipsr' ≠ 0)
    (hload : ManagedStep L u₃ (.load ipsr' c.handle) u₄) :
    u₄.state.psp = u₁.state.psp ∧ u₄.state.psplim = c.stack ∧
      ∀ z, c.stack.toNat ≤ z → z < c.stack.toNat + c.size.toNat →
        u₄.state.memory z = u₁.state.memory z := by
  have h₁ : Sound L u₁ := (Sound.init h).run hr
  obtain ⟨h₂, _⟩ := h₁.step_save (fun _ => ⟨c, hc, rfl⟩) hsave
  have hp₂ := h₁.parked_save hc hipsr hsave
  obtain ⟨⟨⟨t, hm⟩, _⟩, hp₃⟩ := hp₂.run h₂ hr' hothers
  obtain ⟨s', hnext, rfl⟩ := Option.map_eq_some_iff.mp hload
  rw [next, Option.some_inj] at hnext
  subst hnext
  have hcall : secureContextLoadContext freeRTOSConfig ipsr' c.handle u₃.state =
      { u₃.state with psp := u₁.state.psp, psplim := c.stack } := hm.load hp₃.mem hipsr'
  rw [hcall]
  exact ⟨rfl, rfl, hp₃.stack⟩

/-- The first context is saved, the second one runs and is freed, and the first one is
loaded again. -/
def imageSwitchEvents : List Event :=
  [.load 14 0x20000230, .setPsp 0x20000280, .write 0x20000280 7, .save 14 0x20000230,
    .free 11 0x20000230]

theorem restored_of_run_image : ∃ u₁ u₄, ManagedRun SecureHeap.imageLayout
    (managedStart imageStart) imageContextEvents u₁ ∧
    ManagedRun SecureHeap.imageLayout u₁
      ([.save 14 0x20000110] ++ (imageSwitchEvents ++ [.load 14 0x20000110])) u₄ ∧
    u₄.state.psp = u₁.state.psp ∧ u₄.state.psplim = 0x20000128 := by
  obtain ⟨u₄, hrun, _⟩ := exists_managedRun SecureHeap.imageLayout (managedStart imageStart)
    (imageContextEvents ++ ([.save 14 0x20000110] ++
      (imageSwitchEvents ++ [.load 14 0x20000110]))) [⟨0x20000110, 0x20000128, 256, 0x20000220⟩]
    (by decide +kernel)
  obtain ⟨u₁, hr, hrest⟩ := hrun.split
  obtain ⟨u₂, hsave, hrest'⟩ := hrest.split
  obtain ⟨u₃, hr', hload⟩ := hrest'.split
  have hcs : u₁.contexts = imageContexts := by
    have hplay := hr.play_eq (managedNext SecureHeap.imageLayout) fun _ _ _ hs => hs.2
    have hmap : (play (managedNext SecureHeap.imageLayout) (managedStart imageStart)
        imageContextEvents).map Managed.contexts = some imageContexts := by decide +kernel
    rw [hplay] at hmap
    exact Option.some_inj.mp hmap
  cases hsave with
  | cons hsave hnil =>
      cases hnil
      cases hload with
      | cons hload hnil =>
          cases hnil
          have hmem : (⟨0x20000110, 0x20000128, 256, 0x20000228⟩ : Context) ∈ u₁.contexts := by
            rw [hcs]
            decide
          obtain ⟨hpsp, hlim, _⟩ := restored_of_run started_imageStart hr hmem
            (by decide) hsave.2 hr' (by decide) (by decide) hload.2
          exact ⟨u₁, u₄, hr, hrest, hpsp, hlim⟩

/-! ## Nothing leaks -/

/-- The heap as its own clients see it. -/
def Managed.heap (u : Managed) : SecureHeap.State :=
  ⟨u.state.memory, u.contexts.flatMap Context.blocks⟩

end SecureContext
