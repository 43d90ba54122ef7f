import PicoTrustZone.Port.Frames
import PicoTrustZone.SecureContext.Clients

/-!
# The calls of the port on the secure heap

What the functions of the port do to a task outside the secure heap, whose secure
context the heap lends: a switch leaves a frame and a saved descriptor, a new secure
context is loaded at once, and the one of a task that does not run is found through its
frame and freed.
-/

namespace Port

open ByteMemory
open SecureContext (Word freeRTOSConfig Manages Kept savedContexts freedContexts)
open SecureHeap (Layout Outside)

/-! ## Where tasks lie -/

/-- The addresses from `a` to `b` are not the secure heap's. -/
structure Clear (L : Layout) (a b : Nat) : Prop where
  ucHeap : b ≤ L.ucHeap ∨ L.ucHeap + L.totalHeapSize ≤ a
  xStart : b ≤ L.xStart ∨ L.xStart + 8 ≤ a
  static : ∀ v, b ≤ L.static v ∨ L.static v + 4 ≤ a

instance (L : Layout) (a b : Nat) : Decidable (Clear L a b) :=
  decidable_of_iff ((b ≤ L.ucHeap ∨ L.ucHeap + L.totalHeapSize ≤ a) ∧
      (b ≤ L.xStart ∨ L.xStart + 8 ≤ a) ∧
      ∀ v ∈ [.pxEnd, .xFreeBytesRemaining, .xMinimumEverFreeBytesRemaining, .xBlockAllocatedBit],
        b ≤ L.static v ∨ L.static v + 4 ≤ a)
    ⟨fun ⟨h1, h2, h3⟩ => ⟨h1, h2, fun v => h3 v (by cases v <;> simp)⟩,
      fun ⟨h1, h2, h3⟩ => ⟨h1, h2, fun v _ => h3 v⟩⟩

theorem Clear.outside {L : Layout} {a b z : Nat} (h : Clear L a b) (hlo : a ≤ z) (hhi : z < b) :
    Outside L z := by
  refine ⟨?_, ?_, fun v => ?_⟩
  · have := h.ucHeap
    omega
  · have := h.xStart
    omega
  · have := h.static v
    omega

namespace Task

/-- A task lies outside the secure heap. -/
def Clear (L : Layout) (τ : Task) : Prop :=
  Port.Clear L τ.tcb.toNat (τ.tcb.toNat + 4) ∧ Port.Clear L τ.stack τ.limit

instance (L : Layout) (τ : Task) : Decidable (τ.Clear L) := inferInstanceAs (Decidable (_ ∧ _))

/-- The bytes of two tasks. -/
def ranges (τ : Task) : List (Nat × Nat) :=
  [(τ.tcb.toNat, τ.tcb.toNat + 4), (τ.stack, τ.limit)]

/-- Two tasks have no byte in common. -/
def Separate (τ τ' : Task) : Prop :=
  ∀ x ∈ τ.ranges, ∀ y ∈ τ'.ranges, x.2 ≤ y.1 ∨ y.2 ≤ x.1

instance (τ τ' : Task) : Decidable (τ.Separate τ') :=
  inferInstanceAs (Decidable (∀ x ∈ τ.ranges, ∀ y ∈ τ'.ranges, _))

variable {τ τ' : Task} {z : Nat}

theorem owns_iff : τ.Owns z ↔ ∃ x ∈ τ.ranges, x.1 ≤ z ∧ z < x.2 := by
  simp [ranges, Owns]

theorem Separate.symm (h : τ.Separate τ') : τ'.Separate τ := fun x hx y hy => (h y hy x hx).symm

theorem Separate.not_owns (h : τ.Separate τ') (hz : τ.Owns z) : ¬ τ'.Owns z := by
  intro hz'
  obtain ⟨x, hx, hlo, hhi⟩ := owns_iff.mp hz
  obtain ⟨y, hy, hlo', hhi'⟩ := owns_iff.mp hz'
  have := h x hx y hy
  omega

theorem owns_tcb (τ : Task) : τ.Owns τ.tcb.toNat := .inl ⟨Nat.le_refl _, by omega⟩

theorem Separate.tcb_ne (h : τ.Separate τ') : τ.tcb ≠ τ'.tcb := fun he =>
  h.not_owns τ.owns_tcb (he ▸ τ'.owns_tcb)

theorem Clear.outside {L : Layout} (h : τ.Clear L) (hz : τ.Owns z) : Outside L z := by
  rcases hz with ⟨hlo, hhi⟩ | ⟨hlo, hhi⟩
  · exact h.1.outside hlo hhi
  · exact h.2.outside hlo hhi

end Task

/-! ## The calls -/

variable {img : Image} {τ : Task} {s : State} {cs : List SecureContext.Context}
  {t : SecureHeap.Abstract} {L : Layout}

/-- `vStartFirstTask` with a task that has no secure context. -/
theorem vStartFirstTask_eq {c : Context} (h : Frame s.memory τ c) (hx : c.xSecureContext = 0) :
    vStartFirstTask img τ.tcb s = some { s with
      secure := { s.secure with control := SecureContext.securecontextControlValuePrivileged }
      r4r11 := firstRegisters img s.r4r11
      psp := c.psp
      psplim := c.psplim
      control := 2
      lr := c.lr
      pxCurrentTCB := τ.tcb
      xSecureContext := 0 } := by
  obtain ⟨s₁, hs₁⟩ : ∃ s₁ : State, s₁ = { s with
      secure := SecureContext.secureContextInit freeRTOSConfig svCallIpsr s.secure
      pxCurrentTCB := τ.tcb } := ⟨_, rfl⟩
  have hf : Frame s₁.memory τ c := by
    rw [hs₁]
    exact h
  have hcur : s₁.pxCurrentTCB = τ.tcb := by rw [hs₁]
  rw [vStartFirstTask, vPortSVCHandlerC, if_neg (by decide), if_neg (by decide), if_pos rfl]
  show some (vRestoreContextOfFirstTask img { s with
    secure := SecureContext.secureContextInit freeRTOSConfig svCallIpsr s.secure
    pxCurrentTCB := τ.tcb }) = _
  rw [← hs₁, vRestoreContextOfFirstTask_eq hf hcur hx, State.resume, if_pos hx, hx, hs₁]
  rfl

/-- `vPortAllocateSecureContext`, if it returns. -/
theorem vPortAllocateSecureContext_spec {size : Word} {s' : State}
    (h : Manages img.heap s.memory cs t) (hs : vPortAllocateSecureContext img size s = some s') :
    ∃ handle stack m t', handle ≠ 0 ∧
      s' = { s with
        secure := { s.secure with memory := m, psp := stack + size, psplim := stack }
        xSecureContext := handle } ∧
      Manages img.heap m (⟨handle, stack, size, stack + size⟩ :: cs) t' ∧
      ∀ z, Kept img.heap cs z → m z = s.memory z := by
  obtain ⟨handle, m, t', hcall, hkept, hcases⟩ := h.allocate (by decide : svCallIpsr ≠ 0) size 0
  rw [vPortAllocateSecureContext, vPortSVCHandlerC, if_pos rfl, hcall] at hs
  simp only [Option.bind_eq_bind, Option.bind_some] at hs
  split at hs
  · next hne =>
    rcases hcases with ⟨hz, _⟩ | ⟨_, stack, _, _, _, _, hm⟩
    · exact absurd hz hne
    · have hload := Manages.load (s := { s.secure with memory := m }) hm (List.mem_cons_self ..)
        (by decide : svCallIpsr ≠ 0)
      cases hs
      rw [hload]
      exact ⟨handle, stack, m, t', hne, rfl, hm, hkept⟩
  · cases hs

/-- The handle of a suspended task is the first word of its frame. -/
theorem word_word_tcb {c : Context} (hf : Frame s.memory τ c) :
    s.word (s.word τ.tcb) = c.xSecureContext := by
  obtain ⟨r, hr, hw, _⟩ := hf.words
  rw [State.word, State.word, hr, hw]

/-- `vPortFreeSecureContext` for a task that does not run. -/
theorem vPortFreeSecureContext_spec {c : Context} (h : Manages img.heap s.memory cs t)
    (hf : Frame s.memory τ c)
    (hc : c.xSecureContext ≠ 0 → ∃ d ∈ cs, d.handle = c.xSecureContext) :
    ∃ m t', vPortFreeSecureContext img τ.tcb s = some (s.withMemory m) ∧
      Manages img.heap m (freedContexts cs c.xSecureContext) t' ∧
      ∀ z, Kept img.heap (freedContexts cs c.xSecureContext) z → m z = s.memory z := by
  rw [vPortFreeSecureContext, word_word_tcb hf]
  rcases Decidable.em (c.xSecureContext = 0) with hz | hz
  · rw [if_neg (not_not.mpr hz), hz, (h.heap.handle_zero 0).2]
    exact ⟨s.memory, t, rfl, h, fun _ _ => rfl⟩
  · obtain ⟨d, hd, hdh⟩ := hc hz
    obtain ⟨m, _, t', hcall, _, _, hm, hkept⟩ := h.free hd (by decide : svCallIpsr ≠ 0)
    rw [if_pos hz, vPortSVCHandlerC, if_neg (by decide), if_pos rfl, ← hdh, hcall]
    exact ⟨m, t', rfl, hm, hkept⟩

/-- `PendSV_Handler` up to `select_next_task`. -/
theorem saveContext_spec (h : Manages L s.memory cs t) (ht : s.pxCurrentTCB = τ.tcb)
    (hlow : τ.stack + 44 ≤ s.psp.toNat) (hhigh : s.psp.toNat ≤ τ.limit) (hclear : τ.Clear L)
    (hx : s.xSecureContext ≠ 0 → ∃ d ∈ cs, d.handle = s.xSecureContext) :
    Manages L (saveContext s).memory (savedContexts cs s.xSecureContext s.secure.psp) t ∧
      Frame (saveContext s).memory τ s.context ∧
      ∀ z, (z < τ.tcb.toNat ∨ τ.tcb.toNat + 4 ≤ z) →
        (z < s.psp.toNat - 44 ∨ s.psp.toNat ≤ z) →
        (∀ d ∈ cs, d.handle = s.xSecureContext → z < d.handle.toNat ∨ d.handle.toNat + 12 ≤ z) →
        (saveContext s).memory z = s.memory z := by
  -- the frame is outside the secure heap
  have hout : ∀ z, ¬ Outside L z → (z < τ.tcb.toNat ∨ τ.tcb.toNat + 4 ≤ z) ∧
      (z < s.psp.toNat - 44 ∨ s.psp.toNat ≤ z) := fun z hz => by
    have htcb : ¬ (τ.tcb.toNat ≤ z ∧ z < τ.tcb.toNat + 4) := fun hc =>
      hz (hclear.outside (.inl hc))
    have hstack : ¬ (τ.stack ≤ z ∧ z < τ.limit) := fun hc => hz (hclear.outside (.inr hc))
    omega
  have hlow' : τ.stack + 44 ≤ s.context.psp.toNat := hlow
  have hhigh' : s.context.psp.toNat ≤ τ.limit := hhigh
  rcases Decidable.em (s.xSecureContext = 0) with hz | hz
  · have hs : ¬ s.context.InSecure := fun hs => hs.1 hz
    obtain ⟨hframe, hkeep⟩ := fullFrame_spec (m := s.memory) hlow' hhigh' hs
    have hmem : (saveContext s).memory = fullFrame s.memory τ.tcb s.context := by
      rw [saveContext]
      dsimp only
      rw [if_pos hz, saveNsContext_eq, ht]
      rfl
    rw [hmem, hz, (h.heap.handle_zero _).1]
    refine ⟨h.write fun z hzo _ => ?_, hframe, fun z h1 h2 _ => hkeep z h1 h2⟩
    exact hkeep z (hout z hzo).1 (hout z hzo).2
  · obtain ⟨d, hd, hdh⟩ := hx hz
    obtain ⟨m, hcall, hm, hsave⟩ := h.save hd (by decide : pendSVIpsr ≠ 0)
    have hm' : Manages L m (savedContexts cs s.xSecureContext s.secure.psp) t := hdh ▸ hm
    rw [hdh] at hcall
    obtain ⟨s₁, hs₁⟩ : ∃ s₁ : State, s₁ = { s with secure := ⟨m, SecureContext.securecontextNoStack,
      SecureContext.securecontextNoStack, s.secure.control, s.secure.s0⟩ } := ⟨_, rfl⟩
    have hmem₁ : s₁.memory = m := by rw [hs₁]
    have hcontext : s₁.context = s.context := by rw [hs₁]; rfl
    have hcur : s₁.pxCurrentTCB = τ.tcb := by rw [hs₁]; exact ht
    have hkeep₁ : ∀ {m' : ByteMemory}, (∀ z, (z < τ.tcb.toNat ∨ τ.tcb.toNat + 4 ≤ z) →
        (z < s.psp.toNat - 44 ∨ s.psp.toNat ≤ z) → m' z = m z) →
        Manages L m' (savedContexts cs s.xSecureContext s.secure.psp) t ∧
        ∀ z, (z < τ.tcb.toNat ∨ τ.tcb.toNat + 4 ≤ z) → (z < s.psp.toNat - 44 ∨ s.psp.toNat ≤ z) →
          (∀ d ∈ cs, d.handle = s.xSecureContext → z < d.handle.toNat ∨ d.handle.toNat + 12 ≤ z) →
          m' z = s.memory z := fun hkeep => by
      refine ⟨hm'.write fun z hzo _ => hkeep z (hout z hzo).1 (hout z hzo).2, fun z h1 h2 h3 => ?_⟩
      rw [hkeep z h1 h2]
      exact hsave z (h3 d hd hdh)
    rcases Decidable.em (SecureStackUsed s.lr) with hlr | hlr
    · have hmem : (saveContext s).memory = shortFrame m τ.tcb s.context := by
        rw [saveContext]
        dsimp only
        rw [if_neg hz, if_pos hlr, hcall, ht]
        rfl
      obtain ⟨hframe, hkeep⟩ := shortFrame_spec (m := m) hlow' hhigh' ⟨hz, hlr⟩
      rw [hmem]
      exact ⟨(hkeep₁ hkeep).1, hframe, (hkeep₁ hkeep).2⟩
    · have hmem : (saveContext s).memory = fullFrame m τ.tcb s.context := by
        rw [saveContext]
        dsimp only
        rw [if_neg hz, if_neg hlr, hcall]
        show (saveNsContext s.xSecureContext s.psp _).memory = _
        rw [← hs₁]
        have hx₁ : s.xSecureContext = s₁.xSecureContext := by rw [hs₁]
        have hpsp₁ : s.psp = s₁.psp := by rw [hs₁]
        rw [hx₁, hpsp₁, saveNsContext_eq, hcur, hcontext, ← hmem₁]
        rfl
      obtain ⟨hframe, hkeep⟩ := fullFrame_spec (m := m) hlow' hhigh'
        (fun hs : s.context.InSecure => hlr hs.2)
      rw [hmem]
      exact ⟨(hkeep₁ hkeep).1, hframe, (hkeep₁ hkeep).2⟩

end Port
