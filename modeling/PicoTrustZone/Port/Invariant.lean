import PicoTrustZone.Port.System

/-!
# What every event keeps

The invariant of the port, and one lemma for each event: the invariant holds again, and
the tasks that do not run have their frames, their stacks and their secure contexts as
before.  A context switch changes the frame of the task that it switches out, below the
stack pointer, and its descriptor.
-/

namespace Port

open ByteMemory Transition
open SecureContext (Word freeRTOSConfig secureHeap Manages Lends Kept savedContexts freedContexts)
open SecureHeap (Layout Outside)

/-! ## Handles and contexts -/

theorem mem_overwritten {handle x : Word} {lost : List Word} :
    x ∈ overwritten handle lost ↔ x = handle ∧ x ≠ 0 ∨ x ∈ lost := by
  rw [overwritten]
  split
  · next hz => exact ⟨.inr, Or.rec (fun hx => absurd (hx.1.trans hz) hx.2) id⟩
  · next hz => exact List.mem_cons.trans (or_congr_left ⟨fun hx => ⟨hx, hx ▸ hz⟩, And.left⟩)

theorem overwritten_eq_nil {handle : Word} {lost : List Word} :
    overwritten handle lost = [] ↔ handle = 0 ∧ lost = [] := by
  rw [overwritten]
  split
  · next hz => exact (and_iff_right hz).symm
  · next hz => exact iff_of_false (List.cons_ne_nil _ _) fun hx => hz hx.1

/-- Each task has a secure context of its own, or none, and every other context was lost. -/
structure Custody (tasks : List Task) (handle : Word → Word) (lost : List Word)
    (contexts : List SecureContext.Context) : Prop where
  held : ∀ τ ∈ tasks, handle τ.tcb ≠ 0 → ∃ d ∈ contexts, d.handle = handle τ.tcb
  unique : ∀ τ ∈ tasks, ∀ τ' ∈ tasks, handle τ.tcb ≠ 0 → handle τ.tcb = handle τ'.tcb → τ = τ'
  owner : ∀ d ∈ contexts, d.handle ∈ lost ∨ ∃ τ ∈ tasks, handle τ.tcb = d.handle
  stray : ∀ x ∈ lost, (∃ d ∈ contexts, d.handle = x) ∧ ∀ τ ∈ tasks, handle τ.tcb ≠ x

namespace Custody

variable {tasks : List Task} {handle handle' : Word → Word} {lost : List Word}
  {cs ds : List SecureContext.Context} {d : SecureContext.Context} {τ : Task}

/-- Custody is about handles. -/
theorem congr (h : Custody tasks handle lost cs)
    (hh : ∀ τ ∈ tasks, handle' τ.tcb = handle τ.tcb)
    (hcs : ∀ x, (∃ d ∈ ds, d.handle = x) ↔ ∃ d ∈ cs, d.handle = x) :
    Custody tasks handle' lost ds := by
  constructor
  · intro τ hτ hne
    rw [hh τ hτ] at hne ⊢
    exact (hcs _).mpr (h.held τ hτ hne)
  · intro τ hτ τ' hτ' hne heq
    rw [hh τ hτ] at hne heq
    rw [hh τ' hτ'] at heq
    exact h.unique τ hτ τ' hτ' hne heq
  · intro d hd
    obtain ⟨d', hd', heq⟩ := (hcs d.handle).mp ⟨d, hd, rfl⟩
    rcases h.owner d' hd' with hl | ⟨τ, hτ, ho⟩
    · exact .inl (heq ▸ hl)
    · exact .inr ⟨τ, hτ, by rw [hh τ hτ, ho, heq]⟩
  · intro x hx
    obtain ⟨hd, hn⟩ := h.stray x hx
    exact ⟨(hcs x).mpr hd, fun τ hτ => hh τ hτ ▸ hn τ hτ⟩

/-- A new task has no context. -/
theorem create (h : Custody tasks handle lost cs) (hτ : handle' τ.tcb = 0)
    (hh : ∀ τ' ∈ tasks, handle' τ'.tcb = handle τ'.tcb) (hcs : ∀ d ∈ cs, d.handle ≠ 0) :
    Custody (τ :: tasks) handle' lost cs := by
  have hold := h.congr hh (fun x => Iff.rfl)
  constructor
  · intro τ' hτ' hne
    rcases List.mem_cons.mp hτ' with rfl | hτ'
    · exact absurd hτ hne
    · exact hold.held τ' hτ' hne
  · intro τ₁ h₁ τ₂ h₂ hne heq
    rcases List.mem_cons.mp h₁ with rfl | h₁
    · exact absurd hτ hne
    · rcases List.mem_cons.mp h₂ with rfl | h₂
      · exact absurd (heq.trans hτ) hne
      · exact hold.unique τ₁ h₁ τ₂ h₂ hne heq
  · intro d hd
    rcases hold.owner d hd with hl | ⟨τ', hτ', ho⟩
    · exact .inl hl
    · exact .inr ⟨τ', List.mem_cons_of_mem _ hτ', ho⟩
  · intro x hx
    obtain ⟨⟨d, hd, rfl⟩, hn⟩ := hold.stray x hx
    refine ⟨⟨d, hd, rfl⟩, fun τ' hτ' => ?_⟩
    rcases List.mem_cons.mp hτ' with rfl | hτ'
    · rw [hτ]
      exact (hcs d hd).symm
    · exact hn τ' hτ'

/-- A task gets a context, and loses the one that it had. -/
theorem allocate (h : Custody tasks handle lost cs) (hτ : τ ∈ tasks)
    (hd : handle' τ.tcb = d.handle) (hnew : ∀ d' ∈ cs, d'.handle ≠ d.handle)
    (hh : ∀ τ' ∈ tasks, τ' ≠ τ → handle' τ'.tcb = handle τ'.tcb) (hcs : ∀ d' ∈ cs, d'.handle ≠ 0) :
    Custody tasks handle' (overwritten (handle τ.tcb) lost) (d :: cs) := by
  have hother : ∀ τ' ∈ tasks, τ' ≠ τ → handle' τ'.tcb ≠ 0 → handle' τ'.tcb ≠ d.handle := by
    intro τ' hτ' hne hz
    rw [hh τ' hτ' hne] at hz ⊢
    obtain ⟨d', hd', heq⟩ := h.held τ' hτ' hz
    exact heq ▸ hnew d' hd'
  constructor
  · intro τ' hτ' hne
    rcases Decidable.em (τ' = τ) with rfl | hττ
    · exact ⟨d, List.mem_cons_self .., hd.symm⟩
    · rw [hh τ' hτ' hττ] at hne ⊢
      obtain ⟨d', hd', heq⟩ := h.held τ' hτ' hne
      exact ⟨d', List.mem_cons_of_mem _ hd', heq⟩
  · intro τ₁ h₁ τ₂ h₂ hne heq
    rcases Decidable.em (τ₁ = τ) with rfl | hne₁
    · rcases Decidable.em (τ₂ = τ₁) with rfl | hne₂
      · rfl
      · exact absurd (heq.symm.trans hd) (hother τ₂ h₂ hne₂ (heq ▸ hne))
    · rcases Decidable.em (τ₂ = τ) with rfl | hne₂
      · exact absurd (heq.trans hd) (hother τ₁ h₁ hne₁ hne)
      · rw [hh τ₁ h₁ hne₁] at hne heq
        rw [hh τ₂ h₂ hne₂] at heq
        exact h.unique τ₁ h₁ τ₂ h₂ hne heq
  · intro d' hd'
    rcases List.mem_cons.mp hd' with rfl | hd'
    · exact .inr ⟨τ, hτ, hd⟩
    · rcases h.owner d' hd' with hl | ⟨τ', hτ', ho⟩
      · exact .inl (mem_overwritten.mpr (.inr hl))
      · rcases Decidable.em (τ' = τ) with rfl | hne
        · exact .inl (mem_overwritten.mpr (.inl ⟨ho.symm, hcs d' hd'⟩))
        · exact .inr ⟨τ', hτ', (hh τ' hτ' hne).trans ho⟩
  · intro x hx
    have hx' : (∃ d' ∈ cs, d'.handle = x) ∧ ∀ τ' ∈ tasks, τ' ≠ τ → handle τ'.tcb ≠ x := by
      rcases mem_overwritten.mp hx with ⟨rfl, hne⟩ | hl
      · exact ⟨h.held τ hτ hne, fun τ' hτ' hττ heq => hττ (h.unique τ hτ τ' hτ' hne heq.symm).symm⟩
      · obtain ⟨hd', hn⟩ := h.stray x hl
        exact ⟨hd', fun τ' hτ' _ => hn τ' hτ'⟩
    obtain ⟨⟨d', hd', rfl⟩, hn⟩ := hx'
    refine ⟨⟨d', List.mem_cons_of_mem _ hd', rfl⟩, fun τ' hτ' => ?_⟩
    rcases Decidable.em (τ' = τ) with rfl | hne
    · rw [hd]
      exact (hnew d' hd').symm
    · rw [hh τ' hτ' hne]
      exact hn τ' hτ' hne

/-- A task is deleted with its context. -/
theorem delete (h : Custody tasks handle lost cs) (hτ : τ ∈ tasks)
    (htcb : ∀ τ' ∈ tasks, τ'.tcb = τ.tcb → τ' = τ) :
    Custody (tasks.filter fun τ' => τ'.tcb ≠ τ.tcb) handle lost
      (freedContexts cs (handle τ.tcb)) := by
  have hmem : ∀ τ' ∈ tasks.filter fun τ' => τ'.tcb ≠ τ.tcb, τ' ∈ tasks ∧ τ' ≠ τ := by
    intro τ' hτ'
    obtain ⟨hm, hne⟩ := List.mem_filter.mp hτ'
    exact ⟨hm, fun heq => by simp [heq] at hne⟩
  constructor
  · intro τ' hτ' hne
    obtain ⟨hm, hττ⟩ := hmem τ' hτ'
    obtain ⟨d, hd, heq⟩ := h.held τ' hm hne
    refine ⟨d, SecureContext.mem_freedContexts.mpr ⟨hd, fun hf => hττ ?_⟩, heq⟩
    exact h.unique τ' hm τ hτ hne (heq.symm.trans hf)
  · intro τ₁ h₁ τ₂ h₂ hne heq
    exact h.unique τ₁ (hmem τ₁ h₁).1 τ₂ (hmem τ₂ h₂).1 hne heq
  · intro d hd
    obtain ⟨hd, hf⟩ := SecureContext.mem_freedContexts.mp hd
    rcases h.owner d hd with hl | ⟨τ', hτ', ho⟩
    · exact .inl hl
    · have hne : τ' ≠ τ := fun heq => hf (by rw [← ho, heq])
      refine .inr ⟨τ', List.mem_filter.mpr ⟨hτ', ?_⟩, ho⟩
      simpa using fun heq => hne (htcb τ' hτ' heq)
  · intro x hx
    obtain ⟨⟨d, hd, rfl⟩, hn⟩ := h.stray x hx
    refine ⟨⟨d, SecureContext.mem_freedContexts.mpr ⟨hd, (hn τ hτ).symm⟩, rfl⟩, fun τ' hτ' => ?_⟩
    exact hn τ' (hmem τ' hτ').1

/-- Each context is found by a task if none was lost. -/
theorem owned_iff (h : Custody tasks handle lost cs) :
    (∀ d ∈ cs, ∃ τ ∈ tasks, handle τ.tcb = d.handle) ↔ lost = [] := by
  constructor
  · intro howned
    refine List.eq_nil_iff_forall_not_mem.mpr fun x hx => ?_
    obtain ⟨⟨d, hd, rfl⟩, hn⟩ := h.stray x hx
    obtain ⟨τ, hτ, ho⟩ := howned d hd
    exact hn τ hτ ho
  · rintro rfl d hd
    rcases h.owner d hd with hl | ho
    · cases hl
    · exact ho

end Custody

/-! ## The invariant -/

/-- What holds between the events. -/
structure Inv (img : Image) (y : System) : Prop where
  manages : ∃ t, Manages img.heap y.state.memory y.contexts t
  clear : ∀ τ ∈ y.tasks, τ.Clear img.heap
  separate : y.tasks.Pairwise Task.Separate
  running : y.started = true → ∃ τ ∈ y.tasks, y.state.pxCurrentTCB = τ.tcb ∧
    τ.stack + 44 ≤ y.state.psp.toNat ∧ y.state.psp.toNat ≤ τ.limit
  unstarted : y.started = false → y.contexts = []
  frames : ∀ τ ∈ y.tasks, ¬ y.Running τ.tcb → Frame y.state.memory τ (y.saved τ.tcb)
  custody : Custody y.tasks y.handle y.lost y.contexts
  psplim : y.started = true → ∀ d ∈ y.contexts, d.handle = y.state.xSecureContext →
    y.state.secure.psplim = d.stack

/-- What an event leaves of a task that did not run. -/
structure Keeps (y y' : System) (τ : Task) : Prop where
  saved : y'.saved τ.tcb = y.saved τ.tcb
  owned : ∀ z, τ.Owns z → y'.state.memory z = y.state.memory z
  context : ∀ d ∈ y.contexts, d.handle = (y.saved τ.tcb).xSecureContext → d ∈ y'.contexts ∧
    ∀ z, d.stack.toNat ≤ z → z < d.stack.toNat + d.size.toNat →
      y'.state.memory z = y.state.memory z

/-- What an event leaves of the tasks that did not run. -/
def KeepsOthers (y y' : System) : Prop :=
  ∀ τ ∈ y.tasks, τ ∈ y'.tasks → ¬ y.Running τ.tcb → Keeps y y' τ

variable {img : Image} {y y' : System} {τ τ' : Task} {d : SecureContext.Context}
  {cs : List SecureContext.Context} {s : State} {t : SecureHeap.Abstract} {L : Layout}
  {m : ByteMemory}

theorem System.context_of_running {tcb : Word} (h : y.Running tcb) :
    y.context tcb = y.state.context := if_pos h

theorem System.context_of_not_running {tcb : Word} (h : ¬ y.Running tcb) :
    y.context tcb = y.saved tcb := if_neg h

theorem System.not_running_of_unstarted {tcb : Word} (h : y.started = false) :
    ¬ y.Running tcb := fun hr => by
  cases h.symm.trans hr.1

theorem System.handle_of_running {tcb : Word} (h : y.Running tcb) :
    y.handle tcb = y.state.xSecureContext := congrArg _ (System.context_of_running h)

theorem System.handle_of_not_running {tcb : Word} (h : ¬ y.Running tcb) :
    y.handle tcb = (y.saved tcb).xSecureContext :=
  congrArg _ (System.context_of_not_running h)

theorem System.handle_congr {tcb : Word} (hr : y'.Running tcb ↔ y.Running tcb)
    (hx : y.Running tcb → y'.state.xSecureContext = y.state.xSecureContext)
    (hs : ¬ y.Running tcb → y'.saved tcb = y.saved tcb) : y'.handle tcb = y.handle tcb := by
  rcases Decidable.em (y.Running tcb) with h | h
  · rw [System.handle_of_running h, System.handle_of_running (hr.mpr h), hx h]
  · rw [System.handle_of_not_running h, System.handle_of_not_running fun h' => h (hr.mp h'), hs h]

namespace Inv

theorem separate_of_ne (h : Inv img y) (hτ : τ ∈ y.tasks) (hτ' : τ' ∈ y.tasks) (hne : τ ≠ τ') :
    τ.Separate τ' := by
  have hsymm : Std.Symm Task.Separate := ⟨fun _ _ => Task.Separate.symm⟩
  exact h.separate.forall hτ hτ' hne

/-- A control block names one task. -/
theorem eq_of_tcb (h : Inv img y) (hτ : τ ∈ y.tasks) (hτ' : τ' ∈ y.tasks)
    (he : τ.tcb = τ'.tcb) : τ = τ' := by
  rcases Decidable.em (τ = τ') with heq | hne
  · exact heq
  · exact absurd he (h.separate_of_ne hτ hτ' hne).tcb_ne

/-- A task that lies apart from the others is not the one that runs. -/
theorem not_running_of_separate (h : Inv img y) (hsep : ∀ τ' ∈ y.tasks, τ.Separate τ') :
    ¬ y.Running τ.tcb := fun hr => by
  obtain ⟨τ', hτ', hcur, _⟩ := h.running hr.1
  exact (hsep τ' hτ').tcb_ne (hr.2.symm.trans hcur)

/-- The stack of a secure context is in the secure heap. -/
theorem not_outside (h : Inv img y) (hd : d ∈ y.contexts) {z : Nat} (hlo : d.stack.toNat ≤ z)
    (hhi : z < d.stack.toNat + d.size.toNat) : ¬ Outside img.heap z := by
  intro ho
  obtain ⟨t, hm⟩ := h.manages
  obtain ⟨h1, h2⟩ := hm.heap.inHeap hd (SecureContext.Context.mem_blocks.mpr (.inl rfl))
  have := ho.ucHeap
  dsimp only at h1 h2
  omega

/-- The context of a task that does not run is not the one that is loaded. -/
theorem handle_ne_of_not_running (h : Inv img y) (hst : y.started = true) (hτ : τ ∈ y.tasks)
    (hn : ¬ y.Running τ.tcb) (hd : d ∈ y.contexts)
    (hh : d.handle = (y.saved τ.tcb).xSecureContext) : d.handle ≠ y.state.xSecureContext := by
  intro he
  obtain ⟨t, hm⟩ := h.manages
  obtain ⟨τ', hτ', hcur, _⟩ := h.running hst
  have hrun : y.Running τ'.tcb := ⟨hst, hcur⟩
  have h1 : y.handle τ.tcb = d.handle := (System.handle_of_not_running hn).trans hh.symm
  have h2 : y.handle τ'.tcb = d.handle := (System.handle_of_running hrun).trans he.symm
  have heq := h.custody.unique τ hτ τ' hτ' (h1 ▸ hm.heap.handle_ne_zero hd) (h1.trans h2.symm)
  exact hn (heq ▸ hrun)

/-- So its stack is not the one in use. -/
theorem not_inSecureStack (h : Inv img y) (hτ : τ ∈ y.tasks) (hn : ¬ y.Running τ.tcb)
    (hd : d ∈ y.contexts) (hh : d.handle = (y.saved τ.tcb).xSecureContext) {z : Nat}
    (hlo : d.stack.toNat ≤ z) (hhi : z < d.stack.toNat + d.size.toNat) :
    ¬ y.InSecureStack z := by
  rintro ⟨d', hd', hst, hh', hlo', hhi'⟩
  obtain ⟨t, hm⟩ := h.manages
  have hne : d ≠ d' := fun heq => h.handle_ne_of_not_running hst hτ hn hd hh (heq ▸ hh')
  have hdis := hm.heap.disjoint_of_ne hd hd' hne _ (SecureContext.Context.mem_blocks.mpr (.inl rfl))
    _ (SecureContext.Context.mem_blocks.mpr (.inl rfl))
  rw [SecureHeap.Disjoint] at hdis
  dsimp only at hdis
  omega

/-! ## The task that runs -/

/-- Nothing changes but the stack pointers, other registers and what the task may write. -/
theorem update (h : Inv img y) {s' : State}
    (hcur : s'.pxCurrentTCB = y.state.pxCurrentTCB)
    (hx : s'.xSecureContext = y.state.xSecureContext)
    (hlim : s'.secure.psplim = y.state.secure.psplim)
    (hpsp : y.started = true → ∃ τ ∈ y.tasks, y.state.pxCurrentTCB = τ.tcb ∧
      τ.stack + 44 ≤ s'.psp.toNat ∧ s'.psp.toNat ≤ τ.limit)
    (hm : ∀ z, ¬ Outside img.heap z → ¬ y.InSecureStack z → s'.memory z = y.state.memory z)
    (ho : ∀ τ ∈ y.tasks, ¬ y.Running τ.tcb → ∀ z, τ.Owns z → s'.memory z = y.state.memory z) :
    Inv img { y with state := s' } ∧ KeepsOthers y { y with state := s' } := by
  obtain ⟨t, ht⟩ := h.manages
  have hrun : ∀ tcb, System.Running { y with state := s' } tcb ↔ y.Running tcb := fun tcb => by
    rw [System.Running, System.Running, hcur]
  have hhandle : ∀ tcb, System.handle { y with state := s' } tcb = y.handle tcb := fun tcb =>
    System.handle_congr (hrun tcb) (fun _ => hx) fun _ => rfl
  constructor
  · refine ⟨⟨t, ht.write fun z hz hstack => hm z hz ?_⟩, h.clear, h.separate, ?_, h.unstarted, ?_,
      ?_, ?_⟩
    · rintro ⟨d, hd, _, _, hlo, hhi⟩
      have := hstack d hd
      omega
    · intro hst
      obtain ⟨τ, hτ, hc, hb⟩ := hpsp hst
      exact ⟨τ, hτ, hcur.trans hc, hb⟩
    · intro τ hτ hn
      have hn' : ¬ y.Running τ.tcb := fun hr => hn ((hrun _).mpr hr)
      exact (h.frames τ hτ hn').congr (ho τ hτ hn')
    · exact h.custody.congr (fun τ _ => hhandle τ.tcb) fun x => Iff.rfl
    · intro hst d hd hh
      exact hlim.trans (h.psplim hst d hd (hh.trans hx))
  · intro τ hτ _ hn
    refine ⟨rfl, ho τ hτ hn, fun d hd hh => ⟨hd, fun z hlo hhi => hm z ?_ ?_⟩⟩
    · exact h.not_outside hd hlo hhi
    · exact h.not_inSecureStack hτ hn hd hh hlo hhi

/-! ## New tasks -/

theorem create {pxStack ulStackDepth pxTaskCode pvParameters : Word} (h : Inv img y)
    (ha : Allowed img y (.create τ pxStack ulStackDepth pxTaskCode pvParameters))
    (hs : Step img y (.create τ pxStack ulStackDepth pxTaskCode pvParameters) y') :
    Inv img y' ∧ KeepsOthers y y' := by
  obtain ⟨hfresh, hclear, hsep⟩ := ha
  obtain ⟨t, ht⟩ := h.manages
  cases hs
  obtain ⟨m, hm⟩ : ∃ m, m = prvInitialiseNewTask img pxTaskCode ulStackDepth pvParameters τ.tcb
    pxStack y.state.memory := ⟨_, rfl⟩
  obtain ⟨hframe, hkeep, _⟩ := prvInitialiseNewTask_spec hfresh hm
  rw [← hm]
  have hnew : ¬ y.Running τ.tcb := h.not_running_of_separate hsep
  have hsaved : ∀ τ' ∈ y.tasks, Function.update y.saved τ.tcb (initialContext pxStack ulStackDepth)
      τ'.tcb = y.saved τ'.tcb := fun τ' hτ' =>
    Function.update_of_ne (fun he => (hsep τ' hτ').tcb_ne he.symm) _ _
  have howned : ∀ τ' ∈ y.tasks, ∀ z, τ'.Owns z → m z = y.state.memory z := fun τ' hτ' z hz =>
    hkeep z ((hsep τ' hτ').symm.not_owns hz)
  constructor
  · refine ⟨⟨t, ht.write fun z hz _ => hkeep z fun ho => hz (hclear.outside ho)⟩, ?_, ?_, ?_,
      h.unstarted, ?_, ?_, h.psplim⟩
    · intro τ' hτ'
      rcases List.mem_cons.mp hτ' with rfl | hτ'
      · exact hclear
      · exact h.clear τ' hτ'
    · exact List.pairwise_cons.mpr ⟨hsep, h.separate⟩
    · intro hst
      obtain ⟨τ', hτ', hb⟩ := h.running hst
      exact ⟨τ', List.mem_cons_of_mem _ hτ', hb⟩
    · intro τ' hτ' hn
      rcases List.mem_cons.mp hτ' with rfl | hτ'
      · show Frame m τ' (Function.update y.saved τ'.tcb _ τ'.tcb)
        rw [Function.update_self]
        exact hframe
      · show Frame m τ' (Function.update y.saved τ.tcb _ τ'.tcb)
        rw [hsaved τ' hτ']
        exact (h.frames τ' hτ' hn).congr (howned τ' hτ')
    · refine h.custody.create ?_ (fun τ' hτ' => ?_) fun d hd => ht.heap.handle_ne_zero hd
      · rw [System.handle, System.context, if_neg (by exact hnew)]
        show (Function.update y.saved τ.tcb _ τ.tcb).xSecureContext = 0
        rw [Function.update_self]
        rfl
      · exact System.handle_congr Iff.rfl (fun _ => rfl) fun _ => hsaved τ' hτ'
  · intro τ' hτ' _ hn
    refine ⟨hsaved τ' hτ', howned τ' hτ', fun d hd _ => ⟨hd, fun z hlo hhi => hkeep z ?_⟩⟩
    exact fun ho => h.not_outside hd hlo hhi (hclear.outside ho)

/-! ## The scheduler starts -/

/-- Before that no task has a secure context. -/
theorem saved_of_unstarted (h : Inv img y) (hst : y.started = false) (hτ : τ ∈ y.tasks) :
    (y.saved τ.tcb).xSecureContext = 0 := by
  have hn : ¬ y.Running τ.tcb := System.not_running_of_unstarted hst
  rcases Decidable.em (y.handle τ.tcb = 0) with hz | hz
  · rwa [System.handle_of_not_running hn] at hz
  · obtain ⟨d, hd, _⟩ := h.custody.held τ hτ hz
    rw [h.unstarted hst] at hd
    cases hd

theorem start {selected : Word} (h : Inv img y) (ha : Allowed img y (.start selected))
    (hs : Step img y (.start selected) y') : Inv img y' ∧ KeepsOthers y y' := by
  obtain ⟨hst, τ, hτ, rfl⟩ := ha
  obtain ⟨t, ht⟩ := h.manages
  have hcs := h.unstarted hst
  have hn : ∀ tcb, ¬ y.Running tcb := fun _ => System.not_running_of_unstarted hst
  have hframe := h.frames τ hτ (hn _)
  have hx := h.saved_of_unstarted hst hτ
  rw [Step, next, act, vStartFirstTask_eq hframe hx] at hs
  cases hs
  constructor
  · refine ⟨⟨t, ht⟩, h.clear, h.separate, fun _ => ⟨τ, hτ, rfl, hframe.low, hframe.high⟩, nofun,
      fun τ' hτ' _ => h.frames τ' hτ' (hn _), ?_, fun _ d hd => ?_⟩
    · refine h.custody.congr (fun τ' hτ' => ?_) fun x => Iff.rfl
      rw [System.handle_of_not_running (hn _), h.saved_of_unstarted hst hτ', System.handle,
        System.context]
      split
      · rfl
      · exact h.saved_of_unstarted hst hτ'
    · have hd' : d ∈ y.contexts := hd
      rw [hcs] at hd'
      cases hd'
  · intro τ' _ _ _
    refine ⟨rfl, fun _ _ => rfl, fun d hd => ?_⟩
    rw [hcs] at hd
    cases hd

/-! ## Secure contexts come and go -/

theorem allocate {size : Word} (h : Inv img y) (ha : Allowed img y (.allocate size))
    (hs : Step img y (.allocate size) y') : Inv img y' ∧ KeepsOthers y y' := by
  have hst : y.started = true := ha
  obtain ⟨t, ht⟩ := h.manages
  obtain ⟨τ, hτ, hcur, hpsp⟩ := h.running hst
  obtain ⟨s', hcall, rfl⟩ := Option.map_eq_some_iff.mp hs
  obtain ⟨handle, stack, m, t', hne, hs', hm, hkept⟩ := vPortAllocateSecureContext_spec ht hcall
  obtain ⟨d, hd⟩ : ∃ d : SecureContext.Context, d = ⟨handle, stack, size, stack + size⟩ := ⟨_, rfl⟩
  rw [← hd] at hm
  have hdh : d.handle = handle := by rw [hd]
  have hcontexts : (track y s' (.allocate size)).contexts = d :: y.contexts := by
    obtain ⟨hsp, hlimit, _⟩ := hm.stored d (List.mem_cons_self ..)
    have hmem : s'.memory = m := by rw [hs']
    have hx' : s'.xSecureContext = handle := by rw [hs']
    rw [hd] at hsp hlimit ⊢
    simp only [track, State.word, hmem, hx', hsp, hlimit]
  have hrun : ∀ tcb, (track y s' (.allocate size)).Running tcb ↔ y.Running tcb := fun tcb => by
    rw [System.Running, System.Running, hs']
    rfl
  have hmem : (track y s' (.allocate size)).state.memory = m := by rw [hs']; rfl
  have hnew : ∀ d' ∈ y.contexts, d'.handle ≠ d.handle := fun d' hd' he => by
    have hdis := (List.pairwise_cons.mp hm.heap.blocks_disjoint.2).1 d' hd' _
      (SecureContext.Context.mem_blocks.mpr (.inr rfl)) _
      (SecureContext.Context.mem_blocks.mpr (.inr rfl))
    rw [SecureHeap.Disjoint, he] at hdis
    dsimp only at hdis
    omega
  have howned : ∀ τ' ∈ y.tasks, ∀ z, τ'.Owns z → m z = y.state.memory z := fun τ' hτ' z hz =>
    hkept z (.outside ((h.clear τ' hτ').outside hz))
  constructor
  · refine ⟨⟨t', ?_⟩, h.clear, h.separate, fun _ => ⟨τ, hτ, ?_⟩, fun hf => ?_, ?_, ?_, ?_⟩
    · rw [hmem, hcontexts]
      exact hm
    · rw [hs']
      exact ⟨hcur, hpsp⟩
    · cases hst.symm.trans hf
    · intro τ' hτ' hn
      rw [hmem]
      exact (h.frames τ' hτ' fun hr => hn ((hrun _).mpr hr)).congr (howned τ' hτ')
    · rw [hcontexts]
      have hlost : (track y s' (.allocate size)).lost = overwritten (y.handle τ.tcb) y.lost := by
        rw [System.handle_of_running ⟨hst, hcur⟩]
        rfl
      rw [hlost]
      refine h.custody.allocate hτ ?_ hnew (fun τ' hτ' hne' => ?_) fun d' hd' => ?_
      · rw [System.handle_of_running ((hrun _).mpr ⟨hst, hcur⟩), hdh, hs']
        rfl
      · have hn : ¬ y.Running τ'.tcb := fun hr =>
          hne' (h.eq_of_tcb hτ' hτ (hr.2.symm.trans hcur))
        exact System.handle_congr (hrun _) (fun hr => absurd hr hn) fun _ => rfl
      · exact ht.heap.handle_ne_zero hd'
    · intro _ d' hd' hh
      rw [hcontexts] at hd'
      have hx' : (track y s' (.allocate size)).state.xSecureContext = d.handle := by
        rw [hs', hdh]
        rfl
      rcases List.mem_cons.mp hd' with rfl | hd'
      · rw [hs', hd]
        rfl
      · exact absurd (hh.trans hx') (hnew d' hd')
  · intro τ' hτ' _ _
    refine ⟨rfl, fun z hz => ?_, fun d' hd' _ => ⟨?_, fun z hlo hhi => ?_⟩⟩
    · rw [hmem]
      exact howned τ' hτ' z hz
    · rw [hcontexts]
      exact List.mem_cons_of_mem _ hd'
    · rw [hmem]
      exact hkept z (SecureContext.kept_of_stack hd' hlo hhi)

theorem delete {tcb : Word} (h : Inv img y) (ha : Allowed img y (.delete tcb))
    (hs : Step img y (.delete tcb) y') : Inv img y' ∧ KeepsOthers y y' := by
  obtain ⟨⟨τ, hτ, rfl⟩, hn⟩ := ha
  obtain ⟨t, ht⟩ := h.manages
  obtain ⟨s', hcall, rfl⟩ := Option.map_eq_some_iff.mp hs
  have hhandle : y.handle τ.tcb = (y.saved τ.tcb).xSecureContext := System.handle_of_not_running hn
  have hheld := h.custody.held τ hτ
  rw [hhandle] at hheld
  obtain ⟨m, t', hcall', hm, hkept⟩ := vPortFreeSecureContext_spec ht (h.frames τ hτ hn) hheld
  cases hcall.symm.trans hcall'
  have howned : ∀ τ' ∈ y.tasks, ∀ z, τ'.Owns z → m z = y.state.memory z := fun τ' hτ' z hz =>
    hkept z (.outside ((h.clear τ' hτ').outside hz))
  constructor
  · refine ⟨⟨t', hm⟩, fun τ' hτ' => h.clear τ' (List.mem_of_mem_filter hτ'), h.separate.filter _,
      fun hst => ?_, fun hst => ?_, fun τ' hτ' hn' => ?_, ?_, fun hst d hd hh => ?_⟩
    · obtain ⟨τ', hτ', hcur, hb⟩ := h.running hst
      refine ⟨τ', List.mem_filter.mpr ⟨hτ', ?_⟩, hcur, hb⟩
      simpa using fun he : τ'.tcb = τ.tcb => hn ⟨hst, hcur.trans he⟩
    · show freedContexts y.contexts _ = []
      rw [h.unstarted hst]
      rfl
    · exact (h.frames τ' (List.mem_of_mem_filter hτ') hn').congr
        (howned τ' (List.mem_of_mem_filter hτ'))
    · have hc : Custody (y.tasks.filter fun τ' => τ'.tcb ≠ τ.tcb) y.handle y.lost
          (freedContexts y.contexts (y.handle τ.tcb)) :=
        h.custody.delete hτ fun τ' hτ' he => h.eq_of_tcb hτ' hτ he
      rw [hhandle] at hc
      exact hc
    · exact h.psplim hst d (List.mem_of_mem_filter hd) hh
  · intro τ' hτ' hτ'' hn'
    refine ⟨rfl, howned τ' hτ', fun d hd hh => ?_⟩
    have hmem : d ∈ freedContexts y.contexts (y.saved τ.tcb).xSecureContext := by
      refine SecureContext.mem_freedContexts.mpr ⟨hd, fun he => ?_⟩
      obtain ⟨_, hne⟩ := List.mem_filter.mp hτ''
      have heq : τ' = τ := by
        refine h.custody.unique τ' hτ' τ hτ ?_ ?_
        · rw [System.handle_of_not_running hn', ← hh]
          exact ht.heap.handle_ne_zero hd
        · rw [System.handle_of_not_running hn', hhandle, ← hh, he]
      simp [heq] at hne
    exact ⟨hmem, fun z hlo hhi => hkept z (SecureContext.kept_of_stack hmem hlo hhi)⟩

/-! ## The context switch -/

/-- The running task is saved: every task has its context on its stack. -/
theorem save (h : Inv img y) (hst : y.started = true) {m : ByteMemory}
    (hm : m = (saveContext y.state).memory) :
    (∃ t, Manages img.heap m
      (savedContexts y.contexts y.state.xSecureContext y.state.secure.psp) t) ∧
      (∀ τ ∈ y.tasks, Frame m τ (y.context τ.tcb)) ∧
      (∀ τ ∈ y.tasks, ¬ y.Running τ.tcb → ∀ z, τ.Owns z → m z = y.state.memory z) ∧
      (∀ τ ∈ y.tasks, y.Running τ.tcb → ∀ z, y.state.psp.toNat ≤ z → z < τ.limit →
        m z = y.state.memory z) ∧
      ∀ d ∈ y.contexts, ∀ z, d.stack.toNat ≤ z → z < d.stack.toNat + d.size.toNat →
        m z = y.state.memory z := by
  obtain ⟨t, ht⟩ := h.manages
  obtain ⟨τ₀, hτ₀, hcur, hlow, hhigh⟩ := h.running hst
  have hrun : y.Running τ₀.tcb := ⟨hst, hcur⟩
  have hheld := h.custody.held τ₀ hτ₀
  rw [System.handle_of_running hrun] at hheld
  obtain ⟨hman, hframe, hkeep⟩ := saveContext_spec ht hcur hlow hhigh (h.clear τ₀ hτ₀) hheld
  rw [← hm] at hman hframe hkeep
  have hclear := h.clear τ₀ hτ₀
  have hdescriptor : ∀ z, Outside img.heap z → ∀ d ∈ y.contexts,
      z < d.handle.toNat ∨ d.handle.toNat + 12 ≤ z := fun z ho d hd => by
    obtain ⟨hlo, hhi⟩ := ht.heap.inHeap hd (SecureContext.Context.mem_blocks.mpr (.inr rfl))
    have := ho.ucHeap
    dsimp only at hlo hhi
    omega
  have hothers : ∀ z, Outside img.heap z → ¬ τ₀.Owns z → m z = y.state.memory z := by
    intro z ho hno
    have htcb : ¬ (τ₀.tcb.toNat ≤ z ∧ z < τ₀.tcb.toNat + 4) := fun hc => hno (.inl hc)
    have hstack : ¬ (τ₀.stack ≤ z ∧ z < τ₀.limit) := fun hc => hno (.inr hc)
    exact hkeep z (by omega) (by omega) fun d hd _ => hdescriptor z ho d hd
  have howned : ∀ τ ∈ y.tasks, ¬ y.Running τ.tcb → ∀ z, τ.Owns z → m z = y.state.memory z := by
    intro τ hτ hn z hz
    have hne : τ ≠ τ₀ := fun heq => hn (heq ▸ hrun)
    exact hothers z ((h.clear τ hτ).outside hz) ((h.separate_of_ne hτ hτ₀ hne).not_owns hz)
  refine ⟨⟨t, hman⟩, fun τ hτ => ?_, howned, fun τ hτ hr z hlo hhi => ?_, fun d hd z hlo hhi => ?_⟩
  · rcases Decidable.em (y.Running τ.tcb) with hr | hn
    · obtain rfl := h.eq_of_tcb hτ hτ₀ (hr.2.symm.trans hcur)
      rw [System.context_of_running hr]
      exact hframe
    · rw [System.context_of_not_running hn]
      exact (h.frames τ hτ hn).congr (howned τ hτ hn)
  · obtain rfl := h.eq_of_tcb hτ hτ₀ (hr.2.symm.trans hcur)
    have hapart := τ.apart
    have hz : τ.Owns z := .inr (by omega)
    exact hkeep z (by omega) (.inr hlo) fun d hd _ => hdescriptor z (hclear.outside hz) d hd
  · have hno : ¬ τ₀.Owns z := fun ho => h.not_outside hd hlo hhi (hclear.outside ho)
    have htcb : ¬ (τ₀.tcb.toNat ≤ z ∧ z < τ₀.tcb.toNat + 4) := fun hc => hno (.inl hc)
    have hstack : ¬ (τ₀.stack ≤ z ∧ z < τ₀.limit) := fun hc => hno (.inr hc)
    refine hkeep z (by omega) (by omega) fun d' hd' _ => ?_
    have hdis : SecureHeap.Disjoint (d.stack.toNat, d.size.toNat) (d'.handle.toNat, 12) := by
      rcases Decidable.em (d = d') with rfl | hne
      · exact ht.heap.disjoint_self hd
      · exact ht.heap.disjoint_of_ne hd hd' hne _
          (SecureContext.Context.mem_blocks.mpr (.inl rfl)) _
          (SecureContext.Context.mem_blocks.mpr (.inr rfl))
    rw [SecureHeap.Disjoint] at hdis
    dsimp only at hdis
    omega

/-- Every task has been switched out with the context that it had. -/
theorem update_saved (hst : y.started = true) (tcb : Word) :
    Function.update y.saved y.state.pxCurrentTCB y.state.context tcb = y.context tcb := by
  rcases Decidable.em (y.Running tcb) with hr | hn
  · rw [System.context_of_running hr, ← hr.2, Function.update_self]
  · rw [System.context_of_not_running hn, Function.update_of_ne fun he => hn ⟨hst, he.symm⟩]

/-- The handler resumes the task it selects. -/
theorem pendSVHandler_eq (h : Inv img y) (hst : y.started = true) (hτ : τ ∈ y.tasks) :
    pendSVHandler τ.tcb y.state =
      State.resume { saveContext y.state with pxCurrentTCB := τ.tcb } (y.context τ.tcb) := by
  obtain ⟨_, hframes, _⟩ := h.save hst rfl
  exact restoreContext_eq (hframes τ hτ) rfl

/-- With its secure context. -/
theorem load_saved (h : Inv img y) (hst : y.started = true) (hτ : τ ∈ y.tasks)
    (hd : d ∈ savedContexts y.contexts y.state.xSecureContext y.state.secure.psp)
    (hh : d.handle = y.handle τ.tcb) :
    (pendSVHandler τ.tcb y.state).secure.psp = d.sp ∧
      (pendSVHandler τ.tcb y.state).secure.psplim = d.stack := by
  obtain ⟨⟨t, hm⟩, _⟩ := h.save hst rfl
  have hne : (y.context τ.tcb).xSecureContext ≠ 0 := by
    rw [System.handle] at hh
    rw [← hh]
    exact hm.heap.handle_ne_zero hd
  have hload := Manages.load (s := (saveContext y.state).secure) hm hd (by decide : pendSVIpsr ≠ 0)
  rw [h.pendSVHandler_eq hst hτ, State.resume, if_neg hne]
  rw [System.handle] at hh
  rw [← hh]
  dsimp only
  rw [hload]
  exact ⟨rfl, rfl⟩

theorem pendSV {selected : Word} (h : Inv img y) (ha : Allowed img y (.pendSV selected))
    (hs : Step img y (.pendSV selected) y') : Inv img y' ∧ KeepsOthers y y' := by
  obtain ⟨hst, τ, hτ, rfl⟩ := ha
  obtain ⟨m, hm⟩ : ∃ m, m = (saveContext y.state).memory := ⟨_, rfl⟩
  obtain ⟨⟨t, hman⟩, hframes, howned, _, hstacks⟩ := h.save hst hm
  cases hs
  obtain ⟨s', hs'⟩ : ∃ s', s' = pendSVHandler τ.tcb y.state := ⟨_, rfl⟩
  have heq := h.pendSVHandler_eq hst hτ
  rw [← hs'] at heq ⊢
  have hmem : s'.memory = m := by
    rw [heq, State.resume_memory, hm]
  have hcur : s'.pxCurrentTCB = τ.tcb := by
    rw [heq]
    rfl
  have hx : s'.xSecureContext = y.handle τ.tcb := by
    rw [heq]
    rfl
  have hframe := hframes τ hτ
  have hpsp : s'.psp = (y.context τ.tcb).psp := by
    rw [heq]
    rfl
  have hhandle : ∀ tcb, (track y s' (.pendSV τ.tcb)).handle tcb = y.handle tcb := by
    intro tcb
    rcases Decidable.em ((track y s' (.pendSV τ.tcb)).Running tcb) with hr | hn
    · rw [System.handle_of_running hr, ← hr.2]
      exact hx.trans (congrArg y.handle hcur.symm)
    · rw [System.handle_of_not_running hn]
      exact congrArg Context.xSecureContext (update_saved hst tcb)
  constructor
  · refine ⟨⟨t, ?_⟩, h.clear, h.separate, fun _ => ⟨τ, hτ, hcur, ?_⟩, fun hf => ?_,
      fun τ' hτ' _ => ?_, ?_, fun _ d hd hh => ?_⟩
    · show Manages img.heap s'.memory _ t
      rw [hmem]
      exact hman
    · show τ.stack + 44 ≤ s'.psp.toNat ∧ s'.psp.toNat ≤ τ.limit
      rw [hpsp]
      exact ⟨hframe.low, hframe.high⟩
    · cases hst.symm.trans hf
    · show Frame s'.memory τ' (Function.update y.saved y.state.pxCurrentTCB y.state.context τ'.tcb)
      rw [hmem, update_saved hst]
      exact hframes τ' hτ'
    · refine h.custody.congr (fun τ' _ => hhandle τ'.tcb) fun x => ?_
      constructor
      · rintro ⟨d, hd, rfl⟩
        obtain ⟨d', hd', rfl⟩ := List.mem_map.mp hd
        refine ⟨d', hd', ?_⟩
        split <;> rfl
      · rintro ⟨d, hd, rfl⟩
        refine ⟨_, List.mem_map_of_mem hd, ?_⟩
        split <;> rfl
    · have hload := h.load_saved hst hτ hd (hh.trans hx)
      rw [← hs'] at hload
      exact hload.2
  · intro τ' hτ' _ hn
    have hsaved : Function.update y.saved y.state.pxCurrentTCB y.state.context τ'.tcb =
        y.saved τ'.tcb := (update_saved hst τ'.tcb).trans (System.context_of_not_running hn)
    refine ⟨hsaved, fun z hz => ?_, fun d hd hh => ⟨?_, fun z hlo hhi => ?_⟩⟩
    · show s'.memory z = _
      rw [hmem]
      exact howned τ' hτ' hn z hz
    · exact SecureContext.mem_savedContexts_of_ne hd
        (h.handle_ne_of_not_running hst hτ' hn hd hh)
    · show s'.memory z = _
      rw [hmem]
      exact hstacks d hd z hlo hhi

/-! ## Every event -/

/-- What one event preserves. -/
theorem step {e : Event} (h : Inv img y) (ha : Allowed img y e) (hs : Step img y e y') :
    Inv img y' ∧ KeepsOthers y y' := by
  cases e with
  | create τ pxStack ulStackDepth pxTaskCode pvParameters => exact h.create ha hs
  | start selected => exact h.start ha hs
  | run r4r11 psp lr =>
      obtain ⟨τ, hτ, hr, hpsp⟩ := ha
      cases hs
      refine h.update rfl rfl rfl (fun _ => ⟨τ, hτ, hr.2, hpsp⟩) (fun _ _ _ => rfl) ?_
      exact fun _ _ _ _ _ => rfl
  | runSecure psp =>
      cases hs
      exact h.update rfl rfl rfl h.running (fun _ _ _ => rfl) fun _ _ _ _ _ => rfl
  | write addr b =>
      obtain ⟨howner, hplace⟩ := ha
      cases hs
      refine h.update rfl rfl rfl h.running (fun z hz hstack => ?_) fun τ hτ hn z hz => ?_
      · refine Function.update_of_ne (fun he => ?_) ..
        subst he
        rcases hplace with ho | hin
        · exact hz ho
        · exact hstack hin
      · refine Function.update_of_ne (fun he => ?_) ..
        subst he
        exact hn (howner τ hτ hz).1
  | allocate size => exact h.allocate ha hs
  | pendSV selected => exact h.pendSV ha hs
  | delete tcb => exact h.delete ha hs

theorem init (h : SecureHeap.Started img.heap ⟨s.memory, []⟩) : Inv img (systemStart s) where
  manages := ⟨.init img.heap, .init h, nofun⟩
  clear := nofun
  separate := .nil
  running := nofun
  unstarted := fun _ => rfl
  frames := nofun
  custody := ⟨nofun, nofun, nofun, nofun⟩
  psplim := nofun

/-- What a run preserves. -/
theorem run {es : List Event} (h : Inv img y) (hr : SystemRun img y es y') : Inv img y' :=
  hr.invariant (fun _ _ _ hi hs => (hi.step hs.1 hs.2).1) h

end Inv

end Port
