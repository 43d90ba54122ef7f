import PicoTrustZone.Port.Processors

/-!
# What the port guarantees

For every run of tasks that keep the rules: the port is a machine that has registers for
each task, stack pointers stay aligned where stacks are, a task that is switched out finds
the registers that the handlers keep and its stacks again, a new task begins with its
arguments, and the secure contexts on the heap are those of the tasks, but for those that a
task lost by asking again.
-/

namespace Port

open ByteMemory Transition Multiplex
open SecureContext (Word Manages Kept freedContexts)
open SecureHeap (Started)

variable {img : Image} {y y' y₁ y₂ y₃ y₄ : System} {τ τ' : Task} {s : State}
  {es es' : List Event} {e : Event} {psp : Word} {ds : List SecureContext.Context}
  {m : ByteMemory}

/-- An event that selects the task, makes it or ends it. -/
def Event.Concerns (tcb : Word) : Event → Prop
  | .create τ _ _ _ _ => τ.tcb = tcb
  | .start selected | .pendSV selected => selected = tcb
  | .delete tcb' => tcb' = tcb
  | .run _ _ _ | .runSecure _ | .write _ _ | .allocate _ => False

instance (tcb : Word) : (e : Event) → Decidable (e.Concerns tcb)
  | .create τ _ _ _ _ => inferInstanceAs (Decidable (τ.tcb = tcb))
  | .start _ | .pendSV _ | .delete _ => inferInstanceAs (Decidable (_ = tcb))
  | .run _ _ _ | .runSecure _ | .write _ _ | .allocate _ => isFalse id

theorem Event.concerns_action {tcb : Word} : e.action.Concerns tcb ↔ e.Concerns tcb := by
  cases e <;> rfl

theorem not_concerns_actions {tcb : Word} (h : ∀ e ∈ es, ¬ e.Concerns tcb) :
    ∀ a ∈ es.map Event.action, ¬ a.Concerns tcb := by
  intro a ha
  obtain ⟨e, he, rfl⟩ := List.mem_map.mp ha
  exact fun hc => h e he (Event.concerns_action.mp hc)

/-! ## A processor for each task -/

/-- What the tasks see of a run. -/
theorem Inv.machine_run (h : Inv img y) (hr : SystemRun img y es y') :
    Run Machine.Step y.machine (es.map Event.action) y'.machine := by
  induction hr with
  | nil => exact .nil
  | cons hs _ ih => exact .cons (h.refines hs.1 hs.2) (ih (h.step hs.1 hs.2).1)

/-- The port, which moves one set of registers to and from the stacks and the secure
contexts, does in every run what a machine does that has registers for each task. -/
theorem processors_of_run (h : Started img.heap ⟨s.memory, []⟩)
    (hr : SystemRun img (systemStart s) es y) :
    Run Machine.Step ⟨none, fun _ => none⟩ (es.map Event.action) y.machine := by
  have hstart : (systemStart s).machine = ⟨none, fun _ => none⟩ := by
    refine Machine.ext rfl (funext fun tcb => ?_)
    simp [System.machine, systemStart]
  have hrun := (Inv.init h).machine_run hr
  rw [hstart] at hrun
  exact hrun

/-- An image with the secure heap of `imageLayout`. -/
def image : Image := ⟨SecureHeap.imageLayout, 0x20042000, 0x10001001⟩

/-- The registers and the memory before `main`. -/
def imageState : State := ⟨SecureContext.imageStart, .replicate 8 0, 0, 0, 0, 0, 0, 0⟩

/-- Two tasks with the stacks of `main_ns.c`. -/
def imageTask : Task := ⟨0x20040200, 0x20040000, 0x20040200, by decide, by decide, by decide⟩

/-- The other one. -/
def imageTask' : Task := ⟨0x20040600, 0x20040400, 0x20040600, by decide, by decide, by decide⟩

/-- Both are created, and the first one runs. -/
def imageEvents : List Event :=
  [.create imageTask 0x20040000 128 0x10000101 1, .create imageTask' 0x20040400 128 0x10000201 2,
    .start 0x20040200]

/-- The first one is interrupted in secure code. -/
def imageSecureEvents : List Event :=
  imageEvents ++ [.allocate 256, .runSecure 0x20000200, .run (.replicate 8 7) 0x20040100 0xfffffffd]

/-- The other one writes into its stack and gets a secure context. -/
def imageOtherEvents : List Event := [.write 0x20040500 7, .allocate 64, .runSecure 0x20000280]

/-- A run that is computed, with the tasks, the one that runs, and its secure context. -/
theorem exists_systemRun (y : System) (es : List Event) (tasks : List Task) (tcb handle : Word)
    (h : (play (guardedNext (Allowed image) (next image)) y es).map
      (fun y => (y.tasks, y.started, y.state.pxCurrentTCB, y.state.xSecureContext)) =
        some (tasks, true, tcb, handle)) :
    ∃ y', SystemRun image y es y' ∧ y'.tasks = tasks ∧ y'.Running tcb ∧
      y'.state.xSecureContext = handle := by
  obtain ⟨y', hy, hsummary⟩ := Option.map_eq_some_iff.mp h
  simp only [Prod.mk.injEq] at hsummary
  obtain ⟨htasks, hst, hcur, hx⟩ := hsummary
  exact ⟨y', Run.of_play_guarded (fun _ _ _ h => h) hy, htasks, ⟨hst, hcur⟩, hx⟩

/-- The handles that are lost at the end. -/
theorem lost_of_run (lost : List Word) (hr : SystemRun image y es y')
    (h : (play (next image) y es).map System.lost = some lost) : y'.lost = lost := by
  rw [hr.play_eq (next image) fun _ _ _ hs => hs.2] at h
  exact Option.some_inj.mp h

theorem started_image : Started image.heap ⟨imageState.memory, []⟩ :=
  SecureContext.started_imageStart

theorem processors_of_run_image : ∃ y, SystemRun image (systemStart imageState)
    (imageSecureEvents ++ .pendSV 0x20040600 :: imageOtherEvents) y ∧
    Run Machine.Step ⟨none, fun _ => none⟩
      ((imageSecureEvents ++ .pendSV 0x20040600 :: imageOtherEvents).map Event.action)
      y.machine := by
  obtain ⟨y, hr, _⟩ := exists_systemRun (systemStart imageState)
    (imageSecureEvents ++ .pendSV 0x20040600 :: imageOtherEvents) [imageTask', imageTask] 0x20040600
    0x20000230 (by decide +kernel)
  exact ⟨y, hr, processors_of_run started_image hr⟩

/-! ## Alignment

The registers are words here.  The processor does not implement the two low bits of `PSP`
and the three low bits of `PSPLIM`. -/

/-- An event that gives a task an aligned stack, asks for a secure stack of whole words, or
moves a stack pointer to a word. -/
def Event.Aligned : Event → Prop
  | .create _ pxStack _ _ _ => 8 ∣ pxStack.toNat
  | .run _ psp _ | .runSecure psp => 4 ∣ psp.toNat
  | .allocate size => 4 ∣ size.toNat
  | .start _ | .write _ _ | .pendSV _ | .delete _ => True

instance : (e : Event) → Decidable e.Aligned
  | .create _ pxStack _ _ _ => inferInstanceAs (Decidable (8 ∣ pxStack.toNat))
  | .run _ psp _ | .runSecure psp => inferInstanceAs (Decidable (4 ∣ psp.toNat))
  | .allocate size => inferInstanceAs (Decidable (4 ∣ size.toNat))
  | .start _ | .write _ _ | .pendSV _ | .delete _ => isTrue trivial

/-- The bits that are not implemented are zero. -/
structure Processor.Aligned (p : Processor) : Prop where
  psp : 4 ∣ p.context.psp.toNat
  psplim : 8 ∣ p.context.psplim.toNat
  secure : ∀ q, p.secure = some q → 4 ∣ q.1.toNat ∧ 8 ∣ q.2.toNat

theorem Event.Aligned.preserves (h : e.Aligned) : e.action.Preserves Processor.Aligned := by
  cases e with
  | create τ pxStack ulStackDepth pxTaskCode pvParameters =>
      have hdvd := dvd_initialContext_psp pxStack ulStackDepth
      exact ⟨Nat.dvd_trans (by decide) hdvd, h, nofun⟩
  | start selected =>
      rintro p _ hp ⟨r4r11, rfl⟩
      exact ⟨hp.psp, hp.psplim, hp.secure⟩
  | run r4r11 psp lr =>
      rintro p _ hp rfl
      refine ⟨?_, ?_, hp.secure⟩
      · rw [Context.visible_psp]
        exact h
      · rw [Context.visible_psplim]
        exact hp.psplim
  | runSecure psp =>
      rintro p _ hp rfl
      refine ⟨hp.psp, hp.psplim, fun q hq => ?_⟩
      obtain ⟨q', hq', rfl⟩ := Option.map_eq_some_iff.mp hq
      exact ⟨h, (hp.secure q' hq').2⟩
  | allocate size =>
      rintro p _ hp ⟨handle, stack, _, hdvd, rfl⟩
      have hsize : 4 ∣ size.toNat := h
      refine ⟨?_, ?_, fun q hq => ?_⟩
      · rw [Context.visible_psp]
        exact hp.psp
      · rw [Context.visible_psplim]
        exact hp.psplim
      · cases hq
        refine ⟨?_, hdvd⟩
        rw [BitVec.toNat_add]
        omega
  | write | pendSV | delete => trivial

/-- Where stacks are aligned, the registers hold no bit that is not implemented. -/
theorem aligned_of_run (h : Started img.heap ⟨s.memory, []⟩)
    (hr : SystemRun img (systemStart s) es y) (he : ∀ e ∈ es, e.Aligned)
    (hst : y.started = true) :
    4 ∣ y.state.psp.toNat ∧ 8 ∣ y.state.psplim.toNat ∧
      (y.state.xSecureContext ≠ 0 →
        4 ∣ y.state.secure.psp.toNat ∧ 8 ∣ y.state.secure.psplim.toNat) := by
  have hi : Inv img y := (Inv.init h).run hr
  obtain ⟨τ, hτ, hcur, _⟩ := hi.running hst
  have hrun : y.Running τ.tcb := ⟨hst, hcur⟩
  have hall : y.machine.All Processor.Aligned := by
    refine Machine.all_of_run ((Inv.init h).machine_run hr) (fun a ha => ?_) fun tcb r hreg => ?_
    · obtain ⟨e, hmem, rfl⟩ := List.mem_map.mp ha
      exact (he e hmem).preserves
    · simp [System.machine, systemStart] at hreg
  obtain ⟨hpsp, hpsplim, hsecure⟩ := hall _ _ (hi.registers_of_mem hτ)
  rw [System.processor_of_running hrun] at hpsp hpsplim hsecure
  rw [Context.visible_psp] at hpsp
  rw [Context.visible_psplim] at hpsplim
  exact ⟨hpsp, hpsplim, fun hne => hsecure _ (if_neg hne)⟩

theorem aligned_of_run_image : ∃ y, SystemRun image (systemStart imageState) imageSecureEvents y ∧
    4 ∣ y.state.psp.toNat ∧ 8 ∣ y.state.secure.psplim.toNat := by
  obtain ⟨y, hrun, _, hr, hx⟩ := exists_systemRun (systemStart imageState) imageSecureEvents
    [imageTask', imageTask] 0x20040200 0x20000110 (by decide +kernel)
  obtain ⟨hpsp, _, hsecure⟩ := aligned_of_run started_image hrun (by decide) hr.1
  have hne : y.state.xSecureContext ≠ 0 := by
    rw [hx]
    decide
  exact ⟨y, hrun, hpsp, (hsecure hne).2⟩

/-! ## Tasks that are switched out -/

/-- A task that does not run, in a memory where its stack from `psp` on and its secure
stack, that of the context in `ds`, hold what they held in `m`. -/
structure Parked (y : System) (τ : Task) (psp : Word) (ds : List SecureContext.Context)
    (m : ByteMemory) : Prop where
  mem : τ ∈ y.tasks
  notRunning : ¬ y.Running τ.tcb
  low : τ.stack ≤ psp.toNat
  stack : ∀ z, psp.toNat ≤ z → z < τ.limit → y.state.memory z = m z
  secure : ∀ d ∈ ds, ∃ d' ∈ y.contexts, d'.handle = (y.saved τ.tcb).xSecureContext ∧
    d'.stack = d.stack ∧ d'.size = d.size ∧
      ∀ z, d.stack.toNat ≤ z → z < d.stack.toNat + d.size.toNat → y.state.memory z = m z

theorem System.machine_current_iff {tcb : Word} :
    y.machine.current = some tcb ↔ y.Running tcb := by
  rw [machine, Running]
  dsimp only
  split
  · next hst => simp [hst]
  · next hst => simp [hst]

/-- A task that is not selected does not run afterwards. -/
theorem not_running_step (h : Inv img y) (ha : Allowed img y e) (hs : Step img y e y')
    (hn : ¬ y.Running τ.tcb) (he : ¬ e.Concerns τ.tcb) : ¬ y'.Running τ.tcb := by
  obtain ⟨hn', _⟩ := (h.refines ha hs).suspended (fun hc => hn (System.machine_current_iff.mp hc))
    fun hc => he (Event.concerns_action.mp hc)
  exact fun hr => hn' (System.machine_current_iff.mpr hr)

/-- A task is not lost. -/
theorem mem_tasks_step (hs : Step img y e y') (hτ : τ ∈ y.tasks) (he : ¬ e.Concerns τ.tcb) :
    τ ∈ y'.tasks := by
  obtain ⟨s', _, rfl⟩ := Option.map_eq_some_iff.mp hs
  cases e with
  | create => exact List.mem_cons_of_mem _ hτ
  | delete tcb => exact List.mem_filter.mpr ⟨hτ, by simpa using fun heq => he heq.symm⟩
  | start | run | runSecure | write | allocate | pendSV => exact hτ

/-- What one event does to a task that does not run. -/
theorem Parked.step (hp : Parked y τ psp ds m) (h : Inv img y) (ha : Allowed img y e)
    (hs : Step img y e y') (hτ : τ ∈ y'.tasks) :
    (∀ z, psp.toNat ≤ z → z < τ.limit → y'.state.memory z = m z) ∧
      ∀ d ∈ ds, ∃ d' ∈ y'.contexts, d'.handle = (y'.saved τ.tcb).xSecureContext ∧
        d'.stack = d.stack ∧ d'.size = d.size ∧
          ∀ z, d.stack.toNat ≤ z → z < d.stack.toNat + d.size.toNat → y'.state.memory z = m z := by
  obtain ⟨_, hkeeps⟩ := h.step ha hs
  have hk := hkeeps τ hp.mem hτ hp.notRunning
  have hlow := hp.low
  refine ⟨fun z hlo hhi => ?_, fun d hd => ?_⟩
  · rw [← hp.stack z hlo hhi]
    exact hk.owned z (.inr ⟨by omega, hhi⟩)
  · obtain ⟨d', hd', hh', hstack, hsize, hm⟩ := hp.secure d hd
    obtain ⟨hd'', hm'⟩ := hk.context d' hd' hh'
    refine ⟨d', hd'', by rw [hk.saved, hh'], hstack, hsize, fun z hlo hhi => ?_⟩
    rw [← hm z hlo hhi]
    exact hm' z (by rw [hstack]; exact hlo) (by rw [hstack, hsize]; exact hhi)

/-- What a run does to it. -/
theorem Parked.run (hp : Parked y τ psp ds m) (h : Inv img y) (hr : SystemRun img y es y')
    (he : ∀ e ∈ es, ¬ e.Concerns τ.tcb) : Inv img y' ∧ Parked y' τ psp ds m := by
  refine hr.invariant_of_mem (I := fun z => Inv img z ∧ Parked z τ psp ds m) ?_ ⟨h, hp⟩
  rintro e hmem z z' ⟨hi, hpz⟩ ⟨ha, hs⟩
  have hτ := mem_tasks_step hs hpz.mem (he e hmem)
  obtain ⟨hstack, hsecure⟩ := hpz.step hi ha hs hτ
  exact ⟨(hi.step ha hs).1, hτ, not_running_step hi ha hs hpz.notRunning (he e hmem), hpz.low,
    hstack, hsecure⟩

/-- A task that begins with a context that it has no secure context in. -/
theorem System.context_eq_of_processor {c : Context} {tcb : Word} (hr : y.Running tcb)
    (hp : y.processor tcb = ⟨c, none⟩) (hx : c.xSecureContext = 0) : y.state.context = c := by
  rw [System.processor_of_running hr] at hp
  obtain ⟨hvisible, _⟩ := Processor.mk.inj hp
  have hx' : y.state.xSecureContext = 0 := by
    rw [← hx, ← hvisible, Context.visible_xSecureContext]
    rfl
  rw [← hvisible, Context.visible_of_not_inSecure fun hs => hs.1 hx']

/-- The memory of a task that has been created. -/
theorem Inv.parked_create {pxStack ulStackDepth pxTaskCode pvParameters : Word} (h : Inv img y)
    (ha : Allowed img y (.create τ pxStack ulStackDepth pxTaskCode pvParameters))
    (hs : Step img y (.create τ pxStack ulStackDepth pxTaskCode pvParameters) y')
    (hpsp : psp = (initialContext pxStack ulStackDepth).psp) :
    Parked y' τ psp [] y'.state.memory ∧ y'.state.word psp = pvParameters ∧
      y'.state.word (psp + 20) = img.prvTaskExitError ∧ y'.state.word (psp + 24) = pxTaskCode ∧
      y'.state.word (psp + 28) = portInitialXpsr := by
  obtain ⟨hfresh, _, hsep⟩ := ha
  have hn := h.not_running_of_separate hsep
  cases hs
  obtain ⟨m, hm⟩ : ∃ m, m = prvInitialiseNewTask img pxTaskCode ulStackDepth pvParameters τ.tcb
    pxStack y.state.memory := ⟨_, rfl⟩
  obtain ⟨hframe, _, h0, h20, h24, h28⟩ := prvInitialiseNewTask_spec hfresh hm
  rw [← hm]
  have hhigh := hfresh.psp
  have hlow := hframe.low
  have hlimit := τ.limit_lt
  rw [← hpsp] at h0 h20 h24 h28 hhigh hlow
  have hword : ∀ k, k ≤ 32 → m.word (psp + BitVec.ofNat 32 k).toNat = m.word (psp.toNat + k) :=
    fun k hk => congrArg m.word (toNat_add_ofNat (by omega))
  exact ⟨⟨List.mem_cons_self .., hn, by omega, fun _ _ _ => rfl, nofun⟩, h0,
    (hword 20 (by omega)).trans h20, (hword 24 (by omega)).trans h24,
    (hword 28 (by omega)).trans h28⟩

/-- A new task, whenever it is first selected and whatever happened since it was created,
begins with an aligned stack, without a secure context, and with the exception frame that
makes the processor call its code with its parameters.  `PSPLIM` gets the end of its stack,
of which the processor keeps all bits if it is aligned. -/
theorem begins_of_run {pxStack ulStackDepth pxTaskCode pvParameters : Word}
    (h : Started img.heap ⟨s.memory, []⟩) (hr : SystemRun img (systemStart s) es y₁)
    (hcreate : Guarded (Allowed img) (Step img) y₁
      (.create τ pxStack ulStackDepth pxTaskCode pvParameters) y₂)
    (hr' : SystemRun img y₂ es' y₃) (hothers : ∀ e ∈ es', ¬ e.Concerns τ.tcb)
    (he : e = .start τ.tcb ∨ e = .pendSV τ.tcb)
    (hin : Guarded (Allowed img) (Step img) y₃ e y₄) :
    y₄.Running τ.tcb ∧ y₄.state.xSecureContext = 0 ∧ y₄.state.psplim = pxStack ∧
      y₄.state.lr = portInitialExcReturn ∧ 8 ∣ y₄.state.psp.toNat ∧
      (e = .pendSV τ.tcb →
        y₄.state.r4r11 = (initialContext pxStack ulStackDepth).r4r11) ∧
      y₄.state.word y₄.state.psp = pvParameters ∧
      y₄.state.word (y₄.state.psp + 20) = img.prvTaskExitError ∧
      y₄.state.word (y₄.state.psp + 24) = pxTaskCode ∧
      y₄.state.word (y₄.state.psp + 28) = portInitialXpsr := by
  have h₁ : Inv img y₁ := (Inv.init h).run hr
  have h₂ : Inv img y₂ := (h₁.step hcreate.1 hcreate.2).1
  obtain ⟨psp, hpsp⟩ : ∃ psp, psp = (initialContext pxStack ulStackDepth).psp := ⟨_, rfl⟩
  obtain ⟨hp₂, h0, h20, h24, h28⟩ := h₁.parked_create hcreate.1 hcreate.2 hpsp
  obtain ⟨h₃, hp₃⟩ := hp₂.run h₂ hr' hothers
  obtain ⟨h₄, _⟩ := h₃.step hin.1 hin.2
  have hτ₄ : τ ∈ y₄.tasks := by
    obtain ⟨s', _, rfl⟩ := Option.map_eq_some_iff.mp hin.2
    rcases he with rfl | rfl
    · exact hp₃.mem
    · exact hp₃.mem
  obtain ⟨hstack, _⟩ := hp₃.step h₃ hin.1 hin.2 hτ₄
  -- the registers are those that the task was made with
  have hn : y₁.machine.current ≠ some τ.tcb := fun hc =>
    h₁.not_running_of_separate hcreate.1.2.2 (System.machine_current_iff.mp hc)
  obtain ⟨_, hregs₃⟩ := Machine.spawn_of_run (h₁.refines hcreate.1 hcreate.2) hn
    (h₂.machine_run hr') (not_concerns_actions hothers)
  have hbegin : y₄.Running τ.tcb ∧ ∃ c : Context, y₄.processor τ.tcb = ⟨c, none⟩ ∧
      c = { initialContext pxStack ulStackDepth with r4r11 := c.r4r11 } ∧
      (e = .pendSV τ.tcb → c.r4r11 = (initialContext pxStack ulStackDepth).r4r11) := by
    have hstep := h₃.refines hin.1 hin.2
    rcases he with rfl | rfl
    · obtain ⟨hcur, r, r', hr₃, ⟨r4r11, hR⟩, hr₄⟩ := hstep.begin_spec
      rw [hregs₃] at hr₃
      cases hr₃
      rw [h₄.registers_of_mem hτ₄, hR] at hr₄
      exact ⟨System.machine_current_iff.mp hcur, _, Option.some_inj.mp hr₄, rfl, nofun⟩
    · obtain ⟨hcur, hr₄⟩ := hstep.switch_spec
      rw [h₄.registers_of_mem hτ₄, hregs₃] at hr₄
      exact ⟨System.machine_current_iff.mp hcur, _, Option.some_inj.mp hr₄, rfl, fun _ => rfl⟩
  obtain ⟨hrun, c, hproc, hc, hr4⟩ := hbegin
  have hcontext : y₄.state.context = c :=
    System.context_eq_of_processor hrun hproc (by rw [hc]; rfl)
  have hpsp₄ : y₄.state.psp = psp := by
    rw [hpsp]
    exact congrArg Context.psp (hcontext.trans hc)
  have hdvd := dvd_initialContext_psp pxStack ulStackDepth
  have hhigh := hcreate.1.1.psp
  have hlimit := τ.limit_lt
  rw [← hpsp] at hdvd hhigh
  have hword : ∀ k, k ≤ 32 → y₄.state.word (psp + BitVec.ofNat 32 k) =
      y₂.state.word (psp + BitVec.ofNat 32 k) := fun k hk => by
    have hadd : (psp + BitVec.ofNat 32 k).toNat = psp.toNat + k := toNat_add_ofNat (by omega)
    rw [State.word, State.word, hadd]
    exact word_congr fun z hlo hhi => hstack z (by omega) (by omega)
  have hzero : psp + BitVec.ofNat 32 0 = psp := BitVec.add_zero psp
  refine ⟨hrun, congrArg Context.xSecureContext (hcontext.trans hc),
    congrArg Context.psplim (hcontext.trans hc), congrArg Context.lr (hcontext.trans hc),
    hpsp₄ ▸ hdvd, fun he => (congrArg Context.r4r11 hcontext).trans (hr4 he), ?_, ?_, ?_, ?_⟩
  · rw [hpsp₄, ← h0]
    exact hzero ▸ hword 0 (by omega)
  · rw [hpsp₄, ← h20]
    exact hword 20 (by omega)
  · rw [hpsp₄, ← h24]
    exact hword 24 (by omega)
  · rw [hpsp₄, ← h28]
    exact hword 28 (by omega)

theorem begins_of_run_image : ∃ y, SystemRun image (systemStart imageState)
    (imageSecureEvents ++ [.pendSV 0x20040600]) y ∧ y.state.psplim = 0x20040400 ∧
    y.state.xSecureContext = 0 ∧ y.state.word y.state.psp = 2 ∧
    y.state.word (y.state.psp + 24) = 0x10000201 := by
  obtain ⟨y, hrun, _⟩ := exists_systemRun (systemStart imageState)
    (imageSecureEvents ++ [.pendSV 0x20040600]) [imageTask', imageTask] 0x20040600 0
    (by decide +kernel)
  obtain ⟨y₃, hr, hin⟩ := hrun.split
  cases hr with
  | cons hfirst hr =>
      cases hr with
      | cons hcreate hr' =>
          cases hin with
          | cons hin hnil =>
              cases hnil
              obtain ⟨_, hx, hlim, _, _, _, h0, _, h24, _⟩ := begins_of_run started_image
                (.single hfirst) hcreate hr' (by decide) (.inr rfl) hin
              exact ⟨y, hrun, hlim, hx, h0, h24⟩

/-! ## Secure contexts -/

/-- Deleting a task finds its secure context through its frame, and gives its two blocks and
no others back to the secure heap. -/
def Reclaims (img : Image) (y : System) (τ : Task) : Prop :=
  y.state.word (y.state.word τ.tcb) = y.handle τ.tcb ∧
    ∃ m t, vPortFreeSecureContext img τ.tcb y.state = some (y.state.withMemory m) ∧
      Manages img.heap m (freedContexts y.contexts (y.handle τ.tcb)) t ∧
      ∀ z, Kept img.heap (freedContexts y.contexts (y.handle τ.tcb)) z → m z = y.state.memory z

/-- A task that does not run can be deleted. -/
theorem Inv.reclaims (h : Inv img y) (hτ : τ ∈ y.tasks) (hn : ¬ y.Running τ.tcb) :
    Reclaims img y τ := by
  obtain ⟨t, ht⟩ := h.manages
  have hframe := h.frames τ hτ hn
  have hheld := h.custody.held τ hτ
  rw [System.handle_of_not_running hn] at hheld
  rw [Reclaims, System.handle_of_not_running hn]
  exact ⟨word_word_tcb hframe, vPortFreeSecureContext_spec ht hframe hheld⟩

/-- No call stops but an allocation that fails. -/
theorem Inv.progress (h : Inv img y) (ha : Allowed img y e) (hne : ∀ size, e ≠ .allocate size) :
    ∃ y', Step img y e y' := by
  cases e with
  | create | run | runSecure | write | pendSV => exact ⟨_, rfl⟩
  | start selected =>
      obtain ⟨hst, τ, hτ, rfl⟩ := ha
      have hcall : vStartFirstTask img τ.tcb y.state = some _ := vStartFirstTask_eq
        (h.frames τ hτ (System.not_running_of_unstarted hst)) (h.saved_of_unstarted hst hτ)
      exact ⟨_, by rw [Step, next, act, hcall]; rfl⟩
  | allocate size => exact absurd rfl (hne size)
  | delete tcb =>
      obtain ⟨⟨τ, hτ, rfl⟩, hn⟩ := ha
      obtain ⟨_, m, _, hcall, _⟩ := h.reclaims hτ hn
      exact ⟨_, by rw [Step, next, act, hcall]; rfl⟩

/-! ### Second requests -/

/-- An event loses a context exactly if it is a second request. -/
theorem lost_step (hs : Step img y e y') : y'.lost = [] ↔ y.lost = [] ∧ FirstRequest y e := by
  obtain ⟨s', _, rfl⟩ := Option.map_eq_some_iff.mp hs
  cases e with
  | allocate size =>
      have hfirst : y.state.xSecureContext = 0 ↔ FirstRequest y (.allocate size) :=
        ⟨fun hz _ _ => hz, fun h => h size rfl⟩
      rw [← hfirst, and_comm]
      exact overwritten_eq_nil
  | create | start | run | runSecure | write | pendSV | delete =>
      exact (and_iff_left fun _ => nofun).symm

/-- So does a run. -/
theorem lost_run (hr : SystemRun img y es y') :
    y'.lost = [] ↔ y.lost = [] ∧ FirstRequestRun img y es y' := by
  induction hr with
  | nil => exact (and_iff_left .nil).symm
  | @cons y y₁ y' e es hs _ ih =>
      rw [ih, lost_step hs.2, and_assoc]
      refine and_congr_right fun _ => ⟨fun ⟨hf, hr⟩ => .cons ⟨hf, hs⟩ hr, fun hr => ?_⟩
      cases hr with
      | cons hs' hr =>
          cases hs.2.symm.trans hs'.2.2
          exact ⟨hs'.1, hr⟩

theorem firstRequestRun_iff (hr : SystemRun img (systemStart s) es y) :
    FirstRequestRun img (systemStart s) es y ↔ y.lost = [] :=
  ((lost_run hr).trans (and_iff_right rfl)).symm

/-- Without a task that has one, there is no context if none was lost. -/
theorem Inv.contexts_eq_nil_iff (h : Inv img y) (hnone : ∀ τ ∈ y.tasks, y.handle τ.tcb = 0) :
    y.contexts = [] ↔ y.lost = [] := by
  obtain ⟨t, ht⟩ := h.manages
  rw [← h.custody.owned_iff]
  constructor
  · intro hcs
    rw [hcs]
    nofun
  · intro howned
    refine List.eq_nil_iff_forall_not_mem.mpr fun d hd => ?_
    obtain ⟨τ, hτ, ho⟩ := howned d hd
    exact ht.heap.handle_ne_zero hd (ho.symm.trans (hnone τ hτ))

/-- What the secure heap lends is what the tasks have, and deleting a task gives exactly that
back.  Only a task that asks again while it has a secure context leaves one that no task has. -/
theorem secureContexts_of_run (h : Started img.heap ⟨s.memory, []⟩)
    (hr : SystemRun img (systemStart s) es y) :
    (∀ e, Allowed img y e → (∀ size, e ≠ .allocate size) → ∃ y', Step img y e y') ∧
      (∃ t, Manages img.heap y.state.memory y.contexts t) ∧
      (y.contexts.flatMap SecureContext.Context.blocks).Pairwise SecureHeap.Disjoint ∧
      (∀ τ ∈ y.tasks, y.handle τ.tcb ≠ 0 → (∃ d ∈ y.contexts, d.handle = y.handle τ.tcb) ∧
        ∀ τ' ∈ y.tasks, y.handle τ'.tcb = y.handle τ.tcb → τ' = τ) ∧
      ((∀ d ∈ y.contexts, ∃ τ ∈ y.tasks, y.handle τ.tcb = d.handle) ↔
        FirstRequestRun img (systemStart s) es y) ∧
      (∀ τ ∈ y.tasks, y.Running τ.tcb → ∀ d ∈ y.contexts, d.handle = y.handle τ.tcb →
        y.state.secure.psplim = d.stack) ∧
      ∀ τ ∈ y.tasks, ¬ y.Running τ.tcb → Reclaims img y τ := by
  have hi : Inv img y := (Inv.init h).run hr
  obtain ⟨t, ht⟩ := hi.manages
  refine ⟨fun e ha hne => hi.progress ha hne, ⟨t, ht⟩,
    (SecureHeap.Simulates.disjoint ht.heap).1, fun τ hτ hne => ⟨hi.custody.held τ hτ hne, ?_⟩,
    hi.custody.owned_iff.trans (firstRequestRun_iff hr).symm, fun τ hτ hrun d hd hh => ?_,
    fun τ hτ hn => hi.reclaims hτ hn⟩
  · exact fun τ' hτ' heq => (hi.custody.unique τ hτ τ' hτ' hne heq.symm).symm
  · rw [System.handle_of_running hrun] at hh
    exact hi.psplim hrun.1 d hd hh

/-- One of two tasks has a secure context, and is switched out. -/
theorem secureContexts_of_run_image : ∃ y, SystemRun image (systemStart imageState)
    (imageSecureEvents ++ [.pendSV 0x20040600]) y ∧
    (∃ y', Step image y (.delete 0x20040200) y') ∧ Reclaims image y imageTask ∧
    ∀ d ∈ y.contexts, ∃ τ ∈ y.tasks, y.handle τ.tcb = d.handle := by
  obtain ⟨y, hrun, htasks, hr, _⟩ := exists_systemRun (systemStart imageState)
    (imageSecureEvents ++ [.pendSV 0x20040600]) [imageTask', imageTask] 0x20040600 0
    (by decide +kernel)
  obtain ⟨hprogress, _, _, _, howned, _, hreclaims⟩ := secureContexts_of_run started_image hrun
  have hmem : imageTask ∈ y.tasks := htasks ▸ by decide
  have hn : ¬ y.Running imageTask.tcb := fun hr' => absurd (hr'.2.symm.trans hr.2) (by decide)
  have hlost : y.lost = [] := lost_of_run [] hrun (by decide +kernel)
  exact ⟨y, hrun, hprogress (.delete 0x20040200) ⟨⟨imageTask, hmem, rfl⟩, hn⟩ (by simp),
    hreclaims imageTask hmem hn, howned.mpr ((firstRequestRun_iff hrun).mpr hlost)⟩

/-- When no task has a secure context, because none was asked for or the tasks that had one
were deleted, the secure heap serves a request for all of it, exactly if no task ever asked
for a secure context while it had one. -/
theorem secureHeap_whole_iff_of_run (h : Started img.heap ⟨s.memory, []⟩)
    (hr : SystemRun img (systemStart s) es y) (hnone : ∀ τ ∈ y.tasks, y.handle τ.tcb = 0) :
    SecureHeap.Whole img.heap y.state.memory ↔ FirstRequestRun img (systemStart s) es y := by
  have hi : Inv img y := (Inv.init h).run hr
  obtain ⟨t, ht⟩ := hi.manages
  have hlive : y.contexts.flatMap SecureContext.Context.blocks = [] ↔ y.contexts = [] := by
    cases y.contexts with
    | nil => exact iff_of_true rfl rfl
    | cons d ds => exact iff_of_false (List.cons_ne_nil _ _) (List.cons_ne_nil _ _)
  have hwhole := SecureHeap.Simulates.whole_iff ht.heap
  dsimp only at hwhole
  calc SecureHeap.Whole img.heap y.state.memory
    _ ↔ y.contexts.flatMap SecureContext.Context.blocks = [] := hwhole
    _ ↔ y.contexts = [] := hlive
    _ ↔ y.lost = [] := hi.contexts_eq_nil_iff hnone
    _ ↔ FirstRequestRun img (systemStart s) es y := (firstRequestRun_iff hr).symm

/-- A task that has a secure context is deleted.  In the second run it has asked twice. -/
theorem secureHeap_whole_iff_of_run_image : ∃ y y',
    SystemRun image (systemStart imageState)
      (imageSecureEvents ++ [.pendSV 0x20040600, .delete 0x20040200]) y ∧
    SecureHeap.Whole image.heap y.state.memory ∧
    SystemRun image (systemStart imageState)
      (imageSecureEvents ++ [.allocate 64, .pendSV 0x20040600, .delete 0x20040200]) y' ∧
    ¬ SecureHeap.Whole image.heap y'.state.memory := by
  obtain ⟨y, hrun, htasks, hr, hx⟩ := exists_systemRun (systemStart imageState)
    (imageSecureEvents ++ [.pendSV 0x20040600, .delete 0x20040200]) [imageTask'] 0x20040600 0
    (by decide +kernel)
  obtain ⟨y', hrun', htasks', hr', hx'⟩ := exists_systemRun (systemStart imageState)
    (imageSecureEvents ++ [.allocate 64, .pendSV 0x20040600, .delete 0x20040200]) [imageTask']
    0x20040600 0 (by decide +kernel)
  have hlost : y.lost = [] := lost_of_run [] hrun (by decide +kernel)
  have hlost' : y'.lost = [0x20000110] := lost_of_run [0x20000110] hrun' (by decide +kernel)
  have hnone : ∀ z : System, z.tasks = [imageTask'] → z.Running 0x20040600 →
      z.state.xSecureContext = 0 → ∀ τ ∈ z.tasks, z.handle τ.tcb = 0 := by
    intro z hz hr hx τ hτ
    rw [hz, List.mem_singleton] at hτ
    rw [hτ]
    exact (System.handle_of_running hr).trans hx
  refine ⟨y, y', hrun, ?_, hrun', fun hwhole => ?_⟩
  · exact (secureHeap_whole_iff_of_run started_image hrun (hnone y htasks hr hx)).mpr
      ((firstRequestRun_iff hrun).mpr hlost)
  · have hfirst := (secureHeap_whole_iff_of_run started_image hrun'
      (hnone y' htasks' hr' hx')).mp hwhole
    have hnil := (firstRequestRun_iff hrun').mp hfirst
    rw [hlost'] at hnil
    cases hnil

end Port
