import PicoTrustZone.Lib.Multiplex
import PicoTrustZone.Port.Invariant

/-!
# A processor for each task

The port keeps one set of registers and moves it to and from the stacks.  For the tasks
this is a machine with registers of their own: what a task sees of the non-secure
registers, and the secure stack pointer and its limit if it has a secure context.  In
that machine a context switch moves nothing.
-/

namespace Port

open ByteMemory Transition Multiplex
open SecureContext (Word Manages Lends savedContexts)

/-- What the handlers keep of the registers.  In secure code `r4` to `r11` are kept by the
hardware. -/
def Context.visible (c : Context) : Context :=
  if c.InSecure then { c with r4r11 := .replicate 8 0 } else c

/-- The registers of a task. -/
structure Processor where
  context : Context
  /-- `PSP` and `PSPLIM` of the secure side. -/
  secure : Option (Word × Word)

namespace System

/-- The secure registers of a task. -/
def secureRegisters (y : System) (tcb : Word) : Option (Word × Word) :=
  if y.Running tcb then
    if y.state.xSecureContext = 0 then none else some (y.state.secure.psp, y.state.secure.psplim)
  else (y.contexts.find? fun d => d.handle = y.handle tcb).map fun d => (d.sp, d.stack)

/-- The registers of a task. -/
def processor (y : System) (tcb : Word) : Processor :=
  ⟨(y.context tcb).visible, y.secureRegisters tcb⟩

/-- The machine that the tasks see. -/
def machine (y : System) : Machine Word Processor where
  current := if y.started = true then some y.state.pxCurrentTCB else none
  registers tcb := if ∃ τ ∈ y.tasks, τ.tcb = tcb then some (y.processor tcb) else none

end System

/-- What an event is to that machine. -/
def Event.action : Event → Action Word Processor
  | .create τ pxStack ulStackDepth _ _ =>
      .spawn τ.tcb ⟨initialContext pxStack ulStackDepth, none⟩
  -- a task begins with the `r4` to `r11` that the scheduler was started with
  | .start selected => .begin selected fun p p' =>
      ∃ r4r11, p' = { p with context := { p.context with r4r11 } }
  | .run r4r11 psp lr => .run fun p p' =>
      p' = { p with context := Context.visible { p.context with r4r11, psp, lr } }
  | .runSecure psp => .run fun p p' => p' = { p with secure := p.secure.map fun q => (psp, q.2) }
  | .write _ _ => .idle
  | .allocate size => .run fun p p' => ∃ handle stack, handle ≠ 0 ∧ 8 ∣ stack.toNat ∧
      p' = ⟨Context.visible { p.context with xSecureContext := handle }, some (stack + size, stack)⟩
  | .pendSV selected => .switch selected
  | .delete tcb => .retire tcb

variable {img : Image} {y y' y₁ y₂ y₃ : System} {τ τ' : Task} {d : SecureContext.Context}
  {c : Context} {e : Event} {es es' : List Event} {s : State} {L : SecureHeap.Layout}
  {m : ByteMemory} {t : SecureHeap.Abstract} {cs : List SecureContext.Context}

/-! ## The registers of a task -/

@[simp] theorem Context.visible_xSecureContext (c : Context) :
    c.visible.xSecureContext = c.xSecureContext := by
  rw [visible]
  split <;> rfl

@[simp] theorem Context.visible_psp (c : Context) : c.visible.psp = c.psp := by
  rw [visible]
  split <;> rfl

@[simp] theorem Context.visible_psplim (c : Context) : c.visible.psplim = c.psplim := by
  rw [visible]
  split <;> rfl

theorem Context.visible_of_not_inSecure (h : ¬ c.InSecure) : c.visible = c := if_neg h

/-- Resuming a context gives back what was kept of it. -/
theorem State.resume_visible (s : State) (c : Context) :
    (s.resume c).context.visible = c.visible := by
  rcases Decidable.em c.InSecure with hs | hs
  · rw [Context.visible, Context.visible, if_pos hs, if_pos (by exact hs)]
    rfl
  · have heq : (s.resume c).context = c := by
      rw [resume, State.context, if_neg hs]
    rw [heq]

/-- What is not kept is not needed when the registers change. -/
theorem Context.visible_update (c : Context) (r4r11 : Registers) (psp lr : Word) :
    Context.visible { c.visible with r4r11, psp, lr } =
      Context.visible { c with r4r11, psp, lr } := by
  have heq : { c.visible with r4r11, psp, lr } = { c with r4r11, psp, lr } := by
    rw [visible]
    split <;> rfl
  rw [heq]

/-- Nor when the handle of one secure context is overwritten by that of another. -/
theorem Context.visible_handle {x : Word} (hx : x ≠ 0) (c : Context) :
    Context.visible { c.visible with xSecureContext := x } =
      Context.visible { c with xSecureContext := x } := by
  rcases Decidable.em c.InSecure with hs | hs
  · have hs' : InSecure { c with xSecureContext := x } := ⟨hx, hs.2⟩
    have hs₀ : InSecure { c.visible with xSecureContext := x } := by
      rw [visible, if_pos hs]
      exact hs'
    rw [visible, if_pos hs₀, visible, if_pos hs, visible, if_pos hs']
  · rw [visible_of_not_inSecure hs]

theorem System.processor_of_running {tcb : Word} (hr : y.Running tcb) :
    y.processor tcb = ⟨y.state.context.visible, if y.state.xSecureContext = 0 then none
      else some (y.state.secure.psp, y.state.secure.psplim)⟩ := by
  rw [processor, context_of_running hr, secureRegisters, if_pos hr]

theorem find?_handle (h : Lends L m cs t) (hd : d ∈ cs) :
    cs.find? (fun d' => d'.handle = d.handle) = some d := by
  cases hf : cs.find? (fun d' => d'.handle = d.handle) with
  | none =>
      have := List.find?_eq_none.mp hf d hd
      simp at this
  | some d' =>
      have hmem := List.mem_of_find?_eq_some hf
      have heq := List.find?_some hf
      rw [decide_eq_true_eq] at heq
      rw [h.eq_of_handle hmem hd heq]

namespace Inv

/-- A task without a context has no secure registers. -/
theorem secureRegisters_of_none (h : Inv img y) {tcb : Word} (hh : y.handle tcb = 0) :
    y.secureRegisters tcb = none := by
  obtain ⟨t, ht⟩ := h.manages
  rw [System.secureRegisters]
  split
  · next hr =>
    rw [System.handle_of_running hr] at hh
    exact if_pos hh
  · rw [Option.map_eq_none_iff, List.find?_eq_none]
    intro d hd
    rw [hh, decide_eq_true_eq]
    exact ht.heap.handle_ne_zero hd

/-- A suspended task has those in its descriptor. -/
theorem secureRegisters_of_mem (h : Inv img y) {tcb : Word} (hn : ¬ y.Running tcb)
    (hd : d ∈ y.contexts) (hh : d.handle = y.handle tcb) :
    y.secureRegisters tcb = some (d.sp, d.stack) := by
  obtain ⟨t, ht⟩ := h.manages
  rw [System.secureRegisters, if_neg hn, ← hh, find?_handle ht.heap hd]
  rfl

theorem registers_of_mem (_ : Inv img y) (hτ : τ ∈ y.tasks) :
    y.machine.registers τ.tcb = some (y.processor τ.tcb) := if_pos ⟨τ, hτ, rfl⟩

/-- A task that does not run before and after has the same registers. -/
theorem processor_eq (h : Inv img y) (h' : Inv img y') (hτ : τ ∈ y.tasks)
    (hn : ¬ y.Running τ.tcb) (hn' : ¬ y'.Running τ.tcb) (hk : Keeps y y' τ) :
    y'.processor τ.tcb = y.processor τ.tcb := by
  have hhandle : y'.handle τ.tcb = y.handle τ.tcb := by
    rw [System.handle_of_not_running hn, System.handle_of_not_running hn', hk.saved]
  have hsecure : y'.secureRegisters τ.tcb = y.secureRegisters τ.tcb := by
    rcases Decidable.em (y.handle τ.tcb = 0) with hz | hz
    · rw [h.secureRegisters_of_none hz, h'.secureRegisters_of_none (hhandle.trans hz)]
    · obtain ⟨d, hd, hh⟩ := h.custody.held τ hτ hz
      obtain ⟨hd', _⟩ := hk.context d hd (hh.trans (System.handle_of_not_running hn))
      rw [h.secureRegisters_of_mem hn hd hh,
        h'.secureRegisters_of_mem hn' hd' (hh.trans hhandle.symm)]
  rw [System.processor, System.processor, System.context_of_not_running hn,
    System.context_of_not_running hn', hk.saved, hsecure]

/-- The machine after an event that changes the registers of one task. -/
theorem machine_eq_set (h : Inv img y) (h' : Inv img y') {tcb : Word} {r : Option Processor}
    (hcur : y'.machine.current = y.machine.current)
    (htasks : ∀ τ : Task, τ.tcb ≠ tcb → (τ ∈ y'.tasks ↔ τ ∈ y.tasks))
    (hproc : ∀ τ ∈ y.tasks, τ ∈ y'.tasks → τ.tcb ≠ tcb →
      y'.processor τ.tcb = y.processor τ.tcb)
    (hr : y'.machine.registers tcb = r) : y'.machine = y.machine.set tcb r := by
  refine Machine.ext hcur (funext fun tcb' => ?_)
  show _ = Function.update y.machine.registers tcb r tcb'
  rcases Decidable.em (tcb' = tcb) with rfl | hne
  · rw [Function.update_self, hr]
  · rw [Function.update_of_ne hne]
    have hiff : (∃ τ ∈ y'.tasks, τ.tcb = tcb') ↔ ∃ τ ∈ y.tasks, τ.tcb = tcb' := by
      constructor
      · rintro ⟨τ, hτ, rfl⟩
        exact ⟨τ, (htasks τ hne).mp hτ, rfl⟩
      · rintro ⟨τ, hτ, rfl⟩
        exact ⟨τ, (htasks τ hne).mpr hτ, rfl⟩
    rcases Decidable.em (∃ τ ∈ y.tasks, τ.tcb = tcb') with hex | hex
    · obtain ⟨τ, hτ, rfl⟩ := hex
      have hτ' := (htasks τ hne).mpr hτ
      rw [h.registers_of_mem hτ, h'.registers_of_mem hτ', hproc τ hτ hτ' hne]
    · exact (if_neg fun hc => hex (hiff.mp hc)).trans (if_neg hex).symm

/-! ## One event -/

/-- An event that is not about the registers of the task that runs. -/
theorem processor_eq_of_keeps (h : Inv img y) (h' : Inv img y') (hk : KeepsOthers y y')
    (hrunning : ∀ tcb, y'.Running tcb ↔ y.Running tcb)
    (hcontext : y'.state.context = y.state.context)
    (hpsp : y'.state.secure.psp = y.state.secure.psp)
    (hpsplim : y'.state.secure.psplim = y.state.secure.psplim)
    (hτ : τ ∈ y.tasks) (hτ' : τ ∈ y'.tasks) : y'.processor τ.tcb = y.processor τ.tcb := by
  rcases Decidable.em (y.Running τ.tcb) with hr | hn
  · have hx : y'.state.xSecureContext = y.state.xSecureContext :=
      congrArg Context.xSecureContext hcontext
    rw [System.processor_of_running hr, System.processor_of_running ((hrunning _).mpr hr), hcontext,
      hx, hpsp, hpsplim]
  · exact h.processor_eq h' hτ hn (fun hr => hn ((hrunning _).mp hr)) (hk τ hτ hτ' hn)

/-- An event of the task that runs. -/
theorem step_run {R : Processor → Processor → Prop} (h : Inv img y) (h' : Inv img y')
    (hk : KeepsOthers y y') (hst : y.started = true) (hst' : y'.started = true)
    (hcur : y'.state.pxCurrentTCB = y.state.pxCurrentTCB) (htasks : y'.tasks = y.tasks)
    (hR : ∀ tcb, y.Running tcb → y'.Running tcb → R (y.processor tcb) (y'.processor tcb)) :
    y.machine.Step (.run R) y'.machine := by
  obtain ⟨τ, hτ, hτcur, _⟩ := h.running hst
  have hr : y.Running τ.tcb := ⟨hst, hτcur⟩
  have hr' : y'.Running τ.tcb := ⟨hst', hcur.trans hτcur⟩
  have hτ' : τ ∈ y'.tasks := htasks ▸ hτ
  have hcurrent : y.machine.current = some τ.tcb := by
    rw [System.machine, hst, if_pos rfl, hτcur]
  have heq : y'.machine = y.machine.set τ.tcb (some (y'.processor τ.tcb)) := by
    refine h.machine_eq_set h' ?_ (fun τ' _ => by rw [htasks]) (fun τ₁ h₁ h₁' hne => ?_)
      (h'.registers_of_mem hτ')
    · rw [hcurrent, System.machine, hst', if_pos rfl, hcur, hτcur]
    · have hn : ¬ y.Running τ₁.tcb := fun hr₁ => hne (hr₁.2.symm.trans hr.2)
      have hn' : ¬ y'.Running τ₁.tcb := fun hr₁ => hne (hr₁.2.symm.trans hr'.2)
      exact h.processor_eq h' h₁ hn hn' (hk τ₁ h₁ h₁' hn)
  rw [heq]
  exact .run hcurrent (h.registers_of_mem hτ) (hR _ hr hr')

/-- A context switch moves nothing. -/
theorem processor_pendSV (h : Inv img y) (ha : Allowed img y (.pendSV τ.tcb))
    (hs : Step img y (.pendSV τ.tcb) y') (hτ : τ ∈ y.tasks) (hτ' : τ' ∈ y.tasks) :
    y'.processor τ'.tcb = y.processor τ'.tcb := by
  obtain ⟨h', _⟩ := h.pendSV ha hs
  obtain ⟨hst, _⟩ := ha
  have heq := h.pendSVHandler_eq hst hτ
  have hy' : y' = track y (pendSVHandler τ.tcb y.state) (.pendSV τ.tcb) := by
    cases hs
    rfl
  obtain ⟨hst', hstate, hsaved, hcontexts⟩ : y'.started = y.started ∧
      y'.state = pendSVHandler τ.tcb y.state ∧
      y'.saved = Function.update y.saved y.state.pxCurrentTCB y.state.context ∧
      y'.contexts = savedContexts y.contexts y.state.xSecureContext y.state.secure.psp := by
    rw [hy']
    exact ⟨rfl, rfl, rfl, rfl⟩
  have hcur : y'.state.pxCurrentTCB = τ.tcb := by
    rw [hstate, heq]
    rfl
  -- the registers that are kept
  have hvisible : (y'.context τ'.tcb).visible = (y.context τ'.tcb).visible := by
    rcases Decidable.em (y'.Running τ'.tcb) with hr | hn
    · rw [System.context_of_running hr, hstate, heq, State.resume_visible, ← hcur, hr.2]
    · rw [System.context_of_not_running hn, hsaved, update_saved hst]
  have hhandle : y'.handle τ'.tcb = y.handle τ'.tcb := by
    rw [System.handle, System.handle, ← Context.visible_xSecureContext, hvisible,
      Context.visible_xSecureContext]
  -- the registers of the secure side
  have hsecure : y'.secureRegisters τ'.tcb = y.secureRegisters τ'.tcb := by
    rcases Decidable.em (y.handle τ'.tcb = 0) with hz | hz
    · rw [h.secureRegisters_of_none hz, h'.secureRegisters_of_none (hhandle.trans hz)]
    · obtain ⟨d, hd, hh⟩ := h.custody.held τ' hτ' hz
      obtain ⟨d', hd', hdh, hold⟩ : ∃ d' ∈ y'.contexts, d'.handle = d.handle ∧
          y.secureRegisters τ'.tcb = some (d'.sp, d'.stack) := by
        rw [hcontexts]
        rcases Decidable.em (y.Running τ'.tcb) with hr | hn
        · have hx : d.handle = y.state.xSecureContext := hh.trans (System.handle_of_running hr)
          refine ⟨_, List.mem_map_of_mem hd, by split <;> rfl, ?_⟩
          rw [if_pos hx, System.secureRegisters, if_pos hr, if_neg, h.psplim hst d hd hx]
          exact fun hc => hz ((System.handle_of_running hr).trans hc)
        · refine ⟨d, SecureContext.mem_savedContexts_of_ne hd ?_, rfl,
            h.secureRegisters_of_mem hn hd hh⟩
          exact h.handle_ne_of_not_running hst hτ' hn hd
            (hh.trans (System.handle_of_not_running hn))
      rw [hold]
      rcases Decidable.em (y'.Running τ'.tcb) with hr | hn
      · have htcb : τ'.tcb = τ.tcb := hr.2.symm.trans hcur
        have hload := h.load_saved hst hτ (hcontexts ▸ hd') (by rw [hdh, hh, htcb])
        have hne : y'.state.xSecureContext ≠ 0 := fun hc =>
          hz (hhandle.symm.trans ((System.handle_of_running hr).trans hc))
        rw [System.secureRegisters, if_pos hr, if_neg hne, hstate, hload.1, hload.2]
      · exact h'.secureRegisters_of_mem hn hd' (hdh.trans (hh.trans hhandle.symm))
  rw [System.processor, System.processor, hvisible, hsecure]

/-- A new task gets registers. -/
theorem refines_create {pxStack ulStackDepth pxTaskCode pvParameters : Word} (h : Inv img y)
    (ha : Allowed img y (.create τ pxStack ulStackDepth pxTaskCode pvParameters))
    (hs : Step img y (.create τ pxStack ulStackDepth pxTaskCode pvParameters) y') :
    y.machine.Step (.spawn τ.tcb ⟨initialContext pxStack ulStackDepth, none⟩) y'.machine := by
  obtain ⟨h', hk⟩ := h.step ha hs
  obtain ⟨_, _, hsep⟩ := ha
  have hnone : y.machine.registers τ.tcb = none :=
    if_neg fun ⟨τ', hτ', he⟩ => (hsep τ' hτ').tcb_ne he.symm
  have hn : ¬ y.Running τ.tcb := h.not_running_of_separate hsep
  have hy' : y' = track y (y.state.withMemory (prvInitialiseNewTask img pxTaskCode ulStackDepth
      pvParameters τ.tcb pxStack y.state.memory))
      (.create τ pxStack ulStackDepth pxTaskCode pvParameters) := by
    cases hs
    rfl
  have hn' : ¬ y'.Running τ.tcb := by
    rw [hy']
    exact hn
  have hsaved : y'.saved τ.tcb = initialContext pxStack ulStackDepth := by
    rw [hy']
    exact Function.update_self ..
  have hmem : τ ∈ y'.tasks := by
    rw [hy']
    exact List.mem_cons_self ..
  have hproc : y'.processor τ.tcb = ⟨initialContext pxStack ulStackDepth, none⟩ := by
    have hhandle : y'.handle τ.tcb = 0 := by
      rw [System.handle_of_not_running hn', hsaved]
      rfl
    rw [System.processor, System.context_of_not_running hn', hsaved,
      h'.secureRegisters_of_none hhandle, Context.visible_of_not_inSecure fun hs => hs.1 rfl]
  have heq : y'.machine = y.machine.set τ.tcb
      (some ⟨initialContext pxStack ulStackDepth, none⟩) := by
    refine h.machine_eq_set h' (by rw [hy']; rfl) (fun τ' hne => ?_)
      (fun τ' hτ' hτ'' _ => ?_) (by rw [h'.registers_of_mem hmem, hproc])
    · rw [hy']
      exact List.mem_cons.trans (or_iff_right fun he => hne (congrArg Task.tcb he))
    · rw [hy'] at hτ'' hk h' ⊢
      exact h.processor_eq_of_keeps h' hk (fun _ => Iff.rfl) rfl rfl rfl hτ' hτ''
  rw [heq]
  exact .spawn hnone

/-- The first task begins. -/
theorem refines_start {selected : Word} (h : Inv img y)
    (ha : Allowed img y (.start selected)) (hs : Step img y (.start selected) y') :
    y.machine.Step (Event.action (.start selected)) y'.machine := by
  obtain ⟨h', hk⟩ := h.step ha hs
  obtain ⟨hst, τ, hτ, rfl⟩ := ha
  have hn : ∀ tcb, ¬ y.Running tcb := fun _ => System.not_running_of_unstarted hst
  have hframe := h.frames τ hτ (hn _)
  have hx := h.saved_of_unstarted hst hτ
  rw [Step, next, act, vStartFirstTask_eq hframe hx] at hs
  obtain ⟨s', hs'⟩ : ∃ s' : State, s' = { y.state with
      secure := { y.state.secure with
        control := SecureContext.securecontextControlValuePrivileged }
      r4r11 := firstRegisters img y.state.r4r11
      psp := (y.saved τ.tcb).psp
      psplim := (y.saved τ.tcb).psplim
      control := 2
      lr := (y.saved τ.tcb).lr
      pxCurrentTCB := τ.tcb
      xSecureContext := 0 } := ⟨_, rfl⟩
  have hy' : y' = { y with state := s', started := true } := by
    rw [hs']
    cases hs
    rfl
  have hcurrent : y.machine.current = none := if_neg (by rw [hst]; exact Bool.false_ne_true)
  have hr' : y'.Running τ.tcb := by
    rw [hy', hs']
    exact ⟨rfl, rfl⟩
  have hproc : y'.processor τ.tcb = { y.processor τ.tcb with
      context := { (y.processor τ.tcb).context with
        r4r11 := firstRegisters img y.state.r4r11 } } := by
    have hs₀ : ¬ (y.saved τ.tcb).InSecure := fun hc => hc.1 hx
    have hs₁ : ¬ s'.context.InSecure := fun hc => hc.1 (by rw [hs']; rfl)
    have hx' : s'.xSecureContext = 0 := by rw [hs']
    have hnone : y.secureRegisters τ.tcb = none :=
      h.secureRegisters_of_none ((System.handle_of_not_running (hn _)).trans hx)
    rw [System.processor_of_running hr', System.processor, hnone,
      System.context_of_not_running (hn _), Context.visible_of_not_inSecure hs₀, hy']
    dsimp only
    rw [if_pos hx', Context.visible_of_not_inSecure hs₁, hs', ← hx]
    rfl
  have heq : y'.machine = { y.machine.set τ.tcb (some (y'.processor τ.tcb)) with
      current := some τ.tcb } := by
    refine Machine.ext ?_ (funext fun tcb => ?_)
    · show (if y'.started = true then some y'.state.pxCurrentTCB else none) = some τ.tcb
      rw [if_pos hr'.1, hr'.2]
    · show (if ∃ τ' ∈ y'.tasks, τ'.tcb = tcb then some (y'.processor tcb) else none) =
        Function.update y.machine.registers τ.tcb (some (y'.processor τ.tcb)) tcb
      have htasks : y'.tasks = y.tasks := by rw [hy']
      rw [htasks]
      rcases Decidable.em (tcb = τ.tcb) with rfl | hne
      · rw [Function.update_self]
        exact if_pos ⟨τ, hτ, rfl⟩
      · rw [Function.update_of_ne hne]
        rcases Decidable.em (∃ τ' ∈ y.tasks, τ'.tcb = tcb) with hex | hex
        · obtain ⟨τ', hτ', rfl⟩ := hex
          rw [if_pos ⟨τ', hτ', rfl⟩, h.registers_of_mem hτ',
            h.processor_eq h' hτ' (hn _) (fun hr => hne (hr.2.symm.trans hr'.2))
              (hk τ' hτ' (htasks ▸ hτ') (hn _))]
        · rw [if_neg hex]
          exact (if_neg hex).symm
  rw [heq]
  exact .begin hcurrent (h.registers_of_mem hτ) ⟨_, hproc⟩

/-- Writes change no registers. -/
theorem refines_write {addr : Word} {b : BitVec 8} (h : Inv img y)
    (ha : Allowed img y (.write addr b)) (hs : Step img y (.write addr b) y') :
    y.machine.Step .idle y'.machine := by
  obtain ⟨h', hk⟩ := h.step ha hs
  cases hs
  have heq : System.machine (track y (y.state.withMemory
      (Function.update y.state.memory addr.toNat b)) (.write addr b)) = y.machine := by
    refine Machine.ext rfl (funext fun tcb => ?_)
    rcases Decidable.em (∃ τ ∈ y.tasks, τ.tcb = tcb) with hex | hex
    · obtain ⟨τ, hτ, rfl⟩ := hex
      rw [h.registers_of_mem hτ]
      refine (h'.registers_of_mem hτ).trans ?_
      exact congrArg some
        (h.processor_eq_of_keeps h' hk (fun _ => Iff.rfl) rfl rfl rfl hτ hτ)
    · exact (if_neg hex).trans (if_neg hex).symm
  exact heq.symm ▸ .idle

/-- A new secure context is loaded. -/
theorem refines_allocate {size : Word} (h : Inv img y)
    (ha : Allowed img y (.allocate size)) (hs : Step img y (.allocate size) y') :
    y.machine.Step (Event.action (.allocate size)) y'.machine := by
  obtain ⟨h', hk⟩ := h.step ha hs
  obtain ⟨t, ht⟩ := h.manages
  obtain ⟨s', hcall, rfl⟩ := Option.map_eq_some_iff.mp hs
  obtain ⟨handle, stack, m, t', hne, rfl, hm, hkept⟩ := vPortAllocateSecureContext_spec ht hcall
  refine h.step_run h' hk ha ha rfl rfl fun tcb hr hr' => ?_
  rw [System.processor_of_running hr, System.processor_of_running hr']
  refine ⟨handle, stack, hne, hm.heap.dvd_stack (List.mem_cons_self ..), ?_⟩
  rw [Context.visible_handle hne]
  show Processor.mk _ _ = Processor.mk _ _
  congr 1
  exact if_neg hne

/-- A context switch changes which task runs. -/
theorem refines_pendSV {selected : Word} (h : Inv img y)
    (ha : Allowed img y (.pendSV selected)) (hs : Step img y (.pendSV selected) y') :
    y.machine.Step (.switch selected) y'.machine := by
  obtain ⟨h', hk⟩ := h.step ha hs
  have ha' := ha
  obtain ⟨hst, τ, hτ, rfl⟩ := ha
  have hcur : y.machine.current = some y.state.pxCurrentTCB := if_pos hst
  have heq : y'.machine = { y.machine with current := some τ.tcb } := by
    have hstate : y'.state.pxCurrentTCB = τ.tcb ∧ y'.started = true ∧ y'.tasks = y.tasks := by
      have hres := h.pendSVHandler_eq hst hτ
      cases hs
      refine ⟨?_, hst, rfl⟩
      show (pendSVHandler τ.tcb y.state).pxCurrentTCB = _
      rw [hres]
      rfl
    obtain ⟨hcur', hst', htasks⟩ := hstate
    refine Machine.ext ?_ (funext fun tcb => ?_)
    · show (if y'.started = true then some y'.state.pxCurrentTCB else none) = some τ.tcb
      rw [if_pos hst', hcur']
    · rcases Decidable.em (∃ τ' ∈ y.tasks, τ'.tcb = tcb) with hex | hex
      · obtain ⟨τ', hτ', rfl⟩ := hex
        show _ = y.machine.registers τ'.tcb
        rw [h.registers_of_mem hτ', h'.registers_of_mem (htasks ▸ hτ'),
          h.processor_pendSV ha' hs hτ hτ']
      · exact (if_neg (htasks ▸ hex)).trans (if_neg hex).symm
  rw [heq]
  exact .switch hcur (h.registers_of_mem hτ)

/-- A task that is deleted has no registers. -/
theorem refines_delete {tcb : Word} (h : Inv img y)
    (ha : Allowed img y (.delete tcb)) (hs : Step img y (.delete tcb) y') :
    y.machine.Step (.retire tcb) y'.machine := by
  obtain ⟨h', hk⟩ := h.step ha hs
  obtain ⟨⟨τ, hτ, rfl⟩, hn⟩ := ha
  obtain ⟨t, ht⟩ := h.manages
  obtain ⟨s', hcall, rfl⟩ := Option.map_eq_some_iff.mp hs
  have hheld := h.custody.held τ hτ
  rw [System.handle_of_not_running hn] at hheld
  obtain ⟨m, t', hcall', _⟩ := vPortFreeSecureContext_spec ht (h.frames τ hτ hn) hheld
  cases hcall.symm.trans hcall'
  have hcur : y.machine.current ≠ some τ.tcb := by
    rw [System.machine]
    dsimp only
    split
    · next hst => exact fun he => hn ⟨hst, Option.some_inj.mp he⟩
    · nofun
  have heq : (track y (y.state.withMemory m) (.delete τ.tcb)).machine =
      y.machine.set τ.tcb none := by
    refine h.machine_eq_set h' rfl (fun τ' hne => ?_) (fun τ' hτ' hτ'' _ => ?_) ?_
    · exact List.mem_filter.trans (and_iff_left (by simpa using hne))
    · exact h.processor_eq_of_keeps h' hk (fun _ => Iff.rfl) rfl rfl rfl hτ' hτ''
    · refine if_neg ?_
      rintro ⟨τ', hτ', he⟩
      obtain ⟨_, hne⟩ := List.mem_filter.mp hτ'
      simp [he] at hne
  rw [heq]
  exact .retire hcur (h.registers_of_mem hτ)

/-- One event is one step of the machine that the tasks see. -/
theorem refines (h : Inv img y) (ha : Allowed img y e) (hs : Step img y e y') :
    y.machine.Step e.action y'.machine := by
  cases e with
  | create τ pxStack ulStackDepth pxTaskCode pvParameters => exact h.refines_create ha hs
  | start selected => exact h.refines_start ha hs
  | run r4r11 psp lr =>
      obtain ⟨h', hk⟩ := h.step ha hs
      obtain ⟨τ, hτ, hr, _⟩ := ha
      cases hs
      refine h.step_run h' hk hr.1 hr.1 rfl rfl fun tcb hr hr' => ?_
      rw [System.processor_of_running hr, System.processor_of_running hr', Context.visible_update]
      rfl
  | runSecure psp =>
      obtain ⟨h', hk⟩ := h.step ha hs
      cases hs
      refine h.step_run h' hk ha ha rfl rfl fun tcb hr hr' => ?_
      rw [System.processor_of_running hr, System.processor_of_running hr']
      show Processor.mk _ _ = Processor.mk _ _
      congr 1
      show (if y.state.xSecureContext = 0 then none else some (psp, y.state.secure.psplim)) = _
      split <;> rfl
  | write addr b => exact h.refines_write ha hs
  | allocate size => exact h.refines_allocate ha hs
  | pendSV selected => exact h.refines_pendSV ha hs
  | delete tcb => exact h.refines_delete ha hs

end Inv

end Port
