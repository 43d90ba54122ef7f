import PicoTrustZone.Port.Model

/-!
# Saved contexts

What the context switch leaves on the stack of a task.  A `Frame` is a saved context in
memory: the top of the stack in the task control block, and below the stack pointer the
secure context, `PSPLIM` and `EXC_RETURN`, and `r4` to `r11` unless the hardware has put
them on the secure stack.  Saving makes one, `restoreContext` and
`vRestoreContextOfFirstTask` take it back, and a new task starts with one.
-/

namespace Port

open ByteMemory
open SecureContext (Word freeRTOSConfig)

/-! ## Tasks and their contexts -/

/-- A task: its control block, whose first word is the top of its stack, and its stack. -/
structure Task where
  tcb : Word
  stack : Nat
  limit : Nat
  tcb_le : tcb.toNat + 4 ≤ 2 ^ 32
  limit_lt : limit < 2 ^ 32
  apart : tcb.toNat + 4 ≤ stack ∨ limit ≤ tcb.toNat
deriving DecidableEq

/-- The context of a task. -/
structure Context where
  xSecureContext : Word
  psplim : Word
  lr : Word
  psp : Word
  r4r11 : Registers
deriving DecidableEq, Repr

/-- The context of the task that runs. -/
def State.context (s : State) : Context := ⟨s.xSecureContext, s.psplim, s.lr, s.psp, s.r4r11⟩

namespace Context

/-- The task was interrupted in secure code, so `r4` to `r11` are on its secure stack. -/
def InSecure (c : Context) : Prop := c.xSecureContext ≠ 0 ∧ SecureStackUsed c.lr

instance (c : Context) : Decidable c.InSecure := inferInstanceAs (Decidable (_ ∧ _))

/-- The size of the frame. -/
def size (c : Context) : Nat := if c.InSecure then 12 else 44

/-- The address of the frame. -/
def top (c : Context) : Nat := c.psp.toNat - c.size

end Context

/-- The memory holds the context of a task that does not run. -/
structure Frame (m : ByteMemory) (τ : Task) (c : Context) : Prop where
  low : τ.stack + 44 ≤ c.psp.toNat
  high : c.psp.toNat ≤ τ.limit
  pxTopOfStack : (m.word τ.tcb.toNat).toNat = c.top
  xSecureContext : m.word c.top = c.xSecureContext
  psplim : m.word (c.top + 4) = c.psplim
  lr : m.word (c.top + 8) = c.lr
  r4r11 : ¬ c.InSecure → m.ldm (c.psp - 32) 8 = c.r4r11

/-- An address in the control block or in the stack of a task. -/
def Task.Owns (τ : Task) (z : Nat) : Prop :=
  (τ.tcb.toNat ≤ z ∧ z < τ.tcb.toNat + 4) ∨ (τ.stack ≤ z ∧ z < τ.limit)

instance (τ : Task) (z : Nat) : Decidable (τ.Owns z) := inferInstanceAs (Decidable (_ ∨ _))

variable {m m' : ByteMemory} {τ : Task} {c : Context} {s : State} {img : Image}

theorem Context.size_of_inSecure (h : c.InSecure) : c.size = 12 := if_pos h

theorem Context.size_of_not_inSecure (h : ¬ c.InSecure) : c.size = 44 := if_neg h

theorem Context.size_le (c : Context) : 12 ≤ c.size ∧ c.size ≤ 44 := by
  rw [size]
  split <;> simp

/-- A pointer below another. -/
theorem toNat_sub_ofNat {a : Word} {k : Nat} (h : k ≤ a.toNat) :
    (a - BitVec.ofNat 32 k).toNat = a.toNat - k := by
  have hk : k < 2 ^ 32 := Nat.lt_of_le_of_lt h a.isLt
  rw [BitVec.toNat_sub_of_le]
  · rw [BitVec.toNat_ofNat, Nat.mod_eq_of_lt hk]
  · rw [BitVec.le_def, BitVec.toNat_ofNat, Nat.mod_eq_of_lt hk]
    exact h

namespace Frame

/-- A frame lies in the stack. -/
theorem bounds (h : Frame m τ c) : τ.stack ≤ c.top ∧ c.top + c.size = c.psp.toNat := by
  have := c.size_le
  have := h.low
  rw [Context.top]
  omega

/-- A frame depends on what its task owns. -/
theorem congr (h : Frame m τ c) (hm : ∀ z, τ.Owns z → m' z = m z) : Frame m' τ c := by
  obtain ⟨hstack, htop⟩ := h.bounds
  have hsize := c.size_le
  have hhigh := h.high
  have hlow := h.low
  have hword : ∀ k, k + 4 ≤ c.size → m'.word (c.top + k) = m.word (c.top + k) := fun k hk =>
    word_congr fun z hz hz' => hm z (.inr (by omega))
  refine ⟨h.low, h.high, ?_, ?_, ?_, ?_, fun hs => ?_⟩
  · rw [← h.pxTopOfStack]
    exact congrArg _ (word_congr fun z hz hz' => hm z (.inl (by omega)))
  · rw [← h.xSecureContext]
    exact hword 0 (by omega)
  · rw [← h.psplim]
    exact hword 4 (by omega)
  · rw [← h.lr]
    exact hword 8 (by omega)
  · have hsub : (c.psp - 32).toNat = c.psp.toNat - 32 := toNat_sub_ofNat (k := 32) (by omega)
    have hlt := c.psp.isLt
    rw [← h.r4r11 hs]
    refine ldm_congr (by rw [hsub]; omega) fun z hz hz' => hm z (.inr ?_)
    rw [hsub] at hz hz'
    omega

end Frame

/-! ## Saving -/

/-- The memory after `save_ns_context`. -/
def fullFrame (m : ByteMemory) (tcb : Word) (c : Context) : ByteMemory :=
  ((m.setWord tcb.toNat (c.psp - 44)).stm (c.psp - 44 + 12) c.r4r11.toList).stm
    (c.psp - 44 + 12 - 12) [c.xSecureContext, c.psplim, c.lr]

/-- The memory after a task was interrupted in secure code. -/
def shortFrame (m : ByteMemory) (tcb : Word) (c : Context) : ByteMemory :=
  (m.setWord tcb.toNat (c.psp - 12)).stm (c.psp - 12) [c.xSecureContext, c.psplim, c.lr]

theorem saveNsContext_eq (s : State) : saveNsContext s.xSecureContext s.psp s =
    s.withMemory (fullFrame s.memory s.pxCurrentTCB s.context) := rfl

/-- The words of a header. -/
theorem word_header {b x y z : Word} (h : b.toNat + 12 ≤ 2 ^ 32) :
    (m.stm b [x, y, z]).word b.toNat = x ∧ (m.stm b [x, y, z]).word (b.toNat + 4) = y ∧
      (m.stm b [x, y, z]).word (b.toNat + 8) = z := by
  refine ⟨?_, ?_, ?_⟩
  · exact word_stm (i := 0) (by simpa using h) (by simp)
  · exact word_stm (i := 1) (by simpa using h) (by simp)
  · exact word_stm (i := 2) (by simpa using h) (by simp)

theorem shortFrame_spec (hlow : τ.stack + 44 ≤ c.psp.toNat) (hhigh : c.psp.toNat ≤ τ.limit)
    (hs : c.InSecure) :
    Frame (shortFrame m τ.tcb c) τ c ∧ ∀ z, (z < τ.tcb.toNat ∨ τ.tcb.toNat + 4 ≤ z) →
      (z < c.psp.toNat - 44 ∨ c.psp.toNat ≤ z) → shortFrame m τ.tcb c z = m z := by
  have hlimit := τ.limit_lt
  have hapart := τ.apart
  have hb : (c.psp - 12).toNat = c.psp.toNat - 12 := toNat_sub_ofNat (k := 12) (by omega)
  have htop : c.top = (c.psp - 12).toNat := by rw [Context.top, c.size_of_inSecure hs, hb]
  have hkeep : ∀ z, (z < c.psp.toNat - 12 ∨ c.psp.toNat ≤ z) →
      shortFrame m τ.tcb c z = m.setWord τ.tcb.toNat (c.psp - 12) z := fun z hz =>
    stm_apply_of_notMem (by rw [hb]; simp; omega) (by rw [hb]; simp; omega)
  obtain ⟨h0, h4, h8⟩ := word_header (m := m.setWord τ.tcb.toNat (c.psp - 12))
    (b := c.psp - 12) (x := c.xSecureContext) (y := c.psplim) (z := c.lr) (by rw [hb]; omega)
  refine ⟨⟨hlow, hhigh, ?_, ?_, ?_, ?_, fun hn => absurd hs hn⟩, fun z hz hz' => ?_⟩
  · rw [htop]
    have hword : (shortFrame m τ.tcb c).word τ.tcb.toNat =
        (m.setWord τ.tcb.toNat (c.psp - 12)).word τ.tcb.toNat :=
      word_congr fun z hz hz' => hkeep z (by omega)
    rw [hword, word_setWord_self]
  · rw [htop]
    exact h0
  · rw [htop]
    exact h4
  · rw [htop]
    exact h8
  · rw [hkeep z (by omega)]
    exact setWord_apply_of_notMem (by omega)

theorem fullFrame_spec (hlow : τ.stack + 44 ≤ c.psp.toNat) (hhigh : c.psp.toNat ≤ τ.limit)
    (hs : ¬ c.InSecure) :
    Frame (fullFrame m τ.tcb c) τ c ∧ ∀ z, (z < τ.tcb.toNat ∨ τ.tcb.toNat + 4 ≤ z) →
      (z < c.psp.toNat - 44 ∨ c.psp.toNat ≤ z) → fullFrame m τ.tcb c z = m z := by
  have hlimit := τ.limit_lt
  have hapart := τ.apart
  have hlen : c.r4r11.toList.length = 8 := Vector.length_toList
  have hb : (c.psp - 44).toNat = c.psp.toNat - 44 := toNat_sub_ofNat (k := 44) (by omega)
  have hr : c.psp - 44 + 12 = c.psp - 32 := by bv_omega
  have hr' : (c.psp - 32).toNat = c.psp.toNat - 32 := toNat_sub_ofNat (k := 32) (by omega)
  have htop : c.top = (c.psp - 44).toNat := by rw [Context.top, c.size_of_not_inSecure hs, hb]
  obtain ⟨m₁, hm₁⟩ : ∃ m₁, m₁ = m.setWord τ.tcb.toNat (c.psp - 44) := ⟨_, rfl⟩
  obtain ⟨m₂, hm₂⟩ : ∃ m₂, m₂ = m₁.stm (c.psp - 32) c.r4r11.toList := ⟨_, rfl⟩
  have hfull : fullFrame m τ.tcb c =
      m₂.stm (c.psp - 44) [c.xSecureContext, c.psplim, c.lr] := by
    rw [fullFrame, BitVec.add_sub_cancel, hr, hm₂, hm₁]
  have hkeep₂ : ∀ z, (z < c.psp.toNat - 32 ∨ c.psp.toNat ≤ z) → m₂ z = m₁ z := fun z hz => by
    rw [hm₂]
    exact stm_apply_of_notMem (by rw [hr', hlen]; omega) (by rw [hr', hlen]; omega)
  have hkeep : ∀ z, (z < c.psp.toNat - 44 ∨ c.psp.toNat - 32 ≤ z) →
      fullFrame m τ.tcb c z = m₂ z := fun z hz => by
    rw [hfull]
    exact stm_apply_of_notMem (by rw [hb]; simp; omega) (by rw [hb]; simp; omega)
  obtain ⟨h0, h4, h8⟩ := word_header (m := m₂) (b := c.psp - 44) (x := c.xSecureContext)
    (y := c.psplim) (z := c.lr) (by rw [hb]; omega)
  rw [← hfull, ← htop] at h0 h4 h8
  refine ⟨⟨hlow, hhigh, ?_, h0, h4, h8, fun _ => ?_⟩, fun z hz hz' => ?_⟩
  · have hword : (fullFrame m τ.tcb c).word τ.tcb.toNat = m₁.word τ.tcb.toNat :=
      word_congr fun z hz hz' => (hkeep z (by omega)).trans (hkeep₂ z (by omega))
    rw [hword, htop, hm₁, word_setWord_self]
  · have hload : (fullFrame m τ.tcb c).ldm (c.psp - 32) 8 = m₂.ldm (c.psp - 32) 8 :=
      ldm_congr (by rw [hr']; omega) fun z hz hz' => hkeep z (by rw [hr'] at hz; omega)
    rw [hload, hm₂]
    exact ldm_stm c.r4r11 (by rw [hr']; omega)
  · rw [hkeep z (by omega), hkeep₂ z (by omega), hm₁]
    exact setWord_apply_of_notMem (by omega)

/-! ## Restoring -/

theorem loadContext_memory (handle : Word) (s : SecureContext.State) :
    (SecureContext.secureContextLoadContext freeRTOSConfig pendSVIpsr handle s).memory =
      s.memory := by
  rw [SecureContext.secureContextLoadContext]
  split
  · rfl
  · rfl

/-- A task runs again: its context is in the registers.  In secure code `r4` to `r11` are
taken from the secure stack by the hardware. -/
def State.resume (s : State) (c : Context) : State :=
  { s with
    secure :=
      if c.xSecureContext = 0 then s.secure
      else SecureContext.secureContextLoadContext freeRTOSConfig pendSVIpsr c.xSecureContext
        s.secure
    r4r11 := if c.InSecure then s.r4r11 else c.r4r11
    psp := c.psp
    psplim := c.psplim
    lr := c.lr
    xSecureContext := c.xSecureContext }

@[simp] theorem State.resume_memory (s : State) (c : Context) : (s.resume c).memory = s.memory := by
  rw [resume]
  dsimp only [memory]
  split
  · rfl
  · exact loadContext_memory ..

/-- What the handlers read from a frame. -/
theorem Frame.words (h : Frame m τ c) :
    ∃ r, m.word τ.tcb.toNat = r ∧ m.word r.toNat = c.xSecureContext ∧
      m.word (r + 4).toNat = c.psplim ∧ m.word (r + 8).toNat = c.lr ∧
      r.toNat + c.size = c.psp.toNat := by
  have hlt := c.psp.isLt
  have hsize := c.size_le
  obtain ⟨_, htop⟩ := h.bounds
  obtain ⟨r, hr⟩ : ∃ r, r = m.word τ.tcb.toNat := ⟨_, rfl⟩
  have hrtop : r.toNat = c.top := by rw [hr, h.pxTopOfStack]
  have h4 : (r + 4).toNat = r.toNat + 4 := toNat_add_ofNat (k := 4) (by omega)
  have h8 : (r + 8).toNat = r.toNat + 8 := toNat_add_ofNat (k := 8) (by omega)
  refine ⟨r, hr.symm, ?_, ?_, ?_, by omega⟩
  · rw [hrtop, h.xSecureContext]
  · rw [h4, hrtop, h.psplim]
  · rw [h8, hrtop, h.lr]

/-- `PendSV_Handler` takes back the context of the task it selects. -/
theorem restoreContext_eq (h : Frame s.memory τ c) (ht : s.pxCurrentTCB = τ.tcb) :
    restoreContext s = s.resume c := by
  obtain ⟨r, hr, h0, h4, h8, hsize⟩ := h.words
  have hlow := h.low
  have hpsp := c.psp.isLt
  have hword : s.word s.pxCurrentTCB = r := by rw [State.word, ht, hr]
  have hw0 : s.word r = c.xSecureContext := h0
  have hw4 : s.word (r + 4) = c.psplim := h4
  have hw8 : s.word (r + 8) = c.lr := h8
  have h12 : (r + 12).toNat = r.toNat + 12 :=
    toNat_add_ofNat (k := 12) (by have := c.size_le; omega)
  have hfull : ¬ c.InSecure → r + 12 = c.psp - 32 ∧ r + 12 + 32 = c.psp := fun hs => by
    have hsub : (c.psp - 32).toNat = c.psp.toNat - 32 := toNat_sub_ofNat (k := 32) (by omega)
    rw [c.size_of_not_inSecure hs] at hsize
    have heq : r + 12 = c.psp - 32 := by
      apply BitVec.eq_of_toNat_eq
      omega
    exact ⟨heq, by rw [heq, BitVec.sub_add_cancel]⟩
  have hshort : c.InSecure → r + 12 = c.psp := fun hs => by
    rw [c.size_of_inSecure hs] at hsize
    apply BitVec.eq_of_toNat_eq
    omega
  rw [restoreContext, hword, hw0, hw4, hw8, State.resume]
  dsimp only
  rcases Decidable.em (c.xSecureContext = 0) with hx | hx
  · have hs : ¬ c.InSecure := fun hs => hs.1 hx
    rw [if_pos hx, if_pos hx, if_neg hs, restoreNsContext, (hfull hs).2, (hfull hs).1]
    dsimp only
    rw [h.r4r11 hs]
  · rw [if_neg hx, if_neg hx]
    rcases Decidable.em (SecureStackUsed c.lr) with hlr | hlr
    · rw [if_pos hlr, if_pos ⟨hx, hlr⟩, hshort ⟨hx, hlr⟩]
    · have hs : ¬ c.InSecure := fun hs => hlr hs.2
      rw [if_neg hlr, if_neg hs, restoreNsContext, (hfull hs).2, (hfull hs).1]
      dsimp only [State.memory]
      rw [loadContext_memory, h.r4r11 hs]

/-- `vRestoreContextOfFirstTask` takes back all but `r4` to `r11`, which are those that the
scheduler was started with. -/
theorem vRestoreContextOfFirstTask_eq (h : Frame s.memory τ c) (ht : s.pxCurrentTCB = τ.tcb)
    (hx : c.xSecureContext = 0) : vRestoreContextOfFirstTask img s =
      { s.resume c with control := 2, r4r11 := firstRegisters img s.r4r11 } := by
  obtain ⟨r, hr, h0, h4, h8, hsize⟩ := h.words
  have hlow := h.low
  have hword : s.word s.pxCurrentTCB = r := by rw [State.word, ht, hr]
  have hw0 : s.word r = c.xSecureContext := h0
  have hw4 : s.word (r + 4) = c.psplim := h4
  have hw8 : s.word (r + 8) = c.lr := h8
  have hs : ¬ c.InSecure := fun hs => hs.1 hx
  have hpsp : r + 12 + 32 = c.psp := by
    have hlt := c.psp.isLt
    rw [c.size_of_not_inSecure hs] at hsize
    have h12 : (r + 12).toNat = r.toNat + 12 := toNat_add_ofNat (k := 12) (by omega)
    apply BitVec.eq_of_toNat_eq
    have h32 : (r + 12 + 32).toNat = (r + 12).toNat + 32 := toNat_add_ofNat (k := 32) (by omega)
    omega
  rw [vRestoreContextOfFirstTask, hword, hw0, hw4, hw8, State.resume, if_pos hx]
  dsimp only
  rw [hpsp]

/-! ## New tasks -/

/-- Words that are pushed. -/
theorem foldl_push {vs : List Word} {a : Word} (h : 4 * vs.length ≤ a.toNat) :
    (vs.foldl push (a, m)).1.toNat = a.toNat - 4 * vs.length ∧
      (∀ z, z < a.toNat - 4 * vs.length ∨ a.toNat ≤ z → (vs.foldl push (a, m)).2 z = m z) ∧
      ∀ i (hi : i < vs.length), (vs.foldl push (a, m)).2.word (a.toNat - 4 * (i + 1)) = vs[i] := by
  induction vs generalizing a m with
  | nil => simp
  | cons v vs ih =>
      rw [List.length_cons] at h
      have hsub : (a - 4).toNat = a.toNat - 4 := toNat_sub_ofNat (k := 4) (by omega)
      obtain ⟨htop, hkeep, hwords⟩ :=
        ih (a := a - 4) (m := m.setWord (a - 4).toNat v) (by rw [hsub]; omega)
      rw [hsub] at htop hkeep hwords
      rw [List.foldl_cons, push]
      dsimp only
      rw [hsub]
      refine ⟨by rw [List.length_cons]; omega, fun z hz => ?_, fun i hi => ?_⟩
      · rw [List.length_cons] at hz
        rw [hkeep z (by omega)]
        exact setWord_apply_of_notMem (by omega)
      · cases i with
        | zero =>
            have hword : (vs.foldl push (a - 4, m.setWord (a.toNat - 4) v)).2.word
                (a.toNat - 4) = (m.setWord (a.toNat - 4) v).word (a.toNat - 4) :=
              word_congr fun z hz hz' => hkeep z (by omega)
            exact hword.trans (word_setWord_self ..)
        | succ i =>
            have := hwords i (Nat.lt_of_succ_lt_succ hi)
            rw [Nat.sub_sub] at this
            rw [Nat.mul_succ, Nat.add_comm (4 * (i + 1)) 4]
            exact this

/-- The top of a new stack. -/
def topOfStack (pxStack ulStackDepth : Word) : Word :=
  (pxStack + (ulStackDepth - 1) * 4) &&& ~~~portByteAlignmentMask

/-- The context that a task is created with. -/
def initialContext (pxStack ulStackDepth : Word) : Context where
  xSecureContext := portNoSecureContext
  psplim := pxStack
  lr := portInitialExcReturn
  psp := topOfStack pxStack ulStackDepth - 32
  r4r11 := #v[0x04040404, 0x05050505, 0x06060606, 0x07070707, 0x08080808, 0x09090909, 0x10101010,
    0x11111111]

/-- The stack pointer is aligned, whatever memory the task is given. -/
theorem dvd_initialContext_psp (pxStack ulStackDepth : Word) :
    8 ∣ (initialContext pxStack ulStackDepth).psp.toNat := by
  obtain ⟨x, hx⟩ : ∃ x : Word, x = pxStack + (ulStackDepth - 1) * 4 := ⟨_, rfl⟩
  have hptr : x = ptr x.toNat := (BitVec.ofNat_toNat 32 x).symm
  have htop : topOfStack pxStack ulStackDepth = ptr (x.toNat / 8 * 8) := by
    have hmasked := Pointer.ptr_and_not_seven x.isLt
    rw [← hptr] at hmasked
    rw [topOfStack, ← hx]
    exact hmasked
  have hpsp : (initialContext pxStack ulStackDepth).psp.toNat =
      (2 ^ 32 - 32 + x.toNat / 8 * 8) % 2 ^ 32 := by
    have hlt := x.isLt
    show (topOfStack pxStack ulStackDepth - 32).toNat = _
    rw [htop, BitVec.toNat_sub, Pointer.toNat_ptr (by omega)]
    rfl
  omega

/-- The memory of a new task. -/
structure Fresh (τ : Task) (pxStack ulStackDepth : Word) : Prop where
  stack : τ.stack = pxStack.toNat
  limit : τ.limit = pxStack.toNat + 4 * ulStackDepth.toNat
  depth : 22 ≤ ulStackDepth.toNat

theorem Fresh.topOfStack {pxStack ulStackDepth : Word} (h : Fresh τ pxStack ulStackDepth) :
    τ.limit - 12 < (topOfStack pxStack ulStackDepth).toNat ∧
      (topOfStack pxStack ulStackDepth).toNat + 4 ≤ τ.limit := by
  have hlimit := τ.limit_lt
  have hdepth := h.depth
  rw [h.limit] at hlimit
  have hsub : (ulStackDepth - 1).toNat = ulStackDepth.toNat - 1 :=
    toNat_sub_ofNat (k := 1) (by omega)
  have hmul : ((ulStackDepth - 1) * 4).toNat = (ulStackDepth.toNat - 1) * 4 := by
    rw [BitVec.toNat_mul, hsub]
    exact Nat.mod_eq_of_lt (by show (ulStackDepth.toNat - 1) * 4 < 2 ^ 32; omega)
  have hptr : pxStack + (ulStackDepth - 1) * 4 =
      ptr (pxStack.toNat + (ulStackDepth.toNat - 1) * 4) := by
    apply BitVec.eq_of_toNat_eq
    rw [BitVec.toNat_add, hmul, BitVec.toNat_ofNat]
  have hmask : portByteAlignmentMask = 7 := rfl
  rw [Port.topOfStack, hptr, hmask, Pointer.ptr_and_not_seven (by omega),
    Pointer.toNat_ptr (by omega), h.limit]
  omega

theorem Fresh.psp {pxStack ulStackDepth : Word} (h : Fresh τ pxStack ulStackDepth) :
    (initialContext pxStack ulStackDepth).psp.toNat + 36 ≤ τ.limit := by
  obtain ⟨hlow, hhigh⟩ := h.topOfStack
  have hdepth := h.depth
  have hlimit := h.limit
  have hsub : (initialContext pxStack ulStackDepth).psp.toNat =
      (Port.topOfStack pxStack ulStackDepth).toNat - 32 :=
    toNat_sub_ofNat (k := 32) (by omega)
  omega

/-- A new task starts with its initial context, and with the frame that an exception would
have left on its stack. -/
theorem prvInitialiseNewTask_spec {pxStack ulStackDepth pxTaskCode pvParameters : Word}
    (h : Fresh τ pxStack ulStackDepth) (hm' : m' = prvInitialiseNewTask img pxTaskCode ulStackDepth
      pvParameters τ.tcb pxStack m) :
    Frame m' τ (initialContext pxStack ulStackDepth) ∧ (∀ z, ¬ τ.Owns z → m' z = m z) ∧
      m'.word (initialContext pxStack ulStackDepth).psp.toNat = pvParameters ∧
      m'.word ((initialContext pxStack ulStackDepth).psp.toNat + 20) = img.prvTaskExitError ∧
      m'.word ((initialContext pxStack ulStackDepth).psp.toNat + 24) = pxTaskCode ∧
      m'.word ((initialContext pxStack ulStackDepth).psp.toNat + 28) = portInitialXpsr := by
  have hlt := τ.limit_lt
  have hapart := τ.apart
  have htcb := τ.tcb_le
  have hdepth := h.depth
  have hstack := h.stack
  have hlimit := h.limit
  obtain ⟨hlow, hhigh⟩ := h.topOfStack
  obtain ⟨a, ha⟩ : ∃ a, a = topOfStack pxStack ulStackDepth := ⟨_, rfl⟩
  obtain ⟨m₁, hm₁⟩ : ∃ m₁, m₁ = memset m pxStack tskStackFillByte (ulStackDepth * 4) := ⟨_, rfl⟩
  obtain ⟨vs, hvs⟩ : ∃ vs, vs = initialFrame img pxStack pxTaskCode pvParameters := ⟨_, rfl⟩
  have hlen : vs.length = 19 := by rw [hvs]; rfl
  obtain ⟨p, hp⟩ : ∃ p, p = vs.foldl push (a, m₁) := ⟨_, rfl⟩
  have hmem : m' = p.2.setWord τ.tcb.toNat p.1 := by
    rw [hm', hp, hvs, hm₁, ha, Port.topOfStack, prvInitialiseNewTask, pxPortInitialiseStack]
  rw [← ha] at hlow hhigh
  have hroom : 4 * vs.length ≤ a.toNat := by omega
  obtain ⟨htop, hkeep, hwords⟩ := foldl_push (m := m₁) hroom
  rw [← hp, hlen] at htop hkeep
  have hword : ∀ i (hi : i < vs.length), m'.word (a.toNat - 4 * (i + 1)) = vs[i] := fun i hi => by
    rw [← hwords i hi, ← hp, hmem]
    exact word_setWord_of_apart (by rw [Apart]; omega)
  have hpsp : (initialContext pxStack ulStackDepth).psp = a - 32 := by rw [ha]; rfl
  have hpsp' : (a - 32).toNat = a.toNat - 32 := toNat_sub_ofNat (k := 32) (by omega)
  have hs : ¬ (initialContext pxStack ulStackDepth).InSecure := fun hs => hs.1 rfl
  have hframe : (initialContext pxStack ulStackDepth).top = a.toNat - 76 := by
    rw [Context.top, Context.size_of_not_inSecure hs, hpsp, hpsp']
    omega
  have hsub : (a - 32 - 32).toNat = a.toNat - 64 := by
    have := toNat_sub_ofNat (a := a - 32) (k := 32) (by omega)
    rw [hpsp'] at this
    exact this.trans (by omega)
  refine ⟨⟨?_, ?_, ?_, ?_, ?_, ?_, fun _ => ?_⟩, fun z hz => ?_, ?_, ?_, ?_, ?_⟩
  · rw [hpsp, hpsp']
    omega
  · rw [hpsp, hpsp']
    omega
  · rw [hmem, word_setWord_self, htop, hframe]
  · rw [hframe]
    have := hword 18 (by omega)
    simpa [hvs, initialFrame, initialContext] using this
  · rw [hframe, (by omega : a.toNat - 76 + 4 = a.toNat - 4 * (17 + 1)), hword 17 (by omega)]
    simp [hvs, initialFrame, initialContext]
  · rw [hframe, (by omega : a.toNat - 76 + 8 = a.toNat - 4 * (16 + 1)), hword 16 (by omega)]
    simp [hvs, initialFrame, initialContext]
  · apply Vector.ext
    intro i hi
    rw [hpsp, getElem_ldm (by omega) hi, hsub,
      (by omega : a.toNat - 64 + 4 * i = a.toNat - 4 * ((15 - i) + 1)), hword (15 - i) (by omega)]
    obtain rfl | rfl | rfl | rfl | rfl | rfl | rfl | rfl :
        i = 0 ∨ i = 1 ∨ i = 2 ∨ i = 3 ∨ i = 4 ∨ i = 5 ∨ i = 6 ∨ i = 7 := by omega
    all_goals simp [hvs, initialFrame, initialContext]
  · have hz' : ¬ (τ.tcb.toNat ≤ z ∧ z < τ.tcb.toNat + 4) := fun hc => hz (.inl hc)
    have hz'' : ¬ (τ.stack ≤ z ∧ z < τ.limit) := fun hc => hz (.inr hc)
    have hsize : (ulStackDepth * 4).toNat = 4 * ulStackDepth.toNat := by
      rw [BitVec.toNat_mul, Nat.mul_comm]
      exact Nat.mod_eq_of_lt (by show 4 * ulStackDepth.toNat < 2 ^ 32; omega)
    rw [hmem, setWord_apply_of_notMem (by omega), hkeep z (by omega), hm₁, memset, hsize,
      if_neg (by omega)]
  · rw [hpsp, hpsp', (by omega : a.toNat - 32 = a.toNat - 4 * (7 + 1)), hword 7 (by omega)]
    simp [hvs, initialFrame]
  · rw [hpsp, hpsp', (by omega : a.toNat - 32 + 20 = a.toNat - 4 * (2 + 1)), hword 2 (by omega)]
    simp [hvs, initialFrame]
  · rw [hpsp, hpsp', (by omega : a.toNat - 32 + 24 = a.toNat - 4 * (1 + 1)), hword 1 (by omega)]
    simp [hvs, initialFrame]
  · rw [hpsp, hpsp', (by omega : a.toNat - 32 + 28 = a.toNat - 4 * (0 + 1)), hword 0 (by omega)]
    simp [hvs, initialFrame]

end Port
