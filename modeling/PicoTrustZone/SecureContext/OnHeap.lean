import PicoTrustZone.Heap.Guarantees
import PicoTrustZone.SecureContext.Model

/-!
# Secure contexts on the secure heap

The calls of `Model` with the heap of `secure_heap.c`, in the build of this
repository.  A context is two blocks of the heap: a descriptor and a stack.
`Manages` says that the heap lends the blocks of some contexts and nothing else,
and that the descriptors hold what they should.  Each call keeps it, and changes
no byte of a context that it is not about.
-/

namespace SecureContext

open ByteMemory Pointer
open SecureHeap (Layout Simulates Outside Abstract ledger)

/-- `pvPortMalloc` and `vPortFree` of `secure_heap.c`. -/
def secureHeap (L : Layout) : Heap := ⟨SecureHeap.pvPortMalloc L, SecureHeap.vPortFree L⟩

/-! ## Contexts -/

/-- A context: its descriptor and its stack, and the stack pointer it was saved with. -/
structure Context where
  handle : Word
  stack : Word
  size : Word
  sp : Word
deriving DecidableEq, Repr

namespace Context

/-- The blocks of a context as the heap lends them. -/
def blocks (c : Context) : List (Nat × Nat) :=
  [(c.stack.toNat, c.size.toNat), (c.handle.toNat, 12)]

/-- The memory holds the descriptor of a context. -/
structure Stored (c : Context) (m : ByteMemory) : Prop where
  sp : m.word c.handle.toNat = c.sp
  limit : m.word (c.handle + 4).toNat = c.stack
  start : m.word (c.handle + 8).toNat = c.stack + c.size

end Context

/-- The contexts after the one with this handle is saved. -/
def savedContexts (cs : List Context) (handle sp : Word) : List Context :=
  cs.map fun c => if c.handle = handle then { c with sp } else c

/-- The contexts after the one with this handle is freed. -/
def freedContexts (cs : List Context) (handle : Word) : List Context :=
  cs.filter fun c => c.handle ≠ handle

/-- The heap lends the blocks of the contexts. -/
abbrev Lends (L : Layout) (m : ByteMemory) (cs : List Context) (t : Abstract) : Prop :=
  Simulates L ⟨m, cs.flatMap Context.blocks⟩ t

/-- The heap lends the blocks of the contexts, and their descriptors are stored. -/
structure Manages (L : Layout) (m : ByteMemory) (cs : List Context) (t : Abstract) : Prop where
  heap : Lends L m cs t
  stored : ∀ c ∈ cs, c.Stored m

/-- The bytes that are not the heap's: those of the contexts, and those outside. -/
inductive Kept (L : Layout) (cs : List Context) (z : Nat) : Prop where
  | outside : Outside L z → Kept L cs z
  | lent {c : Context} {x : Nat × Nat} : c ∈ cs → x ∈ c.blocks → x.1 ≤ z → z < x.1 + x.2 →
      Kept L cs z

variable {L : Layout} {m m' : ByteMemory} {cs ds : List Context} {c d : Context} {t : Abstract}
  {s : State} {ipsr : Word}

theorem Context.mem_blocks {x : Nat × Nat} :
    x ∈ c.blocks ↔ x = (c.stack.toNat, c.size.toNat) ∨ x = (c.handle.toNat, 12) := by
  simp [Context.blocks]

theorem Kept.mono {z : Nat} (h : Kept L cs z) (hcs : ∀ c ∈ cs, c ∈ ds) : Kept L ds z := by
  cases h with
  | outside ho => exact .outside ho
  | lent hc hx h1 h2 => exact .lent (hcs _ hc) hx h1 h2

/-- The heap does not own what it lends. -/
theorem Kept.not_owned {live : List (Nat × Nat)} {z : Nat} (hz : Kept L cs z)
    (h : Simulates L ⟨m, live⟩ t) (hlive : ∀ x ∈ cs.flatMap Context.blocks, x ∈ live) :
    ¬ SecureHeap.Owned L t.blocks z := by
  cases hz with
  | outside ho => exact h.not_owned_of_outside ho
  | lent hc hx h1 h2 => exact h.not_owned (hlive _ (List.mem_flatMap.mpr ⟨_, hc, hx⟩)) h1 h2

/-! ## Where the contexts are -/

namespace Lends

/-- The blocks of a context lie in the heap. -/
theorem inHeap (h : Lends L m cs t) (hc : c ∈ cs) {x : Nat × Nat} (hx : x ∈ c.blocks) :
    L.ucHeap ≤ x.1 ∧ x.1 + x.2 ≤ L.ucHeap + L.totalHeapSize := by
  obtain ⟨_, hlo, hhi⟩ := (Simulates.disjoint h).2 x (List.mem_flatMap.mpr ⟨c, hc, hx⟩)
  exact ⟨hlo, hhi⟩

/-- A stack is aligned as the heap aligns it. -/
theorem dvd_stack (h : Lends L m cs t) (hc : c ∈ cs) : 8 ∣ c.stack.toNat := by
  have hstack : (c.stack.toNat, c.size.toNat) ∈ c.blocks := Context.mem_blocks.mpr (.inl rfl)
  obtain ⟨hdvd, _⟩ := (Simulates.disjoint h).2 _ (List.mem_flatMap.mpr ⟨c, hc, hstack⟩)
  exact hdvd

theorem bounds (h : Lends L m cs t) (hc : c ∈ cs) :
    0 < c.handle.toNat ∧ c.handle.toNat + 12 < 2 ^ 32 ∧
      0 < c.size.toNat ∧ 0 < c.stack.toNat ∧ c.stack.toNat + c.size.toNat < 2 ^ 32 := by
  have hstack : (c.stack.toNat, c.size.toNat) ∈ c.blocks := Context.mem_blocks.mpr (.inl rfl)
  obtain ⟨hlo, hhi⟩ := h.inHeap hc (Context.mem_blocks.mpr (.inr rfl))
  obtain ⟨hlo', hhi'⟩ := h.inHeap hc hstack
  obtain ⟨_, _, _, _, hpos, _⟩ := h.backed _ (List.mem_flatMap.mpr ⟨c, hc, hstack⟩)
  have := L.ucHeap_lt
  have := L.ucHeap_pos
  dsimp only at hlo hhi hlo' hhi' hpos
  exact ⟨by omega, by omega, hpos, by omega, by omega⟩

/-- The blocks of one context, and of different contexts, do not meet. -/
theorem blocks_disjoint (h : Lends L m cs t) :
    (∀ c ∈ cs, c.blocks.Pairwise SecureHeap.Disjoint) ∧
      cs.Pairwise fun c d => ∀ x ∈ c.blocks, ∀ y ∈ d.blocks, SecureHeap.Disjoint x y :=
  List.pairwise_flatMap.mp (Simulates.disjoint h).1

theorem disjoint_of_ne (h : Lends L m cs t) (hc : c ∈ cs) (hd : d ∈ cs) (hne : c ≠ d) :
    ∀ x ∈ c.blocks, ∀ y ∈ d.blocks, SecureHeap.Disjoint x y := by
  have hsymm : Std.Symm fun c d : Context =>
      ∀ x ∈ c.blocks, ∀ y ∈ d.blocks, SecureHeap.Disjoint x y :=
    ⟨fun _ _ hcd x hx y hy => (hcd y hy x hx).symm⟩
  exact h.blocks_disjoint.2.forall hc hd hne

/-- The stack of a context is not in its descriptor. -/
theorem disjoint_self (h : Lends L m cs t) (hc : c ∈ cs) :
    SecureHeap.Disjoint (c.stack.toNat, c.size.toNat) (c.handle.toNat, 12) := by
  have hp := h.blocks_disjoint.1 c hc
  rw [Context.blocks, List.pairwise_cons] at hp
  exact hp.1 _ (List.mem_singleton_self _)

/-- Blocks of different contexts have different addresses. -/
theorem fst_ne (h : Lends L m cs t) (hc : c ∈ cs) (hd : d ∈ cs) (hne : c ≠ d)
    {x y : Nat × Nat} (hx : x ∈ c.blocks) (hy : y ∈ d.blocks) : x.1 ≠ y.1 := by
  have hdis := h.disjoint_of_ne hc hd hne x hx y hy
  obtain ⟨_, _, hpos, _⟩ := h.bounds hc
  obtain ⟨_, _, hpos', _⟩ := h.bounds hd
  rw [SecureHeap.Disjoint] at hdis
  rcases Context.mem_blocks.mp hx with rfl | rfl
  · rcases Context.mem_blocks.mp hy with rfl | rfl <;> (dsimp only at hdis ⊢; omega)
  · rcases Context.mem_blocks.mp hy with rfl | rfl <;> (dsimp only at hdis ⊢; omega)

/-- A handle names one context. -/
theorem eq_of_handle (h : Lends L m cs t) (hc : c ∈ cs) (hd : d ∈ cs)
    (he : c.handle = d.handle) : c = d := by
  rcases Decidable.em (c = d) with heq | hne
  · exact heq
  · exact absurd (congrArg BitVec.toNat he) (h.fst_ne hc hd hne
      (Context.mem_blocks.mpr (.inr rfl)) (Context.mem_blocks.mpr (.inr rfl)))

theorem handle_ne_zero (h : Lends L m cs t) (hc : c ∈ cs) : c.handle ≠ 0 := fun he => by
  obtain ⟨hpos, _⟩ := h.bounds hc
  rw [he] at hpos
  exact absurd hpos (by decide)

/-- Nothing is saved or freed with the handle of no context. -/
theorem handle_zero (h : Lends L m cs t) (sp : Word) :
    savedContexts cs 0 sp = cs ∧ freedContexts cs 0 = cs := by
  constructor
  · exact (List.map_congr_left fun c hc => if_neg (h.handle_ne_zero hc)).trans (List.map_id' cs)
  · exact List.filter_eq_self.mpr fun c hc => decide_eq_true (h.handle_ne_zero hc)

/-- The addresses of the words of a descriptor. -/
theorem toNat_handle_add (h : Lends L m cs t) (hc : c ∈ cs) :
    (c.handle + 4).toNat = c.handle.toNat + 4 ∧ (c.handle + 8).toNat = c.handle.toNat + 8 := by
  obtain ⟨_, hlt, _⟩ := h.bounds hc
  constructor
  · rw [BitVec.toNat_add, Nat.mod_eq_of_lt]
    · rfl
    · show c.handle.toNat + 4 < 2 ^ 32
      omega
  · rw [BitVec.toNat_add, Nat.mod_eq_of_lt]
    · rfl
    · show c.handle.toNat + 8 < 2 ^ 32
      omega

/-- The ledger after both blocks of a context are freed. -/
theorem ledger_free (h : Lends L m cs t) (hc : c ∈ cs) :
    ledger (ledger (cs.flatMap Context.blocks) (.free c.stack)) (.free c.handle) =
      (freedContexts cs c.handle).flatMap Context.blocks := by
  have hall : ∀ ds : List Context, (∀ d ∈ ds, d ∈ cs) →
      ledger (ledger (ds.flatMap Context.blocks) (.free c.stack)) (.free c.handle) =
        (freedContexts ds c.handle).flatMap Context.blocks := by
    intro ds hds
    induction ds with
    | nil => rfl
    | cons d ds ih =>
        obtain ⟨hd, hds⟩ := List.forall_mem_cons.mp hds
        have hrest := ih hds
        simp only [ledger, freedContexts, List.filter_filter] at hrest ⊢
        rw [List.flatMap_cons, List.filter_append, hrest, List.filter_cons]
        rcases Decidable.em (d = c) with rfl | hne
        · simp [Context.blocks]
        · have hhandle : d.handle ≠ c.handle := fun he => hne (h.eq_of_handle hd hc he)
          rw [if_pos (by simpa using hhandle), List.flatMap_cons]
          congr 1
          refine List.filter_eq_self.mpr fun x hx => ?_
          have h1 := h.fst_ne hd hc hne hx (Context.mem_blocks.mpr (.inl rfl))
          have h2 := h.fst_ne hd hc hne hx (Context.mem_blocks.mpr (.inr rfl))
          simpa using ⟨h2, h1⟩
  exact hall cs fun d hd => hd

end Lends

namespace Manages

/-- A descriptor depends on its own bytes only. -/
theorem stored_congr (h : Manages L m cs t) (hc : c ∈ cs)
    (hm : ∀ z, c.handle.toNat ≤ z → z < c.handle.toNat + 12 → m' z = m z) : c.Stored m' := by
  obtain ⟨h4, h8⟩ := h.heap.toNat_handle_add hc
  obtain ⟨hsp, hlimit, hstart⟩ := h.stored c hc
  rw [h4] at hlimit
  rw [h8] at hstart
  refine ⟨?_, ?_, ?_⟩
  · rw [← hsp]
    exact word_congr fun z hz hz' => hm z hz (by omega)
  · rw [← hlimit, h4]
    exact word_congr fun z hz hz' => hm z (by omega) (by omega)
  · rw [← hstart, h8]
    exact word_congr fun z hz hz' => hm z (by omega) (by omega)

/-! ## Writes -/

/-- Nothing is lost when bytes outside the heap and in the stacks change. -/
theorem write (h : Manages L m cs t)
    (hm : ∀ z, ¬ Outside L z →
      (∀ c ∈ cs, z < c.stack.toNat ∨ c.stack.toNat + c.size.toNat ≤ z) → m' z = m z) :
    Manages L m' cs t := by
  constructor
  · refine h.heap.congr fun z hz hlive => hm z hz fun c hc => ?_
    exact hlive _ (List.mem_flatMap.mpr ⟨c, hc, Context.mem_blocks.mpr (.inl rfl)⟩)
  · intro c hc
    refine h.stored_congr hc fun z hz hz' => hm z (fun ho => ?_) fun d hd => ?_
    · obtain ⟨hlo, hhi⟩ := h.heap.inHeap hc (Context.mem_blocks.mpr (.inr rfl))
      have := ho.ucHeap
      dsimp only at hlo hhi
      omega
    · have hdis : SecureHeap.Disjoint (d.stack.toNat, d.size.toNat) (c.handle.toNat, 12) := by
        rcases Decidable.em (d = c) with rfl | hne
        · exact h.heap.disjoint_self hc
        · exact h.heap.disjoint_of_ne hd hc hne _ (Context.mem_blocks.mpr (.inl rfl)) _
            (Context.mem_blocks.mpr (.inr rfl))
      rw [SecureHeap.Disjoint] at hdis
      dsimp only at hdis
      omega

/-- The descriptor of a context is rewritten. -/
theorem store (h : Manages L m cs t) (hc : c ∈ cs) (sp : Word) :
    Manages L (m.setWord c.handle.toNat sp) (savedContexts cs c.handle sp) t := by
  have hblocks : (savedContexts cs c.handle sp).flatMap Context.blocks =
      cs.flatMap Context.blocks := by
    rw [savedContexts, List.flatMap_map]
    refine List.flatMap_congr fun d _ => ?_
    split <;> rfl
  constructor
  · rw [Lends, hblocks]
    refine h.heap.congr fun z _ hlive => setWord_apply_of_notMem ?_
    have hmem : (c.handle.toNat, 12) ∈ cs.flatMap Context.blocks :=
      List.mem_flatMap.mpr ⟨c, hc, Context.mem_blocks.mpr (.inr rfl)⟩
    have := hlive _ hmem
    dsimp only at this
    omega
  · intro d' hd'
    obtain ⟨d, hd, rfl⟩ := List.mem_map.mp hd'
    split
    · next he =>
      obtain rfl := h.heap.eq_of_handle hd hc he
      obtain ⟨h4, h8⟩ := h.heap.toNat_handle_add hc
      obtain ⟨_, hlimit, hstart⟩ := h.stored d hc
      refine ⟨word_setWord_self .., ?_, ?_⟩
      · rw [h4] at hlimit ⊢
        rw [word_setWord_of_apart (.inl (Nat.le_refl _)), hlimit]
      · rw [h8] at hstart ⊢
        rw [word_setWord_of_apart (.inl (by omega)), hstart]
    · next he =>
      refine h.stored_congr hd fun z hz hz' => setWord_apply_of_notMem ?_
      have hne : d ≠ c := fun heq => he (congrArg Context.handle heq)
      have hdis := h.heap.disjoint_of_ne hd hc hne _ (Context.mem_blocks.mpr (.inr rfl)) _
        (Context.mem_blocks.mpr (.inr rfl))
      rw [SecureHeap.Disjoint] at hdis
      dsimp only at hdis
      omega

/-! ## The calls

They are made from handler mode. -/

/-- Loading a context. -/
theorem load (h : Manages L s.memory cs t) (hc : c ∈ cs) (hipsr : ipsr ≠ 0) :
    secureContextLoadContext freeRTOSConfig ipsr c.handle s =
      { s with psp := c.sp, psplim := c.stack } := by
  obtain ⟨hsp, hlimit, _⟩ := h.stored c hc
  rw [secureContextLoadContext, if_pos hipsr]
  simp only [State.word, hsp, hlimit]
  rfl

/-- Saving a context. -/
theorem save (h : Manages L s.memory cs t) (hc : c ∈ cs) (hipsr : ipsr ≠ 0) :
    ∃ m, secureContextSaveContext freeRTOSConfig ipsr c.handle s =
        ⟨m, securecontextNoStack, securecontextNoStack, s.control, s.s0⟩ ∧
      Manages L m (savedContexts cs c.handle s.psp) t ∧
      ∀ z, z < c.handle.toNat ∨ c.handle.toNat + 12 ≤ z → m z = s.memory z := by
  refine ⟨s.memory.setWord c.handle.toNat s.psp, ?_, h.store hc s.psp, fun z hz => ?_⟩
  · rw [secureContextSaveContext, if_pos hipsr]
    rfl
  · exact setWord_apply_of_notMem (by omega)

/-- Freeing a context.  The assertion holds, and both blocks go back to the heap. -/
theorem free (h : Manages L s.memory cs t) (hc : c ∈ cs) (hipsr : ipsr ≠ 0) :
    ∃ m t₁ t', secureContextFreeContext (secureHeap L) ipsr c.handle s =
        some { s with memory := m } ∧
      t.Step L (.free c.stack) t₁ ∧ t₁.Step L (.free c.handle) t' ∧
      Manages L m (freedContexts cs c.handle) t' ∧
      ∀ z, Kept L (freedContexts cs c.handle) z → m z = s.memory z := by
  have hne : c.handle ≠ 0 := h.heap.handle_ne_zero hc
  have hstack : (c.stack.toNat, c.size.toNat) ∈ cs.flatMap Context.blocks :=
    List.mem_flatMap.mpr ⟨c, hc, Context.mem_blocks.mpr (.inl rfl)⟩
  have hhandle : (c.handle.toNat, 12) ∈ cs.flatMap Context.blocks :=
    List.mem_flatMap.mpr ⟨c, hc, Context.mem_blocks.mpr (.inr rfl)⟩
  obtain ⟨m₁, t₁, hcall₁, hst₁, h₁, hkeep₁⟩ := h.heap.vPortFree_eq (.inr ⟨_, hstack, rfl⟩)
  have hhandle₁ : (c.handle.toNat, 12) ∈ ledger (cs.flatMap Context.blocks) (.free c.stack) := by
    refine List.mem_filter.mpr ⟨hhandle, ?_⟩
    have hdis := h.heap.disjoint_self hc
    obtain ⟨_, _, hsize, _⟩ := h.heap.bounds hc
    rw [SecureHeap.Disjoint] at hdis
    simp only [decide_eq_true_eq]
    dsimp only at hdis
    omega
  obtain ⟨m₂, t₂, hcall₂, hst₂, h₂, hkeep₂⟩ := h₁.vPortFree_eq (.inr ⟨_, hhandle₁, rfl⟩)
  have hsub : ∀ d ∈ freedContexts cs c.handle, d ∈ cs := fun d hd => List.mem_of_mem_filter hd
  have hkeep : ∀ z, Kept L (freedContexts cs c.handle) z → m₂ z = s.memory z := fun z hz => by
    have hz₁ : m₁ z = s.memory z := hkeep₁ z ((hz.mono hsub).not_owned h.heap fun _ hx => hx)
    refine (hkeep₂ z (hz.not_owned h₁ fun x hx => ?_)).trans hz₁
    rw [← h.heap.ledger_free hc] at hx
    exact List.mem_of_mem_filter hx
  refine ⟨m₂, t₁, t₂, ?_, hst₁, hst₂, ⟨?_, fun d hd => ?_⟩, hkeep⟩
  · rw [secureContextFreeContext, if_pos hipsr, if_neg hne, State.word, (h.stored c hc).limit]
    show (SecureHeap.vPortFree L s.memory c.stack).bind _ = _
    rw [hcall₁, Option.bind_some]
    show (SecureHeap.vPortFree L m₁ c.handle).bind _ = _
    rw [hcall₂, Option.bind_some]
    rfl
  · rw [Lends, ← h.heap.ledger_free hc]
    exact h₂
  · refine h.stored_congr (hsub d hd) fun z hz hz' => hkeep z ?_
    exact .lent hd (Context.mem_blocks.mpr (.inr rfl)) hz hz'

/-- `initialiseContext` on the blocks of a new context. -/
theorem initialise {handle stack size : Word} {t' : Abstract} (privileged : Word)
    (h : Manages L m cs t) (hl : Lends L s.memory (⟨handle, stack, size, stack + size⟩ :: cs) t')
    (hkeep : ∀ z, Kept L cs z → s.memory z = m z) :
    ∃ m', initialiseContext freeRTOSConfig handle stack size privileged s =
        { s with memory := m' } ∧
      Manages L m' (⟨handle, stack, size, stack + size⟩ :: cs) t' ∧
      ∀ z, Kept L cs z → m' z = m z := by
  obtain ⟨c, hc⟩ : ∃ c : Context, c = ⟨handle, stack, size, stack + size⟩ := ⟨_, rfl⟩
  rw [← hc] at hl ⊢
  have hmem : c ∈ c :: cs := List.mem_cons_self ..
  have hsub : ∀ d ∈ cs, d ∈ c :: cs := fun d hd => List.mem_cons_of_mem _ hd
  obtain ⟨h4, h8⟩ := hl.toNat_handle_add hmem
  obtain ⟨m', hm'⟩ : ∃ m', m' = ((s.memory.setWord (c.handle.toNat + 8) (c.stack + c.size)).setWord
      (c.handle.toNat + 4) c.stack).setWord c.handle.toNat (c.stack + c.size) := ⟨_, rfl⟩
  have hbut : ∀ z, z < c.handle.toNat ∨ c.handle.toNat + 12 ≤ z → m' z = s.memory z := by
    intro z hz
    rw [hm', setWord_apply_of_notMem (by omega), setWord_apply_of_notMem (by omega),
      setWord_apply_of_notMem (by omega)]
  have hkept : ∀ z, Kept L cs z → m' z = m z := by
    intro z hz
    refine (hbut z ?_).trans (hkeep z hz)
    cases hz with
    | outside ho =>
        obtain ⟨hlo, hhi⟩ := hl.inHeap hmem (Context.mem_blocks.mpr (.inr rfl))
        have := ho.ucHeap
        dsimp only at hlo hhi
        omega
    | lent hd hx h1 h2 =>
        have hdis := (List.pairwise_cons.mp hl.blocks_disjoint.2).1 _ hd _
          (Context.mem_blocks.mpr (.inr rfl)) _ hx
        rw [SecureHeap.Disjoint] at hdis
        dsimp only at hdis
        omega
  refine ⟨m', ?_, ⟨?_, fun d hd => ?_⟩, hkept⟩
  · rw [hm', ← h4, ← h8, hc]
    rfl
  · refine hl.congr fun z _ hlive => hbut z ?_
    exact hlive _ (List.mem_flatMap.mpr ⟨c, hmem, Context.mem_blocks.mpr (.inr rfl)⟩)
  · rcases List.mem_cons.mp hd with rfl | hd
    · refine ⟨?_, ?_, ?_⟩
      · rw [hm', word_setWord_self, hc]
      · rw [h4, hm', word_setWord_of_apart (.inl (Nat.le_refl _)), word_setWord_self]
      · rw [h8, hm', word_setWord_of_apart (.inl (by omega)),
          word_setWord_of_apart (.inl (by omega)), word_setWord_self]
    · refine h.stored_congr hd fun z hz hz' => hkept z ?_
      exact .lent hd (Context.mem_blocks.mpr (.inr rfl)) hz hz'

/-- Allocating a context.  If it fails, the heap is as before. -/
theorem allocate (h : Manages L s.memory cs t) (hipsr : ipsr ≠ 0) (size privileged : Word) :
    ∃ handle m t', secureContextAllocateContext freeRTOSConfig (secureHeap L) ipsr size privileged
        s = some (handle, { s with memory := m }) ∧
      (∀ z, Kept L cs z → m z = s.memory z) ∧
      ((handle = 0 ∧ Manages L m cs t' ∧ t'.blocks = t.blocks) ∨
        (handle ≠ 0 ∧ ∃ stack t₁, t.Step L (.malloc 12 handle) t₁ ∧
          (∃ s₁, Simulates L s₁ t₁) ∧ t₁.Step L (.malloc size stack) t' ∧
          Manages L m (⟨handle, stack, size, stack + size⟩ :: cs) t')) := by
  obtain ⟨_, hrep⟩ := h.heap.holds.exists_rep
  obtain ⟨handle, m₁, t₁, hcall₁, hst₁, h₁, hkeep₁⟩ := h.heap.pvPortMalloc_eq 12
  have hkept₁ : ∀ z, Kept L cs z → m₁ z = s.memory z := fun z hz =>
    hkeep₁ z (hz.not_owned h.heap fun _ hx => hx)
  have hstart : ∀ f : Word × ByteMemory → Option (Word × State),
      ((secureHeap L).pvPortMalloc s.memory sizeofSecureContext).bind f = f (handle, m₁) := by
    intro f
    show (SecureHeap.pvPortMalloc L s.memory 12).bind f = _
    rw [hcall₁, Option.bind_some]
  rw [secureContextAllocateContext, if_pos hipsr, Option.bind_eq_bind, hstart]
  dsimp only
  rcases Decidable.em (handle = 0) with rfl | hne
  · -- the descriptor does not fit
    rw [ledger, if_pos rfl] at h₁
    refine ⟨0, m₁, t₁, if_neg (by simp), hkept₁, .inl ⟨rfl, ⟨h₁, fun c hc => ?_⟩, ?_⟩⟩
    · refine h.stored_congr hc fun z hz hz' => hkept₁ z ?_
      exact .lent hc (Context.mem_blocks.mpr (.inr rfl)) hz hz'
    · exact Abstract.blocks_malloc_null hrep.tiles hst₁
  · obtain ⟨_, hrep₁⟩ := h₁.holds.exists_rep
    obtain ⟨stack, m₂, t₂, hcall₂, hst₂, h₂, hkeep₂⟩ := h₁.pvPortMalloc_eq size
    have hlive : ∀ x ∈ cs.flatMap Context.blocks,
        x ∈ ledger (cs.flatMap Context.blocks) (.malloc 12 handle) := fun x hx => by
      rw [ledger, if_neg hne]
      exact List.mem_cons_of_mem _ hx
    have hkept₂ : ∀ z, Kept L cs z → m₂ z = s.memory z := fun z hz =>
      (hkeep₂ z (hz.not_owned h₁ hlive)).trans (hkept₁ z hz)
    rw [if_pos hne]
    have hnext : ∀ f : Word × ByteMemory → Option (Word × State),
        ((secureHeap L).pvPortMalloc m₁ size).bind f = f (stack, m₂) := by
      intro f
      show (SecureHeap.pvPortMalloc L m₁ size).bind f = _
      rw [hcall₂, Option.bind_some]
    rw [Option.bind_eq_bind, hnext]
    dsimp only
    rcases Decidable.em (stack = 0) with rfl | hne'
    · -- the stack does not fit, and the descriptor is freed
      rw [if_neg (by simp)]
      have hledger : ledger (ledger (cs.flatMap Context.blocks) (.malloc 12 handle))
          (.malloc size 0) = ledger (cs.flatMap Context.blocks) (.malloc 12 handle) := by
        rw [ledger, if_pos rfl]
      rw [hledger] at h₂
      have hallowed : SecureHeap.Allowed
          ⟨m₂, ledger (cs.flatMap Context.blocks) (.malloc 12 handle)⟩ (.free handle) := by
        refine .inr ⟨(handle.toNat, 12), ?_, rfl⟩
        rw [ledger, if_neg hne]
        exact List.mem_cons_self ..
      obtain ⟨m₃, t₃, hcall₃, hst₃, h₃, hkeep₃⟩ := h₂.vPortFree_eq hallowed
      rw [h₂.ledger_malloc_free hne] at h₃
      have hkept₃ : ∀ z, Kept L cs z → m₃ z = s.memory z := fun z hz =>
        (hkeep₃ z (hz.not_owned h₂ hlive)).trans (hkept₂ z hz)
      refine ⟨0, m₃, t₃, ?_, hkept₃, .inl ⟨rfl, ⟨h₃, fun c hc => ?_⟩, ?_⟩⟩
      · show (SecureHeap.vPortFree L m₂ handle).bind _ = _
        rw [hcall₃, Option.bind_some]
        rfl
      · refine h.stored_congr hc fun z hz hz' => hkept₃ z ?_
        exact .lent hc (Context.mem_blocks.mpr (.inr rfl)) hz hz'
      · have hnull := Abstract.blocks_malloc_null hrep₁.tiles hst₂
        exact Abstract.blocks_malloc_free hrep.tidy hrep.tiles hst₁ hnull.symm hne hst₃
    · rw [if_pos hne']
      rw [ledger, if_neg hne', ledger, if_neg hne] at h₂
      obtain ⟨m₃, hinit, h₃, hkept₃⟩ :=
        h.initialise (s := { s with memory := m₂ }) privileged h₂ hkept₂
      exact ⟨handle, m₃, t₂, congrArg (fun s => some (handle, s)) hinit, hkept₃,
        .inr ⟨hne, stack, t₁, hst₁, ⟨_, h₁⟩, hst₂, h₃⟩⟩

end Manages

end SecureContext
