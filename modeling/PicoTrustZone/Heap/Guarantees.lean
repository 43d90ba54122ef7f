import PicoTrustZone.Heap.Runs

/-!
# What the heap guarantees

The simulation of `Runs` read off for clients: a request fails only if it has to, what
is lent is nobody else's, freeing everything gives the whole heap back, the low-water
mark is the minimum that it claims to be, and a block that is allocated and freed again
leaves no trace.
-/

namespace SecureHeap

open ByteMemory Pointer BlockChain Arena Transition

variable {L : Layout} {s s' s₁ s₂ s₃ : State} {t t' : Abstract} {e : Event} {es es' : List Event}

/-! ## Refinement -/

/-- The heap answers as an arena does that knows nothing of memory, and a request fails
exactly if it is empty, has the top bit set or fits into no free block. -/
theorem refines_of_run (h : Started L s) (hr : ClientRun L s es s') :
    ∃ t, Run (Abstract.Step L) (.init L) es t ∧ Simulates L s' t ∧
      ∀ n : Word, (∃ m, pvPortMalloc L s'.memory n = some (0, m)) ↔
        n = 0 ∨ 2 ^ 31 ≤ n.toNat ∨ ∀ b ∈ t.blocks, Unfit (request n.toNat) b := by
  obtain ⟨t, hrun, ht⟩ := (Simulates.init h).run hr
  refine ⟨t, hrun, ht, fun n => ?_⟩
  have hn : n = ptr n.toNat := (BitVec.ofNat_toNat 32 n).symm
  have hmal : (n = 0 ∨ 2 ^ 31 ≤ n.toNat ∨ ∀ b ∈ t.blocks, Unfit (request n.toNat) b) ↔
      malloc L n.toNat t.blocks = none := by
    have hzero : n = 0 ↔ n.toNat = 0 := by
      rw [← BitVec.toNat_inj]
      rfl
    rw [malloc, hzero, ← or_assoc]
    split
    · next hbig => exact iff_of_true (.inl hbig) rfl
    · next hsmall => rw [or_iff_right hsmall, allocate_eq_none_iff]
  rw [hmal]
  constructor
  · rintro ⟨m, hcall⟩
    cases hm : malloc L n.toNat t.blocks with
    | none => rfl
    | some q =>
        obtain ⟨p, bs⟩ := q
        obtain ⟨m', hcall', _⟩ := pvPortMalloc_of_some ht.holds hm
        obtain ⟨_, ⟨k, hp⟩, _⟩ := used_malloc hm
        obtain ⟨_, hrep⟩ := ht.holds.exists_rep
        have hlt := (hrep.block hp).1.lt
        dsimp only at hlt
        rw [hn, hcall'] at hcall
        have hzero : ptr (p + 8) = 0 := congrArg Prod.fst (Option.some.inj hcall)
        rw [ptr_eq_zero (by omega)] at hzero
        omega
  · intro hm
    obtain ⟨m', hcall, _⟩ := pvPortMalloc_of_none ht.holds n.isLt hm
    rw [← hn] at hcall
    exact ⟨m', hcall⟩

/-- Two requests. -/
def imageEvents : List Event := [.malloc 100 0x20000110, .malloc 20 0x20000180]

/-- Both are freed again. -/
def imageFrees : List Event := [.free 0x20000110, .free 0x20000180]

theorem exists_run_image : ∃ s₁ s₂, ClientRun imageLayout imageState imageEvents s₁ ∧
    ClientRun imageLayout s₁ imageFrees s₂ ∧ s₁.live = [(0x20000180, 20), (0x20000110, 100)] ∧
    s₂.live = [] := by
  obtain ⟨s₂, hrun⟩ := exists_run_of_play imageLayout imageState (imageEvents ++ imageFrees)
    (by decide +kernel)
  obtain ⟨s₁, h₁, h₂⟩ := hrun.split
  have hlive : s₁.live = [(0x20000180, 20), (0x20000110, 100)] := by
    rw [live_of_run h₁]
    decide
  refine ⟨s₁, s₂, h₁, h₂, hlive, ?_⟩
  rw [live_of_run h₂, hlive]
  decide

theorem refines_of_run_image : ∃ s', ClientRun imageLayout imageState imageEvents s' ∧
    ∃ t, Run (Abstract.Step imageLayout) (.init imageLayout) imageEvents t ∧
      Simulates imageLayout s' t ∧
      ∀ n : Word, (∃ m, pvPortMalloc imageLayout s'.memory n = some (0, m)) ↔
        n = 0 ∨ 2 ^ 31 ≤ n.toNat ∨ ∀ b ∈ t.blocks, Unfit (request n.toNat) b := by
  obtain ⟨s₁, _, h₁, _⟩ := exists_run_image
  exact ⟨s₁, h₁, refines_of_run started_imageState h₁⟩

/-! ## What is lent -/

/-- A step changes only what the heap owns, and what it writes for a client. -/
theorem Simulates.memory_step {z : Nat} (h : Simulates L s t) (ha : Allowed s e)
    (hs : Step L s e s') (hz : ¬ Owned L t.blocks z) (hw : ∀ v, e ≠ .write z v) :
    s'.memory z = s.memory z := by
  cases e with
  | malloc n r =>
      obtain ⟨_, _, _, hkeep⟩ := h.malloc hs
      exact hkeep z hz
  | free pv =>
      obtain ⟨_, _, _, hkeep⟩ := h.free ha hs
      exact hkeep z hz
  | write a v =>
      cases hs
      exact Function.update_of_ne (fun he => hw v (by rw [he])) _ _

/-- What is lent stays lent, and keeps its contents, until its owner frees it or writes
into it. -/
theorem lent_unchanged {x : Nat × Nat} {z : Nat} (h : Started L s) (hr : ClientRun L s es s₁)
    (hr' : ClientRun L s₁ es' s₂) (hx : x ∈ s₁.live) (hz : x.1 ≤ z ∧ z < x.1 + x.2)
    (hfree : ∀ pv, .free pv ∈ es' → pv.toNat ≠ x.1) (hwrite : ∀ v, .write z v ∉ es') :
    x ∈ s₂.live ∧ s₂.memory z = s₁.memory z := by
  obtain ⟨t, _, ht⟩ := (Simulates.init h).run hr
  have hinv : (∃ t, Simulates L s₂ t) ∧ x ∈ s₂.live ∧ s₂.memory z = s₁.memory z := by
    refine hr'.invariant_of_mem
      (I := fun u => (∃ t, Simulates L u t) ∧ x ∈ u.live ∧ u.memory z = s₁.memory z)
      (fun e he u u' hu hs => ?_) ⟨⟨t, ht⟩, hx, rfl⟩
    obtain ⟨⟨t, ht⟩, hxu, hmem⟩ := hu
    obtain ⟨t', _, ht'⟩ := ht.step hs.1 hs.2
    refine ⟨⟨t', ht'⟩, ?_, ?_⟩
    · rw [live_of_step hs.2]
      cases e with
      | malloc n r =>
          rw [ledger]
          split
          · exact hxu
          · exact List.mem_cons_of_mem _ hxu
      | free pv =>
          refine List.mem_filter.mpr ⟨hxu, ?_⟩
          simp only [decide_eq_true_eq]
          exact (hfree pv he).symm
      | write a v => exact hxu
    · rw [ht.memory_step hs.1 hs.2 (ht.not_owned hxu hz.1 hz.2), hmem]
      rintro v rfl
      exact hwrite v he
  exact hinv.2

theorem lent_unchanged_image : ∃ s₁ s₂, ClientRun imageLayout imageState imageEvents s₁ ∧
    ClientRun imageLayout s₁ [.free 0x20000110] s₂ ∧
    (0x20000180, 20) ∈ s₂.live ∧ s₂.memory 0x20000190 = s₁.memory 0x20000190 := by
  obtain ⟨s₁, _, h₁, h₂, hlive, _⟩ := exists_run_image
  have h₂' : ClientRun imageLayout s₁ ([.free 0x20000110] ++ [.free 0x20000180]) _ := h₂
  obtain ⟨s₂, h₂, _⟩ := h₂'.split
  refine ⟨s₁, s₂, h₁, h₂, lent_unchanged (x := (0x20000180, 20)) (z := 0x20000190)
    started_imageState h₁ h₂ ?_ (by decide) (fun pv hpv => ?_) fun v hv => ?_⟩
  · rw [hlive]
    exact List.mem_cons_self ..
  · cases List.mem_singleton.mp hpv
    decide
  · cases List.mem_singleton.mp hv

/-! ## Nothing is lost -/

/-- There was a request exactly if the arena is ready. -/
theorem Abstract.ready_of_run (h : Run (Abstract.Step L) t es t') :
    t'.ready = true ↔ t.ready = true ∨ ∃ n r, .malloc n r ∈ es := by
  induction h with
  | nil => simp
  | @cons t t₁ t' e es hs _ ih =>
      rw [ih]
      rw [Abstract.Step, Abstract.next.eq_def] at hs
      cases e with
      | malloc n r =>
          dsimp only at hs
          have hready : t₁.ready = true := by
            split at hs
            · split at hs
              · cases hs
                rfl
              · cases hs
            · split at hs
              · cases hs
                rfl
              · cases hs
          exact iff_of_true (.inl hready) (.inr ⟨n, r, List.mem_cons_self ..⟩)
      | free pv =>
          dsimp only at hs
          have hready : t₁.ready = t.ready := by
            split at hs
            · cases hs
              rfl
            · obtain ⟨bs, _, rfl⟩ := Option.map_eq_some_iff.mp hs
              rfl
          simp [hready]
      | write a v =>
          cases hs
          simp

/-- When nothing is lent, the arena is one free block. -/
theorem Simulates.blocks_of_unused (h : Simulates L s t) (hlive : s.live = []) :
    t.blocks = [⟨L.stop - L.start, false⟩] := by
  obtain ⟨_, hrep⟩ := h.holds.exists_rep
  have hused : select true L.start t.blocks = [] := by
    cases hsel : select true L.start t.blocks with
    | nil => rfl
    | cons y l =>
        obtain ⟨n, hn⟩ := h.listed y (by rw [hsel]; exact List.mem_cons_self ..)
        rw [hlive] at hn
        cases hn
  have hext : extent t.blocks = L.stop - L.start := by
    have := hrep.tiles
    omega
  have hne : t.blocks ≠ [] := by
    rintro he
    have := L.start_lt_stop
    rw [he, extent_nil] at hext
    omega
  rw [← hext]
  exact hrep.tidy.eq_singleton_of_unused hne hused

/-- A heap that lends nothing serves a request for all of it. -/
theorem whole_of_simulates {n : Nat} (h : Simulates L s t) (hlive : s.live = []) (hn : 0 < n)
    (hreq : request n ≤ L.stop - L.start) :
    ∃ m, pvPortMalloc L s.memory (ptr n) = some (ptr (L.start + 8), m) := by
  have hblocks := h.blocks_of_unused hlive
  have hroom := L.stop_sub_start_lt
  have hle := le_request n
  have hmal : malloc L n t.blocks =
      some (L.start, cut (request n) 16 (L.stop - L.start) ++ []) := by
    rw [malloc, if_neg (by omega), hblocks, allocate, if_pos ⟨rfl, hreq⟩]
  obtain ⟨m, hcall, _⟩ := pvPortMalloc_of_some h.holds hmal
  exact ⟨m, hcall⟩

/-- What is lent lies between the headers. -/
theorem Simulates.bounds_of_live {x : Nat × Nat} (h : Simulates L s t) (hx : x ∈ s.live) :
    L.start + 8 ≤ x.1 ∧ 0 < x.2 ∧ x.1 + x.2 ≤ L.stop := by
  obtain ⟨p, k, hp, hpe, hpos, hk⟩ := h.backed x hx
  obtain ⟨⟨hlo, _, _⟩, hhi, _, _⟩ := (h.holds.of_used hp).2.block hp
  dsimp only at hlo hhi
  exact ⟨by omega, hpos, by omega⟩

/-- A heap that lends something does not serve a request for all of it. -/
theorem Simulates.not_whole {x : Nat × Nat} {m : ByteMemory} (h : Simulates L s t)
    (hx : x ∈ s.live) :
    pvPortMalloc L s.memory (ptr (L.stop - L.start - 8)) ≠ some (ptr (L.start + 8), m) := by
  intro hcall
  obtain ⟨hlo, hpos, hhi⟩ := h.bounds_of_live hx
  have hroom := L.stop_sub_start_lt
  have hstop := L.stop_lt
  obtain ⟨r, m', t', hcall', _, h', _⟩ := h.pvPortMalloc_eq (ptr (L.stop - L.start - 8))
  cases hcall.symm.trans hcall'
  have hne : ptr (L.start + 8) ≠ 0 := by
    rw [Ne, ptr_eq_zero (by omega)]
    omega
  rw [ledger, if_neg hne, toNat_ptr (by omega), toNat_ptr (by omega)] at h'
  -- the new block is all of the heap, and the old one is in it
  have hdis := (List.pairwise_cons.mp (Simulates.disjoint h').1).1 x hx
  rw [Disjoint] at hdis
  dsimp only at hdis
  omega

/-- The heap serves a request for all of it. -/
def Whole (L : Layout) (m : ByteMemory) : Prop :=
  ∀ n, 0 < n → request n ≤ L.stop - L.start →
    ∃ m', pvPortMalloc L m (ptr n) = some (ptr (L.start + 8), m')

/-- It does exactly if it lends nothing. -/
theorem Simulates.whole_iff (h : Simulates L s t) : Whole L s.memory ↔ s.live = [] := by
  constructor
  · intro hwhole
    refine List.eq_nil_iff_forall_not_mem.mpr fun x hx => ?_
    obtain ⟨hlo, hpos, hhi⟩ := h.bounds_of_live hx
    have hdvd : 8 ∣ L.stop - L.start := Nat.dvd_sub L.dvd_stop L.dvd_start
    have hreq : request (L.stop - L.start - 8) ≤ L.stop - L.start := by
      rw [request]
      omega
    obtain ⟨m, hcall⟩ := hwhole (L.stop - L.start - 8) (by omega) hreq
    exact h.not_whole hx hcall
  · intro hlive n hn hreq
    exact whole_of_simulates h hlive hn hreq

/-- When everything that was lent has been freed, in whatever order, the heap again
serves a request for all of it. -/
theorem whole_of_run (h : Started L s) (hr : ClientRun L s es s') (hlive : s'.live = []) :
    (∀ n, 0 < n → request n ≤ L.stop - L.start →
      ∃ m, pvPortMalloc L s'.memory (ptr n) = some (ptr (L.start + 8), m)) ∧
      ((∃ n r, .malloc n r ∈ es) → xPortGetFreeHeapSize L s'.memory = ptr (L.stop - L.start)) := by
  obtain ⟨t, hrun, ht⟩ := (Simulates.init h).run hr
  constructor
  · intro n hn hreq
    exact whole_of_simulates ht hlive hn hreq
  · intro hreq
    have hready : t.ready = true := (Abstract.ready_of_run hrun).mpr (.inr hreq)
    rw [ht.holds.xPortGetFreeHeapSize_eq, hready, if_pos rfl, ht.blocks_of_unused hlive]
    simp

theorem whole_of_run_image : ∃ s', ClientRun imageLayout imageState (imageEvents ++ imageFrees) s' ∧
    (∃ m, pvPortMalloc imageLayout s'.memory (ptr 10216) = some (0x20000110, m)) ∧
    xPortGetFreeHeapSize imageLayout s'.memory = 10224 := by
  obtain ⟨s₁, s₂, h₁, h₂, _, hlive⟩ := exists_run_image
  obtain ⟨hall, hfree⟩ := whole_of_run started_imageState (h₁.append h₂) hlive
  exact ⟨s₂, h₁.append h₂, hall 10216 (by decide) (by decide),
    hfree ⟨100, 0x20000110, List.mem_cons_self ..⟩⟩

/-! ## The low-water mark -/

/-- The low-water mark only changes in a request, and then to what is free. -/
theorem Abstract.low_step (h : t.Step L e t') :
    t'.low ≤ t.low ∧
      (t'.low = t.low ∨ (∃ n r, e = .malloc n r) ∧ t'.low = freeBytes t'.blocks) := by
  rw [Abstract.Step, Abstract.next.eq_def] at h
  cases e with
  | malloc n r =>
      dsimp only at h
      split at h
      · split at h
        · cases h
          refine ⟨Nat.min_le_left .., ?_⟩
          dsimp only
          rcases Nat.le_total t.low (freeBytes _) with hle | hle
          · exact .inl (Nat.min_eq_left hle)
          · exact .inr ⟨⟨n, r, rfl⟩, Nat.min_eq_right hle⟩
        · cases h
      · split at h
        · cases h
          exact ⟨Nat.le_refl _, .inl rfl⟩
        · cases h
  | free pv =>
      dsimp only at h
      split at h
      · cases h
        exact ⟨Nat.le_refl _, .inl rfl⟩
      · obtain ⟨bs, _, rfl⟩ := Option.map_eq_some_iff.mp h
        exact ⟨Nat.le_refl _, .inl rfl⟩
  | write a v =>
      cases h
      exact ⟨Nat.le_refl _, .inl rfl⟩

theorem Abstract.low_run (h : Run (Abstract.Step L) t es t') : t'.low ≤ t.low := by
  induction h with
  | nil => exact Nat.le_refl _
  | cons hs _ ih => exact Nat.le_trans ih (Abstract.low_step hs).1

/-- What the heap reports once there was a request. -/
theorem Simulates.reports (h : Simulates L s t) (hready : t.ready = true) :
    xPortGetFreeHeapSize L s.memory = ptr (freeBytes t.blocks) ∧
      xPortGetMinimumEverFreeHeapSize L s.memory = ptr t.low ∧
      t.low ≤ freeBytes t.blocks ∧ freeBytes t.blocks < 2 ^ 31 := by
  obtain ⟨_, hrep⟩ := h.holds.exists_rep
  rw [h.holds.xPortGetFreeHeapSize_eq, h.holds.xPortGetMinimumEverFreeHeapSize_eq, hready]
  exact ⟨rfl, rfl, hrep.low_le, hrep.freeBytes_lt⟩

/-- The low-water mark is what it was, or what was free at some time since. -/
theorem Simulates.low_attained (h : Simulates L s t) (hr : ClientRun L s es s') :
    ∃ t', Run (Abstract.Step L) t es t' ∧ Simulates L s' t' ∧ (t'.low = t.low ∨
      ∃ es₁ es₂ s₁ t₁, es = es₁ ++ es₂ ∧ ClientRun L s es₁ s₁ ∧ ClientRun L s₁ es₂ s' ∧
        (∃ n r, .malloc n r ∈ es₁) ∧ Simulates L s₁ t₁ ∧ t₁.ready = true ∧
        freeBytes t₁.blocks = t'.low) := by
  induction hr generalizing t with
  | nil => exact ⟨t, .nil, h, .inl rfl⟩
  | @cons s u s' e es hs hr ih =>
      obtain ⟨t₁, hstep, h₁⟩ := h.step hs.1 hs.2
      obtain ⟨t', hrun, h', hlow⟩ := ih h₁
      refine ⟨t', .cons hstep hrun, h', ?_⟩
      rcases hlow with hlow | ⟨es₁, es₂, s₁, u₁, rfl, hr₁, hr₂, ⟨n, r, hreq⟩, hsim, hready, hfree⟩
      · rcases (Abstract.low_step hstep).2 with he | ⟨⟨n, r, rfl⟩, he⟩
        · exact .inl (hlow.trans he)
        · have hready := (Abstract.ready_of_run (.single hstep)).mpr
            (.inr ⟨n, r, List.mem_cons_self ..⟩)
          exact .inr ⟨[.malloc n r], es, u, t₁, rfl, .single hs, hr,
            ⟨n, r, List.mem_cons_self ..⟩, h₁, hready, (hlow.trans he).symm⟩
      · exact .inr ⟨e :: es₁, es₂, s₁, u₁, rfl, .cons hs hr₁, hr₂,
          ⟨n, r, List.mem_cons_of_mem _ hreq⟩, hsim, hready, hfree⟩

/-- `xPortGetMinimumEverFreeHeapSize` is the minimum of the whole heap and of all that
`xPortGetFreeHeapSize` returned since the first request. -/
theorem lowest_of_run (h : Started L s) (hr : ClientRun L s es s')
    (hreq : ∃ n r, .malloc n r ∈ es) :
    xPortGetMinimumEverFreeHeapSize L s'.memory ≤ ptr (L.stop - L.start) ∧
      (∀ es₁ es₂ s₁, es = es₁ ++ es₂ → ClientRun L s es₁ s₁ → ClientRun L s₁ es₂ s' →
        (∃ n r, .malloc n r ∈ es₁) →
        xPortGetMinimumEverFreeHeapSize L s'.memory ≤ xPortGetFreeHeapSize L s₁.memory) ∧
      (xPortGetMinimumEverFreeHeapSize L s'.memory = ptr (L.stop - L.start) ∨
        ∃ es₁ es₂ s₁, es = es₁ ++ es₂ ∧ ClientRun L s es₁ s₁ ∧ ClientRun L s₁ es₂ s' ∧
          (∃ n r, .malloc n r ∈ es₁) ∧
          xPortGetFreeHeapSize L s₁.memory = xPortGetMinimumEverFreeHeapSize L s'.memory) := by
  have hroom := L.stop_sub_start_lt
  obtain ⟨t', hrun, ht', hlow⟩ := (Simulates.init h).low_attained hr
  have hready : t'.ready = true := (Abstract.ready_of_run hrun).mpr (.inr hreq)
  obtain ⟨_, hmin, hle, hlt⟩ := ht'.reports hready
  rw [hmin]
  refine ⟨?_, fun es₁ es₂ s₁ _ hr₁ hr₂ hreq₁ => ?_, ?_⟩
  · have hle₀ : t'.low ≤ L.stop - L.start := Abstract.low_run hrun
    rw [ptr_le (by omega) (by omega)]
    exact hle₀
  · obtain ⟨t₁, hrun₁, ht₁⟩ := (Simulates.init h).run hr₁
    obtain ⟨t₂, hrun₂, ht₂⟩ := ht₁.run hr₂
    have hready₁ : t₁.ready = true := (Abstract.ready_of_run hrun₁).mpr (.inr hreq₁)
    have hready₂ : t₂.ready = true := (Abstract.ready_of_run hrun₂).mpr (.inl hready₁)
    obtain ⟨hfree₁, _, hle₁, hlt₁⟩ := ht₁.reports hready₁
    obtain ⟨_, hmin₂, hle₂, hlt₂⟩ := ht₂.reports hready₂
    have hmono := Abstract.low_run hrun₂
    rw [← hmin, hmin₂, hfree₁, ptr_le (by omega) (by omega)]
    omega
  · rcases hlow with he | ⟨es₁, es₂, s₁, t₁, he, hr₁, hr₂, hreq₁, ht₁, hready₁, hfree⟩
    · rw [he]
      exact .inl rfl
    · obtain ⟨hfree₁, _⟩ := ht₁.reports hready₁
      exact .inr ⟨es₁, es₂, s₁, he, hr₁, hr₂, hreq₁, by rw [hfree₁, hfree]⟩

theorem lowest_of_run_image : ∃ s', ClientRun imageLayout imageState imageEvents s' ∧
    xPortGetMinimumEverFreeHeapSize imageLayout s'.memory ≤ 10224 ∧
    xPortGetMinimumEverFreeHeapSize imageLayout s'.memory ≤
      xPortGetFreeHeapSize imageLayout s'.memory := by
  obtain ⟨s₁, _, h₁, _⟩ := exists_run_image
  have hreq : ∃ n r, .malloc n r ∈ imageEvents := ⟨100, 0x20000110, List.mem_cons_self ..⟩
  obtain ⟨hall, hsince, _⟩ := lowest_of_run started_imageState h₁ hreq
  exact ⟨s₁, h₁, hall, hsince imageEvents [] s₁ (by simp) h₁ .nil hreq⟩

/-! ## Allocating and freeing again -/

/-- The heaps hold the same blocks for the same clients. -/
def Same (L : Layout) (s u : State) : Prop :=
  ∃ t v, Simulates L s t ∧ Simulates L u v ∧ t.blocks = v.blocks ∧ s.live = u.live

theorem Same.symm {u : State} (h : Same L s u) : Same L u s := by
  obtain ⟨t, v, ht, hv, hb, hl⟩ := h
  exact ⟨v, t, hv, ht, hb.symm, hl.symm⟩

/-- What happens to an arena depends on its blocks. -/
theorem Abstract.step_congr {v : Abstract} (h : t.Step L e t') (hb : t.blocks = v.blocks) :
    ∃ v', v.Step L e v' ∧ t'.blocks = v'.blocks := by
  rw [Abstract.Step, Abstract.next.eq_def] at h
  cases e with
  | malloc n r =>
      simp only [Abstract.Step, Abstract.next]
      dsimp only at h
      rw [hb] at h
      split at h
      · split at h
        · next hr =>
          cases h
          exact ⟨_, if_pos hr, rfl⟩
        · cases h
      · split at h
        · next hr =>
          cases h
          exact ⟨_, if_pos hr, rfl⟩
        · cases h
  | free pv =>
      simp only [Abstract.Step, Abstract.next]
      dsimp only at h
      split at h
      · next hpv =>
        cases h
        exact ⟨v, if_pos hpv, hb⟩
      · next hpv =>
        obtain ⟨bs, hrel, rfl⟩ := Option.map_eq_some_iff.mp h
        rw [if_neg hpv, ← hb, hrel]
        exact ⟨_, rfl, rfl⟩
  | write a w =>
      cases h
      exact ⟨v, rfl, hb⟩

theorem Same.step {u : State} (h : Same L s u) (hs : Guarded Allowed (Step L) s e s') :
    ∃ u', Guarded Allowed (Step L) u e u' ∧ Same L s' u' := by
  obtain ⟨t, v, ht, hv, hb, hl⟩ := h
  obtain ⟨ha, hstep⟩ := hs
  obtain ⟨t', hst, ht'⟩ := ht.step ha hstep
  obtain ⟨v', hsv, hb'⟩ := Abstract.step_congr hst hb
  have ha' : Allowed u e := by
    cases e with
    | malloc n r => trivial
    | free pv => rwa [Allowed, ← hl]
    | write a w => rwa [Allowed, ← hl]
  obtain ⟨u', hu⟩ := hv.progress ha' hsv
  obtain ⟨v'', hsv', hv'⟩ := hv.step ha' hu
  cases hsv.symm.trans hsv'
  exact ⟨u', ⟨ha', hu⟩, t', v', ht', hv', hb', by rw [live_of_step hstep, live_of_step hu, hl]⟩

theorem Same.run {u : State} (h : Same L s u) (hr : ClientRun L s es s') :
    ∃ u', ClientRun L u es u' ∧ Same L s' u' := by
  refine hr.simulate (R := Same L) (fun s u e s' h hs => ?_) h
  exact h.step hs

/-- The arena is as before when a request was not met. -/
theorem Abstract.blocks_malloc_null {n : Word} (hend : L.start + extent t.blocks = L.stop)
    (hm : t.Step L (.malloc n 0) t') : t'.blocks = t.blocks := by
  rw [Abstract.Step, Abstract.next] at hm
  cases hmal : malloc L n.toNat t.blocks with
  | none =>
      rw [hmal] at hm
      dsimp only at hm
      rw [if_pos rfl] at hm
      cases hm
      rfl
  | some q =>
      obtain ⟨p, bs⟩ := q
      obtain ⟨_, ⟨k, hp⟩, _⟩ := used_malloc hmal
      have hb := bounds_of_mem_select hp
      have hstop := L.stop_lt
      have hne : (0 : Word) ≠ ptr (p + 8) := by
        rw [ne_comm, Ne, ptr_eq_zero (by dsimp only at hb; omega)]
        omega
      rw [hmal] at hm
      dsimp only at hm
      rw [if_neg hne] at hm
      cases hm

/-- The arena is as before when a block that was allocated is freed again. -/
theorem Abstract.blocks_malloc_free {v : Abstract} {n r : Word} (ht : Tidy 8 t.blocks)
    (hend : L.start + extent t.blocks = L.stop) (hm : t.Step L (.malloc n r) t')
    (hv : t'.blocks = v.blocks) (hne : r ≠ 0) {v' : Abstract} (hf : v.Step L (.free r) v') :
    v'.blocks = t.blocks := by
  rw [Abstract.Step, Abstract.next] at hm
  cases hmal : malloc L n.toNat t.blocks with
  | none =>
      rw [hmal] at hm
      dsimp only at hm
      rw [if_neg hne] at hm
      cases hm
  | some q =>
      obtain ⟨p, bs⟩ := q
      obtain ⟨_, ⟨k, hp⟩, _⟩ := used_malloc hmal
      have hb := bounds_of_mem_select hp
      have hstop := L.stop_lt
      rw [hmal] at hm
      dsimp only at hb hm
      split at hm
      · next hr =>
        cases hm
        rw [Abstract.Step, Abstract.next, if_neg hne, hr, toNat_ptr (by omega),
          Nat.add_sub_cancel, ← hv] at hf
        rw [malloc] at hmal
        split at hmal
        · cases hmal
        · rw [release_allocate ht.pos ht.coalesced
            (Nat.lt_of_lt_of_le (Nat.succ_pos _) (le_request _)) hmal] at hf
          cases hf
          rfl
      · cases hm

/-- The ledger is as before when a block that was allocated is freed again. -/
theorem Simulates.ledger_malloc_free {n r : Word} {m : ByteMemory} {live : List (Nat × Nat)}
    (h : Simulates L ⟨m, ledger live (.malloc n r)⟩ t) (hne : r ≠ 0) :
    ledger (ledger live (.malloc n r)) (.free r) = live := by
  have hdist := h.distinct
  rw [ledger, if_neg hne] at hdist
  dsimp only at hdist
  rw [List.map_cons, List.nodup_cons] at hdist
  rw [ledger, if_neg hne, ledger, List.filter_cons_of_neg (by simp)]
  refine List.filter_eq_self.mpr fun x hx => ?_
  simp only [decide_eq_true_eq]
  intro he
  exact hdist.1 (he ▸ List.mem_map.mpr ⟨x, hx, rfl⟩)

/-- A second `vPortFree` of a pointer stops at the assertion. -/
theorem doubleFree_stops {x : Nat × Nat} {pv : Word} (h : Started L s) (hr : ClientRun L s es s')
    (hx : x ∈ s'.live) (hpv : pv.toNat = x.1) :
    ∃ m, vPortFree L s'.memory pv = some m ∧ vPortFree L m pv = none := by
  obtain ⟨t, _, ht⟩ := (Simulates.init h).run hr
  obtain ⟨m, _, hcall, _, _, _, _, _, _, hstop⟩ := ht.free_live hx hpv.symm
  exact ⟨m, hcall, hstop⟩

theorem doubleFree_stops_image : ∃ s', ClientRun imageLayout imageState imageEvents s' ∧
    ∃ m, vPortFree imageLayout s'.memory 0x20000110 = some m ∧
      vPortFree imageLayout m 0x20000110 = none := by
  obtain ⟨s₁, _, h₁, _, hlive, _⟩ := exists_run_image
  refine ⟨s₁, h₁, doubleFree_stops (x := (0x20000110, 100)) started_imageState h₁ ?_ (by decide)⟩
  rw [hlive]
  exact List.mem_cons_of_mem _ (List.mem_cons_self ..)

end SecureHeap
