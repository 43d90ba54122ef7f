import PicoTrustZone.Heap.Allocate
import PicoTrustZone.Lib.Transition

/-!
# The heap and its clients

A client allocates and frees blocks and writes into what it has.  It keeps a ledger of
the pointers that it was given and of the sizes that it asked for, and it obeys the
ledger: it frees what it has, and it writes nothing else.

Over any run of such clients the heap simulates an arena, which knows nothing of
memory and of lists (`simulates`).  What holds of arenas so holds of the heap: every call
returns, the blocks that are lent do not meet, and nothing is lost.
-/

namespace SecureHeap

open ByteMemory Pointer BlockChain Arena Transition

/-- The memory, and the ledger of the pointers that are lent, with their sizes. -/
structure State where
  memory : ByteMemory
  live : List (Nat × Nat)

/-- What happens: calls with what they return, and stores of the clients. -/
inductive Event where
  | malloc (xWantedSize pvReturn : Word)
  | free (pv : Word)
  | write (addr : Nat) (v : BitVec 8)
deriving DecidableEq, Repr

/-- The state that an event leads to, if it can happen. -/
def next (L : Layout) (s : State) : Event → Option State
  | .malloc xWantedSize pvReturn =>
      match pvPortMalloc L s.memory xWantedSize with
      | some (ret, m) =>
          if ret = pvReturn then
            some ⟨m, if ret = 0 then s.live else (ret.toNat, xWantedSize.toNat) :: s.live⟩
          else none
      | none => none
  | .free pv =>
      match vPortFree L s.memory pv with
      | some m => some ⟨m, s.live.filter fun x => x.1 ≠ pv.toNat⟩
      | none => none
  | .write addr v => some { s with memory := Function.update s.memory addr v }

/-- `next` as a relation. -/
def Step (L : Layout) (s : State) (e : Event) (s' : State) : Prop := next L s e = some s'

/-- What a client may do: free `NULL` or what is lent, and write into what is lent. -/
def Allowed (s : State) : Event → Prop
  | .malloc _ _ => True
  | .free pv => pv = 0 ∨ ∃ x ∈ s.live, x.1 = pv.toNat
  | .write addr _ => ∃ x ∈ s.live, x.1 ≤ addr ∧ addr < x.1 + x.2

instance (s : State) : ∀ e, Decidable (Allowed s e)
  | .malloc _ _ => inferInstanceAs (Decidable True)
  | .free pv => inferInstanceAs (Decidable (pv = 0 ∨ ∃ x ∈ s.live, x.1 = pv.toNat))
  | .write addr _ => inferInstanceAs (Decidable (∃ x ∈ s.live, x.1 ≤ addr ∧ addr < x.1 + x.2))

/-- The static variables as the startup code leaves them. -/
def Started (L : Layout) (s : State) : Prop := (∀ v, L.get s.memory v = 0) ∧ s.live = []

/-! ## The arena that is simulated -/

/-- The arena, the least number of free bytes so far, and whether there was a request. -/
structure Abstract where
  ready : Bool
  blocks : List Block
  low : Nat

/-- The arena before the first request. -/
def Abstract.init (L : Layout) : Abstract :=
  ⟨false, [⟨L.stop - L.start, false⟩], L.stop - L.start⟩

/-- What an event does to the arena. -/
def Abstract.next (L : Layout) (t : Abstract) : Event → Option Abstract
  | .malloc xWantedSize pvReturn =>
      match malloc L xWantedSize.toNat t.blocks with
      | some (p, bs) =>
          if pvReturn = ptr (p + 8) then some ⟨true, bs, min t.low (freeBytes bs)⟩ else none
      | none => if pvReturn = 0 then some { t with ready := true } else none
  | .free pv =>
      if pv = 0 then some t
      else (release (pv.toNat - 8) L.start t.blocks).map fun bs => ⟨t.ready, bs, t.low⟩
  | .write _ _ => some t

/-- `Abstract.next` as a relation. -/
def Abstract.Step (L : Layout) (t : Abstract) (e : Event) (t' : Abstract) : Prop :=
  t.next L e = some t'

/-- The memory holds the arena, and the ledger lists its used blocks. -/
structure Simulates (L : Layout) (s : State) (t : Abstract) : Prop where
  holds : Holds L s.memory t.ready t.blocks t.low
  backed : ∀ x ∈ s.live, ∃ p k, (p, k) ∈ select true L.start t.blocks ∧ x.1 = p + 8 ∧
    0 < x.2 ∧ x.2 + 8 ≤ k
  listed : ∀ y ∈ select true L.start t.blocks, ∃ n, (y.1 + 8, n) ∈ s.live
  distinct : (s.live.map Prod.fst).Nodup

variable {L : Layout} {s s' : State} {t t' : Abstract} {e : Event}

theorem Simulates.init (h : Started L s) : Simulates L s (.init L) := by
  obtain ⟨hstatic, hlive⟩ := h
  have hused : select true L.start (Abstract.init L).blocks = [] := by
    rw [Abstract.init, select_cons_of_ne (by simp), select_nil]
  refine ⟨.fresh hstatic, ?_, ?_, ?_⟩
  · rw [hlive]
    simp
  · rw [hused]
    simp
  · rw [hlive]
    simp

/-! ## The steps -/

/-- A byte that is lent is not the heap's. -/
theorem Simulates.not_owned {x : Nat × Nat} {z : Nat} (h : Simulates L s t) (hx : x ∈ s.live)
    (hz : x.1 ≤ z) (hz' : z < x.1 + x.2) : ¬ Owned L t.blocks z := by
  obtain ⟨p, k, hp, hpe, _, hk⟩ := h.backed x hx
  have hrep := (h.holds.of_used hp).2
  obtain ⟨⟨hi, _, _⟩, hle, _, h8⟩ := hrep.block hp
  dsimp only at hi hle h8
  intro ho
  cases ho with
  | xStart h1 h2 =>
      have := L.xStart_apart_start
      omega
  | static v h1 h2 =>
      have := L.static_ucHeap v
      have := L.le_start
      have := L.stop_le
      omega
  | header hy h1 h2 =>
      rcases eq_or_apart hp hy with ⟨rfl, _⟩ | hlt | hlt
      · dsimp only at h2
        omega
      · dsimp only at hlt
        omega
      · have := (hrep.block hy).2.2.2
        dsimp only at hlt
        omega
  | free hy h1 h2 =>
      rcases eq_or_apart hp hy with ⟨_, hu⟩ | hlt | hlt
      · cases hu
      · dsimp only at hlt
        omega
      · dsimp only at hlt
        omega
  | stop h1 h2 => omega

theorem Simulates.malloc {n r : Word} (h : Simulates L s t)
    (hs : next L s (.malloc n r) = some s') :
    ∃ t', t.next L (.malloc n r) = some t' ∧ Simulates L s' t' ∧
      ∀ z, ¬ Owned L t.blocks z → s'.memory z = s.memory z := by
  have hn : n = ptr n.toNat := (BitVec.ofNat_toNat 32 n).symm
  rw [next] at hs
  rw [Abstract.next]
  cases hm : SecureHeap.malloc L n.toNat t.blocks with
  | none =>
      obtain ⟨m', hcall, hrep, hkeep⟩ := pvPortMalloc_of_none h.holds n.isLt hm
      rw [← hn] at hcall
      rw [hcall] at hs
      dsimp only at hs
      split at hs
      · next hr =>
        cases hs
        exact ⟨_, if_pos hr.symm, ⟨.rep hrep, h.backed, h.listed, h.distinct⟩, hkeep⟩
      · cases hs
  | some q =>
      obtain ⟨p, bs⟩ := q
      obtain ⟨m', hcall, hrep, hkeep⟩ := pvPortMalloc_of_some h.holds hm
      obtain ⟨hpos, ⟨k, hp⟩, j, hj, _, hused⟩ := used_malloc hm
      obtain ⟨_, hrep₀⟩ := h.holds.exists_rep
      obtain ⟨hi, _⟩ := hrep₀.block hp
      have hlt := hi.lt
      dsimp only at hi hlt
      rw [← hn] at hcall
      rw [hcall] at hs
      dsimp only at hs
      split at hs
      · next hr =>
        have hne : ptr (p + 8) ≠ 0 := by
          rw [Ne, ptr_eq_zero (by omega)]
          omega
        rw [if_neg hne, toNat_ptr (by omega)] at hs
        cases hs
        refine ⟨_, if_pos hr.symm, ⟨.rep hrep, fun x hx => ?_, fun y hy => ?_, ?_⟩, hkeep⟩
        · rcases List.mem_cons.mp hx with rfl | hx
          · exact ⟨p, j, (hused _).mpr (.inl rfl), rfl, hpos, hj⟩
          · obtain ⟨q, k, hq, hqe, h0, h1⟩ := h.backed x hx
            exact ⟨q, k, (hused _).mpr (.inr hq), hqe, h0, h1⟩
        · rcases (hused y).mp hy with rfl | hy
          · exact ⟨n.toNat, List.mem_cons_self ..⟩
          · obtain ⟨n, hn⟩ := h.listed y hy
            exact ⟨n, List.mem_cons_of_mem _ hn⟩
        · refine List.nodup_cons.mpr ⟨fun hmem => ?_, h.distinct⟩
          obtain ⟨x, hx, hxe⟩ := List.mem_map.mp hmem
          obtain ⟨q, k', hq, hqe, _⟩ := h.backed x hx
          have h8 := (hrep₀.block hp).2.2.2
          have h8' := (hrep₀.block hq).2.2.2
          rcases eq_or_apart hp hq with ⟨_, hu⟩ | hlt | hlt
          · cases hu
          · dsimp only at *
            omega
          · dsimp only at *
            omega
      · cases hs

theorem vPortFree_null (L : Layout) (m : ByteMemory) : vPortFree L m 0 = some m := if_neg (by simp)

/-- A pointer that is lent can be freed. -/
theorem Simulates.free_live {x : Nat × Nat} {pv : Word} (h : Simulates L s t) (hx : x ∈ s.live)
    (hpv : x.1 = pv.toNat) :
    ∃ m bs, vPortFree L s.memory pv = some m ∧ pv ≠ 0 ∧
      release (pv.toNat - 8) L.start t.blocks = some bs ∧ t.ready = true ∧ Rep L m bs t.low ∧
      (∀ y, y ∈ select true L.start bs ↔
        y ∈ select true L.start t.blocks ∧ y.1 ≠ pv.toNat - 8) ∧
      (∀ z, ¬ Owned L t.blocks z → m z = s.memory z) ∧ vPortFree L m pv = none := by
  obtain ⟨p, k, hp, hpe, _⟩ := h.backed x hx
  obtain ⟨hready, hrep⟩ := h.holds.of_used hp
  have hlt := (hrep.block hp).1.lt
  have hpv' : pv.toNat = p + 8 := hpv.symm.trans hpe
  have hptr : pv = ptr (p + 8) := by
    rw [← hpv']
    exact (BitVec.ofNat_toNat 32 pv).symm
  dsimp only at hlt
  obtain ⟨m, bs, hrel, hcall, hrep', hkeep, j, hj, hsize⟩ := vPortFree_spec hrep hp
  obtain ⟨_, _, _, hused⟩ := used_release hrep.tidy.pos hrel
  rw [hpv', Nat.add_sub_cancel, hptr]
  have hne : ptr (p + 8) ≠ 0 := by
    rw [Ne, ptr_eq_zero (by omega)]
    omega
  refine ⟨m, bs, hcall, hne, hrel, hready, hrep', hused, fun z hz => ?_, ?_⟩
  · exact hkeep z fun hc => hz (hrep.owned_of_changed hp hc)
  · have hlink : ptr (p + 8) - xHeapStructSize = ptr p := by
      have height : (8 : Word) = ptr 8 := rfl
      rw [xHeapStructSize_eq, height, ptr_sub (by omega), Nat.add_sub_cancel]
    rw [vPortFree, if_pos hne, hlink]
    dsimp only
    rw [(hrep.block hp).1.node.xBlockSize_eq, hsize, hrep'.bit, if_neg]
    rw [Ne, not_not, ptr_and_top_eq_zero (by omega)]
    exact hj

theorem Simulates.free {pv : Word} (h : Simulates L s t) (ha : Allowed s (.free pv))
    (hs : next L s (.free pv) = some s') :
    ∃ t', t.next L (.free pv) = some t' ∧ Simulates L s' t' ∧
      ∀ z, ¬ Owned L t.blocks z → s'.memory z = s.memory z := by
  rw [next] at hs
  rw [Abstract.next]
  rcases ha with rfl | ⟨x, hx, hpv⟩
  · rw [vPortFree_null] at hs
    cases hs
    refine ⟨t, if_pos rfl, ⟨h.holds, fun x hx => ?_, fun y hy => ?_, ?_⟩, fun _ _ => rfl⟩
    · exact h.backed x (List.mem_of_mem_filter hx)
    · obtain ⟨n, hn⟩ := h.listed y hy
      exact ⟨n, List.mem_filter.mpr ⟨hn, by simp⟩⟩
    · exact h.distinct.sublist (List.filter_sublist.map _)
  · obtain ⟨m, bs, hcall, hne, hrel, hready, hrep, hused, hkeep, _⟩ := h.free_live hx hpv
    rw [hcall] at hs
    cases hs
    rw [if_neg hne, hrel, Option.map_some, hready]
    refine ⟨_, rfl, ⟨.rep hrep, fun y hy => ?_, fun y hy => ?_, ?_⟩, hkeep⟩
    · obtain ⟨hy, hyne⟩ := List.mem_filter.mp hy
      obtain ⟨q, k, hq, hqe, hpos, hk⟩ := h.backed y hy
      refine ⟨q, k, (hused _).mpr ⟨hq, fun he => ?_⟩, hqe, hpos, hk⟩
      simp only [decide_eq_true_eq] at hyne
      obtain ⟨p, _, _, hpe, _⟩ := h.backed x hx
      dsimp only at he
      omega
    · obtain ⟨hy, hyne⟩ := (hused y).mp hy
      obtain ⟨n, hn⟩ := h.listed y hy
      refine ⟨n, List.mem_filter.mpr ⟨hn, ?_⟩⟩
      simp only [decide_eq_true_eq]
      omega
    · exact h.distinct.sublist (List.filter_sublist.map _)

theorem Simulates.write {a : Nat} {v : BitVec 8} (h : Simulates L s t)
    (ha : Allowed s (.write a v)) :
    Simulates L { s with memory := Function.update s.memory a v } t := by
  obtain ⟨x, hx, hxa, hax⟩ := ha
  obtain ⟨p, k, hp, _⟩ := h.backed x hx
  obtain ⟨hready, hrep⟩ := h.holds.of_used hp
  refine ⟨hready ▸ .rep (hrep.congr fun z hz => ?_), h.backed, h.listed, h.distinct⟩
  refine Function.update_of_ne (fun he => ?_) _ _
  exact h.not_owned hx hxa hax (he ▸ hz)

/-- What one step preserves. -/
theorem Simulates.step (h : Simulates L s t) (ha : Allowed s e) (hs : Step L s e s') :
    ∃ t', t.Step L e t' ∧ Simulates L s' t' := by
  cases e with
  | malloc n r =>
      obtain ⟨t', ht, h', _⟩ := h.malloc hs
      exact ⟨t', ht, h'⟩
  | free pv =>
      obtain ⟨t', ht, h', _⟩ := h.free ha hs
      exact ⟨t', ht, h'⟩
  | write a v =>
      cases hs
      exact ⟨t, rfl, h.write ha⟩

/-- The runs of clients that obey the ledger. -/
abbrev ClientRun (L : Layout) : State → List Event → State → Prop :=
  Run (Guarded Allowed (Step L))

/-- What a run preserves. -/
theorem Simulates.run {es : List Event} (h : Simulates L s t) (hr : ClientRun L s es s') :
    ∃ t', Run (Abstract.Step L) t es t' ∧ Simulates L s' t' :=
  hr.simulate (R := Simulates L) (fun _ _ _ _ h hs => h.step hs.1 hs.2) h

/-- What the arena can do, the heap does. -/
theorem Simulates.progress (h : Simulates L s t) (ha : Allowed s e) (ht : t.Step L e t') :
    ∃ s', Step L s e s' := by
  cases e with
  | malloc n r =>
      have hn : n = ptr n.toNat := (BitVec.ofNat_toNat 32 n).symm
      rw [Abstract.Step, Abstract.next] at ht
      simp only [Step, next]
      cases hm : SecureHeap.malloc L n.toNat t.blocks with
      | none =>
          obtain ⟨m', hcall, _⟩ := pvPortMalloc_of_none h.holds n.isLt hm
          rw [hm] at ht
          rw [← hn] at hcall
          dsimp only at ht
          split at ht
          · next hr =>
            rw [hcall]
            exact ⟨_, if_pos hr.symm⟩
          · cases ht
      | some q =>
          obtain ⟨m', hcall, _⟩ := pvPortMalloc_of_some h.holds hm
          rw [hm] at ht
          rw [← hn] at hcall
          dsimp only at ht
          split at ht
          · next hr =>
            rw [hcall]
            exact ⟨_, if_pos hr.symm⟩
          · cases ht
  | free pv =>
      simp only [Step, next]
      rcases ha with rfl | ⟨x, hx, hpv⟩
      · rw [vPortFree_null]
        exact ⟨_, rfl⟩
      · obtain ⟨m, _, hcall, _⟩ := h.free_live hx hpv
        rw [hcall]
        exact ⟨_, rfl⟩
  | write a v => exact ⟨_, rfl⟩

/-- What an event does to the ledger. -/
def ledger (live : List (Nat × Nat)) : Event → List (Nat × Nat)
  | .malloc xWantedSize pvReturn =>
      if pvReturn = 0 then live else (pvReturn.toNat, xWantedSize.toNat) :: live
  | .free pv => live.filter fun x => x.1 ≠ pv.toNat
  | .write _ _ => live

theorem live_of_step (hs : Step L s e s') : s'.live = ledger s.live e := by
  rw [Step, next.eq_def] at hs
  cases e with
  | malloc n r =>
      dsimp only at hs
      split at hs
      · split at hs
        · next hr =>
          cases hs
          rw [ledger, hr]
        · cases hs
      · cases hs
  | free pv =>
      dsimp only at hs
      split at hs
      · cases hs
        rfl
      · cases hs
  | write a v =>
      cases hs
      rfl

theorem live_of_run {es : List Event} (h : ClientRun L s es s') :
    s'.live = es.foldl ledger s.live := by
  induction h with
  | nil => rfl
  | cons hs _ ih => rw [ih, live_of_step hs.2, List.foldl_cons]

/-! ## The heap among other memory -/

/-- An address of no object of the heap. -/
structure Outside (L : Layout) (z : Nat) : Prop where
  ucHeap : z < L.ucHeap ∨ L.ucHeap + L.totalHeapSize ≤ z
  xStart : z < L.xStart ∨ L.xStart + 8 ≤ z
  static : ∀ v, z < L.static v ∨ L.static v + 4 ≤ z

instance (L : Layout) (z : Nat) : Decidable (Outside L z) :=
  decidable_of_iff ((z < L.ucHeap ∨ L.ucHeap + L.totalHeapSize ≤ z) ∧
      (z < L.xStart ∨ L.xStart + 8 ≤ z) ∧
      ∀ v ∈ [.pxEnd, .xFreeBytesRemaining, .xMinimumEverFreeBytesRemaining, .xBlockAllocatedBit],
        z < L.static v ∨ L.static v + 4 ≤ z)
    ⟨fun ⟨h1, h2, h3⟩ => ⟨h1, h2, fun v => h3 v (by cases v <;> simp)⟩,
      fun ⟨h1, h2, h3⟩ => ⟨h1, h2, fun v _ => h3 v⟩⟩

/-- The heap owns nothing outside its objects. -/
theorem Simulates.not_owned_of_outside {z : Nat} (h : Simulates L s t) (hz : Outside L z) :
    ¬ Owned L t.blocks z := by
  obtain ⟨_, hrep⟩ := h.holds.exists_rep
  have hle := L.le_start
  have hstop := L.stop_le
  have hucHeap := hz.ucHeap
  intro ho
  cases ho with
  | xStart h1 h2 =>
      have := hz.xStart
      omega
  | static v h1 h2 =>
      have := hz.static v
      omega
  | header hx h1 h2 =>
      obtain ⟨⟨hi, _, _⟩, hend, _, h8⟩ := hrep.block hx
      omega
  | free hx h1 h2 =>
      obtain ⟨⟨hi, _, _⟩, hend, _, _⟩ := hrep.block hx
      omega
  | stop h1 h2 =>
      have := L.start_lt_stop
      omega

/-- The heap does not see what happens to bytes that it does not own. -/
theorem Simulates.congr {m : ByteMemory} (h : Simulates L s t)
    (hm : ∀ z, ¬ Outside L z → (∀ x ∈ s.live, z < x.1 ∨ x.1 + x.2 ≤ z) → m z = s.memory z) :
    Simulates L ⟨m, s.live⟩ t := by
  refine ⟨?_, h.backed, h.listed, h.distinct⟩
  refine h.holds.congr fun z hz => hm z (fun ho => h.not_owned_of_outside ho hz) fun x hx => ?_
  rcases Nat.lt_or_ge z x.1 with hlt | hge
  · exact .inl hlt
  · rcases Nat.lt_or_ge z (x.1 + x.2) with hlt | hge'
    · exact absurd hz (h.not_owned hx hge hlt)
    · exact .inr hge'

/-- `pvPortMalloc` returns, whatever it is asked for. -/
theorem Simulates.pvPortMalloc_eq {m : ByteMemory} {live : List (Nat × Nat)}
    (h : Simulates L ⟨m, live⟩ t) (n : Word) :
    ∃ r m' t', pvPortMalloc L m n = some (r, m') ∧ t.Step L (.malloc n r) t' ∧
      Simulates L ⟨m', ledger live (.malloc n r)⟩ t' ∧
      ∀ z, ¬ Owned L t.blocks z → m' z = m z := by
  have hret : ∃ r m', pvPortMalloc L m n = some (r, m') := by
    have hn : n = ptr n.toNat := (BitVec.ofNat_toNat 32 n).symm
    rw [hn]
    cases hm : SecureHeap.malloc L n.toNat t.blocks with
    | none =>
        obtain ⟨m', hcall, _⟩ := pvPortMalloc_of_none h.holds n.isLt hm
        exact ⟨_, m', hcall⟩
    | some q =>
        obtain ⟨m', hcall, _⟩ := pvPortMalloc_of_some h.holds hm
        exact ⟨_, m', hcall⟩
  obtain ⟨r, m', hcall⟩ := hret
  have hs : next L ⟨m, live⟩ (.malloc n r) = some ⟨m', ledger live (.malloc n r)⟩ := by
    rw [next, hcall]
    exact if_pos rfl
  obtain ⟨t', ht, h', hkeep⟩ := h.malloc hs
  exact ⟨r, m', t', hcall, ht, h', hkeep⟩

/-- `vPortFree` returns for `NULL` and for what is lent. -/
theorem Simulates.vPortFree_eq {m : ByteMemory} {live : List (Nat × Nat)} {pv : Word}
    (h : Simulates L ⟨m, live⟩ t) (ha : Allowed ⟨m, live⟩ (.free pv)) :
    ∃ m' t', vPortFree L m pv = some m' ∧ t.Step L (.free pv) t' ∧
      Simulates L ⟨m', ledger live (.free pv)⟩ t' ∧
      ∀ z, ¬ Owned L t.blocks z → m' z = m z := by
  have hret : ∃ m', vPortFree L m pv = some m' := by
    rcases ha with rfl | ⟨x, hx, hpv⟩
    · exact ⟨_, vPortFree_null ..⟩
    · obtain ⟨m', _, hcall, _⟩ := h.free_live hx hpv
      exact ⟨m', hcall⟩
  obtain ⟨m', hcall⟩ := hret
  have hs : next L ⟨m, live⟩ (.free pv) = some ⟨m', ledger live (.free pv)⟩ := by
    rw [next, hcall]
    rfl
  obtain ⟨t', ht, h', hkeep⟩ := h.free ha hs
  exact ⟨m', t', hcall, ht, h', hkeep⟩

/-! ## Every run -/

/-- Two ranges of addresses do not meet. -/
def Disjoint (x y : Nat × Nat) : Prop := x.1 + x.2 ≤ y.1 ∨ y.1 + y.2 ≤ x.1

/-- What is lent lies in the heap and does not meet. -/
theorem Simulates.disjoint (h : Simulates L s t) :
    s.live.Pairwise Disjoint ∧
      ∀ x ∈ s.live, 8 ∣ x.1 ∧ L.ucHeap ≤ x.1 ∧ x.1 + x.2 ≤ L.ucHeap + L.totalHeapSize := by
  constructor
  · refine (List.pairwise_map.mp h.distinct).imp_of_mem fun {x y} hx hy hne => ?_
    obtain ⟨p, k, hp, hpe, _, hk⟩ := h.backed x hx
    obtain ⟨q, j, hq, hqe, _, hj⟩ := h.backed y hy
    rw [Disjoint]
    rcases eq_or_apart hp hq with ⟨he, _⟩ | hlt | hlt
    · cases he
      omega
    · dsimp only at hlt
      omega
    · dsimp only at hlt
      omega
  · intro x hx
    obtain ⟨p, k, hp, hpe, _, hk⟩ := h.backed x hx
    obtain ⟨⟨hi, _, hd⟩, hle, _⟩ := ((h.holds.of_used hp).2).block hp
    have := L.le_start
    have := L.stop_le
    dsimp only at hi hd hle
    exact ⟨by omega, by omega, by omega⟩

/-- Whatever clients that obey the ledger do, every call returns, and what is lent is
aligned, inside the heap and disjoint. -/
theorem heap_safe_of_run {es : List Event} (h : Started L s) (hr : ClientRun L s es s') :
    (∀ n, ∃ ret m, pvPortMalloc L s'.memory n = some (ret, m)) ∧
      (∀ pv, Allowed s' (.free pv) → ∃ m, vPortFree L s'.memory pv = some m) ∧
      s'.live.Pairwise Disjoint ∧
      ∀ x ∈ s'.live, 8 ∣ x.1 ∧ L.ucHeap ≤ x.1 ∧ x.1 + x.2 ≤ L.ucHeap + L.totalHeapSize := by
  obtain ⟨t, _, ht⟩ := (Simulates.init h).run hr
  refine ⟨fun n => ?_, fun pv ha => ?_, ht.disjoint⟩
  · obtain ⟨r, m, _, hcall, _⟩ := ht.pvPortMalloc_eq n
    exact ⟨r, m, hcall⟩
  · obtain ⟨m, _, hcall, _⟩ := ht.vPortFree_eq ha
    exact ⟨m, hcall⟩

/-- The objects of an image, in the order in which a linker might place them. -/
def imageLayout : Layout where
  ucHeap := 0x20000104
  totalHeapSize := secureconfigTotalHeapSize
  xStart := 0x20000000
  static
    | .pxEnd => 0x20000008
    | .xFreeBytesRemaining => 0x2000000c
    | .xMinimumEverFreeBytesRemaining => 0x20000010
    | .xBlockAllocatedBit => 0x20000014
  ucHeap_pos := by decide
  ucHeap_lt := by decide
  large := by decide
  small := by decide
  xStart_lt := by decide
  xStart_apart := by decide
  static_lt v := by cases v <;> decide
  static_ucHeap v := by cases v <;> decide
  static_xStart v := by cases v <;> decide
  static_static v w h := by
    rw [Apart]
    cases v <;> cases w <;> simp at h ⊢

/-- The memory of an image that has been started. -/
def imageState : State := ⟨fun _ => 0, []⟩

theorem started_imageState : Started imageLayout imageState := by
  refine ⟨fun v => ?_, rfl⟩
  cases v <;> decide

/-- A run that is computed. -/
theorem exists_run_of_play (L : Layout) (s : State) (es : List Event)
    (h : (play (guardedNext Allowed (next L)) s es).isSome = true) : ∃ s', ClientRun L s es s' := by
  obtain ⟨s', hs⟩ := Option.isSome_iff_exists.mp h
  have hstep : ∀ s e s', next L s e = some s' → Step L s e s' := fun _ _ _ h => h
  exact ⟨s', Run.of_play_guarded hstep hs⟩

theorem heap_safe_of_run_image : ∃ s', ClientRun imageLayout imageState
    [.malloc 100 0x20000110, .malloc 20 0x20000180, .free 0x20000110, .write 0x20000181 7] s' ∧
    (∀ n, ∃ ret m, pvPortMalloc imageLayout s'.memory n = some (ret, m)) ∧
    (∀ pv, Allowed s' (.free pv) → ∃ m, vPortFree imageLayout s'.memory pv = some m) ∧
    s'.live.Pairwise Disjoint ∧
    ∀ x ∈ s'.live, 8 ∣ x.1 ∧ 0x20000104 ≤ x.1 ∧ x.1 + x.2 ≤ 0x20000104 + 10 * 1024 := by
  obtain ⟨s', hrun⟩ := exists_run_of_play imageLayout imageState
    [.malloc 100 0x20000110, .malloc 20 0x20000180, .free 0x20000110, .write 0x20000181 7]
    (by decide +kernel)
  exact ⟨s', hrun, heap_safe_of_run started_imageState hrun⟩

end SecureHeap
