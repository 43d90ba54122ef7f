import PicoTrustZone.Context.FreeList
import PicoTrustZone.Lib.LifoPool
import Mathlib.Data.List.Nodup

/-!
# The context manager as a LIFO pool

`Pool` says what the context manager is for.  It is not initialised, or it is a
LIFO pool of identifiers with a saved stack pointer for each live one.  Next to
it stand the three registers.  There is no memory: the stacks belong to the
clients, and where the free list is kept is no business of theirs.

`Rep` relates a state of the code to a pool.  Every call of the code returns
what the pool returns and keeps the relation (`Rep.call`), whatever the
identifier and the registers are, and client steps are invisible to the pool
except for the registers.  `pool_refines_run` is the simulation over whole
runs.
-/

namespace TzContext

variable {cfg : Config} {s s' : State}

/-! ## The abstract pool -/

/-- The identifiers, in the order a fresh pool hands them out. -/
def Config.ids (cfg : Config) : List Word :=
  (List.range cfg.slots).map fun n => BitVec.ofNat 32 (n + 1)

/-- The lowest address of the stack of an identifier. -/
def Config.idBase (cfg : Config) (id : Word) : Word := BitVec.ofNat 32 (cfg.slotBase (id - 1).toNat)

/-- One past the highest address of the stack of an identifier. -/
def Config.idTop (cfg : Config) (id : Word) : Word := BitVec.ofNat 32 (cfg.slotTop (id - 1).toNat)

/-- The address of the whole pool. -/
def Config.poolBase (cfg : Config) : Word := BitVec.ofNat 32 cfg.base

theorem Config.ids_nodup (cfg : Config) : cfg.ids.Nodup := by
  refine List.Nodup.map_on ?_ List.nodup_range
  intro a ha b hb hab
  have hlt := cfg.slots_lt
  have ha' : a < cfg.slots := List.mem_range.mp ha
  have hb' : b < cfg.slots := List.mem_range.mp hb
  have heq := congrArg BitVec.toNat hab
  simp only [BitVec.toNat_ofNat] at heq
  omega

/-- The abstract state. -/
structure Pool where
  /-- `none` before the first initialisation. -/
  slots : Option (LifoPool Word Word)
  psp : Word
  psplim : Word
  control : Word

namespace Pool

/-- The saved stack pointer of an identifier, if it is live. -/
def saved (p : Pool) (id : Word) : Option Word := p.slots.bind fun q => q.saved id

/-- `PSP` lies in the closed window of an identifier. -/
def InWindow (p : Pool) (cfg : Config) (id : Word) : Prop :=
  cfg.slotBase (id - 1).toNat ≤ p.psp.toNat ∧ p.psp.toNat ≤ cfg.slotTop (id - 1).toNat

instance (p : Pool) (cfg : Config) (id : Word) : Decidable (p.InWindow cfg id) :=
  inferInstanceAs (Decidable (_ ∧ _))

/-- What a call returns and what it does to the pool. -/
def call (cfg : Config) (ipsr : Word) (p : Pool) : Entry → Word × Pool
  | .init =>
      if ipsr = 0 then (0, p)
      else (1, ⟨some (.full cfg.ids cfg.ids_nodup), cfg.poolBase, cfg.poolBase, 2⟩)
  | .alloc _ =>
      match p.slots.bind fun q => q.take cfg.idTop with
      | some (id, q) => if ipsr = 0 then (0, p) else (id, { p with slots := some q })
      | none => (0, p)
  | .free id =>
      match p.slots.bind fun q => q.give id with
      | some q => if ipsr = 0 then (0, p) else (1, { p with slots := some q })
      | none => (0, p)
  | .load id =>
      match p.saved id with
      | some sp =>
          if ipsr = 0 ∨ p.control &&& 2 = 0 then (0, p)
          else (1, { p with psplim := cfg.idBase id, psp := sp })
      | none => (0, p)
  | .store id =>
      match p.slots.bind fun q => q.put id p.psp with
      | some q =>
          if (ipsr = 0 ∨ p.control &&& 2 = 0) ∨ ¬ p.InWindow cfg id then (0, p)
          else (1, { p with slots := some q, psp := cfg.poolBase, psplim := cfg.poolBase })
      | none => (0, p)

/-- One event, as the pool sees it. -/
def Step (cfg : Config) (p : Pool) : Event → Pool → Prop
  | .call ipsr entry ret, p' => p.call cfg ipsr entry = (ret, p')
  | .setPsp v, p' => p' = { p with psp := v }
  | .setControl v, p' => p' = { p with control := v }
  | .write _ _, p' => p' = p

/-- The pool before the first initialisation. -/
def reset (s : State) : Pool := ⟨none, s.psp, s.psplim, s.control⟩

end Pool

/-! ## The representation relation -/

/-- The saved stack pointer of an identifier in the code's records. -/
def State.savedSp (s : State) (cfg : Config) (id : Word) : Option Word :=
  if s.Live cfg id then some (s.sp (id - 1).toNat) else none

/-- A state of the code represents a pool. -/
inductive Rep (cfg : Config) (s : State) : Pool → Prop where
  | dormant : Dormant s → Rep cfg s ⟨none, s.psp, s.psplim, s.control⟩
  | ready {q : LifoPool Word Word} {l : List Word} : Records cfg s → FreeList cfg s l →
      q.free = l.map (· + 1) → q.saved = s.savedSp cfg →
      Rep cfg s ⟨some q, s.psp, s.psplim, s.control⟩

theorem rep_reset (h : IsReset s) : Rep cfg s (Pool.reset s) := .dormant (dormant_of_isReset h)

theorem State.savedSp_of_live {id : Word} (h : s.Live cfg id) :
    s.savedSp cfg id = some (s.sp (id - 1).toNat) := if_pos h

theorem State.savedSp_of_not_live {id : Word} (h : ¬ s.Live cfg id) : s.savedSp cfg id = none :=
  if_neg h

/-- The identifier a slot index is returned as is valid. -/
theorem Config.validId_add_one {slot : Word} (h : slot.toNat < cfg.slots) :
    cfg.ValidId (slot + 1) := by
  have hlt := cfg.slots_lt
  constructor
  · intro h0
    bv_omega
  · bv_omega

theorem add_one_sub_one (slot : Word) : slot + 1 - 1 = slot := by bv_omega

theorem State.savedSp_congr {id : Word} (h : s'.sp (id - 1).toNat = s.sp (id - 1).toNat) :
    s'.savedSp cfg id = s.savedSp cfg id := by
  by_cases hl : s.Live cfg id
  · have hl' : s'.Live cfg id := ⟨hl.1, by rw [h]; exact hl.2⟩
    rw [savedSp_of_live hl, savedSp_of_live hl', h]
  · have hl' : ¬ s'.Live cfg id := fun h' => hl ⟨h'.1, by rw [← h]; exact h'.2⟩
    rw [savedSp_of_not_live hl, savedSp_of_not_live hl']

/-- Setting the stack pointer of a slot changes the saved pointer of its
identifier and of no other. -/
theorem State.savedSp_setSp {id : Word} (hid : cfg.ValidId id) (v : Word) :
    (s.setSp (id - 1).toNat v).savedSp cfg =
      Function.update (s.savedSp cfg) id (if v = 0 then none else some v) := by
  funext j
  rcases eq_or_ne j id with rfl | hj
  · rw [Function.update_self]
    by_cases hv : v = 0
    · rw [if_pos hv]
      exact savedSp_of_not_live fun h => h.2 (by rw [setSp_sp_self]; exact hv)
    · have hl : (s.setSp (j - 1).toNat v).Live cfg j :=
        ⟨hid, by rw [setSp_sp_self]; exact hv⟩
      rw [if_neg hv, savedSp_of_live hl, setSp_sp_self]
  · have hne : (j - 1).toNat ≠ (id - 1).toNat := toNat_inj fun h => hj (by bv_omega)
    rw [Function.update_of_ne hj]
    exact savedSp_congr (setSp_sp_ne v hne)

/-- The free slots after the initialisation, as identifiers. -/
theorem Config.ids_eq (cfg : Config) :
    cfg.ids = ((List.range cfg.slots).map (BitVec.ofNat 32)).map (· + 1) := by
  rw [List.map_map]
  exact List.map_congr_left fun n _ => BitVec.ofNat_add n 1

theorem savedSp_initialise (s : State) :
    (s.initialise cfg).savedSp cfg = fun _ => none := by
  funext id
  exact State.savedSp_of_not_live fun h => h.2 (State.initialise_sp s h.1.slot_lt)

/-! ## Simulation of a call -/

theorem Rep.call_init {p : Pool} (h : Rep cfg s p) (ipsr : Word) :
    ∃ s', exec cfg ipsr .init s = some ((p.call cfg ipsr .init).1, s') ∧
      Rep cfg s' (p.call cfg ipsr .init).2 := by
  rw [exec, tzInitContextSystemS_eq, Pool.call]
  split
  · exact ⟨s, rfl, h⟩
  · exact ⟨s.initialise cfg, rfl, .ready (records_initialise s) (freeList_initialise s)
      cfg.ids_eq (savedSp_initialise s).symm⟩

theorem Rep.call_alloc {p : Pool} (h : Rep cfg s p) (ipsr module : Word) :
    ∃ s', exec cfg ipsr (.alloc module) s = some ((p.call cfg ipsr (.alloc module)).1, s') ∧
      Rep cfg s' (p.call cfg ipsr (.alloc module)).2 := by
  rw [exec, tzAllocModuleContextS_eq]
  cases h with
  | dormant hd =>
      rw [if_pos (Or.inr hd.head)]
      exact ⟨s, rfl, .dormant hd⟩
  | @ready q l hrec hfree hq hsaved =>
      simp only [Pool.call, Option.bind_some]
      by_cases hn : s.processStackFreeSlot = noSlot
      · have hl : l = [] := by
          have hc := hfree.chain
          rw [hn] at hc
          exact hc.eq_nil
        rw [hl] at hq
        rw [if_pos (Or.inr hn), LifoPool.take_of_nil _ hq]
        exact ⟨s, rfl, .ready hrec hfree (by rw [hl]; exact hq) hsaved⟩
      · have hlt := (hfree.head_cases.resolve_left hn).1
        obtain ⟨t, rfl, ht⟩ := hfree.popSlot hn (hrec.top_ne_zero hlt)
        obtain ⟨q', htake, hq', hsaved'⟩ := LifoPool.take_of_cons cfg.idTop hq
        rw [htake]
        by_cases hi : ipsr = 0
        · simp only [if_pos hi, if_pos (Or.inl hi : ipsr = 0 ∨ s.processStackFreeSlot = noSlot)]
          exact ⟨s, rfl, .ready hrec hfree hq hsaved⟩
        · rw [if_neg (not_or.mpr ⟨hi, hn⟩), if_pos hlt]
          simp only [if_neg hi]
          have hready : Ready cfg (s.popSlot cfg) :=
            Ready.effect ⟨hrec, _, hfree⟩ (.alloc module hn hlt)
          refine ⟨s.popSlot cfg, rfl, .ready hready.records ht hq' ?_⟩
          -- the slot of the identifier handed out gets the top of its stack
          have hid := Config.validId_add_one hlt
          have htop : (s.processStackInfo s.processStackFreeSlot.toNat).spTop =
              cfg.idTop (s.processStackFreeSlot + 1) := by
            rw [hrec.top _ hlt, Config.idTop, add_one_sub_one]
          have hset := State.savedSp_setSp
            (s := s.setHead (s.link cfg s.processStackFreeSlot.toNat)) hid
            (s.processStackInfo s.processStackFreeSlot.toNat).spTop
          rw [add_one_sub_one, if_neg (hrec.top_ne_zero hlt)] at hset
          rw [hsaved', hsaved, ← htop, State.popSlot, hset]
          rfl

theorem Rep.call_free {p : Pool} (h : Rep cfg s p) (ipsr id : Word) :
    ∃ s', exec cfg ipsr (.free id) s = some ((p.call cfg ipsr (.free id)).1, s') ∧
      Rep cfg s' (p.call cfg ipsr (.free id)).2 := by
  rw [exec, tzFreeModuleContextS_eq]
  cases h with
  | dormant hd =>
      rw [if_neg fun hg => hg.2.2 (hd.inactive _)]
      exact ⟨s, rfl, .dormant hd⟩
  | @ready q l hrec hfree hq hsaved =>
      simp only [Pool.call, Option.bind_some]
      by_cases hlive : s.Live cfg id
      · have hsome : q.saved id = some (s.sp (id - 1).toNat) := by
          rw [hsaved, State.savedSp_of_live hlive]
        obtain ⟨q', hgive, hq', hsaved'⟩ := LifoPool.give_of_some hsome
        rw [hgive]
        by_cases hi : ipsr = 0
        · rw [if_neg fun hg => hg.1 hi]
          simp only [if_pos hi]
          exact ⟨s, rfl, .ready hrec hfree hq hsaved⟩
        · rw [if_pos ⟨hi, hlive⟩]
          simp only [if_neg hi]
          have hready : Ready cfg (s.pushSlot cfg (id - 1)) :=
            Ready.effect ⟨hrec, _, hfree⟩ (.free id hlive)
          refine ⟨_, rfl, .ready hready.records (hfree.pushSlot hlive.1.slot_lt hlive.2) ?_ ?_⟩
          · have hback : id - 1 + 1 = id := by bv_omega
            rw [hq', hq, List.map_cons, hback]
          · rw [hsaved', hsaved]
            exact (State.savedSp_setSp hlive.1 0).symm
      · have hnone : q.saved id = none := by rw [hsaved, State.savedSp_of_not_live hlive]
        rw [if_neg fun hg => hlive hg.2, LifoPool.give_of_none hnone]
        exact ⟨s, rfl, .ready hrec hfree hq hsaved⟩

theorem Rep.call_load {p : Pool} (h : Rep cfg s p) (ipsr id : Word) :
    ∃ s', exec cfg ipsr (.load id) s = some ((p.call cfg ipsr (.load id)).1, s') ∧
      Rep cfg s' (p.call cfg ipsr (.load id)).2 := by
  rw [exec, tzLoadContextS_eq]
  cases h with
  | dormant hd =>
      rw [if_neg fun hg => hg.2.2 (hd.inactive _)]
      exact ⟨s, rfl, .dormant hd⟩
  | @ready q l hrec hfree hq hsaved =>
      simp only [Pool.call, Pool.saved, Option.bind_some, hsaved]
      by_cases hlive : s.Live cfg id
      · rw [State.savedSp_of_live hlive]
        by_cases hi : ipsr = 0 ∨ s.control &&& 2 = 0
        · rw [if_neg fun hg => hi.elim hg.1.1 hg.1.2]
          simp only [if_pos hi]
          exact ⟨s, rfl, .ready hrec hfree hq hsaved⟩
        · rw [if_pos ⟨not_or.mp hi, hlive⟩]
          simp only [if_neg hi]
          have hbase : (s.processStackInfo (id - 1).toNat).spLimit = cfg.idBase id :=
            hrec.limit _ hlive.1.slot_lt
          rw [← hbase]
          exact ⟨s.loadSlot (id - 1), rfl, .ready (hrec.congr rfl)
            (hfree.congr rfl (fun _ _ _ => rfl) fun _ _ => .rfl) hq hsaved⟩
      · rw [if_neg fun hg => hlive hg.2, State.savedSp_of_not_live hlive]
        exact ⟨s, rfl, .ready hrec hfree hq hsaved⟩

theorem Rep.call_store {p : Pool} (h : Rep cfg s p) (ipsr id : Word) :
    ∃ s', exec cfg ipsr (.store id) s = some ((p.call cfg ipsr (.store id)).1, s') ∧
      Rep cfg s' (p.call cfg ipsr (.store id)).2 := by
  rw [exec, tzStoreContextS_eq]
  cases h with
  | dormant hd =>
      rw [if_neg fun hg => hg.2.1.2 (hd.inactive _)]
      exact ⟨s, rfl, .dormant hd⟩
  | @ready q l hrec hfree hq hsaved =>
      simp only [Pool.call, Option.bind_some]
      by_cases hlive : s.Live cfg id
      · have hsome : q.saved id = some (s.sp (id - 1).toNat) := by
          rw [hsaved, State.savedSp_of_live hlive]
        obtain ⟨q', hput, hq', hsaved'⟩ := LifoPool.put_of_some s.psp hsome
        rw [hput]
        have hwindow := hrec.inRange_iff hlive.1.slot_lt
        by_cases hg : (ipsr = 0 ∨ s.control &&& 2 = 0) ∨
            ¬ Pool.InWindow ⟨some q, s.psp, s.psplim, s.control⟩ cfg id
        · rw [if_neg]
          · simp only [if_pos hg]
            exact ⟨s, rfl, .ready hrec hfree hq hsaved⟩
          · rintro ⟨hi, _, hr⟩
            exact hg.elim (fun h => h.elim hi.1 hi.2) fun hw => hw (hwindow.mp hr)
        · obtain ⟨hi, hw⟩ := not_or.mp hg
          have hr : s.InRange (id - 1) := hwindow.mpr (Classical.not_not.mp hw)
          obtain ⟨hi0, hc⟩ := not_or.mp hi
          rw [if_pos ⟨⟨hi0, hc⟩, hlive, hr⟩]
          simp only [if_neg hg]
          have hpsp : s.psp ≠ 0 := cfg.ne_zero_of_slotBase_le (hwindow.mp hr).1
          have heffect : Effect cfg s (.store id) 1 (s.storeSlot cfg (id - 1)) :=
            .store id hc hlive hr
          have hrec' : Records cfg (s.storeSlot cfg (id - 1)) :=
            (Ready.effect ⟨hrec, _, hfree⟩ heffect).records
          refine ⟨s.storeSlot cfg (id - 1), rfl, .ready hrec' (hfree.storeSlot hlive hpsp) ?_ ?_⟩
          · rw [hq', hq]
          · rw [hsaved', hsaved]
            have hset := State.savedSp_setSp (s := s) hlive.1 s.psp
            rw [if_neg hpsp] at hset
            exact hset.symm
      · have hnone : q.saved id = none := by rw [hsaved, State.savedSp_of_not_live hlive]
        rw [if_neg fun hg => hlive hg.2.1, LifoPool.put_of_none _ hnone]
        exact ⟨s, rfl, .ready hrec hfree hq hsaved⟩

/-- A call of the code never faults, returns what the pool returns and keeps
the representation. -/
theorem Rep.call {p : Pool} (h : Rep cfg s p) (ipsr : Word) (e : Entry) :
    ∃ s', exec cfg ipsr e s = some ((p.call cfg ipsr e).1, s') ∧
      Rep cfg s' (p.call cfg ipsr e).2 := by
  cases e with
  | init => exact h.call_init ipsr
  | alloc module => exact h.call_alloc ipsr module
  | free id => exact h.call_free ipsr id
  | load id => exact h.call_load ipsr id
  | store id => exact h.call_store ipsr id

/-! ## Simulation of a run -/

/-- A pool that a state represents has its registers. -/
theorem Rep.eq_mk {p : Pool} (h : Rep cfg s p) : p = ⟨p.slots, s.psp, s.psplim, s.control⟩ := by
  cases h with
  | dormant _ => rfl
  | ready _ _ _ _ => rfl

/-- A state with the same records, head and links of the inactive slots represents
the same slots. -/
theorem Rep.frame {p : Pool} (h : Rep cfg s p)
    (hinfo : s'.processStackInfo = s.processStackInfo)
    (hhead : s'.processStackFreeSlot = s.processStackFreeSlot)
    (hlink : ∀ n < cfg.slots, s.sp n = 0 → s'.link cfg n = s.link cfg n) :
    Rep cfg s' ⟨p.slots, s'.psp, s'.psplim, s'.control⟩ := by
  have hsp : ∀ n, s'.sp n = s.sp n := fun n => by rw [State.sp, State.sp, hinfo]
  cases h with
  | dormant hd => exact .dormant ⟨hhead.trans hd.head, fun n => (hsp n).trans (hd.inactive n)⟩
  | ready hrec hfree hq hsaved =>
      refine .ready (hrec.congr hinfo) (hfree.congr hhead hlink fun n _ => by rw [hsp]) hq ?_
      rw [hsaved]
      funext id
      exact (State.savedSp_congr (hsp _)).symm

/-- Every client step of the code is a step of the pool. -/
theorem Rep.step {p : Pool} (h : Rep cfg s p) {e : Event} (hs : ClientStep cfg s e s') :
    ∃ p', p.Step cfg e p' ∧ Rep cfg s' p' := by
  obtain ⟨hallowed, hstep⟩ := hs
  cases e with
  | call ipsr entry ret =>
      obtain ⟨s₁, hexec, hrep⟩ := h.call ipsr entry
      obtain ⟨hret, rfl⟩ := Prod.mk.inj (Option.some.inj (hexec.symm.trans hstep))
      exact ⟨_, Prod.ext hret rfl, hrep⟩
  | setPsp v =>
      cases hstep
      refine ⟨_, rfl, ?_⟩
      rw [h.eq_mk]
      exact h.frame rfl rfl fun _ _ _ => rfl
  | setControl v =>
      cases hstep
      refine ⟨_, rfl, ?_⟩
      rw [h.eq_mk]
      exact h.frame rfl rfl fun _ _ _ => rfl
  | write addr v =>
      cases hstep
      refine ⟨p, rfl, ?_⟩
      rw [h.eq_mk]
      exact h.frame rfl rfl fun _ _ h0 => link_write_of_inAllocated hallowed h0

/-- **The code refines the pool.**  Every run of the code, with any calls and
any client steps, is a run of the pool with the same returned values, and ends
in a state that represents the pool's.  From there on again every call returns
what the pool returns. -/
theorem pool_refines_run {es : List Event} (h0 : IsReset s) (hr : ClientRun cfg s es s') :
    ∃ p, Transition.Run (Pool.Step cfg) (Pool.reset s) es p ∧ Rep cfg s' p ∧
      ∀ ipsr e, ∃ s'', exec cfg ipsr e s' = some ((p.call cfg ipsr e).1, s'') ∧
        Rep cfg s'' (p.call cfg ipsr e).2 := by
  have hstep : ∀ (s : State) (p : Pool) (e : Event) (s' : State), Rep cfg s p →
      ClientStep cfg s e s' → ∃ p', p.Step cfg e p' ∧ Rep cfg s' p' :=
    fun _ _ _ _ hrep hs => hrep.step hs
  obtain ⟨p, hrun, hrep⟩ := hr.simulate hstep (rep_reset h0)
  exact ⟨p, hrun, hrep, hrep.call⟩

theorem pool_refines_run_small :
    ∃ p, Transition.Run (Pool.Step .small) (Pool.reset .zero) smallEvents p ∧
      Rep .small smallState p ∧
      ∀ ipsr e, ∃ s'', exec .small ipsr e smallState = some ((p.call .small ipsr e).1, s'') ∧
        Rep .small s'' (p.call .small ipsr e).2 :=
  pool_refines_run isReset_zero clientRun_small

end TzContext
