import PicoTrustZone.Context.Entries
import PicoTrustZone.Lib.LinkedChain
import Mathlib.Data.List.Range

/-!
# The free list

After `TZ_InitContextSystem_S` the inactive slots form a chain through the
first words of their own stacks (`FreeList`).  The chain is correct only
together with the records: a link word is meaningful while its slot is
inactive, and a stored stack pointer doubles as the active mark, so a stored 0
would take a slot off the pool for good.  `Ready` is the invariant that couples
the three.  It holds after the first initialisation and every call and every
client step preserves it.  Before the first initialisation the state is
`Dormant`, and every entry but the initialisation refuses.

`freeList_of_run` reads both off for an arbitrary run.
-/

namespace TzContext

variable {cfg : Config} {s s' : State}

/-! ## The invariants -/

/-- The slot a free-list link leads to. -/
def State.next (s : State) (cfg : Config) (slot : Word) : Word := s.link cfg slot.toNat

/-- The chain from `ProcessStackFreeSlot` visits `l`, which is exactly the
inactive slots. -/
structure FreeList (cfg : Config) (s : State) (l : List Word) : Prop where
  chain : Chain (s.next cfg) noSlot s.processStackFreeSlot l
  mem_iff : ∀ slot : Word, slot ∈ l ↔ slot.toNat < cfg.slots ∧ s.sp slot.toNat = 0

/-- The records of the slots describe the slots' own stacks, and a saved stack
pointer points into the stack of its slot or one past its top. -/
structure Records (cfg : Config) (s : State) : Prop where
  limit : ∀ n < cfg.slots, (s.processStackInfo n).spLimit = BitVec.ofNat 32 (cfg.slotBase n)
  top : ∀ n < cfg.slots, (s.processStackInfo n).spTop = BitVec.ofNat 32 (cfg.slotTop n)
  saved : ∀ n < cfg.slots, s.sp n ≠ 0 →
    cfg.slotBase n ≤ (s.sp n).toNat ∧ (s.sp n).toNat ≤ cfg.slotTop n

/-- The invariant of the initialised context manager. -/
structure Ready (cfg : Config) (s : State) : Prop where
  records : Records cfg s
  freeList : ∃ l, FreeList cfg s l

/-- The state before the first initialisation. -/
structure Dormant (s : State) : Prop where
  head : s.processStackFreeSlot = noSlot
  inactive : ∀ n, s.sp n = 0

theorem dormant_of_isReset (h : IsReset s) : Dormant s :=
  ⟨h.1, fun n => by rw [State.sp, h.2 n]⟩

/-! ## Addresses as words -/

theorem Config.toNat_slotBase {n : Nat} (h : n < cfg.slots) :
    (BitVec.ofNat 32 (cfg.slotBase n)).toNat = cfg.slotBase n := by
  rw [BitVec.toNat_ofNat, Nat.mod_eq_of_lt (cfg.slotBase_lt h)]

theorem Config.toNat_slotTop {n : Nat} (h : n < cfg.slots) :
    (BitVec.ofNat 32 (cfg.slotTop n)).toNat = cfg.slotTop n := by
  rw [BitVec.toNat_ofNat, Nat.mod_eq_of_lt (cfg.slotTop_lt h)]

/-- `sp_top` as the initialisation computes it. -/
theorem Config.slotInfo_spTop (cfg : Config) (n : Nat) :
    (cfg.slotInfo n).spTop = BitVec.ofNat 32 (cfg.slotTop n) := by
  rw [slotInfo, slotTop, BitVec.ofNat_add]

theorem Records.toNat_limit (h : Records cfg s) {n : Nat} (hn : n < cfg.slots) :
    (s.processStackInfo n).spLimit.toNat = cfg.slotBase n := by
  rw [h.limit n hn, Config.toNat_slotBase hn]

theorem Records.toNat_top (h : Records cfg s) {n : Nat} (hn : n < cfg.slots) :
    (s.processStackInfo n).spTop.toNat = cfg.slotTop n := by
  rw [h.top n hn, Config.toNat_slotTop hn]

/-- A `PSP` that passes the range test lies in the closed window of the slot. -/
theorem Records.inRange_iff (h : Records cfg s) {slot : Word} (hn : slot.toNat < cfg.slots) :
    s.InRange slot ↔
      cfg.slotBase slot.toNat ≤ s.psp.toNat ∧ s.psp.toNat ≤ cfg.slotTop slot.toNat := by
  rw [State.InRange, BitVec.le_def, BitVec.le_def, h.toNat_limit hn, h.toNat_top hn]

/-- An address in the window of a slot is not the null pointer. -/
theorem Config.ne_zero_of_slotBase_le (cfg : Config) {n : Nat} {v : Word}
    (h : cfg.slotBase n ≤ v.toNat) : v ≠ 0 := by
  have hpos := cfg.slotBase_pos n
  intro h0
  rw [h0] at h
  exact absurd h (Nat.not_le.mpr hpos)

theorem Records.top_ne_zero (h : Records cfg s) {n : Nat} (hn : n < cfg.slots) :
    (s.processStackInfo n).spTop ≠ 0 := by
  refine cfg.ne_zero_of_slotBase_le (n := n) ?_
  rw [h.toNat_top hn]
  exact Nat.le_add_right _ _

/-! ## Records under updates -/

/-- The records only depend on `ProcessStackInfo`. -/
theorem Records.congr (h : Records cfg s) (hi : s'.processStackInfo = s.processStackInfo) :
    Records cfg s' := by
  have hsp : ∀ n, s'.sp n = s.sp n := fun n => by rw [State.sp, State.sp, hi]
  constructor
  · intro n hn
    rw [hi]
    exact h.limit n hn
  · intro n hn
    rw [hi]
    exact h.top n hn
  · intro n hn hne
    rw [hsp] at hne ⊢
    exact h.saved n hn hne

/-- A slot may get the null pointer or a pointer into its own window. -/
theorem Records.setSp (h : Records cfg s) {n : Nat} {v : Word}
    (hv : v ≠ 0 → cfg.slotBase n ≤ v.toNat ∧ v.toNat ≤ cfg.slotTop n) :
    Records cfg (s.setSp n v) := by
  constructor
  · intro k hk
    rw [State.setSp_spLimit]
    exact h.limit k hk
  · intro k hk
    rw [State.setSp_spTop]
    exact h.top k hk
  · intro k hk hne
    rcases eq_or_ne k n with rfl | hkn
    · rw [State.setSp_sp_self] at hne ⊢
      exact hv hne
    · rw [State.setSp_sp_ne v hkn] at hne ⊢
      exact h.saved k hk hne

theorem records_initialise (s : State) : Records cfg (s.initialise cfg) := by
  constructor
  · intro n hn
    rw [State.initialise_info s hn]
    rfl
  · intro n hn
    rw [State.initialise_info s hn, Config.slotInfo_spTop]
  · intro n hn hne
    exact absurd (State.initialise_sp s hn) hne

/-! ## The free list under updates -/

theorem toNat_inj {a b : Word} (h : a ≠ b) : a.toNat ≠ b.toNat := fun he =>
  h (BitVec.eq_of_toNat_eq he)

theorem Config.noSlot_not_lt (cfg : Config) : ¬ noSlot.toNat < cfg.slots := by
  have hlt := cfg.slots_lt
  have heq : noSlot.toNat = 0xFFFFFFFF := rfl
  omega

theorem Config.ne_noSlot_of_lt (cfg : Config) {slot : Word} (h : slot.toNat < cfg.slots) :
    slot ≠ noSlot := by
  intro he
  rw [he] at h
  exact cfg.noSlot_not_lt h

/-- The head of the free list is the end mark or an inactive slot. -/
theorem FreeList.head_cases {l : List Word} (h : FreeList cfg s l) :
    s.processStackFreeSlot = noSlot ∨
      s.processStackFreeSlot.toNat < cfg.slots ∧ s.sp s.processStackFreeSlot.toNat = 0 := by
  by_cases hn : s.processStackFreeSlot = noSlot
  · exact Or.inl hn
  · obtain ⟨t, rfl, _⟩ := h.chain.pop hn
    exact Or.inr ((h.mem_iff _).mp (List.mem_cons_self ..))

/-- A free list survives an update that keeps the head, the links of the
inactive slots and the active marks. -/
theorem FreeList.congr {l : List Word} (h : FreeList cfg s l)
    (hhead : s'.processStackFreeSlot = s.processStackFreeSlot)
    (hlink : ∀ n < cfg.slots, s.sp n = 0 → s'.link cfg n = s.link cfg n)
    (hsp : ∀ n < cfg.slots, s'.sp n = 0 ↔ s.sp n = 0) : FreeList cfg s' l := by
  constructor
  · rw [hhead]
    refine h.chain.congr fun slot hslot => ?_
    obtain ⟨hlt, h0⟩ := (h.mem_iff slot).mp hslot
    exact hlink _ hlt h0
  · intro slot
    rw [h.mem_iff slot]
    constructor
    · rintro ⟨hlt, h0⟩
      exact ⟨hlt, (hsp _ hlt).mpr h0⟩
    · rintro ⟨hlt, h0⟩
      exact ⟨hlt, (hsp _ hlt).mp h0⟩

/-- Taking the head slot leaves the rest of the list. -/
theorem FreeList.popSlot {l : List Word} (h : FreeList cfg s l)
    (hne : s.processStackFreeSlot ≠ noSlot)
    (htop : (s.processStackInfo s.processStackFreeSlot.toNat).spTop ≠ 0) :
    ∃ t, l = s.processStackFreeSlot :: t ∧ FreeList cfg (s.popSlot cfg) t := by
  obtain ⟨t, rfl, ht⟩ := h.chain.pop hne
  have hnot : s.processStackFreeSlot ∉ t := (List.nodup_cons.mp h.chain.nodup).1
  refine ⟨t, rfl, ht, fun slot => ?_⟩
  rcases eq_or_ne slot s.processStackFreeSlot with rfl | hs
  · constructor
    · intro hmem
      exact absurd hmem hnot
    · rintro ⟨_, h0⟩
      rw [State.popSlot, State.setSp_sp_self] at h0
      exact absurd h0 htop
  · rw [State.popSlot, State.setSp_sp_ne _ (toNat_inj hs), State.setHead_sp, ← h.mem_iff slot]
    simp [hs]

/-- Pushing an active slot puts it in front of the list. -/
theorem FreeList.pushSlot {l : List Word} (h : FreeList cfg s l) {slot : Word}
    (hlt : slot.toNat < cfg.slots) (hactive : s.sp slot.toNat ≠ 0) :
    FreeList cfg (s.pushSlot cfg slot) (slot :: l) := by
  have hnot : slot ∉ l := fun hmem => hactive ((h.mem_iff slot).mp hmem).2
  constructor
  · refine h.chain.push (cfg.ne_noSlot_of_lt hlt) (State.setLink_link_self _ _ _) fun c hc => ?_
    have hne : c ≠ slot := fun he => hnot (he ▸ hc)
    exact State.setLink_link_ne _ (toNat_inj hne)
  · intro c
    rcases eq_or_ne c slot with rfl | hc
    · simp [State.pushSlot, hlt]
    · rw [List.mem_cons, or_iff_right hc, h.mem_iff c, State.pushSlot, State.setHead_sp,
        State.setLink_sp, State.setSp_sp_ne _ (toNat_inj hc)]

/-- Storing a stack pointer other than null keeps the active marks. -/
theorem FreeList.storeSlot {l : List Word} (h : FreeList cfg s l) {id : Word}
    (hlive : s.Live cfg id) (hpsp : s.psp ≠ 0) : FreeList cfg (s.storeSlot cfg (id - 1)) l := by
  refine h.congr rfl (fun _ _ _ => rfl) fun n _ => ?_
  rw [State.storeSlot, State.setStack_sp]
  rcases eq_or_ne n ((id - 1).toNat) with rfl | hn
  · rw [State.setSp_sp_self]
    exact iff_of_false hpsp hlive.2
  · rw [State.setSp_sp_ne _ hn]

/-- The chain the initialisation builds, from slot `k` on. -/
theorem chain_initialise (cfg : Config) (s : State) : ∀ (m k : Nat), k + m + 1 = cfg.slots →
    Chain ((s.initialise cfg).next cfg) noSlot (BitVec.ofNat 32 k)
      ((List.range' k (m + 1)).map (BitVec.ofNat 32))
  | 0, k, h => by
      have hk : k < cfg.slots := by omega
      have hlast : k = cfg.slots - 1 := by omega
      have hw : (BitVec.ofNat 32 k).toNat = k := toNat_ofNat_slot hk
      refine .cons (cfg.ne_noSlot_of_lt (by rw [hw]; exact hk)) ?_
      rw [State.next, hw, hlast, State.initialise_link_last]
      exact .nil
  | m + 1, k, h => by
      have hk : k < cfg.slots := by omega
      have hw : (BitVec.ofNat 32 k).toNat = k := toNat_ofNat_slot hk
      have ih := chain_initialise cfg s m (k + 1) (by omega)
      rw [List.range'_succ, List.map_cons]
      refine .cons (cfg.ne_noSlot_of_lt (by rw [hw]; exact hk)) ?_
      rw [State.next, hw, State.initialise_link s (by omega)]
      rw [BitVec.ofNat_add] at ih
      exact ih

/-- After the initialisation the free list is `0, 1, ..., N - 1`. -/
theorem freeList_initialise (s : State) :
    FreeList cfg (s.initialise cfg) ((List.range cfg.slots).map (BitVec.ofNat 32)) := by
  have hpos := cfg.slots_pos
  constructor
  · have hc := chain_initialise cfg s (cfg.slots - 1) 0 (by omega)
    rw [Nat.sub_add_cancel hpos, ← List.range_eq_range'] at hc
    exact hc
  · intro slot
    constructor
    · intro hmem
      obtain ⟨n, hn, rfl⟩ := List.mem_map.mp hmem
      have hlt : n < cfg.slots := List.mem_range.mp hn
      rw [toNat_ofNat_slot hlt]
      exact ⟨hlt, State.initialise_sp s hlt⟩
    · rintro ⟨hlt, _⟩
      exact List.mem_map.mpr ⟨slot.toNat, List.mem_range.mpr hlt, by simp⟩

/-! ## Steps -/

theorem ready_initialise (s : State) : Ready cfg (s.initialise cfg) :=
  ⟨records_initialise s, _, freeList_initialise s⟩

/-- A call keeps the records. -/
theorem Records.effect (h : Records cfg s) {e : Entry} {ret : Word}
    (he : Effect cfg s e ret s') : Records cfg s' := by
  cases he with
  | refused _ => exact h
  | init => exact records_initialise s
  | alloc _ _ hlt =>
      have hhead : Records cfg (s.setHead (s.link cfg s.processStackFreeSlot.toNat)) := h.congr rfl
      refine hhead.setSp fun _ => ?_
      rw [h.toNat_top hlt]
      exact ⟨Nat.le_add_right _ _, Nat.le_refl _⟩
  | free id _ =>
      have hcleared : Records cfg (s.setSp (id - 1).toNat 0) := h.setSp fun hne => absurd rfl hne
      exact hcleared.congr rfl
  | load id _ _ => exact h.congr rfl
  | store id _ hlive hrange =>
      have hsaved : Records cfg (s.setSp (id - 1).toNat s.psp) :=
        h.setSp fun _ => (h.inRange_iff hlive.1.slot_lt).mp hrange
      exact hsaved.congr rfl

/-- A call keeps the invariant. -/
theorem Ready.effect (h : Ready cfg s) {e : Entry} {ret : Word} (he : Effect cfg s e ret s') :
    Ready cfg s' := by
  refine ⟨h.records.effect he, ?_⟩
  obtain ⟨hrec, l, hfree⟩ := h
  cases he with
  | refused _ => exact ⟨l, hfree⟩
  | init => exact ⟨_, freeList_initialise s⟩
  | alloc _ hne hlt =>
      obtain ⟨t, _, ht⟩ := hfree.popSlot hne (hrec.top_ne_zero hlt)
      exact ⟨t, ht⟩
  | free id hlive => exact ⟨_, hfree.pushSlot hlive.1.slot_lt hlive.2⟩
  | load id _ hlive => exact ⟨l, hfree.congr rfl (fun _ _ _ => rfl) fun _ _ => .rfl⟩
  | store id _ hlive hrange =>
      -- the stored pointer is not null, so the slot stays active
      have hlo := ((hrec.inRange_iff hlive.1.slot_lt).mp hrange).1
      exact ⟨l, hfree.storeSlot hlive (cfg.ne_zero_of_slotBase_le hlo)⟩

/-- A write into the stack of an allocated slot keeps every other link word. -/
theorem link_write_of_inAllocated {addr : Nat} {v : Word} (h : InAllocated cfg s addr) {n : Nat}
    (hn : s.sp n = 0) :
    (s.processStackMemory.setWord addr v).word (cfg.slotBase n) = s.link cfg n := by
  obtain ⟨k, _, hk, hlo, hhi⟩ := h
  have hne : k ≠ n := fun he => hk (he ▸ hn)
  have h8 := cfg.eight_le_size
  have happart := cfg.slots_apart hne
  simp only [Config.slotTop] at happart hhi
  refine ByteMemory.word_setWord_of_apart ?_
  rw [ByteMemory.Apart]
  omega

/-- The invariant depends on the records, the head and the links of the inactive
slots. -/
theorem Ready.frame (h : Ready cfg s) (hinfo : s'.processStackInfo = s.processStackInfo)
    (hhead : s'.processStackFreeSlot = s.processStackFreeSlot)
    (hlink : ∀ n < cfg.slots, s.sp n = 0 → s'.link cfg n = s.link cfg n) : Ready cfg s' := by
  obtain ⟨hrec, l, hfree⟩ := h
  refine ⟨hrec.congr hinfo, l, hfree.congr hhead hlink fun n _ => ?_⟩
  rw [State.sp, State.sp, hinfo]

/-- A client step keeps the invariant. -/
theorem Ready.step (h : Ready cfg s) {e : Event} (hs : ClientStep cfg s e s') : Ready cfg s' := by
  obtain ⟨hallowed, hstep⟩ := hs
  cases e with
  | call ipsr entry ret => exact h.effect (effect_of_exec hstep)
  | setPsp v =>
      cases hstep
      exact h.frame rfl rfl fun _ _ _ => rfl
  | setControl v =>
      cases hstep
      exact h.frame rfl rfl fun _ _ _ => rfl
  | write addr v =>
      cases hstep
      exact h.frame rfl rfl fun _ _ h0 => link_write_of_inAllocated hallowed h0

/-- Before the initialisation a call is refused, or it is the initialisation. -/
theorem Dormant.effect (h : Dormant s) {e : Entry} {ret : Word} (he : Effect cfg s e ret s') :
    (ret = 0 ∧ s' = s) ∨ (e = .init ∧ ret = 1 ∧ s' = s.initialise cfg) := by
  cases he with
  | refused _ => exact Or.inl ⟨rfl, rfl⟩
  | init => exact Or.inr ⟨rfl, rfl, rfl⟩
  | alloc _ hne _ => exact absurd h.head hne
  | free id hlive => exact absurd (h.inactive _) hlive.2
  | load id _ hlive => exact absurd (h.inactive _) hlive.2
  | store id _ hlive _ => exact absurd (h.inactive _) hlive.2

/-- A step before the initialisation stays there, unless it is a successful
initialisation. -/
theorem Dormant.step (h : Dormant s) {e : Event} (hs : Step cfg s e s') :
    (Dormant s' ∧ ∀ ipsr, e ≠ .call ipsr .init 1) ∨
      (Ready cfg s' ∧ ∃ ipsr, e = .call ipsr .init 1) := by
  cases e with
  | call ipsr entry ret =>
      obtain ⟨rfl, rfl⟩ | ⟨rfl, rfl, rfl⟩ := h.effect (effect_of_exec hs)
      · exact Or.inl ⟨h, fun _ he => by cases he⟩
      · exact Or.inr ⟨ready_initialise s, ipsr, rfl⟩
  | setPsp v => cases hs; exact Or.inl ⟨⟨h.head, h.inactive⟩, fun _ he => by cases he⟩
  | setControl v => cases hs; exact Or.inl ⟨⟨h.head, h.inactive⟩, fun _ he => by cases he⟩
  | write addr v => cases hs; exact Or.inl ⟨⟨h.head, h.inactive⟩, fun _ he => by cases he⟩

/-! ## Runs -/

theorem Ready.run (h : Ready cfg s) {es : List Event} (hr : ClientRun cfg s es s') :
    Ready cfg s' :=
  hr.invariant (fun _ _ _ hi hs => hi.step hs) h

theorem not_initialised_nil : ¬ Initialised [] := by
  rintro ⟨_, hmem⟩
  cases hmem

theorem initialised_cons {e : Event} {es : List Event} :
    Initialised (e :: es) ↔ (∃ ipsr, e = .call ipsr .init 1) ∨ Initialised es := by
  simp only [Initialised, List.mem_cons, exists_or, eq_comm]

/-- A run from the reset state is ready once an initialisation succeeded and
dormant until then. -/
theorem Dormant.run (h : Dormant s) {es : List Event} (hr : ClientRun cfg s es s') :
    (Initialised es → Ready cfg s') ∧ (¬ Initialised es → Dormant s') := by
  induction hr with
  | nil => exact ⟨fun hi => absurd hi not_initialised_nil, fun _ => h⟩
  | cons hs hr ih =>
      rw [initialised_cons]
      obtain ⟨hd, hne⟩ | ⟨hready, hinit⟩ := h.step hs.2
      · rw [or_iff_right fun ⟨ipsr, he⟩ => hne ipsr he]
        exact ih hd
      · exact ⟨fun _ => hready.run hr, fun hno => absurd (Or.inl hinit) hno⟩

/-- The head of the free list never leads outside the arrays. -/
theorem head_ok_of_run (h : Dormant s) {es : List Event} (hr : ClientRun cfg s es s') :
    s'.processStackFreeSlot = noSlot ∨ s'.processStackFreeSlot.toNat < cfg.slots := by
  by_cases hi : Initialised es
  · obtain ⟨_, l, hfree⟩ := (h.run hr).1 hi
    exact hfree.head_cases.imp_right And.left
  · exact Or.inl ((h.run hr).2 hi).head

/-- **The free-list invariant.**  After the first successful initialisation the
chain from `ProcessStackFreeSlot` ends in the end mark, never repeats a slot,
stays inside the arrays and visits exactly the inactive slots.  Before it the
list is empty and no slot is active.  No call indexes past the end of an
array. -/
theorem freeList_of_run {es : List Event} (h0 : IsReset s) (hr : ClientRun cfg s es s') :
    (Initialised es → ∃ l, Chain (s'.next cfg) noSlot s'.processStackFreeSlot l ∧ l.Nodup ∧
      (∀ slot ∈ l, slot.toNat < cfg.slots) ∧
      ∀ n < cfg.slots, BitVec.ofNat 32 n ∈ l ↔ (s'.processStackInfo n).sp = 0) ∧
    (¬ Initialised es → s'.processStackFreeSlot = noSlot ∧
      ∀ n < cfg.slots, (s'.processStackInfo n).sp = 0) ∧
    ∀ ipsr e, exec cfg ipsr e s' ≠ none := by
  have hd := dormant_of_isReset h0
  refine ⟨fun hi => ?_, fun hi => ?_, fun ipsr e => ?_⟩
  · obtain ⟨_, l, hfree⟩ := (hd.run hr).1 hi
    refine ⟨l, hfree.chain, hfree.chain.nodup, fun slot hs => ((hfree.mem_iff slot).mp hs).1, ?_⟩
    intro n hn
    rw [hfree.mem_iff, toNat_ofNat_slot hn]
    exact and_iff_right hn
  · have hdorm := (hd.run hr).2 hi
    exact ⟨hdorm.head, fun n _ => hdorm.inactive n⟩
  · exact exec_ne_none ipsr e (head_ok_of_run hd hr)

/-- Initialise, allocate, switch in and out, overwrite a live link word, free
twice and allocate until the pool is empty. -/
def smallEvents : List Event :=
  [.call 11 .init 1, .call 11 (.alloc 0) 1, .call 14 (.load 1) 1, .setPsp 0x20001008,
    .write 0x20001000 0xDEADBEEF, .call 14 (.store 1) 1, .call 11 (.alloc 0) 2,
    .call 11 (.free 1) 1, .call 11 (.free 1) 0, .call 11 (.alloc 0) 1, .call 11 (.alloc 0) 0]

/-- The state `smallEvents` leads to, if they can happen. -/
def smallPlay : Option State :=
  Transition.play (Transition.guardedNext (Client .small) (next .small)) .zero smallEvents

theorem smallPlay_isSome : smallPlay.isSome := by decide

/-- The state `smallEvents` leads to. -/
def smallState : State := smallPlay.get smallPlay_isSome

theorem clientRun_small : ClientRun .small .zero smallEvents smallState :=
  clientRun_of_play (Option.some_get smallPlay_isSome).symm

theorem initialised_small : Initialised smallEvents := ⟨11, by decide⟩

theorem freeList_of_run_small :
    ∃ l, Chain (smallState.next .small) noSlot smallState.processStackFreeSlot l ∧ l.Nodup ∧
      (∀ slot ∈ l, slot.toNat < Config.small.slots) ∧
      ∀ n < Config.small.slots,
        BitVec.ofNat 32 n ∈ l ↔ (smallState.processStackInfo n).sp = 0 :=
  (freeList_of_run isReset_zero clientRun_small).1 initialised_small

end TzContext
