import PicoTrustZone.Context.Model

/-!
# What an entry can do

Each entry has one equation: the guard under which it succeeds and the state it
then leaves, and the unchanged state otherwise (`tzAllocModuleContextS_eq`,
`tzFreeModuleContextS_eq` and so on).  Only `TZ_AllocModuleContext_S` can index
past the end of an array, when `ProcessStackFreeSlot` is neither the end mark
nor a slot.

`Effect` lists the possible outcomes of a call.  Invariants of the context
manager are proved by cases on it (`effect_of_exec`) and never unfold an entry.
-/

namespace TzContext

variable {cfg : Config} {s : State}

/-! ## Identifiers and slots -/

/-- The identifiers that name a slot, from 1 to the number of slots. -/
def Config.ValidId (cfg : Config) (id : Word) : Prop := id ≠ 0 ∧ id.toNat ≤ cfg.slots

instance (cfg : Config) (id : Word) : Decidable (cfg.ValidId id) :=
  inferInstanceAs (Decidable (_ ∧ _))

/-- The test the entries make on an identifier. -/
theorem Config.not_validId_iff {id : Word} :
    ¬ cfg.ValidId id ↔ id = 0 ∨ cfg.slots < id.toNat := by
  rw [Config.ValidId, Classical.not_and_iff_not_or_not, Classical.not_not, Nat.not_le]

theorem toNat_sub_one {id : Word} (h : id ≠ 0) : (id - 1).toNat = id.toNat - 1 := by
  bv_omega

/-- A valid identifier names a slot of the arrays. -/
theorem Config.ValidId.slot_lt {id : Word} (h : cfg.ValidId id) : (id - 1).toNat < cfg.slots := by
  have hpos := cfg.slots_pos
  have hle := h.2
  rw [toNat_sub_one h.1]
  omega

theorem toNat_ofNat_slot {n : Nat} (h : n < cfg.slots) : (BitVec.ofNat 32 n).toNat = n := by
  have hlt := cfg.slots_lt
  rw [BitVec.toNat_ofNat]
  omega

/-! ## State updates -/

namespace State

theorem readInfo_of_lt {slot : Word} (h : slot.toNat < cfg.slots) :
    s.readInfo cfg slot = some (s.processStackInfo slot.toNat) := if_pos h

theorem writeInfo_of_lt {slot : Word} (i : StackInfo) (h : slot.toNat < cfg.slots) :
    s.writeInfo cfg slot i = some (s.setInfo slot.toNat i) := if_pos h

theorem writeSp_of_lt {slot : Word} (v : Word) (h : slot.toNat < cfg.slots) :
    s.writeSp cfg slot v = some (s.setSp slot.toNat v) := if_pos h

theorem readLink_of_lt {slot : Word} (h : slot.toNat < cfg.slots) :
    s.readLink cfg slot = some (s.link cfg slot.toNat) := if_pos h

theorem writeLink_of_lt {slot : Word} (v : Word) (h : slot.toNat < cfg.slots) :
    s.writeLink cfg slot v = some (s.setLink cfg slot.toNat v) := if_pos h

theorem setInfo_info_self (s : State) (n : Nat) (i : StackInfo) :
    (s.setInfo n i).processStackInfo n = i := by simp [setInfo]

theorem setInfo_info_ne {n k : Nat} (i : StackInfo) (h : k ≠ n) :
    (s.setInfo n i).processStackInfo k = s.processStackInfo k := by simp [setInfo, h]

@[simp] theorem setSp_sp_self (s : State) (n : Nat) (v : Word) : (s.setSp n v).sp n = v := by
  simp [setSp, sp, setInfo]

@[simp] theorem setSp_sp_ne {n k : Nat} (v : Word) (h : k ≠ n) :
    (s.setSp n v).sp k = s.sp k := by simp [setSp, sp, setInfo, h]

@[simp] theorem setSp_spTop (s : State) (n k : Nat) (v : Word) :
    ((s.setSp n v).processStackInfo k).spTop = (s.processStackInfo k).spTop := by
  rcases eq_or_ne k n with rfl | h
  · simp [setSp, setInfo]
  · simp [setSp, setInfo, h]

@[simp] theorem setSp_spLimit (s : State) (n k : Nat) (v : Word) :
    ((s.setSp n v).processStackInfo k).spLimit = (s.processStackInfo k).spLimit := by
  rcases eq_or_ne k n with rfl | h
  · simp [setSp, setInfo]
  · simp [setSp, setInfo, h]

@[simp] theorem setSp_link (s : State) (n k : Nat) (v : Word) :
    (s.setSp n v).link cfg k = s.link cfg k := rfl

@[simp] theorem setLink_info (s : State) (n : Nat) (v : Word) :
    (s.setLink cfg n v).processStackInfo = s.processStackInfo := rfl
@[simp] theorem setLink_sp (s : State) (n k : Nat) (v : Word) :
    (s.setLink cfg n v).sp k = s.sp k := rfl
@[simp] theorem setLink_link_self (s : State) (n : Nat) (v : Word) :
    (s.setLink cfg n v).link cfg n = v := ByteMemory.word_setWord_self _ _ _
@[simp] theorem setLink_link_ne {n k : Nat} (v : Word) (h : k ≠ n) :
    (s.setLink cfg n v).link cfg k = s.link cfg k :=
  ByteMemory.word_setWord_of_apart (cfg.links_apart h.symm)

@[simp] theorem setHead_sp (s : State) (v : Word) (k : Nat) : (s.setHead v).sp k = s.sp k := rfl
@[simp] theorem setHead_link (s : State) (v : Word) (k : Nat) :
    (s.setHead v).link cfg k = s.link cfg k := rfl

@[simp] theorem setStack_sp (s : State) (l t : Word) (k : Nat) :
    (s.setStack l t).sp k = s.sp k := rfl

/-- The effect of a successful `TZ_AllocModuleContext_S`: the head slot leaves
the free list and its stack pointer is set to the top of its stack. -/
def popSlot (s : State) (cfg : Config) : State :=
  (s.setHead (s.link cfg s.processStackFreeSlot.toNat)).setSp s.processStackFreeSlot.toNat
    (s.processStackInfo s.processStackFreeSlot.toNat).spTop

/-- The effect of a successful `TZ_FreeModuleContext_S`: the slot becomes
inactive and the new head of the free list. -/
def pushSlot (s : State) (cfg : Config) (slot : Word) : State :=
  ((s.setSp slot.toNat 0).setLink cfg slot.toNat s.processStackFreeSlot).setHead slot

/-- The effect of a successful `TZ_LoadContext_S`. -/
def loadSlot (s : State) (slot : Word) : State :=
  s.setStack (s.processStackInfo slot.toNat).spLimit (s.sp slot.toNat)

/-- The effect of a successful `TZ_StoreContext_S`. -/
def storeSlot (s : State) (cfg : Config) (slot : Word) : State :=
  (s.setSp slot.toNat s.psp).setStack (BitVec.ofNat 32 cfg.base) (BitVec.ofNat 32 cfg.base)

/-- `id` names an active slot. -/
def Live (s : State) (cfg : Config) (id : Word) : Prop :=
  cfg.ValidId id ∧ s.sp (id - 1).toNat ≠ 0

instance (s : State) (cfg : Config) (id : Word) : Decidable (s.Live cfg id) :=
  inferInstanceAs (Decidable (_ ∧ _))

/-- The `PSP` passes the range test of `TZ_StoreContext_S` for a slot. -/
def InRange (s : State) (slot : Word) : Prop :=
  (s.processStackInfo slot.toNat).spLimit ≤ s.psp ∧ s.psp ≤ (s.processStackInfo slot.toNat).spTop

instance (s : State) (slot : Word) : Decidable (s.InRange slot) :=
  inferInstanceAs (Decidable (_ ∧ _))

end State

/-! ## One equation for each entry -/

theorem tzAllocModuleContextS_eq (ipsr module : Word) :
    tzAllocModuleContextS cfg ipsr module s =
      if ipsr = 0 ∨ s.processStackFreeSlot = noSlot then some (0, s)
      else if s.processStackFreeSlot.toNat < cfg.slots then
        some (s.processStackFreeSlot + 1, s.popSlot cfg)
      else none := by
  rw [tzAllocModuleContextS]
  by_cases hi : ipsr = 0
  · rw [if_pos hi, if_pos (Or.inl hi)]
  · by_cases hn : s.processStackFreeSlot = noSlot
    · rw [if_neg hi, if_pos hn, if_pos (Or.inr hn)]
    · rw [if_neg hi, if_neg hn, if_neg (not_or.mpr ⟨hi, hn⟩)]
      by_cases hlt : s.processStackFreeSlot.toNat < cfg.slots
      · rw [if_pos hlt]
        simp only [State.readLink_of_lt hlt, State.readInfo_of_lt hlt, State.writeSp_of_lt _ hlt,
          Option.bind_eq_bind, Option.bind_some]
        rfl
      · rw [if_neg hlt]
        simp only [State.readLink, if_neg hlt, Option.bind_eq_bind, Option.bind_none]

/-- The checks of an identifier that three entries share: it is valid, and its slot
is active. -/
theorem State.checked_eq (id : Word) (k : StackInfo → Option (Word × State)) :
    (if id = 0 ∨ cfg.slots < id.toNat then some (0, s)
      else (s.readInfo cfg (id - 1)).bind fun info => if info.sp = 0 then some (0, s) else k info) =
      if s.Live cfg id then k (s.processStackInfo (id - 1).toNat) else some (0, s) := by
  by_cases hid : cfg.ValidId id
  · rw [if_neg (mt Config.not_validId_iff.mpr (not_not_intro hid)),
      State.readInfo_of_lt hid.slot_lt, Option.bind_some]
    by_cases hsp : (s.processStackInfo (id - 1).toNat).sp = 0
    · rw [if_pos hsp, if_neg fun h => h.2 hsp]
    · rw [if_neg hsp, if_pos ⟨hid, hsp⟩]
  · rw [if_pos (Config.not_validId_iff.mp hid), if_neg fun h => hid h.1]

theorem tzFreeModuleContextS_eq (ipsr id : Word) :
    tzFreeModuleContextS cfg ipsr id s =
      if ipsr ≠ 0 ∧ s.Live cfg id then some (1, s.pushSlot cfg (id - 1)) else some (0, s) := by
  rw [tzFreeModuleContextS]
  simp only [Option.bind_eq_bind, Option.pure_def]
  rw [State.checked_eq]
  by_cases hi : ipsr = 0
  · rw [if_pos hi, if_neg fun h => h.1 hi]
  · rw [if_neg hi]
    by_cases hlive : s.Live cfg id
    · rw [if_pos hlive, if_pos ⟨hi, hlive⟩, State.writeSp_of_lt _ hlive.1.slot_lt,
        Option.bind_some, State.writeLink_of_lt _ hlive.1.slot_lt]
      rfl
    · rw [if_neg hlive, if_neg fun h => hlive h.2]

theorem tzLoadContextS_eq (ipsr id : Word) :
    tzLoadContextS cfg ipsr id s =
      if (ipsr ≠ 0 ∧ s.control &&& 2 ≠ 0) ∧ s.Live cfg id then some (1, s.loadSlot (id - 1))
      else some (0, s) := by
  rw [tzLoadContextS]
  simp only [Option.bind_eq_bind, Option.pure_def]
  rw [State.checked_eq]
  by_cases hi : ipsr = 0 ∨ s.control &&& 2 = 0
  · rw [if_pos hi, if_neg fun h => hi.elim h.1.1 h.1.2]
  · rw [if_neg hi]
    by_cases hlive : s.Live cfg id
    · rw [if_pos hlive, if_pos ⟨not_or.mp hi, hlive⟩]
      rfl
    · rw [if_neg hlive, if_neg fun h => hlive h.2]

/-- The range test of `TZ_StoreContext_S`. -/
theorem State.not_inRange_iff {slot : Word} :
    ¬ s.InRange slot ↔ s.psp < (s.processStackInfo slot.toNat).spLimit ∨
      s.psp > (s.processStackInfo slot.toNat).spTop := by
  rw [State.InRange]
  constructor
  · intro h
    bv_omega
  · intro h
    bv_omega

theorem tzStoreContextS_eq (ipsr id : Word) :
    tzStoreContextS cfg ipsr id s =
      if (ipsr ≠ 0 ∧ s.control &&& 2 ≠ 0) ∧ s.Live cfg id ∧ s.InRange (id - 1) then
        some (1, s.storeSlot cfg (id - 1))
      else some (0, s) := by
  rw [tzStoreContextS]
  simp only [Option.bind_eq_bind, Option.pure_def]
  rw [State.checked_eq]
  by_cases hi : ipsr = 0 ∨ s.control &&& 2 = 0
  · rw [if_pos hi, if_neg fun h => hi.elim h.1.1 h.1.2]
  · rw [if_neg hi]
    by_cases hlive : s.Live cfg id
    · rw [if_pos hlive]
      by_cases hr : s.InRange (id - 1)
      · rw [if_neg (mt State.not_inRange_iff.mpr (not_not_intro hr)),
          if_pos ⟨not_or.mp hi, hlive, hr⟩, State.writeSp_of_lt _ hlive.1.slot_lt]
        rfl
      · rw [if_pos (State.not_inRange_iff.mp hr), if_neg fun h => hr h.2.2]
    · rw [if_neg hlive, if_neg fun h => hlive h.2.1]

/-! ## Initialisation -/

/-- The record `TZ_InitContextSystem_S` writes for slot `n`. -/
def Config.slotInfo (cfg : Config) (n : Nat) : StackInfo :=
  { sp := 0
    spLimit := BitVec.ofNat 32 (cfg.slotBase n)
    spTop := BitVec.ofNat 32 (cfg.slotBase n) + BitVec.ofNat 32 cfg.stackSize }

/-- The state after `n` passes of the loop of `TZ_InitContextSystem_S`. -/
def State.slotsInit (s : State) (cfg : Config) : Nat → State
  | 0 => s
  | n + 1 =>
      ((s.slotsInit cfg n).setInfo n (cfg.slotInfo n)).setLink cfg n (BitVec.ofNat 32 n + 1)

/-- The effect of a successful `TZ_InitContextSystem_S`. -/
def State.initialise (s : State) (cfg : Config) : State :=
  { (((s.slotsInit cfg cfg.slots).setLink cfg (cfg.slots - 1) noSlot).setHead 0).setStack
      (BitVec.ofNat 32 cfg.base) (BitVec.ofNat 32 cfg.base) with control := 2 }

theorem initSlots_eq : ∀ {n : Nat}, n ≤ cfg.slots → initSlots cfg n s = some (s.slotsInit cfg n)
  | 0, _ => rfl
  | n + 1, h => by
      have hn : n < cfg.slots := h
      have hw : (BitVec.ofNat 32 n).toNat = n := toNat_ofNat_slot hn
      have hlt : (BitVec.ofNat 32 n).toNat < cfg.slots := by rw [hw]; exact hn
      rw [initSlots, initSlots_eq (Nat.le_of_lt hn)]
      simp only [Option.bind_eq_bind, Option.bind_some, initSlot, State.writeInfo_of_lt _ hlt,
        State.writeLink_of_lt _ hlt, hw]
      rfl

theorem tzInitContextSystemS_eq (ipsr : Word) :
    tzInitContextSystemS cfg ipsr s =
      if ipsr = 0 then some (0, s) else some (1, s.initialise cfg) := by
  rw [tzInitContextSystemS]
  by_cases hi : ipsr = 0
  · rw [if_pos hi, if_pos hi]
  · have hlast : (BitVec.ofNat 32 cfg.slots - 1).toNat = cfg.slots - 1 := by
      have hpos := cfg.slots_pos
      have hlt := cfg.slots_lt
      bv_omega
    have hslot : (BitVec.ofNat 32 cfg.slots - 1).toNat < cfg.slots := by
      rw [hlast]
      exact Nat.sub_lt cfg.slots_pos Nat.one_pos
    rw [if_neg hi, if_neg hi, initSlots_eq (Nat.le_refl _)]
    simp only [Option.bind_eq_bind, Option.bind_some, State.writeLink_of_lt _ hslot, hlast]
    rfl

namespace State

/-- The loop writes the records of the slots it has passed and no others. -/
theorem slotsInit_info (s : State) (cfg : Config) (k : Nat) :
    ∀ n : Nat, (s.slotsInit cfg n).processStackInfo k =
      if k < n then cfg.slotInfo k else s.processStackInfo k
  | 0 => by simp [slotsInit]
  | n + 1 => by
      rw [slotsInit, setLink_info]
      rcases eq_or_ne k n with rfl | h
      · rw [setInfo_info_self, if_pos (Nat.lt_succ_self _)]
      · rw [setInfo_info_ne _ h, slotsInit_info s cfg k n]
        have hiff : k < n + 1 ↔ k < n := by omega
        simp only [hiff]

/-- The loop links each slot it has passed to the next one. -/
theorem slotsInit_link (s : State) (cfg : Config) {k : Nat} :
    ∀ {n : Nat}, k < n → (s.slotsInit cfg n).link cfg k = BitVec.ofNat 32 k + 1
  | n + 1, h => by
      rw [slotsInit]
      rcases eq_or_ne k n with rfl | hk
      · rw [setLink_link_self]
      · rw [setLink_link_ne _ hk]
        exact slotsInit_link s cfg (by omega)

theorem initialise_info (s : State) {n : Nat} (h : n < cfg.slots) :
    (s.initialise cfg).processStackInfo n = cfg.slotInfo n := by
  have hloop := s.slotsInit_info cfg n cfg.slots
  rw [if_pos h] at hloop
  exact hloop

theorem initialise_sp (s : State) {n : Nat} (h : n < cfg.slots) : (s.initialise cfg).sp n = 0 := by
  rw [sp, initialise_info s h]
  rfl

theorem initialise_link_last (s : State) :
    (s.initialise cfg).link cfg (cfg.slots - 1) = noSlot :=
  (s.slotsInit cfg cfg.slots).setLink_link_self (cfg.slots - 1) noSlot

theorem initialise_link (s : State) {n : Nat} (h : n + 1 < cfg.slots) :
    (s.initialise cfg).link cfg n = BitVec.ofNat 32 n + 1 := by
  have hne : n ≠ cfg.slots - 1 := by omega
  have hloop : (s.slotsInit cfg cfg.slots).link cfg n = BitVec.ofNat 32 n + 1 :=
    s.slotsInit_link cfg (by omega)
  rw [← hloop]
  exact setLink_link_ne noSlot hne

end State

/-! ## The outcomes of a call -/

/-- What a call can do: nothing, or the effect of its entry under the guard the
entry tests. -/
inductive Effect (cfg : Config) (s : State) : Entry → Word → State → Prop where
  | refused (e : Entry) : Effect cfg s e 0 s
  | init : Effect cfg s .init 1 (s.initialise cfg)
  | alloc (module : Word) : s.processStackFreeSlot ≠ noSlot →
      s.processStackFreeSlot.toNat < cfg.slots →
      Effect cfg s (.alloc module) (s.processStackFreeSlot + 1) (s.popSlot cfg)
  | free (id : Word) : s.Live cfg id → Effect cfg s (.free id) 1 (s.pushSlot cfg (id - 1))
  | load (id : Word) : s.control &&& 2 ≠ 0 → s.Live cfg id →
      Effect cfg s (.load id) 1 (s.loadSlot (id - 1))
  | store (id : Word) : s.control &&& 2 ≠ 0 → s.Live cfg id → s.InRange (id - 1) →
      Effect cfg s (.store id) 1 (s.storeSlot cfg (id - 1))

/-- Every result of an entry is one of the listed outcomes. -/
theorem effect_of_exec {ipsr ret : Word} {e : Entry} {s' : State}
    (h : exec cfg ipsr e s = some (ret, s')) : Effect cfg s e ret s' := by
  cases e with
  | init =>
      rw [exec, tzInitContextSystemS_eq] at h
      split at h
      · cases h; exact .refused _
      · cases h; exact .init
  | alloc module =>
      rw [exec, tzAllocModuleContextS_eq] at h
      split at h
      · cases h; exact .refused _
      · next hg =>
        split at h
        · next hlt => cases h; exact .alloc module (not_or.mp hg).2 hlt
        · cases h
  | free id =>
      rw [exec, tzFreeModuleContextS_eq] at h
      split at h
      · next hg => cases h; exact .free id hg.2
      · cases h; exact .refused _
  | load id =>
      rw [exec, tzLoadContextS_eq] at h
      split at h
      · next hg => cases h; exact .load id hg.1.2 hg.2
      · cases h; exact .refused _
  | store id =>
      rw [exec, tzStoreContextS_eq] at h
      split at h
      · next hg => cases h; exact .store id hg.1.2 hg.2.1 hg.2.2
      · cases h; exact .refused _

/-- Only `TZ_AllocModuleContext_S` can index past the end of an array. -/
theorem exec_ne_none (ipsr : Word) (e : Entry)
    (h : s.processStackFreeSlot = noSlot ∨ s.processStackFreeSlot.toNat < cfg.slots) :
    exec cfg ipsr e s ≠ none := by
  cases e with
  | init => rw [exec, tzInitContextSystemS_eq]; split <;> simp
  | alloc module =>
      rw [exec, tzAllocModuleContextS_eq]
      split
      · simp
      · next hg =>
        rw [if_pos (h.resolve_left (not_or.mp hg).2)]
        simp
  | free id => rw [exec, tzFreeModuleContextS_eq]; split <;> simp
  | load id => rw [exec, tzLoadContextS_eq]; split <;> simp
  | store id => rw [exec, tzStoreContextS_eq]; split <;> simp

end TzContext
