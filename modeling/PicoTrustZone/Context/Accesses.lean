import PicoTrustZone.Context.Entries
import PicoTrustZone.Lib.Preempt

/-!
# Allocation and release, access by access

`TZ_AllocModuleContext_S` and `TZ_FreeModuleContext_S` as the sequences of
their accesses to `ProcessStackFreeSlot`, `ProcessStackInfo` and
`ProcessStackMemory`, in program order.  A control point (`Pc`) stands right
before an access and carries the local variables that are live there.

A call that is not preempted does what the entry does
(`alone_callMachine`).
-/

namespace TzContext

open Preempt

variable {cfg : Config}

/-- A call of one of the two entries that work on the free list. -/
inductive Call where
  | alloc (ipsr module : Word)
  | free (ipsr id : Word)
deriving DecidableEq, Repr

/-- A whole call. -/
def Call.run (cfg : Config) : Call → State → Option (Word × State)
  | .alloc ipsr module => exec cfg ipsr (.alloc module)
  | .free ipsr id => exec cfg ipsr (.free id)

/-- The control points. -/
inductive Pc where
  /-- `if (ProcessStackFreeSlot == 0xFFFFFFFFU)`. -/
  | allocTest
  /-- `slot = ProcessStackFreeSlot`. -/
  | allocReadHead
  /-- The read of `ProcessStackMemory[slot]`. -/
  | allocReadLink (slot : Word)
  /-- The write of `ProcessStackFreeSlot`. -/
  | allocWriteHead (slot link : Word)
  /-- The read of `ProcessStackInfo[slot].sp_top`. -/
  | allocReadTop (slot : Word)
  /-- The write of `ProcessStackInfo[slot].sp`. -/
  | allocWriteSp (slot top : Word)
  /-- `if (ProcessStackInfo[slot].sp == 0U)`. -/
  | freeTest (slot : Word)
  /-- `ProcessStackInfo[slot].sp = 0U`. -/
  | freeClear (slot : Word)
  /-- The read of `ProcessStackFreeSlot`. -/
  | freeReadHead (slot : Word)
  /-- The write of `ProcessStackMemory[slot]`. -/
  | freeWriteLink (slot head : Word)
  /-- `ProcessStackFreeSlot = slot`. -/
  | freeWriteHead (slot : Word)
deriving DecidableEq, Repr

/-- The first access of a call.  The guards on `IPSR` and the identifier need
no access. -/
def callEntry (cfg : Config) : Call → Pc ⊕ Word
  | .alloc ipsr _ => if ipsr = 0 then .inr 0 else .inl .allocTest
  | .free ipsr id =>
      if ipsr = 0 then .inr 0
      else if id = 0 ∨ cfg.slots < id.toNat then .inr 0
      else .inl (.freeTest (id - 1))

/-- One access. -/
def callAccess (cfg : Config) : Pc → State → Option ((Pc ⊕ Word) × State)
  | .allocTest, s =>
      if s.processStackFreeSlot = noSlot then some (.inr 0, s) else some (.inl .allocReadHead, s)
  | .allocReadHead, s => some (.inl (.allocReadLink s.processStackFreeSlot), s)
  | .allocReadLink slot, s => do
      let link ← s.readLink cfg slot
      return (.inl (.allocWriteHead slot link), s)
  | .allocWriteHead slot link, s => some (.inl (.allocReadTop slot), s.setHead link)
  | .allocReadTop slot, s => do
      let info ← s.readInfo cfg slot
      return (.inl (.allocWriteSp slot info.spTop), s)
  | .allocWriteSp slot top, s => do
      let s ← s.writeSp cfg slot top
      return (.inr (slot + 1), s)
  | .freeTest slot, s => do
      let info ← s.readInfo cfg slot
      return if info.sp = 0 then (.inr 0, s) else (.inl (.freeClear slot), s)
  | .freeClear slot, s => do
      let s ← s.writeSp cfg slot 0
      return (.inl (.freeReadHead slot), s)
  | .freeReadHead slot, s => some (.inl (.freeWriteLink slot s.processStackFreeSlot), s)
  | .freeWriteLink slot head, s => do
      let s ← s.writeLink cfg slot head
      return (.inl (.freeWriteHead slot), s)
  | .freeWriteHead slot, s => some (.inr 1, s.setHead slot)

/-- The two entries as a machine. -/
def callMachine (cfg : Config) : Machine State Call Pc Word := ⟨callEntry cfg, callAccess cfg⟩

/-! ## One equation for each access -/

section

variable {s : State} {slot : Word}

theorem access_allocTest : (callMachine cfg).access .allocTest s =
    if s.processStackFreeSlot = noSlot then some (.inr 0, s) else some (.inl .allocReadHead, s) :=
  rfl

theorem access_allocReadHead : (callMachine cfg).access .allocReadHead s =
    some (.inl (.allocReadLink s.processStackFreeSlot), s) := rfl

theorem access_allocReadLink (h : slot.toNat < cfg.slots) :
    (callMachine cfg).access (.allocReadLink slot) s =
      some (.inl (.allocWriteHead slot (s.link cfg slot.toNat)), s) := by
  show (s.readLink cfg slot >>= _) = _
  rw [State.readLink_of_lt h]
  rfl

theorem access_allocReadLink_fault (h : ¬ slot.toNat < cfg.slots) :
    (callMachine cfg).access (.allocReadLink slot) s = none := by
  show (s.readLink cfg slot >>= _) = _
  rw [State.readLink, if_neg h]
  rfl

theorem access_allocWriteHead {link : Word} :
    (callMachine cfg).access (.allocWriteHead slot link) s =
      some (.inl (.allocReadTop slot), s.setHead link) := rfl

theorem access_allocReadTop (h : slot.toNat < cfg.slots) :
    (callMachine cfg).access (.allocReadTop slot) s =
      some (.inl (.allocWriteSp slot (s.processStackInfo slot.toNat).spTop), s) := by
  show (s.readInfo cfg slot >>= _) = _
  rw [State.readInfo_of_lt h]
  rfl

theorem access_allocWriteSp {top : Word} (h : slot.toNat < cfg.slots) :
    (callMachine cfg).access (.allocWriteSp slot top) s =
      some (.inr (slot + 1), s.setSp slot.toNat top) := by
  show (s.writeSp cfg slot top >>= _) = _
  rw [State.writeSp_of_lt _ h]
  rfl

theorem access_freeTest (h : slot.toNat < cfg.slots) :
    (callMachine cfg).access (.freeTest slot) s =
      if s.sp slot.toNat = 0 then some (.inr 0, s) else some (.inl (.freeClear slot), s) := by
  show (s.readInfo cfg slot >>= _) = _
  rw [State.readInfo_of_lt h]
  exact apply_ite some _ _ _

theorem access_freeClear (h : slot.toNat < cfg.slots) :
    (callMachine cfg).access (.freeClear slot) s =
      some (.inl (.freeReadHead slot), s.setSp slot.toNat 0) := by
  show (s.writeSp cfg slot 0 >>= _) = _
  rw [State.writeSp_of_lt _ h]
  rfl

theorem access_freeReadHead : (callMachine cfg).access (.freeReadHead slot) s =
    some (.inl (.freeWriteLink slot s.processStackFreeSlot), s) := rfl

theorem access_freeWriteLink {head : Word} (h : slot.toNat < cfg.slots) :
    (callMachine cfg).access (.freeWriteLink slot head) s =
      some (.inl (.freeWriteHead slot), s.setLink cfg slot.toNat head) := by
  show (s.writeLink cfg slot head >>= _) = _
  rw [State.writeLink_of_lt _ h]
  rfl

theorem access_freeWriteHead : (callMachine cfg).access (.freeWriteHead slot) s =
    some (.inr 1, s.setHead slot) := rfl

end

theorem entry_alloc (ipsr module : Word) : (callMachine cfg).entry (.alloc ipsr module) =
    if ipsr = 0 then .inr 0 else .inl .allocTest := rfl

theorem entry_free (ipsr id : Word) : (callMachine cfg).entry (.free ipsr id) =
    if ipsr ≠ 0 ∧ cfg.ValidId id then .inl (.freeTest (id - 1)) else .inr 0 := by
  show (if ipsr = 0 then _ else if _ then _ else _) = _
  by_cases hi : ipsr = 0
  · rw [if_pos hi, if_neg fun h => h.1 hi]
  · rw [if_neg hi]
    by_cases hid : cfg.ValidId id
    · rw [if_neg (mt Config.not_validId_iff.mpr (not_not_intro hid)), if_pos ⟨hi, hid⟩]
    · rw [if_pos (Config.not_validId_iff.mp hid), if_neg fun h => hid h.2]

/-! ## Calls that are not preempted -/

theorem alone_alloc {ipsr : Word} (module : Word) (hi : ipsr ≠ 0) (s : State) :
    (callMachine cfg).Alone (.inl .allocTest) s (exec cfg ipsr (.alloc module) s) := by
  rw [exec, tzAllocModuleContextS_eq]
  by_cases hn : s.processStackFreeSlot = noSlot
  · rw [if_pos (Or.inr hn)]
    exact .step (access_allocTest.trans (if_pos hn)) .done
  · rw [if_neg (not_or.mpr ⟨hi, hn⟩)]
    refine .step (access_allocTest.trans (if_neg hn)) (.step access_allocReadHead ?_)
    by_cases hlt : s.processStackFreeSlot.toNat < cfg.slots
    · rw [if_pos hlt]
      exact .step (access_allocReadLink hlt) (.step access_allocWriteHead
        (.step (access_allocReadTop hlt) (.step (access_allocWriteSp hlt) .done)))
    · rw [if_neg hlt]
      exact .fault (access_allocReadLink_fault hlt)

theorem alone_free {ipsr id : Word} (hi : ipsr ≠ 0) (hid : cfg.ValidId id) (s : State) :
    (callMachine cfg).Alone (.inl (.freeTest (id - 1))) s (exec cfg ipsr (.free id) s) := by
  have hlt := hid.slot_lt
  rw [exec, tzFreeModuleContextS_eq]
  by_cases hsp : s.sp (id - 1).toNat = 0
  · rw [if_neg fun h => h.2.2 hsp]
    exact .step ((access_freeTest hlt).trans (if_pos hsp)) .done
  · rw [if_pos ⟨hi, hid, hsp⟩]
    exact .step ((access_freeTest hlt).trans (if_neg hsp)) (.step (access_freeClear hlt)
      (.step access_freeReadHead (.step (access_freeWriteLink hlt)
        (.step access_freeWriteHead .done))))

/-- A call that is not preempted does what the entry does, faults included. -/
theorem alone_callMachine (c : Call) (s : State) :
    (callMachine cfg).Alone ((callMachine cfg).entry c) s (c.run cfg s) := by
  cases c with
  | alloc ipsr module =>
      rw [entry_alloc, Call.run]
      by_cases hi : ipsr = 0
      · rw [if_pos hi, exec, tzAllocModuleContextS_eq, if_pos (Or.inl hi)]
        exact .done
      · rw [if_neg hi]
        exact alone_alloc module hi s
  | free ipsr id =>
      rw [entry_free, Call.run]
      by_cases hg : ipsr ≠ 0 ∧ cfg.ValidId id
      · rw [if_pos hg]
        exact alone_free hg.1 hg.2 s
      · rw [if_neg hg, exec, tzFreeModuleContextS_eq, if_neg fun h => hg ⟨h.1, h.2.1⟩]
        exact .done

end TzContext
