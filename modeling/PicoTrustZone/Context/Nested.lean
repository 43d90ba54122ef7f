import PicoTrustZone.Context.Accesses
import PicoTrustZone.Context.FreeList

/-!
# Nested allocations and releases

The entries mask no interrupts, so a handler of higher priority can call them
while a call is in progress.  Two nested allocations can then return the same
identifier (`not_serial_nested`): the code relies on its callers not to preempt
it at the wrong place.

`Current` says which places are wrong.  A call acts on values it has read
before: the test of the head, the head and its link, the test of the stack
pointer, the head that becomes a link.  If these values are still current when
the call acts on them, the nesting has the results and the final state of a
sequence of the same calls (`nested_serial`).

An allocation takes effect when it writes the head of the free list.  Until it
writes the stack pointer of its slot, a release of this slot is refused, and
that release goes in front of the allocation.  A release takes effect when it
writes the head.  From the time it has cleared the stack pointer, another
release of its slot is refused, and that one goes behind it.  In both cases the
other calls see a state in which the slot is neither active nor on the free
list (`State.hide`).
-/

namespace TzContext

open Preempt
open scoped List

variable {cfg : Config} {s s' u : State}

/-! ## Updates that commute -/

namespace State

theorem setSp_comm {m n : Nat} (h : m ≠ n) (s : State) (a b : Word) :
    (s.setSp m a).setSp n b = (s.setSp n b).setSp m a := by
  simp only [setSp, setInfo, Function.update_of_ne h, Function.update_of_ne h.symm]
  rw [Function.update_comm h]

theorem setSp_setSp (s : State) (n : Nat) (a b : Word) :
    (s.setSp n a).setSp n b = s.setSp n b := by
  simp [setSp, setInfo]

theorem setSp_eq_self {n : Nat} {a : Word} (h : s.sp n = a) : s.setSp n a = s := by
  subst h
  simp [setSp, setInfo, sp]

theorem setLink_comm {m n : Nat} (h : m ≠ n) (s : State) (a b : Word) :
    (s.setLink cfg m a).setLink cfg n b = (s.setLink cfg n b).setLink cfg m a := by
  simp only [setLink]
  rw [ByteMemory.setWord_comm (cfg.links_apart h)]

theorem setLink_setLink (s : State) (n : Nat) (a b : Word) :
    (s.setLink cfg n a).setLink cfg n b = s.setLink cfg n b := by
  simp only [setLink, ByteMemory.setWord_setWord]

theorem setLink_eq_self {n : Nat} {a : Word} (h : s.link cfg n = a) : s.setLink cfg n a = s := by
  simp only [setLink, ByteMemory.setWord_eq_self h]

/-- The slot is inactive, with link `v`, and everything else is as in `s`. -/
def hide (s : State) (cfg : Config) (slot v : Word) : State :=
  (s.setSp slot.toNat 0).setLink cfg slot.toNat v

section

variable (s : State) (slot v : Word)

@[simp] theorem hide_head :
    (s.hide cfg slot v).processStackFreeSlot = s.processStackFreeSlot := rfl
@[simp] theorem hide_sp_self : (s.hide cfg slot v).sp slot.toNat = 0 := by simp [hide]
@[simp] theorem hide_link_self : (s.hide cfg slot v).link cfg slot.toNat = v := by simp [hide]
@[simp] theorem hide_spTop (n : Nat) :
    ((s.hide cfg slot v).processStackInfo n).spTop = (s.processStackInfo n).spTop := by
  simp [hide]

variable {s slot v}

theorem hide_sp_ne {n : Nat} (h : n ≠ slot.toNat) : (s.hide cfg slot v).sp n = s.sp n := by
  simp [hide, h]

theorem hide_link_ne {n : Nat} (h : n ≠ slot.toNat) :
    (s.hide cfg slot v).link cfg n = s.link cfg n := by
  simp [hide, h]

/-- Setting the stack pointer brings a hidden slot back. -/
theorem hide_setSp {a : Word} (ha : s.sp slot.toNat = a) (hv : s.link cfg slot.toNat = v) :
    (s.hide cfg slot v).setSp slot.toNat a = s := by
  calc (s.hide cfg slot v).setSp slot.toNat a
      = ((s.setSp slot.toNat 0).setSp slot.toNat a).setLink cfg slot.toNat v := rfl
    _ = s := by rw [setSp_setSp, setSp_eq_self ha, setLink_eq_self hv]

theorem popSlot_sp_ne {n : Nat} (h : n ≠ s.processStackFreeSlot.toNat) :
    (s.popSlot cfg).sp n = s.sp n := by
  rw [popSlot, setSp_sp_ne _ h, setHead_sp]

theorem pushSlot_sp_ne {n : Nat} (h : n ≠ slot.toNat) :
    (s.pushSlot cfg slot).sp n = s.sp n := by
  rw [pushSlot, setHead_sp, setLink_sp, setSp_sp_ne _ h]

theorem pushSlot_link_ne {n : Nat} (h : n ≠ slot.toNat) :
    (s.pushSlot cfg slot).link cfg n = s.link cfg n := by
  rw [pushSlot, setHead_link, setLink_link_ne _ h, setSp_link]

/-- Hiding a slot commutes with the allocation of another one. -/
theorem hide_popSlot (h : s.processStackFreeSlot.toNat ≠ slot.toNat) :
    (s.hide cfg slot v).popSlot cfg = (s.popSlot cfg).hide cfg slot v := by
  rw [popSlot, hide_head, hide_link_ne h, hide_spTop, popSlot, hide, hide,
    setSp_comm h]
  rfl

/-- Hiding a slot commutes with the release of another one. -/
theorem hide_pushSlot {other : Word} (h : other.toNat ≠ slot.toNat) :
    (s.hide cfg slot v).pushSlot cfg other = (s.pushSlot cfg other).hide cfg slot v := by
  calc (s.hide cfg slot v).pushSlot cfg other
      = ((((s.setSp slot.toNat 0).setSp other.toNat 0).setLink cfg slot.toNat v).setLink cfg
          other.toNat s.processStackFreeSlot).setHead other := rfl
    _ = ((((s.setSp other.toNat 0).setSp slot.toNat 0).setLink cfg other.toNat
          s.processStackFreeSlot).setLink cfg slot.toNat v).setHead other := by
        rw [setSp_comm h.symm, setLink_comm h.symm]
    _ = (s.pushSlot cfg other).hide cfg slot v := rfl

/-- An allocation that has written the head and not yet the stack pointer. -/
theorem setHead_eq_hide (h : s.sp s.processStackFreeSlot.toNat = 0) :
    s.setHead (s.link cfg s.processStackFreeSlot.toNat) =
      (s.popSlot cfg).hide cfg s.processStackFreeSlot
        (s.link cfg s.processStackFreeSlot.toNat) := by
  rw [popSlot, hide, setSp_setSp, setSp_eq_self (by rw [setHead_sp]; exact h),
    setLink_eq_self (setHead_link ..)]

/-- A release that has cleared the stack pointer. -/
theorem setSp_eq_hide : s.setSp slot.toNat 0 = s.hide cfg slot (s.link cfg slot.toNat) := by
  rw [hide, setLink_eq_self (setSp_link ..)]

theorem hide_setLink (w : Word) :
    (s.hide cfg slot v).setLink cfg slot.toNat w = s.hide cfg slot w := by
  rw [hide, setLink_setLink, hide]

end

end State

/-! ## The chain of inactive slots -/

/-- The free list holds inactive slots.  Unlike in `Ready`, an inactive slot may
be missing from it. -/
structure Linked (cfg : Config) (s : State) : Prop where
  records : Records cfg s
  chain : ∃ l, Chain (s.next cfg) noSlot s.processStackFreeSlot l ∧
    ∀ slot ∈ l, slot.toNat < cfg.slots ∧ s.sp slot.toNat = 0

theorem Ready.linked (h : Ready cfg s) : Linked cfg s := by
  obtain ⟨hrec, l, hfree⟩ := h
  exact ⟨hrec, l, hfree.chain, fun slot hs => (hfree.mem_iff slot).mp hs⟩

/-- The head is a slot, and it is inactive. -/
theorem Linked.head (h : Linked cfg s) (hne : s.processStackFreeSlot ≠ noSlot) :
    s.processStackFreeSlot.toNat < cfg.slots ∧ s.sp s.processStackFreeSlot.toNat = 0 := by
  obtain ⟨_, l, hchain, hmem⟩ := h
  obtain ⟨t, rfl, _⟩ := hchain.pop hne
  exact hmem _ (List.mem_cons_self ..)

theorem Linked.popSlot (h : Linked cfg s) (hne : s.processStackFreeSlot ≠ noSlot) :
    Linked cfg (s.popSlot cfg) := by
  have hlt := (h.head hne).1
  obtain ⟨hrec, l, hchain, hmem⟩ := h
  obtain ⟨t, rfl, ht⟩ := hchain.pop hne
  refine ⟨hrec.effect (.alloc 0 hne hlt), t, ht, fun slot hs => ?_⟩
  have hslot : slot ≠ s.processStackFreeSlot := by
    rintro rfl
    exact (List.nodup_cons.mp hchain.nodup).1 hs
  rw [State.popSlot_sp_ne (toNat_inj hslot)]
  exact hmem slot (List.mem_cons_of_mem _ hs)

theorem Linked.pushSlot (h : Linked cfg s) {id : Word} (hlive : s.Live cfg id) :
    Linked cfg (s.pushSlot cfg (id - 1)) := by
  obtain ⟨hrec, l, hchain, hmem⟩ := h
  have hne : ∀ slot ∈ l, slot ≠ id - 1 := by
    rintro slot hs rfl
    exact hlive.2 (hmem _ hs).2
  refine ⟨hrec.effect (.free id hlive), (id - 1) :: l, ?_, fun slot hs => ?_⟩
  · refine hchain.push (cfg.ne_noSlot_of_lt hlive.1.slot_lt) (State.setLink_link_self _ _ _) ?_
    intro slot hs
    exact State.pushSlot_link_ne (toNat_inj (hne slot hs))
  · rcases List.mem_cons.mp hs with rfl | hs
    · exact ⟨hlive.1.slot_lt, by simp [State.pushSlot]⟩
    · rw [State.pushSlot_sp_ne (toNat_inj (hne slot hs))]
      exact hmem slot hs

theorem Linked.call (h : Linked cfg s) {c : Call} {r : Word} (hc : c.run cfg s = some (r, s')) :
    Linked cfg s' := by
  cases c with
  | alloc ipsr module =>
      rw [Call.run] at hc
      cases effect_of_exec hc with
      | refused _ => exact h
      | alloc _ hne _ => exact h.popSlot hne
  | free ipsr id =>
      rw [Call.run] at hc
      cases effect_of_exec hc with
      | refused _ => exact h
      | free _ hlive => exact h.pushSlot hlive

theorem Linked.sequence (h : Linked cfg s) {cs : List (Call × Word)}
    (hr : Sequence (Call.run cfg) s cs s') : Linked cfg s' :=
  hr.invariant (fun _ _ _ hi hc => hi.call hc) h

/-! ## One equation for each outcome of a call -/

theorem run_alloc {ipsr : Word} (module : Word) (hi : ipsr ≠ 0)
    (hne : s.processStackFreeSlot ≠ noSlot) (hlt : s.processStackFreeSlot.toNat < cfg.slots) :
    (Call.alloc ipsr module).run cfg s = some (s.processStackFreeSlot + 1, s.popSlot cfg) := by
  rw [Call.run, exec, tzAllocModuleContextS_eq, if_neg (not_or.mpr ⟨hi, hne⟩), if_pos hlt]

theorem run_alloc_refused {ipsr : Word} (module : Word)
    (h : ipsr = 0 ∨ s.processStackFreeSlot = noSlot) :
    (Call.alloc ipsr module).run cfg s = some (0, s) := by
  rw [Call.run, exec, tzAllocModuleContextS_eq, if_pos h]

theorem run_free {ipsr id : Word} (hi : ipsr ≠ 0) (h : s.Live cfg id) :
    (Call.free ipsr id).run cfg s = some (1, s.pushSlot cfg (id - 1)) := by
  rw [Call.run, exec, tzFreeModuleContextS_eq, if_pos ⟨hi, h⟩]

theorem run_free_refused {ipsr id : Word} (h : ¬ (ipsr ≠ 0 ∧ s.Live cfg id)) :
    (Call.free ipsr id).run cfg s = some (0, s) := by
  rw [Call.run, exec, tzFreeModuleContextS_eq, if_neg h]

/-- The identifier of a slot. -/
theorem State.live_add_one {slot : Word} (hlt : slot.toNat < cfg.slots) :
    s.Live cfg (slot + 1) ↔ s.sp slot.toNat ≠ 0 := by
  have hbound := cfg.slots_lt
  have hid : cfg.ValidId (slot + 1) := ⟨fun h0 => by bv_omega, by bv_omega⟩
  have hslot : slot + 1 - 1 = slot := by bv_omega
  rw [State.Live, hslot]
  exact and_iff_right hid

/-! ## A call that has taken effect in part -/

/-- A release of the slot that is refused. -/
def RefusedFree (slot : Word) (l : Call × Word) : Prop := ∃ ipsr, l = (.free ipsr (slot + 1), 0)

theorem RefusedFree.run {slot : Word} (hlt : slot.toNat < cfg.slots) (h0 : s.sp slot.toNat = 0) :
    ∀ l, RefusedFree slot l → l.1.run cfg s = some (l.2, s) := by
  rintro l ⟨ipsr, rfl⟩
  exact run_free_refused fun h => (State.live_add_one hlt).mp h.2 h0

/-- The state a sequence produces while a call on `slot` is suspended: the slot
is active with stack pointer `a`, and its first word is `b`. -/
structure Suspended (cfg : Config) (slot a b : Word) (u : State) : Prop where
  linked : Linked cfg u
  saved : u.sp slot.toNat = a
  link : u.link cfg slot.toNat = b

theorem Suspended.linked_hide {slot a b v : Word} (h : Suspended cfg slot a b u) (ha : a ≠ 0) :
    Linked cfg (u.hide cfg slot v) := by
  obtain ⟨⟨hrec, l, hchain, hmem⟩, hsp, _⟩ := h
  have hne : ∀ c ∈ l, c.toNat ≠ slot.toNat := by
    intro c hc heq
    rw [← hsp, ← heq] at ha
    exact ha (hmem c hc).2
  have hcleared : Records cfg (u.setSp slot.toNat 0) := hrec.setSp fun h0 => absurd rfl h0
  refine ⟨hcleared.congr rfl, l, hchain.congr fun c hc => State.hide_link_ne (hne c hc), ?_⟩
  intro c hc
  rw [State.hide_sp_ne (hne c hc)]
  exact hmem c hc

/-- Other calls do at the hidden state what they do at the state behind it, but
a release of the hidden slot is refused. -/
theorem commutes_hide {slot a b : Word} (ha : a ≠ 0) (v : Word) :
    Commutes (Call.run cfg) (Suspended cfg slot a b) (fun u => u.hide cfg slot v)
      (RefusedFree slot) := by
  rintro u ⟨c, r⟩ s' hI hrun
  cases c with
  | alloc ipsr module =>
      refine Or.inr ?_
      by_cases hg : ipsr = 0 ∨ u.processStackFreeSlot = noSlot
      · have href : (Call.alloc ipsr module).run cfg (u.hide cfg slot v) = some (0, _) :=
          run_alloc_refused module hg
        obtain ⟨rfl, rfl⟩ := Prod.mk.inj (Option.some.inj (href.symm.trans hrun))
        exact ⟨u, run_alloc_refused module hg, hI, rfl⟩
      · obtain ⟨hi, hne⟩ := not_or.mp hg
        obtain ⟨hhead, h0⟩ := hI.linked.head hne
        have hslot : u.processStackFreeSlot.toNat ≠ slot.toNat := by
          intro heq
          rw [heq, hI.saved] at h0
          exact ha h0
        have hpop := run_alloc (s := u.hide cfg slot v) module hi hne hhead
        obtain ⟨rfl, rfl⟩ := Prod.mk.inj (Option.some.inj (hpop.symm.trans hrun))
        refine ⟨u.popSlot cfg, run_alloc module hi hne hhead, ⟨hI.linked.popSlot hne, ?_, hI.link⟩,
          State.hide_popSlot hslot⟩
        rw [State.popSlot_sp_ne hslot.symm]
        exact hI.saved
  | free ipsr id =>
      by_cases hg : ipsr ≠ 0 ∧ (u.hide cfg slot v).Live cfg id
      · obtain ⟨hi, hid, hsp⟩ := hg
        have hslot : (id - 1).toNat ≠ slot.toNat := by
          intro heq
          rw [heq, State.hide_sp_self] at hsp
          exact hsp rfl
        have hlive : u.Live cfg id := ⟨hid, by rw [← State.hide_sp_ne hslot]; exact hsp⟩
        have hpush := run_free hi (s := u.hide cfg slot v) ⟨hid, hsp⟩
        obtain ⟨rfl, rfl⟩ := Prod.mk.inj (Option.some.inj (hpush.symm.trans hrun))
        refine Or.inr ⟨u.pushSlot cfg (id - 1), run_free hi hlive,
          ⟨hI.linked.pushSlot hlive, ?_, ?_⟩, State.hide_pushSlot hslot⟩
        · rw [State.pushSlot_sp_ne hslot.symm]
          exact hI.saved
        · rw [State.pushSlot_link_ne hslot.symm]
          exact hI.link
      · have href := run_free_refused (s := u.hide cfg slot v) hg
        obtain ⟨rfl, rfl⟩ := Prod.mk.inj (Option.some.inj (href.symm.trans hrun))
        by_cases hu : ipsr ≠ 0 ∧ u.Live cfg id
        · -- only the hidden slot is active here and not there
          have hslot : (id - 1).toNat = slot.toNat := by
            by_contra hne
            exact hg ⟨hu.1, hu.2.1, by rw [State.hide_sp_ne hne]; exact hu.2.2⟩
          have hid : id = slot + 1 := by bv_omega
          exact Or.inl ⟨⟨ipsr, by rw [hid]⟩, rfl⟩
        · exact Or.inr ⟨u, run_free_refused hu, hI, rfl⟩

/-! ## Every nesting explained -/

/-- The values a call has read are current when it acts on them. -/
def Current (cfg : Config) : Pc → State → Prop
  | .allocReadHead, s => s.processStackFreeSlot ≠ noSlot
  | .allocWriteHead slot link, s =>
      s.processStackFreeSlot = slot ∧ s.link cfg slot.toNat = link
  | .freeClear slot, s => s.sp slot.toNat ≠ 0
  | .freeWriteHead slot, s => s.link cfg slot.toNat = s.processStackFreeSlot
  | _, _ => True

/-- An allocation that has not taken effect. -/
def AllocSerial (cfg : Config) (s : State) (cs : List (Call × Word)) (o : Option (Word × State)) :
    Prop :=
  Linked cfg s → ∀ ipsr module, ipsr ≠ 0 → Serial (Call.run cfg) (.alloc ipsr module) s cs o

/-- An allocation that has written the head. -/
def AllocResumes (cfg : Config) (slot : Word) (s : State) (cs : List (Call × Word))
    (o : Option (Word × State)) : Prop :=
  slot.toNat < cfg.slots → ∀ u b,
    Suspended cfg slot (BitVec.ofNat 32 (cfg.slotTop slot.toNat)) b u → s = u.hide cfg slot b →
    Resumed (Call.run cfg) (Suspended cfg slot (BitVec.ofNat 32 (cfg.slotTop slot.toNat)) b)
      (RefusedFree slot) (slot + 1) id u cs o

/-- A release that has changed nothing. -/
def FreeSerial (cfg : Config) (slot : Word) (s : State) (cs : List (Call × Word))
    (o : Option (Word × State)) : Prop :=
  slot.toNat < cfg.slots → Linked cfg s → ∀ ipsr, ipsr ≠ 0 →
    Serial (Call.run cfg) (.free ipsr (slot + 1)) s cs o

/-- A release that has cleared the stack pointer. -/
def FreeResumes (cfg : Config) (slot : Word) (s : State) (cs : List (Call × Word))
    (o : Option (Word × State)) : Prop :=
  slot.toNat < cfg.slots → ∀ u a b v, a ≠ 0 → Suspended cfg slot a b u → s = u.hide cfg slot v →
    Resumed (Call.run cfg) (Suspended cfg slot a b) (RefusedFree slot) 1
      (fun u => u.pushSlot cfg slot) u cs o

/-- What the rest of a call amounts to, by its control point. -/
def Explains (cfg : Config) :
    Pc ⊕ Word → State → List (Call × Word) → Option (Word × State) → Prop
  | .inr r, s, cs, o => cs = [] ∧ o = some (r, s)
  | .inl .allocTest, s, cs, o => AllocSerial cfg s cs o
  | .inl .allocReadHead, s, cs, o => AllocSerial cfg s cs o
  | .inl (.allocReadLink slot), s, cs, o => slot.toNat < cfg.slots → AllocSerial cfg s cs o
  | .inl (.allocWriteHead slot _), s, cs, o => slot.toNat < cfg.slots → AllocSerial cfg s cs o
  | .inl (.allocReadTop slot), s, cs, o => AllocResumes cfg slot s cs o
  | .inl (.allocWriteSp slot top), s, cs, o =>
      top = BitVec.ofNat 32 (cfg.slotTop slot.toNat) → AllocResumes cfg slot s cs o
  | .inl (.freeTest slot), s, cs, o => FreeSerial cfg slot s cs o
  | .inl (.freeClear slot), s, cs, o => FreeSerial cfg slot s cs o
  | .inl (.freeReadHead slot), s, cs, o => FreeResumes cfg slot s cs o
  | .inl (.freeWriteLink slot _), s, cs, o => FreeResumes cfg slot s cs o
  | .inl (.freeWriteHead slot), s, cs, o => FreeResumes cfg slot s cs o

variable {cs cs' : List (Call × Word)} {o : Option (Word × State)}

/-- A call from its start. -/
theorem serial_of_explains {c : Call} (h : Explains cfg ((callMachine cfg).entry c) s cs o)
    (hl : Linked cfg s) : Serial (Call.run cfg) c s cs o := by
  cases c with
  | alloc ipsr module =>
      rw [entry_alloc] at h
      by_cases hi : ipsr = 0
      · rw [if_pos hi] at h
        obtain ⟨rfl, rfl⟩ := h
        exact .of_exec (run_alloc_refused module (Or.inl hi))
      · rw [if_neg hi] at h
        exact h hl ipsr module hi
  | free ipsr id =>
      rw [entry_free] at h
      by_cases hg : ipsr ≠ 0 ∧ cfg.ValidId id
      · rw [if_pos hg] at h
        have hid : id - 1 + 1 = id := by bv_omega
        have hserial := h hg.2.slot_lt hl ipsr hg.1
        rwa [hid] at hserial
      · rw [if_neg hg] at h
        obtain ⟨rfl, rfl⟩ := h
        exact .of_exec (run_free_refused fun hlive => hg ⟨hlive.1, hlive.2.1⟩)

/-! ### Preemption -/

theorem Linked.serial (h : Linked cfg s) {c : Call} {r : Word}
    (hc : Serial (Call.run cfg) c s cs (some (r, s'))) : Linked cfg s' := by
  obtain ⟨_, _, _, ho, _, hrun⟩ := hc
  obtain ⟨_, rfl⟩ := Prod.mk.inj (Option.some.inj ho)
  exact h.sequence hrun

theorem AllocSerial.preempt {c : Call} {r : Word} (h : AllocSerial cfg s' cs' o)
    (hc : Linked cfg s → Serial (Call.run cfg) c s cs (some (r, s'))) :
    AllocSerial cfg s (cs ++ (c, r) :: cs') o := fun hl ipsr module hi =>
  (hc hl).preempt (h (hl.serial (hc hl)) ipsr module hi)

theorem FreeSerial.preempt {slot : Word} {c : Call} {r : Word} (h : FreeSerial cfg slot s' cs' o)
    (hc : Linked cfg s → Serial (Call.run cfg) c s cs (some (r, s'))) :
    FreeSerial cfg slot s (cs ++ (c, r) :: cs') o := fun hlt hl ipsr hi =>
  (hc hl).preempt (h hlt (hl.serial (hc hl)) ipsr hi)

theorem top_ne_zero {n : Nat} (hlt : n < cfg.slots) :
    (BitVec.ofNat 32 (cfg.slotTop n) : Word) ≠ 0 := by
  refine cfg.ne_zero_of_slotBase_le (n := n) ?_
  rw [Config.toNat_slotTop hlt]
  exact Nat.le_add_right _ _

theorem AllocResumes.preempt {slot : Word} {c : Call} {r : Word}
    (h : AllocResumes cfg slot s' cs' o)
    (hc : Linked cfg s → Serial (Call.run cfg) c s cs (some (r, s'))) :
    AllocResumes cfg slot s (cs ++ (c, r) :: cs') o := by
  intro hlt u b hI hs
  subst hs
  have htop := top_ne_zero hlt
  exact Resumed.preempt (commutes_hide htop b) hI (hc (hI.linked_hide htop)) fun u' hI' hs' =>
    h hlt u' b hI' hs'

theorem FreeResumes.preempt {slot : Word} {c : Call} {r : Word}
    (h : FreeResumes cfg slot s' cs' o)
    (hc : Linked cfg s → Serial (Call.run cfg) c s cs (some (r, s'))) :
    FreeResumes cfg slot s (cs ++ (c, r) :: cs') o := by
  intro hlt u a b v ha hI hs
  subst hs
  exact Resumed.preempt (commutes_hide ha v) hI (hc (hI.linked_hide ha)) fun u' hI' hs' =>
    h hlt u' a b v ha hI' hs'

/-- Another call runs at a control point. -/
theorem Explains.preempt {k : Pc} {c : Call} {r : Word} (h : Explains cfg (.inl k) s' cs' o)
    (hc : Linked cfg s → Serial (Call.run cfg) c s cs (some (r, s'))) :
    Explains cfg (.inl k) s (cs ++ (c, r) :: cs') o := by
  cases k with
  | allocTest => exact AllocSerial.preempt h hc
  | allocReadHead => exact AllocSerial.preempt h hc
  | allocReadLink slot => exact fun hlt => AllocSerial.preempt (h hlt) hc
  | allocWriteHead slot link => exact fun hlt => AllocSerial.preempt (h hlt) hc
  | allocReadTop slot => exact AllocResumes.preempt h hc
  | allocWriteSp slot top => exact fun htop => AllocResumes.preempt (h htop) hc
  | freeTest slot => exact FreeSerial.preempt h hc
  | freeClear slot => exact FreeSerial.preempt h hc
  | freeReadHead slot => exact FreeResumes.preempt h hc
  | freeWriteLink slot head => exact FreeResumes.preempt h hc
  | freeWriteHead slot => exact FreeResumes.preempt h hc

/-- No fault propagates: a control point is explained for any outcome if the
chain of inactive slots is broken there. -/
theorem Explains.of_not_linked {k : Pc} (h : ¬ Linked cfg s) : Explains cfg (.inl k) s cs o := by
  have halloc : ∀ slot, AllocResumes cfg slot s cs o := fun slot hlt u b hI hs =>
    absurd (hs ▸ hI.linked_hide (top_ne_zero hlt)) h
  have hfree : ∀ slot, FreeResumes cfg slot s cs o := fun slot _ u a b v ha hI hs =>
    absurd (hs ▸ hI.linked_hide ha) h
  cases k with
  | allocTest => exact fun hl => absurd hl h
  | allocReadHead => exact fun hl => absurd hl h
  | allocReadLink slot => exact fun _ hl => absurd hl h
  | allocWriteHead slot link => exact fun _ hl => absurd hl h
  | allocReadTop slot => exact halloc slot
  | allocWriteSp slot top => exact fun _ => halloc slot
  | freeTest slot => exact fun _ hl => absurd hl h
  | freeClear slot => exact fun _ hl => absurd hl h
  | freeReadHead slot => exact hfree slot
  | freeWriteLink slot head => exact hfree slot
  | freeWriteHead slot => exact hfree slot

/-! ### Accesses -/

/-- An allocation takes effect when it writes the head. -/
theorem AllocResumes.serial {link : Word}
    (h : AllocResumes cfg s.processStackFreeSlot (s.setHead link) cs o)
    (hlt : s.processStackFreeSlot.toNat < cfg.slots)
    (hlink : s.link cfg s.processStackFreeSlot.toNat = link) : AllocSerial cfg s cs o := by
  intro hl ipsr module hi
  subst hlink
  have hne := cfg.ne_noSlot_of_lt hlt
  have h0 := (hl.head hne).2
  have hI : Suspended cfg s.processStackFreeSlot
      (BitVec.ofNat 32 (cfg.slotTop s.processStackFreeSlot.toNat))
      (s.link cfg s.processStackFreeSlot.toNat) (s.popSlot cfg) := by
    refine ⟨hl.popSlot hne, ?_, rfl⟩
    rw [State.popSlot, State.setSp_sp_self]
    exact hl.records.top _ hlt
  exact .of_resumed_first (run_alloc module hi hne hlt) (RefusedFree.run hlt h0)
    (h hlt _ _ hI (State.setHead_eq_hide h0))

/-- A release of an active slot takes effect when it writes the head. -/
theorem FreeResumes.serial {slot : Word} (h : FreeResumes cfg slot (s.setSp slot.toNat 0) cs o)
    (hactive : s.sp slot.toNat ≠ 0) : FreeSerial cfg slot s cs o := by
  intro hlt hl ipsr hi
  have hslot : slot + 1 - 1 = slot := by bv_omega
  refine .of_resumed_last (fun u hI => ?_) (fun u _ => ?_)
    (h hlt s _ _ _ hactive ⟨hl, rfl, rfl⟩ State.setSp_eq_hide)
  · have hlive : u.Live cfg (slot + 1) := by
      rw [State.live_add_one hlt, hI.saved]
      exact hactive
    rw [run_free hi hlive, hslot]
  · exact RefusedFree.run hlt (by simp [State.pushSlot])

/-- One access. -/
theorem Explains.access {k : Pc} {p : Pc ⊕ Word} (hok : Current cfg k s)
    (ha : (callMachine cfg).access k s = some (p, s')) (h : Explains cfg p s' cs o) :
    Explains cfg (.inl k) s cs o := by
  cases k with
  | allocTest =>
      rw [access_allocTest] at ha
      split at ha
      · next hn =>
        cases ha
        obtain ⟨rfl, rfl⟩ := h
        exact fun _ ipsr module _ => .of_exec (run_alloc_refused module (Or.inr hn))
      · cases ha
        exact h
  | allocReadHead =>
      cases ha
      exact fun hl => h (hl.head hok).1 hl
  | allocReadLink slot =>
      intro hlt
      rw [access_allocReadLink hlt] at ha
      cases ha
      exact h hlt
  | allocWriteHead slot link =>
      intro hlt
      obtain ⟨rfl, hlink⟩ := hok
      cases ha
      exact AllocResumes.serial h hlt hlink
  | allocReadTop slot =>
      intro hlt u b hI hs
      rw [access_allocReadTop hlt] at ha
      cases ha
      refine h ?_ hlt u b hI hs
      rw [hs, State.hide_spTop]
      exact hI.linked.records.top _ hlt
  | allocWriteSp slot top =>
      intro htop hlt u b hI hs
      rw [access_allocWriteSp hlt] at ha
      cases ha
      obtain ⟨rfl, rfl⟩ := h
      rw [hs, htop, State.hide_setSp hI.saved hI.link]
      exact Resumed.done hI
  | freeTest slot =>
      intro hlt hl ipsr hi
      rw [access_freeTest hlt] at ha
      split at ha
      · next h0 =>
        cases ha
        obtain ⟨rfl, rfl⟩ := h
        exact .of_exec (run_free_refused fun hg => (State.live_add_one hlt).mp hg.2 h0)
      · cases ha
        exact h hlt hl ipsr hi
  | freeClear slot =>
      intro hlt
      rw [access_freeClear hlt] at ha
      cases ha
      exact FreeResumes.serial h hok hlt
  | freeReadHead slot =>
      cases ha
      exact h
  | freeWriteLink slot head =>
      intro hlt u a b v hne hI hs
      rw [access_freeWriteLink hlt] at ha
      cases ha
      refine h hlt u a b head hne hI ?_
      rw [hs, State.hide_setLink]
  | freeWriteHead slot =>
      intro hlt u a b v hne hI hs
      cases ha
      obtain ⟨rfl, rfl⟩ := h
      -- the link written is the current head
      have hv : v = u.processStackFreeSlot := by
        have hlink : s.link cfg slot.toNat = s.processStackFreeSlot := hok
        rwa [hs, State.hide_link_self, State.hide_head] at hlink
      rw [hs, hv]
      exact Resumed.done hI

/-- An access does not fault. -/
theorem Explains.fault {k : Pc} (ha : (callMachine cfg).access k s = none) :
    Explains cfg (.inl k) s cs o := by
  cases k with
  | allocTest =>
      rw [access_allocTest] at ha
      split at ha
      · cases ha
      · cases ha
  | allocReadHead => cases ha
  | allocReadLink slot =>
      intro hlt
      rw [access_allocReadLink hlt] at ha
      cases ha
  | allocWriteHead slot link => cases ha
  | allocReadTop slot =>
      intro hlt
      rw [access_allocReadTop hlt] at ha
      cases ha
  | allocWriteSp slot top =>
      intro _ hlt
      rw [access_allocWriteSp hlt] at ha
      cases ha
  | freeTest slot =>
      intro hlt
      rw [access_freeTest hlt] at ha
      split at ha
      · cases ha
      · cases ha
  | freeClear slot =>
      intro hlt
      rw [access_freeClear hlt] at ha
      cases ha
  | freeReadHead slot => cases ha
  | freeWriteLink slot head =>
      intro hlt
      rw [access_freeWriteLink hlt] at ha
      cases ha
  | freeWriteHead slot => cases ha

/-- Every nested execution in which values are current is explained, from every
control point. -/
theorem explains_of_nested {p : Pc ⊕ Word}
    (h : (callMachine cfg).Nested (Current cfg) p s cs o) : Explains cfg p s cs o := by
  induction h with
  | done => exact ⟨rfl, rfl⟩
  | fault _ ha => exact Explains.fault ha
  | step hok ha _ ih => exact ih.access hok ha
  | preempt _ _ ihc ih => exact ih.preempt fun hl => serial_of_explains ihc hl
  | preemptFault _ ih =>
      exact Explains.of_not_linked fun hl => not_serial_none (serial_of_explains ih hl)

/-! ## Holders of an identifier -/

/-- An allocation that returned `id`. -/
def takes (id : Word) : Call × Word → Bool
  | (.alloc _ _, r) => decide (r = id)
  | (.free _ _, _) => false

/-- A successful release of `id`. -/
def gives (id : Word) : Call × Word → Bool
  | (.alloc _ _, _) => false
  | (.free _ j, r) => decide (j = id ∧ r = 1)

/-- The number of holders of an identifier, according to the records. -/
def State.holders (s : State) (cfg : Config) (id : Word) : Nat := if s.Live cfg id then 1 else 0

theorem State.holders_of_live {id : Word} (h : s.Live cfg id) : s.holders cfg id = 1 := if_pos h

theorem State.holders_of_not_live {id : Word} (h : ¬ s.Live cfg id) : s.holders cfg id = 0 :=
  if_neg h

theorem State.holders_congr {id : Word} (h : s'.sp (id - 1).toNat = s.sp (id - 1).toNat) :
    s'.holders cfg id = s.holders cfg id := by
  by_cases hl : s.Live cfg id
  · have hl' : s'.Live cfg id := ⟨hl.1, by rw [h]; exact hl.2⟩
    rw [holders_of_live hl, holders_of_live hl']
  · have hl' : ¬ s'.Live cfg id := fun h' => hl ⟨h'.1, by rw [← h]; exact h'.2⟩
    rw [holders_of_not_live hl, holders_of_not_live hl']

/-- A call changes the number of holders as its result says. -/
theorem Linked.balance_call (hl : Linked cfg s) {c : Call} {r id : Word} (hid : id ≠ 0)
    (hc : c.run cfg s = some (r, s')) :
    (if takes id (c, r) then 1 else 0) + s.holders cfg id =
      (if gives id (c, r) then 1 else 0) + s'.holders cfg id := by
  cases c with
  | alloc ipsr module =>
      rw [Call.run] at hc
      simp only [takes, gives, decide_eq_true_eq]
      cases effect_of_exec hc with
      | refused _ => rw [if_neg hid.symm]; rfl
      | alloc _ hne hlt =>
          rcases eq_or_ne (s.processStackFreeSlot + 1) id with rfl | he
          · have hbefore : ¬ s.Live cfg (s.processStackFreeSlot + 1) := fun h =>
              (State.live_add_one hlt).mp h (hl.head hne).2
            have hafter : (s.popSlot cfg).Live cfg (s.processStackFreeSlot + 1) := by
              rw [State.live_add_one hlt, State.popSlot, State.setSp_sp_self]
              exact hl.records.top_ne_zero hlt
            rw [if_pos rfl, State.holders_of_not_live hbefore, State.holders_of_live hafter]
            rfl
          · have hslot : (id - 1).toNat ≠ s.processStackFreeSlot.toNat := fun heq =>
              he (by bv_omega)
            rw [if_neg he, State.holders_congr (State.popSlot_sp_ne hslot)]
            rfl
  | free ipsr j =>
      rw [Call.run] at hc
      simp only [takes, gives, decide_eq_true_eq]
      cases effect_of_exec hc with
      | refused _ => rw [if_neg (fun h : j = id ∧ (0 : Word) = 1 => absurd h.2 (by decide))]; rfl
      | free _ hlive =>
          rcases eq_or_ne j id with rfl | he
          · have hafter : ¬ (s.pushSlot cfg (j - 1)).Live cfg j := fun h =>
              h.2 (by rw [State.pushSlot, State.setHead_sp, State.setLink_sp, State.setSp_sp_self])
            rw [if_pos ⟨rfl, rfl⟩, State.holders_of_live hlive, State.holders_of_not_live hafter]
            rfl
          · have hslot : (id - 1).toNat ≠ (j - 1).toNat := fun heq => he (by bv_omega)
            rw [if_neg fun h => he h.1, State.holders_congr (State.pushSlot_sp_ne hslot)]
            rfl

/-- Over a sequence, what is taken and what is held before is what is given back
and what is held after. -/
theorem Linked.balance {id : Word} (hid : id ≠ 0) (hr : Sequence (Call.run cfg) s cs s')
    (hl : Linked cfg s) :
    cs.countP (takes id) + s.holders cfg id = cs.countP (gives id) + s'.holders cfg id := by
  induction hr with
  | nil => rfl
  | @cons s s₁ s' c cs hc _ ih =>
      have hcall : (if takes id c then 1 else 0) + s.holders cfg id =
          (if gives id c then 1 else 0) + s₁.holders cfg id := hl.balance_call hid hc
      have hrest := ih (hl.call hc)
      rw [List.countP_cons, List.countP_cons]
      omega

theorem Ready.sequence (h : Ready cfg s) (hr : Sequence (Call.run cfg) s cs s') :
    Ready cfg s' := by
  refine hr.invariant (fun s l s' hi hc => ?_) h
  obtain ⟨c, r⟩ := l
  cases c with
  | alloc ipsr module =>
      have heffect : Effect cfg s (.alloc module) r s' := effect_of_exec hc
      exact hi.effect heffect
  | free ipsr id =>
      have heffect : Effect cfg s (.free id) r s' := effect_of_exec hc
      exact hi.effect heffect

/-- A call that is not preempted finds its values current. -/
theorem nested_of_run {ok : Pc → State → Prop} (hok : ∀ k s, Current cfg k s → ok k s) {c : Call}
    {r : Word} (hc : c.run cfg s = some (r, s')) :
    (callMachine cfg).Nested ok ((callMachine cfg).entry c) s [] (some (r, s')) := by
  cases c with
  | alloc ipsr module =>
      rw [entry_alloc]
      rw [Call.run, exec, tzAllocModuleContextS_eq] at hc
      by_cases hi : ipsr = 0
      · rw [if_pos (Or.inl hi)] at hc
        cases hc
        rw [if_pos hi]
        exact .done
      · rw [if_neg hi]
        by_cases hne : s.processStackFreeSlot = noSlot
        · rw [if_pos (Or.inr hne)] at hc
          cases hc
          exact .step (hok _ _ trivial) (access_allocTest.trans (if_pos hne)) .done
        · rw [if_neg (not_or.mpr ⟨hi, hne⟩)] at hc
          split at hc
          · next hlt =>
            cases hc
            exact .step (hok _ _ trivial) (access_allocTest.trans (if_neg hne))
              (.step (hok _ _ hne) access_allocReadHead
                (.step (hok _ _ trivial) (access_allocReadLink hlt)
                  (.step (hok _ _ ⟨rfl, rfl⟩) access_allocWriteHead
                    (.step (hok _ _ trivial) (access_allocReadTop hlt)
                      (.step (hok _ _ trivial) (access_allocWriteSp hlt) .done)))))
          · cases hc
  | free ipsr id =>
      rw [entry_free]
      rw [Call.run, exec, tzFreeModuleContextS_eq] at hc
      by_cases hg : ipsr ≠ 0 ∧ cfg.ValidId id
      · have hlt := hg.2.slot_lt
        rw [if_pos hg]
        by_cases hsp : s.sp (id - 1).toNat = 0
        · rw [if_neg fun h => h.2.2 hsp] at hc
          cases hc
          exact .step (hok _ _ trivial) ((access_freeTest hlt).trans (if_pos hsp)) .done
        · rw [if_pos ⟨hg.1, hg.2, hsp⟩] at hc
          cases hc
          exact .step (hok _ _ trivial) ((access_freeTest hlt).trans (if_neg hsp))
            (.step (hok _ _ hsp) (access_freeClear hlt)
              (.step (hok _ _ trivial) access_freeReadHead
                (.step (hok _ _ trivial) (access_freeWriteLink hlt)
                  (.step (hok _ _ (State.setLink_link_self ..)) access_freeWriteHead .done))))
      · rw [if_neg fun h => hg ⟨h.1, h.2.1⟩] at hc
        cases hc
        rw [if_neg hg]
        exact .done

/-! ## The result -/

/-- **Nested calls are serial while their values are current.**  From every
initialised reachable state, a nested execution in which every call acts on
current values does not fault.  Its results and its final state are those of a
sequence of the same calls.  The free list is acyclic and holds exactly the
inactive slots, and for every identifier the allocations and releases add up,
so no identifier has two holders and no slot is lost. -/
theorem nested_serial {s₀ : State} {es : List Event} (h0 : IsReset s₀)
    (hr : ClientRun cfg s₀ es s) (hi : Initialised es) {c : Call}
    (hn : (callMachine cfg).Nested (Current cfg) ((callMachine cfg).entry c) s cs o) :
    ∃ r s', o = some (r, s') ∧
      (∃ order, order ~ (c, r) :: cs ∧ Sequence (Call.run cfg) s order s') ∧
      (∃ l, FreeList cfg s' l ∧ l.Nodup) ∧
      ∀ id, id ≠ 0 → ((c, r) :: cs).countP (takes id) + s.holders cfg id =
        ((c, r) :: cs).countP (gives id) + s'.holders cfg id := by
  have hready : Ready cfg s := ((dormant_of_isReset h0).run hr).1 hi
  obtain ⟨r, s', order, ho, hperm, hrun⟩ :=
    serial_of_explains (explains_of_nested hn) hready.linked
  obtain ⟨_, l, hfree⟩ := hready.sequence hrun
  refine ⟨r, s', ho, ⟨order, hperm, hrun⟩, ⟨l, hfree, hfree.chain.nodup⟩, fun id hid => ?_⟩
  rw [← hperm.countP_eq, ← hperm.countP_eq]
  exact Linked.balance hid hrun hready.linked

/-- The state after the initialisation. -/
def freshState : State := State.initialise .zero .small

theorem clientRun_fresh : ClientRun .small .zero [.call 11 .init 1] freshState :=
  .single ⟨trivial, tzInitContextSystemS_eq 11⟩

/-- The state after the first allocation has written the head. -/
def lateState : State := freshState.setHead (freshState.link .small 0)

/-- A second allocation runs after the first one has written the head. -/
theorem nested_late :
    (callMachine .small).Nested (Current .small) (.inl .allocTest) freshState [(.alloc 14 0, 2)]
      (some (1, (lateState.popSlot .small).setSp 0 0x20001010)) := by
  have hsecond : (Call.alloc 14 0).run .small lateState = some (2, lateState.popSlot .small) :=
    run_alloc 0 (by decide) (by decide) (by decide)
  refine .step trivial (access_allocTest.trans (if_neg (by decide))) ?_
  refine .step (show freshState.processStackFreeSlot ≠ noSlot by decide) access_allocReadHead ?_
  refine .step trivial (access_allocReadLink (by decide)) ?_
  refine .step ⟨rfl, rfl⟩ access_allocWriteHead ?_
  refine .preempt (nested_of_run (fun _ _ h => h) hsecond) ?_
  refine .step trivial (access_allocReadTop (by decide)) ?_
  exact .step trivial (access_allocWriteSp (by decide)) .done

theorem nested_serial_late :
    ∃ r s', some (1, (lateState.popSlot .small).setSp 0 0x20001010) = some (r, s') ∧
      (∃ order, order ~ (.alloc 11 0, r) :: [(.alloc 14 0, 2)] ∧
        Sequence (Call.run .small) freshState order s') ∧
      (∃ l, FreeList .small s' l ∧ l.Nodup) ∧
      ∀ id, id ≠ 0 →
        ((.alloc 11 0, r) :: [(.alloc 14 0, 2)]).countP (takes id) +
            freshState.holders .small id =
          ((.alloc 11 0, r) :: [(.alloc 14 0, 2)]).countP (gives id) + s'.holders .small id :=
  nested_serial isReset_zero clientRun_fresh ⟨11, by decide⟩ nested_late

/-- The state after a whole allocation and the head write of another one that
had read the head before. -/
def earlyState : State :=
  (freshState.popSlot .small).setHead ((freshState.popSlot .small).link .small 0)

/-- A second allocation runs after the first one has read the head. -/
theorem nested_early :
    (callMachine .small).Nested (fun _ _ => True) ((callMachine .small).entry (.alloc 11 0))
      freshState [(.alloc 14 0, 1)] (some (1, earlyState.setSp 0 0x20001010)) := by
  have hsecond : (Call.alloc 14 0).run .small freshState = some (1, freshState.popSlot .small) :=
    run_alloc 0 (by decide) (by decide) (by decide)
  refine .step trivial (access_allocTest.trans (if_neg (by decide))) ?_
  refine .step trivial access_allocReadHead ?_
  refine .preempt (nested_of_run (fun _ _ _ => trivial) hsecond) ?_
  refine .step trivial (access_allocReadLink (by decide)) ?_
  refine .step trivial access_allocWriteHead ?_
  refine .step trivial (access_allocReadTop (by decide)) ?_
  exact .step trivial (access_allocWriteSp (by decide)) .done

/-- Without the condition nested calls need not be serial: both allocations
return the identifier 1, and no sequence of two allocations does that. -/
theorem not_serial_nested :
    ClientRun .small .zero [.call 11 .init 1] freshState ∧
      (callMachine .small).Nested (fun _ _ => True) ((callMachine .small).entry (.alloc 11 0))
        freshState [(.alloc 14 0, 1)] (some (1, earlyState.setSp 0 0x20001010)) ∧
      ∀ s' order, order ~ [(.alloc 11 0, 1), (.alloc 14 0, 1)] →
        ¬ Sequence (Call.run .small) freshState order s' := by
  refine ⟨clientRun_fresh, nested_early, fun s' order hperm hrun => ?_⟩
  have hlinked : Linked .small freshState := (ready_initialise State.zero).linked
  have hbalance := Linked.balance (by decide : (1 : Word) ≠ 0) hrun hlinked
  have htaken : order.countP (takes 1) = 2 := hperm.countP_eq _
  have hgiven : order.countP (gives 1) = 0 := hperm.countP_eq _
  have hone : s'.holders .small 1 ≤ 1 := by
    rw [State.holders]
    split <;> omega
  omega

end TzContext
