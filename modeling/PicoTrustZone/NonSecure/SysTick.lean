import Mathlib.Data.BitVec
import Mathlib.Logic.Function.Basic
import Mathlib.Tactic.SplitIfs
import PicoTrustZone.Lib.DownCounter

/-!
# The tick of the non-secure image

`init_systick` of `nonsecure/src/main_ns.c`, the functions of `core_cm33.h` that
it calls, and the timer that they set up.

The timer is a reloading down counter of 24 bits.  `init_systick` writes a fixed
reload value first.  `SysTick_Config` replaces it, unless it refuses its argument,
and its result is not looked at.  At the end the timer is enabled in either case.

The code takes no time here.  The cycles that it takes on the core only shift the
place of the interrupts in their period.
-/

namespace NonSecure

/-- `SysTick_CTRL_COUNTFLAG_Msk`. -/
def countflagMsk : BitVec 32 := 1 <<< 16

/-- `SysTick_CTRL_CLKSOURCE_Msk`. -/
def clksourceMsk : BitVec 32 := 1 <<< 2

/-- `SysTick_CTRL_TICKINT_Msk`. -/
def tickintMsk : BitVec 32 := 1 <<< 1

/-- `SysTick_CTRL_ENABLE_Msk`. -/
def enableMsk : BitVec 32 := 1

/-- `SysTick_LOAD_RELOAD_Msk`. -/
def reloadMsk : BitVec 32 := 0xFFFFFF

/-- `__NVIC_PRIO_BITS`. -/
def nvicPrioBits : Nat := 4

/-- `SysTick_IRQn`. -/
def sysTickIRQn : Int := -1

/-- The system registers that `init_systick` reads or writes. -/
structure Core where
  /-- `SysTick->CTRL`, which the SDK calls `systick_hw->csr`. -/
  csr : BitVec 32
  /-- `SysTick->LOAD`, which the SDK calls `systick_hw->rvr`. -/
  rvr : BitVec 32
  /-- `SysTick->VAL`. -/
  cvr : BitVec 32
  /-- `NVIC->ISER`. -/
  iser : Nat → BitVec 32
  /-- `NVIC->IPR`. -/
  ipr : Nat → BitVec 8
  /-- `SCB->SHPR`. -/
  shpr : Nat → BitVec 8
  /-- `PRIMASK`: interrupts are masked. -/
  primask : Bool

namespace Core

/-! ## Register writes -/

/-- A write leaves the read-only `COUNTFLAG`. -/
def writeCsr (c : Core) (v : BitVec 32) : Core :=
  { c with csr := (c.csr &&& countflagMsk) ||| (v &&& (clksourceMsk ||| tickintMsk ||| enableMsk)) }

def writeRvr (c : Core) (v : BitVec 32) : Core := { c with rvr := v &&& reloadMsk }

/-- A write of any value clears the counter and `COUNTFLAG`. -/
def writeCvr (c : Core) (_ : BitVec 32) : Core :=
  { c with csr := c.csr &&& ~~~countflagMsk, cvr := 0 }

/-- A write enables the interrupts whose bits are ones. -/
def writeIser (c : Core) (i : Nat) (v : BitVec 32) : Core :=
  { c with iser := Function.update c.iser i (c.iser i ||| v) }

def writeIpr (c : Core) (i : Nat) (v : BitVec 8) : Core :=
  { c with ipr := Function.update c.ipr i v }

def writeShpr (c : Core) (i : Nat) (v : BitVec 8) : Core :=
  { c with shpr := Function.update c.shpr i v }

end Core

/-! ## The code -/

/-- `__NVIC_EnableIRQ`. -/
def nvicEnableIRQ (irqn : Int) (c : Core) : Core :=
  if 0 ≤ irqn then
    let irqn := BitVec.ofInt 32 irqn
    c.writeIser (irqn >>> 5).toNat ((1 : BitVec 32) <<< (irqn &&& 0x1F))
  else c

/-- `__NVIC_SetPriority`. -/
def nvicSetPriority (irqn : Int) (priority : BitVec 32) (c : Core) : Core :=
  let byte := ((priority <<< (8 - nvicPrioBits)) &&& 0xFF).setWidth 8
  if 0 ≤ irqn then c.writeIpr (BitVec.ofInt 32 irqn).toNat byte
  else c.writeShpr ((BitVec.ofInt 32 irqn &&& 0xF) - 4).toNat byte

/-- `SysTick_Config`: the result, which is 1 if the reload value is impossible,
and the registers. -/
def sysTickConfig (ticks : BitVec 32) (c : Core) : BitVec 32 × Core :=
  if reloadMsk < ticks - 1 then (1, c)
  else
    let c := c.writeRvr (ticks - 1)
    let c := nvicSetPriority sysTickIRQn ((1 <<< nvicPrioBits) - 1) c
    let c := c.writeCvr 0
    (0, c.writeCsr (clksourceMsk ||| tickintMsk ||| enableMsk))

/-- `__enable_irq`. -/
def enableIrq (c : Core) : Core := { c with primask := false }

/-- The division of `uint32_t`, which is undefined for a zero divisor. -/
def udiv (a b : BitVec 32) : Option (BitVec 32) := if b = 0 then none else some (a / b)

/-- The argument of `SysTick_Config`. -/
def systickTicks (systemCoreClock uwTickFreq : BitVec 32) : Option (BitVec 32) := do
  let period ← udiv 1000 uwTickFreq
  udiv systemCoreClock period

/-- `init_systick`: the registers on return, or nothing if it divides by zero. -/
def initSystick (systemCoreClock uwTickFreq : BitVec 32) (c : Core) : Option Core := do
  let c := c.writeCsr 0
  let c := c.writeRvr (100000 - 1)
  let ticks ← systickTicks systemCoreClock uwTickFreq
  -- the result of `SysTick_Config` is dropped
  let c := (sysTickConfig ticks c).2
  let c := nvicEnableIRQ sysTickIRQn c
  let c := nvicSetPriority sysTickIRQn 0 c
  let c := c.writeCsr 0x10007
  some (enableIrq c)

/-! ## The timer -/

namespace Core

/-- The timer counts the cycles of the core. -/
def Counting (c : Core) : Prop := c.csr &&& enableMsk ≠ 0 ∧ c.csr &&& clksourceMsk ≠ 0

/-- Counting down to zero requests the exception. -/
def Requesting (c : Core) : Prop := c.csr &&& tickintMsk ≠ 0

instance (c : Core) : Decidable c.Counting := inferInstanceAs (Decidable (_ ∧ _))
instance (c : Core) : Decidable c.Requesting := inferInstanceAs (Decidable (_ ≠ _))

/-- One cycle of the core, as far as the timer is concerned. -/
def cycle (c : Core) : Core :=
  if c.Counting then
    if c.cvr = 0 then { c with cvr := c.rvr }
    else if c.cvr = 1 then { c with cvr := 0, csr := c.csr ||| countflagMsk }
    else { c with cvr := c.cvr - 1 }
  else c

/-- The next cycle counts down to zero and interrupts. -/
def Interrupts (c : Core) : Prop :=
  c.Counting ∧ c.Requesting ∧ c.cvr = 1 ∧ c.primask = false

/-- The timer interrupts once in every `n` cycles. -/
def InterruptsEvery (c : Core) (n : Nat) : Prop :=
  DownCounter.OnceEvery n fun t => (cycle^[t] c).Interrupts

/-- The timer counts the cycles of the core and its interrupt is let through. -/
structure Ticking (c : Core) : Prop where
  counting : c.Counting
  requesting : c.Requesting
  unmasked : c.primask = false

/-! ## Cycles -/

/-- `COUNTFLAG` is none of the bits that software sets. -/
theorem or_countflag_and (a : BitVec 32) {m : BitVec 32} (hm : countflagMsk &&& m = 0) :
    (a ||| countflagMsk) &&& m = a &&& m := by
  rw [BitVec.and_or_distrib_right, hm]
  simp

/-- A cycle sets no bit of `CTRL` other than `COUNTFLAG`. -/
theorem cycle_csr_and (c : Core) {m : BitVec 32} (hm : countflagMsk &&& m = 0) :
    c.cycle.csr &&& m = c.csr &&& m := by
  rw [cycle]
  split
  · split
    · rfl
    · split
      · exact or_countflag_and c.csr hm
      · rfl
  · rfl

@[simp] theorem cycle_rvr (c : Core) : c.cycle.rvr = c.rvr := by
  rw [cycle]
  split_ifs <;> rfl

@[simp] theorem cycle_primask (c : Core) : c.cycle.primask = c.primask := by
  rw [cycle]
  split_ifs <;> rfl

theorem cycle_cvr {c : Core} (h : c.Counting) :
    c.cycle.cvr.toNat = DownCounter.next c.rvr.toNat c.cvr.toNat := by
  have hzero : c.cvr = 0 ↔ c.cvr.toNat = 0 := BitVec.toNat_inj.symm
  rw [cycle, if_pos h, DownCounter.next]
  rcases eq_or_ne c.cvr 0 with h0 | h0
  · rw [if_pos h0, if_pos (hzero.mp h0)]
  · rw [if_neg h0, if_neg (mt hzero.mpr h0)]
    split
    · next h1 =>
      rw [h1]
      rfl
    · next h1 =>
      show (c.cvr - 1).toNat = c.cvr.toNat - 1
      bv_omega

theorem Ticking.cycle {c : Core} (h : c.Ticking) : c.cycle.Ticking where
  counting := by
    rw [Counting, cycle_csr_and c (by decide), cycle_csr_and c (by decide)]
    exact h.counting
  requesting := by
    rw [Requesting, cycle_csr_and c (by decide)]
    exact h.requesting
  unmasked := by rw [cycle_primask, h.unmasked]

/-- The timer goes on as a reloading down counter. -/
theorem Ticking.iterate {c : Core} (h : c.Ticking) (t : Nat) :
    (Core.cycle^[t] c).Ticking ∧ (Core.cycle^[t] c).rvr = c.rvr ∧
      (Core.cycle^[t] c).cvr.toNat = (DownCounter.next c.rvr.toNat)^[t] c.cvr.toNat := by
  induction t with
  | zero => exact ⟨h, rfl, rfl⟩
  | succ t ih =>
      obtain ⟨hticking, hrvr, hcvr⟩ := ih
      rw [Function.iterate_succ_apply', Function.iterate_succ_apply']
      refine ⟨hticking.cycle, ?_, ?_⟩
      · rw [cycle_rvr, hrvr]
      · rw [cycle_cvr hticking.counting, hrvr, hcvr]

theorem Ticking.interrupts_iff {c : Core} (h : c.Ticking) (t : Nat) :
    (Core.cycle^[t] c).Interrupts ↔ DownCounter.Fires c.rvr.toNat c.cvr.toNat t := by
  obtain ⟨hticking, -, hcvr⟩ := h.iterate t
  rw [DownCounter.Fires, ← hcvr]
  constructor
  · intro hint
    rw [hint.2.2.1]
    rfl
  · intro hone
    exact ⟨hticking.counting, hticking.requesting, BitVec.eq_of_toNat_eq hone, hticking.unmasked⟩

/-- With a positive reload value the timer interrupts once in a period that is one
cycle longer. -/
theorem Ticking.interruptsEvery {c : Core} (h : c.Ticking) (hpos : 0 < c.rvr.toNat)
    (hle : c.cvr.toNat ≤ c.rvr.toNat) : c.InterruptsEvery (c.rvr.toNat + 1) := by
  obtain ⟨t₀, hlt, hiff⟩ := DownCounter.onceEvery_fires hpos hle
  exact ⟨t₀, hlt, fun t => (h.interrupts_iff t).trans (hiff t)⟩

/-- A timer that starts from zero has this period unless its reload value is zero
too: then it never interrupts. -/
theorem Ticking.interruptsEvery_iff {c : Core} (h : c.Ticking) (hcvr : c.cvr = 0) :
    c.InterruptsEvery (c.rvr.toNat + 1) ↔ 0 < c.rvr.toNat := by
  constructor
  · intro hevery
    rcases Nat.eq_zero_or_pos c.rvr.toNat with h0 | hpos
    · obtain ⟨t, ht⟩ := hevery.exists_holds
      have hfires := (h.interrupts_iff t).mp ht
      rw [h0, hcvr] at hfires
      exact absurd hfires (DownCounter.not_fires_zero t)
    · exact hpos
  · intro hpos
    rw [← BitVec.toNat_inj] at hcvr
    exact h.interruptsEvery hpos (hcvr.trans_le hpos.le)

end Core

end NonSecure
