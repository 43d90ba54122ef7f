import Mathlib.Algebra.Group.Nat.Defs
import PicoTrustZone.NonSecure.SysTick

/-!
# The rate of the tick

`init_systick` is called with the frequency of the tick in Hz.  The number of
cycles in a tick is the core clock divided by the frequency, but the code divides
by `1000U / uwTickFreq`, the length of the tick in milliseconds.  The two
quotients agree only if both divisors fit into the clock the same number of times
(`setsTickRate_iff`), which no clock of 1 kHz or more allows
(`RateWindow.clock_lt`).

At the one call of the repository, with 1000 Hz, the length is one millisecond
and the clock itself is the argument of `SysTick_Config`.  For every clock above
2^24 Hz it is refused, and the reload value that was written before stays
(`initSystick_main`).
-/

namespace NonSecure

/-! ## What the functions return -/

/-- The bits of `CTRL` that software sets are the ones it wrote last. -/
theorem Core.writeCsr_and (c : Core) (v : BitVec 32) {m : BitVec 32}
    (hm : countflagMsk &&& m = 0) :
    (c.writeCsr v).csr &&& m = v &&& (clksourceMsk ||| tickintMsk ||| enableMsk) &&& m := by
  rw [Core.writeCsr, BitVec.and_or_distrib_right, BitVec.and_assoc, hm]
  simp

/-- `SysTick_Config` refuses all numbers of cycles but those from 1 to 2^24. -/
theorem reloadMsk_lt_iff (ticks : BitVec 32) :
    reloadMsk < ticks - 1 ↔ ¬ (1 ≤ ticks.toNat ∧ ticks.toNat ≤ 2 ^ 24) := by
  rw [reloadMsk]
  bv_omega

theorem and_reloadMsk {v : BitVec 32} (h : ¬ reloadMsk < v) : v &&& reloadMsk = v := by
  have hlt : v.toNat < 2 ^ 24 := by
    rw [reloadMsk] at h
    bv_omega
  rw [← BitVec.toNat_inj, BitVec.toNat_and]
  exact Nat.and_two_pow_sub_one_of_lt_two_pow hlt

theorem sysTickConfig_fst_eq_zero_iff (ticks : BitVec 32) (c : Core) :
    (sysTickConfig ticks c).1 = 0 ↔ 1 ≤ ticks.toNat ∧ ticks.toNat ≤ 2 ^ 24 := by
  rw [sysTickConfig]
  split
  · next h => exact iff_of_false (by simp) ((reloadMsk_lt_iff ticks).mp h)
  · next h => exact iff_of_true rfl (not_not.mp (mt (reloadMsk_lt_iff ticks).mpr h))

/-- The timer before and after `init_systick`, by the argument of
`SysTick_Config`. -/
structure SetUp (ticks : BitVec 32) (c c' : Core) : Prop where
  ticking : c'.Ticking
  accepted : 1 ≤ ticks.toNat → ticks.toNat ≤ 2 ^ 24 → c'.rvr = ticks - 1 ∧ c'.cvr = 0
  refused : ¬ (1 ≤ ticks.toNat ∧ ticks.toNat ≤ 2 ^ 24) → c'.rvr = 100000 - 1 ∧ c'.cvr = c.cvr

/-- The last statements enable the timer, its interrupt and all interrupts. -/
theorem Core.ticking_writeCsr (c : Core) : (enableIrq (c.writeCsr 0x10007)).Ticking := by
  have hcsr : ∀ m, countflagMsk &&& m = 0 → (enableIrq (c.writeCsr 0x10007)).csr &&& m =
      0x10007 &&& (clksourceMsk ||| tickintMsk ||| enableMsk) &&& m := fun m hm =>
    c.writeCsr_and 0x10007 hm
  refine ⟨⟨?_, ?_⟩, ?_, rfl⟩
  · rw [hcsr enableMsk (by decide)]
    decide
  · rw [hcsr clksourceMsk (by decide)]
    decide
  · rw [Core.Requesting, hcsr tickintMsk (by decide)]
    decide

theorem initSystick_of_ticks {clk f ticks : BitVec 32} (h : systickTicks clk f = some ticks)
    (c : Core) : ∃ c', initSystick clk f c = some c' ∧ SetUp ticks c c' := by
  refine ⟨_, by rw [initSystick, h]; rfl, Core.ticking_writeCsr _, ?_, ?_⟩
  · intro hpos hle
    have hok : ¬ reloadMsk < ticks - 1 := by
      rw [reloadMsk_lt_iff]
      exact not_not_intro ⟨hpos, hle⟩
    rw [sysTickConfig, if_neg hok]
    exact ⟨and_reloadMsk hok, rfl⟩
  · intro hno
    rw [sysTickConfig, if_pos ((reloadMsk_lt_iff ticks).mpr hno)]
    exact ⟨rfl, rfl⟩

theorem initSystick_of_none {clk f : BitVec 32} (h : systickTicks clk f = none) (c : Core) :
    initSystick clk f c = none := by
  rw [initSystick, h]
  rfl

theorem udiv_eq_some_iff {a b q : BitVec 32} :
    udiv a b = some q ↔ 0 < b.toNat ∧ q.toNat = a.toNat / b.toNat := by
  rw [udiv]
  split
  · next h => simp [h]
  · next h =>
    have hpos : 0 < b.toNat := by bv_omega
    rw [Option.some_inj, ← BitVec.toNat_inj, BitVec.toNat_udiv, eq_comm]
    exact (and_iff_right hpos).symm

/-- The argument of `SysTick_Config` is the quotient by the length of the tick in
milliseconds, and there is none for a tick that is shorter than one. -/
theorem systickTicks_eq_some_iff {clk f ticks : BitVec 32} (hf : 1 ≤ f.toNat) :
    systickTicks clk f = some ticks ↔
      0 < 1000 / f.toNat ∧ ticks.toNat = clk.toNat / (1000 / f.toNat) := by
  rw [systickTicks, Option.bind_eq_bind, Option.bind_eq_some_iff]
  constructor
  · rintro ⟨period, hperiod, hticks⟩
    obtain ⟨-, hp⟩ := udiv_eq_some_iff.mp hperiod
    rw [udiv_eq_some_iff, hp] at hticks
    exact hticks
  · intro h
    have hp : (1000 / f).toNat = 1000 / f.toNat := BitVec.toNat_udiv
    refine ⟨1000 / f, udiv_eq_some_iff.mpr ⟨hf, hp⟩, ?_⟩
    rw [udiv_eq_some_iff, hp]
    exact h

/-- `init_systick` divides by zero for the frequencies above 1 kHz, whose ticks are
shorter than a millisecond. -/
theorem initSystick_eq_none_iff {clk f : BitVec 32} (hf : 1 ≤ f.toNat) (c : Core) :
    initSystick clk f c = none ↔ 1000 < f.toNat := by
  rw [← Nat.div_eq_zero_iff_lt hf]
  cases h : systickTicks clk f with
  | none =>
      refine iff_of_true (initSystick_of_none h c) ?_
      rcases Nat.eq_zero_or_pos (1000 / f.toNat) with h0 | hp
      · exact h0
      · have hsome : systickTicks clk f = some (clk / (1000 / f)) := by
          rw [systickTicks_eq_some_iff hf, BitVec.toNat_udiv, BitVec.toNat_udiv]
          exact ⟨hp, rfl⟩
        rw [h] at hsome
        cases hsome
  | some ticks =>
      obtain ⟨c', hinit, -⟩ := initSystick_of_ticks h c
      obtain ⟨hp, -⟩ := (systickTicks_eq_some_iff hf).mp h
      exact iff_of_false (by rw [hinit]; simp) hp.ne'

/-- A reload value of `n - 1` makes periods of `n` cycles. -/
theorem toNat_eq_succ {r n : BitVec 32} (hpos : 1 ≤ n.toNat) (h : r = n - 1) :
    n.toNat = r.toNat + 1 := by
  rw [h]
  bv_omega

/-! ## The requested rate -/

/-- The frequency is positive and a tick has between 1 and 2^24 cycles. -/
structure Requestable (clk f : BitVec 32) : Prop where
  freq : 1 ≤ f.toNat
  pos : 1 ≤ (clk / f).toNat
  le : (clk / f).toNat ≤ 2 ^ 24

/-- `init_systick` divides by no zero, `SysTick_Config` accepts its argument, and
the timer is enabled with the reload value of the requested tick and interrupts
once in every tick. -/
def SetsTickRate (clk f : BitVec 32) (c : Core) : Prop :=
  ∃ ticks c', systickTicks clk f = some ticks ∧ initSystick clk f c = some c' ∧
    (∀ d, (sysTickConfig ticks d).1 = 0) ∧ c'.Counting ∧ c'.Requesting ∧
    c'.rvr = clk / f - 1 ∧ c'.InterruptsEvery (clk / f).toNat

/-- The frequency and the length of the tick in milliseconds fit into the clock
the same number of times, at least twice. -/
def RateWindow (clk f : Nat) : Prop :=
  ∃ k, 2 ≤ k ∧ k * max f (1000 / f) ≤ clk ∧ clk < (k + 1) * min f (1000 / f)

/-- Two divisors that fit the same number of times. -/
theorem div_eq_div_iff_window {a b : Nat} (ha : 0 < a) (hb : 0 < b) (n k : Nat) :
    n / a = k ∧ n / b = k ↔ k * max a b ≤ n ∧ n < (k + 1) * min a b := by
  rw [Nat.div_eq_iff ha, Nat.div_eq_iff hb]
  rcases Nat.le_total a b with hab | hba
  · have hmul : k * a ≤ k * b := Nat.mul_le_mul_left k hab
    rw [Nat.max_eq_right hab, Nat.min_eq_left hab, Nat.succ_mul]
    omega
  · have hmul : k * b ≤ k * a := Nat.mul_le_mul_left k hba
    rw [Nat.max_eq_left hba, Nat.min_eq_right hba, Nat.succ_mul]
    omega

theorem rateWindow_iff {clk f : Nat} (hf : 1 ≤ f) :
    RateWindow clk f ↔ 0 < 1000 / f ∧ clk / (1000 / f) = clk / f ∧ 2 ≤ clk / f := by
  constructor
  · rintro ⟨k, hk, hle, hlt⟩
    have hp : 0 < 1000 / f := by
      rcases Nat.eq_zero_or_pos (1000 / f) with h0 | hp
      · simp [h0] at hlt
      · exact hp
    obtain ⟨hdf, hdp⟩ := (div_eq_div_iff_window hf hp clk k).mpr ⟨hle, hlt⟩
    exact ⟨hp, hdp.trans hdf.symm, hdf ▸ hk⟩
  · rintro ⟨hp, hdp, hk⟩
    exact ⟨clk / f, hk, (div_eq_div_iff_window hf hp clk _).mp ⟨rfl, hdp⟩⟩

/-- No frequency is the length of its tick in milliseconds: 1000 lies between two
products of neighbours. -/
theorem ne_thousand_div {f : Nat} (hf : 0 < f) : f ≠ 1000 / f := by
  intro heq
  have hle : f * (1000 / f) ≤ 1000 := Nat.mul_div_le 1000 f
  have hlt : 1000 < f * (1000 / f + 1) := Nat.lt_mul_div_succ 1000 hf
  rw [← heq] at hle hlt
  rcases Nat.lt_or_ge f 32 with hsmall | hlarge
  · have hprod : f * (f + 1) ≤ 31 * 32 := Nat.mul_le_mul (by omega) (by omega)
    omega
  · have hprod : 32 * 32 ≤ f * f := Nat.mul_le_mul hlarge hlarge
    omega

/-- Different divisors fit equally often only below their product. -/
theorem lt_mul_of_window {a b n k : Nat} (hab : a < b) (hle : k * b ≤ n) (hlt : n < (k + 1) * a) :
    n < a * b := by
  have hk : k < a := by
    have hmul : k * (a + 1) ≤ k * b := Nat.mul_le_mul_left k hab
    rw [Nat.mul_succ] at hmul
    rw [Nat.succ_mul] at hlt
    omega
  calc n < (k + 1) * a := hlt
    _ ≤ a * a := Nat.mul_le_mul_right a hk
    _ ≤ a * b := Nat.mul_le_mul_left a hab.le

/-- No request for a clock of 1 kHz or more is in the window. -/
theorem RateWindow.clock_lt {clk f : Nat} (h : RateWindow clk f) : clk < 1000 := by
  obtain ⟨k, -, hle, hlt⟩ := h
  have hprod : f * (1000 / f) ≤ 1000 := Nat.mul_div_le 1000 f
  have hf : 0 < f := by
    rcases Nat.eq_zero_or_pos f with rfl | hf
    · simp at hlt
    · exact hf
  rcases Nat.lt_or_gt_of_ne (ne_thousand_div hf) with hfp | hpf
  · rw [Nat.max_eq_right hfp.le] at hle
    rw [Nat.min_eq_left hfp.le] at hlt
    exact (lt_mul_of_window hfp hle hlt).trans_le hprod
  · rw [Nat.max_eq_left hpf.le] at hle
    rw [Nat.min_eq_right hpf.le] at hlt
    rw [Nat.mul_comm] at hprod
    exact (lt_mul_of_window hpf hle hlt).trans_le hprod

/-- **The rate.**  On every request, `init_systick` sets the requested rate if and
only if the frequency and the length of the tick in milliseconds fit into the
clock equally often, at least twice. -/
theorem setsTickRate_iff {clk f : BitVec 32} (h : Requestable clk f) (c : Core) :
    SetsTickRate clk f c ↔ RateWindow clk.toNat f.toNat := by
  have hdiv : (clk / f).toNat = clk.toNat / f.toNat := BitVec.toNat_udiv
  rw [rateWindow_iff h.freq, ← hdiv]
  constructor
  · rintro ⟨ticks, c', hticks, hinit, haccept, -, -, hrvr, hevery⟩
    obtain ⟨hp, hquot⟩ := (systickTicks_eq_some_iff h.freq).mp hticks
    obtain ⟨c'', hinit', hset⟩ := initSystick_of_ticks hticks c
    obtain rfl : c' = c'' := Option.some.inj (hinit.symm.trans hinit')
    obtain ⟨htpos, htle⟩ := (sysTickConfig_fst_eq_zero_iff ticks c).mp (haccept c)
    obtain ⟨hload, hcvr⟩ := hset.accepted htpos htle
    have hlen : ticks.toNat = c'.rvr.toNat + 1 := toNat_eq_succ htpos hload
    have hperiod : (clk / f).toNat = c'.rvr.toNat + 1 := toNat_eq_succ h.pos hrvr
    rw [hperiod, hset.ticking.interruptsEvery_iff hcvr] at hevery
    exact ⟨hp, by rw [← hquot, hlen, hperiod], by omega⟩
  · rintro ⟨hp, heq, htwo⟩
    have hticks : systickTicks clk f = some (clk / f) :=
      (systickTicks_eq_some_iff h.freq).mpr ⟨hp, heq.symm⟩
    obtain ⟨c', hinit, hset⟩ := initSystick_of_ticks hticks c
    obtain ⟨hload, hcvr⟩ := hset.accepted h.pos h.le
    have hperiod : (clk / f).toNat = c'.rvr.toNat + 1 := toNat_eq_succ h.pos hload
    refine ⟨clk / f, c', hticks, hinit, ?_, hset.ticking.counting, hset.ticking.requesting,
      hload, ?_⟩
    · intro d
      exact (sysTickConfig_fst_eq_zero_iff _ d).mpr ⟨h.pos, h.le⟩
    · rw [hperiod, hset.ticking.interruptsEvery_iff hcvr]
      omega

/-- All registers zero. -/
def Core.reset : Core where
  csr := 0
  rvr := 0
  cvr := 0
  iser := fun _ => 0
  ipr := fun _ => 0
  shpr := fun _ => 0
  primask := false

theorem setsTickRate_iff_small : SetsTickRate 64 31 .reset ∧ ¬ SetsTickRate 150000000 1000 .reset :=
  ⟨(setsTickRate_iff ⟨by decide, by decide, by decide⟩ .reset).mpr
      ⟨2, by decide, by decide, by decide⟩,
    fun h => absurd ((setsTickRate_iff ⟨by decide, by decide, by decide⟩ .reset).mp h).clock_lt
      (by decide)⟩

/-- At 150 MHz the call of `main` is refused and the old reload value stays, and a
request for 2 kHz divides by zero. -/
theorem not_setsTickRate :
    Requestable 150000000 1000 ∧ systickTicks 150000000 1000 = some 150000000 ∧
      (sysTickConfig 150000000 .reset).1 = 1 ∧
      (initSystick 150000000 1000 .reset).map Core.rvr = some 99999 ∧
      (150000000 / 1000 - 1 : BitVec 32) = 149999 ∧
      ¬ SetsTickRate 150000000 1000 .reset ∧
      Requestable 150000000 2000 ∧ systickTicks 150000000 2000 = none ∧
      ¬ SetsTickRate 150000000 2000 .reset := by
  refine ⟨⟨by decide, by decide, by decide⟩, rfl, rfl, rfl, rfl, ?_,
    ⟨by decide, by decide, by decide⟩, rfl, ?_⟩
  · rintro ⟨ticks, c', -, hinit, -, -, -, hrvr, -⟩
    have hload : (initSystick 150000000 1000 .reset).map Core.rvr = some 99999 := rfl
    rw [hinit, Option.map_some, hrvr] at hload
    exact absurd hload (by decide)
  · rintro ⟨ticks, c', hticks, -⟩
    have hnone : systickTicks 150000000 2000 = none := rfl
    rw [hnone] at hticks
    cases hticks

/-! ## The call of `main` -/

/-- With 1000 Hz the tick is 100000 cycles long, whatever the clock, as long as the
clock is above 2^24 Hz. -/
theorem initSystick_main {clk : BitVec 32} (hclk : 2 ^ 24 < clk.toNat) {c : Core}
    (hcvr : c.cvr.toNat < 100000) :
    ∃ c', initSystick clk 1000 c = some c' ∧ c'.InterruptsEvery 100000 := by
  have hticks : systickTicks clk 1000 = some clk := by
    rw [systickTicks_eq_some_iff (by decide)]
    exact ⟨by decide, (Nat.div_one clk.toNat).symm⟩
  obtain ⟨c', hinit, hset⟩ := initSystick_of_ticks hticks c
  obtain ⟨hrvr, hsame⟩ := hset.refused (by omega)
  have hlen : c'.rvr.toNat = 99999 := by
    rw [hrvr]
    rfl
  have hevery := hset.ticking.interruptsEvery (by omega) (by rw [hsame]; omega)
  rw [hlen] at hevery
  exact ⟨c', hinit, hevery⟩

end NonSecure
