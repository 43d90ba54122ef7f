import PicoTrustZone.Boot.MemoryMap
import PicoTrustZone.Lib.SecurityAttribution

/-!
# Configuration of the security attribution unit

`configure_sau`, `system_init` and `sc_trustzone_init` of
`secure/src/secure_config.c`, and what the two images get from them.

The unit of this chip has eight regions.  `configure_sau` writes five of them:
the veneer table, the non-secure flash, the non-secure RAM, and two that stay
disabled.  It does not clear the other three.
-/

namespace Boot

open SecurityAttribution

/-- `SAU_RBAR_BADDR_Msk`. -/
def sauRbarBaddrMsk : BitVec 32 := 0x7FFFFFF <<< 5

/-- `SAU_RLAR_LADDR_Msk`. -/
def sauRlarLaddrMsk : BitVec 32 := 0x7FFFFFF <<< 5

/-- `SAU_RLAR_NSC_Msk`. -/
def sauRlarNscMsk : BitVec 32 := 1 <<< 1

/-- `SAU_RLAR_ENABLE_Msk`. -/
def sauRlarEnableMsk : BitVec 32 := 1

/-- `SAU_CTRL_ENABLE_Msk`. -/
def sauCtrlEnableMsk : BitVec 32 := 1

/-- `configure_sau`. -/
def configureSau (sau : Sau 8) : Sau 8 :=
  -- disable the unit before configuring
  let sau := sau.writeCtrl (sau.ctrl &&& ~~~sauCtrlEnableMsk)
  -- FLASH_NSC
  let sau := sau.writeRnr 0
  let sau := sau.writeRbar (0x100FFC00 &&& sauRbarBaddrMsk)
  let sau := sau.writeRlar ((0x100FFFFF &&& sauRlarLaddrMsk) ||| sauRlarEnableMsk ||| sauRlarNscMsk)
  -- the flash of the non-secure image
  let sau := sau.writeRnr 1
  let sau := sau.writeRbar (0x10100000 &&& sauRbarBaddrMsk)
  let sau := sau.writeRlar ((0x10400000 &&& sauRlarLaddrMsk) ||| sauRlarEnableMsk)
  -- the RAM of the non-secure image
  let sau := sau.writeRnr 2
  let sau := sau.writeRbar (0x20012000 &&& sauRbarBaddrMsk)
  let sau := sau.writeRlar ((0x20082000 &&& sauRlarLaddrMsk) ||| sauRlarEnableMsk)
  -- secure flash and RAM, as disabled regions
  let sau := sau.writeRnr 3
  let sau := sau.writeRbar (0x10000000 &&& sauRbarBaddrMsk)
  let sau := sau.writeRlar ((0x100FBFFF &&& sauRlarLaddrMsk) &&& ~~~sauRlarEnableMsk)
  let sau := sau.writeRnr 4
  let sau := sau.writeRbar (0x20000000 &&& sauRbarBaddrMsk)
  let sau := sau.writeRlar ((0x20011FFF &&& sauRlarLaddrMsk) &&& ~~~sauRlarEnableMsk)
  sau.writeCtrl sauCtrlEnableMsk

/-- The system registers that `sc_trustzone_init` writes. -/
structure Core where
  sau : Sau 8
  /-- `SCB->CPACR`. -/
  cpacr : BitVec 32
  /-- `SCB->NSACR`. -/
  nsacr : BitVec 32
  /-- `scb_ns_hw->cpacr`. -/
  nsCpacr : BitVec 32
  /-- `SCB->SHCSR`. -/
  shcsr : BitVec 32
  /-- `SCB->AIRCR`. -/
  aircr : BitVec 32

/-- `system_init`. -/
def systemInit (c : Core) : Core :=
  { c with
    cpacr := c.cpacr ||| (0xF <<< 20)
    nsacr := c.nsacr ||| (0x3 <<< 10)
    nsCpacr := c.nsCpacr ||| (0xF <<< 20)
    shcsr := c.shcsr ||| ((1 <<< 18) ||| (1 <<< 17) ||| (1 <<< 16) ||| (1 <<< 19))
    aircr := (0x5FA <<< 16) ||| (1 <<< 13) }

/-- `sc_trustzone_init`. -/
def scTrustzoneInit (c : Core) : Core :=
  let c := systemInit c
  { c with sau := configureSau c.sau }

/-! ## The regions after the configuration -/

theorem configureSau_ctrl (sau : Sau 8) : (configureSau sau).ctrl = 1 := rfl

/-- The registers of the eight regions. -/
theorem configureSau_region (sau : Sau 8) : ∀ i : Fin 8,
    (configureSau sau).region i =
      match i with
      | 0 => ⟨0x100FFC00, 0x100FFFE3⟩
      | 1 => ⟨0x10100000, 0x10400001⟩
      | 2 => ⟨0x20012000, 0x20082001⟩
      | 3 => ⟨0x10000000, 0x100FBFE0⟩
      | 4 => ⟨0x20000000, 0x20011FE0⟩
      | i => sau.region i
  | 0 => rfl
  | 1 => rfl
  | 2 => rfl
  | 3 => rfl
  | 4 => rfl
  | 5 => rfl
  | 6 => rfl
  | 7 => rfl

/-- Only the veneer table is non-secure callable. -/
theorem configureSau_callable (sau : Sau 8) :
    ((configureSau sau).region 0).Callable ∧ ¬ ((configureSau sau).region 1).Callable ∧
      ¬ ((configureSau sau).region 2).Callable := by
  simp only [configureSau_region]
  decide

/-- An address of the flash window or of the RAM of the chip: from `XIP_BASE` to
`XIP_END`, or from `SRAM_BASE` to `SRAM_END`. -/
def XipOrSram (a : BitVec 32) : Prop :=
  (0x10000000 ≤ a.toNat ∧ a.toNat < 0x14000000) ∨ (0x20000000 ≤ a.toNat ∧ a.toNat < 0x20082000)

/-- The regions that `configure_sau` does not write are disabled or match no
address of flash or RAM. -/
def LeftoverHarmless (sau : Sau 8) : Prop :=
  ∀ i : Fin 8, 5 ≤ i.val →
    ¬ (sau.region i).Enabled ∨ ∀ a, XipOrSram a → ¬ (sau.region i).Matches a

theorem LeftoverHarmless.not_matches {sau : Sau 8} (h : LeftoverHarmless sau) {i : Fin 8}
    (hi : 5 ≤ i.val) {a : BitVec 32} (ha : XipOrSram a) : ¬ (sau.region i).Matches a := by
  rcases h i hi with hoff | haway
  · exact fun hm => hoff hm.1
  · exact haway a ha

/-- The regions that match an address which no other region matched before. -/
theorem matches_configureSau {sau : Sau 8} {a : BitVec 32}
    (h : ∀ i : Fin 8, 5 ≤ i.val → ¬ (sau.region i).Matches a) (i : Fin 8) :
    ((configureSau sau).region i).Matches a ↔
      (i = 0 ∧ 0x100FFC00 ≤ a.toNat ∧ a.toNat ≤ 0x100FFFFF) ∨
      (i = 1 ∧ 0x10100000 ≤ a.toNat ∧ a.toNat ≤ 0x1040001F) ∨
      (i = 2 ∧ 0x20012000 ≤ a.toNat ∧ a.toNat ≤ 0x2008201F) := by
  rw [configureSau_region]
  match i with
  | 0 =>
      have hon : Region.Matches ⟨0x100FFC00, 0x100FFFE3⟩ a ↔
          0x100FFC00 ≤ a.toNat ∧ a.toNat ≤ 0x100FFFFF := Region.matches_of_window rfl
      exact hon.trans (by simp)
  | 1 =>
      have hon : Region.Matches ⟨0x10100000, 0x10400001⟩ a ↔
          0x10100000 ≤ a.toNat ∧ a.toNat ≤ 0x1040001F := Region.matches_of_window rfl
      exact hon.trans (by simp)
  | 2 =>
      have hon : Region.Matches ⟨0x20012000, 0x20082001⟩ a ↔
          0x20012000 ≤ a.toNat ∧ a.toNat ≤ 0x2008201F := Region.matches_of_window rfl
      exact hon.trans (by simp)
  | 3 =>
      have hoff : ¬ Region.Matches ⟨0x10000000, 0x100FBFE0⟩ a := Region.not_matches_of_window rfl
      exact iff_of_false hoff (by simp)
  | 4 =>
      have hoff : ¬ Region.Matches ⟨0x20000000, 0x20011FE0⟩ a := Region.not_matches_of_window rfl
      exact iff_of_false hoff (by simp)
  | 5 => exact iff_of_false (h 5 (by decide)) (by simp)
  | 6 => exact iff_of_false (h 6 (by decide)) (by simp)
  | 7 => exact iff_of_false (h 7 (by decide)) (by simp)

/-! ## The attribution -/

/-- The attribution of an address which no other region matched before. -/
theorem attribution_of_leftover {sau : Sau 8} {a : BitVec 32}
    (h : ∀ i : Fin 8, 5 ≤ i.val → ¬ (sau.region i).Matches a) :
    (configureSau sau).attribution a =
      if 0x100FFC00 ≤ a.toNat ∧ a.toNat ≤ 0x100FFFFF then .nonSecureCallable
      else if (0x10100000 ≤ a.toNat ∧ a.toNat ≤ 0x1040001F) ∨
        (0x20012000 ≤ a.toNat ∧ a.toNat ≤ 0x2008201F) then .nonSecure
      else .secure := by
  have hctrl : (configureSau sau).ctrl &&& enableMask ≠ 0 := by
    rw [configureSau_ctrl]
    decide
  have hmatch := matches_configureSau h
  obtain ⟨hnsc, hflash, hram⟩ := configureSau_callable sau
  -- the three windows do not overlap
  have hunique : ∀ i, ((configureSau sau).region i).Matches a → (configureSau sau).attribution a =
      if ((configureSau sau).region i).Callable then .nonSecureCallable else .nonSecure := by
    intro i hi
    refine Sau.attribution_of_unique hctrl hi fun j hj => ?_
    rw [hmatch] at hi ⊢
    omega
  by_cases h0 : 0x100FFC00 ≤ a.toNat ∧ a.toNat ≤ 0x100FFFFF
  · rw [if_pos h0, hunique 0 (by simp [hmatch, h0]), if_pos hnsc]
  · rw [if_neg h0]
    by_cases h1 : 0x10100000 ≤ a.toNat ∧ a.toNat ≤ 0x1040001F
    · rw [if_pos (Or.inl h1), hunique 1 (by simp [hmatch, h1]), if_neg hflash]
    · by_cases h2 : 0x20012000 ≤ a.toNat ∧ a.toNat ≤ 0x2008201F
      · rw [if_pos (Or.inr h2), hunique 2 (by simp [hmatch, h2]), if_neg hram]
      · rw [if_neg (not_or.mpr ⟨h1, h2⟩), Sau.attribution_of_none hctrl]
        intro j
        rw [hmatch]
        omega

/-- The attribution of every address of flash and RAM. -/
theorem attribution_configureSau {sau : Sau 8} (h : LeftoverHarmless sau) {a : BitVec 32}
    (ha : XipOrSram a) : (configureSau sau).attribution a =
      if 0x100FFC00 ≤ a.toNat ∧ a.toNat ≤ 0x100FFFFF then .nonSecureCallable
      else if (0x10100000 ≤ a.toNat ∧ a.toNat ≤ 0x1040001F) ∨
        (0x20012000 ≤ a.toNat ∧ a.toNat ≤ 0x2008201F) then .nonSecure
      else .secure :=
  attribution_of_leftover fun _ hi => h.not_matches hi ha

/-- **The attribution of the two images.**  After `sc_trustzone_init` the flash,
the RAM and the scratch banks of the secure image are secure, the veneer table
is non-secure callable, and every memory of the non-secure image is non-secure,
whatever the registers held before. -/
theorem attribution_scTrustzoneInit (c : Core) (h : LeftoverHarmless c.sau) (a : BitVec 32) :
    (Image.secure.flash.Contains a.toNat ∨ Image.secure.ram.Contains a.toNat ∨
        Image.secure.scratchX.Contains a.toNat ∨ Image.secure.scratchY.Contains a.toNat →
      (scTrustzoneInit c).sau.attribution a = .secure) ∧
    (flashNsc.Contains a.toNat →
      (scTrustzoneInit c).sau.attribution a = .nonSecureCallable) ∧
    (Image.nonsecure.flash.Contains a.toNat ∨ veneers.Contains a.toNat ∨
        Image.nonsecure.ram.Contains a.toNat ∨ Image.nonsecure.scratchX.Contains a.toNat ∨
        Image.nonsecure.scratchY.Contains a.toNat →
      (scTrustzoneInit c).sau.attribution a = .nonSecure) := by
  have hsau : (scTrustzoneInit c).sau = configureSau c.sau := rfl
  simp only [hsau, MemoryRegion.Contains, MemoryRegion.top, Image.flash, Image.ram,
    Image.scratchX, Image.scratchY, flashNsc, veneers]
  refine ⟨fun ha => ?_, fun ha => ?_, fun ha => ?_⟩
  · rw [attribution_configureSau h (by unfold XipOrSram; omega), if_neg (by omega),
      if_neg (by omega)]
  · rw [attribution_configureSau h (by unfold XipOrSram; omega), if_pos (by omega)]
  · rw [attribution_configureSau h (by unfold XipOrSram; omega), if_neg (by omega),
      if_pos (by omega)]

/-- All registers zero. -/
def Core.reset : Core where
  sau := ⟨0, 0, fun _ => ⟨0, 0⟩⟩
  cpacr := 0
  nsacr := 0
  nsCpacr := 0
  shcsr := 0
  aircr := 0

theorem attribution_scTrustzoneInit_reset :
    (scTrustzoneInit .reset).sau.attribution 0x100FFBFF = .secure ∧
      (scTrustzoneInit .reset).sau.attribution 0x100FFC00 = .nonSecureCallable ∧
      (scTrustzoneInit .reset).sau.attribution 0x20081FFF = .nonSecure := by
  have h : LeftoverHarmless Core.reset.sau := fun _ _ =>
    Or.inl (show ¬ (⟨0, 0⟩ : Region).Enabled by decide)
  exact ⟨(attribution_scTrustzoneInit .reset h 0x100FFBFF).1 (by decide),
    (attribution_scTrustzoneInit .reset h 0x100FFC00).2.1 (by decide),
    (attribution_scTrustzoneInit .reset h 0x20081FFF).2.2 (by decide)⟩

end Boot
