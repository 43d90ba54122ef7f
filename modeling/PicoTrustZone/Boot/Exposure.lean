import PicoTrustZone.Boot.SecureConfig

/-!
# What the attribution unit exposes

The converse of `SecureConfig`: what the non-secure side can reach is the
non-secure image, and what it can call is the veneer table.

The limits of the regions are inclusive, in granules of 32 bytes.
`configure_sau` gives the last byte as the limit of the veneer table and of the
two disabled regions, and the byte after the last one as the limit of the flash
and of the RAM of the non-secure image.  So these two regions are one granule
too long, and this is the only excess (`exposesOnlyImage_iff`).
-/

namespace Boot

open SecurityAttribution

/-- An address of a `MEMORY` region of `nonsecure.ld`. -/
def InNonsecureMemory (a : Nat) : Prop :=
  Image.nonsecure.flash.Contains a ∨ veneers.Contains a ∨ Image.nonsecure.ram.Contains a ∨
    Image.nonsecure.scratchX.Contains a ∨ Image.nonsecure.scratchY.Contains a

/-- The regions that `configure_sau` does not write are disabled. -/
def LeftoverDisabled (sau : Sau 8) : Prop :=
  ∀ i : Fin 8, 5 ≤ i.val → ¬ (sau.region i).Enabled

/-- If the address is non-secure it belongs to the non-secure image, and if it is
non-secure callable it belongs to the veneer table. -/
def ExposesOnlyImage (sau : Sau 8) (a : BitVec 32) : Prop :=
  (sau.attribution a = .nonSecure → InNonsecureMemory a.toNat) ∧
    (sau.attribution a = .nonSecureCallable → flashNsc.Contains a.toNat)

/-- The size of a granule of the unit. -/
def granule : Nat := 32

/-- An address of the granule after a memory. -/
def MemoryRegion.JustAbove (m : MemoryRegion) (a : Nat) : Prop :=
  m.top ≤ a ∧ a < m.top + granule

instance (a : Nat) : Decidable (InNonsecureMemory a) :=
  inferInstanceAs (Decidable (_ ∨ _ ∨ _ ∨ _ ∨ _))

instance (sau : Sau 8) (a : BitVec 32) : Decidable (ExposesOnlyImage sau a) :=
  inferInstanceAs (Decidable ((_ → _) ∧ (_ → _)))

theorem LeftoverDisabled.not_matches {sau : Sau 8} (h : LeftoverDisabled sau) (a : BitVec 32)
    (i : Fin 8) (hi : 5 ≤ i.val) : ¬ (sau.region i).Matches a := fun hm => h i hi hm.1

/-- The memories of the non-secure image make up two intervals. -/
theorem inNonsecureMemory_iff (a : Nat) : InNonsecureMemory a ↔
    (0x10100000 ≤ a ∧ a < 0x10400000) ∨ (0x20012000 ≤ a ∧ a < 0x20082000) := by
  simp only [InNonsecureMemory, MemoryRegion.Contains, MemoryRegion.top, Image.flash, Image.ram,
    Image.scratchX, Image.scratchY, veneers]
  omega

/-- **Exposure.**  Whatever the registers held before, as long as the regions
that `configure_sau` does not write are disabled: an address is exposed only if
it belongs to the non-secure image or the veneer table, if and only if it is not
in the granule after the veneers or after the RAM of the non-secure image. -/
theorem exposesOnlyImage_iff {sau : Sau 8} (h : LeftoverDisabled sau) (a : BitVec 32) :
    ExposesOnlyImage (configureSau sau) a ↔
      ¬ (veneers.JustAbove a.toNat ∨ Image.nonsecure.ram.JustAbove a.toNat) := by
  simp only [ExposesOnlyImage, inNonsecureMemory_iff, attribution_of_leftover (h.not_matches a),
    MemoryRegion.JustAbove, MemoryRegion.Contains, MemoryRegion.top, Image.ram, veneers, flashNsc,
    granule]
  split
  · next hnsc =>
    simp only [reduceCtorEq, false_implies, true_and, true_implies]
    omega
  · next hnsc =>
    split
    · next hns =>
      simp only [reduceCtorEq, false_implies, and_true, true_implies]
      omega
    · next hs =>
      simp only [reduceCtorEq, false_implies, and_true, true_iff]
      omega

theorem leftoverDisabled_reset : LeftoverDisabled Core.reset.sau := fun _ _ =>
  show ¬ (⟨0, 0⟩ : Region).Enabled by decide

theorem exposesOnlyImage_iff_reset :
    ExposesOnlyImage (configureSau Core.reset.sau) 0x103FFFFF ↔
      ¬ (veneers.JustAbove 0x103FFFFF ∨ Image.nonsecure.ram.JustAbove 0x103FFFFF) :=
  exposesOnlyImage_iff leftoverDisabled_reset 0x103FFFFF

/-- The first addresses after the flash and after the RAM of the non-secure image
are non-secure. -/
theorem not_exposesOnlyImage :
    (configureSau Core.reset.sau).attribution 0x10400000 = .nonSecure ∧
      ¬ InNonsecureMemory 0x10400000 ∧
      ¬ ExposesOnlyImage (configureSau Core.reset.sau) 0x10400000 ∧
      (configureSau Core.reset.sau).attribution 0x20082000 = .nonSecure ∧
      ¬ InNonsecureMemory 0x20082000 ∧
      ¬ ExposesOnlyImage (configureSau Core.reset.sau) 0x20082000 := by
  decide

end Boot
