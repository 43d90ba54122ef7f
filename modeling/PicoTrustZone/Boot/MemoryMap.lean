import Mathlib.Data.Nat.Basic
import Mathlib.Tactic.Cases

/-!
# The memory maps of the two images

The `MEMORY` commands of `secure/secure.ld` and `nonsecure/nonsecure.ld`.  Each
image is linked on its own, so nothing but these numbers keeps the two apart.
-/

namespace Boot

/-- An entry of a `MEMORY` command. -/
structure MemoryRegion where
  origin : Nat
  length : Nat
deriving DecidableEq, Repr

namespace MemoryRegion

/-- One past the last address. -/
def top (m : MemoryRegion) : Nat := m.origin + m.length

def Contains (m : MemoryRegion) (a : Nat) : Prop := m.origin ≤ a ∧ a < m.top

instance (m : MemoryRegion) (a : Nat) : Decidable (m.Contains a) :=
  inferInstanceAs (Decidable (_ ∧ _))

end MemoryRegion

/-- The two programs of the project. -/
inductive Image where
  | secure
  | nonsecure
deriving DecidableEq, Repr

namespace Image

/-- `FLASH`. -/
def flash : Image → MemoryRegion
  | secure => ⟨0x10000000, 1 * 1024 * 1024 - 1024⟩
  | nonsecure => ⟨0x10100000, 3141632⟩

/-- `RAM`. -/
def ram : Image → MemoryRegion
  | secure => ⟨0x20000000, 64 * 1024⟩
  | nonsecure => ⟨0x20012000, 448 * 1024⟩

/-- `SCRATCH_X`. -/
def scratchX : Image → MemoryRegion
  | secure => ⟨0x20010000, 4 * 1024⟩
  | nonsecure => ⟨0x20080000, 4 * 1024⟩

/-- `SCRATCH_Y`. -/
def scratchY : Image → MemoryRegion
  | secure => ⟨0x20011000, 4 * 1024⟩
  | nonsecure => ⟨0x20081000, 4 * 1024⟩

end Image

/-- `FLASH_NSC` of `secure.ld`. -/
def flashNsc : MemoryRegion := ⟨0x100FFC00, 1024⟩

/-- `VENEERS` of `nonsecure.ld`. -/
def veneers : MemoryRegion := ⟨0x103FF000, 4 * 1024⟩

end Boot
