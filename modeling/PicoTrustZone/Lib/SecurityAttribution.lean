import Mathlib.Data.BitVec
import Mathlib.Data.List.FinRange
import Mathlib.Logic.Function.Basic
import Mathlib.Tactic.Cases

/-!
# Security attribution

The security attribution unit (SAU) of an Armv8-M core with `n` regions.  A region
has a base and a limit in granules of 32 bytes, both inclusive.  The base and
limit registers are banked: `RNR` selects the region that a write of `RBAR` or
`RLAR` goes to.

An enabled unit attributes an address by the regions that match it.  With
exactly one match the address is non-secure, or non-secure callable if that
region says so.  With no match or with several it is secure.  The rules below
(`attribution_of_unique`, `attribution_of_none`) are the two cases that
programs of the unit aim for.
-/

namespace SecurityAttribution

/-- The attribution of an address. -/
inductive Attribution where
  | secure
  | nonSecureCallable
  | nonSecure
deriving DecidableEq, Repr

/-- The bits `[31:5]` of an address, which `RBAR` and `RLAR` hold. -/
def addrMask : BitVec 32 := 0xFFFFFFE0

/-- `RLAR.ENABLE`, and `CTRL.ENABLE`. -/
def enableMask : BitVec 32 := 1

/-- `RLAR.NSC`, and `CTRL.ALLNS`. -/
def secondMask : BitVec 32 := 2

/-- The two registers of a region. -/
structure Region where
  rbar : BitVec 32
  rlar : BitVec 32
deriving DecidableEq, Repr

namespace Region

/-- The region takes part in the attribution. -/
def Enabled (r : Region) : Prop := r.rlar &&& enableMask ≠ 0

/-- Addresses of the region are non-secure callable. -/
def Callable (r : Region) : Prop := r.rlar &&& secondMask ≠ 0

/-- The lowest address of the region. -/
def base (r : Region) : BitVec 32 := r.rbar &&& addrMask

/-- The highest address of the region: the low five bits of the limit are ones. -/
def limit (r : Region) : BitVec 32 := (r.rlar &&& addrMask) ||| 0x1F

/-- The region is enabled and contains the address. -/
def Matches (r : Region) (a : BitVec 32) : Prop := r.Enabled ∧ r.base ≤ a ∧ a ≤ r.limit

instance (r : Region) : Decidable r.Enabled := inferInstanceAs (Decidable (_ ≠ _))
instance (r : Region) : Decidable r.Callable := inferInstanceAs (Decidable (_ ≠ _))
instance (r : Region) (a : BitVec 32) : Decidable (r.Matches a) :=
  inferInstanceAs (Decidable (_ ∧ _))

/-- The lowest and the highest address of the region, if it is enabled. -/
def window (r : Region) : Option (Nat × Nat) :=
  if r.Enabled then some (r.base.toNat, r.limit.toNat) else none

theorem matches_of_window {r : Region} {a : BitVec 32} {lo hi : Nat}
    (h : r.window = some (lo, hi)) : r.Matches a ↔ lo ≤ a.toNat ∧ a.toNat ≤ hi := by
  rw [window] at h
  split at h
  · next he =>
    obtain ⟨rfl, rfl⟩ := Prod.mk.inj (Option.some.inj h)
    exact and_iff_right he
  · cases h

theorem not_matches_of_window {r : Region} {a : BitVec 32} (h : r.window = none) :
    ¬ r.Matches a := by
  intro hm
  rw [window, if_pos hm.1] at h
  cases h

end Region

/-- The registers of a unit with `n` regions. -/
structure Sau (n : Nat) where
  ctrl : BitVec 32
  rnr : BitVec 32
  region : Fin n → Region

namespace Sau

variable {n : Nat}

/-! ## Register writes -/

def writeCtrl (u : Sau n) (v : BitVec 32) : Sau n := { u with ctrl := v &&& 3 }

def writeRnr (u : Sau n) (v : BitVec 32) : Sau n := { u with rnr := v &&& 0xFF }

/-- Write a register of the selected region.  A selection of a region that is
not implemented is ignored. -/
def modifySelected (u : Sau n) (f : Region → Region) : Sau n :=
  if h : u.rnr.toNat < n then
    { u with region := Function.update u.region ⟨u.rnr.toNat, h⟩ (f (u.region ⟨u.rnr.toNat, h⟩)) }
  else u

def writeRbar (u : Sau n) (v : BitVec 32) : Sau n :=
  u.modifySelected fun r => { r with rbar := v &&& addrMask }

def writeRlar (u : Sau n) (v : BitVec 32) : Sau n :=
  u.modifySelected fun r => { r with rlar := v &&& (addrMask ||| 3) }

/-! ## Attribution -/

/-- The attribution of an address, by the regions that match it. -/
def attribution (u : Sau n) (a : BitVec 32) : Attribution :=
  if u.ctrl &&& enableMask = 0 then
    if u.ctrl &&& secondMask = 0 then .secure else .nonSecure
  else
    match (List.finRange n).filter fun i => (u.region i).Matches a with
    | [i] => if (u.region i).Callable then .nonSecureCallable else .nonSecure
    | _ => .secure

variable {u : Sau n} {a : BitVec 32}

/-- The matching regions when only one can match. -/
theorem filter_eq_singleton {i : Fin n} (hi : (u.region i).Matches a)
    (hne : ∀ j, j ≠ i → ¬ (u.region j).Matches a) :
    ((List.finRange n).filter fun j => (u.region j).Matches a) = [i] := by
  have hiff : ∀ j, decide ((u.region j).Matches a) = (j == i) := by
    intro j
    rcases eq_or_ne j i with rfl | hj
    · simp [hi]
    · simp [hj, hne j hj]
  simp only [hiff]
  rw [List.filter_beq, List.count_eq_one_of_mem (List.nodup_finRange n) (List.mem_finRange i)]
  rfl

/-- An address that exactly one region matches. -/
theorem attribution_of_unique (hctrl : u.ctrl &&& enableMask ≠ 0) {i : Fin n}
    (hi : (u.region i).Matches a) (hne : ∀ j, j ≠ i → ¬ (u.region j).Matches a) :
    u.attribution a = if (u.region i).Callable then .nonSecureCallable else .nonSecure := by
  rw [attribution, if_neg hctrl, filter_eq_singleton hi hne]

/-- An address that no region matches. -/
theorem attribution_of_none (hctrl : u.ctrl &&& enableMask ≠ 0)
    (hne : ∀ j, ¬ (u.region j).Matches a) : u.attribution a = .secure := by
  have hempty : ((List.finRange n).filter fun j => (u.region j).Matches a) = [] := by
    rw [List.filter_eq_nil_iff]
    intro j _
    simp [hne j]
  rw [attribution, if_neg hctrl, hempty]

end Sau

end SecurityAttribution
