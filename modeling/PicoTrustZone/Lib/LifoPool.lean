import Mathlib.Data.List.Nodup
import Mathlib.Logic.Function.Basic

/-!
# LIFO pools

A pool hands out identifiers and keeps a value for each one that is out.  The
free identifiers form a stack: the one returned last is handed out first.  The
two fields of facts say that an identifier is never free twice and never both
free and out, so no operation can break the pool.

`take` hands out the top identifier, `give` takes one back, `put` changes the
value of one that is out.  An operation that does not apply returns `none`.
-/

/-- A stack of free identifiers and the values of the identifiers that are out. -/
structure LifoPool (ι α : Type*) where
  /-- The free identifiers, next one first. -/
  free : List ι
  /-- The value of an identifier that is out. -/
  saved : ι → Option α
  free_nodup : free.Nodup
  free_unsaved : ∀ i ∈ free, saved i = none

namespace LifoPool

variable {ι α : Type*}

/-- The pool with every identifier free. -/
def full (ids : List ι) (h : ids.Nodup) : LifoPool ι α where
  free := ids
  saved := fun _ => none
  free_nodup := h
  free_unsaved := fun _ _ => rfl

variable [DecidableEq ι]

/-- Hand out the top identifier with the value `mk` gives it. -/
def take (p : LifoPool ι α) (mk : ι → α) : Option (ι × LifoPool ι α) :=
  match h : p.free with
  | [] => none
  | i :: t =>
      some (i,
        { free := t
          saved := Function.update p.saved i (some (mk i))
          free_nodup := (List.nodup_cons.mp (h ▸ p.free_nodup)).2
          free_unsaved := by
            intro j hj
            have hne : j ≠ i := fun he => (List.nodup_cons.mp (h ▸ p.free_nodup)).1 (he ▸ hj)
            rw [Function.update_of_ne hne]
            exact p.free_unsaved j (h ▸ List.mem_cons_of_mem i hj) })

/-- Take back an identifier that is out. -/
def give (p : LifoPool ι α) (i : ι) : Option (LifoPool ι α) :=
  if h : (p.saved i).isSome then
    some
      { free := i :: p.free
        saved := Function.update p.saved i none
        free_nodup := by
          refine List.nodup_cons.mpr ⟨fun hmem => ?_, p.free_nodup⟩
          rw [p.free_unsaved i hmem] at h
          cases h
        free_unsaved := by
          intro j hj
          by_cases hji : j = i
          · rw [hji, Function.update_self]
          · rw [Function.update_of_ne hji]
            exact p.free_unsaved j ((List.mem_cons.mp hj).resolve_left hji) }
  else none

/-- Change the value of an identifier that is out. -/
def put (p : LifoPool ι α) (i : ι) (a : α) : Option (LifoPool ι α) :=
  if h : (p.saved i).isSome then
    some
      { p with
        saved := Function.update p.saved i (some a)
        free_unsaved := by
          intro j hj
          have hne : j ≠ i := by
            intro he
            rw [← he, p.free_unsaved j hj] at h
            cases h
          rw [Function.update_of_ne hne]
          exact p.free_unsaved j hj }
  else none

/-! ## What the operations return -/

theorem take_of_nil {p : LifoPool ι α} (mk : ι → α) (h : p.free = []) : p.take mk = none := by
  rw [take]
  split
  · rfl
  · next hc => rw [h] at hc; cases hc

theorem take_of_cons {p : LifoPool ι α} (mk : ι → α) {i : ι} {t : List ι} (h : p.free = i :: t) :
    ∃ q, p.take mk = some (i, q) ∧ q.free = t ∧
      q.saved = Function.update p.saved i (some (mk i)) := by
  rw [take]
  split
  · next hn => rw [h] at hn; cases hn
  · next j u hc =>
    obtain ⟨rfl, rfl⟩ := List.cons.inj (h.symm.trans hc)
    exact ⟨_, rfl, rfl, rfl⟩

theorem give_of_none {p : LifoPool ι α} {i : ι} (h : p.saved i = none) : p.give i = none := by
  simp [give, h]

theorem give_of_some {p : LifoPool ι α} {i : ι} {a : α} (h : p.saved i = some a) :
    ∃ q, p.give i = some q ∧ q.free = i :: p.free ∧ q.saved = Function.update p.saved i none := by
  simp [give, h]

theorem put_of_none {p : LifoPool ι α} {i : ι} (b : α) (h : p.saved i = none) :
    p.put i b = none := by
  simp [put, h]

theorem put_of_some {p : LifoPool ι α} {i : ι} {a : α} (b : α) (h : p.saved i = some a) :
    ∃ q, p.put i b = some q ∧ q.free = p.free ∧
      q.saved = Function.update p.saved i (some b) := by
  simp [put, h]

end LifoPool
