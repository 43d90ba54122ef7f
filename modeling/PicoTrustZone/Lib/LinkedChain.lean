import Mathlib.Data.List.Nodup
import Mathlib.Logic.Function.Basic
import Mathlib.Tactic.Cases

/-!
# Linked chains

An intrusive singly linked list is a successor function `next : α → α` with an
end mark `stop`.  `Chain next stop a l` says that following `next` from `a`
visits `l` and then meets `stop`.

The list is a function of the start (`Chain.unique`), so a chain that ends
never repeats a node (`Chain.nodup`).  A chain depends on the links of its own
nodes only (`Chain.congr`).  `Chain.pop` and `Chain.push` are the two updates
of a stack of nodes.
-/

/-- Following `next` from `a` visits `l` and then meets `stop`. -/
inductive Chain {α : Type*} (next : α → α) (stop : α) : α → List α → Prop where
  | nil : Chain next stop stop []
  | cons {a : α} {l : List α} : a ≠ stop → Chain next stop (next a) l → Chain next stop a (a :: l)

namespace Chain

variable {α : Type*} {next next' : α → α} {stop a : α} {l l' : List α}

theorem eq_nil (h : Chain next stop stop l) : l = [] := by
  cases h with
  | nil => rfl
  | cons hne _ => exact absurd rfl hne

/-- The head of a nonempty chain, and the chain behind it. -/
theorem pop (h : Chain next stop a l) (hne : a ≠ stop) :
    ∃ t, l = a :: t ∧ Chain next stop (next a) t := by
  cases h with
  | nil => exact absurd rfl hne
  | cons _ ht => exact ⟨_, rfl, ht⟩

/-- The start determines the nodes. -/
theorem unique (h : Chain next stop a l) (h' : Chain next stop a l') : l = l' := by
  induction h generalizing l' with
  | nil => exact h'.eq_nil.symm
  | cons hne _ ih =>
      obtain ⟨t, rfl, ht⟩ := h'.pop hne
      rw [ih ht]

/-- The nodes from a visited node on are again a chain. -/
theorem suffix (h : Chain next stop a l) {b : α} (hb : b ∈ l) :
    ∃ t, Chain next stop b t ∧ t.length ≤ l.length := by
  induction h with
  | nil => cases hb
  | cons hne ht ih =>
      cases List.mem_cons.mp hb with
      | inl he =>
          subst he
          exact ⟨_, .cons hne ht, Nat.le_refl _⟩
      | inr hb' =>
          obtain ⟨t, hc, hlen⟩ := ih hb'
          exact ⟨t, hc, Nat.le_succ_of_le hlen⟩

/-- A chain that ends never repeats a node. -/
theorem nodup (h : Chain next stop a l) : l.Nodup := by
  induction h with
  | nil => exact List.nodup_nil
  | @cons a l hne ht ih =>
      have hnot : a ∉ l := by
        intro hmem
        obtain ⟨t, hc, hlen⟩ := ht.suffix hmem
        rw [← (Chain.cons hne ht).unique hc] at hlen
        exact absurd hlen (Nat.not_succ_le_self _)
      exact List.nodup_cons.mpr ⟨hnot, ih⟩

/-- A chain depends on the links of its own nodes only. -/
theorem congr (h : Chain next stop a l) (hn : ∀ b ∈ l, next' b = next b) :
    Chain next' stop a l := by
  induction h with
  | nil => exact .nil
  | @cons a l hne _ ih =>
      refine .cons hne ?_
      rw [hn a (List.mem_cons_self ..)]
      exact ih fun b hb => hn b (List.mem_cons_of_mem _ hb)

/-- A fresh node whose link is the old start becomes the new start. -/
theorem push (h : Chain next stop a l) {b : α} (hne : b ≠ stop) (hlink : next' b = a)
    (hn : ∀ c ∈ l, next' c = next c) : Chain next' stop b (b :: l) := by
  refine .cons hne ?_
  rw [hlink]
  exact h.congr hn

end Chain
