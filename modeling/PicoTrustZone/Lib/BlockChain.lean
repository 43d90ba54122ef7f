import PicoTrustZone.Lib.ByteMemory

/-!
# Chains of blocks in memory

A block starts with a header of two words: the address of the next block, and the
size of this one.  `Linked m e p l` says that the word at `p` points to the first of
the blocks `l`, that the headers link each of them to the next, and that the last
link is `e`.

A chain can be cut anywhere (`linked_append`), and the two parts share nothing but
the address where they meet.  So an edit of a chain is an edit of one link, with the
rest carried over by `Linked.congr` and `Linked.relink`.
-/

namespace BlockChain

open ByteMemory

/-- The address of the first block, or the end. -/
def first (e : Nat) : List (Nat × Nat) → Nat
  | [] => e
  | x :: _ => x.1

/-- Where the last link is. -/
def last (p : Nat) : List (Nat × Nat) → Nat
  | [] => p
  | x :: l => last x.1 l

/-- The word at `p` starts a chain of the blocks `l` that ends with `e`. -/
def Linked (m : ByteMemory) (e : Nat) : Nat → List (Nat × Nat) → Prop
  | p, [] => m.word p = BitVec.ofNat 32 e
  | p, x :: l =>
      m.word p = BitVec.ofNat 32 x.1 ∧ m.word (x.1 + 4) = BitVec.ofNat 32 x.2 ∧ Linked m e x.1 l

variable {m m' : ByteMemory} {e e' p q : Nat} {x : Nat × Nat} {l k : List (Nat × Nat)}

@[simp] theorem first_nil : first e [] = e := rfl

@[simp] theorem first_cons : first e (x :: l) = x.1 := rfl

@[simp] theorem last_nil : last p [] = p := rfl

@[simp] theorem last_cons : last p (x :: l) = last x.1 l := rfl

@[simp] theorem last_append : last p (l ++ k) = last (last p l) k := by
  induction l generalizing p with
  | nil => rfl
  | cons x l ih => exact ih

@[simp] theorem linked_nil : Linked m e p [] ↔ m.word p = BitVec.ofNat 32 e := Iff.rfl

@[simp] theorem linked_cons : Linked m e p (x :: l) ↔
    m.word p = BitVec.ofNat 32 x.1 ∧ m.word (x.1 + 4) = BitVec.ofNat 32 x.2 ∧
      Linked m e x.1 l := Iff.rfl

theorem Linked.word_first (h : Linked m e p l) : m.word p = BitVec.ofNat 32 (first e l) := by
  cases l with
  | nil => exact h
  | cons x l => exact h.1

theorem Linked.word_last (h : Linked m e p l) : m.word (last p l) = BitVec.ofNat 32 e := by
  induction l generalizing p with
  | nil => exact h
  | cons x l ih => exact ih h.2.2

theorem Linked.word_size (h : Linked m e p l) (hx : x ∈ l) :
    m.word (x.1 + 4) = BitVec.ofNat 32 x.2 := by
  induction l generalizing p with
  | nil => cases hx
  | cons y l ih =>
      rcases List.mem_cons.mp hx with rfl | hx
      · exact h.2.1
      · exact ih h.2.2 hx

/-- A chain is two chains that meet. -/
theorem linked_append :
    Linked m e p (l ++ k) ↔ Linked m (first e k) p l ∧ Linked m e (last p l) k := by
  induction l generalizing p with
  | nil => exact ⟨fun h => ⟨Linked.word_first h, h⟩, fun h => h.2⟩
  | cons x l ih =>
      rw [List.cons_append, linked_cons, linked_cons, last_cons, ih]
      exact ⟨fun ⟨h1, h2, h3, h4⟩ => ⟨⟨h1, h2, h3⟩, h4⟩, fun ⟨⟨h1, h2, h3⟩, h4⟩ => ⟨h1, h2, h3, h4⟩⟩

/-- A chain depends on the link it starts from and on its own headers.  It can start
from any word that holds the link. -/
theorem Linked.congr (h : Linked m e p l) (hp : m'.word q = m.word p)
    (hl : ∀ x ∈ l, m'.word x.1 = m.word x.1 ∧ m'.word (x.1 + 4) = m.word (x.1 + 4)) :
    Linked m' e q l := by
  induction l generalizing p q with
  | nil => exact hp.trans h
  | cons x l ih =>
      obtain ⟨hx, hl⟩ := List.forall_mem_cons.mp hl
      exact ⟨hp.trans h.1, hx.2.trans h.2.1, ih h.2.2 hx.1 hl⟩

/-- The last link can be changed on its own. -/
theorem Linked.relink (h : Linked m e p l) (hlast : m'.word (last p l) = BitVec.ofNat 32 e')
    (hp : l ≠ [] → m'.word p = m.word p)
    (hlink : ∀ x ∈ l.dropLast, m'.word x.1 = m.word x.1)
    (hsize : ∀ x ∈ l, m'.word (x.1 + 4) = m.word (x.1 + 4)) : Linked m' e' p l := by
  induction l generalizing p with
  | nil => exact hlast
  | cons x l ih =>
      obtain ⟨hx, hsize⟩ := List.forall_mem_cons.mp hsize
      refine ⟨(hp (List.cons_ne_nil x l)).trans h.1, hx.trans h.2.1, ?_⟩
      refine ih h.2.2 hlast (fun hne => ?_) (fun y hy => ?_) hsize
      · refine hlink x ?_
        rw [List.dropLast_cons_of_ne_nil hne]
        exact List.mem_cons_self ..
      · refine hlink y ?_
        rw [List.dropLast_cons_of_ne_nil fun he => by simp [he] at hy]
        exact List.mem_cons_of_mem _ hy

/-! ## Blocks in the order of their addresses -/

/-- The blocks stand in the order of their addresses and do not meet. -/
abbrev Ascending (l : List (Nat × Nat)) : Prop := l.Pairwise fun x y => x.1 + x.2 ≤ y.1

/-- The last block comes behind the others. -/
theorem le_last_of_mem_dropLast (h : Ascending l) (hx : x ∈ l.dropLast) :
    x.1 + x.2 ≤ last p l := by
  rcases List.eq_nil_or_concat l with rfl | ⟨k, y, rfl⟩
  · cases hx
  · rw [List.concat_eq_append] at h hx ⊢
    rw [List.dropLast_concat] at hx
    rw [last_append]
    exact (List.pairwise_append.mp h).2.2 x hx y (List.mem_cons_self ..)

/-- The last link is that of a block, or the one that the chain starts from. -/
theorem last_eq_or_mem (p : Nat) (l : List (Nat × Nat)) :
    (l = [] ∧ last p l = p) ∨ ∃ x ∈ l, last p l = x.1 := by
  rcases List.eq_nil_or_concat l with rfl | ⟨k, y, rfl⟩
  · exact .inl ⟨rfl, rfl⟩
  · rw [List.concat_eq_append, last_append]
    exact .inr ⟨y, List.mem_append_right _ (List.mem_cons_self ..), rfl⟩

end BlockChain
