import Mathlib.Data.List.Chain
import Mathlib.Tactic.Cases

/-!
# Arenas

An arena is an interval of addresses, cut up into blocks that are used or free.
It is a list of blocks in the order of their addresses, so the blocks tile the
interval by construction: a block has no address of its own, it starts where the
block before it ends.

`allocate` takes the first free block that is large enough and cuts off what is
not needed, if that is worth a block.  `release` frees a used block and joins it
with a free block before it and a free block behind it.  So in an arena that is
only changed by them no two free blocks are neighbours (`Coalesced`), and a
release undoes the last allocation exactly (`release_allocate`).  When nothing is
used any more the arena is one block (`eq_singleton_of_unused`).
-/

namespace Arena

/-- A block of an arena. -/
structure Block where
  size : Nat
  used : Bool
deriving DecidableEq, Repr

/-! ## Blocks and their addresses -/

/-- The length of the interval that the blocks tile. -/
def extent : List Block → Nat
  | [] => 0
  | b :: bs => b.size + extent bs

/-- The number of free bytes. -/
def freeBytes : List Block → Nat
  | [] => 0
  | b :: bs => (if b.used then 0 else b.size) + freeBytes bs

/-- The used or the free blocks of an arena that starts at `a`, as addresses and
sizes. -/
def select (u : Bool) : Nat → List Block → List (Nat × Nat)
  | _, [] => []
  | a, b :: bs =>
      if b.used = u then (a, b.size) :: select u (a + b.size) bs else select u (a + b.size) bs

/-- No two free blocks are neighbours. -/
abbrev Coalesced (bs : List Block) : Prop := bs.IsChain fun x y => x.used = true ∨ y.used = true

variable {u v : Bool} {a k n p w t : Nat} {b : Block} {bs cs xs ys : List Block}

@[simp] theorem extent_nil : extent [] = 0 := rfl

@[simp] theorem extent_cons : extent (b :: bs) = b.size + extent bs := rfl

@[simp] theorem extent_append : extent (xs ++ ys) = extent xs + extent ys := by
  induction xs with
  | nil => simp
  | cons b xs ih =>
      simp only [List.cons_append, extent_cons, ih]
      omega

@[simp] theorem freeBytes_nil : freeBytes [] = 0 := rfl

@[simp] theorem freeBytes_cons :
    freeBytes (b :: bs) = (if b.used then 0 else b.size) + freeBytes bs := rfl

@[simp] theorem freeBytes_append : freeBytes (xs ++ ys) = freeBytes xs + freeBytes ys := by
  induction xs with
  | nil => simp
  | cons b xs ih =>
      simp only [List.cons_append, freeBytes_cons, ih]
      omega

theorem freeBytes_le_extent (bs : List Block) : freeBytes bs ≤ extent bs := by
  induction bs with
  | nil => exact Nat.le_refl 0
  | cons b bs ih =>
      simp only [freeBytes_cons, extent_cons]
      split <;> omega

@[simp] theorem select_nil : select u a [] = [] := rfl

@[simp] theorem select_cons_self : select u a (⟨n, u⟩ :: bs) = (a, n) :: select u (a + n) bs :=
  if_pos rfl

theorem select_cons_of_ne (h : v ≠ u) : select u a (⟨n, v⟩ :: bs) = select u (a + n) bs := if_neg h

theorem select_append : select u a (xs ++ ys) = select u a xs ++ select u (a + extent xs) ys := by
  induction xs generalizing a with
  | nil => simp
  | cons b xs ih =>
      obtain ⟨n, v⟩ := b
      rcases eq_or_ne v u with rfl | h
      · rw [List.cons_append, select_cons_self, select_cons_self, ih, extent_cons, Nat.add_assoc]
        rfl
      · rw [List.cons_append, select_cons_of_ne h, select_cons_of_ne h, ih, extent_cons,
          Nat.add_assoc]

theorem mem_select_cons {x : Nat × Nat} : x ∈ select u a (b :: bs) ↔
    (b.used = u ∧ x = (a, b.size)) ∨ x ∈ select u (a + b.size) bs := by
  obtain ⟨n, v⟩ := b
  rcases eq_or_ne v u with rfl | h
  · rw [select_cons_self, List.mem_cons]
    exact or_congr_left (and_iff_right rfl).symm
  · rw [select_cons_of_ne h]
    exact (or_iff_right fun hx => h hx.1).symm

/-- A block with an address stands somewhere in the list. -/
theorem mem_select_iff {x : Nat × Nat} : x ∈ select u a bs ↔
    ∃ xs ys, bs = xs ++ ⟨x.2, u⟩ :: ys ∧ x.1 = a + extent xs := by
  induction bs generalizing a with
  | nil => simp
  | cons b bs ih =>
      constructor
      · rw [mem_select_cons, ih]
        rintro (⟨rfl, rfl⟩ | ⟨xs, ys, rfl, he⟩)
        · exact ⟨[], bs, rfl, rfl⟩
        · exact ⟨b :: xs, ys, rfl, by rw [he, extent_cons, Nat.add_assoc]⟩
      · rintro ⟨xs, ys, he, hx⟩
        rw [he, select_append, select_cons_self, ← hx]
        exact List.mem_append_right _ (List.mem_cons_self ..)

/-- A block lies inside the arena. -/
theorem bounds_of_mem_select {x : Nat × Nat} (h : x ∈ select u a bs) :
    a ≤ x.1 ∧ x.1 + x.2 ≤ a + extent bs := by
  obtain ⟨xs, ys, rfl, he⟩ := mem_select_iff.mp h
  simp only [extent_append, extent_cons]
  omega

/-- The blocks stand in the order of their addresses. -/
theorem pairwise_select (u : Bool) (a : Nat) (bs : List Block) :
    (select u a bs).Pairwise fun x y => x.1 + x.2 ≤ y.1 := by
  induction bs generalizing a with
  | nil => exact .nil
  | cons b bs ih =>
      obtain ⟨n, v⟩ := b
      rcases eq_or_ne v u with rfl | h
      · rw [select_cons_self, List.pairwise_cons]
        exact ⟨fun y hy => (bounds_of_mem_select hy).1, ih _⟩
      · rw [select_cons_of_ne h]
        exact ih _

theorem length_select_le (u : Bool) (a : Nat) (bs : List Block) :
    (select u a bs).length ≤ bs.length := by
  induction bs generalizing a with
  | nil => exact Nat.le_refl 0
  | cons b bs ih =>
      rw [select, List.length_cons]
      split
      · rw [List.length_cons]
        exact Nat.succ_le_succ (ih _)
      · exact Nat.le_succ_of_le (ih _)

theorem length_le_extent (hpos : ∀ b ∈ bs, 0 < b.size) : bs.length ≤ extent bs := by
  induction bs with
  | nil => exact Nat.le_refl 0
  | cons b bs ih =>
      obtain ⟨hb, hpos⟩ := List.forall_mem_cons.mp hpos
      have := ih hpos
      rw [List.length_cons, extent_cons]
      omega

/-- Two blocks are the same or do not meet. -/
theorem eq_or_apart {x y : Nat × Nat} (hx : x ∈ select u a bs) (hy : y ∈ select v a bs) :
    (x = y ∧ u = v) ∨ x.1 + x.2 ≤ y.1 ∨ y.1 + y.2 ≤ x.1 := by
  induction bs generalizing a with
  | nil => cases hx
  | cons b bs ih =>
      rw [mem_select_cons] at hx hy
      rcases hx with ⟨hu, rfl⟩ | hx
      · rcases hy with ⟨hv, rfl⟩ | hy
        · exact .inl ⟨rfl, hu.symm.trans hv⟩
        · exact .inr (.inl (bounds_of_mem_select hy).1)
      · rcases hy with ⟨hv, rfl⟩ | hy
        · exact .inr (.inr (bounds_of_mem_select hx).1)
        · exact ih hx hy

/-! ## Allocation -/

/-- What replaces a free block of size `n` of which `w` are taken.  The rest stays
free if it is larger than `t`. -/
def cut (w t n : Nat) : List Block := if t < n - w then [⟨w, true⟩, ⟨n - w, false⟩] else [⟨n, true⟩]

/-- Take the first free block of at least `w`, in an arena that starts at `a`: its
address, and the blocks afterwards. -/
def allocate (w t : Nat) : Nat → List Block → Option (Nat × List Block)
  | _, [] => none
  | a, b :: bs =>
      if b.used = false ∧ w ≤ b.size then some (a, cut w t b.size ++ bs)
      else (allocate w t (a + b.size) bs).map fun r => (r.1, b :: r.2)

/-- The blocks before the one that is taken. -/
def Unfit (w : Nat) (b : Block) : Prop := b.used = true ∨ b.size < w

theorem unfit_iff : Unfit w b ↔ ¬ (b.used = false ∧ w ≤ b.size) := by
  rw [Unfit, Classical.not_and_iff_not_or_not, Bool.not_eq_false, Nat.not_le]

theorem lt_of_unfit {x : Nat × Nat} (h : ∀ b ∈ bs, Unfit w b) (hx : x ∈ select false a bs) :
    x.2 < w := by
  obtain ⟨xs, ys, rfl, _⟩ := mem_select_iff.mp hx
  rcases h ⟨x.2, false⟩ (by simp) with hu | hlt
  · cases hu
  · exact hlt

/-- An allocation fails exactly if no free block is large enough. -/
theorem allocate_eq_none_iff : allocate w t a bs = none ↔ ∀ b ∈ bs, Unfit w b := by
  induction bs generalizing a with
  | nil => simp [allocate]
  | cons b bs ih =>
      rw [allocate, List.forall_mem_cons, unfit_iff]
      split
      · next h => simp [h]
      · next h => simp [h, ih]

/-- An allocation takes the first block that fits. -/
theorem allocate_eq_some_iff : allocate w t a bs = some (p, cs) ↔
    ∃ xs n ys, bs = xs ++ ⟨n, false⟩ :: ys ∧ (∀ b ∈ xs, Unfit w b) ∧ w ≤ n ∧ p = a + extent xs ∧
      cs = xs ++ (cut w t n ++ ys) := by
  induction bs generalizing a cs with
  | nil => simp [allocate]
  | cons b bs ih =>
      rw [allocate]
      split
      · next h =>
        constructor
        · intro he
          cases he
          exact ⟨[], b.size, bs, by rw [← h.1]; rfl, by simp, h.2, rfl, rfl⟩
        · rintro ⟨xs, n, ys, he, hxs, hn, rfl, rfl⟩
          cases xs with
          | nil =>
              cases he
              rfl
          | cons x xs =>
              cases he
              exact absurd h (unfit_iff.mp (hxs b (List.mem_cons_self ..)))
      · next h =>
        constructor
        · intro he
          obtain ⟨⟨q, ds⟩, hq, hds⟩ := Option.map_eq_some_iff.mp he
          cases hds
          obtain ⟨xs, n, ys, rfl, hxs, hn, rfl, rfl⟩ := ih.mp hq
          refine ⟨b :: xs, n, ys, rfl, ?_, hn, by rw [extent_cons, Nat.add_assoc], rfl⟩
          exact List.forall_mem_cons.mpr ⟨unfit_iff.mpr h, hxs⟩
        · rintro ⟨xs, n, ys, he, hxs, hn, rfl, rfl⟩
          cases xs with
          | nil =>
              cases he
              exact absurd ⟨rfl, hn⟩ h
          | cons x xs =>
              cases he
              have hq := ih.mpr ⟨xs, n, ys, rfl, fun c hc => hxs c (List.mem_cons_of_mem _ hc), hn,
                (Nat.add_assoc a b.size (extent xs)).symm, rfl⟩
              rw [extent_cons, hq]
              rfl

@[simp] theorem extent_cut (h : w ≤ n) : extent (cut w t n) = n := by
  rw [cut]
  split
  · simp only [extent_cons, extent_nil]
    omega
  · simp

/-! ## Release -/

/-- Put a free block in front, and join it with a free block that is there. -/
def consFree (n : Nat) : List Block → List Block
  | ⟨k, false⟩ :: bs => ⟨n + k, false⟩ :: bs
  | bs => ⟨n, false⟩ :: bs

/-- Put a block in front, and join it if it is free. -/
def consBlock (b : Block) (bs : List Block) : List Block :=
  if b.used then b :: bs else consFree b.size bs

/-- Free the used block at `p`, in an arena that starts at `a`. -/
def release (p : Nat) : Nat → List Block → Option (List Block)
  | _, [] => none
  | a, b :: bs =>
      if a = p then if b.used then some (consFree b.size bs) else none
      else (release p (a + b.size) bs).map (consBlock b)

@[simp] theorem consBlock_used : consBlock ⟨n, true⟩ bs = ⟨n, true⟩ :: bs := rfl

@[simp] theorem consBlock_free : consBlock ⟨n, false⟩ bs = consFree n bs := rfl

@[simp] theorem consFree_free : consFree n (⟨k, false⟩ :: bs) = ⟨n + k, false⟩ :: bs := rfl

/-- There is no free block to join with. -/
theorem consFree_of_coalesced (h : Coalesced (⟨n, false⟩ :: bs)) :
    consFree n bs = ⟨n, false⟩ :: bs := by
  cases bs with
  | nil => rfl
  | cons b bs =>
      obtain ⟨k, v⟩ := b
      cases v with
      | true => rfl
      | false => exact absurd (List.isChain_cons_cons.mp h).1 (by simp)

theorem consBlock_of_coalesced (h : Coalesced (b :: bs)) : consBlock b bs = b :: bs := by
  obtain ⟨n, v⟩ := b
  cases v with
  | true => rfl
  | false => exact consFree_of_coalesced h

/-- Blocks without free neighbours are put in front as they are. -/
theorem foldr_consBlock (h : Coalesced (xs ++ ys)) : xs.foldr consBlock ys = xs ++ ys := by
  induction xs with
  | nil => rfl
  | cons b xs ih =>
      rw [List.foldr_cons, ih h.tail]
      exact consBlock_of_coalesced h

@[simp] theorem extent_consFree : extent (consFree n bs) = n + extent bs := by
  rw [consFree.eq_def]
  split <;> simp [Nat.add_assoc]

@[simp] theorem extent_consBlock : extent (consBlock b bs) = b.size + extent bs := by
  rw [consBlock]
  split <;> simp

@[simp] theorem extent_foldr_consBlock :
    extent (xs.foldr consBlock bs) = extent xs + extent bs := by
  induction xs with
  | nil => simp
  | cons b xs ih => simp [ih, Nat.add_assoc]

@[simp] theorem freeBytes_consFree : freeBytes (consFree n bs) = n + freeBytes bs := by
  rw [consFree.eq_def]
  split <;> simp [Nat.add_assoc]

@[simp] theorem freeBytes_consBlock :
    freeBytes (consBlock b bs) = (if b.used then 0 else b.size) + freeBytes bs := by
  rw [consBlock]
  split <;> simp [*]

@[simp] theorem freeBytes_foldr_consBlock :
    freeBytes (xs.foldr consBlock bs) = freeBytes xs + freeBytes bs := by
  induction xs with
  | nil => simp
  | cons b xs ih => simp [ih, Nat.add_assoc]

/-- The used blocks are those that there were. -/
theorem select_true_consFree :
    select true a (consFree n bs) = select true (a + n) bs := by
  rw [consFree.eq_def]
  split
  · rw [select_cons_of_ne (by simp), select_cons_of_ne (by simp), Nat.add_assoc]
  · exact select_cons_of_ne (by simp)

theorem select_true_consBlock :
    select true a (consBlock b bs) = select true a (b :: bs) := by
  obtain ⟨n, v⟩ := b
  cases v with
  | true => rfl
  | false => rw [consBlock_free, select_true_consFree, select_cons_of_ne (by simp)]

theorem select_true_foldr_consBlock :
    select true a (xs.foldr consBlock bs) = select true a (xs ++ bs) := by
  induction xs generalizing a with
  | nil => rfl
  | cons b xs ih =>
      obtain ⟨n, v⟩ := b
      rw [List.foldr_cons, select_true_consBlock, List.cons_append]
      cases v with
      | true => rw [select_cons_self, select_cons_self, ih]
      | false => rw [select_cons_of_ne (by simp), select_cons_of_ne (by simp), ih]

/-- A release frees the used block at the address, between blocks that stay. -/
theorem release_eq_some_iff (hpos : ∀ b ∈ bs, 0 < b.size) : release p a bs = some cs ↔
    ∃ xs n ys, bs = xs ++ ⟨n, true⟩ :: ys ∧ p = a + extent xs ∧
      cs = xs.foldr consBlock (consFree n ys) := by
  induction bs generalizing a cs with
  | nil => simp [release]
  | cons b bs ih =>
      obtain ⟨k, v⟩ := b
      obtain ⟨hk, hpos⟩ := List.forall_mem_cons.mp hpos
      rw [release]
      split
      · next ha =>
        subst ha
        constructor
        · intro he
          cases v with
          | true =>
              cases he
              exact ⟨[], k, bs, rfl, rfl, rfl⟩
          | false => cases he
        · rintro ⟨xs, n, ys, he, hp, rfl⟩
          cases xs with
          | nil =>
              cases he
              rfl
          | cons x xs =>
              cases he
              rw [extent_cons] at hp
              dsimp only at hk hp
              omega
      · next ha =>
        constructor
        · intro he
          obtain ⟨ds, hds, rfl⟩ := Option.map_eq_some_iff.mp he
          obtain ⟨xs, n, ys, rfl, rfl, rfl⟩ := (ih hpos).mp hds
          exact ⟨⟨k, v⟩ :: xs, n, ys, rfl, by rw [extent_cons, Nat.add_assoc], rfl⟩
        · rintro ⟨xs, n, ys, he, rfl, rfl⟩
          cases xs with
          | nil => exact absurd (Nat.add_zero a).symm ha
          | cons x xs =>
              cases he
              have hq := (ih hpos).mpr ⟨xs, n, ys, rfl, (Nat.add_assoc a k (extent xs)).symm, rfl⟩
              dsimp only
              rw [hq]
              rfl

/-! ## Tidy arenas -/

/-- The sizes are positive multiples of `d`, and no two free blocks are neighbours. -/
structure Tidy (d : Nat) (bs : List Block) : Prop where
  sized : ∀ b ∈ bs, 0 < b.size ∧ d ∣ b.size
  coalesced : Coalesced bs

namespace Tidy

variable {d : Nat}

theorem pos (h : Tidy d bs) : ∀ b ∈ bs, 0 < b.size := fun b hb => (h.sized b hb).1

theorem nil : Tidy d [] := ⟨by simp, by simp⟩

theorem tail (h : Tidy d (b :: bs)) : Tidy d bs :=
  ⟨fun c hc => h.sized c (List.mem_cons_of_mem _ hc), h.coalesced.tail⟩

theorem left (h : Tidy d (xs ++ ys)) : Tidy d xs :=
  ⟨fun c hc => h.sized c (List.mem_append_left _ hc), h.coalesced.left_of_append⟩

theorem right (h : Tidy d (xs ++ ys)) : Tidy d ys :=
  ⟨fun c hc => h.sized c (List.mem_append_right _ hc), h.coalesced.right_of_append⟩

theorem head (h : Tidy d (b :: bs)) : 0 < b.size ∧ d ∣ b.size := h.sized b (List.mem_cons_self ..)

theorem dvd_extent (h : Tidy d bs) : d ∣ extent bs := by
  induction bs with
  | nil => exact Nat.dvd_zero d
  | cons b bs ih => exact Nat.dvd_add h.head.2 (ih h.tail)

/-- Blocks have positive sizes and are aligned as the arena is. -/
theorem of_mem_select {x : Nat × Nat} (h : Tidy d bs) (ha : d ∣ a) (hx : x ∈ select u a bs) :
    d ∣ x.1 ∧ d ∣ x.2 ∧ 0 < x.2 := by
  obtain ⟨xs, ys, rfl, he⟩ := mem_select_iff.mp hx
  have hn := h.right.head
  rw [he]
  exact ⟨Nat.dvd_add ha h.left.dvd_extent, hn.2, hn.1⟩

/-- A used block in front is always fine. -/
theorem cons_used (h : Tidy d bs) (hn : 0 < n) (hd : d ∣ n) : Tidy d (⟨n, true⟩ :: bs) := by
  constructor
  · exact List.forall_mem_cons.mpr ⟨⟨hn, hd⟩, h.sized⟩
  · exact List.isChain_cons.mpr ⟨fun c _ => .inl rfl, h.coalesced⟩

theorem consFree (h : Tidy d bs) (hn : 0 < n) (hd : d ∣ n) : Tidy d (consFree n bs) := by
  cases bs with
  | nil => exact ⟨by simpa [Arena.consFree] using ⟨hn, hd⟩, by simp [Arena.consFree]⟩
  | cons b bs =>
      obtain ⟨k, v⟩ := b
      cases v with
      | true =>
          constructor
          · exact List.forall_mem_cons.mpr ⟨⟨hn, hd⟩, h.sized⟩
          · exact List.isChain_cons_cons.mpr ⟨.inr rfl, h.coalesced⟩
      | false =>
          constructor
          · refine List.forall_mem_cons.mpr ⟨⟨Nat.add_pos_left hn k, ?_⟩, h.tail.sized⟩
            exact Nat.dvd_add hd h.head.2
          · exact List.isChain_cons.mpr (List.isChain_cons.mp h.coalesced)

theorem consBlock (h : Tidy d bs) (hb : 0 < b.size ∧ d ∣ b.size) : Tidy d (consBlock b bs) := by
  obtain ⟨n, v⟩ := b
  cases v with
  | true => exact h.cons_used hb.1 hb.2
  | false => exact h.consFree hb.1 hb.2

theorem foldr_consBlock (h : Tidy d bs) (hxs : ∀ b ∈ xs, 0 < b.size ∧ d ∣ b.size) :
    Tidy d (xs.foldr Arena.consBlock bs) := by
  induction xs with
  | nil => exact h
  | cons b xs ih =>
      obtain ⟨hb, hxs⟩ := List.forall_mem_cons.mp hxs
      exact (ih hxs).consBlock hb

/-- Two tidy lists that meet at a used block. -/
theorem append_used (h : Tidy d xs) (hy : Tidy d (⟨n, true⟩ :: ys)) :
    Tidy d (xs ++ ⟨n, true⟩ :: ys) := by
  constructor
  · intro c hc
    rcases List.mem_append.mp hc with hc | hc
    · exact h.sized c hc
    · exact hy.sized c hc
  · refine h.coalesced.append hy.coalesced fun x _ y hy => .inr ?_
    cases hy
    rfl

/-- The neighbours of a free block are used. -/
theorem after_free (h : Tidy d (xs ++ ⟨n, false⟩ :: ys)) (hw : 0 < k) (hd : d ∣ k) :
    Tidy d (⟨k, false⟩ :: ys) := by
  have hr := h.right
  constructor
  · exact List.forall_mem_cons.mpr ⟨⟨hw, hd⟩, hr.tail.sized⟩
  · exact List.isChain_cons.mpr (List.isChain_cons.mp hr.coalesced)

theorem cut (h : Tidy d (xs ++ ⟨n, false⟩ :: ys)) (hw : 0 < w) (hd : d ∣ w) :
    Tidy d (xs ++ (cut w t n ++ ys)) := by
  have hn := h.right.head
  rw [Arena.cut]
  split
  · next ht =>
    have hr : Tidy d (⟨n - w, false⟩ :: ys) :=
      h.after_free (Nat.zero_lt_of_lt ht) (Nat.dvd_sub hn.2 hd)
    exact h.left.append_used (hr.cons_used hw hd)
  · exact h.left.append_used (h.right.tail.cons_used hn.1 hn.2)

/-- An allocation keeps the arena tidy. -/
theorem allocate (h : Tidy d bs) (hw : 0 < w) (hd : d ∣ w)
    (ha : allocate w t a bs = some (p, cs)) : Tidy d cs := by
  obtain ⟨xs, n, ys, rfl, _, _, rfl, rfl⟩ := allocate_eq_some_iff.mp ha
  exact h.cut hw hd

/-- A release keeps the arena tidy. -/
theorem release (h : Tidy d bs) (hr : release p a bs = some cs) : Tidy d cs := by
  obtain ⟨xs, n, ys, rfl, rfl, rfl⟩ := (release_eq_some_iff h.pos).mp hr
  have hn := h.right.head
  exact (h.right.tail.consFree hn.1 hn.2).foldr_consBlock h.left.sized

/-- When nothing is used, the arena is one block. -/
theorem eq_singleton_of_unused (h : Tidy d bs) (hne : bs ≠ []) (hu : select true a bs = []) :
    bs = [⟨extent bs, false⟩] := by
  cases bs with
  | nil => exact absurd rfl hne
  | cons b bs =>
      obtain ⟨n, v⟩ := b
      cases v with
      | true => simp at hu
      | false =>
          rw [select_cons_of_ne (by simp)] at hu
          cases bs with
          | nil => rfl
          | cons c bs =>
              obtain ⟨k, v⟩ := c
              cases v with
              | true => simp at hu
              | false => exact absurd (List.isChain_cons_cons.mp h.coalesced).1 (by simp)

end Tidy

/-! ## What the operations keep -/

theorem extent_allocate (h : allocate w t a bs = some (p, cs)) : extent cs = extent bs := by
  obtain ⟨xs, n, ys, rfl, _, hn, rfl, rfl⟩ := allocate_eq_some_iff.mp h
  simp [extent_cut hn]

theorem extent_release (hpos : ∀ b ∈ bs, 0 < b.size) (h : release p a bs = some cs) :
    extent cs = extent bs := by
  obtain ⟨xs, n, ys, rfl, rfl, rfl⟩ := (release_eq_some_iff hpos).mp h
  simp

/-- A free block of the wanted size is there only if so many bytes are free. -/
theorem le_freeBytes_of_allocate (h : allocate w t a bs = some (p, cs)) : w ≤ freeBytes bs := by
  obtain ⟨xs, n, ys, rfl, _, hn, rfl, rfl⟩ := allocate_eq_some_iff.mp h
  simp only [freeBytes_append, freeBytes_cons]
  simp only [Bool.false_eq_true, ite_false]
  omega

/-- An allocation adds one block to the used ones. -/
theorem used_allocate (h : allocate w t a bs = some (p, cs)) :
    ∃ k, w ≤ k ∧ k ≤ w + t ∧ freeBytes cs + k = freeBytes bs ∧
      ∀ x, x ∈ select true a cs ↔ x = (p, k) ∨ x ∈ select true a bs := by
  obtain ⟨xs, n, ys, rfl, _, hn, rfl, rfl⟩ := allocate_eq_some_iff.mp h
  rw [cut]
  split
  · refine ⟨w, Nat.le_refl w, Nat.le_add_right w t, ?_, fun x => ?_⟩
    · simp only [freeBytes_append, freeBytes_cons, freeBytes_nil]
      simp only [Bool.false_eq_true, ite_false, ite_true]
      omega
    · rw [List.cons_append, List.cons_append, List.nil_append, select_append, select_append,
        select_cons_self, select_cons_of_ne (by simp), select_cons_of_ne (by simp)]
      rw [List.mem_append, List.mem_cons, List.mem_append, Nat.add_assoc (a + extent xs),
        Nat.add_sub_cancel' hn]
      exact or_left_comm
  · refine ⟨n, hn, by omega, ?_, fun x => ?_⟩
    · simp only [freeBytes_append, freeBytes_cons, freeBytes_nil]
      simp only [Bool.false_eq_true, ite_false, ite_true]
      omega
    · rw [List.cons_append, List.nil_append, select_append, select_append, select_cons_self,
        select_cons_of_ne (by simp)]
      rw [List.mem_append, List.mem_cons, List.mem_append]
      exact or_left_comm

theorem pos_of_mem_select {x : Nat × Nat} (hpos : ∀ b ∈ bs, 0 < b.size)
    (h : x ∈ select u a bs) : 0 < x.2 := by
  obtain ⟨xs, ys, rfl, _⟩ := mem_select_iff.mp h
  exact hpos ⟨x.2, u⟩ (List.mem_append_right _ (List.mem_cons_self ..))

/-- A release takes one block from the used ones. -/
theorem used_release (hpos : ∀ b ∈ bs, 0 < b.size) (h : release p a bs = some cs) :
    ∃ k, (p, k) ∈ select true a bs ∧ freeBytes cs = freeBytes bs + k ∧
      ∀ x, x ∈ select true a cs ↔ x ∈ select true a bs ∧ x.1 ≠ p := by
  obtain ⟨xs, n, ys, rfl, rfl, rfl⟩ := (release_eq_some_iff hpos).mp h
  refine ⟨n, mem_select_iff.mpr ⟨xs, ys, rfl, rfl⟩, ?_, fun x => ?_⟩
  · simp only [freeBytes_foldr_consBlock, freeBytes_consFree, freeBytes_append, freeBytes_cons]
    simp only [ite_true]
    omega
  · obtain ⟨hxs, hpos⟩ := List.forall_mem_append.mp hpos
    obtain ⟨hn, _⟩ := List.forall_mem_cons.mp hpos
    dsimp only at hn
    rw [select_true_foldr_consBlock, select_append, select_true_consFree, select_append,
      select_cons_self, List.mem_append, List.mem_append, List.mem_cons]
    constructor
    · rintro (hx | hx)
      · have hb := bounds_of_mem_select hx
        have hlt := pos_of_mem_select hxs hx
        exact ⟨.inl hx, by omega⟩
      · have hb := bounds_of_mem_select hx
        exact ⟨.inr (.inr hx), by omega⟩
    · rintro ⟨hx | rfl | hx, hne⟩
      · exact .inl hx
      · exact absurd rfl hne
      · exact .inr hx

/-! ## Round trip -/

/-- A release undoes the last allocation: also the cut and the join. -/
theorem release_allocate (hpos : ∀ b ∈ bs, 0 < b.size) (hc : Coalesced bs) (hw : 0 < w)
    (h : allocate w t a bs = some (p, cs)) : release p a cs = some bs := by
  obtain ⟨xs, n, ys, rfl, _, hn, rfl, rfl⟩ := allocate_eq_some_iff.mp h
  obtain ⟨hxs, hys⟩ := List.forall_mem_append.mp hpos
  obtain ⟨_, hys⟩ := List.forall_mem_cons.mp hys
  rw [cut]
  split
  · next ht =>
    refine (release_eq_some_iff ?_).mpr ⟨xs, w, ⟨n - w, false⟩ :: ys, rfl, rfl, ?_⟩
    · simp only [List.forall_mem_append, List.forall_mem_cons, List.cons_append, List.nil_append]
      exact ⟨hxs, hw, Nat.zero_lt_of_lt ht, hys⟩
    · rw [consFree_free, Nat.add_sub_cancel' hn]
      exact (foldr_consBlock hc).symm
  · refine (release_eq_some_iff ?_).mpr ⟨xs, n, ys, rfl, rfl, ?_⟩
    · simp only [List.forall_mem_append, List.forall_mem_cons, List.cons_append, List.nil_append]
      exact ⟨hxs, Nat.lt_of_lt_of_le hw hn, hys⟩
    · rw [consFree_of_coalesced hc.right_of_append]
      exact (foldr_consBlock hc).symm

/-! ## The free blocks as a list -/

/-- Put a block in front of a list of blocks with addresses, and join it with a
block that starts where it ends. -/
def join (x : Nat × Nat) : List (Nat × Nat) → List (Nat × Nat)
  | [] => [x]
  | y :: l => if x.1 + x.2 = y.1 then (x.1, x.2 + y.2) :: l else x :: y :: l

theorem exists_join (x : Nat × Nat) (l : List (Nat × Nat)) : ∃ k l', join x l = (x.1, k) :: l' := by
  cases l with
  | nil => exact ⟨x.2, [], rfl⟩
  | cons y l =>
      rw [join]
      split
      · exact ⟨_, _, rfl⟩
      · exact ⟨x.2, _, rfl⟩

/-- Nothing new comes behind the block that is put in front. -/
theorem mem_of_join {x y z : Nat × Nat} {k l : List (Nat × Nat)} (h : join x l = y :: k)
    (hz : z ∈ k) : z ∈ l := by
  cases l with
  | nil =>
      cases h
      cases hz
  | cons b l =>
      rw [join] at h
      split at h
      · cases h
        exact List.mem_cons_of_mem _ hz
      · cases h
        exact hz

theorem select_false_consFree (hpos : ∀ b ∈ bs, 0 < b.size) :
    select false a (consFree n bs) = join (a, n) (select false (a + n) bs) := by
  cases bs with
  | nil => rfl
  | cons b bs =>
      obtain ⟨k, v⟩ := b
      cases v with
      | false =>
          rw [consFree_free, select_cons_self, select_cons_self, join, if_pos rfl, Nat.add_assoc]
      | true =>
          have hk : 0 < k := hpos ⟨k, true⟩ (List.mem_cons_self ..)
          show select false a (⟨n, false⟩ :: ⟨k, true⟩ :: bs) = _
          rw [select_cons_self, select_cons_of_ne (by simp)]
          cases hs : select false (a + n + k) bs with
          | nil => rfl
          | cons y l =>
              have hy : y ∈ select false (a + n + k) bs := by simp [hs]
              have hb := bounds_of_mem_select hy
              rw [join, if_neg (by dsimp only; omega)]

theorem exists_consFree (n : Nat) (bs : List Block) :
    ∃ k ys, consFree n bs = ⟨n + k, false⟩ :: ys ∧ ∀ m, consFree m bs = ⟨m + k, false⟩ :: ys := by
  cases bs with
  | nil => exact ⟨0, [], rfl, fun _ => rfl⟩
  | cons b bs =>
      obtain ⟨k, v⟩ := b
      cases v with
      | false => exact ⟨k, bs, rfl, fun _ => rfl⟩
      | true => exact ⟨0, ⟨k, true⟩ :: bs, rfl, fun _ => rfl⟩

theorem consFree_consFree : consFree k (consFree n bs) = consFree (k + n) bs := by
  obtain ⟨j, ys, he, hm⟩ := exists_consFree n bs
  rw [he, hm, consFree_free, Nat.add_assoc]

/-- The free blocks after a release.  Either the block before is free, and the
released block is joined to it, or the free blocks before stay and end before it. -/
theorem select_false_release {d : Nat} (h : Tidy d (xs ++ ⟨n, true⟩ :: ys)) :
    (∃ zs k, xs = zs ++ [⟨k, false⟩] ∧
      select false a (xs.foldr consBlock (consFree n ys)) =
        select false a zs ++
          join (a + extent zs, k + n) (select false (a + extent xs + n) ys)) ∨
    ((∀ x ∈ select false a xs, x.1 + x.2 < a + extent xs) ∧
      select false a (xs.foldr consBlock (consFree n ys)) =
        select false a xs ++ join (a + extent xs, n) (select false (a + extent xs + n) ys)) := by
  have hn := h.right.head
  have hys := h.right.tail
  have hfree : Tidy d (consFree n ys) := hys.consFree hn.1 hn.2
  rcases List.eq_nil_or_concat xs with rfl | ⟨zs, b, rfl⟩
  · refine .inr ⟨by simp, ?_⟩
    exact select_false_consFree hys.pos
  · rw [List.concat_eq_append] at h ⊢
    obtain ⟨k, v⟩ := b
    have hk : 0 < k ∧ d ∣ k := h.left.right.head
    rw [List.foldr_append, List.foldr_cons, List.foldr_nil]
    cases v with
    | false =>
        refine .inl ⟨zs, k, rfl, ?_⟩
        rw [consBlock_free, consFree_consFree]
        have hc : Coalesced (zs ++ consFree (k + n) ys) := by
          obtain ⟨j, l, he, _⟩ := exists_consFree (k + n) ys
          rw [he]
          refine h.left.coalesced.left_of_append.append ?_ fun x hx y hy => ?_
          · rw [← he]
            exact (hys.consFree (Nat.add_pos_left hk.1 n) (Nat.dvd_add hk.2 hn.2)).coalesced
          · cases hy
            exact (List.isChain_append.mp h.left.coalesced).2.2 x hx ⟨k, false⟩ rfl
        rw [foldr_consBlock hc, select_append, select_false_consFree hys.pos, extent_append,
          extent_cons, extent_nil]
        simp only [Nat.add_zero, Nat.add_assoc]
    | true =>
        refine .inr ⟨fun x hx => ?_, ?_⟩
        · rw [select_append, select_cons_of_ne (by simp), select_nil, List.append_nil] at hx
          have hb := bounds_of_mem_select hx
          simp only [extent_append, extent_cons, extent_nil]
          omega
        · have hc : Coalesced (zs ++ ⟨k, true⟩ :: consFree n ys) :=
            (h.left.left.append_used (hfree.cons_used hk.1 hk.2)).coalesced
          rw [consBlock_used, foldr_consBlock hc, select_append, select_append,
            select_cons_of_ne (by simp), select_cons_of_ne (by simp), select_nil, List.append_nil,
            select_false_consFree hys.pos, extent_append, extent_cons, extent_nil]
          simp only [Nat.add_zero, Nat.add_assoc]

end Arena
