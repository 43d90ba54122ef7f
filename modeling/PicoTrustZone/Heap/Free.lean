import PicoTrustZone.Heap.Represent

/-!
# Freeing a block

`vPortFree` of a used block is `Arena.release`.
-/

namespace SecureHeap

open ByteMemory Pointer BlockChain Arena

variable {L : Layout} {m m' : ByteMemory} {bs xs ys : List Block} {low n p k : Nat} {u : Bool}

/-! ## Insertion into a represented heap -/

/-- The free blocks other than one block. -/
theorem Rep.around (h : Rep L m (xs ++ ⟨k, u⟩ :: ys) low) {x : Nat × Nat}
    (hx : x ∈ select false L.start xs ++ select false (L.start + extent xs + k) ys) :
    L.Inner x.1 ∧ 8 ≤ x.2 ∧ x ∈ select false L.start (xs ++ ⟨k, u⟩ :: ys) ∧
      (x.1 + x.2 ≤ L.start + extent xs ∨ L.start + extent xs + k ≤ x.1) := by
  have hmem : x ∈ select false L.start (xs ++ ⟨k, u⟩ :: ys) := by
    rw [select_append]
    rcases List.mem_append.mp hx with hx | hx
    · exact List.mem_append_left _ hx
    · exact List.mem_append_right _ (mem_select_cons.mpr (.inr hx))
  obtain ⟨hi, _, _, h8⟩ := h.block hmem
  refine ⟨hi, h8, hmem, ?_⟩
  rcases List.mem_append.mp hx with hx | hx
  · exact .inl (bounds_of_mem_select hx).2
  · exact .inr (bounds_of_mem_select hx).1

/-- A part of a block that is not in the free list lies between the free blocks before
it and those behind it. -/
theorem Rep.gap (h : Rep L m (xs ++ ⟨k, u⟩ :: ys) low) (hp : L.start + extent xs ≤ p)
    (hn : 0 < n) (hpn : p + n ≤ L.start + extent xs + k) (hd : 8 ∣ p)
    (hchain : Linked m' L.stop L.xStart
      (select false L.start xs ++ select false (L.start + extent xs + k) ys))
    (hxs : m'.word (L.xStart + 4) = ptr 0) (hend : L.get m' .pxEnd = ptr L.stop)
    (hsize : m'.word (p + 4) = ptr n) :
    Gap L m' (select false L.start xs) (select false (L.start + extent xs + k) ys) p n := by
  have ht := h.tiles
  simp only [extent_append, extent_cons] at ht
  refine ⟨hchain, hxs, hend, hsize, ⟨⟨by omega, by omega, hd⟩, by omega⟩, fun x hx => ?_,
    fun x hx => ?_, pairwise_select .., ?_⟩
  · obtain ⟨hi, h8, _⟩ := h.around (List.mem_append_left _ hx)
    have := bounds_of_mem_select hx
    exact ⟨hi, by omega, by omega⟩
  · obtain ⟨hi, h8, hmem, _⟩ := h.around (List.mem_append_right _ hx)
    have := bounds_of_mem_select hx
    have := (h.block hmem).2.1
    exact ⟨hi, by omega, by omega⟩
  · refine Nat.lt_of_le_of_lt ?_ (h.length_lt (u := false))
    rw [select_append, List.length_append]
    exact Nat.le_add_right ..

/-- The insertion of a block that was used is the release of the arena. -/
theorem Rep.insert_release (h : Rep L m (xs ++ ⟨n, true⟩ :: ys) low)
    (hgap : Gap L m' (select false L.start xs) (select false (L.start + extent xs + n) ys)
      (L.start + extent xs) n) :
    ∃ m'', prvInsertBlockIntoFreeList L m' (ptr (L.start + extent xs)) = some m'' ∧
      Frame L (select false L.start xs) (L.start + extent xs) m' m'' ∧
      Linked m'' L.stop L.xStart (select false L.start (xs.foldr consBlock (consFree n ys))) ∧
      ∃ j, j < 2 ^ 31 ∧ m''.word (L.start + extent xs + 4) = ptr j := by
  have hn := h.tidy.right.head.1
  have hp : L.start + extent xs < L.stop := by
    have ht := h.tiles
    simp only [extent_append, extent_cons] at ht hn
    omega
  rcases select_false_release (a := L.start) h.tidy with ⟨zs, j, rfl, hs⟩ | ⟨hlt, hs⟩
  · have hz : select false L.start (zs ++ [⟨j, false⟩]) =
        select false L.start zs ++ [(L.start + extent zs, j)] := by
      rw [select_append, select_cons_self, select_nil]
    rw [hz] at hgap ⊢
    rw [hs]
    obtain ⟨m'', hm'', hframe, hchain, hsize⟩ := hgap.insert_touch hp (by
      simp only [extent_append, extent_cons, extent_nil, Nat.add_zero, Nat.add_assoc])
    have hlt : n < 2 ^ 31 := by
      have := h.extent_lt
      simp only [extent_append, extent_cons] at this
      omega
    exact ⟨m'', hm'', hframe, hchain, n, hlt, hsize⟩
  · obtain ⟨m'', hm'', hframe, hchain⟩ := hgap.insert_apart hp hlt
    rw [← hs] at hchain
    refine ⟨m'', hm'', hframe, hchain, ?_⟩
    obtain ⟨j, G', hj⟩ := exists_join (L.start + extent xs, n)
      (select false (L.start + extent xs + n) ys)
    have hmem : (L.start + extent xs, j) ∈
        select false L.start (xs.foldr consBlock (consFree n ys)) := by
      rw [hs, hj]
      exact List.mem_append_right _ (List.mem_cons_self ..)
    have hb := bounds_of_mem_select hmem
    have hroom := h.extent_lt
    simp only [extent_foldr_consBlock, extent_consFree, extent_append, extent_cons] at hb hroom
    have hsize := hchain.word_size hmem
    exact ⟨j, by omega, hsize⟩

/-! ## `vPortFree` -/

/-- A used block can be freed, and the memory then holds the arena without it. -/
theorem vPortFree_spec (h : Rep L m bs low) (hp : (p, n) ∈ select true L.start bs) :
    ∃ m' cs, release p L.start bs = some cs ∧ vPortFree L m (ptr (p + 8)) = some m' ∧
      Rep L m' cs low ∧ (∀ z, ¬ Changed L bs p z → m' z = m z) ∧
      ∃ j, j < 2 ^ 31 ∧ m'.word (p + 4) = ptr j := by
  obtain ⟨hinner, hpn, hd, h8⟩ := h.block hp
  obtain ⟨hlink, hsize⟩ := h.used _ hp
  have hplt := hinner.lt
  dsimp only at hinner hpn hd h8 hlink hsize hplt
  have hfree := h.freeBytes_lt
  have hroom := h.extent_lt
  have hstop := L.stop_lt
  have hn : n < 2 ^ 31 := by
    have := h.tiles
    have := hinner.1
    omega
  obtain ⟨xs, ys, rfl, hpe⟩ := mem_select_iff.mp hp
  dsimp only at hpe h hp hfree hroom
  have hrel := (release_eq_some_iff (a := L.start) h.tidy.pos).mpr ⟨xs, n, ys, rfl, hpe, rfl⟩
  -- the two stores before the insertion
  obtain ⟨m₂, hm₂⟩ : ∃ m₂, m₂ = L.set (m.setWord (p + 4) (ptr n)) .xFreeBytesRemaining
      (ptr (freeBytes (xs ++ ⟨n, true⟩ :: ys) + n)) := ⟨_, rfl⟩
  have hcall : vPortFree L m (ptr (p + 8)) = prvInsertBlockIntoFreeList L m₂ (ptr p) := by
    have hlnk : ptr (p + 8) - xHeapStructSize = ptr p := by
      have h8 : (8 : Word) = ptr 8 := rfl
      rw [xHeapStructSize_eq, h8, ptr_sub (by omega), Nat.add_sub_cancel]
    rw [vPortFree, if_pos (by rw [Ne, ptr_eq_zero (by omega)]; omega), hlnk]
    simp only [hinner.node.xBlockSize_eq, hinner.node.pxNextFreeBlock_eq,
      hinner.node.setBlockSize_eq, h.bit, hsize, hlink]
    rw [if_pos, if_pos trivial, ptr_and_not_top hn, word_setWord_self, hinner.node.get_setSize,
      h.remaining, ptr_add, hm₂]
    rw [Ne, ptr_and_top_eq_zero (by omega)]
    omega
  have hnode : ∀ {a : Nat}, L.Node a → m₂.word a = m.word a := fun ha => by
    rw [hm₂, ha.link_set, hinner.node.link_setSize ha]
  have hnode' : ∀ {a : Nat}, L.Node a → p ≠ a → m₂.word (a + 4) = m.word (a + 4) := fun ha hne => by
    rw [hm₂, ha.size_set, hinner.node.size_setSize ha hne]
  have hstatic : ∀ s, .xFreeBytesRemaining ≠ s → L.get m₂ s = L.get m s := fun s hs => by
    rw [hm₂, Layout.get_set_of_ne hs, hinner.node.get_setSize]
  have hsel : select false L.start (xs ++ ⟨n, true⟩ :: ys) =
      select false L.start xs ++ select false (L.start + extent xs + n) ys := by
    rw [select_append, select_cons_of_ne (by simp)]
  have hchain : Linked m₂ L.stop L.xStart
      (select false L.start xs ++ select false (L.start + extent xs + n) ys) := by
    rw [← hsel]
    refine h.chain.congr (hnode L.node_xStart) fun x hx => ?_
    rw [hsel] at hx
    obtain ⟨hi, _⟩ := h.around hx
    exact ⟨hnode hi.node, hnode' hi.node (by have := h.around hx; omega)⟩
  have hgap : Gap L m₂ (select false L.start xs)
      (select false (L.start + extent xs + n) ys) p n := by
    refine h.gap (by omega) (by omega) (by omega) hinner.2.2 hchain ?_ ?_ ?_
    · rw [hnode' L.node_xStart hinner.ne_xStart, h.xStart]
    · rw [hstatic _ (by simp), h.pxEnd]
    · rw [hm₂, hinner.node.size_set, word_setWord_self]
  subst hpe
  obtain ⟨m', hm', hframe, hchain', hsmall⟩ := h.insert_release hgap
  have hkeep : ∀ z, ¬ Changed L (xs ++ ⟨n, true⟩ :: ys) (L.start + extent xs) z →
      m' z = m z := fun z hz => by
    have h1 : ¬ (L.xStart ≤ z ∧ z < L.xStart + 4) := fun hc => hz (.xStart hc.1 hc.2)
    have h2 : ¬ (L.start + extent xs ≤ z ∧ z < L.start + extent xs + 8) :=
      fun hc => hz (.header hc.1 hc.2)
    have h3 : ¬ (L.static .xFreeBytesRemaining ≤ z ∧ z < L.static .xFreeBytesRemaining + 4) :=
      fun hc => hz (.remaining hc.1 hc.2)
    rw [hframe z (by omega) (by omega) fun x hx => ?_, hm₂]
    · exact (setWord_apply_of_notMem (by omega)).trans (setWord_apply_of_notMem (by omega))
    · obtain ⟨_, hx8, hx', _⟩ := h.around (List.mem_append_left _ hx)
      have hc : ¬ (x.1 ≤ z ∧ z < x.1 + x.2) := fun hc => hz (.free hx' hc.1 hc.2)
      omega
  have hcount : freeBytes (xs.foldr consBlock (consFree n ys)) =
      freeBytes (xs ++ ⟨n, true⟩ :: ys) + n := by
    simp only [freeBytes_foldr_consBlock, freeBytes_consFree, freeBytes_append, freeBytes_cons]
    simp only [ite_true]
    omega
  have hF : ∀ x ∈ select false L.start xs, L.Inner x.1 := fun x hx =>
    (h.around (List.mem_append_left _ hx)).1
  refine ⟨m', _, hrel, hcall.trans hm', ?_, hkeep, hsmall⟩
  refine h.rebuild hp hkeep (extent_release h.tidy.pos hrel) (h.tidy.release hrel) hchain'
    (fun x hx => ?_) ?_ ?_ ?_
  · obtain ⟨_, _, _, hiff⟩ := used_release h.tidy.pos hrel
    exact .inl ((hiff x).mp hx)
  · rw [hframe.get hinner hF, hm₂, Layout.get_set_self, hcount]
  · rw [hframe.get hinner hF, hstatic _ (by simp), h.lowest]
  · have := h.low_le
    omega

end SecureHeap
