import PicoTrustZone.Heap.Nodes
import PicoTrustZone.Lib.Arena

/-!
# The free list of the secure heap

The two loops walk to the end of a part of the list (`findIterator_eq`,
`findBlock_eq`).  `prvInsertBlockIntoFreeList` puts a block where it belongs, and
joins it with the free blocks that it touches.  It writes the header of the block and
that of the block before it, and nothing else.
-/

namespace SecureHeap

open ByteMemory Pointer BlockChain Arena

variable {L : Layout} {m m' : ByteMemory} {F G : List (Nat × Nat)}

/-! ## Headers -/

/-- The memories agree outside the header at `q`. -/
def AgreeBut (q : Nat) (m m' : ByteMemory) : Prop := ∀ z, z < q ∨ q + 8 ≤ z → m' z = m z

namespace AgreeBut

variable {q b : Nat}

theorem setLink (m : ByteMemory) (q : Nat) (v : Word) : AgreeBut q m (m.setWord q v) :=
  fun z hz => setWord_apply_of_notMem (by omega)

theorem setSize (m : ByteMemory) (q : Nat) (v : Word) : AgreeBut q m (m.setWord (q + 4) v) :=
  fun z hz => setWord_apply_of_notMem (by omega)

theorem trans {m'' : ByteMemory} (h : AgreeBut q m m') (h' : AgreeBut q m' m'') :
    AgreeBut q m m'' := fun z hz => (h' z hz).trans (h z hz)

theorem word (h : AgreeBut q m m') (hb : b + 4 ≤ q ∨ q + 8 ≤ b) : m'.word b = m.word b :=
  word_congr fun z _ _ => h z (by omega)

/-- The other headers are as they were. -/
theorem header (h : AgreeBut q m m') (hq : L.Node q) (hb : L.Node b) (hne : b ≠ q) :
    m'.word b = m.word b ∧ m'.word (b + 4) = m.word (b + 4) := by
  have := hb.apart hq hne
  exact ⟨h.word (by omega), h.word (by omega)⟩

theorem get (h : AgreeBut q m m') (hq : L.Node q) (s : Static) : L.get m' s = L.get m s :=
  h.word (hq.static_apart s)

end AgreeBut

/-! ## The loops -/

/-- The loop passes the blocks below the one that is inserted. -/
theorem findIterator_eq {a b n : Nat} (ha : L.Node a) (hF : ∀ x ∈ F, L.Node x.1 ∧ x.1 < b)
    (hb : b < 2 ^ 32) (h : Linked m L.stop a (F ++ G)) (hG : b ≤ first L.stop G)
    (hlt : first L.stop G < 2 ^ 32) (hn : F.length < n) :
    findIterator m (ptr b) n (ptr a) = some (ptr (last a F)) := by
  induction F generalizing a n with
  | nil =>
      cases n with
      | zero => cases hn
      | succ n =>
          rw [findIterator, ha.pxNextFreeBlock_eq, Linked.word_first h, if_neg]
          · rfl
          · rw [List.nil_append, ptr_lt hlt hb]
            omega
  | cons x F ih =>
      cases n with
      | zero => cases hn
      | succ n =>
          obtain ⟨⟨hx, hxb⟩, hF⟩ := List.forall_mem_cons.mp hF
          have hlink : m.word a = ptr x.1 := h.1
          rw [findIterator, ha.pxNextFreeBlock_eq, hlink, if_pos]
          · exact ih hx hF h.2.2 (Nat.lt_of_succ_lt_succ hn)
          · have := hx.lt
            rw [ptr_lt (by omega) hb]
            exact hxb

/-- The loop passes the blocks that are too small. -/
theorem findBlock_eq {a b w n : Nat} (ha : L.Node a) (hb : L.Inner b)
    (hF : ∀ x ∈ F, L.Inner x.1 ∧ x.2 < w) (hw : w < 2 ^ 32) (h : Linked m b a F)
    (hstop : ¬ (m.word (b + 4) < ptr w ∧ m.word b ≠ 0)) (hn : F.length < n) :
    findBlock m (ptr w) n (ptr a) (m.word a) = some (ptr (last a F), ptr b) := by
  induction F generalizing a n with
  | nil =>
      cases n with
      | zero => cases hn
      | succ n =>
          have hlink : m.word a = ptr b := h
          rw [hlink, findBlock, hb.node.xBlockSize_eq, hb.node.pxNextFreeBlock_eq, if_neg hstop]
          rfl
  | cons x F ih =>
      cases n with
      | zero => cases hn
      | succ n =>
          obtain ⟨⟨hx, hxw⟩, hF⟩ := List.forall_mem_cons.mp hF
          have hlink : m.word a = ptr x.1 := h.1
          rw [hlink, findBlock, hx.node.xBlockSize_eq, hx.node.pxNextFreeBlock_eq, if_pos]
          · exact ih hx.node hF h.2.2 (Nat.lt_of_succ_lt_succ hn)
          · have hfirst : L.Inner (first b F) := by
              cases F with
              | nil => exact hb
              | cons y F => exact (hF y (List.mem_cons_self ..)).1
            have hpos := hfirst.pos
            have hlt := hfirst.lt
            rw [h.2.1, h.2.2.word_first, ptr_lt (by omega) hw, Ne, ptr_eq_zero (by omega)]
            omega

/-! ## Insertion -/

section

variable {i q s b k : Nat}

/-- Nothing is joined to a block that does not touch the next one, and nothing is
joined to the last block. -/
theorem joinBehind_of_not_touch (hi : L.Node i) (hq : L.Node q) (hb : L.Inner b)
    (hlink : m.word i = ptr b) (hs : m.word (q + 4) = ptr s) (hqs : q + s < 2 ^ 32)
    (hend : L.get m .pxEnd = ptr L.stop) (hne : q + s ≠ b ∨ b = L.stop) :
    joinBehind L (ptr i) (ptr q) m = m.setWord q (ptr b) := by
  have hlt := hb.lt
  rw [joinBehind, hi.pxNextFreeBlock_eq, hq.xBlockSize_eq, hs, ptr_add, hlink, hend]
  simp only [hq.setNextFreeBlock_eq]
  split
  · next he =>
    rw [ptr_inj hqs (by omega)] at he
    have hstop : b = L.stop := hne.resolve_left fun h => h he
    rw [if_neg (by simp [hstop]), hstop]
  · rfl

theorem joinBehind_of_touch (hi : L.Node i) (hq : L.Node q) (hb : L.Inner (q + s))
    (hlink : m.word i = ptr (q + s)) (hs : m.word (q + 4) = ptr s)
    (hk : m.word (q + s + 4) = ptr k)
    (hend : L.get m .pxEnd = ptr L.stop) (hne : q + s ≠ L.stop) :
    joinBehind L (ptr i) (ptr q) m =
      (m.setWord (q + 4) (ptr (s + k))).setWord q (m.word (q + s)) := by
  have hlt := hb.lt
  have hstop := L.stop_lt
  rw [joinBehind, hi.pxNextFreeBlock_eq, hq.xBlockSize_eq, hs, ptr_add, hlink, hend, if_pos rfl,
    if_pos]
  · simp only [hb.node.xBlockSize_eq, hq.setBlockSize_eq, hq.setNextFreeBlock_eq, hk, ptr_add]
    rw [hi.pxNextFreeBlock_eq, hq.link_setSize hi, hlink, hb.node.pxNextFreeBlock_eq,
      hq.link_setSize hb.node]
  · rwa [Ne, ptr_inj (by omega) (by omega)]

/-- A block joined to the one behind it, if they touch, and linked. -/
theorem joinBehind_spec (hi : L.Node i) (hq : L.Node q) (h : Linked m L.stop i G)
    (hs : m.word (q + 4) = ptr s) (hqs : q + s < 2 ^ 32) (hend : L.get m .pxEnd = ptr L.stop)
    (hG : ∀ y ∈ G, L.Inner y.1 ∧ y.1 ≠ q ∧ y.1 ≠ L.stop) :
    ∃ m' t G', joinBehind L (ptr i) (ptr q) m = m' ∧ AgreeBut q m m' ∧
      join (q, s) G = (q, t) :: G' ∧ m'.word (q + 4) = ptr t ∧ Linked m' L.stop q G' := by
  cases G with
  | nil =>
      refine ⟨_, s, [], ?_, .setLink m q (ptr L.stop), rfl, ?_, word_setWord_self ..⟩
      · exact joinBehind_of_not_touch hi hq L.inner_stop h hs hqs hend (.inr rfl)
      · rw [hq.size_setLink hq, hs]
  | cons y G =>
      obtain ⟨b, k⟩ := y
      obtain ⟨⟨hy, hyq, hyst⟩, hrestG⟩ := List.forall_mem_cons.mp hG
      obtain ⟨hlink, hysize, hrest⟩ := h
      dsimp only at hy hyq hyst hlink hysize hrest
      rw [join]
      split
      · next he =>
        dsimp only at he
        subst he
        have htouch := joinBehind_of_touch hi hq hy hlink hs hysize hend hyst
        refine ⟨_, s + k, G, htouch, ?_, rfl, ?_, ?_⟩
        · exact (AgreeBut.setSize m q _).trans (.setLink _ q _)
        · rw [hq.size_setLink hq, word_setWord_self]
        · refine hrest.congr (word_setWord_self ..) fun x hx => ?_
          obtain ⟨hx, hxq, _⟩ := hrestG x hx
          rw [hq.link_setLink hx.node hxq.symm, hq.link_setSize hx.node, hq.size_setLink hx.node,
            hq.size_setSize hx.node hxq.symm]
          exact ⟨rfl, rfl⟩
      · next he =>
        refine ⟨_, s, (b, k) :: G, ?_, .setLink m q (ptr b), rfl, ?_, word_setWord_self .., ?_, ?_⟩
        · exact joinBehind_of_not_touch hi hq hy hlink hs hqs hend (.inl he)
        · rw [hq.size_setLink hq, hs]
        · rw [hq.size_setLink hy.node, hysize]
        · refine hrest.congr (hq.link_setLink hy.node hyq.symm) fun x hx => ?_
          obtain ⟨hx, hxq, _⟩ := hrestG x hx
          exact ⟨hq.link_setLink hx.node hxq.symm, hq.size_setLink hx.node⟩

end

/-- A block that is not in the free list, between the blocks before it and those
behind it. -/
structure Gap (L : Layout) (m : ByteMemory) (F G : List (Nat × Nat)) (p n : Nat) : Prop where
  chain : Linked m L.stop L.xStart (F ++ G)
  xStart : m.word (L.xStart + 4) = ptr 0
  pxEnd : L.get m .pxEnd = ptr L.stop
  size : m.word (p + 4) = ptr n
  block : L.Inner p ∧ p + n ≤ L.stop
  before : ∀ x ∈ F, L.Inner x.1 ∧ 0 < x.2 ∧ x.1 + x.2 ≤ p
  behind : ∀ x ∈ G, L.Inner x.1 ∧ p < x.1 ∧ x.1 ≠ L.stop
  ascending : Ascending F
  short : F.length < 2 ^ 32

/-- The memories agree but for the link in `xStart` and the headers of the blocks
before `p` and of `p`. -/
def Frame (L : Layout) (F : List (Nat × Nat)) (p : Nat) (m m' : ByteMemory) : Prop :=
  ∀ z, (z < L.xStart ∨ L.xStart + 4 ≤ z) → (z < p ∨ p + 8 ≤ z) →
    (∀ x ∈ F, z < x.1 ∨ x.1 + 8 ≤ z) → m' z = m z

namespace Gap

variable {p n : Nat}

theorem node_last (h : Gap L m F G p n) :
    L.Node (last L.xStart F) ∧ last L.xStart F ≠ p := by
  rcases last_eq_or_mem L.xStart F with ⟨_, he⟩ | ⟨x, hx, he⟩
  · rw [he]
    exact ⟨L.node_xStart, h.block.1.ne_xStart.symm⟩
  · obtain ⟨hi, hpos, hle⟩ := h.before x hx
    rw [he]
    exact ⟨hi.node, by omega⟩

theorem findIterator (h : Gap L m F G p n) (hp : p < L.stop) :
    findIterator m (ptr p) (2 ^ 32) L.xStartPtr = some (ptr (last L.xStart F)) := by
  have hlt := h.block.1.lt
  have hstop := L.stop_lt
  refine findIterator_eq L.node_xStart (fun x hx => ?_) (by omega) h.chain ?_ ?_ h.short
  · obtain ⟨hi, hpos, hle⟩ := h.before x hx
    exact ⟨hi.node, by omega⟩
  · cases G with
    | nil => exact Nat.le_of_lt hp
    | cons y G => exact Nat.le_of_lt (h.behind y (List.mem_cons_self ..)).2.1
  · cases G with
    | nil => rw [first_nil]; omega
    | cons y G =>
        have := (h.behind y (List.mem_cons_self ..)).1.lt
        rw [first_cons]
        omega

/-- A block that touches the one before it is joined to it. -/
theorem insert_touch {i k : Nat} (h : Gap L m (F ++ [(i, k)]) G p n) (hp : p < L.stop)
    (hik : i + k = p) :
    ∃ m', prvInsertBlockIntoFreeList L m (ptr p) = some m' ∧
      Frame L (F ++ [(i, k)]) p m m' ∧
      Linked m' L.stop L.xStart (F ++ join (i, k + n) G) ∧ m'.word (p + 4) = ptr n := by
  have hplt := h.block.1.lt
  have hstop := L.stop_lt
  have hmem : (i, k) ∈ F ++ [(i, k)] := by simp
  obtain ⟨hi, hk, _⟩ := h.before _ hmem
  have hit := h.findIterator hp
  have hsize := h.chain.word_size (List.mem_append_left G hmem)
  have hchain := h.chain
  rw [last_append] at hit
  rw [List.append_assoc, List.singleton_append, linked_append] at hchain
  obtain ⟨hF, hlast, _, hG⟩ := hchain
  dsimp only at hi hk hsize hlast hG
  have hbefore : joinBefore (ptr i) (ptr p) m = (ptr i, m.setWord (i + 4) (ptr (k + n))) := by
    rw [joinBefore, hi.node.xBlockSize_eq, hsize, ptr_add, hik, if_pos rfl,
      h.block.1.node.xBlockSize_eq, h.size, ptr_add, hi.node.setBlockSize_eq]
  obtain ⟨m', t, G', hm', hagree, hjoin, ht, hG'⟩ := joinBehind_spec (m := m.setWord (i + 4) _)
    (s := k + n) hi.node hi.node (hG.congr (hi.node.link_setSize hi.node) fun y hy => by
      obtain ⟨hyi, hyp, _⟩ := h.behind y hy
      exact ⟨hi.node.link_setSize hyi.node, hi.node.size_setSize hyi.node (by omega)⟩)
    (word_setWord_self ..) (by have := h.block.2; omega) ((hi.node.get_setSize _).trans h.pxEnd)
    (fun y hy => by
      obtain ⟨hyi, hyp, hys⟩ := h.behind y hy
      exact ⟨hyi, by omega, hys⟩)
  have hall : AgreeBut i m m' := (AgreeBut.setSize m i _).trans hagree
  refine ⟨m', ?_, fun z _ _ hz => hall z (hz _ hmem), ?_, ?_⟩
  · rw [prvInsertBlockIntoFreeList, hit, Option.bind_eq_bind, Option.bind_some, last_cons, last_nil]
    simp only [hbefore, hm']
    rw [if_neg (by simp)]
    rfl
  · have hF' : Linked m' i L.xStart F := by
      refine hF.congr ?_ fun x hx => ?_
      · exact (hall.header hi.node L.node_xStart hi.ne_xStart.symm).1
      · obtain ⟨hxi, hpos, _⟩ := h.before x (List.mem_append_left _ hx)
        have hle :=
          (List.pairwise_append.mp h.ascending).2.2 x hx (i, k) (List.mem_singleton_self _)
        exact hall.header hi.node hxi.node (by dsimp only at hle; omega)
    rw [hjoin, linked_append]
    exact ⟨hF', hF'.word_last, ht, hG'⟩
  · rw [(hall.header hi.node h.block.1.node (by omega)).2, h.size]

/-- A block that does not touch the one before it is put behind it. -/
theorem insert_apart (h : Gap L m F G p n) (hp : p < L.stop) (hF : ∀ x ∈ F, x.1 + x.2 < p) :
    ∃ m', prvInsertBlockIntoFreeList L m (ptr p) = some m' ∧ Frame L F p m m' ∧
      Linked m' L.stop L.xStart (F ++ join (p, n) G) := by
  have hplt := h.block.1.lt
  have hstop := L.stop_lt
  have hpn := h.block.2
  have hit := h.findIterator hp
  obtain ⟨hi, hip⟩ := h.node_last
  obtain ⟨hlink, hG⟩ := linked_append.mp h.chain
  have hbefore : joinBefore (ptr (last L.xStart F)) (ptr p) m = (ptr p, m) := by
    rw [joinBefore, if_neg]
    rw [hi.xBlockSize_eq]
    rcases last_eq_or_mem L.xStart F with ⟨_, he⟩ | ⟨x, hx, he⟩
    · have hx := L.node_xStart.lt
      rw [he, h.xStart, ptr_add, ptr_inj (by omega) (by omega)]
      exact h.block.1.ne_xStart.symm
    · have hsize := h.chain.word_size (List.mem_append_left G hx)
      have hlt := hF x hx
      rw [he, hsize, ptr_add, ptr_inj (by omega) (by omega)]
      omega
  obtain ⟨m', t, G', hm', hagree, hjoin, ht, hG'⟩ := joinBehind_spec hi h.block.1.node hG h.size
    (by omega) h.pxEnd fun y hy => by
      obtain ⟨hyi, hyp, hys⟩ := h.behind y hy
      exact ⟨hyi, by omega, hys⟩
  refine ⟨m'.setWord (last L.xStart F) (ptr p), ?_, ?_, ?_⟩
  · rw [prvInsertBlockIntoFreeList, hit, Option.bind_eq_bind, Option.bind_some]
    simp only [hbefore, hm']
    rw [if_pos, hi.setNextFreeBlock_eq]
    · rfl
    · have := hi.lt
      rwa [Ne, ptr_inj (by omega) (by omega)]
  · intro z hz hzp hzF
    rw [← hagree z hzp]
    refine setWord_apply_of_notMem ?_
    rcases last_eq_or_mem L.xStart F with ⟨_, he⟩ | ⟨x, hx, he⟩
    · rwa [he]
    · have := hzF x hx
      rw [he]
      omega
  · have hF' : Linked (m'.setWord (last L.xStart F) (ptr p)) p L.xStart F := by
      refine hlink.relink (word_setWord_self ..) (fun hne => ?_) (fun x hx => ?_) fun x hx => ?_
      · have hother := hagree.header h.block.1.node L.node_xStart h.block.1.ne_xStart.symm
        refine (hi.link_setLink L.node_xStart ?_).trans hother.1
        rcases last_eq_or_mem L.xStart F with ⟨he, _⟩ | ⟨x, hx, he⟩
        · exact absurd he hne
        · rw [he]
          exact (h.before x hx).1.ne_xStart
      · obtain ⟨hxi, hpos, hle⟩ := h.before x (List.dropLast_subset F hx)
        have hother := hagree.header h.block.1.node hxi.node (by omega)
        have hlast := le_last_of_mem_dropLast (p := L.xStart) h.ascending hx
        exact (hi.link_setLink hxi.node (by omega)).trans hother.1
      · obtain ⟨hxi, hpos, hle⟩ := h.before x hx
        have hother := hagree.header h.block.1.node hxi.node (by omega)
        exact (hi.size_setLink hxi.node).trans hother.2
    rw [hjoin, linked_append]
    refine ⟨hF', hF'.word_last, ?_, ?_⟩
    · rw [hi.size_setLink h.block.1.node, ht]
    · refine hG'.congr (hi.link_setLink h.block.1.node hip) fun x hx => ?_
      obtain ⟨hxi, hxp, _⟩ := h.behind x (mem_of_join hjoin hx)
      refine ⟨hi.link_setLink hxi.node ?_, hi.size_setLink hxi.node⟩
      rcases last_eq_or_mem L.xStart F with ⟨_, he⟩ | ⟨y, hy, he⟩
      · rw [he]
        exact hxi.ne_xStart.symm
      · have hyp := h.before y hy
        omega

end Gap

namespace Frame

variable {p a : Nat}

/-- An insertion leaves the static variables alone. -/
theorem get (h : Frame L F p m m') (hp : L.Inner p) (hF : ∀ x ∈ F, L.Inner x.1) (s : Static) :
    L.get m' s = L.get m s := by
  refine word_congr fun z hz hz' => h z ?_ ?_ fun x hx => ?_
  · have := L.static_xStart s
    omega
  · have := hp.node.static_apart s
    omega
  · have := (hF x hx).node.static_apart s
    omega

/-- An insertion leaves the other headers alone. -/
theorem header (h : Frame L F p m m') (hp : L.Inner p) (hF : ∀ x ∈ F, L.Inner x.1)
    (ha : L.Inner a) (hne : a ≠ p) (haF : ∀ x ∈ F, a ≠ x.1) :
    m'.word a = m.word a ∧ m'.word (a + 4) = m.word (a + 4) := by
  have hz : ∀ z, a ≤ z → z < a + 8 → m' z = m z := fun z hz hz' => by
    refine h z ?_ ?_ fun x hx => ?_
    · have := ha.node.apart L.node_xStart ha.ne_xStart
      omega
    · have := ha.node.apart hp.node hne
      omega
    · have := ha.node.apart (hF x hx).node (haF x hx)
      omega
  exact ⟨word_congr fun z h1 h2 => hz z h1 (by omega),
    word_congr fun z h1 h2 => hz z (by omega) (by omega)⟩

end Frame

end SecureHeap
