import PicoTrustZone.Heap.Free

/-!
# Allocating a block

`pvPortMalloc` is `Arena.allocate` of the rounded size.  The first call builds the
arena of one free block (`prvHeapInit_spec`).
-/

namespace SecureHeap

open ByteMemory Pointer BlockChain Arena

variable {L : Layout} {m m' : ByteMemory} {bs cs xs ys : List Block} {low n p w k : Nat}

/-! ## The parts of `pvPortMalloc` -/

/-- The size of a block for `n` bytes: a header more, rounded up. -/
def request (n : Nat) : Nat := (n + 15) / 8 * 8

theorem dvd_request (n : Nat) : 8 ∣ request n := Nat.dvd_mul_left ..

theorem le_request (n : Nat) : n + 8 ≤ request n := by
  rw [request]
  omega

theorem wantedBlockSize_eq (hn : 0 < n) (hlt : n < 2 ^ 31) :
    wantedBlockSize (ptr n) = some (ptr (request n)) := by
  have hseven : secureportByteAlignmentMask = 7 := rfl
  have height : (8 : Word) = ptr 8 := rfl
  have hzero : (0 : Word) = ptr 0 := rfl
  rw [wantedBlockSize, if_pos (by rw [gt_iff_lt, hzero, ptr_lt (by omega) (by omega)]; exact hn)]
  rw [xHeapStructSize_eq, hseven, secureportByteAlignment, height, ptr_add]
  dsimp only
  rw [ptr_and_seven (by omega)]
  split
  · next hne =>
    rw [Ne, ptr_eq_zero (by omega)] at hne
    rw [ptr_sub (by omega), ptr_add, if_pos]
    · rw [request]
      congr 2
      omega
    · rw [ptr_and_seven_eq_zero (by omega)]
      omega
  · next he =>
    rw [Ne, not_not, ptr_eq_zero (by omega)] at he
    rw [request]
    congr 2
    omega

/-- The accounting of an allocation. -/
theorem markAllocated_counters {f : Nat} (hp : L.Inner p) (hsize : m.word (p + 4) = ptr k)
    (hfree : L.get m .xFreeBytesRemaining = ptr f)
    (hlow : L.get m .xMinimumEverFreeBytesRemaining = ptr low) (hk : k ≤ f) (hf : f < 2 ^ 31)
    (hl : low < 2 ^ 31) :
    ∃ m', markAllocated L (ptr p) m =
        (m'.setWord (p + 4) (m'.word (p + 4) ||| L.get m' .xBlockAllocatedBit)).setWord p 0 ∧
      L.get m' .xFreeBytesRemaining = ptr (f - k) ∧
      L.get m' .xMinimumEverFreeBytesRemaining = ptr (min low (f - k)) ∧
      L.get m' .xBlockAllocatedBit = L.get m .xBlockAllocatedBit ∧
      m'.word (p + 4) = m.word (p + 4) ∧
      ∀ z, (z < L.static .xFreeBytesRemaining ∨ L.static .xFreeBytesRemaining + 4 ≤ z) →
        (z < L.static .xMinimumEverFreeBytesRemaining ∨
          L.static .xMinimumEverFreeBytesRemaining + 4 ≤ z) → m' z = m z := by
  have hne : Static.xFreeBytesRemaining ≠ .xMinimumEverFreeBytesRemaining := by simp
  rw [markAllocated]
  simp only [hp.node.xBlockSize_eq, hp.node.setBlockSize_eq, hp.node.setNextFreeBlock_eq, hsize,
    hfree, ptr_sub hk, Layout.get_set_self, Layout.get_set_of_ne hne, hlow]
  split
  · next hlt =>
    rw [ptr_lt (by omega) (by omega)] at hlt
    refine ⟨_, rfl, ?_, ?_, ?_, ?_, fun z hz hz' => ?_⟩
    · rw [Layout.get_set_of_ne hne.symm, Layout.get_set_self]
    · rw [Layout.get_set_self, Nat.min_eq_right (Nat.le_of_lt hlt)]
    · rw [Layout.get_set_of_ne (by simp), Layout.get_set_of_ne (by simp)]
    · rw [hp.node.size_set, hp.node.size_set, hsize]
    · exact (setWord_apply_of_notMem hz').trans (setWord_apply_of_notMem hz)
  · next hge =>
    rw [ptr_lt (by omega) (by omega)] at hge
    refine ⟨_, rfl, ?_, ?_, ?_, ?_, fun z hz _ => ?_⟩
    · rw [Layout.get_set_self]
    · rw [Layout.get_set_of_ne hne, hlow, Nat.min_eq_left (Nat.le_of_not_lt hge)]
    · rw [Layout.get_set_of_ne (by simp)]
    · rw [hp.node.size_set, hsize]
    · exact setWord_apply_of_notMem hz

/-- The accounting, and the header of the block. -/
theorem markAllocated_spec {f : Nat} (hp : L.Inner p) (hsize : m.word (p + 4) = ptr k)
    (hfree : L.get m .xFreeBytesRemaining = ptr f)
    (hlow : L.get m .xMinimumEverFreeBytesRemaining = ptr low)
    (hbit : L.get m .xBlockAllocatedBit = ptr (2 ^ 31)) (hk : k ≤ f) (hf : f < 2 ^ 31)
    (hl : low < 2 ^ 31) :
    ∃ m', markAllocated L (ptr p) m = m' ∧ L.get m' .xFreeBytesRemaining = ptr (f - k) ∧
      L.get m' .xMinimumEverFreeBytesRemaining = ptr (min low (f - k)) ∧
      m'.word p = 0 ∧ m'.word (p + 4) = ptr (k + 2 ^ 31) ∧
      ∀ z, (z < p ∨ p + 8 ≤ z) →
        (z < L.static .xFreeBytesRemaining ∨ L.static .xFreeBytesRemaining + 4 ≤ z) →
        (z < L.static .xMinimumEverFreeBytesRemaining ∨
          L.static .xMinimumEverFreeBytesRemaining + 4 ≤ z) → m' z = m z := by
  obtain ⟨m', hm', h1, h2, h3, h4, h5⟩ := markAllocated_counters hp hsize hfree hlow hk hf hl
  refine ⟨_, hm', ?_, ?_, word_setWord_self .., ?_, fun z hz hz' hz'' => ?_⟩
  · rw [hp.node.get_setLink, hp.node.get_setSize, h1]
  · rw [hp.node.get_setLink, hp.node.get_setSize, h2]
  · rw [hp.node.size_setLink hp.node, word_setWord_self, h4, hsize, h3, hbit, ptr_or_top (by omega)]
  · rw [setWord_apply_of_notMem (by omega), setWord_apply_of_notMem (by omega), h5 z hz' hz'']

/-- Where the link to the first free block behind `xs` is. -/
theorem Rep.node_last (h : Rep L m (xs ++ ys) low) :
    L.Node (last L.xStart (select false L.start xs)) ∧
      (select false L.start xs ≠ [] → L.xStart ≠ last L.xStart (select false L.start xs)) ∧
      ∀ a, L.Inner a → L.start + extent xs ≤ a → a ≠ last L.xStart (select false L.start xs) := by
  rcases last_eq_or_mem L.xStart (select false L.start xs) with ⟨hnil, he⟩ | ⟨x, hx, he⟩
  · rw [he]
    exact ⟨L.node_xStart, fun hne => absurd hnil hne, fun a ha _ => ha.ne_xStart⟩
  · have hx' : x ∈ select false L.start (xs ++ ys) := by
      rw [select_append]
      exact List.mem_append_left _ hx
    have hb := bounds_of_mem_select hx
    obtain ⟨hi, _, _, h8⟩ := h.block hx'
    rw [he]
    exact ⟨hi.node, fun _ => hi.ne_xStart.symm, fun a _ ha => by omega⟩

/-- A block taken out of the list. -/
theorem Rep.unlink (h : Rep L m (xs ++ ⟨n, false⟩ :: ys) low) :
    Linked (m.setWord (last L.xStart (select false L.start xs)) (m.word (L.start + extent xs)))
      L.stop L.xStart
      (select false L.start xs ++ select false (L.start + extent xs + n) ys) := by
  have hchain := h.chain
  rw [select_append, select_cons_self, linked_append, linked_cons] at hchain
  obtain ⟨hF, _, _, hG⟩ := hchain
  obtain ⟨hlast, hxs, hne⟩ := h.node_last
  rw [linked_append]
  constructor
  · refine hF.relink ?_ (fun hF => hlast.link_setLink L.node_xStart (hxs hF).symm) (fun x hx => ?_)
      fun x hx => ?_
    · rw [word_setWord_self, hG.word_first]
    · have hmem := List.dropLast_subset _ hx
      obtain ⟨hi, _, _, h8⟩ := h.block (u := false) (x := x) (by
        rw [select_append]
        exact List.mem_append_left _ hmem)
      have hle := le_last_of_mem_dropLast (p := L.xStart) (pairwise_select ..) hx
      exact hlast.link_setLink hi.node (by omega)
    · obtain ⟨hi, _⟩ := h.block (u := false) (x := x) (by
        rw [select_append]
        exact List.mem_append_left _ hx)
      exact hlast.size_setLink hi.node
  · refine hG.congr (word_setWord_self ..) fun x hx => ?_
    have hb := bounds_of_mem_select hx
    obtain ⟨hi, _⟩ := h.block (u := false) (x := x) (by
      rw [select_append]
      exact List.mem_append_right _ (mem_select_cons.mpr (.inr hx)))
    exact ⟨hlast.link_setLink hi.node (hne x.1 hi (by omega)).symm, hlast.size_setLink hi.node⟩

/-- The rest of a block that is larger than required goes back into the list. -/
theorem Rep.splitBlock_spec (h : Rep L m (xs ++ ⟨n, false⟩ :: ys) low)
    (hpe : p = L.start + extent xs) (hw : 0 < w) (hd : 8 ∣ w) (hwn : w ≤ n)
    (hchain : Linked m' L.stop L.xStart
      (select false L.start xs ++ select false (L.start + extent xs + n) ys))
    (hxs : m'.word (L.xStart + 4) = ptr 0) (hend : L.get m' .pxEnd = ptr L.stop)
    (hsize : m'.word (p + 4) = ptr n) :
    ∃ m'' k rest, splitBlock L (ptr p) (ptr w) m' = some m'' ∧ cut w 16 n = ⟨k, true⟩ :: rest ∧
      k + freeBytes rest = n ∧ m''.word (p + 4) = ptr k ∧
      Linked m'' L.stop L.xStart (select false L.start (xs ++ (cut w 16 n ++ ys))) ∧
      (∀ s, L.get m'' s = L.get m' s) ∧
      ∀ z, ¬ Changed L (xs ++ ⟨n, false⟩ :: ys) p z → m'' z = m' z := by
  have hp : (p, n) ∈ select false L.start (xs ++ ⟨n, false⟩ :: ys) :=
    mem_select_iff.mpr ⟨xs, ys, rfl, hpe⟩
  obtain ⟨hi, hpn, hdn, _⟩ := h.block hp
  have hstop := L.stop_lt
  have hplt := hi.lt
  have hmin : secureheapMinimumBlockSize = ptr 16 := rfl
  have hseven : secureportByteAlignmentMask = 7 := rfl
  dsimp only at hi hpn hdn hplt
  have hlarge : ptr (n - w) > secureheapMinimumBlockSize ↔ 16 < n - w := by
    rw [hmin]
    exact ptr_lt (by omega) (by omega)
  rcases Nat.lt_or_ge 16 (n - w) with hlt | hge
  · have hnew : L.Inner (p + w) := by
      have := hi.1
      have := hi.2.2
      exact ⟨by omega, by omega, by omega⟩
    obtain ⟨m₂, hm₂⟩ : ∃ m₂, m₂ = (m'.setWord (p + w + 4) (ptr (n - w))).setWord (p + 4) (ptr w) :=
      ⟨_, rfl⟩
    have hcall : splitBlock L (ptr p) (ptr w) m' =
        prvInsertBlockIntoFreeList L m₂ (ptr (p + w)) := by
      rw [splitBlock, hi.node.xBlockSize_eq, hsize, ptr_sub hwn, if_pos (hlarge.mpr hlt), ptr_add,
        hseven]
      dsimp only
      rw [if_pos ((ptr_and_seven_eq_zero (by omega)).mpr hnew.2.2), hnew.node.setBlockSize_eq,
        hi.node.setBlockSize_eq, hm₂]
    have hother : ∀ {a : Nat}, L.Node a → p ≠ a → p + w ≠ a →
        m₂.word a = m'.word a ∧ m₂.word (a + 4) = m'.word (a + 4) := fun ha h1 h2 => by
      rw [hm₂, hi.node.link_setSize ha, hnew.node.link_setSize ha, hi.node.size_setSize ha h1,
        hnew.node.size_setSize ha h2]
      exact ⟨rfl, rfl⟩
    have hgap : Gap L m₂ (select false L.start xs) (select false (L.start + extent xs + n) ys)
        (p + w) (n - w) := by
      refine h.gap (by omega) (by omega) (by omega) hnew.2.2 ?_ ?_ ?_ ?_
      · refine hchain.congr (hother L.node_xStart hi.ne_xStart hnew.ne_xStart).1 fun x hx => ?_
        obtain ⟨hxi, h8, _, hx⟩ := h.around hx
        exact hother hxi.node (by omega) (by omega)
      · rw [(hother L.node_xStart hi.ne_xStart hnew.ne_xStart).2, hxs]
      · rw [hm₂, hi.node.get_setSize, hnew.node.get_setSize, hend]
      · rw [hm₂, hi.node.size_setSize hnew.node (by omega), word_setWord_self]
    obtain ⟨m'', hm'', hframe, hchain'⟩ := hgap.insert_apart (by omega) fun x hx => by
      have := bounds_of_mem_select hx
      omega
    have hF : ∀ x ∈ select false L.start xs, L.Inner x.1 := fun x hx =>
      (h.around (List.mem_append_left _ hx)).1
    have hcut : cut w 16 n = [⟨w, true⟩, ⟨n - w, false⟩] := if_pos hlt
    refine ⟨m'', w, [⟨n - w, false⟩], hcall.trans hm'', hcut, ?_, ?_, ?_, fun s => ?_,
      fun z hz => ?_⟩
    · simp only [freeBytes_cons, freeBytes_nil]
      simp only [Bool.false_eq_true, ite_false]
      omega
    · rw [(hframe.header hnew hF hi (by omega) fun x hx => ?_).2, hm₂, word_setWord_self]
      have := h.around (List.mem_append_left _ hx)
      have := bounds_of_mem_select hx
      omega
    · have hrest : consFree (n - w) ys = ⟨n - w, false⟩ :: ys := by
        refine consFree_of_coalesced (h.tidy.after_free (d := 8) ?_ ?_).coalesced
        · omega
        · omega
      rw [hcut, List.cons_append, List.singleton_append, ← hrest, select_append,
        select_cons_of_ne (by simp), select_false_consFree h.tidy.right.tail.pos, ← hpe,
        Nat.add_assoc, Nat.add_sub_cancel' hwn]
      rw [← hpe] at hchain'
      exact hchain'
    · rw [hframe.get hnew hF, hm₂, hi.node.get_setSize, hnew.node.get_setSize]
    · have h1 : ¬ (L.xStart ≤ z ∧ z < L.xStart + 4) := fun hc => hz (.xStart hc.1 hc.2)
      have h2 : ¬ (p ≤ z ∧ z < p + n) := fun hc => hz (.free hp hc.1 hc.2)
      rw [hframe z (by omega) (by omega) fun x hx => ?_, hm₂]
      · exact (setWord_apply_of_notMem (by omega)).trans (setWord_apply_of_notMem (by omega))
      · obtain ⟨_, hx8, hx', _⟩ := h.around (List.mem_append_left _ hx)
        have hc : ¬ (x.1 ≤ z ∧ z < x.1 + x.2) := fun hc => hz (.free hx' hc.1 hc.2)
        omega
  · refine ⟨m', n, [], ?_, ?_, rfl, hsize, ?_, fun _ => rfl, fun _ _ => rfl⟩
    · rw [splitBlock, hi.node.xBlockSize_eq, hsize, ptr_sub hwn, if_neg]
      rw [hlarge]
      omega
    · rw [cut, if_neg (by omega)]
    · rw [cut, if_neg (by omega), List.singleton_append, select_append,
        select_cons_of_ne (by simp)]
      exact hchain

/-- A free block that is taken. -/
theorem Rep.takeBlock_spec (h : Rep L m (xs ++ ⟨n, false⟩ :: ys) low)
    (hpe : p = L.start + extent xs) (hunfit : ∀ b ∈ xs, Unfit w b) (hw : 0 < w) (hd : 8 ∣ w)
    (hwn : w ≤ n) :
    ∃ m', takeBlock L (ptr (last L.xStart (select false L.start xs))) (ptr p) (ptr w) m =
        some (ptr (p + 8), m') ∧
      Rep L m' (xs ++ (cut w 16 n ++ ys)) (min low (freeBytes (xs ++ (cut w 16 n ++ ys)))) ∧
      ∀ z, ¬ Changed L (xs ++ ⟨n, false⟩ :: ys) p z → m' z = m z := by
  have hp : (p, n) ∈ select false L.start (xs ++ ⟨n, false⟩ :: ys) :=
    mem_select_iff.mpr ⟨xs, ys, rfl, hpe⟩
  obtain ⟨hi, _⟩ := h.block hp
  obtain ⟨hlast, _⟩ := h.node_last
  have hchain := h.chain
  have hfree := h.freeBytes_lt
  have hlow := h.low_le
  rw [select_append, select_cons_self, linked_append, linked_cons] at hchain
  obtain ⟨_, hlink, hsize, _⟩ := hchain
  rw [← hpe] at hlink hsize
  dsimp only at hi hlink hsize
  have halloc : allocate w 16 L.start (xs ++ ⟨n, false⟩ :: ys) =
      some (p, xs ++ (cut w 16 n ++ ys)) :=
    allocate_eq_some_iff.mpr ⟨xs, n, ys, rfl, hunfit, hwn, hpe, rfl⟩
  obtain ⟨j, _, _, hcount, hused⟩ := used_allocate halloc
  obtain ⟨m₂, k, rest, hsplit, hcut, hrest, hsize₂, hchain₂, hget₂, hkeep₂⟩ :=
    h.splitBlock_spec hpe hw hd hwn h.unlink
      ((hlast.size_setLink L.node_xStart).trans h.xStart)
      ((hlast.get_setLink _).trans h.pxEnd) ((hlast.size_setLink hi.node).trans hsize)
  have hjk : k = j ∧ k ≤ freeBytes (xs ++ ⟨n, false⟩ :: ys) := by
    simp only [hcut, freeBytes_append, freeBytes_cons, List.cons_append] at hcount ⊢
    simp only [Bool.false_eq_true, ite_false, ite_true] at hcount ⊢
    omega
  obtain ⟨rfl, hkle⟩ := hjk
  obtain ⟨m₃, hmark, hfree₃, hlow₃, hlink₃, hsize₃, hkeep₃⟩ := markAllocated_spec hi hsize₂
    ((hget₂ _).trans ((hlast.get_setLink _).trans h.remaining))
    ((hget₂ _).trans ((hlast.get_setLink _).trans h.lowest))
    ((hget₂ _).trans ((hlast.get_setLink _).trans h.bit)) hkle hfree (by omega)
  have hother : ∀ {a : Nat}, L.Node a → a ≠ p →
      m₃.word a = m₂.word a ∧ m₃.word (a + 4) = m₂.word (a + 4) := fun {a} ha hne => by
    have h1 := ha.apart hi.node hne
    have h2 := ha.static_apart .xFreeBytesRemaining
    have h3 := ha.static_apart .xMinimumEverFreeBytesRemaining
    exact ⟨word_congr fun z _ _ => hkeep₃ z (by omega) (by omega) (by omega),
      word_congr fun z _ _ => hkeep₃ z (by omega) (by omega) (by omega)⟩
  have htidy := h.tidy.allocate hw hd halloc
  have hext := extent_allocate halloc
  have hchain₃ : Linked m₃ L.stop L.xStart (select false L.start (xs ++ (cut w 16 n ++ ys))) := by
    refine hchain₂.congr (hother L.node_xStart hi.ne_xStart.symm).1 fun x hx => ?_
    have hb := bounds_of_mem_select hx
    have ht := h.tiles
    obtain ⟨hd, _, hpos⟩ := htidy.of_mem_select L.dvd_start hx
    refine hother (.inr ⟨hb.1, by omega, hd⟩) fun he => ?_
    rcases eq_or_apart hx ((hused (p, k)).mpr (.inl rfl)) with ⟨_, hu⟩ | hlt | hlt
    · cases hu
    · dsimp only at hlt
      omega
    · have hk : 0 < k := by
        have := htidy.of_mem_select L.dvd_start ((hused (p, k)).mpr (.inl rfl))
        exact this.2.2
      dsimp only at hlt
      omega
  have hkeep : ∀ z, ¬ Changed L (xs ++ ⟨n, false⟩ :: ys) p z → m₃ z = m z := fun z hz => by
    have h1 : ¬ (L.xStart ≤ z ∧ z < L.xStart + 4) := fun hc => hz (.xStart hc.1 hc.2)
    have h2 : ¬ (p ≤ z ∧ z < p + 8) := fun hc => hz (.header hc.1 hc.2)
    have h3 : ¬ (L.static .xFreeBytesRemaining ≤ z ∧ z < L.static .xFreeBytesRemaining + 4) :=
      fun hc => hz (.remaining hc.1 hc.2)
    have h4 : ¬ (L.static .xMinimumEverFreeBytesRemaining ≤ z ∧
        z < L.static .xMinimumEverFreeBytesRemaining + 4) := fun hc => hz (.lowest hc.1 hc.2)
    rw [hkeep₃ z (by omega) (by omega) (by omega), hkeep₂ z hz]
    refine setWord_apply_of_notMem ?_
    rcases last_eq_or_mem L.xStart (select false L.start xs) with ⟨_, he⟩ | ⟨x, hx, he⟩
    · omega
    · obtain ⟨_, h8, hx', _⟩ := h.around (List.mem_append_left _ hx)
      have h5 : ¬ (x.1 ≤ z ∧ z < x.1 + x.2) := fun hc => hz (.free hx' hc.1 hc.2)
      omega
  have hf : freeBytes (xs ++ ⟨n, false⟩ :: ys) - k = freeBytes (xs ++ (cut w 16 n ++ ys)) := by
    omega
  refine ⟨m₃, ?_, h.rebuild hp hkeep hext htidy hchain₃ (fun x hx => ?_) ?_ ?_ ?_, hkeep⟩
  · have height : (8 : Word) = ptr 8 := rfl
    rw [← hpe] at hsplit
    rw [takeBlock, hlast.pxNextFreeBlock_eq, hlink, xHeapStructSize_eq, height, ptr_add,
      hi.node.pxNextFreeBlock_eq, hlast.setNextFreeBlock_eq, hsplit, Option.bind_eq_bind,
      Option.bind_some, hmark]
    rfl
  · rcases (hused x).mp hx with rfl | hx
    · exact .inr ⟨hlink₃, hsize₃⟩
    · refine .inl ⟨hx, fun he => ?_⟩
      have := (h.block hp).2.2.2
      have := (h.block hx).2.2.2
      rcases eq_or_apart hx hp with ⟨_, hu⟩ | hlt | hlt
      · cases hu
      · dsimp only at *
        omega
      · dsimp only at *
        omega
  · rw [hfree₃, hf]
  · rw [hlow₃, hf]
  · exact Nat.min_le_right ..

/-- What an allocation of `n` bytes does to the arena. -/
def malloc (L : Layout) (n : Nat) (bs : List Block) : Option (Nat × List Block) :=
  if n = 0 ∨ 2 ^ 31 ≤ n then none else allocate (request n) 16 L.start bs

/-- The search of a request that is small enough to be one. -/
theorem allocateBlock_eq {a b : Nat} (h : Rep L m bs low) (hn : 0 < n) (hlt : n < 2 ^ 31)
    (hw : request n ≤ freeBytes bs)
    (hfind : findBlock m (ptr (request n)) (2 ^ 32) (ptr L.xStart) (m.word L.xStart) =
      some (ptr a, ptr b)) :
    allocateBlock L m (ptr n) =
      if ptr b ≠ ptr L.stop then takeBlock L (ptr a) (ptr b) (ptr (request n)) m
      else some (0, m) := by
  have hfree := h.freeBytes_lt
  have hzero : (0 : Word) = ptr 0 := rfl
  have hr := le_request n
  rw [allocateBlock, h.bit, if_pos ((ptr_and_top_eq_zero (by omega)).mpr hlt),
    wantedBlockSize_eq hn hlt, h.remaining, Option.bind_eq_bind, Option.bind_some, if_pos]
  · rw [L.pxNextFreeBlock_xStartPtr, Layout.xStartPtr, hfind, Option.bind_eq_bind, Option.bind_some,
      h.pxEnd]
    rfl
  · rw [gt_iff_lt, hzero, ptr_lt (by omega) (by omega), ptr_le (by omega) (by omega)]
    exact ⟨by omega, hw⟩

/-- A request that cannot be met changes nothing. -/
theorem allocateBlock_of_none (h : Rep L m bs low) (hn : n < 2 ^ 32) (hm : malloc L n bs = none) :
    allocateBlock L m (ptr n) = some (0, m) := by
  rw [malloc] at hm
  rcases Nat.lt_or_ge n (2 ^ 31) with hlt | hge
  · rcases Nat.eq_zero_or_pos n with rfl | hpos
    · rw [allocateBlock, h.bit, if_pos ((ptr_and_top_eq_zero (by omega)).mpr hlt)]
      rfl
    · rw [if_neg (by omega), allocate_eq_none_iff] at hm
      have hw : request n < 2 ^ 32 := by
        rw [request]
        omega
      have hfind := findBlock_eq (n := 2 ^ 32) L.node_xStart L.inner_stop
        (fun x hx => ⟨(h.block hx).1, lt_of_unfit hm hx⟩) hw h.chain (by simp [h.stop.1])
        h.length_lt
      rcases Nat.lt_or_ge (freeBytes bs) (request n) with hfull | hfits
      · rw [allocateBlock, h.bit, if_pos ((ptr_and_top_eq_zero (by omega)).mpr hlt),
          wantedBlockSize_eq hpos hlt, h.remaining, Option.bind_eq_bind, Option.bind_some, if_neg]
        · rfl
        · rw [ptr_le hw (by have := h.freeBytes_lt; omega)]
          omega
      · rw [allocateBlock_eq h hpos hlt hfits hfind, if_neg (by simp)]
  · rw [allocateBlock, h.bit, if_neg]
    · rfl
    · rw [ptr_and_top_eq_zero hn]
      omega

/-- A request that can be met takes the first block that fits. -/
theorem allocateBlock_of_some (h : Rep L m bs low) (hm : malloc L n bs = some (p, cs)) :
    ∃ m', allocateBlock L m (ptr n) = some (ptr (p + 8), m') ∧
      Rep L m' cs (min low (freeBytes cs)) ∧ ∀ z, ¬ Changed L bs p z → m' z = m z := by
  rw [malloc] at hm
  split at hm
  · cases hm
  · next hsmall =>
    have hfits := le_freeBytes_of_allocate hm
    obtain ⟨xs, k, ys, rfl, hunfit, hk, hpe, rfl⟩ := allocate_eq_some_iff.mp hm
    have hp : (p, k) ∈ select false L.start (xs ++ ⟨k, false⟩ :: ys) :=
      mem_select_iff.mpr ⟨xs, ys, rfl, hpe⟩
    obtain ⟨m', htake, hrep, hkeep⟩ := h.takeBlock_spec hpe hunfit
      (Nat.lt_of_lt_of_le (Nat.succ_pos _) (le_request n)) (dvd_request n) hk
    refine ⟨m', ?_, hrep, hkeep⟩
    obtain ⟨hi, _⟩ := h.block hp
    have hchain := h.chain
    have hlen := h.length_lt (u := false)
    rw [select_append, select_cons_self, List.length_append] at hlen
    rw [select_append, select_cons_self, linked_append, linked_cons, first_cons, ← hpe] at hchain
    obtain ⟨hF, _, hsize, _⟩ := hchain
    have hk' : k < 2 ^ 32 := by
      have := h.extent_lt
      simp only [extent_append, extent_cons] at this
      omega
    have hfind := findBlock_eq (n := 2 ^ 32) (w := request n) L.node_xStart hi
      (fun x hx => ⟨(h.around (List.mem_append_left _ hx)).1, lt_of_unfit hunfit hx⟩) (by omega) hF
      (by rw [hsize, ptr_lt hk' (by omega)]; omega) (by omega)
    have hlt := hi.lt
    rw [allocateBlock_eq h (by omega) (by omega) hfits hfind, if_pos, htake]
    rw [Ne, ptr_inj (by omega) (by have := L.stop_lt; omega)]
    have := (h.block hp).2
    dsimp only at this
    omega

/-! ## The first call -/

/-- The heap is aligned as `start` and `stop` are. -/
theorem alignedHeap_eq (L : Layout) :
    alignedHeap L = (ptr L.start, ptr (L.ucHeap + L.totalHeapSize - L.start)) := by
  have hpos := L.ucHeap_lt
  have hlarge := L.large
  have hseven : secureportByteAlignmentMask = 7 := rfl
  have halign : secureportByteAlignment - 1 = ptr 7 := rfl
  rw [alignedHeap, hseven, halign]
  dsimp only
  split
  · next hne =>
    rw [Ne, ptr_and_seven_eq_zero (by omega)] at hne
    rw [ptr_add, ptr_and_not_seven (by omega), ptr_sub (by omega), ptr_sub (by omega),
      Layout.start]
    congr 2
    omega
  · next he =>
    rw [Ne, not_not, ptr_and_seven_eq_zero (by omega)] at he
    have hs : L.start = L.ucHeap := by
      rw [Layout.start]
      omega
    rw [hs, Nat.add_sub_cancel_left]

/-- The stores of the initialisation. -/
theorem prvHeapInit_eq (L : Layout) (m : ByteMemory) :
    prvHeapInit L m =
      let m := (m.setWord L.xStart (ptr L.start)).setWord (L.xStart + 4) 0
      let m := L.set m .pxEnd (ptr L.stop)
      let m := (m.setWord (L.stop + 4) 0).setWord L.stop 0
      let m := (m.setWord (L.start + 4) (ptr (L.stop - L.start))).setWord L.start (ptr L.stop)
      let m := L.set m .xMinimumEverFreeBytesRemaining (ptr (L.stop - L.start))
      let m := L.set m .xFreeBytesRemaining (ptr (L.stop - L.start))
      L.set m .xBlockAllocatedBit (ptr (2 ^ 31)) := by
  have hX := L.node_xStart
  have hS := L.inner_start.node
  have hE := L.inner_stop.node
  have hlt := L.start_lt_stop
  have hle := L.le_start
  have hstop := L.stop_le
  have hroom := L.ucHeap_lt
  have hend : ptr L.start + ptr (L.ucHeap + L.totalHeapSize - L.start) - xHeapStructSize &&&
      ~~~secureportByteAlignmentMask = ptr L.stop := by
    have height : (8 : Word) = ptr 8 := rfl
    have hseven : secureportByteAlignmentMask = 7 := rfl
    rw [xHeapStructSize_eq, height, ptr_add, ptr_sub (by omega), hseven,
      ptr_and_not_seven (by omega), Layout.stop]
    congr 3
    omega
  have hbit : (1 : Word) <<< (sizeofSizeT * secureheapBitsPerByte - 1) = ptr (2 ^ 31) := rfl
  rw [prvHeapInit, alignedHeap_eq]
  simp only [hend, hbit, Layout.xStartPtr, hX.setNextFreeBlock_eq, hX.setBlockSize_eq,
    Layout.get_set_self, hE.setBlockSize_eq, hE.get_setSize, hE.setNextFreeBlock_eq,
    hS.setBlockSize_eq, hE.get_setLink, hS.get_setSize, hS.setNextFreeBlock_eq,
    hS.xBlockSize_eq, hS.size_set, hS.size_setLink hS, word_setWord_self,
    ptr_sub (Nat.le_of_lt hlt)]

/-- The initialisation makes the heap one free block. -/
theorem prvHeapInit_spec (L : Layout) (m : ByteMemory) :
    Rep L (prvHeapInit L m) [⟨L.stop - L.start, false⟩] (L.stop - L.start) ∧
      ∀ z, ¬ Owned L [⟨L.stop - L.start, false⟩] z → prvHeapInit L m z = m z := by
  have hX := L.node_xStart
  have hS := L.inner_start.node
  have hE := L.inner_stop.node
  have hlt := L.start_lt_stop
  have hSX : L.start ≠ L.xStart := L.inner_start.ne_xStart
  have hEX : L.stop ≠ L.xStart := L.inner_stop.ne_xStart
  have hES : L.stop ≠ L.start := Nat.ne_of_gt hlt
  have hS8 := L.dvd_start
  have hE8 := L.dvd_stop
  obtain ⟨m', hm', hinit⟩ : ∃ m', prvHeapInit L m = m' ∧ m' = _ := ⟨_, rfl, prvHeapInit_eq L m⟩
  dsimp only at hinit
  rw [hm']
  constructor
  · refine ⟨?_, ⟨?_, ?_⟩, ⟨?_, ?_, ?_⟩, ?_, ?_, ⟨?_, ?_⟩, ?_, ?_, ?_, ?_, ?_⟩
    · simp only [extent_cons, extent_nil]
      omega
    · simp only [List.mem_singleton, forall_eq]
      omega
    · exact List.isChain_singleton _
    · rw [hinit, hX.link_set, hX.link_set, hX.link_set, hS.link_setLink hX hSX, hS.link_setSize hX,
        hE.link_setLink hX hEX, hE.link_setSize hX, hX.link_set, hX.link_setSize hX,
        word_setWord_self]
    · rw [hinit, hS.size_set, hS.size_set, hS.size_set, hS.size_setLink hS, word_setWord_self]
    · rw [hinit, select_nil, linked_nil, hS.link_set, hS.link_set, hS.link_set, word_setWord_self]
    · intro x hx
      rw [select_cons_of_ne (by simp), select_nil] at hx
      cases hx
    · rw [hinit, hX.size_set, hX.size_set, hX.size_set, hS.size_setLink hX,
        hS.size_setSize hX hSX, hE.size_setLink hX, hE.size_setSize hX hEX, hX.size_set,
        word_setWord_self]
      rfl
    · rw [hinit, hE.link_set, hE.link_set, hE.link_set, hS.link_setLink hE hES.symm,
        hS.link_setSize hE, word_setWord_self]
    · rw [hinit, hE.size_set, hE.size_set, hE.size_set, hS.size_setLink hE,
        hS.size_setSize hE hES.symm, hE.size_setLink hE, word_setWord_self]
    · rw [hinit, Layout.get_set_of_ne (by simp), Layout.get_set_of_ne (by simp),
        Layout.get_set_of_ne (by simp), hS.get_setLink, hS.get_setSize, hE.get_setLink,
        hE.get_setSize, Layout.get_set_self]
    · rw [hinit, Layout.get_set_of_ne (by simp), Layout.get_set_self]
      simp
    · rw [hinit, Layout.get_set_of_ne (by simp), Layout.get_set_of_ne (by simp),
        Layout.get_set_self]
    · simp
    · rw [hinit, Layout.get_set_self]
  · intro z hz
    have h1 : ¬ (L.xStart ≤ z ∧ z < L.xStart + 8) := fun hc => hz (.xStart hc.1 hc.2)
    have h2 : ¬ (L.stop ≤ z ∧ z < L.stop + 8) := fun hc => hz (.stop hc.1 hc.2)
    have h3 : ¬ (L.start ≤ z ∧ z < L.stop) := fun hc =>
      hz (.free (x := (L.start, L.stop - L.start)) (by simp) hc.1 (by dsimp only; omega))
    have h4 : ∀ v, z < L.static v ∨ L.static v + 4 ≤ z := fun v => by
      have : ¬ (L.static v ≤ z ∧ z < L.static v + 4) := fun hc => hz (.static v hc.1 hc.2)
      omega
    have hset : ∀ (m : ByteMemory) v x, L.set m v x z = m z := fun m v x =>
      setWord_apply_of_notMem (h4 v)
    rw [hinit, hset, hset, hset, setWord_apply_of_notMem (by omega),
      setWord_apply_of_notMem (by omega), setWord_apply_of_notMem (by omega),
      setWord_apply_of_notMem (by omega), hset, setWord_apply_of_notMem (by omega),
      setWord_apply_of_notMem (by omega)]

/-! ## `pvPortMalloc` -/

/-- The heap holds the arena `bs`.  Before the first request it is one free block, and
the static variables are as the startup code leaves them. -/
inductive Holds (L : Layout) (m : ByteMemory) : Bool → List Block → Nat → Prop where
  | fresh : (∀ v, L.get m v = 0) →
      Holds L m false [⟨L.stop - L.start, false⟩] (L.stop - L.start)
  | rep {bs : List Block} {low : Nat} : Rep L m bs low → Holds L m true bs low

namespace Holds

variable {ready : Bool}

/-- What `pvPortMalloc` finds when it starts. -/
theorem initialised (h : Holds L m ready bs low) :
    ∃ m', (if L.get m .pxEnd = 0 then prvHeapInit L m else m) = m' ∧ Rep L m' bs low ∧
      ∀ z, ¬ Owned L bs z → m' z = m z := by
  cases h with
  | fresh he =>
      rw [if_pos (he .pxEnd)]
      exact ⟨_, rfl, prvHeapInit_spec L m⟩
  | rep h =>
      have hstop := L.stop_lt
      have hpos := L.inner_stop.pos
      rw [if_neg]
      · exact ⟨m, rfl, h, fun _ _ => rfl⟩
      · rw [h.pxEnd, ptr_eq_zero (by omega)]
        omega

/-- What holds of represented arenas holds of the arena before the first request. -/
theorem exists_rep (h : Holds L m ready bs low) : ∃ m', Rep L m' bs low := by
  obtain ⟨m', _, hrep, _⟩ := h.initialised
  exact ⟨m', hrep⟩

/-- Something is used, so there was a request. -/
theorem of_used {x : Nat × Nat} (h : Holds L m ready bs low) (hx : x ∈ select true L.start bs) :
    ready = true ∧ Rep L m bs low := by
  cases h with
  | fresh _ =>
      rw [select_cons_of_ne (by simp), select_nil] at hx
      cases hx
  | rep h => exact ⟨rfl, h⟩

/-- The heap depends on its own bytes only. -/
theorem congr {m' : ByteMemory} (h : Holds L m ready bs low)
    (hm : ∀ z, Owned L bs z → m' z = m z) : Holds L m' ready bs low := by
  cases h with
  | fresh he =>
      refine .fresh fun v => ?_
      rw [← he v]
      exact word_congr fun z hz hz' => hm z (.static v hz hz')
  | rep h => exact .rep (h.congr hm)

/-- What the heap reports. -/
theorem xPortGetFreeHeapSize_eq (h : Holds L m ready bs low) :
    xPortGetFreeHeapSize L m = ptr (if ready then freeBytes bs else 0) := by
  cases h with
  | fresh he => exact he _
  | rep h => exact h.remaining

theorem xPortGetMinimumEverFreeHeapSize_eq (h : Holds L m ready bs low) :
    xPortGetMinimumEverFreeHeapSize L m = ptr (if ready then low else 0) := by
  cases h with
  | fresh he => exact he _
  | rep h => exact h.lowest

end Holds

/-- The block that a request takes is free, and is used afterwards. -/
theorem used_malloc (hm : malloc L n bs = some (p, cs)) :
    0 < n ∧ (∃ k, (p, k) ∈ select false L.start bs) ∧
      ∃ k, n + 8 ≤ k ∧ freeBytes cs + k = freeBytes bs ∧
        ∀ x, x ∈ select true L.start cs ↔ x = (p, k) ∨ x ∈ select true L.start bs := by
  rw [malloc] at hm
  split at hm
  · cases hm
  · obtain ⟨j, hj, _, hcount, hused⟩ := used_allocate hm
    obtain ⟨xs, k, ys, rfl, _, _, hpe, _⟩ := allocate_eq_some_iff.mp hm
    have := le_request n
    exact ⟨by omega, ⟨k, mem_select_iff.mpr ⟨xs, ys, rfl, hpe⟩⟩, j, by omega, hcount, hused⟩

/-- A pointer that is returned is aligned, so the last assertion holds. -/
theorem ptr_and_mask (hp : L.Inner p) : ptr (p + 8) &&& secureportByteAlignmentMask = 0 := by
  have hlt := hp.lt
  have hseven : secureportByteAlignmentMask = 7 := rfl
  rw [hseven, ptr_and_seven_eq_zero (by omega)]
  have := hp.2.2
  omega

/-- `pvPortMalloc` of a request that cannot be met. -/
theorem pvPortMalloc_of_none {ready : Bool} (h : Holds L m ready bs low) (hn : n < 2 ^ 32)
    (hm : malloc L n bs = none) :
    ∃ m', pvPortMalloc L m (ptr n) = some (0, m') ∧ Rep L m' bs low ∧
      ∀ z, ¬ Owned L bs z → m' z = m z := by
  obtain ⟨m', hm', hrep, hkeep⟩ := h.initialised
  refine ⟨m', ?_, hrep, hkeep⟩
  rw [pvPortMalloc, hm']
  dsimp only
  rw [allocateBlock_of_none hrep hn hm, Option.bind_eq_bind, Option.bind_some]
  exact if_pos BitVec.zero_and

/-- `pvPortMalloc` of a request that can be met. -/
theorem pvPortMalloc_of_some {ready : Bool} (h : Holds L m ready bs low)
    (hm : malloc L n bs = some (p, cs)) :
    ∃ m', pvPortMalloc L m (ptr n) = some (ptr (p + 8), m') ∧
      Rep L m' cs (min low (freeBytes cs)) ∧ ∀ z, ¬ Owned L bs z → m' z = m z := by
  obtain ⟨m₁, hm₁, hrep, hkeep⟩ := h.initialised
  obtain ⟨m', halloc, hrep', hkeep'⟩ := allocateBlock_of_some hrep hm
  obtain ⟨_, ⟨k, hp⟩, _⟩ := used_malloc hm
  refine ⟨m', ?_, hrep', fun z hz => ?_⟩
  · rw [pvPortMalloc, hm₁]
    dsimp only
    rw [halloc, Option.bind_eq_bind, Option.bind_some]
    dsimp only
    rw [if_pos (ptr_and_mask (hrep.block hp).1)]
    rfl
  · rw [hkeep' z fun hc => hz (hrep.owned_of_changed hp hc), hkeep z hz]

end SecureHeap
