import PicoTrustZone.Heap.Insert

/-!
# Memory as an arena

`Rep L m bs low` says that the memory `m` holds the arena `bs` between `start` and
`stop`: the free blocks are the list from `xStart`, and the header of each used block
is marked.  `low` is the least number of free bytes so far.

An arena owns the headers, the free blocks and the static variables.  The bytes behind
the header of a used block belong to whoever allocated it, so they can change without
the heap noticing (`Rep.congr`).
-/

namespace SecureHeap

open ByteMemory Pointer BlockChain Arena

/-- The memory `m` holds the arena `bs`. -/
structure Rep (L : Layout) (m : ByteMemory) (bs : List Block) (low : Nat) : Prop where
  tiles : L.start + extent bs = L.stop
  tidy : Tidy 8 bs
  chain : Linked m L.stop L.xStart (select false L.start bs)
  used : ∀ x ∈ select true L.start bs, m.word x.1 = 0 ∧ m.word (x.1 + 4) = ptr (x.2 + 2 ^ 31)
  xStart : m.word (L.xStart + 4) = ptr 0
  stop : m.word L.stop = 0 ∧ m.word (L.stop + 4) = 0
  pxEnd : L.get m .pxEnd = ptr L.stop
  remaining : L.get m .xFreeBytesRemaining = ptr (freeBytes bs)
  lowest : L.get m .xMinimumEverFreeBytesRemaining = ptr low
  low_le : low ≤ freeBytes bs
  bit : L.get m .xBlockAllocatedBit = ptr (2 ^ 31)

/-- The bytes of the arena. -/
inductive Owned (L : Layout) (bs : List Block) (z : Nat) : Prop where
  | xStart : L.xStart ≤ z → z < L.xStart + 8 → Owned L bs z
  | static (v : Static) : L.static v ≤ z → z < L.static v + 4 → Owned L bs z
  | header {x : Nat × Nat} : x ∈ select true L.start bs → x.1 ≤ z → z < x.1 + 8 → Owned L bs z
  | free {x : Nat × Nat} : x ∈ select false L.start bs → x.1 ≤ z → z < x.1 + x.2 → Owned L bs z
  | stop : L.stop ≤ z → z < L.stop + 8 → Owned L bs z

namespace Rep

variable {L : Layout} {m m' : ByteMemory} {bs cs xs ys : List Block} {low n p w : Nat} {u v : Bool}
  {x y : Nat × Nat}

theorem extent_lt (h : Rep L m bs low) : extent bs < 2 ^ 31 := by
  have := h.tiles
  have := L.stop_sub_start_lt
  omega

theorem freeBytes_lt (h : Rep L m bs low) : freeBytes bs < 2 ^ 31 :=
  Nat.lt_of_le_of_lt (freeBytes_le_extent bs) h.extent_lt

/-- Where a block can be. -/
theorem block (h : Rep L m bs low) (hx : x ∈ select u L.start bs) :
    L.Inner x.1 ∧ x.1 + x.2 ≤ L.stop ∧ 8 ∣ x.2 ∧ 8 ≤ x.2 := by
  have hb := bounds_of_mem_select hx
  have ht := h.tiles
  obtain ⟨hd, hd', hpos⟩ := h.tidy.of_mem_select L.dvd_start hx
  exact ⟨⟨hb.1, by omega, hd⟩, by omega, hd', Nat.le_of_dvd hpos hd'⟩

theorem length_lt (h : Rep L m bs low) : (select u L.start bs).length < 2 ^ 32 := by
  have h1 := length_select_le u L.start bs
  have h2 := length_le_extent h.tidy.pos
  have h3 := h.extent_lt
  omega

/-- The arena depends on its own bytes only. -/
theorem congr (h : Rep L m bs low) (hm : ∀ z, Owned L bs z → m' z = m z) : Rep L m' bs low := by
  have hstatic : ∀ v, L.get m' v = L.get m v := fun v =>
    word_congr fun z hz hz' => hm z (.static v hz hz')
  have hxs : m'.word L.xStart = m.word L.xStart :=
    word_congr fun z hz hz' => hm z (.xStart hz (by omega))
  refine ⟨h.tiles, h.tidy, h.chain.congr hxs fun x hx => ?_, fun x hx => ?_, ?_, ?_, ?_, ?_, ?_,
    h.low_le, ?_⟩
  · obtain ⟨_, _, _, h8⟩ := h.block hx
    constructor
    · exact word_congr fun z hz hz' => hm z (.free hx hz (by omega))
    · exact word_congr fun z hz hz' => hm z (.free hx (by omega) (by omega))
  · have h1 : m'.word x.1 = m.word x.1 :=
      word_congr fun z hz hz' => hm z (.header hx hz (by omega))
    have h2 : m'.word (x.1 + 4) = m.word (x.1 + 4) :=
      word_congr fun z hz hz' => hm z (.header hx (by omega) (by omega))
    rw [h1, h2]
    exact h.used x hx
  · rw [← h.xStart]
    exact word_congr fun z hz hz' => hm z (.xStart (by omega) (by omega))
  · have h1 : m'.word L.stop = m.word L.stop :=
      word_congr fun z hz hz' => hm z (.stop hz (by omega))
    have h2 : m'.word (L.stop + 4) = m.word (L.stop + 4) :=
      word_congr fun z hz hz' => hm z (.stop (by omega) (by omega))
    rw [h1, h2]
    exact h.stop
  · rw [hstatic, h.pxEnd]
  · rw [hstatic, h.remaining]
  · rw [hstatic, h.lowest]
  · rw [hstatic, h.bit]

end Rep

/-! ## What a call changes -/

/-- The bytes that a call on the block at `p` may write. -/
inductive Changed (L : Layout) (bs : List Block) (p z : Nat) : Prop where
  | xStart : L.xStart ≤ z → z < L.xStart + 4 → Changed L bs p z
  | remaining : L.static .xFreeBytesRemaining ≤ z → z < L.static .xFreeBytesRemaining + 4 →
      Changed L bs p z
  | lowest : L.static .xMinimumEverFreeBytesRemaining ≤ z →
      z < L.static .xMinimumEverFreeBytesRemaining + 4 → Changed L bs p z
  | header : p ≤ z → z < p + 8 → Changed L bs p z
  | free {x : Nat × Nat} : x ∈ select false L.start bs → x.1 ≤ z → z < x.1 + x.2 →
      Changed L bs p z

namespace Rep

variable {L : Layout} {m m' : ByteMemory} {bs cs : List Block} {low low' n p : Nat} {u : Bool}

/-- A call writes bytes of the arena only. -/
theorem owned_of_changed (h : Rep L m bs low) (hp : (p, n) ∈ select u L.start bs) {z : Nat}
    (hz : Changed L bs p z) : Owned L bs z := by
  cases hz with
  | xStart h1 h2 => exact .xStart h1 (by omega)
  | remaining h1 h2 => exact .static _ h1 h2
  | lowest h1 h2 => exact .static _ h1 h2
  | header h1 h2 =>
      cases u with
      | true => exact .header hp h1 h2
      | false =>
          obtain ⟨_, _, _, h8⟩ := h.block hp
          dsimp only at h8
          exact .free hp h1 (by dsimp only; omega)
  | free hx h1 h2 => exact .free hx h1 h2

/-- A header other than those of the free blocks and of `p` is not changed. -/
theorem not_changed_of_node (h : Rep L m bs low) (hp : (p, n) ∈ select u L.start bs) {a z : Nat}
    (ha : L.Inner a) (hne : a ≠ p)
    (hfree : ∀ x ∈ select false L.start bs, a + 8 ≤ x.1 ∨ x.1 + x.2 ≤ a) (hz : a ≤ z)
    (hz' : z < a + 8) : ¬ Changed L bs p z := by
  intro hc
  cases hc with
  | xStart h1 h2 =>
      have := ha.node.apart L.node_xStart ha.ne_xStart
      omega
  | remaining h1 h2 =>
      have := ha.node.static_apart .xFreeBytesRemaining
      omega
  | lowest h1 h2 =>
      have := ha.node.static_apart .xMinimumEverFreeBytesRemaining
      omega
  | header h1 h2 =>
      have := ha.node.apart (h.block hp).1.node hne
      dsimp only at this
      omega
  | free hx h1 h2 =>
      have := hfree _ hx
      omega

theorem not_changed_static (h : Rep L m bs low) (hp : (p, n) ∈ select u L.start bs) {z : Nat}
    {v : Static} (h1 : v ≠ .xFreeBytesRemaining) (h2 : v ≠ .xMinimumEverFreeBytesRemaining)
    (hz : L.static v ≤ z) (hz' : z < L.static v + 4) : ¬ Changed L bs p z := by
  have hin : ∀ {x : Nat × Nat} {u : Bool}, x ∈ select u L.start bs →
      L.static v + 4 ≤ x.1 ∨ x.1 + x.2 ≤ L.static v := fun hx => by
    obtain ⟨⟨hge, _⟩, hle, _⟩ := h.block hx
    have := L.static_ucHeap v
    have := L.le_start
    have := L.stop_le
    omega
  intro hc
  cases hc with
  | xStart h3 h4 =>
      have := L.static_xStart v
      omega
  | remaining h3 h4 =>
      have := L.static_static v _ h1
      rw [Apart] at this
      omega
  | lowest h3 h4 =>
      have := L.static_static v _ h2
      rw [Apart] at this
      omega
  | header h3 h4 =>
      have := hin hp
      have := (h.block hp).2.2.2
      dsimp only at *
      omega
  | free hx h3 h4 =>
      have := hin hx
      omega

theorem not_changed_xStart (h : Rep L m bs low) (hp : (p, n) ∈ select u L.start bs) {z : Nat}
    (hz : L.xStart + 4 ≤ z) (hz' : z < L.xStart + 8) : ¬ Changed L bs p z := by
  have hin : ∀ {x : Nat × Nat} {u : Bool}, x ∈ select u L.start bs →
      L.xStart + 8 ≤ x.1 ∨ x.1 + x.2 ≤ L.xStart := fun hx => by
    obtain ⟨⟨hge, _⟩, hle, _⟩ := h.block hx
    have := L.xStart_apart_start
    omega
  intro hc
  cases hc with
  | xStart h3 h4 => omega
  | remaining h3 h4 =>
      have := L.static_xStart .xFreeBytesRemaining
      omega
  | lowest h3 h4 =>
      have := L.static_xStart .xMinimumEverFreeBytesRemaining
      omega
  | header h3 h4 =>
      have := hin hp
      have := (h.block hp).2.2.2
      dsimp only at *
      omega
  | free hx h3 h4 =>
      have := hin hx
      omega

/-- The rest of the representation after a call: what the call does not write is as it
was. -/
theorem rebuild (h : Rep L m bs low) (hp : (p, n) ∈ select u L.start bs)
    (hm : ∀ z, ¬ Changed L bs p z → m' z = m z) (hext : extent cs = extent bs)
    (htidy : Tidy 8 cs) (hchain : Linked m' L.stop L.xStart (select false L.start cs))
    (hused : ∀ x ∈ select true L.start cs, (x ∈ select true L.start bs ∧ x.1 ≠ p) ∨
      (m'.word x.1 = 0 ∧ m'.word (x.1 + 4) = ptr (x.2 + 2 ^ 31)))
    (hremaining : L.get m' .xFreeBytesRemaining = ptr (freeBytes cs))
    (hlowest : L.get m' .xMinimumEverFreeBytesRemaining = ptr low') (hle : low' ≤ freeBytes cs) :
    Rep L m' cs low' := by
  have hheader : ∀ {a : Nat}, L.Inner a → a ≠ p →
      (∀ x ∈ select false L.start bs, a + 8 ≤ x.1 ∨ x.1 + x.2 ≤ a) →
      m'.word a = m.word a ∧ m'.word (a + 4) = m.word (a + 4) := fun ha hne hfree =>
    ⟨word_congr fun z hz hz' => hm z (h.not_changed_of_node hp ha hne hfree hz (by omega)),
      word_congr fun z hz hz' =>
        hm z (h.not_changed_of_node hp ha hne hfree (by omega) (by omega))⟩
  have hstop := hheader L.inner_stop (by have := h.block hp; dsimp only at this; omega)
    fun x hx => .inr (h.block hx).2.1
  refine ⟨hext ▸ h.tiles, htidy, hchain, fun x hx => ?_, ?_, ?_, ?_, hremaining, hlowest, hle, ?_⟩
  · rcases hused x hx with ⟨hb, hne⟩ | hnew
    · obtain ⟨h1, h2⟩ := hheader (h.block hb).1 hne fun y hy => by
        have hx8 := (h.block hb).2.2.2
        rcases eq_or_apart hb hy with ⟨_, hu⟩ | hlt | hlt
        · cases hu
        · exact .inl (by omega)
        · exact .inr hlt
      rw [h1, h2]
      exact h.used x hb
    · exact hnew
  · rw [← h.xStart]
    exact word_congr fun z hz hz' => hm z (h.not_changed_xStart hp hz (by omega))
  · rw [hstop.1, hstop.2]
    exact h.stop
  · rw [← h.pxEnd]
    exact word_congr fun z hz hz' =>
      hm z (h.not_changed_static hp (by simp) (by simp) hz hz')
  · rw [← h.bit]
    exact word_congr fun z hz hz' =>
      hm z (h.not_changed_static hp (by simp) (by simp) hz hz')

end Rep

end SecureHeap
