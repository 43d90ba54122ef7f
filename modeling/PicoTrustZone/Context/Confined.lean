import PicoTrustZone.Context.FreeList

/-!
# Confinement of the loaded stack

`TZ_StoreContext_S` saves whatever `PSP` holds, if it is inside the closed
window of the slot, and `TZ_LoadContext_S` installs what was saved.  Between the
calls `PSP` may be anything.  `confined_of_run` says that this is enough: every
stack that is loaded lies in its own slot, and what is pushed on it down to
`PSPLIM` stays there.
-/

namespace TzContext

variable {cfg : Config} {s s' : State}

/-- A word that can be pushed: below `PSP` and not below `PSPLIM`. -/
def State.Pushable (s : State) (addr : Nat) : Prop :=
  s.psplim.toNat ≤ addr ∧ addr + 4 ≤ s.psp.toNat

/-- The word at `addr` lies in the stack memory of slot `n`. -/
def Config.WordInSlot (cfg : Config) (n addr : Nat) : Prop :=
  cfg.slotBase n ≤ addr ∧ addr + 4 ≤ cfg.slotTop n

/-- The word at `addr` has a byte in the stack memory of slot `n`. -/
def Config.WordMeetsSlot (cfg : Config) (n addr : Nat) : Prop :=
  cfg.slotBase n < addr + 4 ∧ addr < cfg.slotTop n

/-- No word can be pushed. -/
def State.WindowEmpty (s : State) : Prop := s.psp ≤ s.psplim

/-- The installed stack is confined to slot `n`. -/
structure Confined (cfg : Config) (s : State) (n : Nat) : Prop where
  psplim : s.psplim.toNat = cfg.slotBase n
  lower : s.psplim ≤ s.psp
  upper : s.psp.toNat ≤ s.psplim.toNat + cfg.stackSize
  pushes : ∀ addr, s.Pushable addr → cfg.WordInSlot n addr ∧
    ∀ k < cfg.slots, k ≠ n → ¬ cfg.WordMeetsSlot k addr

theorem Config.WordInSlot.not_meets {n k addr : Nat} (h : cfg.WordInSlot n addr) (hne : k ≠ n) :
    ¬ cfg.WordMeetsSlot k addr := by
  obtain ⟨hlo, hhi⟩ := h
  rintro ⟨hbase, htop⟩
  have happart := cfg.slots_apart hne
  omega

/-- A stack between the base and the top of a slot is confined to it. -/
theorem confined_of_window {n : Nat} (hlimit : s.psplim.toNat = cfg.slotBase n)
    (hlo : cfg.slotBase n ≤ s.psp.toNat) (hhi : s.psp.toNat ≤ cfg.slotTop n) :
    Confined cfg s n := by
  refine ⟨hlimit, ?_, ?_, ?_⟩
  · rw [BitVec.le_def, hlimit]
    exact hlo
  · rw [hlimit]
    exact hhi
  · rintro addr ⟨hbelow, habove⟩
    rw [hlimit] at hbelow
    have hin : cfg.WordInSlot n addr := ⟨hbelow, Nat.le_trans habove hhi⟩
    exact ⟨hin, fun k _ hne => hin.not_meets hne⟩

/-- A successful load confines the stack to its slot. -/
theorem Records.confined_load (h : Records cfg s) {id : Word} (hlive : s.Live cfg id) :
    Confined cfg (s.loadSlot (id - 1)) (id - 1).toNat := by
  have hlt := hlive.1.slot_lt
  obtain ⟨hlo, hhi⟩ := h.saved _ hlt hlive.2
  exact confined_of_window (h.toNat_limit hlt) hlo hhi

/-- The saved stack pointer lies between the limit and the top of the records. -/
theorem Records.saved_mem (h : Records cfg s) {n : Nat} (hn : n < cfg.slots)
    (hactive : s.sp n ≠ 0) :
    (s.processStackInfo n).spLimit ≤ s.sp n ∧ s.sp n ≤ (s.processStackInfo n).spTop := by
  rw [BitVec.le_def, BitVec.le_def, h.toNat_limit hn, h.toNat_top hn]
  exact h.saved n hn hactive

/-- After any run the state has correct records, or nothing is allocated. -/
theorem records_or_dormant {es : List Event} (h0 : IsReset s) (hr : ClientRun cfg s es s') :
    Records cfg s' ∨ Dormant s' := by
  have hd := (dormant_of_isReset h0).run hr
  rcases Classical.em (Initialised es) with hi | hi
  · exact Or.inl (hd.1 hi).records
  · exact Or.inr (hd.2 hi)

/-- **Confinement.**  After any run of the entries, with any values of `PSP`
between them and any writes into the stacks of allocated slots: every saved
stack pointer lies in its slot, a successful load installs a stack that is
confined to the slot it loads, and a successful initialisation or store leaves
an empty window. -/
theorem confined_of_run {es : List Event} (h0 : IsReset s) (hr : ClientRun cfg s es s') :
    (∀ n < cfg.slots, s'.sp n ≠ 0 →
      (s'.processStackInfo n).spLimit ≤ s'.sp n ∧ s'.sp n ≤ (s'.processStackInfo n).spTop) ∧
    (∀ ipsr id t, exec cfg ipsr (.load id) s' = some (1, t) → Confined cfg t (id - 1).toNat) ∧
    (∀ ipsr t, exec cfg ipsr .init s' = some (1, t) → t.WindowEmpty) ∧
    (∀ ipsr id t, exec cfg ipsr (.store id) s' = some (1, t) → t.WindowEmpty) := by
  have hstate := records_or_dormant h0 hr
  refine ⟨fun n hn hactive => ?_, fun ipsr id t hload => ?_, fun ipsr t hinit => ?_,
    fun ipsr id t hstore => ?_⟩
  · rcases hstate with hrec | hd
    · exact hrec.saved_mem hn hactive
    · exact absurd (hd.inactive n) hactive
  · cases effect_of_exec hload with
    | load _ _ hlive =>
        rcases hstate with hrec | hd
        · exact hrec.confined_load hlive
        · exact absurd (hd.inactive _) hlive.2
  · cases effect_of_exec hinit with
    | init => exact BitVec.le_refl _
  · cases effect_of_exec hstore with
    | store _ _ _ _ => exact BitVec.le_refl _

theorem confined_of_run_small :
    (∀ n < Config.small.slots, smallState.sp n ≠ 0 →
      (smallState.processStackInfo n).spLimit ≤ smallState.sp n ∧
        smallState.sp n ≤ (smallState.processStackInfo n).spTop) ∧
    ∀ ipsr id t, exec .small ipsr (.load id) smallState = some (1, t) →
      Confined .small t (id - 1).toNat := by
  have h := confined_of_run isReset_zero clientRun_small
  exact ⟨h.1, h.2.1⟩

end TzContext
