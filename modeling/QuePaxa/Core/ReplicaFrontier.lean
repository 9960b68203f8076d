import QuePaxa.Core.ReplicaRestart

/-! The commit frontier: slots it has not reached, and the last slot, where it stops. -/
namespace QuePaxa
open Library
variable {V : Type}

namespace ReplicaSnapshot

structure Undecided (s : ReplicaSnapshot V) (slot : SlotIndex) : Prop where
  ahead : s.nextCommit ≤ slot
  isOpen : ∀ e, s.log.get slot = some e → e.decision = none ∧ e.committed = false

def Jammed (s : ReplicaSnapshot V) : Prop := (s.log.get u64Max).any (·.committed) = true

end ReplicaSnapshot

namespace ReplicaCore
variable {r r' : ReplicaCore V} {slot : SlotIndex} {ds : List (Decision V)}

theorem undecided_insert {log : OrderedMap SlotIndex (LogSlot V)} {k : SlotIndex} {entry : LogSlot V}
    (h : ∀ e, log.get slot = some e → e.decision = none ∧ e.committed = false)
    (hentry : k = slot → entry.decision = none ∧ entry.committed = false) :
    ∀ e, (log.insert k entry).get slot = some e → e.decision = none ∧ e.committed = false := by
  intro e hget
  rw [OrderedMap.get_insert] at hget
  split_ifs at hget with hk
  · cases hget
    exact hentry hk.symm
  · exact h e hget

theorem undecided_commit (h : r.Undecided slot) (hc : Commit r ds r') : r'.Undecided slot := by
  cases hc with
  | @commit entry d here fresh decision below =>
    have hne : r.nextCommit ≠ slot := by
      intro heq
      have hopen := (h.isOpen entry (heq ▸ here)).1
      rw [decision] at hopen
      cases hopen
    exact ⟨lt_of_le_of_ne h.ahead hne, undecided_insert h.isOpen fun heq => absurd heq hne⟩
  | @advance entry here committed below =>
    have hne : r.nextCommit ≠ slot := by
      intro heq
      have hopen := (h.isOpen entry (heq ▸ here)).2
      rw [committed] at hopen
      cases hopen
    exact ⟨lt_of_le_of_ne h.ahead hne, h.isOpen⟩

theorem undecided_jam (h : r.Undecided slot) (hj : Jam r r') : r'.Undecided slot := by
  cases hj with
  | @first entry d here fresh decision last =>
    have hne : r.nextCommit ≠ slot := by
      intro heq
      have hopen := (h.isOpen entry (heq ▸ here)).1
      rw [decision] at hopen
      cases hopen
    exact ⟨h.ahead, undecided_insert h.isOpen fun heq => absurd heq hne⟩
  | again => exact h

theorem undecided_of_open (h : r.Sound) (hjam : ¬r.Jammed) (hopen : ¬r.Claimed slot) : r.Undecided slot := by
  have hahead : r.nextCommit ≤ slot := not_lt.mp fun hlt => hopen (.inl hlt)
  refine ⟨hahead, ?_⟩
  intro e hget
  have hfree : e.taken = false := by
    apply Bool.eq_false_of_not_eq_true
    intro htaken
    exact hopen (.inr (by rw [hget]; exact htaken))
  simp only [LogSlot.taken, Bool.or_eq_false_iff, Option.isSome_eq_false_iff, Option.isNone_iff_eq_none] at hfree
  refine ⟨hfree.1, Bool.eq_false_of_not_eq_true fun hcommitted => hjam ?_⟩
  have hne : slot ≠ SlotIndex.genesis := Nat.ne_zero_of_lt (h.frontier.trans_le hahead)
  have hlast := h.future slot e hne hahead hget hcommitted
  rw [ReplicaSnapshot.Jammed, ← hlast, hget]
  exact hcommitted

theorem undecided_entry (h : r.Undecided slot) : (r.entry slot).decision = none ∧ (r.entry slot).committed = false := by
  cases hget : r.log.get slot with
  | none =>
    rw [entry, hget]
    exact ⟨rfl, rfl⟩
  | some e =>
    rw [get_entry_of_some hget]
    exact h.isOpen e hget

theorem undecided_prune (h : r.Undecided slot) (through : SlotIndex) : (r.pruneThrough through).Undecided slot :=
  ⟨h.ahead, fun e hget => h.isOpen e ((OrderedMap.get_retain ..).mp hget).1⟩

/-- At the end of its range the frontier has committed the last slot. -/
theorem jammed_of_jam (hbound : r.nextCommit ≤ u64Max) (hj : Jam r r') : r'.Jammed := by
  have hlast : ¬r.nextCommit < u64Max → r.nextCommit = u64Max := fun h => le_antisymm hbound (not_lt.mp h)
  cases hj with
  | first here fresh decision last =>
    simp only [ReplicaSnapshot.Jammed, marked, hlast last, OrderedMap.get_insert, if_true, Option.any_some]
  | again here committed last =>
    simp only [ReplicaSnapshot.Jammed, ← hlast last, here, Option.any_some, committed]

theorem jammed_prune (hfrontier : r.checkpointedThrough < r.nextCommit) (hbound : r.nextCommit ≤ u64Max)
    (through : SlotIndex) (h : r.Jammed) : (r.pruneThrough through).Jammed := by
  obtain ⟨e, hget, hcommitted⟩ := (Option.any_eq_true _ _).mp h
  have hbelow : (r.pruneThrough through).checkpointedThrough < u64Max :=
    (checkpoint_lt_prune hfrontier through).trans_le hbound
  have hkept : (r.pruneThrough through).log.get u64Max = some e :=
    (OrderedMap.get_retain ..).mpr ⟨hget, by simp only [Bool.or_eq_true, decide_eq_true_eq]; exact .inl (.inr hbelow)⟩
  rw [ReplicaSnapshot.Jammed, hkept]
  exact hcommitted

theorem commitReady_error {e : QuePaxaError} (hbound : r.nextCommit ≤ u64Max) (h : commitReady r = .error e r') :
    r'.Jammed := by
  have hturn : ∀ committed, Triple (fun s : ReplicaCore V => s.nextCommit ≤ u64Max) (commitStep committed)
      (fun next s => next.elim (fun _ => s.nextCommit ≤ u64Max) fun _ => True) fun _ s => s.Jammed := by
    intro committed s hs
    rcases commitStep_cases committed s with heq | ⟨ds, s', heq, hc⟩ | ⟨e, s', heq, hjam⟩
    · rw [heq]
      trivial
    · rw [heq]
      cases hc with
      | commit _ _ _ below => exact below
      | advance _ _ below => exact below
    · rw [heq]
      exact jammed_of_jam hs hjam
  have hloop : Triple (fun s : ReplicaCore V => s.nextCommit ≤ u64Max) commitReady (fun _ _ => True)
    fun _ s => s.Jammed :=
    fun s => Triple.loop (J := fun _ s => s.nextCommit ≤ u64Max) hturn (fun _ _ _ => trivial) (s.log.size + 1) [] s
  have hcall := hloop r hbound
  rw [h] at hcall
  exact hcall

structure Later (r s : ReplicaCore V) : Prop where
  config : s.config = r.config
  sound : s.Sound
  claimed : ∀ slot, r.Claimed slot → s.Claimed slot
  jammed : r.Jammed → s.Jammed

theorem Later.refl (h : r.Sound) : Later r r := ⟨rfl, h, fun _ h => h, fun h => h⟩

section
variable [DecidableEq V]

theorem undecided_proposed (h : r.Undecided slot) (k : SlotIndex) (values : List V) :
    (r.proposed k values).Undecided slot :=
  ⟨h.ahead, undecided_insert h.isOpen fun hk => hk ▸ undecided_entry h⟩

private theorem Jammed.change (h : r.Jammed) (hr : r.Sound) (hc : Change r r') : r'.Jammed := by
  have hput : ∀ (k : SlotIndex) (entry : LogSlot V), (k = u64Max → entry.committed = true) →
      ((r.log.insert k entry).get u64Max).any (·.committed) = true := by
    intro k entry hentry
    rw [OrderedMap.get_insert]
    split_ifs with hk
    · exact hentry hk.symm
    · exact h
  have hentry : (r.entry u64Max).committed = true := by
    cases hget : r.log.get u64Max with
    | none => rw [ReplicaSnapshot.Jammed, hget] at h; cases h
    | some e =>
      rw [ReplicaSnapshot.Jammed, hget] at h
      rw [get_entry_of_some hget]
      exact h
  cases hc with
  | enqueue | drain => exact h
  | propose => exact hput _ _ fun hk => hk ▸ hentry
  | decide => exact hput _ _ fun hk => hk ▸ hentry
  | commit hf =>
    cases hf with
    | commit => exact hput _ _ fun _ => rfl
    | advance => exact h
  | jam hj => exact jammed_of_jam hr.bound hj
  | prune through => exact jammed_prune hr.frontier hr.bound through h

theorem Change.config_eq (hc : Change r r') : r'.config = r.config := by
  cases hc with
  | enqueue | drain | propose | decide | prune => rfl
  | commit hf => cases hf <;> rfl
  | jam hj => cases hj <;> rfl

theorem config_enqueue (r : ReplicaCore V) (values : List V) : (after (enqueue values) r).config = r.config :=
  (keeps_enqueue (I := fun s => s.config = r.config) (fun _ _ h hc => hc.config_eq.trans h) values).after rfl

theorem config_applyDecision (r : ReplicaCore V) (d : Decision V) : (after (applyDecision d) r).config = r.config :=
  (keeps_applyDecision (I := fun s => s.config = r.config) (fun _ _ h hc => hc.config_eq.trans h) d).after rfl

theorem Later.change {s s' : ReplicaCore V} (h : Later r s) (hc : Change s s') : Later r s' :=
  ⟨hc.config_eq.trans h.config, sound_change h.sound hc, fun slot hs => (h.claimed slot hs).change h.sound.frontier hc,
    fun hj => Jammed.change (h.jammed hj) h.sound hc⟩

theorem later_applyDecision (h : r.Sound) (d : Decision V) : Later r (after (applyDecision d) r) :=
  (keeps_applyDecision (fun _ _ => Later.change) d).after (.refl h)

/-- A decision is refused without a trace, or because the last slot got committed. -/
theorem applyDecision_error {d : Decision V} {e : QuePaxaError} (hr : r.Sound)
    (h : applyDecision d r = .error e r') : r' = r ∨ r'.Jammed := by
  rcases applyDecision_cases d r with ⟨e', heq⟩ | ⟨_, _, _, _, heq⟩ | ⟨hc, _, _, heq⟩
  · rw [heq] at h
    cases h
    exact .inl rfl
  · rw [heq] at h
    cases h
  · rw [heq] at h
    exact .inr (commitReady_error (sound_change hr hc).bound h)

/-- An accepted decision closes its slot and leaves the other undecided slots alone. -/
theorem applyDecision_ok {d : Decision V} (hr : r.Sound) (h : applyDecision d r = .ok ds r') :
    r'.Claimed d.slot ∧ ∀ k, k ≠ d.slot → r.Undecided k → r'.Undecided k := by
  rcases applyDecision_cases d r with ⟨e', heq⟩ | ⟨existing, hex, _, _, heq⟩ | ⟨hc, _, _, heq⟩
  · rw [heq] at h
    cases h
  · rw [heq] at h
    cases h
    refine ⟨.inr ?_, fun k _ hk => hk⟩
    cases hget : r.log.get d.slot with
    | none =>
      rw [entry, hget] at hex
      cases hex
    | some e =>
      rw [get_entry_of_some hget] at hex
      simp only [Option.any_some, LogSlot.taken, hex, Option.isSome_some, Bool.true_or]
  · rw [heq] at h
    have hclosed : (r.decided d).Claimed d.slot := by
      right
      simp only [decided, OrderedMap.get_insert, if_true, Option.any_some, LogSlot.taken, Option.isSome_some,
        Bool.true_or]
    have hkeeps : Keeps (fun s : ReplicaCore V => s.Sound ∧ s.Claimed d.slot ∧ ∀ k, k ≠ d.slot → r.Undecided k →
      s.Undecided k)
        commitReady := by
      apply keeps_commitReady
      · intro s ds s' hs hf
        exact ⟨sound_change hs.1 (.commit hf), hs.2.1.change hs.1.frontier (.commit hf),
          fun k hne hk => undecided_commit (hs.2.2 k hne hk) hf⟩
      · intro s s' hs hj
        exact ⟨sound_change hs.1 (.jam hj), hs.2.1.change hs.1.frontier (.jam hj),
          fun k hne hk => undecided_jam (hs.2.2 k hne hk) hj⟩
    refine (hkeeps.ok ⟨sound_change hr hc, hclosed, fun k hne hk => ?_⟩ h).2
    exact ⟨hk.ahead, undecided_insert hk.isOpen fun heq => absurd heq.symm hne⟩

end
end ReplicaCore
end QuePaxa
