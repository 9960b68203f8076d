import QuePaxa.Core.ReplicaSpec

/-! A replica pipeline rebuilt from its own snapshot. The checks on restore hold in every
reachable state; only a committed last slot, which the frontier cannot pass, fails them. -/
namespace QuePaxa
open Library
variable {V : Type}
variable {s : ReplicaSnapshot V} {slot : SlotIndex}

def LogSlot.Mentions (entry : LogSlot V) (value : V) : Prop :=
  value ∈ entry.proposed ∨ ∃ d, entry.decision = some d ∧ value ∈ d.valueIds

namespace ReplicaSnapshot

theorem mem_valueIds {value : V} :
    value ∈ s.valueIds ↔ value ∈ s.pending ∨ ∃ slot entry, s.log.get slot = some entry ∧ entry.Mentions value := by
  have hentry : ∀ entry : LogSlot V, value ∈ entry.proposed ++ (entry.decision.map (·.valueIds)).getD [] ↔
      entry.Mentions value := by
    intro entry
    cases hd : entry.decision <;> simp [LogSlot.Mentions, hd]
  simp only [valueIds, List.mem_append (s := s.pending), List.mem_flatMap, OrderedMap.mem_values, hentry]
  constructor
  · rintro (h | ⟨entry, ⟨slot, hget⟩, hm⟩)
    · exact .inl h
    · exact .inr ⟨slot, entry, hget, hm⟩
  · rintro (h | ⟨slot, entry, hget, hm⟩)
    · exact .inl h
    · exact .inr ⟨entry, ⟨slot, hget⟩, hm⟩

theorem retainedSlots_eq (s : ReplicaSnapshot V) :
    s.retainedSlots = (s.log.keys.toFinset.erase SlotIndex.genesis).card := by
  rw [retainedSlots, List.countP_eq_length_filter, ← List.toFinset_card_of_nodup (s.log.keys_nodup.filter _)]
  congr 1
  ext k
  simp [and_comm]

end ReplicaSnapshot

namespace ReplicaCore

structure Sound (r : ReplicaCore V) : Prop where
  pendingRoom : r.pending.length ≤ r.config.maxPendingValues
  slotRoom : r.retainedSlots ≤ r.config.maxLogSlots
  trackRoom : r.seenValueIds.card ≤ r.config.maxTrackedValueIds
  queued : ∀ v ∈ r.pending, v ∈ r.seenValueIds
  logged : ∀ slot entry, r.log.get slot = some entry → ∀ v, entry.Mentions v → v ∈ r.seenValueIds
  genesis : (r.log.get SlotIndex.genesis).any (·.committed) = true
  frontier : r.checkpointedThrough < r.nextCommit
  bound : r.nextCommit ≤ u64Max
  committed : ∀ slot, r.checkpointedThrough < slot → slot < r.nextCommit →
    ∃ entry, r.log.get slot = some entry ∧ entry.committed = true ∧ entry.decision.isSome = true
  future : ∀ slot entry, slot ≠ SlotIndex.genesis → r.nextCommit ≤ slot → r.log.get slot = some entry →
    entry.committed = true → slot = u64Max

theorem sound_new (config : ReplicaConfig) : (new config : ReplicaCore V).Sound := by
  have hget : ∀ slot entry, (new config : ReplicaCore V).log.get slot = some entry →
      slot = SlotIndex.genesis ∧ entry = ⟨[], none, true⟩ := by
    intro slot entry h
    simp only [new, OrderedMap.get_insert, OrderedMap.get_emptyCollection] at h
    split_ifs at h with hs
    exact ⟨hs, (Option.some.inj h).symm⟩
  constructor
  · exact Nat.zero_le _
  · exact Nat.zero_le _
  · exact Nat.zero_le _
  · intro v hv
    cases hv
  · intro slot entry h v hm
    rw [(hget slot entry h).2] at hm
    rcases hm with hm | ⟨d, hd, _⟩
    · cases hm
    · cases hd
  · rfl
  · exact Nat.one_pos
  · show 1 ≤ u64Max
    decide
  · intro slot hlo hhi
    exact absurd (Nat.le_of_lt_succ hhi) (not_le.mpr hlo)
  · intro slot entry hne _ h
    exact absurd (hget slot entry h).1 hne

section
variable {r r' : ReplicaCore V}

theorem retainedSlots_insert (entry : LogSlot V) {limit : Nat}
    (h : s.retainedSlots ≤ limit) (hroom : s.log.contains slot = true ∨ s.retainedSlots < limit) :
    ReplicaSnapshot.retainedSlots { s with log := s.log.insert slot entry } ≤ limit := by
  rw [ReplicaSnapshot.retainedSlots_eq] at h hroom ⊢
  simp only [OrderedMap.toFinset_keys_insert]
  rcases hroom with hin | hlt
  · have hmem : slot ∈ s.log.keys.toFinset :=
      List.mem_toFinset.mpr ((OrderedMap.mem_keys ..).mpr ((OrderedMap.contains_iff ..).mp hin))
    rwa [Finset.insert_eq_of_mem hmem]
  · have hle : ((insert slot s.log.keys.toFinset).erase SlotIndex.genesis).card ≤
        (insert slot (s.log.keys.toFinset.erase SlotIndex.genesis)).card := by
      apply Finset.card_le_card
      intro k hk
      simp only [Finset.mem_erase, Finset.mem_insert] at hk ⊢
      rcases hk with ⟨hne, rfl | hk⟩
      · exact .inl rfl
      · exact .inr ⟨hne, hk⟩
    exact hle.trans ((Finset.card_insert_le _ _).trans hlt)

private theorem Sound.entry_mentions (h : r.Sound) {v : V} (hm : (r.entry slot).Mentions v) :
    v ∈ r.seenValueIds := by
  cases hget : r.log.get slot with
  | some e => exact h.logged slot e hget v (get_entry_of_some hget ▸ hm)
  | none =>
    rw [entry, hget] at hm
    rcases hm with hm | ⟨d, hd, _⟩
    · cases hm
    · cases hd

private theorem Sound.put (h : r.Sound) {e : LogSlot V} {pending : List V}
    {lastProposed : SlotIndex} {seen : Finset V} (hsub : r.seenValueIds ⊆ seen)
    (htrack : seen.card ≤ r.config.maxTrackedValueIds) (hpending : pending.length ≤ r.config.maxPendingValues)
    (hqueued : ∀ v ∈ pending, v ∈ seen)
    (hroom : r.log.contains slot = true ∨ r.retainedSlots < r.config.maxLogSlots)
    (hvalues : ∀ v, e.Mentions v → v ∈ seen) (hcommitted : e.committed = (r.entry slot).committed)
    (hdecision : (r.entry slot).decision.isSome = true → e.decision.isSome = true) :
    Sound { r with log := r.log.insert slot e, pending, lastProposed, seenValueIds := seen } := by
  refine ⟨hpending, retainedSlots_insert e h.slotRoom hroom, htrack, hqueued, ?_, ?_, h.frontier, h.bound, ?_, ?_⟩
  · intro k entry hget v hm
    simp only [OrderedMap.get_insert] at hget
    split_ifs at hget with hk
    · cases hget
      exact hvalues v hm
    · exact hsub (h.logged k entry hget v hm)
  · simp only [OrderedMap.get_insert]
    split_ifs with hk
    · have hgen := h.genesis
      rw [hk] at hgen
      cases hget : r.log.get slot with
      | none => rw [hget] at hgen; cases hgen
      | some entry =>
        rw [hget] at hgen
        rw [get_entry_of_some hget] at hcommitted
        exact hcommitted.trans hgen
    · exact h.genesis
  · intro k hlo hhi
    obtain ⟨entry, hget, hcom, hdec⟩ := h.committed k hlo hhi
    simp only [OrderedMap.get_insert]
    split_ifs with hk
    · subst hk
      rw [get_entry_of_some hget] at hcommitted hdecision
      exact ⟨e, rfl, hcommitted.trans hcom, hdecision hdec⟩
    · exact ⟨entry, hget, hcom, hdec⟩
  · intro k entry hne hle hget hcom
    simp only [OrderedMap.get_insert] at hget
    split_ifs at hget with hk
    · cases hget
      subst hk
      cases hold : r.log.get k with
      | none =>
        rw [entry, hold] at hcommitted
        exact absurd (hcommitted.symm.trans hcom) Bool.false_ne_true
      | some old =>
        rw [get_entry_of_some hold] at hcommitted
        exact h.future k old hne hle hold (hcommitted.symm.trans hcom)
    · exact h.future k entry hne hle hget hcom

private theorem Sound.mark (h : r.Sound) {e : LogSlot V} {d : Decision V} (hget : r.log.get r.nextCommit = some e)
    (hd : e.decision = some d) {next : SlotIndex} (hnext : next ≤ u64Max)
    (hstep : next = r.nextCommit + 1 ∨ next = r.nextCommit ∧ r.nextCommit = u64Max) :
    Sound { r.marked e with nextCommit := next } := by
  have hle : r.nextCommit ≤ next := by
    rcases hstep with rfl | ⟨rfl, _⟩
    · exact Nat.le_succ _
    · exact le_refl _
  have hcontains : r.log.contains r.nextCommit = true := (OrderedMap.contains_iff ..).mpr ⟨e, hget⟩
  refine ⟨h.pendingRoom, retainedSlots_insert _ h.slotRoom (.inl hcontains), h.trackRoom, h.queued, ?_, ?_,
    h.frontier.trans_le hle, hnext, ?_, ?_⟩
  · intro k entry hk v hm
    simp only [marked, OrderedMap.get_insert] at hk
    split_ifs at hk with heq
    · cases hk
      rcases hm with hm | hm
      · cases hm
      · exact h.logged r.nextCommit e hget v (.inr hm)
    · exact h.logged k entry hk v hm
  · simp only [marked, OrderedMap.get_insert]
    split_ifs
    · rfl
    · exact h.genesis
  · intro k hlo hhi
    simp only [marked, OrderedMap.get_insert]
    split_ifs with hk
    · exact ⟨_, rfl, rfl, by simp only [hd, Option.isSome_some]⟩
    · refine h.committed k hlo ?_
      rcases hstep with rfl | ⟨rfl, _⟩
      · exact lt_of_le_of_ne (Nat.le_of_lt_succ hhi) hk
      · exact hhi
  · intro k entry hne hk hgetk hcom
    simp only [marked, OrderedMap.get_insert] at hgetk
    split_ifs at hgetk with heq
    · rcases hstep with rfl | ⟨_, hmax⟩
      · rw [heq] at hk
        exact absurd hk (Nat.not_succ_le_self _)
      · exact heq.trans hmax
    · exact h.future k entry hne (hle.trans hk) hgetk hcom

private theorem checkCommitted_loop (h : r.Sound) (n : Nat) (slot : SlotIndex) (hn : r.log.keysFrom slot < n)
    (hlo : r.checkpointedThrough < slot) :
    loop (checkCommitted r.snapshot) (fun _ => ()) n slot = .ok () := by
  induction n generalizing slot with
  | zero => exact absurd hn (Nat.not_lt_zero _)
  | succ n ih =>
    by_cases hlt : slot < r.nextCommit
    · obtain ⟨e, hget, hcom, hdec⟩ := h.committed slot hlo hlt
      have hstep : checkCommitted r.snapshot slot = .ok (.inl (slot + 1)) := by
        have hbound : slot < u64Max := hlt.trans_le h.bound
        have hgood : (r.log.get slot).any (fun entry => entry.committed && entry.decision.isSome) = true := by
          rw [hget]
          simp only [Option.any_some, hcom, hdec, Bool.and_self]
        simp only [checkCommitted, snapshot, hlt, if_true, hgood, require, SlotIndex.checkedNext, hbound]
        rfl
      have hfewer : r.log.keysFrom (slot + 1) < r.log.keysFrom slot :=
        OrderedMap.keysFrom_lt hget (Nat.lt_succ_self slot)
      have hrest := ih (slot + 1) (hfewer.trans_le (Nat.le_of_lt_succ hn)) (Nat.lt_succ_of_lt hlo)
      simp only [loop, hstep, bind, Except.bind]
      exact hrest
    · have hstep : checkCommitted r.snapshot slot = .ok (.inr ()) := by
        simp only [checkCommitted, snapshot, hlt, if_false]
        rfl
      simp only [loop, hstep, bind, Except.bind]
      rfl

private structure Walked (s : ReplicaSnapshot V) (slot : SlotIndex) : Prop where
  bound : slot ≤ u64Max
  below : ∀ k, s.checkpointedThrough < k → k < slot →
    ∃ entry, s.log.get k = some entry ∧ entry.committed = true ∧ entry.decision.isSome = true

private theorem checkCommitted_inl {next : SlotIndex}
    (h : checkCommitted s slot = .ok (.inl next)) : next = slot + 1 ∧ slot < u64Max ∧
      ∃ entry, s.log.get slot = some entry ∧ entry.committed = true ∧ entry.decision.isSome = true := by
  rw [checkCommitted] at h
  split_ifs at h
  swap
  · cases h
  obtain ⟨hgood, hnext⟩ := unit_bind_eq_ok.mp h
  obtain ⟨entry, hget, hentry⟩ := (Option.any_eq_true _ _).mp (require_eq_ok.mp hgood)
  have hmarks : entry.committed = true ∧ entry.decision.isSome = true := by simpa using hentry
  cases hlast : slot.checkedNext with
  | none =>
    rw [hlast] at hnext
    cases hnext
  | some k =>
    rw [hlast] at hnext
    cases hnext
    obtain ⟨hlt, rfl⟩ := SlotIndex.checkedNext_eq_some.mp hlast
    exact ⟨rfl, hlt, entry, hget, hmarks⟩

private theorem checkCommitted_inr {u : Unit}
    (h : checkCommitted s slot = .ok (.inr u)) : s.nextCommit ≤ slot := by
  rw [checkCommitted] at h
  split_ifs at h with hlt
  · obtain ⟨_, hnext⟩ := unit_bind_eq_ok.mp h
    cases hlast : slot.checkedNext <;> rw [hlast] at hnext <;> cases hnext
  · exact not_lt.mp hlt

end

section
variable [DecidableEq V] {r r' : ReplicaCore V}

private theorem card_union_le {seen : Finset V} {values : List V} {limit : Nat}
    (h : seen.card + (values.toFinset \ seen).card ≤ limit) : (seen ∪ values.toFinset).card ≤ limit := by
  rw [← Finset.union_sdiff_self_eq_union, Finset.card_union_of_disjoint Finset.disjoint_sdiff]
  exact h

private theorem proposed_of_requeued {e : LogSlot V} {d : Decision V} {v : V} (h : v ∈ requeued e d) :
    v ∈ e.proposed := by
  rw [requeued] at h
  split_ifs at h
  · exact List.mem_of_mem_filter h
  · cases h

theorem Sound.prune (h : r.Sound) (slot : SlotIndex) : (r.pruneThrough slot).Sound := by
  have hkept : ∀ k entry, (r.pruneThrough slot).log.get k = some entry → r.log.get k = some entry :=
    fun k entry hget => ((OrderedMap.get_retain ..).mp hget).1
  refine ⟨h.pendingRoom, ?_, h.trackRoom, h.queued, fun k e hget => h.logged k e (hkept k e hget), ?_,
    checkpoint_lt_change h.frontier (.prune slot), h.bound, ?_, ?_⟩
  · rw [ReplicaSnapshot.retainedSlots_eq]
    have hle := h.slotRoom
    rw [ReplicaSnapshot.retainedSlots_eq] at hle
    refine (Finset.card_le_card (Finset.erase_subset_erase _ ?_)).trans hle
    intro k hk
    obtain ⟨e, hget⟩ := (OrderedMap.mem_keys ..).mp (List.mem_toFinset.mp hk)
    exact List.mem_toFinset.mpr (OrderedMap.mem_keys_of_get (hkept k e hget))
  · have hgen := h.genesis
    cases hget : r.log.get SlotIndex.genesis with
    | none => rw [hget] at hgen; cases hgen
    | some e =>
      rw [hget] at hgen
      have hkeep : (r.pruneThrough slot).log.get SlotIndex.genesis = some e :=
        (OrderedMap.get_retain ..).mpr ⟨hget, by simp⟩
      rw [hkeep]
      exact hgen
  · intro k hlo hhi
    obtain ⟨e, hget, hrest⟩ := h.committed k ((le_max_right _ _).trans_lt hlo) hhi
    refine ⟨e, (OrderedMap.get_retain ..).mpr ⟨hget, ?_⟩, hrest⟩
    simp only [Bool.or_eq_true, decide_eq_true_eq]
    exact .inl (.inr hlo)
  · exact fun k e hne hle hget => h.future k e hne hle (hkept k e hget)

/-- Every elementary change keeps a replica restorable. -/
theorem sound_change (h : r.Sound) (hc : Change r r') : r'.Sound := by
  cases hc with
  | enqueue fresh nodup new room tracked =>
    refine ⟨?_, h.slotRoom, ?_, ?_, ?_, h.genesis, h.frontier, h.bound, h.committed, h.future⟩
    · simpa only [List.length_append] using room
    · refine (Finset.card_union_le _ _).trans ((Nat.add_le_add_left ?_ _).trans tracked)
      exact List.toFinset_card_le fresh
    · intro v hv
      rcases List.mem_append.mp hv with hv | hv
      · exact Finset.mem_union_left _ (h.queued v hv)
      · exact Finset.mem_union_right _ (List.mem_toFinset.mpr hv)
    · exact fun slot e hget v hm => Finset.mem_union_left _ (h.logged slot e hget v hm)
  | drain n =>
    refine ⟨?_, h.slotRoom, h.trackRoom, ?_, h.logged, h.genesis, h.frontier, h.bound, h.committed, h.future⟩
    · exact (List.length_drop ▸ Nat.sub_le _ _ : (r.pending.drop n).length ≤ r.pending.length).trans h.pendingRoom
    · exact fun v hv => h.queued v (List.mem_of_mem_drop hv)
  | propose admitted =>
    obtain ⟨_, _, htrack, hroom⟩ := admitProposal_eq_ok.mp admitted
    refine h.put Finset.subset_union_left (card_union_le htrack) h.pendingRoom
      (fun v hv => Finset.mem_union_left _ (h.queued v hv)) hroom ?_ rfl id
    rintro v (hm | hm)
    · exact Finset.mem_union_right _ (List.mem_toFinset.mpr hm)
    · exact Finset.mem_union_left _ (h.entry_mentions (.inr hm))
  | @decide d admitted fresh room =>
    obtain ⟨_, _, htrack, hroom⟩ := admitDecision_eq_ok.mp admitted
    have hlen : (requeued (r.entry d.slot) d ++ r.pending).length ≤ r.config.maxPendingValues := by
      rcases room with hnone | hfits
      · rw [hnone]
        exact h.pendingRoom
      · rw [List.length_append, Nat.add_comm]
        exact hfits
    have hqueued : ∀ v ∈ requeued (r.entry d.slot) d ++ r.pending, v ∈ r.seenValueIds := by
      intro v hv
      rcases List.mem_append.mp hv with hv | hv
      · exact h.entry_mentions (.inl (proposed_of_requeued hv))
      · exact h.queued v hv
    refine h.put Finset.subset_union_left (card_union_le htrack) hlen
      (fun v hv => Finset.mem_union_left _ (hqueued v hv)) hroom ?_ rfl fun _ => rfl
    rintro v (hm | ⟨d', hd', hv⟩)
    · exact Finset.mem_union_left _ (h.entry_mentions (.inl hm))
    · cases hd'
      exact Finset.mem_union_right _ (List.mem_toFinset.mpr hv)
  | commit hf =>
    cases hf with
    | commit here fresh decision below => exact h.mark here decision below (.inl rfl)
    | advance here committed below =>
      -- nothing at the frontier is committed already, short of the last slot
      have hpos : r.nextCommit ≠ SlotIndex.genesis := Nat.ne_zero_of_lt h.frontier
      exact absurd (h.future _ _ hpos (le_refl _) here committed) (Nat.ne_of_lt below)
  | jam hj =>
    cases hj with
    | first here fresh decision last =>
      exact h.mark here decision h.bound (.inr ⟨rfl, le_antisymm h.bound (not_lt.mp last)⟩)
    | again => exact h
  | prune slot => exact h.prune slot

/-- A sound replica can be rebuilt unless it has committed the last slot. -/
theorem restore_snapshot_iff (h : r.Sound) :
    restore r.config r.snapshot = .ok r ↔ ∀ e, r.log.get u64Max = some e → e.committed = false := by
  have hvalues : ∀ v ∈ r.snapshot.valueIds, v ∈ r.seenValueIds := by
    intro v hv
    rcases ReplicaSnapshot.mem_valueIds.mp hv with hv | ⟨slot, e, hget, hm⟩
    · exact h.queued v hv
    · exact h.logged slot e hget v hm
  have hfirst : r.checkpointedThrough.checkedNext = some (r.checkpointedThrough + 1) :=
    if_pos (h.frontier.trans_le h.bound)
  have hwalk := checkCommitted_loop h (r.log.size + 1) (r.checkpointedThrough + 1) (r.log.keysFrom_lt_size _)
    (Nat.lt_succ_self _)
  have hlast : u64Max ≠ SlotIndex.genesis := by decide
  have hfuture : restore r.config r.snapshot = .ok r ↔ ∀ e ∈ r.log.entries, e.1 ≠ SlotIndex.genesis →
      r.nextCommit ≤ e.1 → e.2.committed = false := by
    have hfirst' : r.snapshot.checkpointedThrough.checkedNext = some (r.checkpointedThrough + 1) := hfirst
    have hwalk' : loop (checkCommitted r.snapshot) (fun _ => ()) (r.snapshot.log.size + 1)
      (r.checkpointedThrough + 1) = .ok () := hwalk
    simp only [restore, unit_bind_eq_ok, require_eq_ok, hfirst', hwalk', true_and]
    constructor
    · exact fun hall => hall.2.2.2.2.2.1
    · exact fun hall => ⟨h.pendingRoom, h.slotRoom, h.trackRoom, hvalues, ⟨h.genesis, h.frontier⟩, hall, rfl⟩
  rw [hfuture]
  constructor
  · intro hall e hget
    exact hall (u64Max, e) ((OrderedMap.get_eq_some ..).mp hget) hlast h.bound
  · intro hopen e he hne hle
    by_contra hcom
    have hget := (OrderedMap.get_eq_some ..).mpr he
    have hcommitted : e.2.committed = true := by simpa using hcom
    have hmax := h.future e.1 e.2 hne hle hget hcommitted
    rw [hmax] at hget
    exact hcom (hopen e.2 hget)

/-- The checks on restore let through nothing that a replica could not have become. -/
theorem sound_restore {config : ReplicaConfig} (h : restore config s = .ok r) : r.Sound := by
  cases hfirst : s.checkpointedThrough.checkedNext with
  | none =>
    simp only [restore, unit_bind_eq_ok, hfirst] at h
    cases h.2.2.2.2.2
  | some first =>
    simp only [restore, unit_bind_eq_ok, require_eq_ok, hfirst] at h
    obtain ⟨hpending, hslots, htracked, hvalues, ⟨hgenesis, hfrontier⟩, hwalk, hfuture, heq⟩ := h
    obtain rfl := Except.ok.inj heq
    obtain ⟨hlt, rfl⟩ := SlotIndex.checkedNext_eq_some.mp hfirst
    have hturn : ∀ slot next, Walked s slot → checkCommitted s slot = .ok (.inl next) →
        Walked s next ∧ s.log.keysFrom next < s.log.keysFrom slot := by
      intro slot next hwalked hstep
      obtain ⟨rfl, hlast, entry, hget, hmarks⟩ := checkCommitted_inl hstep
      refine ⟨⟨hlast, fun k hlo hhi => ?_⟩, OrderedMap.keysFrom_lt hget (Nat.lt_succ_self slot)⟩
      rcases Nat.lt_succ_iff_lt_or_eq.mp hhi with hk | rfl
      · exact hwalked.below k hlo hk
      · exact ⟨entry, hget, hmarks⟩
    have hstart : Walked s (s.checkpointedThrough + 1) :=
      ⟨hlt, fun k hlo hhi => absurd (Nat.le_of_lt_succ hhi) (not_le.mpr hlo)⟩
    obtain ⟨last, hwalked, hbreak⟩ := loop_ok hturn hstart (s.log.keysFrom_lt_size _) hwalk
    have hlast := checkCommitted_inr hbreak
    have hmem : ∀ v, v ∈ s.valueIds ↔ _ := fun v => ReplicaSnapshot.mem_valueIds
    refine ⟨hpending, hslots, htracked, fun v hv => hvalues v ((hmem v).mpr (.inl hv)),
      fun slot entry hget v hm => hvalues v ((hmem v).mpr (.inr ⟨slot, entry, hget, hm⟩)), hgenesis, hfrontier,
      hlast.trans hwalked.bound, fun slot hlo hhi => hwalked.below slot hlo (hhi.trans_le hlast), ?_⟩
    intro slot entry hne hle hget hcommitted
    rw [hfuture (slot, entry) ((OrderedMap.get_eq_some ..).mp hget) hne hle] at hcommitted
    cases hcommitted

end
end ReplicaCore
end QuePaxa
