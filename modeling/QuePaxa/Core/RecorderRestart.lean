import QuePaxa.Core.RecorderSpec

/-! A recorder rebuilt from its own snapshot. Restoring re-validates retained state
against the current voters, while that state may name voters of an earlier epoch. -/
namespace QuePaxa
open Library
variable {V : Type}
variable {r : RecorderCore V}

namespace RecorderCore

/-- What the validation on restore needs, apart from who the current voters are. -/
structure Sound (r : RecorderCore V) : Prop where
  decisions : ∀ slot d, r.decisions.get slot = some d →
    d.slot = slot ∧ r.prunedThrough < slot ∧ d.Fits r.config.limits
  slots : ∀ slot g, r.slots.get slot = some g → r.prunedThrough < slot ∧ g.Fits r.config.limits
  leaders : ∀ slot, (r.roundOneLeaders.get slot).isSome = (r.slots.get slot).isSome
  slotCount : r.slots.size ≤ r.config.limits.maxActiveSlots
  decisionCount : r.decisions.size ≤ r.config.limits.maxDecisions

theorem sound_new (config : RecorderConfig) : (new config : RecorderCore V).Sound :=
  ⟨by simp [new], by simp [new], by simp [new], Nat.zero_le _, Nat.zero_le _⟩

private theorem sound_learn (r : RecorderCore V) (d : Decision V) (h : r.Sound) (hl : r.Learns d) :
    Sound { r with decisions := r.decisions.insert d.slot d } := by
  refine ⟨fun slot e he => ?_, h.slots, h.leaders, h.slotCount, ?_⟩
  · rw [OrderedMap.get_insert] at he
    split_ifs at he with hs
    · cases he
      exact ⟨hs.symm, hs ▸ hl.live, hl.valid⟩
    · exact h.decisions slot e he
  · have := h.decisionCount
    have := hl.room
    have := r.decisions.size_insert_le d.slot d
    show (r.decisions.insert d.slot d).size ≤ r.config.limits.maxDecisions
    omega

private theorem sound_store (r : RecorderCore V) (request : RecordRequest V) (h : r.Sound)
    (ha : r.Admitted request) (hroom : r.HasRoom request.slot) : (r.recorded request).Sound := by
  refine ⟨h.decisions, fun slot g hg => ?_, fun slot => ?_, ?_, h.decisionCount⟩
  · simp only [recorded, OrderedMap.get_insert] at hg
    split_ifs at hg with hs
    · cases hg
      refine ⟨hs ▸ ha.live, IntervalSummaryRegister.advance_fits ?_ ha.low ha.high ha.proposal⟩
      unfold register
      cases hget : r.slots.get request.slot with
      | none => exact .inl rfl
      | some g => exact .inr (h.slots _ g hget).2
    · exact h.slots slot g hg
  · simp only [recorded, OrderedMap.get_insert, OrderedMap.get_orInsert]
    split_ifs with hs
    · simp
    · exact h.leaders slot
  · show (r.slots.insert request.slot _).size ≤ r.config.limits.maxActiveSlots
    have hcount := h.slotCount
    rcases hroom with hc | hs
    · rwa [OrderedMap.size_insert_of_contains _ _ _ hc]
    · have := r.slots.size_insert_le request.slot
        ((r.register request.slot).advance request.step request.proposal)
      omega

private theorem sound_prune (r : RecorderCore V) (slot : SlotIndex) (h : r.Sound) :
    (r.pruneThrough slot).Sound := by
  refine ⟨fun s d hd => ?_, fun s g hg => ?_, fun s => ?_, ?_, ?_⟩
  · obtain ⟨hd, hlt⟩ := (OrderedMap.get_retain _ _ _ _).mp hd
    obtain ⟨h1, h2, h3⟩ := h.decisions s d hd
    exact ⟨h1, max_lt h2 (by simpa using hlt), h3⟩
  · obtain ⟨hg, hlt⟩ := (OrderedMap.get_retain _ _ _ _).mp hg
    obtain ⟨h1, h2⟩ := h.slots s g hg
    exact ⟨max_lt h1 (by simpa using hlt), h2⟩
  · simp only [pruneThrough, OrderedMap.get_retain_key]
    split_ifs
    · exact h.leaders s
    · rfl
  · exact (r.slots.size_retain_le _).trans h.slotCount
  · exact (r.decisions.size_retain_le _).trans h.decisionCount

section
variable [DecidableEq V]

theorem sound_apply (r : RecorderCore V) (op : RecorderOp V) (h : r.Sound) : (op.apply r).Sound :=
  apply_invariant sound_learn sound_store sound_prune r op
    (fun _ _ _ h _ => ⟨h.decisions, h.slots, h.leaders, h.slotCount, h.decisionCount⟩) h

/-- Every recorder that started empty is sound, whatever calls it served. -/
theorem sound_run (config : RecorderConfig) (ops : List (RecorderOp V)) :
    (run RecorderOp.apply (new config) ops).Sound :=
  run_invariant_all sound_apply (sound_new config) ops

end

/-- Every replica that retained state names: proposers of decisions, bound
leaders, and proposers of the proposals held in registers. -/
def retainedReplicas (r : RecorderCore V) : List ReplicaId :=
  r.decisions.values.map (·.proposer) ++ r.roundOneLeaders.values.reduceOption ++
    r.slots.values.flatMap fun g => g.proposals.map (·.key.proposerId)

theorem restoreSnapshotState_snapshot (r : RecorderCore V) :
    (new r.config).restoreSnapshotState r.snapshot = r := by
  have hslots : r.snapshot.slots.mapValues IntervalSummaryRegister.restore = r.slots := by
    simp only [snapshot, OrderedMap.mapValues_mapValues]
    exact OrderedMap.mapValues_id _ _ fun g => g.restore_snapshot
  simp only [restoreSnapshotState, hslots]
  rfl

theorem retainedReplicas_members (r : RecorderCore V) :
    (∀ id ∈ r.retainedReplicas, r.config.contains id = true) ↔
      (∀ d ∈ r.decisions.values, r.config.contains d.proposer = true) ∧
      (∀ leader ∈ r.roundOneLeaders.values.reduceOption, r.config.contains leader = true) ∧
      ∀ g ∈ r.slots.values, ∀ p ∈ g.proposals, r.config.contains p.key.proposerId = true := by
  simp only [retainedReplicas, List.forall_mem_append, List.forall_mem_map, List.forall_mem_flatMap,
    and_assoc]

private theorem decisions_valid_iff (r : RecorderCore V) (h : r.Sound) :
    (∀ e ∈ r.decisions.entries, (e.1 = e.2.slot ∧ r.prunedThrough < e.1) ∧
      e.2.Fits r.config.limits ∧ r.config.contains e.2.proposer = true) ↔
    ∀ d ∈ r.decisions.values, r.config.contains d.proposer = true := by
  constructor
  · intro hall d hd
    obtain ⟨slot, hget⟩ := (OrderedMap.mem_values _ _).mp hd
    exact (hall (slot, d) ((OrderedMap.get_eq_some _ _ _).mp hget)).2.2
  · rintro hall ⟨slot, d⟩ he
    have hget := (OrderedMap.get_eq_some _ _ _).mpr he
    obtain ⟨h1, h2, h3⟩ := h.decisions slot d hget
    exact ⟨⟨h1.symm, h2⟩, h3, hall d ((OrderedMap.mem_values _ _).mpr ⟨slot, hget⟩)⟩

section
variable [DecidableEq V]

private theorem registers_valid_iff (r : RecorderCore V) (h : r.Sound) :
    (∀ x ∈ (r.slots.mapValues IntervalSummaryRegister.snapshot).values,
      (new r.config : RecorderCore V).validateIsrSnapshot x = .ok ()) ↔
    ∀ g ∈ r.slots.values, ∀ p ∈ g.proposals, r.config.contains p.key.proposerId = true := by
  simp only [OrderedMap.values_mapValues, List.forall_mem_map, validateIsrSnapshot_eq_ok]
  refine forall₂_congr fun g hg => ?_
  obtain ⟨slot, hget⟩ := (OrderedMap.mem_values _ _).mp hg
  exact and_iff_right (h.slots slot g hget).2

theorem restore_eq {config : RecorderConfig} {s : RecorderSnapshot V}
    (h : restore config s = .ok r) : r = (new config).restoreSnapshotState s := by
  simp only [restore, unit_bind_eq_ok, pure, Except.pure, Except.ok.injEq] at h
  obtain ⟨-, -, -, -, -, -, -, -, h⟩ := h
  exact h.symm

/-- On a sound recorder the only check that can fail is the one on voters. -/
theorem restore_snapshot_iff (r : RecorderCore V) (h : r.Sound) :
    restore r.config r.snapshot = .ok r ↔ ∀ id ∈ r.retainedReplicas, r.config.contains id = true := by
  have hkeys : r.roundOneLeaders.keys = r.slots.keys :=
    OrderedMap.keys_eq_of_get fun slot => h.leaders slot
  have hfloor : ∀ slot ∈ r.slots.keys, r.prunedThrough < slot := by
    intro slot hs
    obtain ⟨g, hg⟩ := (OrderedMap.mem_keys _ _).mp hs
    exact (h.slots slot g hg).1
  rw [retainedReplicas_members, ← decisions_valid_iff r h, ← registers_valid_iff r h]
  simp only [restore, unit_bind_eq_ok, require_eq_ok, forM_eq_ok, validateDecision_eq_ok,
    restoreSnapshotState_snapshot]
  simp only [snapshot, OrderedMap.size_mapValues, OrderedMap.keys_mapValues]
  constructor
  · rintro ⟨-, -, -, h1, -, -, h2, h3, -⟩
    exact ⟨h1, h2, h3⟩
  · rintro ⟨h1, h2, h3⟩
    exact ⟨trivial, h.slotCount, h.decisionCount, h1, hfloor, hkeys, h2, h3, rfl⟩

/-- A restart succeeds and loses nothing exactly when retained state names only current voters. -/
theorem restart_iff_retained_are_voters (config : RecorderConfig) (ops : List (RecorderOp V)) :
    let r := run RecorderOp.apply (new config) ops
    (∃ r', restore r.config r.snapshot = .ok r' ∧ r'.snapshot = r.snapshot) ↔
      ∀ id ∈ r.retainedReplicas, r.config.contains id = true := by
  intro r
  have hsound := sound_run config ops
  rw [← restore_snapshot_iff r hsound]
  constructor
  · rintro ⟨r', hr', -⟩
    rw [hr', restore_eq hr', restoreSnapshotState_snapshot]
  · intro hok
    exact ⟨r, hok, rfl⟩

end

structure Restorable (config : RecorderConfig) (r : RecorderCore V) : Prop where
  config_eq : r.config = config
  sound : r.Sound
  members : ∀ id ∈ r.retainedReplicas, r.config.contains id = true

variable {config : RecorderConfig}

theorem restorable_new (config : RecorderConfig) : (new config : RecorderCore V).Restorable config :=
  ⟨rfl, sound_new
    config, by simp [retainedReplicas, new, OrderedMap.values, EmptyCollection.emptyCollection, OrderedMap.empty]⟩

structure NamesMembers (r : RecorderCore V) : Prop where
  decisions : ∀ slot d, r.decisions.get slot = some d → r.config.contains d.proposer = true
  leaders : ∀ slot l, r.roundOneLeaders.get slot = some (some l) → r.config.contains l = true
  proposals : ∀ slot g, r.slots.get slot = some g → ∀ p ∈ g.proposals, r.config.contains p.key.proposerId = true

theorem namesMembers_iff (r : RecorderCore V) :
    r.NamesMembers ↔ ∀ id ∈ r.retainedReplicas, r.config.contains id = true := by
  rw [retainedReplicas_members]
  constructor
  · intro h
    refine ⟨fun d hd => ?_, fun l hl => ?_, fun g hg => ?_⟩
    · obtain ⟨slot, hget⟩ := (OrderedMap.mem_values ..).mp hd
      exact h.decisions slot d hget
    · obtain ⟨slot, hget⟩ := (OrderedMap.mem_values ..).mp (List.reduceOption_mem_iff.mp hl)
      exact h.leaders slot l hget
    · obtain ⟨slot, hget⟩ := (OrderedMap.mem_values ..).mp hg
      exact h.proposals slot g hget
  · rintro ⟨hd, hl, hp⟩
    refine ⟨fun slot d hget => ?_, fun slot l hget => ?_, fun slot g hget => ?_⟩
    · exact hd d ((OrderedMap.mem_values ..).mpr ⟨slot, hget⟩)
    · exact hl l (List.reduceOption_mem_iff.mpr ((OrderedMap.mem_values ..).mpr ⟨slot, hget⟩))
    · exact hp g ((OrderedMap.mem_values ..).mpr ⟨slot, hget⟩)

private theorem NamesMembers.learn {d : Decision V} (h : r.NamesMembers) (hl : r.Learns d) :
    NamesMembers { r with decisions := r.decisions.insert d.slot d } := by
  refine { h with decisions := fun slot e he => ?_ }
  rw [OrderedMap.get_insert] at he
  split_ifs at he with hs
  · cases he
    exact hl.proposer
  · exact h.decisions slot e he

private theorem NamesMembers.store {request : RecordRequest V} (h : r.NamesMembers) (ha : r.Admitted request) :
    (r.recorded request).NamesMembers := by
  refine ⟨h.decisions, fun slot l hl => ?_, fun slot g hg p hp => ?_⟩
  · simp only [recorded, OrderedMap.get_orInsert] at hl
    split_ifs at hl with hs
    · cases hget : r.roundOneLeaders.get request.slot with
      | none =>
        rw [hget] at hl
        exact ha.leader l (Option.mem_def.mpr (Option.some.inj hl))
      | some bound =>
        rw [hget] at hl
        cases hl
        exact h.leaders _ l hget
    · exact h.leaders slot l hl
  · simp only [recorded, OrderedMap.get_insert] at hg
    split_ifs at hg with hs
    · cases hg
      rcases IntervalSummaryRegister.mem_proposals_advance hp with rfl | hp
      · exact ha.proposer
      · unfold register at hp
        cases hget : r.slots.get request.slot with
        | none =>
          rw [hget] at hp
          simp [IntervalSummaryRegister.mem_proposals, IntervalSummaryRegister.default] at hp
        | some g =>
          rw [hget] at hp
          exact h.proposals _ g hget p hp
    · exact h.proposals slot g hg p hp

private theorem NamesMembers.prune (h : r.NamesMembers) (slot : SlotIndex) :
    (r.pruneThrough slot).NamesMembers :=
  ⟨fun k d hd => h.decisions k d ((OrderedMap.get_retain ..).mp hd).1,
    fun k l hl => h.leaders k l ((OrderedMap.get_retain ..).mp hl).1,
    fun k g hg => h.proposals k g ((OrderedMap.get_retain ..).mp hg).1⟩

section
variable [DecidableEq V]

theorem Restorable.apply {op : RecorderOp V} (h : r.Restorable config)
    (hop : ∀ change, op ≠ .installMembership change) : (op.apply r).Restorable config := by
  have hnames : (op.apply r).NamesMembers := by
    apply apply_invariant (I := NamesMembers)
    · exact fun _ _ h hl => h.learn hl
    · exact fun _ _ h ha _ => h.store ha
    · exact fun _ slot h => h.prune slot
    · exact fun _ change heq => absurd heq (hop change)
    · exact (namesMembers_iff r).mpr h.members
  exact ⟨(apply_config hop r).trans h.config_eq, sound_apply r op h.sound, (namesMembers_iff _).mp hnames⟩

theorem Restorable.restore (h : r.Restorable config) :
    RecorderCore.restore config r.snapshot = .ok r := by
  obtain ⟨rfl, hsound, hmembers⟩ := h
  exact (restore_snapshot_iff r hsound).mpr hmembers

/-- What passes the checks of `restore` can be restored again after it is saved. -/
theorem restorable_of_restore {s : RecorderSnapshot V} (h : RecorderCore.restore config s = .ok r) :
    r.Restorable config := by
  have heq := restore_eq h
  simp only [RecorderCore.restore, unit_bind_eq_ok, require_eq_ok, forM_eq_ok, validateDecision_eq_ok] at h
  obtain ⟨_, hslotCount, hdecisionCount, hdecisions, hfloor, hkeys, hleaders, hslots, _⟩ := h
  subst heq
  have hregister : ∀ slot g, ((new config).restoreSnapshotState s : RecorderCore V).slots.get slot = some g →
      s.prunedThrough < slot ∧ g.Fits config.limits ∧ ∀ p ∈ g.proposals, config.contains p.key.proposerId = true := by
    intro slot g hg
    simp only [restoreSnapshotState, OrderedMap.get_mapValues, Option.map_eq_some_iff] at hg
    obtain ⟨x, hx, rfl⟩ := hg
    have hvalid := hslots x ((OrderedMap.mem_values ..).mpr ⟨slot, hx⟩)
    rw [← IntervalSummaryRegister.snapshot_restore x, validateIsrSnapshot_eq_ok] at hvalid
    exact ⟨hfloor slot (OrderedMap.mem_keys_of_get hx), hvalid⟩
  have hdecision : ∀ slot d, s.decisions.get slot = some d →
      d.slot = slot ∧ s.prunedThrough < slot ∧ d.Fits config.limits ∧ config.contains d.proposer = true := by
    intro slot d hd
    obtain ⟨⟨hslot, hlive⟩, hfits, hmember⟩ := hdecisions (slot, d) ((OrderedMap.get_eq_some ..).mp hd)
    exact ⟨hslot.symm, hlive, hfits, hmember⟩
  have hnames : NamesMembers ((new config).restoreSnapshotState s : RecorderCore V) := by
    refine ⟨fun slot d hd => (hdecision slot d hd).2.2.2, fun slot l hl => ?_,
      fun slot g hg => (hregister slot g hg).2.2⟩
    exact hleaders l (List.reduceOption_mem_iff.mpr ((OrderedMap.mem_values ..).mpr ⟨slot, hl⟩))
  refine ⟨rfl, ⟨fun slot d hd => ?_, fun slot g hg => ?_, fun slot => ?_, ?_, hdecisionCount⟩,
    (namesMembers_iff _).mp hnames⟩
  · obtain ⟨hslot, hlive, hfits, _⟩ := hdecision slot d hd
    exact ⟨hslot, hlive, hfits⟩
  · exact ⟨(hregister slot g hg).1, (hregister slot g hg).2.1⟩
  · have hmem : (s.roundOneLeaders.get slot).isSome = (s.slots.get slot).isSome := by
      rw [Bool.eq_iff_iff, Option.isSome_iff_exists, Option.isSome_iff_exists, ← OrderedMap.mem_keys,
        ← OrderedMap.mem_keys, hkeys]
    simpa [restoreSnapshotState] using hmem
  · show (s.slots.mapValues _).size ≤ config.limits.maxActiveSlots
    rw [OrderedMap.size_mapValues]
    exact hslotCount

/-- Rolling a failed call back gives the recorder before it. -/
theorem rollback_apply {op : RecorderOp V} (hop : ∀ change, op ≠ .installMembership change) (r : RecorderCore V) :
    (op.apply r).restoreSnapshotState r.snapshot = r := by
  have hsame : (op.apply r).restoreSnapshotState r.snapshot = (new (op.apply r).config).restoreSnapshotState
    r.snapshot := rfl
  rw [hsame, apply_config hop, restoreSnapshotState_snapshot]

end

/-- Replica 1 decides slot 1 and is then removed through a joint epoch. The recorder
of replica 2 keeps that decision and can no longer be restored from its snapshot. -/
theorem restart_fails_after_removal :
    let stable : ClusterIdentity := ⟨[1, 2, 3], 1, 0, none⟩
    let joint : ClusterIdentity := ⟨[1, 2, 3, 4], 1, 1, some ⟨[1, 2, 3], 1, [2, 3, 4]⟩⟩
    let final : ClusterIdentity := ⟨[2, 3, 4], 1, 2, none⟩
    let first : Decision Nat := ⟨1, [10], 1, 4⟩
    let second : Decision Nat := ⟨2, [20], 2, 4⟩
    let r := run RecorderOp.apply (new ⟨2, stable, RecorderLimits.default⟩)
      [.informDecision first, .installMembership ⟨first, joint, 10⟩,
        .informDecision second, .installMembership ⟨second, final, 20⟩]
    r.config.cluster = final ∧ restore r.config r.snapshot = .error (.invalidSender 1) := by
  decide +kernel

end RecorderCore
end QuePaxa
