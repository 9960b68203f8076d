import QuePaxa.Core.ReplicaFrontier
import QuePaxa.Runtime.Process
import QuePaxa.Runtime.ScheduleSpec

/-! A runtime rebuilt from its own snapshot. The checks on restart hold in every reachable
state, except that retained decisions are checked against the current voters, and that a
committed last slot stops the replica. -/
namespace QuePaxa
open Library
variable {V : Type}
variable {r : ReplicaRuntime V} {replica : ReplicaCore V} {d : Decision V}

namespace ReplicaRuntime

/-- What the checks on restart need, short of the voters of retained decisions. -/
structure Restartable (r : ReplicaRuntime V) : Prop where
  limits : r.replica.config = r.config.replica
  replica : r.replica.Sound
  tuner : r.tuner.Serves r.config
  recorders : r.recorders.Nodup ∧ r.recorders.toFinset = r.config.members.toFinset
  decisions : ∀ slot d, r.decisions.get slot = some d →
    d.slot = slot ∧ d.valueIds ≠ [] ∧ d.valueIds.Nodup ∧ r.replica.Claimed slot
  executed : ∀ slot ∈ r.executed, slot ∈ r.decisions.keys
  notified : r.notified ⊆ r.executed
  announced : ∀ slot recipients, r.announcedTo.get slot = some recipients →
    slot ∈ r.decisions.keys ∧ recipients ⊆ r.config.members.toFinset
  pending : r.replica.Jammed ∨ ∀ slot values, r.armedValues.get slot = some values →
    r.replica.Undecided slot ∧ r.decisions.get slot = none

/-- With the pipeline untouched, only the bookkeeping is to be checked. -/
theorem Restartable.frame {r' : ReplicaRuntime V} (h : r.Restartable) (hsame : SamePipeline r r')
    (htuner : r'.tuner.Serves r.config) (hexecuted : ∀ slot ∈ r'.executed, slot ∈ r.decisions.keys)
    (hnotified : r'.notified ⊆ r'.executed) (hannounced : ∀ slot recipients, r'.announcedTo.get slot = some recipients →
      slot ∈ r.decisions.keys ∧ recipients ⊆ r.config.members.toFinset) : r'.Restartable := by
  constructor
  · rw [hsame.replica, hsame.config]
    exact h.limits
  · rw [hsame.replica]
    exact h.replica
  · rw [hsame.config]
    exact htuner
  · rw [hsame.recorders, hsame.config]
    exact h.recorders
  · rw [hsame.decisions, hsame.replica]
    exact h.decisions
  · rw [hsame.decisions]
    exact hexecuted
  · exact hnotified
  · rw [hsame.decisions, hsame.config]
    exact hannounced
  · rw [hsame.replica, hsame.armedValues, hsame.decisions]
    exact h.pending

private theorem Restartable.retained (h : r.Restartable) (hd : r.Retains d) :
    d.slot ∈ r.decisions.keys := by
  obtain ⟨slot, hget, _⟩ := hd
  rw [(h.decisions slot d hget).1]
  exact OrderedMap.mem_keys_of_get hget

private theorem Restartable.quiet {env : Environment V} {r' : ReplicaRuntime V} (h : r.Restartable)
    (hq : Quiet env r r') :
    r'.Restartable := by
  have hsame := hq.samePipeline
  cases hq with
  | @counted d _ =>
    exact h.frame hsame ((EpochTuner.keeps_noteCommitted r.config _ _).after h.tuner) h.executed h.notified h.announced
  | scheduled epoch =>
    exact h.frame hsame ((EpochTuner.keeps_ensureSchedule r.config epoch).after h.tuner) h.executed h.notified
      h.announced
  | executed turn =>
    refine h.frame hsame h.tuner ?_ (h.notified.trans (Finset.subset_insert ..)) h.announced
    intro slot hslot
    rcases Finset.mem_insert.mp hslot with rfl | hslot
    · exact h.retained turn.retains
    · exact h.executed slot hslot
  | notified _ done =>
    exact h.frame hsame h.tuner h.executed (Finset.insert_subset done h.notified) h.announced
  | @acknowledged slot d recorder decision known =>
    refine h.frame hsame h.tuner h.executed h.notified ?_
    intro k recipients hget
    rw [OrderedMap.get_insert] at hget
    split_ifs at hget with hk
    · cases hget
      have hmember : recorder ∈ r.config.members.toFinset := h.recorders.2 ▸ List.mem_toFinset.mpr known
      refine ⟨hk ▸ OrderedMap.mem_keys_of_get decision, Finset.insert_subset hmember ?_⟩
      cases hold : r.announcedTo.get slot with
      | none => exact Finset.empty_subset _
      | some old => exact (h.announced slot old hold).2
    · exact h.announced k recipients hget
  | _ => exact h.frame hsame h.tuner h.executed h.notified h.announced

/-- A replica that has moved on, with the pending slots still undecided. -/
theorem Restartable.later (h : r.Restartable) (hlater : r.replica.Later replica)
    (hpending : replica.Jammed ∨ ∀ slot, r.replica.Undecided slot → replica.Undecided slot) :
    { r with replica }.Restartable := by
  refine ⟨hlater.config.trans h.limits, hlater.sound, h.tuner, h.recorders, ?_, h.executed, h.notified, h.announced, ?_⟩
  · intro slot d hget
    obtain ⟨hslot, hne, hnodup, hclaimed⟩ := h.decisions slot d hget
    exact ⟨hslot, hne, hnodup, hlater.claimed slot hclaimed⟩
  · rcases hpending with hjam | hopen
    · exact .inl hjam
    · rcases h.pending with hjam | hpend
      · exact .inl (hlater.jammed hjam)
      · exact .inr fun slot values hget => ⟨hopen slot (hpend slot values hget).1, (hpend slot values hget).2⟩

private theorem Restartable.reconfigured {change : MembershipChange V} {next : List ReplicaId}
    (h : r.Restartable) (hnext : validateRecordersForCluster change.next next = .ok ()) (event : Event V) :
    ((r.reconfigured change next).log event).Restartable := by
  simp only [validateRecordersForCluster, unit_bind_eq_ok, require_eq_ok] at hnext
  refine ⟨h.limits, h.replica, ?_, hnext, h.decisions, h.executed, h.notified, ?_, h.pending⟩
  · exact ⟨h.tuner.epochSize, rfl, h.tuner.auto, by simp [ReplicaRuntime.reconfigured, log, EpochTuner.reconfigure],
      by simp [ReplicaRuntime.reconfigured, log, EpochTuner.reconfigure]⟩
  · intro slot recipients hget
    simp only [ReplicaRuntime.reconfigured, log, OrderedMap.get_mapValues] at hget
    cases hold : r.announcedTo.get slot with
    | none => rw [hold] at hget; cases hget
    | some old =>
      rw [hold] at hget
      cases hget
      exact ⟨(h.announced slot old hold).1, Finset.inter_subset_right⟩

structure Rebuilt (r r' : ReplicaRuntime V) : Prop where
  config : r'.config = r.config
  replica : r'.replica = r.replica
  decisions : r'.decisions = r.decisions
  armedValues : r'.armedValues = r.armedValues
  executed : r'.executed = r.executed
  notified : r'.notified = r.notified
  announcedTo : r'.announcedTo = r.announcedTo
  schedules : r'.tuner.schedules = r.tuner.schedules
  stats : r'.tuner.stats = r.tuner.stats
  statsThrough : r'.tuner.statsThrough = r.tuner.statsThrough

def resumed (r : ReplicaRuntime V) (proposer : ProposerCore) (trace : List (Event V)) : ReplicaRuntime V :=
  { r with
    proposer := proposer.withCluster r.config.cluster
    pending := r.pending.mapValues fun p => .armed p.valueIds
    noopValue := none
    hedgeDelay := HedgeDelayTuner.new r.config.baseHedgeDelay r.config.adaptiveHedging
    trace }

theorem rebuilt_resumed (r : ReplicaRuntime V) (proposer : ProposerCore) (trace : List (Event V)) :
    Rebuilt r (r.resumed proposer trace) :=
  ⟨rfl, rfl,
    rfl, by simp only [armedValues, resumed, OrderedMap.mapValues_mapValues]; rfl, rfl, rfl, rfl, rfl, rfl, rfl⟩

theorem validateRecorders_eq_ok {config : ReplicaRuntimeConfig} {recorders : List ReplicaId} {u : Unit} :
    validateRecorders config recorders = .ok u ↔ recorders.Nodup ∧ recorders.toFinset = config.members.toFinset := by
  simp only [validateRecorders]
  cases hdup : duplicateOf recorders with
  | none => simp only [require_eq_ok, duplicateOf_eq_none.mp hdup, true_and]
  | some r =>
    have hnot : ¬recorders.Nodup := by
      intro hnodup
      rw [duplicateOf_eq_none.mpr hnodup] at hdup
      cases hdup
    simp only [hnot, false_and, reduceCtorEq]

private theorem Restartable.resumed (h : r.Restartable) (proposer : ProposerCore)
    (trace : List (Event V)) : (r.resumed proposer trace).Restartable := by
  refine ⟨h.limits, h.replica, h.tuner, h.recorders, h.decisions, h.executed, h.notified, h.announced, ?_⟩
  rw [(rebuilt_resumed r proposer trace).armedValues]
  exact h.pending

private theorem jammed_iff {s : ReplicaSnapshot V} :
    ¬s.Jammed ↔ ∀ e, s.log.get u64Max = some e → e.committed = false := by
  rw [ReplicaSnapshot.Jammed]
  cases s.log.get u64Max <;> simp

section
variable [DecidableEq V]

theorem validateDecision_eq_ok {u : Unit} :
    r.validateDecision d = .ok u ↔ d.valueIds ≠ [] ∧ d.proposer ∈ r.config.members ∧ d.valueIds.Nodup := by
  simp only [validateDecision, unit_bind_eq_ok, require_eq_ok, ClusterIdentity.contains, decide_eq_true_eq]
  rfl

private theorem Restartable.decided {ds : List (Decision V)}
    (h : r.Restartable) (hfresh : r.Fresh d) (happly : ReplicaCore.applyDecision d r.replica = .ok ds replica) :
    (retainDecision { r with replica } d).Restartable := by
  have hlater := ReplicaCore.later_applyDecision h.replica d
  rw [after_ok happly] at hlater
  obtain ⟨hclaimed, hopen⟩ := ReplicaCore.applyDecision_ok h.replica happly
  obtain ⟨hne, _, hnodup⟩ := validateDecision_eq_ok.mp hfresh.valid
  have hkeys : ∀ slot ∈ r.decisions.keys, slot ∈ (r.decisions.insert d.slot d).keys := by
    intro slot hslot
    rw [← List.mem_toFinset, OrderedMap.toFinset_keys_insert]
    exact Finset.mem_insert_of_mem (List.mem_toFinset.mpr hslot)
  refine ⟨hlater.config.trans h.limits, hlater.sound, h.tuner, h.recorders, ?_,
    fun slot hs => hkeys slot (h.executed slot hs),
    h.notified, ?_, ?_⟩
  · intro slot d' hget
    simp only [retainDecision, OrderedMap.get_insert] at hget
    split_ifs at hget with hslot
    · cases hget
      exact ⟨hslot.symm, hne, hnodup, hslot ▸ hclaimed⟩
    · obtain ⟨hs, hne', hnodup', hclaimed'⟩ := h.decisions slot d' hget
      exact ⟨hs, hne', hnodup', hlater.claimed slot hclaimed'⟩
  · intro slot recipients hget
    simp only [retainDecision, OrderedMap.get_orInsert] at hget
    split_ifs at hget with hslot
    · cases hget
      refine ⟨hslot ▸ OrderedMap.mem_keys_of_get (OrderedMap.get_insert_self ..), ?_⟩
      cases hold : r.announcedTo.get d.slot with
      | none => exact Finset.empty_subset _
      | some old => exact (h.announced d.slot old hold).2
    · obtain ⟨hkey, hsub⟩ := h.announced slot recipients hget
      exact ⟨hkeys slot hkey, hsub⟩
  · rcases h.pending with hjam | hpend
    · exact .inl (hlater.jammed hjam)
    · right
      intro slot values hget
      rw [armedValues_retainDecision, OrderedMap.get_erase] at hget
      split_ifs at hget with hslot
      obtain ⟨hundecided, hnone⟩ := hpend slot values hget
      refine ⟨hopen slot hslot hundecided, ?_⟩
      simp only [retainDecision, OrderedMap.get_insert, if_neg hslot]
      exact hnone

private theorem Restartable.refused {e : QuePaxaError}
    (h : r.Restartable) (happly : ReplicaCore.applyDecision d r.replica = .error e replica) :
    { r with replica }.Restartable := by
  have hlater := ReplicaCore.later_applyDecision h.replica d
  rw [after_error happly] at hlater
  rcases ReplicaCore.applyDecision_error h.replica happly with rfl | hjam
  · exact h
  · exact h.later hlater (.inl hjam)

private theorem Restartable.pruned (h : r.Restartable) (slot : SlotIndex) :
    (r.pruned slot).Restartable := by
  have hlater : r.replica.Later (r.replica.pruneThrough slot) := (ReplicaCore.Later.refl h.replica).change (.prune slot)
  have hrest := h.later hlater (.inr fun k hk => ReplicaCore.undecided_prune hk slot)
  have hkept : ∀ k, slot < k → k ∈ r.decisions.keys → k ∈ (r.pruned slot).decisions.keys := by
    intro k hk hkey
    obtain ⟨d, hget⟩ := (OrderedMap.mem_keys ..).mp hkey
    exact OrderedMap.mem_keys_of_get ((OrderedMap.get_retain ..).mpr ⟨hget, decide_eq_true hk⟩)
  refine ⟨hrest.limits, hrest.replica, h.tuner, h.recorders, ?_, ?_, Finset.filter_subset_filter _ h.notified, ?_, ?_⟩
  · exact fun k d hget => hrest.decisions k d ((OrderedMap.get_retain ..).mp hget).1
  · intro k hk
    obtain ⟨hmem, hlt⟩ := Finset.mem_filter.mp hk
    exact hkept k hlt (h.executed k hmem)
  · intro k recipients hget
    obtain ⟨hold, hlt⟩ := (OrderedMap.get_retain ..).mp hget
    obtain ⟨hkey, hsub⟩ := h.announced k recipients hold
    exact ⟨hkept k (of_decide_eq_true hlt) hkey, hsub⟩
  · rcases hrest.pending with hjam | hpend
    · exact .inl hjam
    · right
      intro k values hget
      obtain ⟨hundecided, hnone⟩ := hpend k values hget
      refine ⟨hundecided, ?_⟩
      have hsub := OrderedMap.get_retain_key r.decisions (fun index => slot < index) k
      simp only [ReplicaRuntime.pruned]
      rw [hsub]
      split_ifs
      · exact hnone
      · rfl

private theorem Restartable.move {env : Environment V} {op : RuntimeOp V} {r' : ReplicaRuntime V} (h : r.Restartable)
    (hm : Move env op r r') :
    r'.Restartable := by
  cases hm with
  | quiet hq => exact h.quiet hq
  | @enqueued values =>
    rcases ReplicaCore.enqueue_cases values r.replica with ⟨e, heq⟩ | ⟨fresh, heq, hc⟩
    · rw [after_error heq]
      exact h
    · rw [after_ok heq]
      exact h.later ((ReplicaCore.Later.refl h.replica).change hc) (.inr fun slot hs => ⟨hs.ahead, hs.isOpen⟩)
  | decided _ fresh applied => exact h.decided fresh applied
  | refused _ _ applied => exact h.refused applied
  | @scheduleInstalled schedule _ valid =>
    simp only [validateSchedule, unit_bind_eq_ok, require_eq_ok] at valid
    exact ⟨h.limits, h.replica, h.tuner.install ⟨rfl, valid.1, valid.2⟩, h.recorders, h.decisions, h.executed,
      h.notified,
      h.announced, h.pending⟩
  | pruned => exact h.pruned _
  | reconnected _ _ valid =>
    simp only [validateRecordersForCluster, unit_bind_eq_ok, require_eq_ok] at valid
    exact ⟨h.limits, h.replica, h.tuner, valid, h.decisions, h.executed, h.notified, h.announced, h.pending⟩
  | reconfigured _ anchored => exact h.reconfigured anchored.recorders _
  | exported | reconfigureFailed =>
    exact ⟨h.limits, h.replica, h.tuner, h.recorders, h.decisions, h.executed, h.notified, h.announced, h.pending⟩

private theorem Restartable.arming {r' : ReplicaRuntime V} (h : r.Restartable) (ha : Arming r r') : r'.Restartable := by
  have hdrained (n : Nat) : r.replica.Later { r.replica with pending := r.replica.pending.drop n } :=
    (ReplicaCore.Later.refl h.replica).change (.drain n)
  cases ha with
  | lost n => exact h.later (hdrained n) (.inr fun slot hs => ⟨hs.ahead, hs.isOpen⟩)
  | @armed slot values n isOpen admitted =>
    have hlater := (hdrained n).change (.propose admitted)
    have hproposed : ∀ k, r.replica.Undecided k →
        (ReplicaCore.proposed { r.replica with pending := r.replica.pending.drop n } slot values).Undecided k :=
      fun k hk => ReplicaCore.undecided_proposed (r := { r.replica with pending := r.replica.pending.drop n })
        ⟨hk.ahead, hk.isOpen⟩ slot values
    have hrest := h.later hlater (.inr hproposed)
    refine ⟨hrest.limits, hrest.replica, h.tuner, h.recorders, hrest.decisions, h.executed, h.notified, h.announced, ?_⟩
    by_cases hjam : r.replica.Jammed
    · exact .inl (hlater.jammed hjam)
    right
    rcases h.pending with hjam' | hpend
    · exact absurd hjam' hjam
    intro k values' hget
    rw [armedValues_insert, OrderedMap.get_insert] at hget
    split_ifs at hget with hk
    · refine ⟨hproposed k (hk ▸ ReplicaCore.undecided_of_open h.replica hjam isOpen), ?_⟩
      rw [Option.eq_none_iff_forall_ne_some]
      intro d hd
      exact isOpen (hk ▸ (h.decisions k d hd).2.2.2)
    · exact ⟨hproposed k (hpend k values' hget).1, (hpend k values' hget).2⟩

private theorem restartable_new {config : ReplicaRuntimeConfig} {proposer : ProposerCore} {recorders : List ReplicaId}
    {trace : List (Event V)} (h : new config proposer recorders none trace = .ok r) :
    r.Restartable := by
  simp only [new, rebuild, except_bind_eq_ok] at h
  obtain ⟨_, hrecorders, _, _, r', hbuild, _, _, hr⟩ := h
  obtain rfl := Except.ok.inj hr
  obtain rfl := Except.ok.inj hbuild
  exact ⟨rfl, ReplicaCore.sound_new _, EpochTuner.serves_new config,
    validateRecorders_eq_ok.mp hrecorders, by simp, by simp,
    Finset.Subset.refl _, by simp, .inr (by simp [armedValues])⟩

private theorem validateRestoredState_iff (h : r.Restartable) (hjam : ¬r.replica.Jammed) {u : Unit} :
    r.validateRestoredState = .ok u ↔ ∀ slot d, r.decisions.get slot = some d → d.proposer ∈ r.config.members := by
  have hpend := h.pending.resolve_left hjam
  simp only [validateRestoredState, unit_bind_eq_ok, forM_eq_ok, require_eq_ok, validateDecision_eq_ok]
  constructor
  · rintro ⟨_, hdecisions, _⟩ slot d hget
    exact (hdecisions d ((OrderedMap.mem_values ..).mpr ⟨slot, hget⟩)).2.1
  · intro hvoters
    have hexecuted : r.executed ⊆ r.decisions.keys.toFinset := fun slot hs => List.mem_toFinset.mpr (h.executed slot hs)
    refine ⟨?_, ?_, ?_, ⟨hexecuted, h.notified.trans hexecuted, h.notified⟩, ?_⟩
    · intro schedule hs
      obtain ⟨epoch, hget⟩ := (OrderedMap.mem_values ..).mp hs
      have hfits := h.tuner.schedules epoch schedule hget
      simp only [validateSchedule, unit_bind_eq_ok, require_eq_ok]
      exact ⟨hfits.nodup, hfits.members⟩
    · intro d hd
      obtain ⟨slot, hget⟩ := (OrderedMap.mem_values ..).mp hd
      obtain ⟨_, hne, hnodup, _⟩ := h.decisions slot d hget
      exact ⟨hne, hvoters slot d hget, hnodup⟩
    · intro slot hs
      obtain ⟨p, hget⟩ := (OrderedMap.mem_keys ..).mp hs
      obtain ⟨hundecided, hnone⟩ := hpend slot p.valueIds (get_armedValues hget)
      refine ⟨by simp only [OrderedMap.contains, hnone, Option.isSome_none], ?_⟩
      exact (Nat.sub_lt (Nat.zero_lt_of_lt h.replica.frontier) Nat.one_pos).trans_le hundecided.ahead
    · intro e he
      have hentry := h.announced e.1 e.2 ((OrderedMap.get_eq_some ..).mpr he)
      exact hentry

private theorem new_of_restartable (h : r.Restartable) {proposer : ProposerCore}
    (hproposer : proposer.replicaId = r.config.replicaId ∧ proposer.laneId = r.config.laneId) (trace : List (Event V)) :
    (∃ r', new r.config proposer r.recorders (some r.runtimeSnapshot) trace = .ok r' ∧ Rebuilt r r') ↔
      (∀ slot d, r.decisions.get slot = some d → d.proposer ∈ r.config.members) ∧
      ∀ e, r.replica.log.get u64Max = some e → e.committed = false := by
  have hrestore := ReplicaCore.restore_snapshot_iff h.replica
  rw [h.limits] at hrestore
  have hpending : r.runtimeSnapshot.pending.mapValues (fun p => PendingProposal.armed p.valueIds) =
      r.pending.mapValues fun p => .armed p.valueIds := by
    simp only [runtimeSnapshot, OrderedMap.mapValues_mapValues]
    rfl
  have hbuild : ∀ r', rebuild r.config (proposer.withCluster r.config.cluster) r.recorders trace
    (some r.runtimeSnapshot) =
      .ok r' ↔ (∀ e, r.replica.log.get u64Max = some e → e.committed = false) ∧ r.resumed proposer trace = r' := by
    intro r'
    rw [← hrestore]
    have htuner : EpochTuner.restore r.config.epochSize r.config.members r.config.autoSchedules
      r.runtimeSnapshot.schedules r.runtimeSnapshot.epochStats r.runtimeSnapshot.statsThrough = .ok r.tuner :=
      EpochTuner.restore_serving h.tuner
    have hself : (⟨r.runtimeSnapshot.replica, r.config.replica⟩ : ReplicaCore V) = r.replica := by
      rw [← h.limits]
      rfl
    simp only [rebuild, hpending, require_eq_ok, except_bind_eq_ok, htuner]
    constructor
    · rintro ⟨_, _, replica, hreplica, tuner, htun, hr⟩
      obtain rfl := (ReplicaCore.restore_eq_ok hreplica).trans hself
      obtain rfl := Except.ok.inj htun
      exact ⟨hreplica, Except.ok.inj hr⟩
    · rintro ⟨hreplica, rfl⟩
      exact ⟨(), ⟨rfl, rfl⟩, r.replica, hreplica, r.tuner, rfl, rfl⟩
  simp only [new, except_bind_eq_ok, require_eq_ok, validateRecorders_eq_ok, hbuild]
  constructor
  · rintro ⟨r', ⟨_, _, _, _, r'', ⟨hopen, rfl⟩, _, hvalid, hr⟩, _⟩
    exact ⟨(validateRestoredState_iff (h.resumed proposer trace) (jammed_iff.mpr hopen)).mp hvalid, hopen⟩
  · rintro ⟨hvoters, hopen⟩
    have hvalid := (validateRestoredState_iff (h.resumed proposer trace) (jammed_iff.mpr hopen) (u := ())).mpr hvoters
    exact ⟨r.resumed proposer trace, ⟨(), h.recorders, (), hproposer, _, ⟨hopen, rfl⟩, (), hvalid, rfl⟩,
      rebuilt_resumed r proposer trace⟩

/-- A runtime that was started on an empty store and given any calls can be rebuilt from its
snapshot exactly when its current voters proposed all it retains and the last slot is open. -/
theorem restart_iff_decided_by_voters (env : Environment V) {config : ReplicaRuntimeConfig} {proposer : ProposerCore}
    {recorders : List ReplicaId} {start : ReplicaRuntime V} (hstart : new config proposer recorders none [] = .ok start)
    (noop : Option V) (ops : List (RuntimeOp V)) (proposer' : ProposerCore) (trace : List (Event V)) :
    let r := run (fun r op => after (perform env op) r) { start with noopValue := noop } ops
    proposer'.replicaId = r.config.replicaId ∧ proposer'.laneId = r.config.laneId →
    ((∃ r', new r.config proposer' r.recorders (some r.runtimeSnapshot) trace = .ok r' ∧ Rebuilt r r') ↔
      (∀ slot d, r.decisions.get slot = some d → d.proposer ∈ r.config.members) ∧
      ∀ e, r.replica.log.get u64Max = some e → e.committed = false) := by
  intro r hproposer
  have hnew := restartable_new hstart
  have hstart' : ({ start with noopValue := noop } : ReplicaRuntime V).Restartable :=
    ⟨hnew.limits, hnew.replica, hnew.tuner, hnew.recorders, hnew.decisions, hnew.executed, hnew.notified,
      hnew.announced,
      hnew.pending⟩
  have hstep : ∀ (s : ReplicaRuntime V) (op : RuntimeOp V), s.Restartable → (after (perform env op) s).Restartable :=
    fun s op hs => (keeps_every_call (fun _ _ => Restartable.move) fun _ _ _ => Restartable.arming).after hs
  exact new_of_restartable (run_invariant_all hstep hstart' ops) hproposer trace

end

/-! Replica 2 learns slot 1 from replica 1, which then leaves through a joint epoch. The
decision is still retained, and its proposer is not a voter any more. -/

def replicaTwo : ReplicaRuntimeConfig :=
  ⟨2, 0, ⟨[1, 2, 3], 1, 0, none⟩, ReplicaConfig.default, 100, 0, true, none⟩

def enterJoint : List (RuntimeOp Nat) :=
  [.receiveDecision ⟨1, [10], 1, 4⟩,
    .installMembership ⟨⟨1, [10], 1, 4⟩, ⟨[1, 2, 3, 4], 1, 1, some ⟨[1, 2, 3], 1, [2, 3, 4]⟩⟩, 10⟩ [1, 2, 3, 4]]

def leaveJoint : List (RuntimeOp Nat) :=
  [.receiveDecision ⟨2, [20], 2, 4⟩, .installMembership ⟨⟨2, [20], 2, 4⟩, ⟨[2, 3, 4], 1, 2, none⟩, 20⟩ [2, 3, 4]]

def bootedTwo : ReplicaRuntime Nat where
  config := replicaTwo
  replica := ReplicaCore.new replicaTwo.replica
  proposer := ProposerCore.withCluster ⟨2, 0, ProposerConfig.default⟩ replicaTwo.cluster
  recorders := [1, 2, 3]
  decisions := ∅
  tuner := EpochTuner.new 100 [1, 2, 3] true
  pending := ∅
  executed := ∅
  notified := ∅
  announcedTo := ∅
  noopValue := none
  hedgeDelay := HedgeDelayTuner.new 0 none
  trace := []

theorem restart_fails_after_voter_left :
    new replicaTwo ⟨2, 0, ProposerConfig.default⟩ [1, 2, 3] none [] = .ok bootedTwo ∧
      let r := run (fun r op => after (perform .obliging op) r) bootedTwo (enterJoint ++ leaveJoint)
      r.config.cluster = ⟨[2, 3, 4], 1, 2, none⟩ ∧
        new r.config ⟨2, 0, ProposerConfig.default⟩ r.recorders (some r.runtimeSnapshot) [] =
          .error (.invalidSender 1) := by
  decide +kernel

def jointTwo : ReplicaRuntime Nat :=
  run (fun r op => after (perform .obliging op) r) { bootedTwo with noopValue := none } enterJoint

theorem restart_iff_decided_by_voters_joint :
    jointTwo.config.cluster.members = [1, 2, 3, 4] ∧ ∃ r', new jointTwo.config ⟨2, 0, ProposerConfig.default⟩
      jointTwo.recorders (some jointTwo.runtimeSnapshot) [] = .ok r' ∧ Rebuilt jointTwo r' := by
  have hstart : new replicaTwo ⟨2, 0, ProposerConfig.default⟩ [1, 2, 3] none [] = .ok bootedTwo := by decide +kernel
  have hfacts : jointTwo.config.cluster.members = [1, 2, 3, 4] ∧
      (2 = jointTwo.config.replicaId ∧ 0 = jointTwo.config.laneId) ∧
      (∀ e ∈ jointTwo.decisions.entries, e.2.proposer ∈ jointTwo.config.members) ∧
      jointTwo.replica.log.get u64Max = none := by decide +kernel
  have hiff := restart_iff_decided_by_voters .obliging hstart none enterJoint ⟨2, 0, ProposerConfig.default⟩ []
  dsimp only at hiff
  rw [jointTwo] at hfacts ⊢
  generalize run (fun r op => after (perform .obliging op) r) { bootedTwo with noopValue := none } enterJoint = r
    at hfacts hiff ⊢
  obtain ⟨hmembers, hids, hvoters, hopen⟩ := hfacts
  refine ⟨hmembers, (hiff hids).mpr ⟨?_, ?_⟩⟩
  · exact fun slot d hget => hvoters (slot, d) ((OrderedMap.get_eq_some ..).mp hget)
  · intro e hget
    rw [hopen] at hget
    cases hget

end ReplicaRuntime
end QuePaxa
