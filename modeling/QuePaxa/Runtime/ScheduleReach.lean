import QuePaxa.Runtime.Deployment
import QuePaxa.Runtime.ScheduleAgreement
import QuePaxa.Runtime.Settled

/-! How far ahead an automatic runtime arms its slots. The scan for an open slot passes over
slots that were decided elsewhere, and these do not count against the pipeline; a schedule
is derived from what was counted two epochs before, except in the warm-up epochs. The two fit
together as long as the farthest slot that could be armed has such a schedule. -/
namespace QuePaxa
open Library
variable {V : Type}
variable {config : ReplicaRuntimeConfig}

/-! ### The distance to the next open slot -/

/-- The slots from the frontier on that were decided without an own proposal. -/
def ReplicaSnapshot.remoteAhead (s : ReplicaSnapshot V) : Nat :=
  (s.log.retain fun slot entry => s.nextCommit ≤ slot && entry.decision.isSome && entry.proposed.isEmpty).size

namespace ReplicaCore
variable {r : ReplicaCore V} {slot : SlotIndex}

/-- What lies between the frontier and the next open slot is in flight or was decided elsewhere. -/
theorem TakenUpTo.le (h : r.TakenUpTo slot) (hr : r.Ordered) :
    slot ≤ r.nextCommit + (r.inflightCount + r.remoteAhead) := by
  let inflight := r.log.entries.filter fun e => r.nextCommit ≤ e.1 && !e.2.committed && !e.2.proposed.isEmpty
  let remote := r.log.retain fun slot entry => r.nextCommit ≤ slot && entry.decision.isSome && entry.proposed.isEmpty
  have hcover : Finset.Ico r.nextCommit slot ⊆ (inflight.map Prod.fst).toFinset ∪ remote.keys.toFinset := by
    intro k hk
    obtain ⟨hlo, hhi⟩ := Finset.mem_Ico.mp hk
    obtain ⟨hlast, htaken⟩ := h.below k hlo hhi
    obtain ⟨entry, hget, htaken⟩ := (Option.any_eq_true _ _).mp htaken
    rw [Finset.mem_union, List.mem_toFinset, List.mem_toFinset]
    by_cases hown : entry.proposed.isEmpty = true
    · right
      have hdecided : entry.decision.isSome = true := by simpa [LogSlot.taken, hown] using htaken
      exact OrderedMap.mem_keys_of_get ((OrderedMap.get_retain ..).mpr ⟨hget, by simp [hlo, hdecided, hown]⟩)
    · left
      have hfresh : entry.committed = false := by
        by_contra hdone
        have hcommitted : r.isCommitted k = true := by
          rw [ReplicaSnapshot.isCommitted, hget]
          exact Bool.eq_true_of_not_eq_false hdone
        have hgenesis : k ≠ SlotIndex.genesis := Nat.ne_of_gt ((Nat.zero_lt_of_lt hr.frontier).trans_le hlo)
        exact absurd (hr.future k hgenesis hlo hcommitted) hlast.ne
      have hentry := (OrderedMap.get_eq_some ..).mp hget
      exact List.mem_map.mpr ⟨(k, entry), List.mem_filter.mpr ⟨hentry, by simp [hlo, hfresh, hown]⟩, rfl⟩
  have hinflight : (inflight.map Prod.fst).toFinset.card ≤ r.inflightCount := by
    refine (List.toFinset_card_le _).trans ?_
    rw [List.length_map, inflightCount, List.countP_eq_length_filter]
  have hremote : remote.keys.toFinset.card = r.remoteAhead := (OrderedMap.size_eq_card _).symm
  have hcard := (Finset.card_le_card hcover).trans (Finset.card_union_le ..)
  rw [Nat.card_Ico, hremote] at hcard
  have hsum := hcard.trans (Nat.add_le_add_right hinflight _)
  lia

/-- An own proposal in an open slot is not one of the slots decided elsewhere. -/
theorem remoteAhead_proposed [DecidableEq V] (hopen : (r.log.get slot).any (·.taken) = false) {values : List V}
    (hne : values ≠ []) :
    (r.proposed slot values).remoteAhead = r.remoteAhead := by
  refine congrArg OrderedMap.size (OrderedMap.ext_get fun k => ?_)
  apply Option.ext
  intro entry
  simp only [OrderedMap.get_retain, proposed, OrderedMap.get_insert]
  by_cases hk : k = slot
  · rw [hk]
    simp only [if_true]
    constructor
    · rintro ⟨heq, hkeep⟩
      cases heq
      simp [hne] at hkeep
    · rintro ⟨hget, hkeep⟩
      rw [hget] at hopen
      simp only [Bool.and_eq_true] at hkeep
      simp [LogSlot.taken, hkeep.1.2] at hopen
  · simp only [if_neg hk]
    exact Iff.rfl

end ReplicaCore

/-! ### Schedules that can be derived -/

namespace EpochSchedule

theorem new_ok {epoch : Nat} {proposers : List ReplicaId} (hne : proposers ≠ []) (hnodup : proposers.Nodup) :
    EpochSchedule.new epoch proposers = .ok ⟨epoch, proposers⟩ := by
  simp only [EpochSchedule.new, if_neg hne, duplicateOf_eq_none.mpr hnodup]

private theorem never_new (m : String) (epoch : Nat) (proposers : List ReplicaId) :
    Never (.policyError m) (EpochSchedule.new epoch proposers) := by
  unfold EpochSchedule.new
  split
  · exact Never.error nofun
  · split
    · exact Never.error nofun
    · exact Never.ok _

end EpochSchedule

namespace EpochTuner
variable {t : EpochTuner} {epoch : Nat}

private theorem not_behind (hwarm : ¬epoch < 2 * t.members.length + 1) (hsmall : ¬epoch < 2) (h : t.HasHistory epoch) :
    (epoch - 2 + 1) * t.epochSize = (epoch - 1) * t.epochSize ∧ ¬t.statsThrough < (epoch - 1) * t.epochSize - 1 := by
  have hwindow : epoch - 2 + 1 = epoch - 1 := by omega
  rw [hwindow]
  exact ⟨rfl, not_lt.mpr (Nat.sub_le_of_le_add (h.resolve_left hwarm))⟩

theorem derive_ok (hmem : t.members ≠ []) (hnodup : t.members.Nodup) (h : t.HasHistory epoch)
    (hbound : t.statsThrough < u64Max) : ∃ s, t.derive epoch = .ok s := by
  have hempty : ¬t.members.length = 0 := fun hlen => hmem (List.eq_nil_of_length_eq_zero hlen)
  have hranked : ∀ windowEnd, t.ranked windowEnd ≠ [] ∧ (t.ranked windowEnd).Nodup := by
    intro windowEnd
    have hperm : (t.ranked windowEnd).Perm t.members := List.perm_insertionSort ..
    exact ⟨fun hnil => hmem (List.nil_perm.mp (hnil ▸ hperm)), hperm.nodup_iff.mpr hnodup⟩
  unfold derive
  by_cases hwarm : epoch < 2 * t.members.length + 1
  · rw [if_pos hwarm, if_neg hempty]
    have hperm : (rotated t.members (epoch % t.members.length)).Perm t.members := by
      rw [rotated]
      exact List.perm_append_comm.trans (List.Perm.of_eq (List.take_append_drop ..))
    exact ⟨_, EpochSchedule.new_ok (fun hnil => hmem (List.nil_perm.mp (hnil ▸ hperm))) (hperm.nodup_iff.mpr hnodup)⟩
  · have hsmall : ¬epoch < 2 := by omega
    obtain ⟨hwindow, hbehind⟩ := not_behind hwarm hsmall h
    have hfits : (epoch - 1) * t.epochSize ≤ u64Max := (h.resolve_left hwarm).trans hbound
    simp only [if_neg hwarm, if_neg hsmall, hwindow, if_neg (not_lt.mpr hfits), if_neg hbehind, if_neg hempty]
    split_ifs
    · refine ⟨_, EpochSchedule.new_ok (List.cons_ne_nil _ _) (List.nodup_cons.mpr ⟨?_, (hranked _).2.erase _⟩)⟩
      exact (hranked _).2.not_mem_erase
    · exact ⟨_, EpochSchedule.new_ok (hranked _).1 (hranked _).2⟩

private theorem never_derive (m : String) (h : t.HasHistory epoch) : Never (.policyError m) (t.derive epoch) := by
  unfold derive
  by_cases hwarm : epoch < 2 * t.members.length + 1
  · simp only [if_pos hwarm]
    split_ifs
    · exact Never.error nofun
    · exact EpochSchedule.never_new m _ _
  by_cases hsmall : epoch < 2
  · simp only [if_neg hwarm, if_pos hsmall]
    exact Never.error nofun
  obtain ⟨hwindow, hbehind⟩ := not_behind hwarm hsmall h
  simp only [if_neg hwarm, if_neg hsmall, hwindow, if_neg hbehind]
  split_ifs
  · exact Never.error nofun
  · exact Never.error nofun
  · exact EpochSchedule.never_new m _ _
  · exact EpochSchedule.never_new m _ _

theorem never_ensureSchedule (m : String) (hauto : t.auto = true) (h : t.HasHistory epoch) :
    Never (.policyError m) (result (ensureSchedule epoch) t) := by
  have hnever := never_derive m h
  rw [result, ensureSchedule_apply hauto]
  cases t.schedules.get epoch with
  | some s => exact Never.ok s
  | none =>
    cases hderive : t.derive epoch with
    | ok s => exact Never.ok s
    | error e => rwa [hderive] at hnever

theorem triple_noteCommitted (m : String) {slot : SlotIndex} (hslot : slot ≤ u64Max) (step : Step) :
    Triple (fun t => t.auto = true ∧ slot ≤ t.statsThrough + 1) (noteCommitted slot step)
      (fun _ t => t.auto = true ∧ slot ≤ t.statsThrough) fun e _ => e ≠ .policyError m := by
  rintro t ⟨hauto, hle⟩
  by_cases hold : slot ≤ t.statsThrough
  · have hskip : (!t.auto || slot ≤ t.statsThrough) = true := by simp [hold]
    simp only [noteCommitted, bind_apply, get_apply, if_pos hskip]
    exact ⟨hauto, hold⟩
  · have heq : slot = t.statsThrough + 1 := by lia
    have hnext : some slot = t.statsThrough.checkedNext := (SlotIndex.checkedNext_eq_some.mpr ⟨by lia, heq⟩).symm
    have hnever := never_ensureSchedule m hauto (hasHistory_next rfl)
    rw [← heq] at hnever
    have hasked : (after (ensureSchedule (slot / t.epochSize)) t).auto = true := by
      obtain h | ⟨_, _, _, h⟩ := after_ensureSchedule hauto (slot / t.epochSize) <;> rw [h] <;> exact hauto
    rw [noteCommitted_next hauto hnext]
    simp only [result] at hnever
    cases hask : ensureSchedule (slot / t.epochSize) t with
    | error e t' =>
      rw [hask] at hnever
      exact fun h => hnever (congrArg _ h)
    | ok s t' =>
      rw [after_ok hask] at hasked
      simp only
      cases hleader : s.leader with
      | ok leader => simpa using hasked
      | error e =>
        unfold EpochSchedule.leader at hleader
        split at hleader
        · cases hleader
        · cases hleader
          intro hpolicy
          cases hpolicy

end EpochTuner

/-! ### Slots within reach over whole runs -/

namespace ReplicaRuntimeConfig

structure Automatic (config : ReplicaRuntimeConfig) : Prop where
  auto : config.autoSchedules = true
  epochSize : 0 < config.epochSize
  pipelineLen : 0 < config.replica.pipelineLen
  members : config.members.Nodup

private theorem Constructed.limits (h : config.Constructed) :
    config.epochSize ≠ 0 ∧ config.replica.pipelineLen ≠ 0 := by
  induction h with
  | new built =>
    simp only [ReplicaRuntimeConfig.new, except_bind_eq_ok, require_eq_ok] at built
    obtain ⟨_, _, _, _, _, hlimits, hconfig⟩ := built
    obtain rfl := Except.ok.inj hconfig
    exact ⟨hlimits.1, hlimits.2.2.1⟩
  | withAutoSchedules _ built ih =>
    simp only [ReplicaRuntimeConfig.withAutoSchedules, except_bind_eq_ok] at built
    obtain ⟨_, _, hconfig⟩ := built
    obtain rfl := Except.ok.inj hconfig
    exact ih
  | withAdaptiveHedging _ _ ih => exact ih

private theorem Constructed.automatic (h : config.Constructed) (hauto : config.autoSchedules = true) :
    config.Automatic :=
  ⟨hauto, Nat.pos_of_ne_zero h.limits.1, Nat.pos_of_ne_zero h.limits.2, membersAreNormalized_nodup h.cluster.2⟩

private theorem Automatic.installCluster (h : config.Automatic) {cluster : ClusterIdentity}
    (hnext : cluster.isSuccessorOf config.cluster = true) : (config.installCluster cluster).Automatic := by
  simp only [ClusterIdentity.isSuccessorOf, ClusterIdentity.isWellFormed, Bool.and_eq_true] at hnext
  exact ⟨h.auto, h.epochSize, h.pipelineLen, membersAreNormalized_nodup hnext.1.1.1.1⟩

end ReplicaRuntimeConfig

/-- The slot's epoch is a warm-up one, or the statistics cover what it is ranked on. -/
def Schedulable (epochSize memberCount : Nat) (statsThrough slot : SlotIndex) : Prop :=
  slot / epochSize < 2 * memberCount + 1 ∨ (slot / epochSize - 1) * epochSize ≤ statsThrough + 1

theorem Schedulable.mono {epochSize memberCount : Nat} {statsThrough statsThrough' slot slot' : SlotIndex}
    (h : Schedulable epochSize memberCount statsThrough slot) (hslot : slot' ≤ slot)
    (hstats : statsThrough ≤ statsThrough') :
    Schedulable epochSize memberCount statsThrough' slot' := by
  have hepoch : slot' / epochSize ≤ slot / epochSize := Nat.div_le_div_right hslot
  refine h.imp hepoch.trans_lt fun hcovered => ?_
  exact (Nat.mul_le_mul_right _ (Nat.sub_le_sub_right hepoch 1)).trans (hcovered.trans (Nat.add_le_add_right hstats 1))

structure RuntimeSnapshot.InReach (s : RuntimeSnapshot V) : Prop where
  settled : s.Settled
  near : ∀ slot ∈ s.pending.keys, Schedulable s.protocol.epochSize s.cluster.members.length s.statsThrough slot

namespace ReplicaRuntime

/-- The farthest slot that could be armed, past the pipeline and the slots decided beyond the
frontier, can be scheduled. -/
def WithinReach (r : ReplicaRuntime V) : Prop :=
  Schedulable r.config.epochSize r.config.members.length r.tuner.statsThrough
    (r.replica.committedThrough + r.config.replica.pipelineLen + r.replica.remoteAhead)

instance (r : ReplicaRuntime V) : Decidable r.WithinReach := inferInstanceAs (Decidable (_ ∨ _))

structure Paced (r : ReplicaRuntime V) : Prop where
  config : r.config.Automatic
  limits : r.replica.config = r.config.replica
  tuner : r.tuner.Serves r.config
  now : r.runtimeSnapshot.InReach
  stored : StoredAll RuntimeSnapshot.InReach r.trace

variable {env : Environment V} {r r' : ReplicaRuntime V}

theorem Paced.auto (h : r.Paced) : r.tuner.auto = true := h.tuner.auto.trans h.config.auto

theorem Paced.epochSize (h : r.Paced) : r.tuner.epochSize = r.config.epochSize :=
  h.tuner.epochSize.trans (max_eq_left h.config.epochSize)

theorem Paced.near (h : r.Paced) {slot : SlotIndex} (hslot : slot ∈ r.pending.keys) :
    Schedulable r.config.epochSize r.config.members.length r.tuner.statsThrough slot :=
  h.now.near slot (by rwa [runtimeSnapshot, OrderedMap.keys_mapValues])

theorem inReach_snapshot (hs : r.runtimeSnapshot.Settled)
    (hnear : ∀ slot ∈ r.pending.keys,
      Schedulable r.config.epochSize r.config.members.length r.tuner.statsThrough slot) :
    r.runtimeSnapshot.InReach :=
  ⟨hs, fun slot hslot => hnear slot (by rwa [runtimeSnapshot, OrderedMap.keys_mapValues] at hslot)⟩

theorem Quiet.statsThrough_le (h : Quiet env r r') (hauto : r.tuner.auto = true) :
    r.tuner.statsThrough ≤ r'.tuner.statsThrough := by
  cases h with
  | counted => exact EpochTuner.statsThrough_le_noteCommitted hauto _ _
  | scheduled epoch =>
    show _ ≤ (after (EpochTuner.ensureSchedule epoch) r.tuner).statsThrough
    obtain h | ⟨_, _, _, h⟩ := EpochTuner.after_ensureSchedule hauto epoch <;> rw [h]
  | _ => exact le_refl _

private theorem Quiet.serves (h : Quiet env r r') (hserves : r.tuner.Serves r.config) : r'.tuner.Serves r'.config := by
  cases h with
  | counted => exact (EpochTuner.keeps_noteCommitted r.config _ _).after hserves
  | scheduled => exact (EpochTuner.keeps_ensureSchedule r.config _).after hserves
  | _ => exact hserves

private theorem Quiet.pending_keys (h : Quiet env r r') : r'.pending.keys = r.pending.keys := by
  have hkeys := congrArg OrderedMap.keys h.samePipeline.armedValues
  simpa only [armedValues, OrderedMap.keys_mapValues] using hkeys

theorem WithinReach.quiet (h : r.WithinReach) (hauto : r.tuner.auto = true) (hq : Quiet env r r') : r'.WithinReach := by
  rw [WithinReach, hq.samePipeline.replica, hq.samePipeline.config]
  exact h.mono (le_refl _) (hq.statsThrough_le hauto)

variable [DecidableEq V] {op : RuntimeOp V}

private theorem Paced.inReach_move (h : r.Paced) (hm : Move env op r r') : r'.runtimeSnapshot.InReach := by
  have hordered := h.now.settled.ordered
  cases hm with
  | quiet hq =>
    have hsame := hq.samePipeline
    refine inReach_snapshot (h.now.settled.same ?_ hsame.decisions) fun slot hslot => ?_
    · show r.replica.SameOutcome r'.replica.toReplicaSnapshot
      rw [hsame.replica]
      exact .refl _
    · rw [hq.pending_keys] at hslot
      rw [hsame.config]
      exact (h.near hslot).mono (le_refl _) (hq.statsThrough_le h.auto)
  | @enqueued values =>
    exact ⟨h.now.settled.same (ReplicaCore.sameOutcome_enqueue r.replica values) rfl, h.now.near⟩
  | @decided d ds replica learnt fresh applied =>
    have hspec := ReplicaCore.triple_applyDecision hordered d r.replica rfl
    rw [applied] at hspec
    refine inReach_snapshot (h.now.settled.retain rfl fresh.live hspec.1 rfl rfl) fun slot hslot => ?_
    obtain ⟨p, hget⟩ := (OrderedMap.mem_keys ..).mp hslot
    exact h.near (OrderedMap.mem_keys_of_get (OrderedMap.get_of_get_erase hget))
  | @refused d e replica learnt fresh applied =>
    have hspec := ReplicaCore.triple_applyDecision hordered d r.replica rfl
    rw [applied] at hspec
    rcases hspec with rfl | ⟨⟨ds, happly⟩, hjam⟩
    · exact h.now
    · exact ⟨h.now.settled.jam rfl happly hjam rfl rfl, h.now.near⟩
  | scheduleInstalled =>
    refine inReach_snapshot (h.now.settled.same (.refl _) rfl) fun slot hslot => ?_
    rw [EpochTuner.install_of_auto h.auto]
    exact h.near hslot
  | pruned _ committed => exact ⟨h.now.settled.prune rfl committed rfl rfl, h.now.near⟩
  | exported | reconnected | reconfigureFailed => exact h.now
  | @reconfigured change next _ anchored =>
    refine inReach_snapshot (h.now.settled.same (.refl _) rfl) fun slot hslot => ?_
    have hdrained := anchored.drained
    rw [ensureDrained, require_eq_ok] at hdrained
    have hempty : slot ∈ r.pending.keys := hslot
    rw [hdrained.2.2.1] at hempty
    cases hempty

theorem Paced.move (h : r.Paced) (hm : Move env op r r') : r'.Paced := by
  have hnow := h.inReach_move hm
  have hstored : StoredAll RuntimeSnapshot.InReach r'.trace := by
    rcases hm.trace with heq | ⟨e, heq, _, hsaved⟩
    · exact heq ▸ h.stored
    · rw [heq]
      exact h.stored.concat fun s hs => hsaved s hs ▸ hnow
  cases hm with
  | quiet hq =>
    have hsame := hq.samePipeline
    refine ⟨hsame.config ▸ h.config, ?_, hq.serves h.tuner, hnow, hstored⟩
    rw [hsame.replica, hsame.config]
    exact h.limits
  | @enqueued values => exact ⟨h.config, (ReplicaCore.config_enqueue ..).trans h.limits, h.tuner, hnow, hstored⟩
  | @decided d ds replica _ _ applied =>
    refine ⟨h.config, Eq.trans ?_ h.limits, h.tuner, hnow, hstored⟩
    exact after_ok applied ▸ ReplicaCore.config_applyDecision r.replica d
  | @refused d e replica _ _ applied =>
    refine ⟨h.config, Eq.trans ?_ h.limits, h.tuner, hnow, hstored⟩
    exact after_error applied ▸ ReplicaCore.config_applyDecision r.replica d
  | scheduleInstalled =>
    refine ⟨h.config, h.limits, ?_, hnow, hstored⟩
    rw [EpochTuner.install_of_auto h.auto]
    exact h.tuner
  | exported | reconnected | reconfigureFailed | pruned => exact ⟨h.config, h.limits, h.tuner, hnow, hstored⟩
  | @reconfigured change next _ anchored =>
    refine ⟨h.config.installCluster anchored.successor, h.limits, ?_, hnow, hstored⟩
    exact ⟨h.tuner.epochSize, rfl, h.tuner.auto, by simp [ReplicaRuntime.reconfigured, log, EpochTuner.reconfigure],
      by simp [ReplicaRuntime.reconfigured, log, EpochTuner.reconfigure]⟩

/-- Within reach, every slot that is armed stays there. -/
theorem Paced.arming (h : r.Paced) (hw : r.WithinReach) (ha : Arming r r') : r'.Paced ∧ r'.WithinReach := by
  cases ha with
  | lost n =>
    have hsame := ReplicaCore.sameOutcome_drain r.replica n
    exact ⟨⟨h.config, h.limits, h.tuner, ⟨h.now.settled.same hsame rfl, h.now.near⟩, h.stored⟩, hw⟩
  | @armed slot values n isOpen admitted place =>
    have hsame := (ReplicaCore.sameOutcome_drain r.replica n).trans
      (ReplicaCore.sameOutcome_proposed { r.replica with pending := r.replica.pending.drop n } slot values)
    have hpos := h.config.pipelineLen
    have hslot : Schedulable r.config.epochSize r.config.members.length r.tuner.statsThrough slot := by
      refine hw.mono ?_ (le_refl _)
      rcases place with ⟨hspare, hup⟩ | rfl
      · have hfar := hup.le h.now.settled.ordered
        rw [h.limits] at hspare
        rw [ReplicaCore.committedThrough]
        lia
      · lia
    refine ⟨⟨h.config, h.limits, h.tuner, ?_, h.stored⟩, ?_⟩
    · refine inReach_snapshot (h.now.settled.same hsame rfl) fun k hk => ?_
      obtain ⟨p, hget⟩ := (OrderedMap.mem_keys ..).mp hk
      rw [OrderedMap.get_insert] at hget
      split_ifs at hget with heq
      · exact heq ▸ hslot
      · exact h.near (OrderedMap.mem_keys_of_get hget)
    · have hopen : (r.replica.log.get slot).any (·.taken) = false :=
        Bool.eq_false_of_not_eq_true fun htaken => isOpen (.inr htaken)
      have hne := (ReplicaCore.admitProposal_eq_ok.mp admitted).1
      have hremote := ReplicaCore.remoteAhead_proposed
        (r := { r.replica with pending := r.replica.pending.drop n }) hopen hne
      rw [WithinReach, hremote]
      exact hw

def Pacing (r : ReplicaRuntime V) : Prop := r.Paced ∧ r.WithinReach

theorem Pacing.quiet (h : r.Pacing) (hq : Quiet env r r') : r'.Pacing := by
  have hm : Move env .recover r r' := .quiet hq
  exact ⟨h.1.move hm, h.2.quiet h.1.auto hq⟩

private theorem keeps_armProposals_pacing : Keeps (Pacing (V := V)) armProposals :=
  keeps_armProposals fun _ _ h ha => h.1.arming h.2 ha

private theorem keeps_armAvailable_pacing (now : Instant) : Keeps Pacing (armAvailable env now) := by
  have hquiet : ∀ r r', Pacing r → Quiet env r r' → Pacing r' := fun _ _ => Pacing.quiet
  refine Keeps.bind keeps_armProposals_pacing fun changed => ?_
  refine Keeps.bind (Keeps.onlyIf fun _ => keeps_persist hquiet) fun _ => ?_
  exact Keeps.bind (keeps_assignDeadlines hquiet now) fun _ => Keeps.bind Keeps.get fun _ => Keeps.pure _

/-- Every call keeps what is armed within reach, if it starts there when it arms. -/
theorem Paced.perform (h : r.Paced) (hop : op.arms = true → r.WithinReach) : (after (perform env op) r).Paced := by
  have hmoves : ∀ s s', Paced s → Move env op s s' → Paced s' := fun _ _ => Paced.move
  cases harms : op.arms with
  | false => exact (keeps_perform hmoves harms).after h
  | true =>
    have hpacing : r.Pacing := ⟨h, hop harms⟩
    cases op with
    | armAvailable now =>
      have hcall : (after (armAvailable env now) r).Pacing := (keeps_armAvailable_pacing now).after hpacing
      rw [ReplicaRuntime.perform, after_bind_pure]
      exact hcall.1
    | poll now =>
      have hflush : Keeps Pacing (flushDecisionNotifications env) := keeps_flushDecisionNotifications
        fun _ _ => Pacing.quiet
      have hpoll : Triple Pacing (poll env now) (fun _ => Paced) fun _ => Paced := by
        refine Triple.bind (hflush.conseq (fun _ h => h) (fun _ _ h => h) fun _ _ h => h.1) fun _ => ?_
        refine Triple.bind ((keeps_armAvailable_pacing now).conseq (fun _ h => h) (fun _ _ h => h.1) fun _ _ h => h.1)
          fun n => ?_
        exact keeps_pollLoop hmoves rfl (n + 1)
      rw [ReplicaRuntime.perform, after_bind_pure]
      have hcall := hpoll r hpacing
      rw [after]
      cases hx : poll env now r <;> rw [hx] at hcall <;> exact hcall
    | _ => cases harms

private theorem Paced.installStateTransfer {incoming : StateTransferSnapshot V} (h : r.Paced)
    (hin : incoming.runtime.InReach) :
    (after (installStateTransfer env incoming) r).Paced := by
  have hlog : ∀ s : ReplicaRuntime V, Paced s → ∀ e : Event V, e.stored = none → Paced (s.log e) := by
    intro s hs e he
    exact ⟨hs.config, hs.limits, hs.tuner, hs.now, hs.stored.concat fun s' hs' => by rw [he] at hs'; cases hs'⟩
  rcases installStateTransfer_cases env incoming r with
    ⟨e, heq⟩ | ⟨e, heq⟩ | ⟨e, heq⟩ | ⟨r', heq, hconfig, _, hloaded, hsnapshot, hvalid, htrace⟩
  · rw [after_error heq]
    exact h
  · rw [after_error heq]
    exact hlog r h _ rfl
  · rw [after_error heq]
    exact hlog _ (hlog r h _ rfl) _ rfl
  · rw [after_ok heq]
    refine ⟨hconfig ▸ h.config, hconfig ▸ hloaded.limits, hconfig ▸ EpochTuner.serves_restore hloaded.tuner ?_,
      hsnapshot ▸ hin, ?_⟩
    · simp only [validateRuntimeComponents, unit_bind_eq_ok, forM_eq_ok, require_eq_ok] at hvalid
      exact hvalid.1
    · have himported := (hlog r h (.imported incoming.through (.ok ())) rfl).stored
      rw [htrace]
      exact himported.concat fun s hs => Option.some.inj hs ▸ hin

private theorem paced_new {proposer : ProposerCore} {recorders : List ReplicaId} {t : List (Event V)}
    (hconfig : config.Automatic) (ht : StoredAll RuntimeSnapshot.InReach t)
    (hnew : new config proposer recorders (lastSaved t) (t ++ [.started]) = .ok r) (noop : Option V) :
    (noop.elim r r.withNoopValue).Paced := by
  obtain ⟨hboot, htrace⟩ := new_booted hnew
  have hnow : r.runtimeSnapshot.InReach := by
    cases hstored : lastSaved t with
    | some s =>
      rw [hboot.loaded s hstored]
      exact Always.latest ht hstored
    | none =>
      obtain ⟨hreplica, hdecisions, hpending, _⟩ := hboot.empty hstored
      refine inReach_snapshot (RuntimeSnapshot.settled_new config.replica (congrArg ReplicaCore.snapshot hreplica)
        hdecisions) ?_
      rw [hpending]
      exact fun slot hslot => nomatch hslot
  have hstored : StoredAll RuntimeSnapshot.InReach r.trace := by
    rw [htrace]
    exact ht.concat fun s hs => nomatch hs
  have hlimits : r.replica.config = config.replica ∧ r.tuner.Serves config := by
    simp only [new, except_bind_eq_ok] at hnew
    obtain ⟨_, _, _, _, r', hbuild, _, hchecked, hr⟩ := hnew
    obtain rfl : r' = r := Except.ok.inj hr
    cases hlast : lastSaved t with
    | none =>
      rw [hlast] at hbuild
      obtain rfl := Except.ok.inj hbuild
      exact ⟨rfl, EpochTuner.serves_new config⟩
    | some s =>
      rw [hlast] at hbuild
      simp only [rebuild, except_bind_eq_ok] at hbuild
      obtain ⟨_, _, replica, hreplica, tuner, htuner, hr⟩ := hbuild
      obtain rfl := Except.ok.inj hr
      obtain rfl := ReplicaCore.restore_eq_ok hreplica
      refine ⟨rfl, EpochTuner.serves_restore htuner fun schedule hschedule => ?_⟩
      simp only [validateRestoredState, unit_bind_eq_ok, forM_eq_ok, validateSchedule, require_eq_ok] at hchecked
      exact hchecked.1 schedule hschedule
  have hpaced : r.Paced :=
    ⟨hboot.setup ▸ hconfig, hboot.setup ▸ hlimits.1, hboot.setup ▸ hlimits.2, hnow, hstored⟩
  cases noop with
  | none => exact hpaced
  | some value => exact ⟨hpaced.config, hpaced.limits, hpaced.tuner, hpaced.now, hpaced.stored⟩

end ReplicaRuntime

namespace Deployment

def PacedStep : Process V → DeploymentAction V → Prop
  | _, .process (.restart config _ _ _) => config.Constructed ∧ config.autoSchedules = true
  | .up r, .process (.call op) | .up r, .process (.crash op _) => op.arms = true → r.WithinReach
  | .up _, .installStateTransfer incoming | .up _, .installCrash incoming _ => incoming.runtime.InReach
  | .down _, _ => True

theorem pacedStep_of_unarmed {op : RuntimeOp V} (h : op.arms = false) (p : Process V) :
    PacedStep p (.process (.call op)) := by
  cases p with
  | up r => exact fun harms => absurd (h.symm.trans harms) Bool.false_ne_true
  | down t => trivial

variable [DecidableEq V] {env : Environment V}

theorem paced_run {actions : List (DeploymentAction V)} (h : Along (step env) PacedStep Process.fresh actions) :
    (run (step env) Process.fresh actions).Upholds ReplicaRuntime.Paced (StoredAll RuntimeSnapshot.InReach) := by
  refine upholds_run (fun r => ReplicaRuntime.Paced.stored) (fun t p hcut ht => ht.earlier hcut) Always.nil ?_ ?_ ?_ h
  · exact fun r op hr hop => hr.perform (hop.elim id fun ⟨_, hop⟩ => hop)
  · exact fun r incoming hr hin => hr.installStateTransfer (hin.elim id fun ⟨_, hin⟩ => hin)
  · intro t config proposer recorders noop r ht hconfig hnew
    exact ReplicaRuntime.paced_new (hconfig.1.automatic hconfig.2) ht hnew noop

end Deployment
end QuePaxa
