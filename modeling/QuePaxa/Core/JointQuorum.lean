import QuePaxa.Core.Proposer
import QuePaxa.Core.QuorumIntersection

/-! The blocking proposer waits for `quorumSize` replies but insists that this number be a
majority of its recorders. In a joint epoch the recorders are the union of two voter sets,
and the number of replies that can hold both quorums may be smaller than half of it. -/
namespace QuePaxa
open Library

private theorem repeatedReplica_eq_none {seen recorders : List ReplicaId} (hnd : recorders.Nodup)
    (hseen : ∀ r ∈ recorders, r ∉ seen) : repeatedReplica seen recorders = none := by
  induction recorders generalizing seen with
  | nil => rfl
  | cons id rest ih =>
    obtain ⟨hid, hrest⟩ := List.nodup_cons.mp hnd
    rw [repeatedReplica, if_neg (hseen id List.mem_cons_self)]
    refine ih hrest fun r hr => ?_
    rw [List.mem_cons, not_or]
    exact ⟨fun heq => hid (heq ▸ hr), hseen r (List.mem_cons_of_mem _ hr)⟩

private theorem checkDistinct_of_nodup {recorders : List ReplicaId} (hnd : recorders.Nodup) :
    checkDistinct recorders = .ok () := by
  rw [checkDistinct, repeatedReplica_eq_none hnd (by simp)]

private theorem length_unionMembers {old new : List ReplicaId} (ho : old.Nodup) (hn : new.Nodup) :
    (unionMembers old new).length + old.countP (· ∈ new) = old.length + new.length := by
  have hunion : (unionMembers old new).length = (old.toFinset ∪ new.toFinset).card := by
    rw [unionMembers, ← List.toFinset_card_of_nodup (List.nodup_dedup _)]
    congr 1
    ext r
    simp
  have hinter : old.countP (· ∈ new) = (old.toFinset ∩ new.toFinset).card := by
    rw [List.countP_eq_length_filter, ← List.toFinset_card_of_nodup (ho.filter _)]
    congr 1
    ext r
    simp
  rw [hunion, hinter, Finset.card_union_add_card_inter, List.toFinset_card_of_nodup ho,
    List.toFinset_card_of_nodup hn]

namespace ClusterIdentity

private theorem quorum_le_union {old new all shared oldFaults newFaults : Nat} (hlen : all + shared = old + new)
    (hold : shared ≤ old) (hnew : shared ≤ new) :
    old - oldFaults + (new - newFaults) - min (min shared (old - oldFaults)) (new - newFaults) ≤ all := by
  omega

theorem quorumSize_le_length {c : ClusterIdentity} (hc : c.isWellFormed = true) :
    c.quorumSize ≤ c.members.length := by
  cases hj : c.joint with
  | none =>
    simp only [quorumSize, hj]
    exact Nat.sub_le ..
  | some joint =>
    have hold := component_normal hc (m := joint.oldMembers) (f := joint.oldMaxFaults) (by simp [components, hj])
    have hnew := component_normal hc (m := joint.newMembers) (f := c.maxFaults) (by simp [components, hj])
    have hlen := length_unionMembers hold.1 hnew.1
    have hold_le : joint.oldMembers.length ≤ (unionMembers joint.oldMembers joint.newMembers).length :=
      (List.subperm_of_subset hold.1 fun r hr => by simp [unionMembers, hr]).length_le
    have hnew_le : joint.newMembers.length ≤ (unionMembers joint.oldMembers joint.newMembers).length :=
      (List.subperm_of_subset hnew.1 fun r hr => by simp [unionMembers, hr]).length_le
    simp only [isWellFormed, hj, Bool.and_eq_true, decide_eq_true_eq] at hc
    rw [hc.2.2] at hlen hold_le hnew_le
    simp only [quorumSize, hj]
    exact quorum_le_union hlen (by omega) (by omega)

/-- In a stable epoch the quorum is a majority, since the fault budget is below one half. -/
theorem majority_of_stable {c : ClusterIdentity} (hc : c.isWellFormed = true) (hj : c.joint = none) :
    c.members.length < 2 * c.quorumSize := by
  have hbudget := (component_normal hc (m := c.members) (f := c.maxFaults) (by simp [components, hj])).2
  simp only [quorumSize, hj]
  omega

end ClusterIdentity

namespace ProposerCore

private theorem validateRecorders_withCluster {c : ClusterIdentity} (hc : c.isWellFormed = true) (core : ProposerCore)
    (hself : core.replicaId ∈ c.members) {recorders : List ReplicaId} (hall : recorders.Perm c.members) :
    validateRecorders recorders core.replicaId (core.withCluster c).config.quorum (core.withCluster c).config.cluster =
      if c.members.length < 2 * c.quorumSize then .ok c.quorumSize
      else .error (.invalidQuorum c.members.length c.quorumSize) := by
  have hnd : c.members.Nodup := by
    simp only [ClusterIdentity.isWellFormed, Bool.and_eq_true] at hc
    exact membersAreNormalized_nodup hc.1
  have hne : c.members.length ≠ 0 := (List.length_pos_of_mem hself).ne'
  have hsame : recorders.toFinset = c.members.toFinset := List.toFinset_eq_of_perm _ _ hall
  have hle := ClusterIdentity.quorumSize_le_length hc
  have hmajority : (c.members.length / 2 + 1 ≤ c.quorumSize ∧ c.quorumSize ≤ c.members.length) ↔
      c.members.length < 2 * c.quorumSize := by omega
  have hsize : QuePaxa.quorumSize c.members.length = .ok (c.members.length / 2 + 1) := by
    rw [QuePaxa.quorumSize, if_neg hne]
  simp only [validateRecorders, withCluster, hsize, checkDistinct_of_nodup (hall.nodup_iff.mpr hnd), require,
    if_pos (hall.mem_iff.mpr hself), if_pos hsame, hall.length_eq, bind, Except.bind, if_true, hmajority]
  split_ifs <;> rfl

/-- The check passes exactly when twice the quorum exceeds the number of all voters, which
a joint epoch may miss. -/
theorem validateRecorders_passes_iff {c : ClusterIdentity} (hc : c.isWellFormed = true) (core : ProposerCore)
    (hself : core.replicaId ∈ c.members) {recorders : List ReplicaId} (hall : recorders.Perm c.members) :
    (∃ quorum, validateRecorders recorders core.replicaId (core.withCluster c).config.quorum
      (core.withCluster c).config.cluster = .ok quorum) ↔
    ∀ joint, c.joint = some joint → (unionMembers joint.oldMembers joint.newMembers).length < 2 * c.quorumSize := by
  rw [validateRecorders_withCluster hc core hself hall]
  have hunion : ∀ joint, c.joint = some joint → unionMembers joint.oldMembers joint.newMembers = c.members := by
    intro joint hj
    simp only [ClusterIdentity.isWellFormed, hj, Bool.and_eq_true, decide_eq_true_eq] at hc
    exact hc.2.2
  constructor
  · rintro ⟨quorum, hok⟩ joint hj
    split_ifs at hok with hmajority
    rwa [hunion joint hj]
  · intro hjoint
    refine ⟨c.quorumSize, if_pos ?_⟩
    cases hj : c.joint with
    | none => exact ClusterIdentity.majority_of_stable hc hj
    | some joint => exact hunion joint hj ▸ hjoint joint hj

/-- Replacing one voter of three: two replies can hold both quorums, and two is not a
majority of the four voters. -/
theorem joint_epoch_is_refused :
    let stable : ClusterIdentity := ⟨[1, 2, 3], 1, 0, none⟩
    let joint : ClusterIdentity := ⟨[1, 2, 3, 4], 1, 1, some ⟨[1, 2, 3], 1, [2, 3, 4]⟩⟩
    let core : ProposerCore := withCluster ⟨1, 0, .default⟩ joint
    stable.isWellFormed = true ∧ stable.beginJoint [2, 3, 4] 1 = .ok joint ∧ joint.isWellFormed = true ∧
      core.replicaId ∈ joint.members ∧
      validateRecorders joint.members core.replicaId core.config.quorum core.config.cluster =
        .error (.invalidQuorum 4 2) := by
  decide

/-- With a single voter kept, the joint quorum is a majority. -/
theorem validateRecorders_passes_iff_replacing_two :
    let joint : ClusterIdentity := ⟨[1, 2, 3, 4, 5], 1, 1, some ⟨[1, 2, 3], 1, [3, 4, 5]⟩⟩
    let core : ProposerCore := ⟨1, 0, .default⟩
    ∃ quorum, validateRecorders [5, 4, 3, 2, 1] core.replicaId (core.withCluster joint).config.quorum
      (core.withCluster joint).config.cluster = .ok quorum :=
  (validateRecorders_passes_iff (by decide) ⟨1, 0, .default⟩ (by decide) (by decide)).mpr
    (by intro joint hj; cases hj; decide)

end ProposerCore
end QuePaxa
