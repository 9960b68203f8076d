import Mathlib.Data.List.Sort
import QuePaxa.Core.QuorumIntersection
import QuePaxa.Library.Checks

/-! The validator of membership transitions against the two constructors. The validator reads
identities that may come off the wire; the constructors sort, check and count for themselves. -/
namespace QuePaxa
open Library

/-! ### Voter lists -/

theorem membersAreNormalized_iff {members : List ReplicaId} :
    membersAreNormalized members = true ↔ members ≠ [] ∧ members.Pairwise (· < ·) := by
  rw [membersAreNormalized, decide_eq_true_eq, List.isChain_iff_pairwise]

private theorem adjacentDuplicate_of_chain {members : List ReplicaId} (h : members.IsChain (· ≠ ·)) :
    adjacentDuplicate members = none := by
  induction members with
  | nil => rfl
  | cons a rest ih =>
    cases rest with
    | nil => rfl
    | cons b rest =>
      obtain ⟨hab, hrest⟩ := List.isChain_cons_cons.mp h
      rw [adjacentDuplicate, if_neg hab]
      exact ih hrest

theorem normalizeMembers_of_normalized {members : List ReplicaId} (h : membersAreNormalized members = true) :
    normalizeMembers members = .ok members := by
  obtain ⟨hne, hlt⟩ := membersAreNormalized_iff.mp h
  have hsort : members.insertionSort (· ≤ ·) = members := (hlt.imp fun hab => le_of_lt hab).insertionSort_eq
  have hdistinct : members.IsChain (· ≠ ·) := (hlt.imp fun hab => ne_of_lt hab).isChain
  simp only [normalizeMembers, hsort, if_neg hne, adjacentDuplicate_of_chain hdistinct]

private theorem unionMembers_normalized {old new : List ReplicaId} (h : old ≠ []) :
    membersAreNormalized (unionMembers old new) = true := by
  refine membersAreNormalized_iff.mpr ⟨?_, ?_⟩
  · obtain ⟨r, hr⟩ := List.exists_mem_of_ne_nil old h
    exact List.ne_nil_of_mem (a := r) (by simp [unionMembers, hr])
  · have hle : (unionMembers old new).Pairwise (· ≤ ·) :=
      (List.pairwise_insertionSort _ _).sublist (List.dedup_sublist _)
    have hne : (unionMembers old new).Pairwise (· ≠ ·) := List.nodup_dedup _
    exact hle.imp₂ (fun _ _ hab hne => lt_of_le_of_ne hab hne) hne

theorem validateFaultTolerance_eq_ok {n f : Nat} :
    validateFaultTolerance n f = .ok () ↔ (validateFaultTolerance n f).isOk = true := by
  cases validateFaultTolerance n f <;> simp [Except.isOk, Except.toBool]

namespace ClusterIdentity
variable {prev next : ClusterIdentity}

theorem isWellFormed_stable (hj : next.joint = none) :
    next.isWellFormed = true ↔ membersAreNormalized next.members = true ∧
      validateFaultTolerance next.members.length next.maxFaults = .ok () := by
  rw [validateFaultTolerance_eq_ok]
  simp only [isWellFormed, hj, Bool.and_eq_true]

/-- The union is normal by itself, so the list of all voters needs no check of its own. -/
theorem isWellFormed_joint {joint : JointMembership} (hj : next.joint = some joint) :
    next.isWellFormed = true ↔ membersAreNormalized joint.oldMembers = true ∧
      membersAreNormalized joint.newMembers = true ∧
      validateFaultTolerance joint.oldMembers.length joint.oldMaxFaults = .ok () ∧
      validateFaultTolerance joint.newMembers.length next.maxFaults = .ok () ∧
      unionMembers joint.oldMembers joint.newMembers = next.members := by
  simp only [validateFaultTolerance_eq_ok, isWellFormed, hj, Bool.and_eq_true, decide_eq_true_eq, and_assoc]
  constructor
  · exact fun h => h.2
  · intro h
    refine ⟨?_, h⟩
    rw [← h.2.2.2.2]
    exact unionMembers_normalized (membersAreNormalized_iff.mp h.1).1

theorem beginJoint_eq_ok {members : List ReplicaId} {maxFaults : Nat} :
    prev.beginJoint members maxFaults = .ok next ↔ prev.joint = none ∧ ∃ normal epoch,
      normalizeMembers members = .ok normal ∧ validateFaultTolerance normal.length maxFaults = .ok () ∧
      prev.checkedEpoch = some epoch ∧
      next = ⟨unionMembers prev.members normal, maxFaults, epoch, some ⟨prev.members, prev.maxFaults, normal⟩⟩ := by
  cases hj : prev.joint with
  | some joint => simp [beginJoint, isJoint, hj, throw, throwThe, MonadExceptOf.throw, bind, Except.bind]
  | none =>
    simp only [beginJoint, isJoint, hj, Option.isSome_none, Bool.false_eq_true, if_false, true_and, except_bind_eq_ok]
    constructor
    · rintro ⟨normal, hnormal, _, hbudget, hrest⟩
      cases hepoch : prev.checkedEpoch with
      | none =>
        rw [hepoch] at hrest
        cases hrest
      | some epoch =>
        rw [hepoch] at hrest
        exact ⟨normal, epoch, hnormal, hbudget, rfl, (Except.ok.inj hrest).symm⟩
    · rintro ⟨normal, epoch, hnormal, hbudget, hepoch, rfl⟩
      refine ⟨normal, hnormal, (), hbudget, ?_⟩
      rw [hepoch]
      rfl

theorem finalizeJoint_eq_ok : prev.finalizeJoint = .ok next ↔ ∃ joint normal epoch, prev.joint = some joint ∧
    prev.checkedEpoch = some epoch ∧ normalizeMembers joint.newMembers = .ok normal ∧
    validateFaultTolerance normal.length prev.maxFaults = .ok () ∧ next = ⟨normal, prev.maxFaults, epoch, none⟩ := by
  cases hj : prev.joint with
  | none => simp [finalizeJoint, hj]
  | some joint =>
    cases hepoch : prev.checkedEpoch with
    | none => simp [finalizeJoint, hj, hepoch]
    | some epoch =>
      simp only [finalizeJoint, hj, hepoch, stable, except_bind_eq_ok]
      constructor
      · rintro ⟨normal, hnormal, _, hbudget, hnext⟩
        exact ⟨joint, normal, epoch, rfl, rfl, hnormal, hbudget, (Except.ok.inj hnext).symm⟩
      · rintro ⟨_, normal, _, hjoint, hsome, hnormal, hbudget, rfl⟩
        cases hjoint
        cases hsome
        exact ⟨normal, hnormal, (), hbudget, rfl⟩

/-- From a well-formed epoch, a joint epoch is accepted exactly when it can be begun. -/
theorem isSuccessorOf_joint (hprev : prev.isWellFormed = true) {joint : JointMembership}
    (hj : next.joint = some joint) :
    next.isSuccessorOf prev = true ↔ ∃ members maxFaults, prev.beginJoint members maxFaults = .ok next := by
  simp only [isSuccessorOf, hj, hprev, Bool.and_true, Bool.and_eq_true, decide_eq_true_eq, isWellFormed_joint hj]
  constructor
  · rintro ⟨⟨⟨_, hnew, _, hbudget, hunion⟩, hepoch⟩, ⟨hstable, hold⟩, hfaults⟩
    have hnone : prev.joint = none := by simpa [isJoint] using hstable
    refine ⟨joint.newMembers, next.maxFaults, beginJoint_eq_ok.mpr ⟨hnone, joint.newMembers, next.epoch,
      normalizeMembers_of_normalized hnew, hbudget, hepoch, ?_⟩⟩
    rw [← hold, ← hfaults, hunion, ← hj]
  · rintro ⟨members, maxFaults, hbegin⟩
    obtain ⟨hnone, normal, epoch, hnormal, hbudget, hepoch, rfl⟩ := beginJoint_eq_ok.mp hbegin
    cases hj
    obtain ⟨hmembers, htolerance⟩ := (isWellFormed_stable hnone).mp hprev
    have hstable : (!prev.isJoint) = true := by simp [isJoint, hnone]
    exact ⟨⟨⟨hmembers, normalizeMembers_normalized hnormal, htolerance, hbudget, rfl⟩, hepoch⟩, ⟨hstable, rfl⟩, rfl⟩

/-- From a well-formed epoch, a stable epoch is accepted exactly when it finalizes it. -/
theorem isSuccessorOf_stable (hprev : prev.isWellFormed = true) (hj : next.joint = none) :
    next.isSuccessorOf prev = true ↔ prev.finalizeJoint = .ok next := by
  rw [finalizeJoint_eq_ok]
  simp only [isSuccessorOf, hj, hprev, Bool.and_true, Bool.and_eq_true, decide_eq_true_eq, isWellFormed_stable hj]
  constructor
  · rintro ⟨⟨⟨hnormal, hbudget⟩, hepoch⟩, hmatch⟩
    cases hp : prev.joint with
    | none => simp [hp] at hmatch
    | some joint =>
      simp only [hp, Bool.and_eq_true, decide_eq_true_eq] at hmatch
      obtain ⟨hmembers, hfaults⟩ := hmatch
      refine ⟨joint, joint.newMembers, next.epoch, rfl, hepoch, ?_, ?_, ?_⟩
      · exact normalizeMembers_of_normalized (hmembers ▸ hnormal)
      · rw [← hmembers, ← hfaults]
        exact hbudget
      · rw [← hmembers, ← hfaults, ← hj]
  · rintro ⟨joint, normal, epoch, hp, hepoch, hnormal, hbudget, rfl⟩
    obtain ⟨_, hnew, _⟩ := (isWellFormed_joint hp).mp hprev
    have hsame : normal = joint.newMembers :=
      Except.ok.inj (hnormal.symm.trans (normalizeMembers_of_normalized hnew))
    simp only [hp, Bool.and_eq_true, decide_eq_true_eq]
    exact ⟨⟨⟨hsame ▸ hnew, hbudget⟩, hepoch⟩, hsame, trivial⟩

/-- The validator accepts what one of the constructors returns, and nothing else. -/
theorem isSuccessorOf_iff (hprev : prev.isWellFormed = true) (next : ClusterIdentity) :
    next.isSuccessorOf prev = true ↔
      (∃ members maxFaults, prev.beginJoint members maxFaults = .ok next) ∨ prev.finalizeJoint = .ok next := by
  cases hj : next.joint with
  | none =>
    have hbegin : ¬∃ members maxFaults, prev.beginJoint members maxFaults = .ok next := by
      rintro ⟨members, maxFaults, hbegin⟩
      obtain ⟨_, _, _, _, _, _, rfl⟩ := beginJoint_eq_ok.mp hbegin
      cases hj
    rw [isSuccessorOf_stable hprev hj, or_iff_right hbegin]
  | some joint =>
    have hfinal : ¬prev.finalizeJoint = .ok next := by
      intro hfinal
      obtain ⟨_, _, _, _, _, _, _, rfl⟩ := finalizeJoint_eq_ok.mp hfinal
      cases hj
    rw [isSuccessorOf_joint hprev hj, or_iff_left hfinal]

theorem ne_of_isSuccessorOf (h : next.isSuccessorOf prev = true) :
    prev ≠ next := by
  rintro rfl
  exact absurd (isSuccessorOf_wellFormed h).2.2 (Nat.ne_of_lt (Nat.lt_succ_self _))

/-- The subtractions of `quorum_size` and `has_quorum`, which are unchecked, have room. -/
structure SubtractionsFit (c : ClusterIdentity) : Prop where
  budget : ∀ m f, (m, f) ∈ c.components → f ≤ m.length
  shared : ∀ joint, c.joint = some joint →
    min (min (joint.oldMembers.countP (· ∈ joint.newMembers)) (joint.oldMembers.length - joint.oldMaxFaults))
      (joint.newMembers.length - c.maxFaults) ≤
    joint.oldMembers.length - joint.oldMaxFaults + (joint.newMembers.length - c.maxFaults)

theorem subtractionsFit {c : ClusterIdentity} (h : c.isWellFormed = true) : c.SubtractionsFit where
  budget m f hm := by
    have hbudget := (component_normal h hm).2
    omega
  shared joint _ := (min_le_right _ _).trans (Nat.le_add_left _ _)

end ClusterIdentity
end QuePaxa
