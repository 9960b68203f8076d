import QuePaxa.Core.Membership

/-! Quorums overlap inside an epoch and across a legal transition, because the
two identities share a voter set of which each needs all but the fault budget. -/
namespace QuePaxa

namespace ClusterIdentity

def components (c : ClusterIdentity) : List (List ReplicaId × Nat) :=
  match c.joint with
  | some joint => [(joint.oldMembers, joint.oldMaxFaults), (joint.newMembers, c.maxFaults)]
  | none => [(c.members, c.maxFaults)]

end ClusterIdentity

private theorem validateFaultTolerance_isOk {n f : Nat} (h : (validateFaultTolerance n f).isOk = true) :
    f * 2 + 1 ≤ n := by
  unfold validateFaultTolerance at h
  split_ifs at h with hbig hsmall
  · cases h
  · cases h
  · omega

theorem membersAreNormalized_nodup {members : List ReplicaId} (h : membersAreNormalized members = true) :
    members.Nodup := by
  have hc : members.IsChain (· < ·) := (of_decide_eq_true h).2
  exact hc.pairwise.imp (fun hab => ne_of_lt hab)

private theorem adjacentDuplicate_eq_none {members : List ReplicaId} (h : adjacentDuplicate members = none) :
    members.IsChain (· ≠ ·) := by
  induction members with
  | nil => exact .nil
  | cons a rest ih =>
    cases rest with
    | nil => exact .singleton a
    | cons b rest =>
      rw [adjacentDuplicate] at h
      split_ifs at h with hab
      exact .cons_cons hab (ih h)

theorem normalizeMembers_normalized {members normal : List ReplicaId} (h : normalizeMembers members = .ok normal) :
    membersAreNormalized normal = true := by
  rw [normalizeMembers] at h
  split_ifs at h with hempty
  split at h
  · cases h
  · next hnone =>
    obtain rfl := Except.ok.inj h
    have hsorted : (members.insertionSort (· ≤ ·)).IsChain (· ≤ ·) := (List.pairwise_insertionSort _ _).isChain
    have hlt : (members.insertionSort (· ≤ ·)).IsChain (· < ·) :=
      List.isChain_iff_getElem.mpr fun i hi => lt_of_le_of_ne (List.isChain_iff_getElem.mp hsorted i hi)
        (List.isChain_iff_getElem.mp (adjacentDuplicate_eq_none hnone) i hi)
    exact decide_eq_true ⟨hempty, hlt⟩

theorem countP_eq_card {members : List ReplicaId} (h : members.Nodup) (voters : Finset ReplicaId) :
    members.countP (· ∈ voters) = (members.toFinset.filter (· ∈ voters)).card := by
  rw [List.countP_eq_length_filter, ← List.toFinset_card_of_nodup (h.filter _)]
  congr 1
  ext r
  simp

/-- Two all-but-the-budget subsets of one voter set meet. -/
private theorem component_inter {members : List ReplicaId} {f : Nat} (hnd : members.Nodup)
    (hf : f * 2 + 1 ≤ members.length) {S T : Finset ReplicaId}
    (hs : members.length - f ≤ members.countP (· ∈ S))
    (ht : members.length - f ≤ members.countP (· ∈ T)) : ∃ r ∈ members, r ∈ S ∧ r ∈ T := by
  rw [countP_eq_card hnd] at hs ht
  have hcard : members.toFinset.card = members.length := List.toFinset_card_of_nodup hnd
  obtain ⟨r, hr⟩ := Finset.inter_nonempty_of_card_lt_card_add_card
    (Finset.filter_subset (· ∈ S) members.toFinset) (Finset.filter_subset (· ∈ T) members.toFinset)
    (by omega)
  simp only [Finset.mem_inter, Finset.mem_filter, List.mem_toFinset] at hr
  exact ⟨r, hr.1.1, hr.1.2, hr.2.2⟩

namespace ClusterIdentity

theorem component_normal {c : ClusterIdentity} (h : c.isWellFormed = true) {m : List ReplicaId} {f : Nat}
    (hm : (m, f) ∈ c.components) : m.Nodup ∧ f * 2 + 1 ≤ m.length := by
  unfold isWellFormed at h
  unfold components at hm
  cases hj : c.joint with
  | none =>
    simp only [hj, Bool.and_eq_true] at h
    simp only [hj, List.mem_singleton, Prod.mk.injEq] at hm
    obtain ⟨rfl, rfl⟩ := hm
    exact ⟨membersAreNormalized_nodup h.1, validateFaultTolerance_isOk h.2⟩
  | some joint =>
    simp only [hj, Bool.and_eq_true] at h
    simp only [hj, List.mem_cons, Prod.mk.injEq, List.not_mem_nil, or_false] at hm
    obtain ⟨_, ⟨⟨⟨hold, hnew⟩, hof⟩, hnf⟩, _⟩ := h
    rcases hm with ⟨rfl, rfl⟩ | ⟨rfl, rfl⟩
    · exact ⟨membersAreNormalized_nodup hold, validateFaultTolerance_isOk hof⟩
    · exact ⟨membersAreNormalized_nodup hnew, validateFaultTolerance_isOk hnf⟩

theorem component_subset {c : ClusterIdentity} (h : c.isWellFormed = true) {m : List ReplicaId} {f : Nat}
    (hm : (m, f) ∈ c.components) {r : ReplicaId} (hr : r ∈ m) : r ∈ c.members := by
  unfold components at hm
  cases hj : c.joint with
  | none =>
    simp only [hj, List.mem_singleton, Prod.mk.injEq] at hm
    exact hm.1 ▸ hr
  | some joint =>
    simp only [hj, List.mem_cons, Prod.mk.injEq, List.not_mem_nil, or_false] at hm
    simp only [isWellFormed, hj, Bool.and_eq_true, decide_eq_true_eq] at h
    rw [← h.2.2]
    rcases hm with ⟨rfl, -⟩ | ⟨rfl, -⟩
    · simp [unionMembers, hr]
    · simp [unionMembers, hr]

private theorem hasQuorum_component {c : ClusterIdentity} (h : c.isWellFormed = true) {S : Finset ReplicaId}
    (hs : c.hasQuorum S = true) {m : List ReplicaId} {f : Nat} (hm : (m, f) ∈ c.components) :
    m.length - f ≤ m.countP (· ∈ S) := by
  have hn := (component_normal h hm).1
  unfold hasQuorum at hs
  unfold components at hm
  cases hj : c.joint with
  | none =>
    simp only [hj, List.mem_singleton, Prod.mk.injEq] at hm
    obtain ⟨rfl, rfl⟩ := hm
    simp only [hj, quorumSize, contains, decide_eq_true_eq] at hs
    rw [countP_eq_card hn]
    refine hs.1.trans (Finset.card_le_card ?_)
    intro r hr
    exact Finset.mem_filter.mpr ⟨List.mem_toFinset.mpr (hs.2 r hr), hr⟩
  | some joint =>
    simp only [hj, decide_eq_true_eq] at hs
    simp only [hj, List.mem_cons, Prod.mk.injEq, List.not_mem_nil, or_false] at hm
    rcases hm with ⟨rfl, rfl⟩ | ⟨rfl, rfl⟩
    · exact hs.1
    · exact hs.2

theorem quorum_inter_of_component {c d : ClusterIdentity} (hc : c.isWellFormed = true)
    (hd : d.isWellFormed = true) {m : List ReplicaId} {f : Nat} (hmc : (m, f) ∈ c.components)
    (hmd : (m, f) ∈ d.components) {S T : Finset ReplicaId} (hs : c.hasQuorum S = true)
    (ht : d.hasQuorum T = true) : ∃ r ∈ m, r ∈ S ∧ r ∈ T :=
  component_inter (component_normal hc hmc).1 (component_normal hc hmc).2
    (hasQuorum_component hc hs hmc) (hasQuorum_component hd ht hmd)

private theorem components_ne_nil (c : ClusterIdentity) : ∃ m f, (m, f) ∈ c.components := by
  unfold components
  cases c.joint with
  | none => exact ⟨_, _, List.mem_singleton.mpr rfl⟩
  | some joint => exact ⟨_, _, List.mem_cons_self⟩

theorem quorum_inter {c : ClusterIdentity} (h : c.isWellFormed = true) {S T : Finset ReplicaId}
    (hs : c.hasQuorum S = true) (ht : c.hasQuorum T = true) : ∃ r ∈ c.members, r ∈ S ∧ r ∈ T := by
  obtain ⟨m, f, hm⟩ := c.components_ne_nil
  obtain ⟨r, hr, hrs⟩ := quorum_inter_of_component h h hm hm hs ht
  exact ⟨r, component_subset h hm hr, hrs⟩

theorem isSuccessorOf_wellFormed {next prev : ClusterIdentity} (h : next.isSuccessorOf prev = true) :
    next.isWellFormed = true ∧ prev.isWellFormed = true ∧ next.epoch = prev.epoch + 1 := by
  unfold isSuccessorOf at h
  simp only [Bool.and_eq_true, decide_eq_true_eq] at h
  obtain ⟨⟨⟨hn, hp⟩, he⟩, _⟩ := h
  unfold checkedEpoch at he
  split_ifs at he
  exact ⟨hn, hp, (Option.some.inj he).symm⟩

/-- A transition keeps one voter set together with its budget. -/
theorem successor_shares_component {next prev : ClusterIdentity} (h : next.isSuccessorOf prev = true) :
    ∃ m f, (m, f) ∈ prev.components ∧ (m, f) ∈ next.components := by
  unfold isSuccessorOf at h
  simp only [Bool.and_eq_true] at h
  replace h := h.2
  unfold components
  cases hn : next.joint with
  | some joint =>
    simp only [hn, Bool.and_eq_true, decide_eq_true_eq, Bool.not_eq_true'] at h
    obtain ⟨⟨hp, hm⟩, hf⟩ := h
    have hpn : prev.joint = none := by simpa [isJoint] using hp
    refine ⟨prev.members, prev.maxFaults, ?_, ?_⟩
    · simp [hpn]
    · simp [hm, hf]
  | none =>
    cases hp : prev.joint with
    | none => simp [hn, hp] at h
    | some joint =>
      simp only [hn, hp, Bool.and_eq_true, decide_eq_true_eq] at h
      refine ⟨next.members, next.maxFaults, ?_, ?_⟩
      · simp [h.1, h.2]
      · simp

theorem quorum_inter_successor {next prev : ClusterIdentity} (h : next.isSuccessorOf prev = true)
    {S T : Finset ReplicaId} (hs : prev.hasQuorum S = true) (ht : next.hasQuorum T = true) :
    ∃ r ∈ prev.members, r ∈ next.members ∧ r ∈ S ∧ r ∈ T := by
  obtain ⟨hn, hp, _⟩ := isSuccessorOf_wellFormed h
  obtain ⟨m, f, hmp, hmn⟩ := successor_shares_component h
  obtain ⟨r, hr, hrs⟩ := quorum_inter_of_component hp hn hmp hmn hs ht
  exact ⟨r, component_subset hp hmp hr, component_subset hn hmn hr, hrs⟩

/-- Quorums of one epoch share a member, and quorums of an epoch and of its successor
share a member of both. -/
theorem quorums_share_a_member :
    (∀ c : ClusterIdentity, c.isWellFormed = true → ∀ S T : Finset ReplicaId, c.hasQuorum S = true →
      c.hasQuorum T = true → ∃ r ∈ c.members, r ∈ S ∧ r ∈ T) ∧
    (∀ next prev : ClusterIdentity, next.isSuccessorOf prev = true → ∀ S T : Finset ReplicaId,
      prev.hasQuorum S = true → next.hasQuorum T = true →
      ∃ r ∈ prev.members, r ∈ next.members ∧ r ∈ S ∧ r ∈ T) :=
  ⟨fun _ hc _ _ hs ht => quorum_inter hc hs ht, fun _ _ hsucc _ _ hs ht => quorum_inter_successor hsucc hs ht⟩

/-- One voter replaced out of three: the quorum of the joint epoch needs two of either set. -/
theorem quorums_share_a_member_replacing :
    let prev : ClusterIdentity := ⟨[1, 2, 3], 1, 0, none⟩
    let next : ClusterIdentity := ⟨[1, 2, 3, 4], 1, 1, some ⟨[1, 2, 3], 1, [2, 3, 4]⟩⟩
    next.isSuccessorOf prev = true ∧ prev.hasQuorum {1, 3} = true ∧ next.hasQuorum {1, 2, 4} = true ∧
    (∃ r ∈ next.members, r ∈ ({2, 3} : Finset ReplicaId) ∧ r ∈ ({1, 2, 4} : Finset ReplicaId)) ∧
    ∃ r ∈ prev.members, r ∈ next.members ∧ r ∈ ({1, 3} : Finset ReplicaId) ∧ r ∈ ({1, 2, 4} : Finset ReplicaId) := by
  have hsucc : isSuccessorOf ⟨[1, 2, 3, 4], 1, 1, some ⟨[1, 2, 3], 1, [2, 3, 4]⟩⟩ ⟨[1, 2, 3], 1, 0, none⟩ = true := by
    decide
  exact ⟨hsucc, by decide, by decide,
    quorums_share_a_member.1 _ (isSuccessorOf_wellFormed hsucc).1 _ _ (by decide) (by decide),
    quorums_share_a_member.2 _ _ hsucc _ _ (by decide) (by decide)⟩

end ClusterIdentity
end QuePaxa
