import QuePaxa.Core.ProposerSpec
import QuePaxa.Core.QuorumIntersection
import QuePaxa.Library.Thresholds

/-! The quorum size of an epoch is the size of its smallest quorums, so a proposer that counts
the replies it holds and those it may still get gives up only when no quorum is left. -/
namespace QuePaxa
open Library
variable {V : Type}
variable {arrivals : List (Arrival V)}

namespace ClusterIdentity
variable {c : ClusterIdentity}

theorem quorumSize_joint {joint : JointMembership} (hj : c.joint = some joint) (hold : joint.oldMembers.Nodup) :
    c.quorumSize = twoThresholds (joint.oldMembers.toFinset ∩ joint.newMembers.toFinset).card
      (joint.oldMembers.length - joint.oldMaxFaults) (joint.newMembers.length - c.maxFaults) := by
  have hshared : joint.oldMembers.countP (· ∈ joint.newMembers) =
      (joint.oldMembers.toFinset ∩ joint.newMembers.toFinset).card := by
    have hcount := countP_eq_card hold joint.newMembers.toFinset
    simp only [List.mem_toFinset] at hcount
    rw [hcount, ← Finset.filter_mem_eq_inter]
    simp only [List.mem_toFinset]
  simp only [quorumSize, hj, hshared, twoThresholds]

theorem hasQuorum_joint {joint : JointMembership} (hj : c.joint = some joint) (hold : joint.oldMembers.Nodup)
    (hnew : joint.newMembers.Nodup) {S : Finset ReplicaId} : c.hasQuorum S = true ↔
      joint.oldMembers.length - joint.oldMaxFaults ≤ (joint.oldMembers.toFinset ∩ S).card ∧
      joint.newMembers.length - c.maxFaults ≤ (joint.newMembers.toFinset ∩ S).card := by
  simp only [hasQuorum, hj, decide_eq_true_eq, countP_eq_card hold, countP_eq_card hnew, Finset.filter_mem_eq_inter]

private theorem quorumSize_le_card (hc : c.isWellFormed = true) {S : Finset ReplicaId} (hS : c.hasQuorum S = true) :
    c.quorumSize ≤ S.card := by
  cases hj : c.joint with
  | none =>
    simp only [hasQuorum, hj, decide_eq_true_eq] at hS
    exact hS.1
  | some joint =>
    obtain ⟨hold, _⟩ := component_normal hc (m := joint.oldMembers) (f := joint.oldMaxFaults) (by simp [components, hj])
    obtain ⟨hnew, _⟩ := component_normal hc (m := joint.newMembers) (f := c.maxFaults) (by simp [components, hj])
    obtain ⟨holdVotes, hnewVotes⟩ := (hasQuorum_joint hj hold hnew).mp hS
    rw [quorumSize_joint hj hold]
    exact twoThresholds_le holdVotes hnewVotes

private theorem exists_card_eq_quorumSize (hc : c.isWellFormed = true) :
    ∃ S ⊆ c.members.toFinset, S.card = c.quorumSize ∧ c.hasQuorum S = true := by
  cases hj : c.joint with
  | none =>
    obtain ⟨hnodup, _⟩ := component_normal hc (m := c.members) (f := c.maxFaults) (by simp [components, hj])
    have hsize : c.quorumSize ≤ c.members.toFinset.card := by
      rw [List.toFinset_card_of_nodup hnodup, quorumSize, hj]
      exact Nat.sub_le _ _
    obtain ⟨S, hS, hcard⟩ := Finset.exists_subset_card_eq hsize
    refine ⟨S, hS, hcard, ?_⟩
    simp only [hasQuorum, hj, decide_eq_true_eq, contains]
    exact ⟨hcard.ge, fun v hv => List.mem_toFinset.mp (hS hv)⟩
  | some joint =>
    have hcold : (joint.oldMembers, joint.oldMaxFaults) ∈ c.components := by simp [components, hj]
    have hcnew : (joint.newMembers, c.maxFaults) ∈ c.components := by simp [components, hj]
    obtain ⟨hold, _⟩ := component_normal hc hcold
    obtain ⟨hnew, _⟩ := component_normal hc hcnew
    have holdSize : joint.oldMembers.length - joint.oldMaxFaults ≤ joint.oldMembers.toFinset.card :=
      (Nat.sub_le _ _).trans (List.toFinset_card_of_nodup hold).ge
    have hnewSize : joint.newMembers.length - c.maxFaults ≤ joint.newMembers.toFinset.card :=
      (Nat.sub_le _ _).trans (List.toFinset_card_of_nodup hnew).ge
    obtain ⟨S, hS, hcard, holdVotes, hnewVotes⟩ := exists_twoThresholds holdSize hnewSize
    refine ⟨S, fun r hr => ?_, hcard.trans (quorumSize_joint hj hold).symm, (hasQuorum_joint hj hold hnew).mpr
      ⟨holdVotes, hnewVotes⟩⟩
    rcases Finset.mem_union.mp (hS hr) with hr | hr
    · exact List.mem_toFinset.mpr (component_subset hc hcold (List.mem_toFinset.mp hr))
    · exact List.mem_toFinset.mpr (component_subset hc hcnew (List.mem_toFinset.mp hr))

end ClusterIdentity

/-! ### Giving up early -/

def failures (arrivals : List (Arrival V)) : Nat :=
  arrivals.countP fun arrival => match arrival with
    | .answered _ (.error _) => true
    | _ => false

structure GaveUp (collect : List (Arrival V) → Result (List (RecordReply V))) (arrivals : List (Arrival V)) : Prop where
  answers : ∀ arrival ∈ arrivals, ∃ recorder result, arrival = .answered recorder result
  exit : ∀ more, ∃ needed received, collect (arrivals ++ more) = .error (.quorumNotReached needed received)

theorem GaveUp.tail {collect collect' : List (Arrival V) → Result (List (RecordReply V))} {arrival : Arrival V}
    {rest : List (Arrival V)} (h : GaveUp collect (arrival :: rest))
    (hnext : ∀ arrivals, collect (arrival :: arrivals) = collect' arrivals) : GaveUp collect' rest where
  answers a ha := h.answers a (List.mem_cons_of_mem _ ha)
  exit more := by
    obtain ⟨needed, received, hexit⟩ := h.exit more
    exact ⟨needed, received, (hnext (rest ++ more)).symm.trans hexit⟩

theorem admitReply_not_short (cluster : Option ClusterIdentity) (expected : ReplicaId) (held : List (RecordReply V))
    (reply : RecordReply V) (needed received : Nat) :
    admitReply cluster expected held reply ≠ .error (.quorumNotReached needed received) := by
  simp only [admitReply, require, bind, Except.bind, pure, Except.pure]
  split_ifs <;> simp

theorem failures_ok (recorder : ReplicaId) (reply : RecordReply V) (rest : List (Arrival V)) :
    failures (.answered recorder (.ok reply) :: rest) = failures rest := by
  simp only [failures, List.countP_cons, Bool.false_eq_true, if_false, Nat.add_zero]

theorem failures_error (recorder : ReplicaId) (e : QuePaxaError) (rest : List (Arrival V)) :
    failures (.answered recorder (.error e) :: rest) = failures rest + 1 := by
  simp only [failures, List.countP_cons, if_true]

namespace ProposerCore

/-- What is held and outstanding when the loop gives up is short of the quorum. -/
theorem collectReplies_gaveUp {quorum : Nat} {cluster : Option ClusterIdentity} {held : List (RecordReply V)}
    {pending : Nat} (h : GaveUp (collectReplies quorum cluster held pending) arrivals) :
    held.length + pending < quorum + failures arrivals := by
  induction arrivals generalizing held pending with
  | nil =>
    -- a safety signal could still come next
    obtain ⟨_, _, hexit⟩ := h.exit [.answered 0 (.error .configurationMismatch)]
    simp only [List.nil_append, collectReplies, QuePaxaError.isSafetySignal, if_true] at hexit
    split_ifs at hexit
    cases hexit
  | cons arrival rest ih =>
    obtain ⟨recorder, result, rfl⟩ := h.answers arrival List.mem_cons_self
    have hfirst : ¬quorumReached held quorum cluster = true := by
      intro hq
      obtain ⟨_, _, hexit⟩ := h.exit []
      simp only [List.cons_append, collectReplies, hq, if_true] at hexit
      cases hexit
    cases result with
    | ok reply =>
      cases hadmit : admitReply cluster recorder held reply with
      | error e =>
        obtain ⟨needed, received, hexit⟩ := h.exit []
        simp only [List.cons_append, collectReplies, hfirst, hadmit] at hexit
        cases hexit
        exact absurd hadmit (admitReply_not_short _ _ _ _ _ _)
      | ok held' =>
        obtain ⟨rfl, _⟩ := admitReply_ok hadmit
        have hrest := ih (h.tail fun arrivals => by simp only [collectReplies, hfirst, hadmit]; rfl)
        rw [List.length_append, List.length_singleton] at hrest
        rw [failures_ok]
        omega
    | error e =>
      have hone := failures_error recorder e rest
      by_cases hsafe : e.isSafetySignal = true
      · obtain ⟨needed, received, hexit⟩ := h.exit []
        simp only [List.cons_append, collectReplies, hfirst, hsafe, if_true] at hexit
        cases hexit
        cases hsafe
      · by_cases hshort : held.length + (pending - 1) < quorum
        · omega
        · have hrest := ih (h.tail fun arrivals => by simp only [collectReplies, hfirst, hsafe, hshort]; rfl)
          omega

private theorem collectQuorum_gaveUp {quorum launched : Nat} {cluster : Option ClusterIdentity}
    (h : GaveUp (collectQuorum quorum cluster launched) arrivals) : launched < quorum + failures arrivals := by
  by_cases hlaunch : quorum ≤ launched
  · have hloop : GaveUp (collectReplies quorum cluster [] launched) arrivals := by
      refine ⟨h.answers, fun more => ?_⟩
      obtain ⟨needed, received, hexit⟩ := h.exit more
      rw [collectQuorum, require, if_pos hlaunch] at hexit
      exact ⟨needed, received, hexit⟩
    have hshort := collectReplies_gaveUp hloop
    rwa [List.length_nil, Nat.zero_add] at hshort
  · omega

end ProposerCore

namespace AsyncProposerCore

private theorem collectReplies_gaveUp {quorum : Nat} {cluster : ClusterIdentity} {held : List (RecordReply V)}
    {pending : Nat}
    (h : GaveUp (collectReplies quorum cluster held pending) arrivals) :
    held.length + pending < quorum + failures arrivals := by
  induction arrivals generalizing held pending with
  | nil =>
    obtain ⟨_, _, hexit⟩ := h.exit [.answered 0 (.error .configurationMismatch)]
    simp only [List.nil_append, collectReplies, QuePaxaError.isSafetySignal, if_true] at hexit
    cases hexit
  | cons arrival rest ih =>
    obtain ⟨recorder, result, rfl⟩ := h.answers arrival List.mem_cons_self
    cases result with
    | ok reply =>
      cases hadmit : admitReply (some cluster) recorder held reply with
      | error e =>
        obtain ⟨needed, received, hexit⟩ := h.exit []
        simp only [List.cons_append, collectReplies, hadmit] at hexit
        cases hexit
        exact absurd hadmit (admitReply_not_short _ _ _ _ _ _)
      | ok held' =>
        obtain ⟨rfl, _⟩ := admitReply_ok hadmit
        have hnone := failures_ok recorder reply rest
        by_cases hquorum : cluster.hasQuorum (recordersOf (held ++ [reply])) = true
        · obtain ⟨needed, received, hexit⟩ := h.exit []
          simp only [List.cons_append, collectReplies, hadmit, hquorum, Except.isOk, Except.toBool, and_self, if_true]
            at hexit
          cases hexit
        · by_cases hshort : (held ++ [reply]).length + (pending - 1) < quorum
          · rw [List.length_append, List.length_singleton] at hshort
            omega
          · have hrest := ih (h.tail fun arrivals => by simp only [collectReplies, hadmit, hquorum, hshort]; rfl)
            rw [List.length_append, List.length_singleton] at hrest
            omega
    | error e =>
      have hone := failures_error recorder e rest
      by_cases hsafe : e.isSafetySignal = true
      · obtain ⟨needed, received, hexit⟩ := h.exit []
        simp only [List.cons_append, collectReplies, hsafe, if_true] at hexit
        cases hexit
        cases hsafe
      · by_cases hshort : held.length + (pending - 1) < quorum
        · omega
        · have hnext : ∀ arrivals, collectReplies quorum cluster held pending
            (.answered recorder (.error e) :: arrivals) =
              collectReplies quorum cluster held (pending - 1) arrivals := by
            intro arrivals
            simp only [collectReplies, hsafe, Bool.false_eq_true, if_false, Except.isOk, Except.toBool, false_and,
              hshort]
          have hrest := ih (h.tail hnext)
          omega

end AsyncProposerCore

/-- The quorum size of a well-formed epoch is the smallest size of a quorum. A collector that
gives up early therefore has fewer replies, those outstanding included, than any quorum needs. -/
theorem ClusterIdentity.quorumSize_is_minimum (c : ClusterIdentity) (hc : c.isWellFormed = true) :
    (∀ S : Finset ReplicaId, c.hasQuorum S = true → c.quorumSize ≤ S.card) ∧
    (∃ S ⊆ c.members.toFinset, S.card = c.quorumSize ∧ c.hasQuorum S = true) ∧
    (∀ {V : Type} (launched : Nat) (arrivals : List (Arrival V)),
      GaveUp (ProposerCore.collectQuorum c.quorumSize (some c) launched) arrivals →
      ∀ S, c.hasQuorum S = true → launched < S.card + failures arrivals) ∧
    ∀ {V : Type} (launched : Nat) (arrivals : List (Arrival V)),
      GaveUp (AsyncProposerCore.collectQuorum c.quorumSize c launched) arrivals →
      ∀ S, c.hasQuorum S = true → launched < S.card + failures arrivals := by
  refine ⟨fun S hS => quorumSize_le_card hc hS, exists_card_eq_quorumSize hc, ?_, ?_⟩
  · intro V launched arrivals hgave S hS
    have hshort := ProposerCore.collectQuorum_gaveUp hgave
    have hleast := quorumSize_le_card hc hS
    omega
  · intro V launched arrivals hgave S hS
    have hshort := AsyncProposerCore.collectReplies_gaveUp hgave
    have hleast := quorumSize_le_card hc hS
    rw [List.length_nil, Nat.zero_add] at hshort
    omega

/-- Of the four voters that replace one of three, two shared ones make a quorum; with three
requests failed, one reply cannot. -/
theorem ClusterIdentity.quorumSize_is_minimum_replacing :
    let joint : ClusterIdentity := ⟨[1, 2, 3, 4], 1, 1, some ⟨[1, 2, 3], 1, [2, 3, 4]⟩⟩
    let down : List (Arrival Nat) := [2, 3, 4].map fun id => .answered id (.error (.transportError "down"))
    joint.quorumSize = 2 ∧ joint.hasQuorum {2, 3} = true ∧
      (∃ S ⊆ joint.members.toFinset, S.card = 2 ∧ joint.hasQuorum S = true) ∧
    GaveUp (ProposerCore.collectQuorum joint.quorumSize (some joint) 4) down ∧
      (∀ S, joint.hasQuorum S = true → 1 < S.card) ∧
    ∀ S, joint.hasQuorum S = true → 4 < S.card + failures down := by
  intro joint down
  obtain ⟨hleast, hexists, hblocking, hasync⟩ := quorumSize_is_minimum joint (by decide)
  have hanswers : ∀ arrival ∈ down, ∃ recorder result, arrival = .answered recorder result := by simp [down]
  have hgave : GaveUp (ProposerCore.collectQuorum joint.quorumSize (some joint) 4) down :=
    ⟨hanswers, fun more => ⟨2, 0, rfl⟩⟩
  have hgave' : GaveUp (AsyncProposerCore.collectQuorum joint.quorumSize joint 4) down :=
    ⟨hanswers, fun more => ⟨2, 0, rfl⟩⟩
  refine ⟨rfl, by decide, hexists, hgave, fun S hS => ?_, hasync 4 down hgave'⟩
  have hshort : 4 < S.card + 3 := hblocking 4 down hgave S hS
  omega

end QuePaxa
