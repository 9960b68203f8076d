import QuePaxa.Core.Proposer
import QuePaxa.Library.IntervalHistory

/-! What a collected quorum consists of and what one step of the loop can conclude. -/
namespace QuePaxa
open Library
variable {V : Type}
variable {replies held : List (RecordReply V)} {arrivals : List (Arrival V)}
  {cluster : Option ClusterIdentity} {reply : RecordReply V} {p proposal : Proposal V}
  {leader : Option ReplicaId} {step : Step} {quorum : Nat} {outcome : StepOutcome V} {call : ProposeCall V}

theorem maxProposalByKey_eq (proposals : List (Proposal V)) :
    maxProposalByKey proposals = bestOf Proposal.key proposals := by
  have hbest : ∀ held : Option (Proposal V), ∀ p, bestProposal held p = better Proposal.key held p := by
    intro held p
    cases held <;> rfl
  simp only [maxProposalByKey, bestOf, hbest]

theorem Proposal.new_ok {key : ProposalKey} {values : List V}
    (h : Proposal.new key values = .ok p) : p = ⟨key, values⟩ := by
  simp only [Proposal.new] at h
  split_ifs at h
  cases h
  rfl

theorem ProposerCore.begin_ok {core : ProposerCore}
    (h : core.begin call = .ok (quorum, p)) : p = ⟨⟨Priority.max, core.replicaId, core.laneId⟩, call.valueIds⟩ := by
  simp only [ProposerCore.begin, except_bind_eq_ok, pure, Except.pure, Except.ok.injEq,
    Prod.mk.injEq] at h
  obtain ⟨_, _, _, _, _, _, p', hp, _, rfl⟩ := h
  exact Proposal.new_ok hp

theorem AsyncProposerCore.begin_ok {core : AsyncProposerCore} (h : core.begin call = .ok (quorum, p)) :
    p = ⟨⟨Priority.max, core.replicaId, core.laneId⟩, call.valueIds⟩ := by
  simp only [AsyncProposerCore.begin, except_bind_eq_ok, pure, Except.pure, Except.ok.injEq,
    Prod.mk.injEq] at h
  obtain ⟨_, _, _, _, p', hp, _, rfl⟩ := h
  exact Proposal.new_ok hp

/-- Either the priority is drawn, in phase 0, or the proposal goes out as it is. -/
theorem proposalFor_ok {self : ReplicaId}
    {draw : Result Priority} (h : proposalFor self leader step proposal draw = .ok p) :
    (step % 4 = 0 ∧ ∃ priority, draw = .ok priority ∧ p = proposal.withPriority priority) ∨
      (p = proposal ∧ (step = Step.roundOnePhaseZero → leader = some self)) := by
  simp only [proposalFor] at h
  split_ifs at h with hdraw
  · cases hd : draw with
    | error e =>
      rw [hd] at h
      cases h
    | ok priority =>
      rw [hd] at h
      cases h
      exact .inl ⟨hdraw.1, priority, rfl, rfl⟩
  · cases h
    refine .inr ⟨rfl, fun hstep => ?_⟩
    by_contra hleader
    exact hdraw ⟨by rw [hstep]; rfl, .inr hleader⟩

theorem stepRequests_ok {self : ReplicaId} {known : List (Decision V)}
    {draws : ReplicaId → Result Priority} {requests : List (ReplicaId × RecordRequest V)}
    (h : stepRequests self call known step proposal draws = .ok requests) {r : ReplicaId × RecordRequest V}
    (hr : r ∈ requests) : ∃ p, proposalFor self call.leader step proposal (draws r.1) = .ok p ∧
      r.2 = ⟨self, call.slot, call.leader, step, p, known⟩ := by
  obtain ⟨id, _, hid⟩ := mem_of_mapM_eq_ok h hr
  simp only [except_bind_eq_ok, pure, Except.pure, Except.ok.injEq] at hid
  obtain ⟨p, hp, rfl⟩ := hid
  exact ⟨p, hp, rfl⟩

theorem admitReply_ok {expected : ReplicaId} {replies' : List (RecordReply V)}
    (h : admitReply cluster expected replies reply = .ok replies') :
    replies' = replies ++ [reply] ∧ reply.recorder = expected ∧ (∀ c ∈ cluster, reply.cluster = c) ∧
      reply.recorder ∉ replies.map (·.recorder) := by
  simp only [admitReply, unit_bind_eq_ok, require_eq_ok, pure, Except.pure, Except.ok.injEq] at h
  obtain ⟨hexp, hcluster, hnew, rfl⟩ := h
  exact ⟨rfl, hexp, hcluster, hnew⟩

theorem nodup_recorders_concat
    (hheld : (held.map (·.recorder)).Nodup) (hnew : reply.recorder ∉ held.map (·.recorder)) :
    ((held ++ [reply]).map (·.recorder)).Nodup := by
  rw [List.map_append, List.map_singleton, ← List.concat_eq_append]
  exact hheld.concat hnew

structure Collected (cluster : Option ClusterIdentity) (arrivals : List (Arrival V))
    (reply : RecordReply V) : Prop where
  arrived : Arrival.answered reply.recorder (.ok reply) ∈ arrivals
  cluster : ∀ c ∈ cluster, reply.cluster = c

structure Gathered (cluster : Option ClusterIdentity) (arrivals : List (Arrival V))
    (replies : List (RecordReply V)) : Prop where
  collected : ∀ reply ∈ replies, Collected cluster arrivals reply
  distinct : (replies.map (·.recorder)).Nodup

section
variable {cluster : Option ClusterIdentity} {arrivals : List (Arrival V)} {held held' : List (RecordReply V)}

theorem Gathered.nil : Gathered cluster arrivals [] :=
  ⟨fun _ hr => (nomatch hr), List.nodup_nil⟩

theorem Gathered.admitted (h : Gathered cluster arrivals held) {expected : ReplicaId}
    (harrived : .answered expected (.ok reply) ∈ arrivals) (ha : admitReply cluster expected held reply = .ok held') :
    Gathered cluster arrivals held' := by
  obtain ⟨rfl, rfl, hcluster, hnew⟩ := admitReply_ok ha
  refine ⟨fun r hr => ?_, ?_⟩
  · rcases List.mem_append.mp hr with hr | hr
    · exact h.collected r hr
    · rw [List.mem_singleton.mp hr]
      exact ⟨harrived, hcluster⟩
  · exact nodup_recorders_concat h.distinct hnew

end

namespace ProposerCore

private theorem collectReplies_ok {pending : Nat}
    {all : List (Arrival V)} (hall : ∀ arrival ∈ arrivals, arrival ∈ all) (hheld : Gathered cluster all held)
    (h : collectReplies quorum cluster held pending arrivals = .ok replies) :
    quorumReached replies quorum cluster = true ∧ Gathered cluster all replies := by
  induction arrivals generalizing held pending with
  | nil =>
    simp only [collectReplies] at h
    split_ifs at h with hq
    cases h
    exact ⟨hq, hheld⟩
  | cons arrival rest ih =>
    have hrest : ∀ a ∈ rest, a ∈ all := fun a ha => hall a (List.mem_cons_of_mem _ ha)
    simp only [collectReplies] at h
    by_cases hq : quorumReached held quorum cluster = true
    · rw [if_pos hq] at h
      cases h
      exact ⟨hq, hheld⟩
    rw [if_neg hq] at h
    rcases arrival with ⟨expected, e | reply⟩ | _ | _
    · simp only at h
      split_ifs at h
      exact ih hrest hheld h
    · cases ha : admitReply cluster expected held reply with
      | error e => simp [ha] at h
      | ok held' =>
        simp only [ha] at h
        exact ih hrest (hheld.admitted (hall _ List.mem_cons_self) ha) h
    · cases h
    · cases h

theorem collectQuorum_ok {launched : Nat} (h : collectQuorum quorum cluster launched arrivals = .ok replies) :
    quorumReached replies quorum cluster = true ∧ Gathered cluster arrivals replies := by
  simp only [collectQuorum, unit_bind_eq_ok] at h
  exact collectReplies_ok (fun _ ha => ha) .nil h.2

end ProposerCore

namespace AsyncProposerCore

private theorem collectReplies_ok {cluster : ClusterIdentity} {pending : Nat}
    {all : List (Arrival V)} (hall : ∀ arrival ∈ arrivals, arrival ∈ all) (hheld : Gathered (some cluster) all held)
    (h : collectReplies quorum cluster held pending arrivals = .ok replies) :
    quorumReached replies quorum (some cluster) = true ∧ Gathered (some cluster) all replies := by
  induction arrivals generalizing held pending with
  | nil => simp [collectReplies] at h
  | cons arrival rest ih =>
    have hrest : ∀ a ∈ rest, a ∈ all := fun a ha => hall a (List.mem_cons_of_mem _ ha)
    match arrival, hall, h with
    | .timedOut, _, h => simp [collectReplies] at h
    | .disconnected, _, h => simp [collectReplies] at h
    | .answered expected (.error e), _, h =>
      simp only [collectReplies] at h
      by_cases hs : e.isSafetySignal = true
      · simp [hs] at h
      · simp only [hs, Except.isOk, Except.toBool, Bool.false_eq_true, false_and, if_false] at h
        split_ifs at h
        exact ih hrest hheld h
    | .answered expected (.ok reply), hall, h =>
      simp only [collectReplies] at h
      cases ha : admitReply (some cluster) expected held reply with
      | error e => simp [ha] at h
      | ok held' =>
        have hnew := hheld.admitted (hall _ List.mem_cons_self) ha
        simp only [ha] at h
        split_ifs at h with hq
        · cases h
          exact ⟨hq.2, hnew⟩
        · exact ih hrest hnew h

theorem collectQuorum_ok {requests : Nat} {cluster : ClusterIdentity}
    (h : collectQuorum quorum cluster requests arrivals = .ok replies) :
    quorumReached replies quorum (some cluster) = true ∧ Gathered (some cluster) arrivals replies :=
  collectReplies_ok (fun _ ha => ha) .nil h

end AsyncProposerCore

structure FastPath (step : Step) (replies : List (RecordReply V)) (leader : Option ReplicaId)
    (winner : Proposal V) : Prop where
  step : step = Step.roundOnePhaseZero
  priority : winner.key.priority = Priority.max
  leader : leader = some winner.key.proposerId
  some : ∃ reply ∈ replies, reply.summary.first = some winner
  all : ∀ reply ∈ replies, ∃ f, reply.summary.first = .some f ∧ f.key = winner.key

theorem fastPathWinner_eq_some {winner : Proposal V} (h : fastPathWinner step replies leader = some winner) :
    FastPath step replies leader winner := by
  simp only [fastPathWinner] at h
  split_ifs at h with hstep
  cases hhead : replies.head?.bind (·.summary.first) with
  | none => simp [hhead] at h
  | some first =>
    simp only [hhead] at h
    split_ifs at h with hprio hleader hall
    cases h
    obtain ⟨reply, hreply, hfirst⟩ := Option.bind_eq_some_iff.mp hhead
    refine ⟨not_not.mp hstep, ?_, not_not.mp hleader, ⟨reply, List.mem_of_mem_head? hreply, hfirst⟩, ?_⟩
    · simpa [Priority.isLeaderPriority] using hprio
    · intro r hr
      have hany := List.all_eq_true.mp hall r hr
      simpa [Option.any_eq_true] using hany

theorem StepOutcome.advance_ok (h : StepOutcome.advance step proposal = .ok outcome) :
    step < u64Max ∧ outcome = .next (step + 1) proposal := by
  simp only [StepOutcome.advance, Step.checkedNext] at h
  split_ifs at h with hlt
  cases h
  exact ⟨hlt, rfl⟩

theorem StepOutcome.decide_ok {slot : SlotIndex} {winner : Proposal V}
    (h : StepOutcome.decide slot winner step = .ok outcome) :
    outcome = .decided ⟨slot, winner.valueIds, winner.key.proposerId, step⟩ := by
  by_cases hempty : winner.valueIds = []
  · simp only [StepOutcome.decide, Decision.new, hempty] at h
    cases h
  · simp only [StepOutcome.decide, Decision.new, hempty, if_false] at h
    exact (Except.ok.inj h).symm

private theorem latestReply_concat (replies : List (RecordReply V)) (reply : RecordReply V) :
    latestReply (replies ++ [reply]) = match latestReply replies with
      | some held => if held.summary.step ≤ reply.summary.step then some reply else some held
      | none => some reply := by
  rw [latestReply, List.foldl_append]
  rfl

/-- The latest reply is one of them, and none is at a later step. -/
theorem latestReply_spec (replies : List (RecordReply V)) : (latestReply replies = none ∧ replies = []) ∨
    ∃ latest, latestReply replies = some latest ∧ latest ∈ replies ∧
      ∀ reply ∈ replies, reply.summary.step ≤ latest.summary.step := by
  induction replies using List.reverseRecOn with
  | nil => exact .inl ⟨rfl, rfl⟩
  | append_singleton replies reply ih =>
    right
    rw [latestReply_concat]
    rcases ih with ⟨hnone, rfl⟩ | ⟨held, hheld, hmem, hmax⟩
    · exact ⟨reply, by rw [hnone], by simp, by simp⟩
    · rw [hheld]
      by_cases hle : held.summary.step ≤ reply.summary.step
      · refine ⟨reply, if_pos hle, by simp, fun r hr => ?_⟩
        rcases List.mem_append.mp hr with hr | hr
        · exact (hmax r hr).trans hle
        · rw [List.mem_singleton.mp hr]
      · refine ⟨held, if_neg hle, List.mem_append_left _ hmem, fun r hr => ?_⟩
        rcases List.mem_append.mp hr with hr | hr
        · exact hmax r hr
        · rw [List.mem_singleton.mp hr]
          exact le_of_lt (not_le.mp hle)

private theorem latestReply_mem (h : latestReply replies = some reply) : reply ∈ replies := by
  rcases latestReply_spec replies with ⟨hnone, _⟩ | ⟨latest, hlatest, hmem, _⟩
  · rw [hnone] at h
    cases h
  · rw [hlatest] at h
    cases h
    exact hmem

inductive Concludes (slot : SlotIndex) (leader : Option ReplicaId) (step : Step) (proposal : Proposal V)
    (replies : List (RecordReply V)) : StepOutcome V → Prop
  | adopted {reply : RecordReply V} {decision : Decision V} (mem : reply ∈ replies)
      (held : reply.decision = some decision) (slot_eq : decision.slot = slot) :
      Concludes slot leader step proposal replies (.decided decision)
  | fast {winner : Proposal V} (same : ∀ reply ∈ replies, reply.summary.step = step)
      (path : FastPath step replies leader winner) : Concludes slot leader step proposal replies
        (.decided ⟨slot, winner.valueIds, winner.key.proposerId, step⟩)
  | lead {best : Proposal V} (same : ∀ reply ∈ replies, reply.summary.step = step) (phase : step % 4 = 0)
      (room : step < u64Max) (max : bestOf Proposal.key (replies.filterMap (·.summary.first)) = some best) :
      Concludes slot leader step proposal replies (.next (step + 1) best)
  | spread (same : ∀ reply ∈ replies, reply.summary.step = step) (phase : step % 4 = 1 ∨ step % 4 = 2)
      (room : step < u64Max) : Concludes slot leader step proposal replies (.next (step + 1) proposal)
  | slow (same : ∀ reply ∈ replies, reply.summary.step = step) (phase : step % 4 = 2)
      (max : bestOf Proposal.key (replies.filterMap (·.summary.priorAggregate)) = some proposal) :
      Concludes slot leader step proposal replies
        (.decided ⟨slot, proposal.valueIds, proposal.key.proposerId, step⟩)
  | gather (same : ∀ reply ∈ replies, reply.summary.step = step) (phase : step % 4 = 3) (room : step < u64Max) :
      Concludes slot leader step proposal replies (.next (step + 1)
        ((bestOf Proposal.key (replies.filterMap (·.summary.priorAggregate))).getD proposal))
  | jump {reply : RecordReply V} {first : Proposal V} (mem : reply ∈ replies)
      (ahead : step < reply.summary.step) (held : reply.summary.first = some first) :
      Concludes slot leader step proposal replies (.next reply.summary.step first)
  | stay : Concludes slot leader step proposal replies (.next step proposal)

private theorem catchUp_ok {slot : SlotIndex} (h : catchUp step proposal replies = .ok outcome) :
    Concludes slot leader step proposal replies outcome := by
  simp only [catchUp] at h
  cases hlatest : latestReply replies with
  | none =>
    simp only [hlatest] at h
    cases h
    exact .stay
  | some reply =>
    simp only [hlatest] at h
    split_ifs at h with hahead
    · cases hfirst : reply.summary.first with
      | none => simp [hfirst] at h
      | some first =>
        simp only [hfirst] at h
        cases h
        exact .jump (latestReply_mem hlatest) hahead hfirst
    · cases h
      exact .stay

private theorem mod_four_eq_three {n : Nat} (h0 : n % 4 ≠ 0) (h1 : n % 4 ≠ 1) (h2 : n % 4 ≠ 2) : n % 4 = 3 := by
  omega

section
variable [DecidableEq V] {slot : SlotIndex} {leader : Option ReplicaId} {step : Step} {proposal : Proposal V}
  {replies : List (RecordReply V)} {outcome : StepOutcome V}

private theorem finishPhase_ok (same : ∀ reply ∈ replies, reply.summary.step = step)
    (h : finishPhase slot leader step proposal replies = .ok outcome) :
    Concludes slot leader step proposal replies outcome := by
  have hphase : step.phase = step % 4 := rfl
  simp only [finishPhase, maxFirst, maxPrior, maxProposalByKey_eq, hphase] at h
  split at h
  · next h0 =>
    cases hfast : fastPathWinner step replies leader with
    | some winner =>
      simp only [hfast] at h
      rw [StepOutcome.decide_ok h]
      exact .fast same (fastPathWinner_eq_some hfast)
    | none =>
      simp only [hfast] at h
      cases hmax : bestOf Proposal.key (replies.filterMap (·.summary.first)) with
      | none => simp [hmax] at h
      | some best =>
        simp only [hmax] at h
        obtain ⟨hroom, rfl⟩ := StepOutcome.advance_ok h
        exact .lead same h0 hroom hmax
  · next h1 =>
    obtain ⟨hroom, rfl⟩ := StepOutcome.advance_ok h
    exact .spread same (.inl h1) hroom
  · next h2 =>
    split_ifs at h with hmax
    · rw [StepOutcome.decide_ok h]
      exact .slow same h2 hmax
    · obtain ⟨hroom, rfl⟩ := StepOutcome.advance_ok h
      exact .spread same (.inr h2) hroom
  · next h0 h1 h2 =>
    obtain ⟨hroom, rfl⟩ := StepOutcome.advance_ok h
    exact .gather same (mod_four_eq_three h0 h1 h2) hroom

private theorem finishPhase_next {next : Step}
    (h : finishPhase slot leader step proposal replies = .ok (.next next p)) : step < next := by
  have hadvance : ∀ q, StepOutcome.advance step q = .ok (.next next p) → step < next := by
    intro q hq
    obtain ⟨_, hnext⟩ := StepOutcome.advance_ok hq
    cases hnext
    exact Nat.lt_succ_self _
  have hdecide : ∀ q, StepOutcome.decide slot q step ≠ .ok (.next next p) := by
    intro q hq
    cases StepOutcome.decide_ok hq
  simp only [finishPhase] at h
  split at h
  · split at h
    · exact absurd h (hdecide _)
    · split at h
      · exact hadvance _ h
      · cases h
  · exact hadvance _ h
  · split_ifs at h
    · exact absurd h (hdecide _)
    · exact hadvance _ h
  · exact hadvance _ h

/-- The loop body goes on at a later step, unless some reply is behind the proposer's own step. -/
theorem concludeStep_next {next : Step}
    (h : concludeStep slot leader step proposal replies = .ok (.next next p))
    (hahead : ∀ reply ∈ replies, step ≤ reply.summary.step) : step < next := by
  simp only [concludeStep] at h
  cases hd : replies.findSome? (·.decision) with
  | some decision =>
    simp only [hd] at h
    split_ifs at h
    cases h
  | none =>
    simp only [hd] at h
    split_ifs at h with hsame
    · exact finishPhase_next h
    rcases latestReply_spec replies with ⟨_, rfl⟩ | ⟨latest, hlatest, _, hmax⟩
    · exact absurd rfl hsame
    simp only [catchUp, hlatest] at h
    split_ifs at h with hlater
    · cases hfirst : latest.summary.first with
      | none => simp [hfirst] at h
      | some first =>
        simp only [hfirst] at h
        cases h
        exact hlater
    · -- no reply is ahead and none is behind, so all are at this step
      refine absurd ?_ hsame
      simp only [List.all_eq_true, decide_eq_true_eq]
      intro reply hr
      exact le_antisymm ((hmax reply hr).trans (not_lt.mp hlater)) (hahead reply hr)

theorem concludeStep_ok (h : concludeStep slot leader step proposal replies = .ok outcome) :
    Concludes slot leader step proposal replies outcome := by
  simp only [concludeStep] at h
  cases hd : replies.findSome? (·.decision) with
  | some decision =>
    simp only [hd] at h
    split_ifs at h with hbad
    cases h
    obtain ⟨reply, hmem, hheld⟩ := List.exists_of_findSome?_eq_some hd
    exact .adopted hmem hheld (not_not.mp (not_or.mp hbad).1)
  | none =>
    simp only [hd] at h
    split_ifs at h with hsame
    · exact finishPhase_ok (by simpa using hsame) h
    · exact catchUp_ok h

end
end QuePaxa
