import QuePaxa.Protocol.Availability
import QuePaxa.Protocol.Termination

/-! What lets a step of the propose loop come to a conclusion. Two quorums of one call share
a recorder; a register that has taken in a proposal in phase 1 reports it in phase 2; and in
phase 2 such reports decide. -/
namespace QuePaxa
open Library
variable {V : Type}

private theorem ProposerCore.validateRecorders_majority {recorders : List ReplicaId} {proposer : ReplicaId}
    {configured : Option Nat}
    {quorum : Nat} (h : validateRecorders recorders proposer configured none = .ok quorum) :
    recorders.length / 2 + 1 ≤ quorum := by
  simp only [validateRecorders, quorumSize, except_bind_eq_ok] at h
  obtain ⟨majority, hmajority, _, _, _, _, h⟩ := h
  split_ifs at hmajority
  obtain rfl := Except.ok.inj hmajority
  cases configured with
  | none =>
    cases h
    exact le_refl _
  | some chosen =>
    simp only [unit_bind_eq_ok, require_eq_ok, pure, Except.pure, Except.ok.injEq] at h
    obtain ⟨⟨hmajority, _⟩, rfl⟩ := h
    exact hmajority

theorem Proposer.HasQuorum.inter {proposer : Proposer} {call : ProposeCall V} {S T : Finset ReplicaId}
    (hC : ∀ c ∈ proposer.cluster, c.isWellFormed = true) (hS : proposer.HasQuorum call S)
    (hT : proposer.HasQuorum call T)
    (hS' : S ⊆ call.recorders.toFinset) (hT' : T ⊆ call.recorders.toFinset) : ∃ r, r ∈ S ∧ r ∈ T := by
  simp only [HasQuorum] at hS hT
  cases hcluster : proposer.cluster with
  | some cluster =>
    rw [hcluster] at hS hT
    obtain ⟨r, _, hr⟩ := ClusterIdentity.quorum_inter (hC cluster hcluster) hS hT
    exact ⟨r, hr⟩
  | none =>
    rw [hcluster] at hS hT
    obtain ⟨n, p, hbegin, hn⟩ := hS
    obtain ⟨n', p', hbegin', hn'⟩ := hT
    cases proposer with
    | async core => cases hcluster
    | blocking core =>
      have hnone : core.config.cluster = none := hcluster
      have hmajority : ∀ n p, core.begin call = .ok (n, p) → call.recorders.length / 2 + 1 ≤ n := by
        intro n p h
        simp only [ProposerCore.begin, hnone, except_bind_eq_ok, pure, Except.pure, Except.ok.injEq, Prod.mk.injEq] at h
        obtain ⟨quorum, hquorum, _, _, _, _, _, _, rfl, _⟩ := h
        exact ProposerCore.validateRecorders_majority hquorum
      have hm := hmajority n p hbegin
      have hm' := hmajority n' p' hbegin'
      have hlength : call.recorders.toFinset.card ≤ call.recorders.length := List.toFinset_card_le _
      obtain ⟨r, hr⟩ := Finset.inter_nonempty_of_card_lt_card_add_card hS' hT' (by omega)
      exact ⟨r, Finset.mem_inter.mp hr⟩

namespace IntervalSummaryRegister

/-- The register has not passed `limit`, or only together with a proposer that is at `step`
with proposal `p`. -/
structure Trails (limit step : Step) (p : Proposal V) (g : IntervalSummaryRegister V) : Prop where
  bound : g.step ≤ max limit step
  current : limit < g.step → g.currentAggregate = some p
  prior : g.step = limit + 2 → g.priorAggregate = none ∨ g.priorAggregate = some p

def Confirms (limit : Step) (p : Proposal V) (g : IntervalSummaryRegister V) : Prop :=
  g.step = limit + 1 ∧ g.currentAggregate = some p ∨ g.step = limit + 2 ∧ g.priorAggregate = some p

theorem bestProposal_self (p : Proposal V) : bestProposal (some p) p = p := by simp [bestProposal]

section
variable {limit step s : Step} {p q : Proposal V} {g : IntervalSummaryRegister V}

theorem trails_default : (default : IntervalSummaryRegister V).Trails limit step p := by
  refine ⟨Nat.zero_le _, fun h => absurd h (Nat.not_lt_zero _), fun _ => .inl rfl⟩

theorem Trails.move (h : g.Trails limit step p) (hstep : step ≤ limit) (step' : Step) (p' : Proposal V) :
    g.Trails limit step' p' := by
  have hbound : g.step ≤ limit := h.bound.trans (max_le (le_refl _) hstep)
  refine ⟨hbound.trans (le_max_left _ _), fun hlt => absurd hbound (not_le.mpr hlt), fun heq => ?_⟩
  rw [heq] at hbound
  exact absurd hbound (by lia)

theorem Trails.later (h : g.Trails limit step p) {step' : Step} (hstep : step ≤ step') : g.Trails limit step' p :=
  ⟨h.bound.trans (max_le_max (le_refl _) hstep), h.current, h.prior⟩

/-- A request beyond the limit comes from the proposer, at or behind its step. -/
theorem Trails.advance (h : g.Trails limit step p) (hrequest : limit < s → s ≤ step ∧ q = p) :
    (g.advance s q).Trails limit step p := by
  rcases lt_trichotomy s g.step with hlt | heq | hgt
  · rwa [advance_of_lt _ hlt]
  · subst heq
    refine ⟨by rw [advance_step, max_self]; exact h.bound, fun hlimit => ?_, fun hprior => ?_⟩
    · rw [advance_step, max_self] at hlimit
      obtain ⟨_, rfl⟩ := hrequest hlimit
      simp only [IntervalSummaryRegister.advance, if_true, h.current hlimit, bestProposal_self]
    · rw [advance_step, max_self] at hprior
      simp only [IntervalSummaryRegister.advance, if_true]
      exact h.prior hprior
  · have hnew : (g.advance s q).step = s := by rw [advance_step, max_eq_right (le_of_lt hgt)]
    have hlater : g.advance s q =
        ⟨s, some q, some q, if Step.isNextAfter s g.step then g.currentAggregate else none⟩ := by
      rw [IntervalSummaryRegister.advance, if_neg (ne_of_gt hgt), if_pos hgt]
    refine ⟨?_, fun hlimit => ?_, fun hprior => ?_⟩
    · rw [hnew]
      rcases le_or_gt s limit with hle | hlimit
      · exact hle.trans (le_max_left _ _)
      · exact (hrequest hlimit).1.trans (le_max_right _ _)
    · rw [hnew] at hlimit
      rw [hlater, (hrequest hlimit).2]
    · rw [hnew] at hprior
      rw [hlater]
      split_ifs with hnext
      · -- the step before is the one right after the limit
        have hprevious : g.step = limit + 1 := by
          simp only [Step.isNextAfter, Step.checkedNext] at hnext
          split_ifs at hnext with hroom
          · have := Option.some.inj (of_decide_eq_true hnext)
            lia
          · cases hnext
        exact .inr (h.current (by lia))
      · exact .inl rfl

theorem Confirms.advance (h : g.Confirms limit p) (hstep : step ≤ limit + 2) (hroom : limit + 2 ≤ u64Max)
    (hrequest : limit < s → s ≤ step ∧ q = p) : (g.advance s q).Confirms limit p := by
  rcases lt_trichotomy s g.step with hlt | heq | hgt
  · rwa [advance_of_lt _ hlt]
  · subst heq
    rcases h with ⟨hs, hcurrent⟩ | ⟨hs, hprior⟩
    · obtain ⟨_, rfl⟩ := hrequest (by lia)
      refine .inl ⟨by rw [advance_step, max_self, hs], ?_⟩
      simp only [IntervalSummaryRegister.advance, if_true, hcurrent, bestProposal_self]
    · refine .inr ⟨by rw [advance_step, max_self, hs], ?_⟩
      simp only [IntervalSummaryRegister.advance, if_true, hprior]
  · rcases h with ⟨hs, hcurrent⟩ | ⟨hs, _⟩
    · obtain ⟨hle, rfl⟩ := hrequest (by lia)
      have hs' : s = limit + 2 := by lia
      refine .inr ⟨by rw [advance_step, max_eq_right (le_of_lt hgt), hs'], ?_⟩
      have hnext : Step.isNextAfter s g.step = true := by
        have hlt : limit + 1 < u64Max := by lia
        simp only [Step.isNextAfter, Step.checkedNext, hs, hs', hlt, if_true, decide_true]
      rw [IntervalSummaryRegister.advance, if_neg (ne_of_gt hgt), if_pos hgt, hnext, if_pos rfl, hcurrent]
    · obtain ⟨hle, _⟩ := hrequest (by lia)
      exact absurd hgt (by lia)

end
end IntervalSummaryRegister

section
variable {slot : SlotIndex} {leader : Option ReplicaId} {step : Step} {proposal : Proposal V}
  {replies : List (RecordReply V)}

private theorem StepOutcome.advance_eq (h : step < u64Max) (p : Proposal V) :
    advance step p = .ok (.next (step + 1) p) := by
  simp only [advance, Step.checkedNext, h, if_true]

theorem StepOutcome.decide_eq {winner : Proposal V} (h : winner.valueIds ≠ []) :
    StepOutcome.decide slot winner step = .ok (.decided ⟨slot, winner.valueIds, winner.key.proposerId, step⟩) := by
  simp only [StepOutcome.decide, Decision.new, h, if_false]
  rfl

structure Conclusive (slot : SlotIndex) (step : Step) (replies : List (RecordReply V)) : Prop where
  nonempty : replies ≠ []
  ahead : ∀ reply ∈ replies, step ≤ reply.summary.step
  first : ∀ reply ∈ replies, reply.summary.first.isSome = true
  carries : ∀ reply ∈ replies, reply.Carries (fun p => p.valueIds ≠ []) (fun d => d.slot = slot ∧ d.valueIds ≠ [])

variable [DecidableEq V]

private theorem Conclusive.finishes (h : Conclusive slot step replies) (hroom : step < u64Max)
    (hproposal : proposal.valueIds ≠ []) : ∃ outcome, finishPhase slot leader step proposal replies = .ok outcome := by
  simp only [finishPhase, StepOutcome.advance_eq hroom]
  split
  · cases hfast : fastPathWinner step replies leader with
    | some winner =>
      obtain ⟨reply, hr, hfirst⟩ := (fastPathWinner_eq_some hfast).some
      exact ⟨_, StepOutcome.decide_eq ((h.carries reply hr).first winner hfirst)⟩
    | none =>
      cases hmax : maxFirst replies with
      | some best => exact ⟨_, rfl⟩
      | none =>
        -- some reply shows a first proposal, so there is a best one
        rw [maxFirst, maxProposalByKey_eq, bestOf_eq_none] at hmax
        obtain ⟨reply, hr⟩ := List.exists_mem_of_ne_nil _ h.nonempty
        obtain ⟨p, hp⟩ := Option.isSome_iff_exists.mp (h.first reply hr)
        have hmem : p ∈ replies.filterMap (·.summary.first) := List.mem_filterMap.mpr ⟨reply, hr, hp⟩
        rw [hmax] at hmem
        cases hmem
  · exact ⟨_, rfl⟩
  · split_ifs
    · exact ⟨_, StepOutcome.decide_eq hproposal⟩
    · exact ⟨_, rfl⟩
  · exact ⟨_, rfl⟩

/-- A decision that a reply reports is adopted. -/
theorem Conclusive.adopts (h : Conclusive slot step replies) {d : Decision V}
    (hfound : replies.findSome? (·.decision) = some d) :
    d.slot = slot ∧ concludeStep slot leader step proposal replies = .ok (.decided d) := by
  obtain ⟨reply, hr, hd⟩ := List.exists_of_findSome?_eq_some hfound
  obtain ⟨hslot, hvalues⟩ := (h.carries reply hr).decision d hd
  simp only [concludeStep, hfound]
  exact ⟨hslot, if_neg (by simp [hslot, hvalues])⟩

/-- Such replies are enough for a decision or for a later step. -/
theorem Conclusive.concludes (h : Conclusive slot step replies) (hroom : step < u64Max)
    (hproposal : proposal.valueIds ≠ []) :
    ∃ outcome, concludeStep slot leader step proposal replies = .ok outcome := by
  cases hfound : replies.findSome? (·.decision) with
  | some decision => exact ⟨_, (h.adopts hfound).2⟩
  | none =>
    simp only [concludeStep, hfound]
    split_ifs with hsame
    · exact h.finishes hroom hproposal
    · simp only [catchUp]
      rcases latestReply_spec replies with ⟨hnone, _⟩ | ⟨latest, hlatest, hmem, _⟩
      · rw [hnone]
        exact ⟨_, rfl⟩
      · rw [hlatest]
        obtain ⟨p, hp⟩ := Option.isSome_iff_exists.mp (h.first latest hmem)
        dsimp only
        split_ifs
        · rw [hp]
          exact ⟨_, rfl⟩
        · exact ⟨_, rfl⟩

/-- In phase 2, prior aggregates that are all the own proposal, or missing, decide it. -/
theorem Conclusive.decides (h : Conclusive slot step replies) (hphase : step % 4 = 2)
    (hproposal : proposal.valueIds ≠ [])
    (hsame : ∀ reply ∈ replies, reply.summary.step = step)
    (hprior : ∀ reply ∈ replies, reply.summary.priorAggregate = none ∨ reply.summary.priorAggregate = some proposal)
    (hsome : ∃ reply ∈ replies, reply.summary.priorAggregate = some proposal) :
    ∃ d : Decision V, d.slot = slot ∧ concludeStep slot leader step proposal replies = .ok (.decided d) := by
  cases hfound : replies.findSome? (·.decision) with
  | some decision => exact ⟨decision, h.adopts hfound⟩
  | none =>
    have hall : replies.all (·.summary.step = step) = true := by simpa using hsame
    have hmax : maxPrior replies = some proposal := by
      rw [maxPrior, maxProposalByKey_eq]
      obtain ⟨reply, hr, hp⟩ := hsome
      have hmem : proposal ∈ replies.filterMap (·.summary.priorAggregate) := List.mem_filterMap.mpr ⟨reply, hr, hp⟩
      cases hbest : bestOf Proposal.key (replies.filterMap (·.summary.priorAggregate)) with
      | none =>
        rw [bestOf_eq_none.mp hbest] at hmem
        cases hmem
      | some best =>
        obtain ⟨other, ho, hb⟩ := List.mem_filterMap.mp (mem_of_bestOf hbest)
        rcases hprior other ho with hnone | hown
        · cases hnone.symm.trans hb
        · exact hb.symm.trans hown
    have htwo : step.phase = 2 := hphase
    refine ⟨⟨slot, proposal.valueIds, proposal.key.proposerId, step⟩, rfl, ?_⟩
    simp only [concludeStep, hfound, hall, if_true, finishPhase, htwo, hmax]
    exact StepOutcome.decide_eq hproposal

end

end QuePaxa
