import QuePaxa.Protocol.Provenance

/-! Validity: whatever is decided was proposed. Registers, replies and proposers pass
proposals on and only re-draw their priorities; decisions are passed on only once they have
been returned. Nothing here depends on quorums, so proposers may use any cluster, and
recorders may be moved to another epoch. -/
namespace QuePaxa
open Library
variable {V : Type}

/-! Where the values of a proposal and of a decision come from, for whatever counts as a
source. -/

section
variable (P : ReplicaId → List V → Prop)

def Proposal.From (p : Proposal V) : Prop := P p.key.proposerId p.valueIds

def Decision.From (d : Decision V) : Prop := P d.proposer d.valueIds

end

/-- The decision a step returns stands in a reply, or has the values of a proposal that does. -/
theorem Concludes.source {P : ReplicaId → List V → Prop} {slot : SlotIndex} {leader : Option ReplicaId} {step : Step}
    {proposal : Proposal V} {replies : List (RecordReply V)} {d : Decision V}
    (h : Concludes slot leader step proposal replies (.decided d)) (hp : proposal.From P)
    (hreplies : ∀ reply ∈ replies, reply.Carries (·.From P) (·.From P)) : d.From P := by
  cases h with
  | adopted mem held => exact (hreplies _ mem).decision _ held
  | fast same path =>
    obtain ⟨reply, hr, heq⟩ := path.some
    exact (hreplies reply hr).first _ heq
  | slow => exact hp

theorem Proposer.begin_nonempty {proposer : Proposer} {call : ProposeCall V} {quorum : Nat} {p : Proposal V}
    (h : proposer.begin call = .ok (quorum, p)) : call.valueIds ≠ [] := by
  have hnew : ∀ key : ProposalKey, ∀ p, Proposal.new key call.valueIds = .ok p → call.valueIds ≠ [] := by
    intro key p hp
    simp only [Proposal.new] at hp
    split_ifs at hp with hempty
    exact hempty
  cases proposer with
  | blocking core =>
    simp only [Proposer.begin, ProposerCore.begin, except_bind_eq_ok] at h
    obtain ⟨_, _, _, _, _, _, p', hp, _⟩ := h
    exact hnew _ p' hp
  | async core =>
    simp only [Proposer.begin, AsyncProposerCore.begin, except_bind_eq_ok] at h
    obtain ⟨_, _, _, _, p', hp, _⟩ := h
    exact hnew _ p' hp

namespace World
variable {slot : SlotIndex} {w w' : World V}

def Passed (w : World V) (slot : SlotIndex) (proposer : ReplicaId) (values : List V) : Prop :=
  ∃ c ∈ w.calls, c.2.slot = slot ∧ c.1.replicaId = proposer ∧ c.2.valueIds = values

def Gossips (slot : SlotIndex) (w : World V) : Action V → Prop
  | .start _ call => ∀ d ∈ call.knownDecisions, d.slot = slot → w.Returned d
  | .inform _ d => d.slot = slot → w.Returned d
  | _ => True

structure Valid (slot : SlotIndex) (w : World V) : Prop where
  nonempty : ∀ c ∈ w.calls, c.2.valueIds ≠ []
  sourced : w.Sourced slot (·.From (w.Passed slot)) (fun _ p => p.From (w.Passed slot)) (·.From (w.Passed slot))

private theorem passed_mono {slot : SlotIndex} (h : ∀ c ∈ w.calls, c ∈ w'.calls) {id : ReplicaId} {values : List V}
    (hp : w.Passed slot id values) : w'.Passed slot id values := by
  obtain ⟨c, hc, hrest⟩ := hp
  exact ⟨c, h c hc, hrest⟩

section
variable [DecidableEq V]

private theorem Valid.of_sourced (h : w.Valid slot) {a : Action V} (hcalls : (w.step a).calls = w.calls)
    (hstep : (w.step a).Sourced slot (·.From (w.Passed slot)) (fun _ p => p.From (w.Passed slot))
      (·.From (w.Passed slot))) :
    (w.step a).Valid slot := by
  have hpassed : (w.step a).Passed slot = w.Passed slot := by
    funext id values
    rw [Passed, Passed, hcalls]
  exact ⟨hcalls ▸ h.nonempty, hpassed ▸ hstep⟩

private theorem Valid.start (h : w.Valid slot) {proposer : Proposer} {call : ProposeCall V}
    (hknown : ∀ d ∈ call.knownDecisions, d.slot = slot → w.Returned d) :
    (w.step (.start proposer call)).Valid slot := by
  rcases start_cases w proposer call with hsame | ⟨quorum, p, hbegin, heq⟩
  · rwa [hsame]
  · have hcalls : (w.step (.start proposer call)).calls = w.calls ++ [(proposer, call)] := by
      rw [heq]
      exact calls_opened w proposer call quorum
    have hmono : ∀ id values, w.Passed slot id values → (w.step (.start proposer call)).Passed slot id values :=
      fun _ _ => passed_mono (calls_subset w _)
    have hsourced := h.sourced.mono (fun p => hmono _ _) (fun _ p => hmono _ _) fun d => hmono _ _
    refine ⟨?_, hsourced.start (fun hslot => ?_) fun d hd hslot => ?_⟩
    · rw [hcalls]
      intro c hc
      rcases List.mem_append.mp hc with hc | hc
      · exact h.nonempty c hc
      · exact List.mem_singleton.mp hc ▸ Proposer.begin_nonempty hbegin
    · exact ⟨(proposer, call), hcalls ▸ List.mem_append_right _ (List.mem_singleton_self _), hslot, rfl, rfl⟩
    · exact hmono _ _ (h.sourced.returned (hknown d hd hslot) hslot)

theorem Valid.step (h : w.Valid slot) {a : Action V} (ha : w.Gossips slot a) : (w.step a).Valid slot := by
  have hsame : (∀ proposer call, a ≠ .start proposer call) → (w.step a).calls = w.calls := by
    intro hne
    rcases calls_step w a with hsame | ⟨proposer, call, rfl, _⟩
    · exact hsame
    · exact absurd rfl (hne proposer call)
  cases a with
  | start proposer call => exact h.start ha
  | send i draws busy =>
    exact h.of_sourced (hsame (by simp)) (h.sourced.send (fun p q hp => hp) i draws busy)
  | deliver m available =>
    exact h.of_sourced (hsame (by simp)) (h.sourced.deliver fun hm _ hslot => (h.sourced.sent m hm).proposal hslot)
  | collect i arrivals =>
    refine h.of_sourced (hsame (by simp)) (h.sourced.collect (fun _ _ hp => hp)
      fun inv replies d hi hslot hanswers hd => ?_)
    exact hd.source (h.sourced.invocations inv (List.mem_of_getElem? hi) hslot) hanswers.carries
  | inform j d =>
    exact h.of_sourced rfl (h.sourced.setRecorder ((h.sourced.recorders j).inform fun hslot =>
      h.sourced.returned (ha hslot) hslot))
  | prune j through => exact h.of_sourced rfl (h.sourced.setRecorder ((h.sourced.recorders j).prune through))
  | install j change => exact h.of_sourced rfl (h.sourced.setRecorder ((h.sourced.recorders j).install change))

end

/-- The environment of one configuration passes on returned decisions only. -/
theorem Permitted.gossips {C : ClusterIdentity} {a : Action V} (h : w.Permitted C slot a) : w.Gossips slot a := by
  cases a with
  | start proposer call => exact h.2
  | inform j d => exact h
  | _ => trivial

theorem valid_initial (C : ClusterIdentity) (limits : ReplicaId → RecorderLimits) :
    (initial C limits : World V).Valid slot := by
  refine ⟨by simp [initial, calls], sourced_initial C limits⟩

/-- A decision returned for the slot is about the slot, and carries exactly the values that
its proposer passed to some call for the slot. -/
theorem decisions_were_proposed [DecidableEq V] (C : ClusterIdentity) (slot : SlotIndex)
    (limits : ReplicaId → RecorderLimits)
    (actions : List (Action V)) (hrun : Along World.step (fun w a => w.Gossips slot a) (initial C limits) actions)
    (inv : Invocation V) (hinv : inv ∈ (run World.step (initial C limits) actions).invocations)
    (hslot : inv.call.slot = slot) (d : Decision V) (hd : inv.progress = .returned (.ok d)) :
    d.slot = slot ∧ d.valueIds ≠ [] ∧ ∃ x ∈ (run World.step (initial C limits) actions).invocations,
      x.call.slot = slot ∧ x.proposer.replicaId = d.proposer ∧ x.call.valueIds = d.valueIds := by
  have hvalid : (run World.step (initial C limits) actions).Valid slot :=
    run_invariant (I := Valid slot) (fun _ _ h ha => h.step ha) (valid_initial C limits) hrun
  obtain ⟨hdslot, hfrom⟩ := hvalid.sourced.results inv hinv d hd
  obtain ⟨c, hc, hcslot, hid, hvalues⟩ := hfrom hslot
  obtain ⟨x, hx, rfl⟩ := List.mem_map.mp hc
  exact ⟨hdslot.trans hslot, hvalues ▸ hvalid.nonempty _ hc, x, hx, hcslot, hid, hvalues⟩

/-- In the duel the second proposer, replica 2, decides what replica 1 proposed. -/
theorem decisions_were_proposed_duel :
    let w := run World.step (initial trio fun _ => RecorderLimits.default)
      (duel ⟨2, 1, trio, 1027⟩ ⟨⟨1, 2, 1⟩, [20]⟩ leading)
    w.calls.map (fun c => (c.1.replicaId, c.2.valueIds)) = [(1, [10]), (2, [20])] ∧
      (1, some ⟨1, [10], 1, 6⟩) ∈ w.results ∧
      ∃ x ∈ w.invocations, x.call.slot = 1 ∧ x.proposer.replicaId = 1 ∧ x.call.valueIds = [10] := by
  have hrun : Along World.step (fun w a => w.Gossips 1 a) (initial trio fun _ => RecorderLimits.default)
      (duel ⟨2, 1, trio, 1027⟩ ⟨⟨1, 2, 1⟩, [20]⟩ leading) :=
    (duel_permitted ⟨2, 1, trio, 1027⟩ ⟨⟨1, 2, 1⟩, [20]⟩ leading rfl (.inl (by decide))).mono fun _ _ h => h.gossips
  have hfacts : (run World.step (initial trio fun _ => RecorderLimits.default)
        (duel ⟨2, 1, trio, 1027⟩ ⟨⟨1, 2, 1⟩, [20]⟩ leading)).calls.map (fun c => (c.1.replicaId, c.2.valueIds)) =
        [(1, [10]), (2, [20])] ∧
      (1, some ⟨1, [10], 1, 6⟩) ∈ (run World.step (initial trio fun _ => RecorderLimits.default)
        (duel ⟨2, 1, trio, 1027⟩ ⟨⟨1, 2, 1⟩, [20]⟩ leading)).results := by decide +kernel
  obtain ⟨inv, hinv, hslot, hd⟩ := mem_results hfacts.2
  exact ⟨hfacts.1, hfacts.2, (decisions_were_proposed trio 1 _ _ hrun inv hinv hslot _ hd).2.2⟩

end World
end QuePaxa
