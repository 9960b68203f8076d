import QuePaxa.Protocol.Agreement

/-! Where proposals and decisions come from. Registers, replies and proposers pass proposals
on and only re-draw their priorities; decisions are made from the replies of one step or
passed on. So whatever is true of the proposals that enter a world, and of the decisions
made, is true wherever one turns up. Recorders may hold less than proposers do: what is in a
register has passed the recorder's own checks. -/
namespace QuePaxa
open Library
variable {V : Type}
variable {d : Decision V}

section
variable (P : Proposal V → Prop) (D : Decision V → Prop)

structure RecordRequest.Carries (slot : SlotIndex) (request : RecordRequest V) : Prop where
  proposal : request.slot = slot → P request.proposal
  known : ∀ d ∈ request.knownDecisions, d.slot = slot → D d

structure RecordReply.Carries (reply : RecordReply V) : Prop where
  first : ∀ p, reply.summary.first = some p → P p
  prior : ∀ p, reply.summary.priorAggregate = some p → P p
  decision : ∀ d, reply.decision = some d → D d

structure RecorderCore.Carries (slot : SlotIndex) (r : RecorderCore V) : Prop where
  slots : ∀ g, r.slots.get slot = some g → ∀ p ∈ g.proposals, P p
  decisions : ∀ d, r.decisions.get slot = some d → D d

end

section
variable {P P' : Proposal V → Prop} {D D' : Decision V → Prop} {slot : SlotIndex} {r : RecorderCore V}

private theorem RecordRequest.Carries.mono (hP : ∀ p, P p → P' p) (hD : ∀ d, D d → D' d) {request : RecordRequest V}
    (h : request.Carries P D slot) : request.Carries P' D' slot :=
  ⟨fun hslot => hP _ (h.proposal hslot), fun d hd hslot => hD d (h.known d hd hslot)⟩

theorem RecordReply.Carries.mono (hP : ∀ p, P p → P' p) (hD : ∀ d, D d → D' d) {reply : RecordReply V}
    (h : reply.Carries P D) : reply.Carries P' D' :=
  ⟨fun p hp => hP p (h.first p hp), fun p hp => hP p (h.prior p hp), fun d hd => hD d (h.decision d hd)⟩

namespace RecorderCore.Carries

private theorem mono (hP : ∀ p, P p → P' p) (hD : ∀ d, D d → D' d) (h : r.Carries P D slot) : r.Carries P' D' slot :=
  ⟨fun g hg p hp => hP p (h.slots g hg p hp), fun d hd => hD d (h.decisions d hd)⟩

private theorem register (h : r.Carries P D slot) : ∀ p ∈ (r.register slot).proposals, P p := by
  intro p hp
  cases hget : r.slots.get slot with
  | some g =>
    simp only [RecorderCore.register, hget, Option.getD_some] at hp
    exact h.slots g hget p hp
  | none =>
    simp only [RecorderCore.register, hget, Option.getD_none, IntervalSummaryRegister.mem_proposals,
      IntervalSummaryRegister.default] at hp
    rcases hp with hp | hp | hp <;> cases hp

theorem learn (hd : d.slot = slot → D d) (r : RecorderCore V) (h : r.Carries P D slot) (_ : r.Learns d) :
    ({ r with decisions := r.decisions.insert d.slot d } : RecorderCore V).Carries P D slot := by
  refine ⟨h.slots, fun d' hget => ?_⟩
  rw [OrderedMap.get_insert] at hget
  split_ifs at hget with hslot
  · cases hget
    exact hd hslot.symm
  · exact h.decisions d' hget

theorem prune (h : r.Carries P D slot) (through : SlotIndex) : (r.pruneThrough through).Carries P D slot :=
  ⟨fun g hg => h.slots g ((OrderedMap.get_retain ..).mp hg).1,
    fun d hd => h.decisions d ((OrderedMap.get_retain ..).mp hd).1⟩

section
variable {request : RecordRequest V} (h : r.Carries P D slot) (hnew : request.slot = slot → P request.proposal)
include h hnew

theorem advanced (hslot : request.slot = slot) :
    ∀ p ∈ ((r.register request.slot).advance request.step request.proposal).proposals, P p := by
  intro p hp
  rcases IntervalSummaryRegister.mem_proposals_advance hp with rfl | hp
  · exact hnew hslot
  · rw [hslot] at hp
    exact h.register p hp

private theorem recorded : (r.recorded request).Carries P D slot := by
  refine ⟨fun g hg => ?_, h.decisions⟩
  simp only [RecorderCore.recorded, OrderedMap.get_insert] at hg
  split_ifs at hg with hslot
  · cases hg
    exact h.advanced hnew hslot.symm
  · exact h.slots g hg

private theorem reply (hslot : request.slot = slot) : (r.reply request).Carries P D := by
  have hall := h.advanced hnew hslot
  refine ⟨?_, ?_, ?_⟩
  · exact fun p hp => hall p (IntervalSummaryRegister.mem_proposals.mpr (.inl hp))
  · exact fun p hp => hall p (IntervalSummaryRegister.mem_proposals.mpr (.inr (.inr hp)))
  · intro d hd
    exact h.decisions d (hslot ▸ hd)

end

variable [DecidableEq V]

theorem inform (h : r.Carries P D slot) (hd : d.slot = slot → D d) :
    (after (RecorderCore.informDecision d) r).Carries P D slot :=
  (RecorderCore.keeps_informDecision (learn hd)).after h

theorem install (h : r.Carries P D slot) (change : MembershipChange V) :
    (after (RecorderCore.installMembership change) r).Carries P D slot := by
  by_cases hi : r.Installs change
  · rw [after_ok (RecorderCore.installMembership_of_installs hi)]
    exact ⟨h.slots, h.decisions⟩
  · rwa [RecorderCore.installMembership_of_not_installs hi]

private theorem record {request : RecordRequest V} {available : Availability V} (h : r.Carries P D slot)
    (hknown : ∀ d ∈ request.knownDecisions, d.slot = slot → D d)
    (hnew : r.admitRecord available request = .ok () → request.slot = slot → P request.proposal) :
    (after (RecorderCore.record available request) r).Carries P D slot ∧
      ∀ reply r', RecorderCore.record available request r = .ok reply r' → request.slot = slot → reply.Carries P D := by
  have hinform : Keeps (fun r : RecorderCore V => r.Carries P D slot)
    (RecorderCore.informDecisions request.knownDecisions) :=
    RecorderCore.keeps_informDecisions fun d hd => learn (hknown d hd)
  cases hx : RecorderCore.record available request r with
  | ok reply r' =>
    have hproposal := hnew (RecorderCore.record_admitted hx)
    obtain ⟨_, m, hm, _, _, rfl, rfl⟩ := RecorderCore.record_ok hx
    have hmiddle : m.Carries P D slot := hinform.ok h hm
    rw [after_ok hx]
    refine ⟨hmiddle.recorded hproposal, fun reply' r' hok hslot => ?_⟩
    cases hok
    exact hmiddle.reply hproposal hslot
  | error e r' =>
    rw [after_error hx]
    refine ⟨?_, fun _ _ hok => nomatch hok⟩
    rcases RecorderCore.record_error hx with rfl | rfl
    · exact h
    · exact hinform.after h

end RecorderCore.Carries

/-- The proposal a step is left with is its own, or stands in a reply. -/
theorem Concludes.proposal {leader : Option ReplicaId} {step next : Step} {proposal p : Proposal V}
    {replies : List (RecordReply V)} (h : Concludes slot leader step proposal replies (.next next p)) (hp : P proposal)
    (hreplies : ∀ reply ∈ replies, reply.Carries P D) : P p := by
  cases h with
  | lead same phase room max =>
    obtain ⟨reply, hr, heq⟩ := List.mem_filterMap.mp (mem_of_bestOf max)
    exact (hreplies reply hr).first p heq
  | spread | stay => exact hp
  | gather =>
    cases hbest : bestOf Proposal.key (replies.filterMap (·.summary.priorAggregate)) with
    | none => exact hp
    | some best =>
      obtain ⟨reply, hr, heq⟩ := List.mem_filterMap.mp (mem_of_bestOf hbest)
      exact (hreplies reply hr).prior best heq
  | jump mem ahead held => exact (hreplies _ mem).first _ held

theorem Concludes.slot_eq {leader : Option ReplicaId} {step : Step} {proposal : Proposal V}
    {replies : List (RecordReply V)}
    (h : Concludes slot leader step proposal replies (.decided d)) : d.slot = slot := by
  cases h with
  | adopted _ _ slot_eq => exact slot_eq
  | fast | slow => rfl

end

namespace World

/-- Proposals in flight or in a proposer's hands are good for `S`, those a recorder holds or
reports for its `P`, and decisions for `D`. -/
structure Sourced (slot : SlotIndex) (S : Proposal V → Prop) (P : ReplicaId → Proposal V → Prop) (D : Decision V → Prop)
    (w : World V) : Prop where
  known : ∀ c ∈ w.calls, ∀ d ∈ c.2.knownDecisions, d.slot = slot → D d
  recorders : ∀ j, (w.recorders j).Carries (P j) D slot
  sent : ∀ m ∈ w.sent, m.request.Carries S D slot
  indexed : ∀ m ∈ w.sent, ∃ c, w.calls[m.invocation]? = some c ∧ m.request.slot = c.2.slot
  delivered : ∀ d ∈ w.deliveries, d.message ∈ w.sent
  replies : ∀ d ∈ w.deliveries, d.message.request.slot = slot → d.reply.Carries (P d.message.target) D
  invocations : ∀ inv ∈ w.invocations, inv.call.slot = slot → S inv.proposal
  results : ∀ inv ∈ w.invocations, ∀ d, inv.progress = .returned (.ok d) →
    d.slot = inv.call.slot ∧ (inv.call.slot = slot → D d)

variable {slot : SlotIndex} {S S' : Proposal V → Prop} {P P' : ReplicaId → Proposal V → Prop} {D D' : Decision V → Prop}
  {w : World V}

theorem Sourced.mono (hS : ∀ p, S p → S' p) (hP : ∀ j p, P j p → P' j p) (hD : ∀ d, D d → D' d)
    (h : w.Sourced slot S P D) :
    w.Sourced slot S' P' D' where
  known := fun c hc d hd hslot => hD d (h.known c hc d hd hslot)
  recorders := fun j => (h.recorders j).mono (hP j) hD
  sent := fun m hm => (h.sent m hm).mono hS hD
  indexed := h.indexed
  delivered := h.delivered
  replies := fun d hd hslot => (h.replies d hd hslot).mono (hP _) hD
  invocations := fun inv hinv hslot => hS _ (h.invocations inv hinv hslot)
  results := fun inv hinv d hd => ⟨(h.results inv hinv d hd).1, fun hslot => hD d ((h.results inv hinv d hd).2 hslot)⟩

theorem sourced_initial (C : ClusterIdentity) (limits : ReplicaId → RecorderLimits) :
    (initial C limits : World V).Sourced slot S P D := by
  constructor <;> try simp [initial, calls]
  intro j
  exact ⟨(fun g hg => by cases hg), fun d hd => by cases hd⟩

theorem Sourced.returned (h : w.Sourced slot S P D) (hd : w.Returned d) (hslot : d.slot = slot) :
    D d := by
  obtain ⟨inv, hinv, hret⟩ := hd
  obtain ⟨heq, hfrom⟩ := h.results inv hinv d hret
  exact hfrom (heq.symm.trans hslot)

theorem Sourced.setRecorder (h : w.Sourced slot S P D) {j : ReplicaId} {r : RecorderCore V}
    (hr : r.Carries (P j) D slot) :
    (w.setRecorder j r).Sourced slot S P D := by
  refine ⟨h.known, fun i => ?_, h.sent, h.indexed, h.delivered, h.replies, h.invocations, h.results⟩
  by_cases hij : i = j
  · subst hij
    rw [show (w.setRecorder i r).recorders i = r from Function.update_self ..]
    exact hr
  · rw [show (w.setRecorder j r).recorders i = w.recorders i from Function.update_of_ne hij ..]
    exact h.recorders i

section
variable {i : Nat} {inv inv' : Invocation V} {messages : List (Message V)}
  {collected : List (Nat × List (RecordReply V))}

theorem Sourced.update (h : w.Sourced slot S P D) (hi : w.invocations[i]? = some inv)
    (hprop : inv'.proposer = inv.proposer)
    (hcall : inv'.call = inv.call) (hproposal : inv.call.slot = slot → S inv'.proposal)
    (hresult : ∀ d, inv'.progress = .returned (.ok d) → d.slot = inv.call.slot ∧ (inv.call.slot = slot → D d))
    (hmsg : ∀ m ∈ messages, m.invocation = i ∧ m.request.slot = inv.call.slot ∧ m.request.Carries S D slot) :
    (w.update i inv' messages collected).Sourced slot S P D := by
  have hcalls : (w.update i inv' messages collected).calls = w.calls := by
    apply map_set_same hi
    rw [hprop, hcall]
  have hmem : ∀ x ∈ (w.update i inv' messages collected).invocations, x = inv' ∨ x ∈ w.invocations :=
    fun x hx => (List.mem_or_eq_of_mem_set hx).symm
  refine ⟨hcalls ▸ h.known, h.recorders, fun m hm => ?_, ?_, fun d hd => List.mem_append_left _ (h.delivered d hd),
    h.replies,
    fun x hx hslot => ?_, fun x hx d hd => ?_⟩
  · rcases List.mem_append.mp hm with hm | hm
    · exact h.sent m hm
    · exact (hmsg m hm).2.2
  · rw [hcalls]
    intro m hm
    rcases List.mem_append.mp hm with hm | hm
    · exact h.indexed m hm
    · obtain ⟨rfl, hslot, _⟩ := hmsg m hm
      refine ⟨(inv.proposer, inv.call), ?_, hslot⟩
      rw [calls, List.getElem?_map, hi]
      rfl
  · rcases hmem x hx with rfl | hx
    · exact hproposal (hcall ▸ hslot)
    · exact h.invocations x hx hslot
  · rcases hmem x hx with rfl | hx
    · rw [hcall]
      exact hresult d hd
    · exact h.results x hx d hd

private theorem Sourced.fail (h : w.Sourced slot S P D) (hi : w.invocations[i]? = some inv) (e : QuePaxaError) :
    (w.update i (inv.finish (.error e)) [] collected).Sourced slot S P D := by
  refine h.update hi rfl rfl (h.invocations inv (List.mem_of_getElem? hi)) (fun d hd => ?_) fun m hm => nomatch hm
  cases hd

end

section
variable [DecidableEq V]

theorem Sourced.start (h : w.Sourced slot S P D) {proposer : Proposer} {call : ProposeCall V}
    (hproposal : call.slot = slot → S ⟨⟨Priority.max, proposer.replicaId, proposer.laneId⟩, call.valueIds⟩)
    (hknown : ∀ d ∈ call.knownDecisions, d.slot = slot → D d) : (w.step (.start proposer call)).Sourced slot S P D := by
  rcases start_cases w proposer call with hsame | ⟨quorum, _, _, heq⟩
  · rw [hsame]
    exact h
  · rw [heq]
    have hcalls := calls_opened w proposer call quorum
    refine ⟨?_, h.recorders, h.sent, ?_, h.delivered, h.replies, ?_, ?_⟩
    · rw [hcalls]
      intro c hc d hd hslot
      rcases List.mem_append.mp hc with hc | hc
      · exact h.known c hc d hd hslot
      · rw [List.mem_singleton.mp hc] at hd
        exact hknown d hd hslot
    · intro m hm
      obtain ⟨c, hc, hslot⟩ := h.indexed m hm
      refine ⟨c, ?_, hslot⟩
      rw [hcalls, List.getElem?_append_left (List.getElem?_eq_some_iff.mp hc).1]
      exact hc
    · intro x hx hslot
      rcases List.mem_append.mp hx with hx | hx
      · exact h.invocations x hx hslot
      · rw [List.mem_singleton.mp hx] at hslot ⊢
        exact hproposal hslot
    · intro x hx d hd
      rcases List.mem_append.mp hx with hx | hx
      · exact h.results x hx d hd
      · rw [List.mem_singleton.mp hx] at hd
        cases hd

/-- A request goes out with the proposer's own proposal, at most with another priority. -/
theorem Sourced.send (h : w.Sourced slot S P D) (hS : ∀ p q, S p → S (p.withPriority q)) (i : Nat)
    (draws : ReplicaId → Result Priority) (busy : List ReplicaId) :
    (w.step (.send i draws busy)).Sourced slot S P D := by
  have hmoves := w.moves (.send i draws busy)
  generalize w.step (.send i draws busy) = w' at hmoves ⊢
  cases hmoves with
  | idle => exact h
  | @sends _ inv _ _ hi hready =>
    have hinv := List.mem_of_getElem? hi
    rcases send_cases inv i draws busy with ⟨e, hsend⟩ | ⟨_, targets, messages, hsend, hall⟩
    · rw [hsend]
      exact h.fail hi e
    · rw [hsend]
      refine h.update hi rfl rfl (h.invocations inv hinv) (fun d hd => (nomatch hd)) fun m hm => ?_
      obtain ⟨hmi, _, p, hp, hrequest⟩ := hall m hm
      refine ⟨hmi, by rw [hrequest], ?_⟩
      rw [hrequest]
      refine ⟨fun hslot => ?_, fun d hd => h.known _ (List.mem_map_of_mem hinv) d (known_subset hd)⟩
      have hown := h.invocations inv hinv hslot
      rcases proposalFor_ok hp with ⟨_, q, _, rfl⟩ | ⟨rfl, _⟩
      · exact hS _ q hown
      · exact hown

theorem Sourced.deliver (h : w.Sourced slot S P D) {m : Message V} {available : Availability V}
    (hnew : m ∈ w.sent → (w.recorders m.target).admitRecord available m.request = .ok () → m.request.slot = slot →
      P m.target m.request.proposal) : (w.step (.deliver m available)).Sourced slot S P D := by
  have hmoves := w.moves (.deliver m available)
  generalize w.step (.deliver m available) = w' at hmoves ⊢
  cases hmoves with
  | idle => exact h
  | refuses hm hrecord =>
    obtain ⟨hafter, _⟩ := (h.recorders m.target).record (h.sent m hm).known (hnew hm)
    rw [after_error hrecord] at hafter
    exact h.setRecorder hafter
  | @replies _ _ reply r hm hrecord =>
    obtain ⟨hafter, hreply⟩ := (h.recorders m.target).record (h.sent m hm).known (hnew hm)
    rw [after_ok hrecord] at hafter
    have hset := h.setRecorder (j := m.target) hafter
    refine ⟨hset.known, hset.recorders, hset.sent, hset.indexed, ?_, ?_, hset.invocations, hset.results⟩
    · intro d hd
      rcases List.mem_append.mp hd with hd | hd
      · exact h.delivered d hd
      · rw [List.mem_singleton.mp hd]
        exact hm
    · intro d hd hslot
      rcases List.mem_append.mp hd with hd | hd
      · exact h.replies d hd hslot
      · rw [List.mem_singleton.mp hd] at hslot ⊢
        exact hreply reply r hrecord hslot

structure Answers (slot : SlotIndex) (P : ReplicaId → Proposal V → Prop) (D : Decision V → Prop) (w : World V) (i : Nat)
    (inv : Invocation V) (replies : List (RecordReply V)) : Prop where
  quorum : quorumReached replies inv.quorum inv.proposer.cluster = true
  distinct : (replies.map (·.recorder)).Nodup
  genuine : ∀ reply ∈ replies, ∃ d ∈ w.deliveries, d.message.invocation = i ∧ d.message.iteration = inv.iteration ∧
    d.message.target = reply.recorder ∧ d.reply = reply
  carries : ∀ reply ∈ replies, reply.Carries (P reply.recorder) D

private theorem Sourced.answers (h : w.Sourced slot S P D) {i : Nat} {inv : Invocation V} {targets : List ReplicaId}
    {arrivals : List (Arrival V)} {replies : List (RecordReply V)} (hi : w.invocations[i]? = some inv)
    (hgenuine : w.Genuine i inv.iteration targets arrivals)
    (hcollect : inv.proposer.collectQuorum inv.quorum targets.length arrivals = .ok replies)
    (hslot : inv.call.slot = slot) :
    w.Answers slot P D i inv replies := by
  obtain ⟨hreach, hall, hdistinct⟩ := Proposer.collectQuorum_ok hcollect
  have hdelivered := fun reply hr => hgenuine.delivered (hall reply hr)
  refine ⟨hreach, hdistinct, hdelivered, fun reply hr => ?_⟩
  obtain ⟨d, hd, hdi, _, htarget, rfl⟩ := hdelivered reply hr
  obtain ⟨c, hc, hrequest⟩ := h.indexed d.message (h.delivered d hd)
  rw [hdi, calls, List.getElem?_map, hi] at hc
  cases hc
  exact htarget ▸ h.replies d hd (hrequest.trans hslot)

/-- A step concludes with a proposal or a decision out of its replies, or its own. -/
theorem Sourced.conclude (h : w.Sourced slot S P D) (hS : ∀ j p, P j p → S p) {i : Nat} {inv : Invocation V}
    {replies : List (RecordReply V)} (hi : w.invocations[i]? = some inv)
    (hanswers : inv.call.slot = slot → w.Answers slot P D i inv replies)
    (hdecided : ∀ d, inv.call.slot = slot → Concludes slot inv.call.leader inv.step inv.proposal replies (.decided d) →
      D d)
    (collected : List (Nat × List (RecordReply V))) :
    (w.update i (inv.conclude replies) [] collected).Sourced slot S P D := by
  have hinv := List.mem_of_getElem? hi
  simp only [Invocation.conclude]
  cases hout : concludeStep inv.call.slot inv.call.leader inv.step inv.proposal replies with
  | error e => exact h.fail hi e
  | ok outcome =>
    have hconcludes := concludeStep_ok hout
    cases outcome with
    | decided decision =>
      refine h.update hi rfl rfl (h.invocations inv hinv) (fun d hd => ?_) fun m hm => by cases hm
      cases hd
      exact ⟨hconcludes.slot_eq, fun hslot => hdecided decision hslot (hslot ▸ hconcludes)⟩
    | next step proposal =>
      refine h.update hi rfl rfl (fun hslot => ?_) (fun d hd => ?_) fun m hm => by cases hm
      · have hcarries : ∀ reply ∈ replies, reply.Carries S D :=
          fun reply hr => ((hanswers hslot).carries reply hr).mono (hS _) fun _ hd => hd
        exact hconcludes.proposal (h.invocations inv hinv hslot) hcarries
      · cases hd

theorem Sourced.collect (h : w.Sourced slot S P D) (hS : ∀ j p, P j p → S p) {i : Nat} {arrivals : List (Arrival V)}
    (hdecided : ∀ inv replies d, w.invocations[i]? = some inv → inv.call.slot = slot →
      w.Answers slot P D i inv replies →
      Concludes slot inv.call.leader inv.step inv.proposal replies (.decided d) → D d) :
    (w.step (.collect i arrivals)).Sourced slot S P D := by
  have hmoves := w.moves (.collect i arrivals)
  generalize w.step (.collect i arrivals) = w' at hmoves ⊢
  cases hmoves with
  | idle => exact h
  | @fails _ inv targets _ e hi hwaiting hgenuine hcollect =>
    have hdone : (w.update i (inv.finish (.error e)) [] w.collected).Sourced slot S P D := h.fail hi e
    simpa only [World.update, List.append_nil] using hdone
  | @concludes _ inv targets _ replies hi hwaiting hgenuine hcollect =>
    have hanswers := h.answers hi hgenuine hcollect
    have hdone := h.conclude hS hi hanswers (fun d hslot => hdecided inv replies d hi hslot (hanswers hslot))
      (w.collected ++ [(i, replies)])
    simpa only [World.update, List.append_nil] using hdone

end
end World
end QuePaxa
