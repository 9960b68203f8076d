import QuePaxa.Protocol.History

/-! The invariant of one slot: recorders, messages in flight and invocations agree
with the log, read as a run of the abstract rounds. One lemma per kind of action. -/
namespace QuePaxa
open Library
variable {V : Type}
variable {j : ReplicaId} {r : RecorderCore V} {p : Proposal V}

namespace World
variable (C : ClusterIdentity) (slot : SlotIndex)

def Authentic (w : World V) (p : Proposal V) : Prop :=
  ∃ inv ∈ w.invocations, inv.call.slot = slot ∧ p.origin = inv.firstProposal.origin ∧
    p.valueIds = inv.call.valueIds

structure Tracks (w : World V) (j : ReplicaId) (r : RecorderCore V) : Prop where
  id : r.config.id = j
  decisions : ∀ d, r.decisions.get slot = some d → d.slot = slot ∧ w.Returned d
  active : ∀ g, r.slots.get slot = some g → g.Reflects (w.history j slot) ∧ Step.roundOnePhaseZero ≤ g.step
  idle : r.slots.get slot = none → w.history j slot = [] ∨ slot ≤ r.prunedThrough
  leaders : ∀ d ∈ w.deliveries, d.message.target = j → d.message.request.slot = slot →
    r.roundOneLeaders.get slot = some d.message.request.roundOneLeader ∨ slot ≤ r.prunedThrough

structure Answered (w : World V) (d : Delivery V) : Prop where
  recorder : d.reply.recorder = d.message.target
  held : ∃ p, p ∈ (w.history d.message.target slot).recorded d.reply.summary.step
  pos : 0 < d.reply.summary.step
  first : d.reply.summary.first = (w.history d.message.target slot).firstAt d.reply.summary.step
  prior : d.reply.summary.priorAggregate =
    (w.history d.message.target slot).bestAt Proposal.key (d.reply.summary.step - 1)
  decision : ∀ dec, d.reply.decision = some dec → dec.slot = slot ∧ w.Returned dec

structure Sent (w : World V) (m : Message V) : Prop where
  held : (w.rounds C slot).Held m.request.step m.request.proposal
  authentic : w.Authentic slot m.request.proposal
  low : Step.roundOnePhaseZero ≤ m.request.step
  high : m.request.step ≤ u64Max
  /-- At the first step the reserved priority comes only from the leader itself. -/
  leader : m.request.step = Step.roundOnePhaseZero → m.request.proposal.key.priority < Priority.max ∨
    ∃ inv ∈ w.invocations, inv.call.slot = slot ∧ m.request.proposal = inv.firstProposal ∧
      inv.call.leader = some inv.proposer.replicaId ∧ m.request.roundOneLeader = inv.call.leader

structure Current (inv : Invocation V) (m : Message V) : Prop where
  slot : m.request.slot = inv.call.slot
  leader : m.request.roundOneLeader = inv.call.leader
  iteration : m.iteration ≤ inv.iteration
  latest : m.iteration = inv.iteration → inv.progress ≠ .ready ∧ m.request.step = inv.step ∧
    (inv.step % 4 ≠ 0 → m.request.proposal = inv.proposal)

structure Running (w : World V) (inv : Invocation V) : Prop where
  cluster : inv.proposer.cluster = some C
  held : (w.rounds C slot).Held inv.step inv.proposal
  authentic : w.Authentic slot inv.proposal
  low : Step.roundOnePhaseZero ≤ inv.step
  high : inv.step ≤ u64Max
  first : inv.step = Step.roundOnePhaseZero → inv.proposal = inv.firstProposal
  decided : ∀ d, inv.progress = .returned (.ok d) → ∃ p, (w.rounds C slot).Decided p ∧ p.valueIds = d.valueIds

structure Consistent (w : World V) : Prop where
  recorders : ∀ j, w.Tracks slot j (w.recorders j)
  bound : ∀ d ∈ w.deliveries, ∀ d' ∈ w.deliveries, d.message.target = d'.message.target →
    d.message.request.slot = slot → d'.message.request.slot = slot →
    d.message.request.roundOneLeader = d'.message.request.roundOneLeader
  delivered : ∀ d ∈ w.deliveries, d.message ∈ w.sent
  answered : ∀ d ∈ w.deliveries, d.message.request.slot = slot → w.Answered slot d
  sent : ∀ m ∈ w.sent, m.request.slot = slot → w.Sent C slot m
  known : ∀ m ∈ w.sent, ∀ d ∈ m.request.knownDecisions, d.slot = slot → w.Returned d
  index : ∀ m ∈ w.sent, m.invocation < w.invocations.length
  current : ∀ (i : Nat) (inv : Invocation V), w.invocations[i]? = some inv → ∀ m ∈ w.sent, m.invocation = i →
    Current inv m
  running : ∀ inv ∈ w.invocations, inv.call.slot = slot → w.Running C slot inv
  calls : ∀ inv ∈ w.invocations, ∀ d ∈ inv.call.knownDecisions, d.slot = slot → w.Returned d
  results : ∀ inv ∈ w.invocations, ∀ d, inv.progress = .returned (.ok d) → d.slot = inv.call.slot

variable {C : ClusterIdentity} {slot : SlotIndex} {w w' : World V}

/-! Facts that survive a growing log. -/

theorem Authentic.mono (hl : w.Later w') (h : w.Authentic slot p) : w'.Authentic slot p := by
  obtain ⟨inv, hinv, hslot, horigin, hvalues⟩ := h
  obtain ⟨inv', hinv', hprop, hcall, _⟩ := hl.invocations inv hinv
  refine ⟨inv', hinv', hcall ▸ hslot, ?_, hcall ▸ hvalues⟩
  rw [horigin]
  simp only [Invocation.firstProposal, Proposal.origin, hprop]

theorem Tracks.mono (hl : w.Later w') (hd : w'.deliveries = w.deliveries)
    (h : w.Tracks slot j r) : w'.Tracks slot j r := by
  have hsame : w'.history j slot = w.history j slot := by rw [history, history, hd]
  refine ⟨h.id, fun d hget => ?_, ?_, ?_, ?_⟩
  · obtain ⟨hslot, hret⟩ := h.decisions d hget
    exact ⟨hslot, hl.returned hret⟩
  · rw [hsame]; exact h.active
  · rw [hsame]; exact h.idle
  · rw [hd]; exact h.leaders

theorem Answered.mono (hl : w.Later w') (hext : ∀ j, (w.history j slot).Extends (w'.history j slot))
    {d : Delivery V} (h : w.Answered slot d) : w'.Answered slot d := by
  obtain ⟨p, hp⟩ := h.held
  obtain ⟨f, hf⟩ := History.exists_firstAt hp
  have he := hext d.message.target
  refine ⟨h.recorder, ⟨p, he.recorded hp⟩, h.pos, ?_, ?_, fun dec hdec => ?_⟩
  · rw [h.first, hf, he.firstAt hf]
  · rw [h.prior, he.bestAt hp (Nat.sub_lt h.pos Nat.one_pos)]
  · obtain ⟨hslot, hret⟩ := h.decision dec hdec
    exact ⟨hslot, hl.returned hret⟩

theorem Sent.mono (hl : w.Later w') (hg : (w.rounds C slot).Grows (w'.rounds C slot)) {m : Message V}
    (h : w.Sent C slot m) : w'.Sent C slot m := by
  refine ⟨hg.held h.held, h.authentic.mono hl, h.low, h.high, fun hfirst => ?_⟩
  apply (h.leader hfirst).imp_right
  rintro ⟨inv, hinv, hslot, hprop, hlead, hreq⟩
  obtain ⟨inv', hinv', hproposer, hcall, _⟩ := hl.invocations inv hinv
  refine ⟨inv', hinv', hcall ▸ hslot, ?_, ?_, hcall ▸ hreq⟩
  · simpa only [Invocation.firstProposal, hproposer, hcall] using hprop
  · rw [hcall, hproposer]; exact hlead

theorem Running.mono (hl : w.Later w') (hg : (w.rounds C slot).Grows (w'.rounds C slot)) {inv : Invocation V}
    (h : w.Running C slot inv) : w'.Running C slot inv := by
  refine ⟨h.cluster, hg.held h.held, h.authentic.mono hl, h.low, h.high, h.first, fun d hd => ?_⟩
  obtain ⟨p, hp, hval⟩ := h.decided d hd
  exact ⟨p, hg.decided hp, hval⟩

theorem Consistent.sent_of_recorded (h : w.Consistent C slot) {s : Nat}
    (hp : p ∈ (w.history j slot).recorded s) :
    ∃ m ∈ w.sent, m.target = j ∧ m.request.slot = slot ∧ m.request.step = s ∧ m.request.proposal = p := by
  obtain ⟨d, hd, htarget, hslot, _, hstep, hprop⟩ := mem_history.mp (History.mem_recorded.mp hp)
  exact ⟨d.message, h.delivered d hd, htarget, hslot, hstep, hprop⟩

theorem Consistent.held_of_recorded (h : w.Consistent C slot) {s : Nat}
    (hp : p ∈ (w.history j slot).recorded s) : (w.rounds C slot).Held s p := by
  obtain ⟨m, hm, _, hslot, rfl, rfl⟩ := h.sent_of_recorded hp
  exact (h.sent m hm hslot).held

theorem Consistent.authentic_of_recorded (h : w.Consistent C slot) {s : Nat}
    (hp : p ∈ (w.history j slot).recorded s) : w.Authentic slot p := by
  obtain ⟨m, hm, _, hslot, rfl, rfl⟩ := h.sent_of_recorded hp
  exact (h.sent m hm hslot).authentic

/-! Actions on one recorder. -/

private theorem later_setRecorder (w : World V) (j : ReplicaId) (r : RecorderCore V) : w.Later (w.setRecorder j r) :=
  ⟨fun inv h => ⟨inv, h, rfl, rfl, fun _ h => h⟩, [], (List.append_nil _).symm⟩

theorem Consistent.setRecorder (h : w.Consistent C slot)
    (hr : w.Tracks slot j r) : (w.setRecorder j r).Consistent C slot := by
  have hl := later_setRecorder w j r
  have hg : (w.rounds C slot).Grows ((w.setRecorder j r).rounds C slot) := hl.grows_of_deliveries rfl
  refine ⟨fun i => ?_, h.bound, h.delivered, ?_, ?_, ?_, h.index, h.current, ?_, ?_, h.results⟩
  · by_cases hij : i = j
    · subst hij
      have hget : (w.setRecorder i r).recorders i = r := Function.update_self ..
      rw [hget]
      exact hr.mono hl rfl
    · have hget : (w.setRecorder j r).recorders i = w.recorders i := Function.update_of_ne hij ..
      rw [hget]
      exact (h.recorders i).mono hl rfl
  · exact fun d hd hslot => (h.answered d hd hslot).mono hl fun _ => History.Extends.refl _
  · exact fun m hm hslot => (h.sent m hm hslot).mono hl hg
  · exact fun m hm d hd hslot => hl.returned (h.known m hm d hd hslot)
  · exact fun inv hinv hslot => (h.running inv hinv hslot).mono hl hg
  · exact fun inv hinv d hd hslot => hl.returned (h.calls inv hinv d hd hslot)

theorem Tracks.learn {d : Decision V} (hd : d.slot = slot → w.Returned d) (r : RecorderCore V)
    (h : w.Tracks slot j r) (_ : r.Learns d) :
    w.Tracks slot j { r with decisions := r.decisions.insert d.slot d } := by
  refine ⟨h.id, fun e he => ?_, h.active, h.idle, h.leaders⟩
  rw [OrderedMap.get_insert] at he
  split_ifs at he with hs
  · cases he
    exact ⟨hs.symm, hd hs.symm⟩
  · exact h.decisions e he

theorem Tracks.prune (h : w.Tracks slot j r) (through : SlotIndex) :
    w.Tracks slot j (r.pruneThrough through) := by
  refine ⟨h.id, fun d hd => ?_, fun g hg => ?_, fun hnone => ?_, fun d hd hj hslot => ?_⟩
  · exact h.decisions d ((OrderedMap.get_retain _ _ _ _).mp hd).1
  · exact h.active g ((OrderedMap.get_retain _ _ _ _).mp hg).1
  · simp only [RecorderCore.pruneThrough, OrderedMap.get_retain_key] at hnone ⊢
    split_ifs at hnone with hlive
    · exact (h.idle hnone).imp_right fun hle => hle.trans (le_max_left _ _)
    · exact .inr (le_max_of_le_right (by simpa using hlive))
  · simp only [RecorderCore.pruneThrough, OrderedMap.get_retain_key]
    split_ifs with hlive
    · exact (h.leaders d hd hj hslot).imp_right fun hle => hle.trans (le_max_left _ _)
    · exact .inr (le_max_of_le_right (by simpa using hlive))

section
variable [DecidableEq V]

theorem Tracks.inform (h : w.Tracks slot j r) {d : Decision V}
    (hd : d.slot = slot → w.Returned d) : w.Tracks slot j (after (RecorderCore.informDecision d) r) :=
  (RecorderCore.keeps_informDecision (Tracks.learn hd)).after h

theorem Tracks.keeps_informDecisions {ds : List (Decision V)} (hds : ∀ d ∈ ds, d.slot = slot → w.Returned d) :
    Keeps (w.Tracks slot j) (RecorderCore.informDecisions ds) :=
  RecorderCore.keeps_informDecisions fun d hd => Tracks.learn (hds d hd)

end
end World
end QuePaxa
