import QuePaxa.Protocol.Effects
import QuePaxa.Protocol.Proposing

/-! Concluding a step. The replies a proposer has collected describe the histories of a
quorum, and what the loop body makes of them is a move or a decision of the rounds. -/
namespace QuePaxa
open Library
variable {V : Type}
variable {reply : RecordReply V}

namespace World
variable {C : ClusterIdentity} {slot : SlotIndex} {w : World V} {inv : Invocation V}
  {replies : List (RecordReply V)}

structure Supports (slot : SlotIndex) (w : World V) (inv : Invocation V) (reply : RecordReply V) : Prop where
  leader : ∃ d ∈ w.deliveries, d.message.target = reply.recorder ∧ d.message.request.slot = slot ∧
    d.message.request.roundOneLeader = inv.call.leader
  held : ∃ p, p ∈ (w.history reply.recorder slot).recorded reply.summary.step
  first : reply.summary.first = (w.history reply.recorder slot).firstAt reply.summary.step
  prior : reply.summary.priorAggregate =
    (w.history reply.recorder slot).bestAt Proposal.key (reply.summary.step - 1)
  decision : ∀ dec, reply.decision = some dec → dec.slot = slot ∧ w.Returned dec
  own : reply.summary.step = inv.step → inv.step % 4 ≠ 0 →
    inv.proposal ∈ (w.history reply.recorder slot).recorded inv.step

private theorem Consistent.supports (h : w.Consistent C slot) {i : Nat} (hi : w.invocations[i]? = some inv)
    (hslot : inv.call.slot = slot) {d : Delivery V} (hd : d ∈ w.deliveries)
    (hinv : d.message.invocation = i) (hiter : d.message.iteration = inv.iteration)
    (htarget : d.message.target = reply.recorder) (hreply : d.reply = reply) : w.Supports slot inv reply := by
  subst hreply
  have hcur := h.current i inv hi d.message (h.delivered d hd) hinv
  have hds : d.message.request.slot = slot := hcur.slot.trans hslot
  obtain ⟨_, hstep, hprop⟩ := hcur.latest hiter
  have ha := h.answered d hd hds
  refine ⟨⟨d, hd, htarget, hds, hcur.leader⟩, ?_, ?_, ?_, ha.decision, fun hs hphase => ?_⟩
  · rw [← htarget]; exact ha.held
  · rw [← htarget]; exact ha.first
  · rw [← htarget]; exact ha.prior
  · rw [History.mem_recorded, mem_history]
    exact ⟨d, hd, htarget, hds, hs.trans hstep.symm, hstep, hprop hphase⟩

def answering (replies : List (RecordReply V)) : Set ReplicaId := {j | ∃ reply ∈ replies, reply.recorder = j}

private theorem quorum_answering (hq : C.hasQuorum (recordersOf replies) = true)
    (hs : ∀ reply ∈ replies, w.Supports slot inv reply) : (w.rounds C slot).quorum (answering replies) := by
  refine ⟨⟨recordersOf replies, hq, fun j => ?_⟩, inv.call.leader, ?_⟩
  · simp only [answering, Set.mem_ofPred_eq, recordersOf, List.mem_toFinset, List.mem_map]
  · rintro j ⟨reply, hr, rfl⟩
    exact (hs reply hr).leader

theorem Running.entered (h : w.Running C slot inv) (phase : inv.step % 4 ≠ 0) :
    (w.rounds C slot).Entered inv.step inv.proposal := by
  obtain ⟨q, hq, _, heq⟩ := h.held
  exact heq phase ▸ hq

section
variable (hrun : w.Running C slot inv) (hQ : (w.rounds C slot).quorum (answering replies))
  (hs : ∀ reply ∈ replies, w.Supports slot inv reply)
  (same : ∀ reply ∈ replies, reply.summary.step = inv.step)
include hs same

private theorem firstAt_of_reply (hr : reply ∈ replies) :
    ∃ f, reply.summary.first = some f ∧ (w.history reply.recorder slot).firstAt inv.step = some f := by
  obtain ⟨p, hp⟩ := (hs reply hr).held
  obtain ⟨f, hf⟩ := History.exists_firstAt hp
  have hfirst := (hs reply hr).first
  rw [hf] at hfirst
  rw [same reply hr] at hf
  exact ⟨f, hfirst, hf⟩

private theorem bestAt_of_reply (hr : reply ∈ replies) :
    (w.history reply.recorder slot).bestAt Proposal.key (inv.step - 1) = reply.summary.priorAggregate := by
  rw [(hs reply hr).prior, same reply hr]

private theorem best_prior {best : Proposal V}
    (hbest : bestOf Proposal.key (replies.filterMap (·.summary.priorAggregate)) = some best) :
    (∃ j ∈ answering replies, (w.history j slot).bestAt Proposal.key (inv.step - 1) = some best) ∧
      ∀ j ∈ answering replies, ∀ b, (w.history j slot).bestAt Proposal.key (inv.step - 1) = some b →
        b.key ≤ best.key := by
  constructor
  · obtain ⟨reply, hr, hprior⟩ := List.mem_filterMap.mp (mem_of_bestOf hbest)
    exact ⟨reply.recorder, ⟨reply, hr, rfl⟩, (bestAt_of_reply hs same hr).trans hprior⟩
  · rintro j ⟨reply, hr, rfl⟩ b hb
    rw [bestAt_of_reply hs same hr] at hb
    exact le_bestOf hbest (List.mem_filterMap.mpr ⟨reply, hr, hb⟩)

private theorem closed_answering : ∀ j ∈ answering replies, ∃ q, q ∈ (w.history j slot).recorded inv.step := by
  rintro j ⟨reply, hr, rfl⟩
  obtain ⟨q, hq⟩ := (hs reply hr).held
  exact ⟨q, same reply hr ▸ hq⟩

include hQ

private theorem fast_decided {winner : Proposal V} (path : FastPath inv.step replies inv.call.leader winner) :
    (w.rounds C slot).Decided winner := by
  have hstep : inv.step = 4 := path.step
  refine .inl ⟨answering replies, path.priority, hQ, ?_, ?_⟩
  · obtain ⟨reply, hr, hfirst⟩ := path.some
    obtain ⟨f, hf, hat⟩ := firstAt_of_reply hs same hr
    rw [hfirst] at hf
    cases hf
    exact ⟨reply.recorder, ⟨reply, hr, rfl⟩, hstep ▸ hat⟩
  · rintro j ⟨reply, hr, rfl⟩
    obtain ⟨f, hf, hkey⟩ := path.all reply hr
    obtain ⟨f', hf', hat⟩ := firstAt_of_reply hs same hr
    rw [hf] at hf'
    cases hf'
    exact ⟨f, hstep ▸ hat, hkey⟩

private theorem lead_entered {best : Proposal V} (phase : inv.step % 4 = 0)
    (hbest : bestOf Proposal.key (replies.filterMap (·.summary.first)) = some best) :
    (w.rounds C slot).Entered (inv.step + 1) best := by
  refine .lead phase hQ ?_ ?_
  · obtain ⟨reply, hr, hfirst⟩ := List.mem_filterMap.mp (mem_of_bestOf hbest)
    obtain ⟨f, hf, hat⟩ := firstAt_of_reply hs same hr
    rw [hfirst] at hf
    cases hf
    exact ⟨reply.recorder, ⟨reply, hr, rfl⟩, hat⟩
  · rintro j ⟨reply, hr, rfl⟩
    obtain ⟨f, hf, hat⟩ := firstAt_of_reply hs same hr
    exact ⟨f, hat, le_bestOf hbest (List.mem_filterMap.mpr ⟨reply, hr, hf⟩)⟩

include hrun

private theorem spread_entered (phase : inv.step % 4 = 1 ∨ inv.step % 4 = 2) :
    (w.rounds C slot).Entered (inv.step + 1) inv.proposal := by
  have hne : inv.step % 4 ≠ 0 := by rcases phase with h | h <;> simp [h]
  refine .spread phase (hrun.entered hne) hQ ?_
  rintro j ⟨reply, hr, rfl⟩
  exact (hs reply hr).own (same reply hr) hne

private theorem slow_decided (phase : inv.step % 4 = 2)
    (hmax : bestOf Proposal.key (replies.filterMap (·.summary.priorAggregate)) = some inv.proposal) :
    (w.rounds C slot).Decided inv.proposal := by
  have hne : inv.step % 4 ≠ 0 := by simp [phase]
  have hlow : 4 ≤ inv.step := hrun.low
  obtain ⟨r, hr⟩ : ∃ r, inv.step = 4 * r + 2 := ⟨inv.step / 4, by lia⟩
  have hprior : inv.step - 1 = 4 * r + 1 := by lia
  obtain ⟨hsome, hall⟩ := best_prior hs same hmax
  have hentered := hrun.entered hne
  rw [hprior] at hsome hall
  refine .inr ⟨r, answering replies, by lia, hQ, hr ▸ hentered, ?_, hsome, hall⟩
  rintro j ⟨reply, hmem, rfl⟩
  exact hr ▸ (hs reply hmem).own (same reply hmem) hne

private theorem gather_entered (phase : inv.step % 4 = 3) :
    (w.rounds C slot).Entered (inv.step + 1)
      ((bestOf Proposal.key (replies.filterMap (·.summary.priorAggregate))).getD inv.proposal) := by
  have hclosed := closed_answering hs same
  cases hbest : bestOf Proposal.key (replies.filterMap (·.summary.priorAggregate)) with
  | some best =>
    obtain ⟨hsome, hall⟩ := best_prior hs same hbest
    exact .gather phase hQ hclosed hsome hall
  | none =>
    refine .keep phase (hrun.entered (by simp [phase])) hQ hclosed ?_
    rintro j ⟨reply, hr, rfl⟩
    refine (bestAt_of_reply hs same hr).trans ?_
    cases hprior : reply.summary.priorAggregate with
    | none => rfl
    | some b =>
      have hmem : b ∈ replies.filterMap (·.summary.priorAggregate) := List.mem_filterMap.mpr ⟨reply, hr, hprior⟩
      rw [bestOf_eq_none.mp hbest] at hmem
      cases hmem

end

def Justified (C : ClusterIdentity) (slot : SlotIndex) (w : World V) (inv : Invocation V) :
    StepOutcome V → Prop
  | .decided d => ∃ p, (w.rounds C slot).Decided p ∧ p.valueIds = d.valueIds
  | .next step p => (w.rounds C slot).Held step p ∧ w.Authentic slot p ∧ Step.roundOnePhaseZero ≤ step ∧
      step ≤ u64Max ∧ (step = Step.roundOnePhaseZero → p = inv.firstProposal)

private theorem justified_next {step : Nat} {p : Proposal V}
    (hentered : (w.rounds C slot).Entered (step + 1) p) (hauth : w.Authentic slot p)
    (hlow : 4 ≤ step) (hroom : step < u64Max) : Justified C slot w inv (.next (step + 1) p) := by
  refine ⟨⟨p, hentered, rfl, fun _ => rfl⟩, hauth, ?_, hroom, fun hfirst => ?_⟩
  · exact Nat.le_succ_of_le hlow
  · have : step + 1 = 4 := hfirst
    omega

private theorem Consistent.justified (h : w.Consistent C slot) (hrun : w.Running C slot inv)
    (hQ : (w.rounds C slot).quorum (answering replies)) (hs : ∀ reply ∈ replies, w.Supports slot inv reply)
    {outcome : StepOutcome V}
    (hc : Concludes inv.call.slot inv.call.leader inv.step inv.proposal replies outcome) :
    Justified C slot w inv outcome := by
  have hlow : 4 ≤ inv.step := hrun.low
  cases hc with
  | adopted mem held slot_eq =>
    -- a retained decision was returned earlier, so it is already justified
    obtain ⟨hds, x, hx, hret⟩ := (hs _ mem).decision _ held
    exact (h.running x hx ((h.results x hx _ hret).symm.trans hds)).decided _ hret
  | fast same path => exact ⟨_, fast_decided hQ hs same path, rfl⟩
  | lead same phase room max =>
    obtain ⟨reply, hr, hfirst⟩ := List.mem_filterMap.mp (mem_of_bestOf max)
    have hrec := History.mem_of_firstAt ((hs reply hr).first.symm.trans hfirst)
    exact justified_next (lead_entered hQ hs same phase max) (h.authentic_of_recorded hrec) hlow room
  | spread same phase room =>
    exact justified_next (spread_entered hrun hQ hs same phase) hrun.authentic hlow room
  | slow same phase max => exact ⟨_, slow_decided hrun hQ hs same phase max, rfl⟩
  | gather same phase room =>
    refine justified_next (gather_entered hrun hQ hs same phase) ?_ hlow room
    cases hbest : bestOf Proposal.key (replies.filterMap (·.summary.priorAggregate)) with
    | none => exact hrun.authentic
    | some best =>
      obtain ⟨reply, hr, hprior⟩ := List.mem_filterMap.mp (mem_of_bestOf hbest)
      exact h.authentic_of_recorded (mem_of_bestOf ((hs reply hr).prior.symm.trans hprior))
  | @jump reply first mem ahead held =>
    have hrec := History.mem_of_firstAt ((hs reply mem).first.symm.trans held)
    obtain ⟨m, hm, _, hms, hstep, _⟩ := h.sent_of_recorded hrec
    refine ⟨h.held_of_recorded hrec, h.authentic_of_recorded hrec, ?_, hstep ▸ (h.sent m hm hms).high, ?_⟩
    · exact le_of_lt (lt_of_le_of_lt hlow ahead)
    · intro hfirst
      exact absurd hfirst (ne_of_gt (lt_of_le_of_lt hlow ahead))
  | stay => exact ⟨hrun.held, hrun.authentic, hrun.low, hrun.high, hrun.first⟩

private theorem slot_of_concludes {slot : SlotIndex} {leader : Option ReplicaId} {step : Step}
    {proposal : Proposal V} {d : Decision V} (hc : Concludes slot leader step proposal replies (.decided d)) :
    d.slot = slot := by
  cases hc with
  | adopted _ _ slot_eq => exact slot_eq
  | fast => rfl
  | slow => rfl

/-- An invocation for the slot that has collected a quorum concludes only what is justified. -/
private theorem Consistent.concluded [DecidableEq V] (h : w.Consistent C slot) {i : Nat}
    (hi : w.invocations[i]? = some inv) {targets : List ReplicaId} {launched : Nat} {arrivals : List (Arrival V)}
    (hg : w.Genuine i inv.iteration targets arrivals)
    (hcol : inv.proposer.collectQuorum inv.quorum launched arrivals = .ok replies)
    (hslot : inv.call.slot = slot) {outcome : StepOutcome V}
    (hc : Concludes inv.call.slot inv.call.leader inv.step inv.proposal replies outcome) :
    Justified C slot w inv outcome := by
  have hrun := h.running inv (List.mem_of_getElem? hi) hslot
  obtain ⟨hreach, hall, _⟩ := Proposer.collectQuorum_ok hcol
  have hs : ∀ reply ∈ replies, w.Supports slot inv reply := by
    intro reply hr
    obtain ⟨d, hd, hdi, hiter, htarget, hreply⟩ := hg.delivered (hall reply hr)
    exact h.supports hi hslot hd hdi hiter htarget hreply
  rw [hrun.cluster] at hreach
  exact h.justified hrun (quorum_answering hreach hs) hs hc

private theorem Consistent.conclude [DecidableEq V] (h : w.Consistent C slot) {i : Nat}
    (hi : w.invocations[i]? = some inv) {targets : List ReplicaId} (hp : inv.progress = .waiting targets)
    {launched : Nat} {arrivals : List (Arrival V)} (hg : w.Genuine i inv.iteration targets arrivals)
    (hcol : inv.proposer.collectQuorum inv.quorum launched arrivals = .ok replies)
    (collected : List (Nat × List (RecordReply V))) :
    (w.update i (inv.conclude replies) [] collected).Consistent C slot := by
  have hopen : ∀ r, inv.progress ≠ .returned r := by simp [hp]
  have hmem : inv ∈ w.invocations := List.mem_of_getElem? hi
  unfold Invocation.conclude
  cases hx : concludeStep inv.call.slot inv.call.leader inv.step inv.proposal replies with
  | error e => exact h.fail hi hopen e
  | ok outcome =>
    have hc := concludeStep_ok hx
    have hjust := fun hslot => h.concluded hi hg hcol hslot hc
    cases outcome with
    | decided d =>
      refine h.update hi rfl rfl hopen (fun d' hd' => ?_) (fun hslot => ?_) (by simp) fun m hm hmi => ?_
      · cases hd'
        exact slot_of_concludes hc
      · have hr := h.running inv hmem hslot
        refine ⟨hr.cluster, hr.held, hr.authentic, hr.low, hr.high, hr.first, fun d' hd' => ?_⟩
        cases hd'
        exact hjust hslot
      · rw [List.append_nil] at hm
        exact (h.current i inv hi m hm hmi).finish _
    | next step p =>
      refine h.update hi rfl rfl hopen (fun d' hd' => by cases hd') (fun hslot => ?_) (by simp) fun m hm hmi => ?_
      · obtain ⟨hheld, hauth, hlow, hhigh, hfirst⟩ := hjust hslot
        exact ⟨(h.running inv hmem hslot).cluster, hheld, hauth, hlow, hhigh, hfirst, fun d' hd' => by cases hd'⟩
      · rw [List.append_nil] at hm
        have hcur := h.current i inv hi m hm hmi
        refine ⟨hcur.slot, hcur.leader, Nat.le_succ_of_le hcur.iteration, fun heq => ?_⟩
        exact absurd heq (Nat.ne_of_lt (Nat.lt_succ_of_le hcur.iteration))

theorem Consistent.collect [DecidableEq V] (h : w.Consistent C slot) (i : Nat) (arrivals : List (Arrival V)) :
    (w.step (.collect i arrivals)).Consistent C slot := by
  have hmoves := w.moves (.collect i arrivals)
  generalize w.step (.collect i arrivals) = w' at hmoves ⊢
  cases hmoves with
  | idle => exact h
  | @fails _ inv targets _ e hi hwaiting hgenuine hcollect =>
    have hopen : ∀ r, inv.progress ≠ .returned r := by simp [hwaiting]
    have hfail : (w.update i (inv.finish (.error e)) [] w.collected).Consistent C slot := h.fail hi hopen e
    simpa only [World.update, List.append_nil] using hfail
  | @concludes _ inv targets _ replies hi hwaiting hgenuine hcollect =>
    have hdone := h.conclude hi hwaiting hgenuine hcollect (w.collected ++ [(i, replies)])
    simpa only [World.update, List.append_nil] using hdone

end World
end QuePaxa
