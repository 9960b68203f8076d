import QuePaxa.Protocol.Answers
import QuePaxa.Protocol.Conclusive

/-! A proposer decides once it is a phase ahead of the others. Let no request of another
invocation be delivered beyond phase 0 of some round. Then the registers follow this
proposer through phases 1 and 2: each phase-2 reply of a recorder that answered in phase 1
reports its proposal as the prior aggregate, and two quorums share such a recorder. -/
namespace QuePaxa
open Library
variable {V : Type}

def Invocation.turnsTo (last : Step) (inv : Invocation V) : Nat :=
  match inv.progress with
  | .ready => 2 * (last - inv.step) + 2
  | .waiting _ => 2 * (last - inv.step) + 1
  | .returned _ => 0

private theorem Invocation.Advances.step_le {inv inv' : Invocation V} (h : inv.Advances inv') :
    inv.step ≤ inv'.step := by
  cases h with
  | returns | enters => exact le_refl _
  | repeats _ _ hlater => exact le_of_lt hlater

private theorem Invocation.Advances.turnsTo {inv inv' : Invocation V} (h : inv.Advances inv') {last : Step}
    (hlast : inv'.step ≤ last) :
    1 + inv'.turnsTo last ≤ inv.turnsTo last := by
  cases h with
  | returns result hnot =>
    cases hprogress : inv.progress with
    | ready =>
      simp only [Invocation.turnsTo, finish, hprogress]
      omega
    | waiting targets =>
      simp only [Invocation.turnsTo, finish, hprogress]
      omega
    | returned => simp [hprogress, Progress.isReady, Progress.isWaiting] at hnot
  | enters targets hready =>
    simp only [Invocation.turnsTo, hready]
    omega
  | repeats proposal hwaiting hlater =>
    simp only at hlast
    simp only [Invocation.turnsTo, hwaiting]
    lia

namespace World

def Behind (w : World V) : Prop :=
  ∀ m ∈ w.sent, ∃ inv, w.invocations[m.invocation]? = some inv ∧ m.request.step ≤ inv.step

/-- Nobody but the invocation gets a request for the slot delivered beyond the limit, its draws
succeed, and each of its steps is answered by a quorum. All else may happen. -/
def Unopposed (i : Nat) (slot : SlotIndex) (limit : Step) (w : World V) : Action V → Prop
  | .deliver m _ => m.request.slot = slot → limit < m.request.step → m.invocation = i
  | .send k draws _ => k = i → (w.invocations[i]?).all (fun inv => (inv.requests draws).isOk) = true
  | .collect k arrivals => k = i → (w.invocations[i]?).all (fun inv =>
      match inv.progress with
      | .waiting targets => (inv.proposer.collectQuorum inv.quorum targets.length arrivals).isOk
      | _ => true) = true
  | _ => True

instance (i : Nat) (slot : SlotIndex) (limit : Step) (w : World V) (a : Action V) :
    Decidable (w.Unopposed i slot limit a) :=
  match a with
  | .deliver _ _ => inferInstanceAs (Decidable (_ → _ → _))
  | .send _ _ _ | .collect _ _ => inferInstanceAs (Decidable (_ → _))
  | .start _ _ | .inform _ _ | .prune _ _ | .install _ _ => inferInstanceAs (Decidable True)

/-- Where an invocation stands whose registers are at most at phase 0 of its round, or have
followed it through phases 1 and 2. -/
structure Ahead (i : Nat) (limit : Step) (w : World V) (inv : Invocation V) : Prop where
  current : w.invocations[i]? = some inv
  reached : inv.step ≤ limit + 2
  unfailing : ∀ e, inv.progress ≠ .returned (.error e)
  decided : ∀ d, inv.progress = .returned (.ok d) → d.slot = inv.call.slot
  registers : ∀ j, ((w.recorders j).register inv.call.slot).Trails limit inv.step inv.proposal
  sent : ∀ m ∈ w.sent, m.invocation = i → limit < m.request.step →
    m.request.step ≤ inv.step ∧ m.request.proposal = inv.proposal
  replies : ∀ d ∈ w.deliveries, d.message.invocation = i → d.reply.summary.step ≤ max limit inv.step ∧
    (d.reply.summary.step = limit + 2 →
      d.reply.summary.priorAggregate = none ∨ d.reply.summary.priorAggregate = some inv.proposal)
  /-- A quorum has taken in the proposal in phase 1, and reports it in phase 2. -/
  confirmed : inv.step = limit + 2 → ∃ Q : Finset ReplicaId, inv.proposer.HasQuorum inv.call Q ∧
    Q ⊆ inv.call.recorders.toFinset ∧ ∀ j ∈ Q,
      (inv.call.slot ≤ (w.recorders j).prunedThrough ∨
        ((w.recorders j).register inv.call.slot).Confirms limit inv.proposal) ∧
      ∀ d ∈ w.deliveries, d.message.invocation = i → d.message.target = j → d.reply.summary.step = limit + 2 →
        d.reply.summary.priorAggregate = some inv.proposal

structure Heard (i : Nat) (w : World V) (inv : Invocation V) (replies : List (RecordReply V)) : Prop where
  conclusive : Conclusive inv.call.slot inv.step replies
  wellFormed : ∀ c ∈ inv.proposer.cluster, c.isWellFormed = true
  quorum : inv.proposer.HasQuorum inv.call (recordersOf replies)
  subset : recordersOf replies ⊆ inv.call.recorders.toFinset
  delivered : ∀ reply ∈ replies, ∃ d ∈ w.deliveries, d.message.invocation = i ∧ d.message.target = reply.recorder ∧
    d.reply = reply

section
variable {w : World V} {a : Action V} {i : Nat} {limit : Step} {inv inv' : Invocation V}
  {replies : List (RecordReply V)}

theorem of_terms_eq (h : terms inv' = terms inv) : inv'.proposer = inv.proposer ∧ inv'.call = inv.call :=
  ⟨congrArg (·.1) h, congrArg (·.2.1) h⟩

theorem Kept.addressed_to (hk : w.Kept) (hi : w.invocations[i]? = some inv) {m : Message V} (hm : m ∈ w.sent)
    (hinvocation : m.invocation = i) : m.target ∈ inv.call.recorders ∧ m.request.slot = inv.call.slot := by
  obtain ⟨c, hc, haddressed⟩ := hk.addressed m hm
  rw [hinvocation, calls_of_invocation hi] at hc
  cases hc
  exact haddressed

/-- What an unopposed delivery may bring to a register of the slot. -/
theorem Ahead.request (h : w.Ahead i limit inv) {m : Message V} {available : Availability V} (hm : m ∈ w.sent)
    (ha : w.Unopposed i inv.call.slot limit (.deliver m available)) (hslot : m.request.slot = inv.call.slot) :
    limit < m.request.step → m.request.step ≤ inv.step ∧ m.request.proposal = inv.proposal :=
  fun hlimit => h.sent m hm (ha hslot hlimit) hlimit

/-- Before the limit nothing has happened that could stand in the way. -/
theorem ahead_of_within (hi : w.invocations[i]? = some inv) (hbehind : w.Behind) (hstep : inv.step ≤ limit)
    (hrunning : ∀ result, inv.progress ≠ .returned result)
    (hregisters : ∀ j, ((w.recorders j).register inv.call.slot).step ≤ limit)
    (hreplies : ∀ d ∈ w.deliveries, d.message.invocation = i → d.reply.summary.step ≤ limit) : w.Ahead i limit inv where
  current := hi
  reached := hstep.trans (Nat.le_add_right _ _)
  unfailing e := hrunning _
  decided d hd := absurd hd (hrunning _)
  registers j := by
    have hbound := hregisters j
    refine ⟨hbound.trans (le_max_left _ _), fun hlimit => absurd hbound (not_le.mpr hlimit), fun hlater => ?_⟩
    exact absurd hbound (by lia)
  sent m hm hinvocation hlimit := by
    obtain ⟨x, hx, hle⟩ := hbehind m hm
    rw [hinvocation, hi] at hx
    cases hx
    exact absurd (hle.trans hstep) (not_le.mpr hlimit)
  replies d hd hinvocation := by
    have hbound := hreplies d hd hinvocation
    exact ⟨hbound.trans (le_max_left _ _), fun hlater => absurd hbound (by lia)⟩
  confirmed hlast := by lia

/-- From phase 1 the invocation goes on to phase 2, with a quorum behind it. -/
theorem Ahead.confirm (h : w.Ahead i limit inv) (hk : w.Kept) (hr : w.Heard i inv replies)
    (hone : inv.step = limit + 1) :
    ∃ Q : Finset ReplicaId, inv.proposer.HasQuorum inv.call Q ∧ Q ⊆ inv.call.recorders.toFinset ∧
      ∀ j ∈ Q, inv.call.slot ≤ (w.recorders j).prunedThrough ∨
        ((w.recorders j).register inv.call.slot).Confirms limit inv.proposal := by
  obtain ⟨hconclusive, hC, hquorum, hsubset, hdelivered⟩ := hr
  refine ⟨_, hquorum, hsubset, fun j hj => ?_⟩
  obtain ⟨reply, hr, rfl⟩ := List.mem_map.mp (List.mem_toFinset.mp hj)
  obtain ⟨d, hd, hinvocation, htarget, rfl⟩ := hdelivered reply hr
  have hheld := hk.held d hd
  rw [(hk.addressed_to h.current (hk.delivered d hd) hinvocation).2, htarget] at hheld
  refine hheld.imp_right fun hheld => .inl ?_
  have hregister := h.registers d.reply.recorder
  have hbound := hregister.bound
  have hahead := hconclusive.ahead _ hr
  rw [max_eq_right (by lia)] at hbound
  have hstep : ((w.recorders d.reply.recorder).register inv.call.slot).step = limit + 1 := by lia
  exact ⟨hstep, hregister.current (by lia)⟩

variable [DecidableEq V]

private theorem Behind.step (h : w.Behind) (hp : w.Paced) (a : Action V) : (w.step a).Behind := by
  intro m hm
  rcases sent_turn w a hm with hm | ⟨inv, targets, p, draws, _, _, hi', _, _, hrequest⟩
  · obtain ⟨inv, hi, hle⟩ := h m hm
    by_cases hturn : w.takesTurn m.invocation a = true
    · obtain ⟨inv', hi', hadvances⟩ := hp.turn hi hturn
      exact ⟨inv', hi', hle.trans hadvances.step_le⟩
    · exact ⟨inv, rests hi hturn, hle⟩
  · exact ⟨_, hi', by rw [hrequest]⟩

private theorem Ahead.registers_step (h : w.Ahead i limit inv) (ha : w.Unopposed i inv.call.slot limit a)
    (j : ReplicaId) :
    (((w.step a).recorders j).register inv.call.slot).Trails limit inv.step inv.proposal := by
  rcases register_step w a j inv.call.slot with ⟨_, hsame | ⟨hdefault, _⟩⟩ |
    ⟨m, available, _, rfl, hm, _, hslot, hshows⟩
  · rw [hsame]
    exact h.registers j
  · rw [hdefault]
    exact IntervalSummaryRegister.trails_default
  · rw [← hslot, hshows.register, hslot]
    exact (h.registers j).advance (h.request hm ha hslot)

private theorem Ahead.confirms_step (h : w.Ahead i limit inv) (hroom : limit + 2 ≤ u64Max)
    (ha : w.Unopposed i inv.call.slot limit a)
    {j : ReplicaId} (hj : inv.call.slot ≤ (w.recorders j).prunedThrough ∨
      ((w.recorders j).register inv.call.slot).Confirms limit inv.proposal) :
    inv.call.slot ≤ ((w.step a).recorders j).prunedThrough ∨
      (((w.step a).recorders j).register inv.call.slot).Confirms limit inv.proposal := by
  rcases register_step w a j inv.call.slot with ⟨hfloor, hrest⟩ | ⟨m, available, _, rfl, hm, _, hslot, hshows⟩
  · rcases hj with hpruned | hconfirms
    · exact .inl (hpruned.trans hfloor)
    · rcases hrest with hsame | ⟨_, hpruned⟩
      · exact .inr (hsame ▸ hconfirms)
      · exact .inl hpruned
  · rcases hj with hpruned | hconfirms
    · exact .inl (hpruned.trans (le_of_eq hshows.floor.symm))
    · right
      rw [← hslot, hshows.register, hslot]
      exact hconfirms.advance h.reached hroom (h.request hm ha hslot)

/-- The invocation stays at its step, whoever acts. -/
theorem Ahead.stays (h : w.Ahead i limit inv) (hk : w.Kept) (hmod : limit % 4 = 0) (hroom : limit + 2 ≤ u64Max)
    (ha : w.Unopposed i inv.call.slot limit a) (hi' : (w.step a).invocations[i]? = some inv')
    (hterms : terms inv' = terms inv) (hstep : inv'.step = inv.step) (hproposal : inv'.proposal = inv.proposal)
    (hunfailing : ∀ e, inv'.progress ≠ .returned (.error e))
    (hdecided : ∀ d, inv'.progress = .returned (.ok d) → d.slot = inv.call.slot) : (w.step a).Ahead i limit inv' := by
  obtain ⟨hproposer, hcall⟩ := of_terms_eq hterms
  -- a reply that is new shows the register it comes from
  have hnew : ∀ d ∈ (w.step a).deliveries, d.message.invocation = i → d ∈ w.deliveries ∨
      ((w.step a).recorders d.message.target).prunedThrough < inv.call.slot ∧
        d.reply.summary = (((w.step a).recorders d.message.target).register inv.call.slot).summary := by
    intro d hd hinvocation
    refine (replied_step hd).imp_right fun ⟨_, _, hm, hrecord⟩ => ?_
    have hslot := (hk.addressed_to h.current hm hinvocation).2
    have hshows := RecorderCore.record_shows hrecord
    exact ⟨hslot ▸ hshows.live, hslot ▸ hshows.summary⟩
  refine ⟨hi', hstep ▸ h.reached, hunfailing, by rwa [hcall], ?_, ?_, ?_, ?_⟩
  · rw [hcall, hstep, hproposal]
    exact h.registers_step ha
  · intro m hm hinvocation hlimit
    rw [hstep, hproposal]
    rcases sent_turn w a hm with hm | ⟨x, _, p, draws, hx, _, _, _, hp, hrequest⟩
    · exact h.sent m hm hinvocation hlimit
    · rw [hinvocation, h.current] at hx
      cases hx
      rw [hrequest] at hlimit ⊢
      refine ⟨le_refl _, ?_⟩
      have hreached := h.reached
      rcases proposalFor_ok hp with ⟨hphase, _⟩ | ⟨hsame, _⟩
      · have : limit < inv.step := hlimit
        exact absurd hphase (by lia)
      · exact hsame
  · intro d hd hinvocation
    rw [hstep, hproposal]
    rcases hnew d hd hinvocation with hd | ⟨_, hsummary⟩
    · exact h.replies d hd hinvocation
    · rw [hsummary]
      have htrails := h.registers_step ha d.message.target
      exact ⟨htrails.bound, htrails.prior⟩
  · intro hlast
    rw [hstep] at hlast
    rw [hproposer, hcall, hproposal]
    obtain ⟨Q, hQ, hsubset, hall⟩ := h.confirmed hlast
    refine ⟨Q, hQ, hsubset, fun j hj => ?_⟩
    obtain ⟨hconfirms, hreplies⟩ := hall j hj
    have hconfirms' := h.confirms_step hroom ha hconfirms
    refine ⟨hconfirms', fun d hd hinvocation htarget hlater => ?_⟩
    rcases hnew d hd hinvocation with hd | ⟨hlive, hsummary⟩
    · exact hreplies d hd hinvocation htarget hlater
    · rw [htarget] at hlive hsummary
      rw [hsummary] at hlater ⊢
      rcases hconfirms'.resolve_left (not_le.mpr hlive) with ⟨hearlier, _⟩ | ⟨_, hprior⟩
      · have : limit + 1 = limit + 2 := hearlier.symm.trans hlater
        lia
      · exact hprior

private theorem Ahead.heard (h : w.Ahead i limit inv) (hk : w.Kept) (hp : w.Paced)
    (hC : ∀ c ∈ inv.proposer.cluster, c.isWellFormed = true) {targets : List ReplicaId} {arrivals : List (Arrival V)}
    (hgenuine : w.Genuine i inv.iteration targets arrivals)
    (hcollect : inv.proposer.collectQuorum inv.quorum targets.length arrivals = .ok replies) :
    w.Heard i inv replies := by
  obtain ⟨hreach, hcollected, hdistinct⟩ := Proposer.collectQuorum_ok hcollect
  have hdelivered : ∀ reply ∈ replies, ∃ d ∈ w.deliveries, d.message.invocation = i ∧
    d.message.target = reply.recorder ∧
      d.reply = reply := by
    intro reply hr
    obtain ⟨d, hd, hinvocation, _, htarget, hreply⟩ := hgenuine.delivered (hcollected reply hr)
    exact ⟨d, hd, hinvocation, htarget, hreply⟩
  obtain ⟨p, hbegin⟩ := hk.begun (terms inv) (List.mem_map_of_mem (List.mem_of_getElem? h.current))
  have hquorum := Proposer.hasQuorum_of_reached hbegin hreach hdistinct
  have hsubset : recordersOf replies ⊆ inv.call.recorders.toFinset := by
    intro j hj
    obtain ⟨reply, hr, rfl⟩ := List.mem_map.mp (List.mem_toFinset.mp hj)
    obtain ⟨d, hd, hinvocation, htarget, _⟩ := hdelivered reply hr
    rw [← htarget]
    exact List.mem_toFinset.mpr (hk.addressed_to h.current (hk.delivered d hd) hinvocation).1
  refine ⟨⟨?_, hp.ahead h.current hgenuine hcollect, fun reply hr => ?_, fun reply hr => ?_⟩, hC, hquorum, hsubset,
    hdelivered⟩
  · rintro rfl
    obtain ⟨r, hr, _⟩ := hquorum.inter hC hquorum hsubset hsubset
    cases hr
  · obtain ⟨d, hd, _, _, rfl⟩ := hdelivered reply hr
    exact (hk.answers d hd).2
  · obtain ⟨d, hd, hinvocation, _, rfl⟩ := hdelivered reply hr
    rw [← (hk.addressed_to h.current (hk.delivered d hd) hinvocation).2]
    exact (hk.answers d hd).1

theorem Ahead.decides (h : w.Ahead i limit inv) (hk : w.Kept) (hmod : limit % 4 = 0) (hr : w.Heard i inv replies)
    (hlast : inv.step = limit + 2) :
    ∃ d : Decision V, d.slot = inv.call.slot ∧
      concludeStep inv.call.slot inv.call.leader inv.step inv.proposal replies = .ok (.decided d) := by
  obtain ⟨hconclusive, hC, hquorum, hsubset, hdelivered⟩ := hr
  have hsame : ∀ reply ∈ replies, reply.summary.step = inv.step := by
    intro reply hr
    obtain ⟨d, hd, hinvocation, _, rfl⟩ := hdelivered reply hr
    have hbound := (h.replies d hd hinvocation).1
    have hahead := hconclusive.ahead _ hr
    rw [max_eq_right (by lia)] at hbound
    exact le_antisymm hbound hahead
  refine hconclusive.decides (by lia) (hk.proposals inv (List.mem_of_getElem? h.current)) hsame ?_ ?_
  · intro reply hr
    obtain ⟨d, hd, hinvocation, _, rfl⟩ := hdelivered reply hr
    exact (h.replies d hd hinvocation).2 ((hsame _ hr).trans hlast)
  · -- a recorder that answered in both phases
    obtain ⟨Q, hQ, hQsubset, hall⟩ := h.confirmed hlast
    obtain ⟨j, hjQ, hj⟩ := hQ.inter hC hquorum hQsubset hsubset
    obtain ⟨reply, hr, rfl⟩ := List.mem_map.mp (List.mem_toFinset.mp hj)
    obtain ⟨d, hd, hinvocation, htarget, rfl⟩ := hdelivered reply hr
    exact ⟨_, hr, (hall _ hjQ).2 d hd hinvocation htarget ((hsame _ hr).trans hlast)⟩

/-- What a conclusion other than a decision can be. -/
theorem Ahead.goes_on (h : w.Ahead i limit inv) (hk : w.Kept) (hmod : limit % 4 = 0) (hr : w.Heard i inv replies)
    {step : Step} {p : Proposal V}
    (hconclude : concludeStep inv.call.slot inv.call.leader inv.step inv.proposal replies = .ok (.next step p)) :
    (inv.step ≤ limit ∧ step ≤ limit + 1) ∨ (inv.step = limit + 1 ∧ step = limit + 2 ∧ p = inv.proposal) := by
  have hdelivered := hr.delivered
  have hnotlast : inv.step ≠ limit + 2 := by
    intro hlast
    obtain ⟨d, _, hdecides⟩ := h.decides hk hmod hr hlast
    cases hdecides.symm.trans hconclude
  have hreached := h.reached
  have hlater := concludeStep_next hconclude hr.conclusive.ahead
  have hconcludes := concludeStep_ok hconclude
  rcases Nat.lt_or_ge limit inv.step with hpast | hle
  · have hone : inv.step = limit + 1 := by lia
    refine .inr ⟨hone, ?_⟩
    cases hconcludes with
    | spread => exact ⟨by lia, rfl⟩
    | lead _ phase | gather _ phase => exact absurd phase (by lia)
    | jump hr hahead =>
      obtain ⟨d, hd, hinvocation, _, rfl⟩ := hdelivered _ hr
      have hbound := (h.replies d hd hinvocation).1
      rw [max_eq_right (by lia)] at hbound
      exact absurd hahead (not_lt.mpr hbound)
    | stay => exact absurd hlater (lt_irrefl _)
  · refine .inl ⟨hle, ?_⟩
    cases hconcludes with
    | spread | lead | gather => lia
    | jump hr hahead =>
      obtain ⟨d, hd, hinvocation, _, rfl⟩ := hdelivered _ hr
      have hbound := (h.replies d hd hinvocation).1
      rw [max_eq_left hle] at hbound
      exact hbound.trans (Nat.le_succ _)
    | stay => exact absurd hlater (lt_irrefl _)

private theorem collect_frame (w : World V) (k : Nat) (arrivals : List (Arrival V)) :
    (w.step (.collect k arrivals)).recorders = w.recorders ∧ (w.step (.collect k arrivals)).sent = w.sent ∧
      (w.step (.collect k arrivals)).deliveries = w.deliveries := by
  have hmoves := w.moves (.collect k arrivals)
  generalize w.step (.collect k arrivals) = w' at hmoves ⊢
  cases hmoves with
  | idle | fails | concludes => exact ⟨rfl, rfl, rfl⟩

private theorem Ahead.repeats (h : w.Ahead i limit inv) (hk : w.Kept) (hmod : limit % 4 = 0)
    (hr : w.Heard i inv replies)
    {arrivals : List (Arrival V)} {step : Step} {p : Proposal V}
    (hconclude : concludeStep inv.call.slot inv.call.leader inv.step inv.proposal replies = .ok (.next step p))
    (hi' : (w.step (.collect i arrivals)).invocations[i]? =
      some { inv with step, proposal := p, iteration := inv.iteration + 1, progress := .ready }) :
    (w.step (.collect i arrivals)).Ahead i limit
      { inv with step, proposal := p, iteration := inv.iteration + 1, progress := .ready } := by
  obtain ⟨hrecorders, hsent, hdeliveries⟩ := collect_frame w i arrivals
  rcases h.goes_on hk hmod hr hconclude with ⟨hle, hstep⟩ | ⟨hone, rfl, rfl⟩
  · -- nothing has passed the limit yet, so nothing depends on the proposal
    refine ⟨hi', hstep.trans (Nat.le_succ _), by simp, by simp, ?_, ?_, ?_, ?_⟩
    · rw [hrecorders]
      exact fun j => (h.registers j).move hle step p
    · rw [hsent]
      intro m hm hinvocation hlimit
      exact absurd ((h.sent m hm hinvocation hlimit).1.trans hle) (not_le.mpr hlimit)
    · rw [hdeliveries]
      intro d hd hinvocation
      have hbound := (h.replies d hd hinvocation).1
      rw [max_eq_left hle] at hbound
      exact ⟨hbound.trans (le_max_left _ _), fun hlater => absurd hbound (by lia)⟩
    · intro hlast
      simp only at hlast
      lia
  · refine ⟨hi', le_refl _, by simp, by simp, ?_, ?_, ?_, ?_⟩
    · rw [hrecorders]
      exact fun j => (h.registers j).later (by lia)
    · rw [hsent]
      intro m hm hinvocation hlimit
      obtain ⟨hbehind, hsame⟩ := h.sent m hm hinvocation hlimit
      exact ⟨hbehind.trans (by lia), hsame⟩
    · rw [hdeliveries]
      intro d hd hinvocation
      obtain ⟨hbound, hprior⟩ := h.replies d hd hinvocation
      exact ⟨hbound.trans (max_le_max (le_refl _) (by lia)), hprior⟩
    · rw [hrecorders, hdeliveries]
      intro _
      obtain ⟨Q, hQ, hsubset, hall⟩ := h.confirm hk hr hone
      refine ⟨Q, hQ, hsubset, fun j hj => ⟨hall j hj, fun d hd hinvocation _ hlater => ?_⟩⟩
      have hbound := (h.replies d hd hinvocation).1
      rw [max_eq_right (by lia)] at hbound
      exact absurd hbound (by lia)

private theorem Ahead.step (h : w.Ahead i limit inv) (hk : w.Kept) (hp : w.Paced) (hmod : limit % 4 = 0)
    (hroom : limit + 2 ≤ u64Max)
    (hsteps : limit + 2 ≤ inv.proposer.maxSteps) (hC : ∀ c ∈ inv.proposer.cluster, c.isWellFormed = true)
    (ha : w.Unopposed i inv.call.slot limit a) : ∃ inv', (w.step a).Ahead i limit inv' ∧ terms inv' = terms inv := by
  obtain ⟨inv', hi', hturn⟩ := turn_step w a h.current
  cases hturn with
  | rests => exact ⟨inv, h.stays hk hmod hroom ha hi' rfl rfl rfl h.unfailing h.decided, rfl⟩
  | sends draws busy hready =>
    have hok := ha rfl
    rw [h.current, Option.all_some] at hok
    have hbelow : ¬inv.proposer.maxSteps < inv.step := not_lt.mpr (h.reached.trans hsteps)
    cases hrequests : inv.requests draws with
    | error e =>
      rw [hrequests] at hok
      cases hok
    | ok requests =>
      have hsend : (inv.send i draws busy).1 =
          { inv with progress := .waiting ((requests.filter fun r => inv.proposer.launches busy r.1).map (·.1)) } := by
        simp only [Invocation.send, hbelow, if_false, hrequests]
      rw [hsend] at hi'
      exact ⟨_, h.stays hk hmod hroom ha hi' rfl rfl rfl (by simp) (by simp), rfl⟩
  | fails hwaiting hgenuine hcollect =>
    have hok := ha rfl
    rw [h.current, Option.all_some] at hok
    simp only [hwaiting, hcollect] at hok
    cases hok
  | @concludes targets arrivals replies hwaiting hgenuine hcollect =>
    have hr := h.heard hk hp hC hgenuine hcollect
    have hreached := h.reached
    obtain ⟨outcome, houtcome⟩ : ∃ outcome, concludeStep inv.call.slot inv.call.leader inv.step inv.proposal replies =
        .ok outcome := by
      by_cases hlast : inv.step = limit + 2
      · obtain ⟨d, _, hdecided⟩ := h.decides hk hmod hr hlast
        exact ⟨_, hdecided⟩
      · exact hr.conclusive.concludes (by lia) (hk.proposals inv (List.mem_of_getElem? h.current))
    cases outcome with
    | decided d =>
      have hconclude : inv.conclude replies = inv.finish (.ok d) := by simp only [Invocation.conclude, houtcome]
      rw [hconclude] at hi'
      refine ⟨_, h.stays hk hmod hroom ha hi' rfl rfl rfl (by simp [Invocation.finish]) (fun x hx => ?_), rfl⟩
      cases hx
      exact (concludeStep_ok houtcome).slot_eq
    | next step p =>
      have hconclude : inv.conclude replies =
          { inv with step, proposal := p, iteration := inv.iteration + 1, progress := .ready } := by
        simp only [Invocation.conclude, houtcome]
      rw [hconclude] at hi'
      exact ⟨_, h.repeats hk hmod hr houtcome hi', rfl⟩

/-- The invariant over a run, with the turns the invocation has taken in it. -/
theorem Ahead.run {actions : List (Action V)} (h : w.Ahead i limit inv) (hk : w.Kept) (hp : w.Paced)
    (hmod : limit % 4 = 0)
    (hroom : limit + 2 ≤ u64Max) (hsteps : limit + 2 ≤ inv.proposer.maxSteps)
    (hC : ∀ c ∈ inv.proposer.cluster, c.isWellFormed = true)
    (ha : Along World.step (Unopposed i inv.call.slot limit) w actions) :
    ∃ inv', (Library.run World.step w actions).Ahead i limit inv' ∧ terms inv' = terms inv ∧
      tally World.step (takesTurn i) w actions + inv'.turnsTo (limit + 2) ≤ inv.turnsTo (limit + 2) := by
  induction actions generalizing w inv with
  | nil => exact ⟨inv, h, rfl, by simp [tally]⟩
  | cons a actions ih =>
    obtain ⟨inv', h', hterms⟩ := h.step hk hp hmod hroom hsteps hC ha.1
    have hcount : (w.takesTurn i a).toNat + inv'.turnsTo (limit + 2) ≤ inv.turnsTo (limit + 2) := by
      by_cases hturn : w.takesTurn i a = true
      · obtain ⟨x, hx, hadvances⟩ := hp.turn h.current hturn
        cases hx.symm.trans h'.current
        rw [hturn]
        exact hadvances.turnsTo h'.reached
      · cases (rests h.current hturn).symm.trans h'.current
        simp [hturn]
    obtain ⟨hproposer, hcall⟩ := of_terms_eq hterms
    obtain ⟨last, hahead, hsame, hturns⟩ :=
      ih h' (hk.step a) (hp.step a) (hproposer ▸ hsteps) (hproposer ▸ hC) (hcall ▸ ha.2)
    refine ⟨last, hahead, hsame.trans hterms, ?_⟩
    simp only [tally]
    omega

private theorem behind_run (recorders : ReplicaId → RecorderCore V) (actions : List (Action V)) :
    (Library.run World.step (opening recorders) actions).Behind := by
  have hboth : (Library.run World.step (opening recorders) actions).Paced ∧
      (Library.run World.step (opening recorders) actions).Behind :=
    run_invariant_all (I := fun w : World V => w.Paced ∧ w.Behind) (fun _ a h => ⟨h.1.step a, h.2.step h.1 a⟩)
      ⟨paced_opening recorders, fun _ hm => absurd hm List.not_mem_nil⟩ actions
  exact hboth.2

/-- Let a proposer be at or before phase 0 of some round, in any reachable state in which no register
of its slot, and no reply it has been sent, is beyond that phase. From then on let no request of
another invocation for the slot be delivered beyond it, while anything else may happen: other
requests, other slots, gossip, pruning, changes of membership. If its draws succeed and a quorum
answers each of its steps, then it never fails, never goes beyond phase 2 of the round, and has
returned a decision for its slot after two turns for each step left. -/
theorem unopposed_proposer_decides (recorders : ReplicaId → RecorderCore V) (hsound : ∀ j, (recorders j).Sound)
    (before actions : List (Action V)) (i : Nat) (inv : Invocation V) (limit : Step)
    (hi : (Library.run World.step (opening recorders) before).invocations[i]? = some inv)
    (hrunning : ∀ result, inv.progress ≠ .returned result) (hC : ∀ c ∈ inv.proposer.cluster, c.isWellFormed = true)
    (hphase : limit % 4 = 0) (hstep : inv.step ≤ limit) (hsteps : limit + 2 ≤ inv.proposer.maxSteps)
    (hmax : inv.proposer.maxSteps ≤ u64Max)
    (hregisters : ∀ j, (((Library.run World.step (opening recorders) before).recorders j).register inv.call.slot).step ≤
      limit)
    (hreplies : ∀ d ∈ (Library.run World.step (opening recorders) before).deliveries, d.message.invocation = i →
      d.reply.summary.step ≤ limit)
    (hunopposed : Along World.step (Unopposed i inv.call.slot limit)
      (Library.run World.step (opening recorders) before) actions) :
    ∃ inv', (Library.run World.step (opening recorders) (before ++ actions)).invocations[i]? = some inv' ∧
      inv'.step ≤ limit + 2 ∧ (∀ e, inv'.progress ≠ .returned (.error e)) ∧
      (inv.turnsTo (limit + 2) ≤
          tally World.step (takesTurn i) (Library.run World.step (opening recorders) before) actions →
        ∃ d, inv'.progress = .returned (.ok d) ∧ d.slot = inv.call.slot) := by
  have hahead := ahead_of_within hi (behind_run recorders before) hstep hrunning hregisters hreplies
  obtain ⟨inv', h', hterms, hturns⟩ := hahead.run (kept_run hsound before) (paced_run recorders before) hphase
    (hsteps.trans hmax) hsteps hC hunopposed
  have hcall : inv'.call = inv.call := congrArg (fun t => t.2.1) hterms
  refine ⟨inv', by rw [run_append]; exact h'.current, h'.reached, h'.unfailing, fun henough => ?_⟩
  have hnone : inv'.turnsTo (limit + 2) = 0 := by omega
  cases hprogress : inv'.progress with
  | ready | waiting =>
    simp only [Invocation.turnsTo, hprogress] at hnone
    omega
  | returned result =>
    cases result with
    | error e => exact absurd hprogress (h'.unfailing e)
    | ok d => exact ⟨d, rfl, hcall ▸ h'.decided d hprogress⟩

/-- The second proposer of the duel meets the leader in phase 0 only. After its five turns it has
decided, although the leader had decided before it. -/
theorem unopposed_proposer_decides_duel :
    let opened := initial trio fun _ => RecorderLimits.default
    let fought := duel ⟨2, 1, trio, 1027⟩ ⟨⟨1, 2, 1⟩, [20]⟩ leading
    ∃ inv', (Library.run World.step opened (fought.take 4 ++ fought.drop 4)).invocations[1]? = some inv' ∧
      inv'.step ≤ 6 ∧
      ∃ d, inv'.progress = .returned (.ok d) ∧ d.slot = 1 := by
  intro opened fought
  have hsound : ∀ j, (RecorderCore.new ⟨j, trio, RecorderLimits.default⟩ : RecorderCore Nat).Sound :=
    fun _ => RecorderCore.sound_new _
  have hi : (Library.run World.step opened (fought.take 4)).invocations[1]? =
      some ⟨.async ⟨2, 1, trio, 1027⟩, ⟨1, [20], some 1, [1, 2, 3], []⟩, 2, 4, ⟨⟨Priority.max, 2, 1⟩, [20]⟩, 0,
        .waiting [1, 2, 3]⟩ := rfl
  obtain ⟨inv', hi', hlast, _, hdecides⟩ := unopposed_proposer_decides _ hsound (fought.take 4) (fought.drop 4) 1 _ 4 hi
    (by simp) (by decide) (by decide) (by decide) (by decide) (by decide) (fun _ => Nat.zero_le _)
    (fun d hd => absurd hd List.not_mem_nil) (by decide +kernel)
  exact ⟨inv', hi', hlast, hdecides (by decide +kernel)⟩

end
end World
end QuePaxa
