import QuePaxa.Protocol.Validity

/-! Decided values are available. A recorder stores a proposal only after its availability
guard has let the value list through, so whoever hears a quorum of recorders report a value
knows that quorum to hold the payloads. The fast path compares keys only: that a key names
one value list is the contract of `ProposalKey`. -/
namespace QuePaxa
open Library
variable {V : Type}
variable {a : Action V}

def Proposer.HasQuorum (proposer : Proposer) (call : ProposeCall V) (Q : Finset ReplicaId) : Prop :=
  match proposer.cluster with
  | some cluster => cluster.hasQuorum Q = true
  | none => ∃ n p, proposer.begin call = .ok (n, p) ∧ n ≤ Q.card

theorem Proposer.hasQuorum_of_reached {proposer : Proposer} {call : ProposeCall V} {quorum : Nat} {p : Proposal V}
    {replies : List (RecordReply V)} (hbegin : proposer.begin call = .ok (quorum, p))
    (hreach : quorumReached replies quorum proposer.cluster = true) (hdistinct : (replies.map (·.recorder)).Nodup) :
    proposer.HasQuorum call (recordersOf replies) := by
  simp only [HasQuorum]
  cases hc : proposer.cluster with
  | some cluster =>
    rw [hc] at hreach
    exact hreach
  | none =>
    simp only [hc, quorumReached, decide_eq_true_eq] at hreach
    refine ⟨quorum, p, hbegin, ?_⟩
    rwa [recordersOf, List.toFinset_card_of_nodup hdistinct, List.length_map]

namespace World

section
variable [DecidableEq V]

/-- The guard's answer to a delivery, when it lets the values through: it is asked last, once
the other checks on the request have passed. -/
def grants (w : World V) : Action V → List (ReplicaId × List V)
  | .deliver m available =>
    if m ∈ w.sent ∧ ((w.recorders m.target).admitRecord available m.request).isOk then
      [(m.target, m.request.proposal.valueIds)]
    else []
  | _ => []

def granted (w : World V) : List (Action V) → List (ReplicaId × List V)
  | [] => []
  | a :: actions => w.grants a ++ (w.step a).granted actions

end

def OneValuePerLane (slot : SlotIndex) (w : World V) : Action V → Prop
  | .start proposer call => call.slot = slot →
    ∀ inv ∈ w.invocations, inv.call.slot = slot → inv.proposer.replicaId = proposer.replicaId →
      inv.proposer.laneId = proposer.laneId → inv.call.valueIds = call.valueIds
  | _ => True

def Origin (slot : SlotIndex) (calls : List (Proposer × ProposeCall V)) (p : Proposal V) : Prop :=
  ∃ c ∈ calls, c.2.slot = slot ∧ c.1.replicaId = p.key.proposerId ∧ c.1.laneId = p.key.laneId ∧
    c.2.valueIds = p.valueIds

def Backed (slot : SlotIndex) (calls : List (Proposer × ProposeCall V)) (log : List (ReplicaId × List V))
    (d : Decision V) : Prop :=
  ∃ c ∈ calls, c.2.slot = slot ∧ ∃ Q : Finset ReplicaId, c.1.HasQuorum c.2 Q ∧ ∀ j ∈ Q, (j, d.valueIds) ∈ log

def Steady (w : World V) : Prop :=
  ∀ m ∈ w.sent, ∃ inv, w.invocations[m.invocation]? = some inv ∧ m.iteration ≤ inv.iteration ∧
    (m.iteration = inv.iteration → m.request.proposal.valueIds = inv.proposal.valueIds)

structure Supported (slot : SlotIndex) (log : List (ReplicaId × List V)) (w : World V) : Prop where
  sourced : w.Sourced slot (Origin slot w.calls) (fun j p => Origin slot w.calls p ∧ (j, p.valueIds) ∈ log)
    (Backed slot w.calls log)
  delivered : ∀ d ∈ w.deliveries, (d.message.target, d.message.request.proposal.valueIds) ∈ log
  begun : ∀ t ∈ w.invocations.map terms, ∃ p, t.1.begin t.2.1 = .ok (t.2.2, p)
  steady : w.Steady
  contract : ∀ a ∈ w.calls, ∀ b ∈ w.calls, a.2.slot = slot → b.2.slot = slot → a.1.replicaId = b.1.replicaId →
    a.1.laneId = b.1.laneId → a.2.valueIds = b.2.valueIds

section
variable {slot : SlotIndex} {calls calls' : List (Proposer × ProposeCall V)} {log log' : List (ReplicaId × List V)}
  {w : World V}

theorem Origin.mono (hcalls : ∀ c ∈ calls, c ∈ calls') {p : Proposal V} (h : Origin slot calls p) :
    Origin slot calls' p := by
  obtain ⟨c, hc, hrest⟩ := h
  exact ⟨c, hcalls c hc, hrest⟩

theorem Backed.mono (hcalls : ∀ c ∈ calls, c ∈ calls') (hlog : ∀ g ∈ log, g ∈ log') {d : Decision V}
    (h : Backed slot calls log d) : Backed slot calls' log' d := by
  obtain ⟨c, hc, hslot, Q, hQ, hall⟩ := h
  exact ⟨c, hcalls c hc, hslot, Q, hQ, fun j hj => hlog _ (hall j hj)⟩

/-- The sources of a supported world, seen with more calls and more grants. -/
theorem Supported.widen (h : w.Supported slot log) (hcalls : ∀ c ∈ w.calls, c ∈ calls') (hlog : ∀ g ∈ log, g ∈ log') :
    w.Sourced slot (Origin slot calls') (fun j p => Origin slot calls' p ∧ (j, p.valueIds) ∈ log')
      (Backed slot calls' log') :=
  h.sourced.mono (fun _ hp => hp.mono hcalls) (fun _ _ hp => ⟨hp.1.mono hcalls, hlog _ hp.2⟩)
    fun _ hd => hd.mono hcalls hlog

/-- The contract enters here: proposals of one key carry one value list. -/
theorem Supported.values_of_key (h : w.Supported slot log) {p q : Proposal V} (hp : Origin slot w.calls p)
    (hq : Origin slot w.calls q) (hkey : p.key = q.key) : p.valueIds = q.valueIds := by
  obtain ⟨a, ha, haslot, haid, halane, havalues⟩ := hp
  obtain ⟨b, hb, hbslot, hbid, hblane, hbvalues⟩ := hq
  rw [← havalues, ← hbvalues]
  refine h.contract a ha b hb haslot hbslot ?_ ?_
  · rw [haid, hbid, hkey]
  · rw [halane, hblane, hkey]

/-- A decision is made from a quorum of recorders that have each let its values through. -/
theorem Supported.decided (h : w.Supported slot log) {i : Nat} {inv : Invocation V} (hi : w.invocations[i]? = some inv)
    (hslot : inv.call.slot = slot) {replies : List (RecordReply V)}
    (ha : w.Answers slot (fun j p => Origin slot w.calls p ∧ (j, p.valueIds) ∈ log)
      (Backed slot w.calls log) i inv replies)
    {d : Decision V} (hd : Concludes slot inv.call.leader inv.step inv.proposal replies (.decided d)) :
    Backed slot w.calls log d := by
  have hinv := List.mem_of_getElem? hi
  obtain ⟨p, hbegin⟩ := h.begun _ (List.mem_map_of_mem hinv)
  have hbacked : (∀ reply ∈ replies, (reply.recorder, d.valueIds) ∈ log) → Backed slot w.calls log d := by
    intro hall
    refine ⟨_, List.mem_map_of_mem hinv, hslot, _, Proposer.hasQuorum_of_reached hbegin ha.quorum ha.distinct,
      fun j hj => ?_⟩
    obtain ⟨reply, hr, rfl⟩ := List.mem_map.mp (List.mem_toFinset.mp hj)
    exact hall reply hr
  cases hd with
  | adopted mem held => exact (ha.carries _ mem).decision _ held
  | fast same path =>
    apply hbacked
    intro reply hr
    obtain ⟨reply', hr', hwinner⟩ := path.some
    obtain ⟨f, hf, hkey⟩ := path.all reply hr
    obtain ⟨horigin, hlog⟩ := (ha.carries reply hr).first f hf
    have hvalues := h.values_of_key horigin ((ha.carries reply' hr').first _ hwinner).1 hkey
    exact hvalues ▸ hlog
  | slow =>
    apply hbacked
    intro reply hr
    -- each reply answered a request of this iteration, which carried the proposal confirmed now
    obtain ⟨x, hx, hxi, hiteration, htarget, _⟩ := ha.genuine reply hr
    obtain ⟨y, hy, _, hvalues⟩ := h.steady x.message (h.sourced.delivered x hx)
    rw [hxi, hi] at hy
    cases hy
    have hgranted := h.delivered x hx
    rwa [htarget, hvalues hiteration] at hgranted

end

private theorem supported_initial (C : ClusterIdentity) (slot : SlotIndex) (limits : ReplicaId → RecorderLimits) :
    (initial C limits : World V).Supported slot [] where
  sourced := sourced_initial C limits
  delivered := fun _ hd => absurd hd List.not_mem_nil
  begun := fun _ ht => absurd ht List.not_mem_nil
  steady := fun _ hm => absurd hm List.not_mem_nil
  contract := fun _ ha => absurd ha List.not_mem_nil

section
variable [DecidableEq V] {slot : SlotIndex} {log : List (ReplicaId × List V)} {w : World V}

private theorem invocations_step (w : World V) (a : Action V) {i : Nat} {inv : Invocation V}
    (hi : w.invocations[i]? = some inv) :
    ∃ inv', (w.step a).invocations[i]? = some inv' ∧ (inv'.iteration = inv.iteration ∧ inv'.proposal = inv.proposal ∨
      inv'.iteration = inv.iteration + 1) := by
  obtain ⟨inv', hi', hturn⟩ := turn_step w a hi
  refine ⟨inv', hi', ?_⟩
  cases hturn with
  | rests => exact .inl ⟨rfl, rfl⟩
  | sends draws busy hready =>
    left
    rcases send_cases inv i draws busy with ⟨e, hsend⟩ | ⟨_, targets, messages, hsend, _⟩
    · rw [hsend]
      exact ⟨rfl, rfl⟩
    · rw [hsend]
      exact ⟨rfl, rfl⟩
  | fails => exact .inl ⟨rfl, rfl⟩
  | concludes =>
    simp only [Invocation.conclude]
    split
    · exact .inl ⟨rfl, rfl⟩
    · exact .inl ⟨rfl, rfl⟩
    · exact .inr rfl

private theorem sent_values (w : World V) (a : Action V) {m : Message V} (hm : m ∈ (w.step a).sent) : m ∈ w.sent ∨
    ∃ inv, (w.step a).invocations[m.invocation]? = some inv ∧ m.iteration = inv.iteration ∧
      m.request.proposal.valueIds = inv.proposal.valueIds := by
  refine (sent_turn w a hm).imp_right ?_
  rintro ⟨inv, targets, p, draws, _, _, hi', hiteration, hp, hrequest⟩
  refine ⟨_, hi', hiteration, ?_⟩
  rw [hrequest]
  rcases proposalFor_ok hp with ⟨_, q, _, rfl⟩ | ⟨rfl, _⟩ <;> rfl

private theorem Steady.step (h : w.Steady) (a : Action V) : (w.step a).Steady := by
  intro m hm
  rcases sent_values w a hm with hm | ⟨inv, hi, hiteration, hvalues⟩
  · obtain ⟨inv, hi, hle, hvalues⟩ := h m hm
    obtain ⟨inv', hi', ⟨hiteration, hproposal⟩ | hiteration⟩ := invocations_step w a hi
    · refine ⟨inv', hi', hiteration ▸ hle, fun heq => ?_⟩
      rw [hproposal]
      exact hvalues (heq.trans hiteration)
    · refine ⟨inv', hi', hiteration ▸ Nat.le_succ_of_le hle, fun heq => ?_⟩
      rw [heq, hiteration] at hle
      exact absurd hle (Nat.not_succ_le_self _)
  · exact ⟨inv, hi, le_of_eq hiteration, fun _ => hvalues⟩

private theorem delivered_step (h : ∀ d ∈ w.deliveries, (d.message.target, d.message.request.proposal.valueIds) ∈ log)
    (a : Action V) :
    ∀ d ∈ (w.step a).deliveries, (d.message.target, d.message.request.proposal.valueIds) ∈ log ++ w.grants a := by
  have hold : ∀ d ∈ w.deliveries, (d.message.target, d.message.request.proposal.valueIds) ∈ log ++ w.grants a :=
    fun d hd => List.mem_append_left _ (h d hd)
  have hmoves := w.moves a
  generalize w.step a = w' at hmoves ⊢
  cases hmoves with
  | replies hm hrecord =>
    intro d hd
    rcases List.mem_append.mp hd with hd | hd
    · exact hold d hd
    · rw [List.mem_singleton.mp hd]
      apply List.mem_append_right
      rw [grants, RecorderCore.record_admitted hrecord, if_pos ⟨hm, rfl⟩]
      exact List.mem_singleton_self _
  | idle | opens | sends | refuses | fails | concludes | informs | prunes | installs => exact hold

private theorem Supported.contract_step (h : w.Supported slot log) (ha : w.OneValuePerLane slot a) :
    ∀ x ∈ (w.step a).calls, ∀ y ∈ (w.step a).calls, x.2.slot = slot → y.2.slot = slot → x.1.replicaId = y.1.replicaId →
      x.1.laneId = y.1.laneId → x.2.valueIds = y.2.valueIds := by
  rcases calls_step w a with hsame | ⟨proposer, call, rfl, hnew⟩
  · rw [hsame]
    exact h.contract
  · have hold : ∀ x ∈ w.calls, x.2.slot = slot → call.slot = slot → x.1.replicaId = proposer.replicaId →
        x.1.laneId = proposer.laneId → x.2.valueIds = call.valueIds := by
      intro x hx hxs hs hid hlane
      obtain ⟨inv, hinv, rfl⟩ := List.mem_map.mp hx
      exact ha hs inv hinv hxs hid hlane
    rw [hnew]
    intro x hx y hy hxs hys hid hlane
    rcases List.mem_append.mp hx with hx | hx <;> rcases List.mem_append.mp hy with hy | hy
    · exact h.contract x hx y hy hxs hys hid hlane
    · rw [List.mem_singleton.mp hy] at hys hid hlane ⊢
      exact hold x hx hxs hys hid hlane
    · rw [List.mem_singleton.mp hx] at hxs hid hlane ⊢
      exact (hold y hy hys hxs hid.symm hlane.symm).symm
    · rw [List.mem_singleton.mp hx, List.mem_singleton.mp hy]

private theorem Supported.begun_step (h : w.Supported slot log) (a : Action V) :
    ∀ t ∈ (w.step a).invocations.map terms, ∃ p, t.1.begin t.2.1 = .ok (t.2.2, p) := by
  rcases terms_step w a with hsame | ⟨proposer, call, quorum, p, rfl, hbegin, hnew⟩
  · rw [hsame]
    exact h.begun
  · rw [hnew]
    intro t ht
    rcases List.mem_append.mp ht with ht | ht
    · exact h.begun t ht
    · rw [List.mem_singleton.mp ht]
      exact ⟨p, hbegin⟩

/-- The sources after one action, with the grants it adds. -/
theorem Supported.sourced_step (h : w.Supported slot log) (ha : w.Gossips slot a) :
    (w.step a).Sourced slot (Origin slot (w.step a).calls)
      (fun j p => Origin slot (w.step a).calls p ∧ (j, p.valueIds) ∈ log ++ w.grants a)
      (Backed slot (w.step a).calls (log ++ w.grants a)) := by
  have hcalls := calls_subset w a
  have hlog : ∀ g ∈ log, g ∈ log ++ w.grants a := fun g hg => List.mem_append_left _ hg
  have hwide := h.widen hcalls hlog
  have hreturned : ∀ d, w.Returned d → d.slot = slot → Backed slot (w.step a).calls (log ++ w.grants a) d :=
    fun d hd hslot => (h.sourced.returned hd hslot).mono hcalls hlog
  cases a with
  | start proposer call =>
    rcases start_cases w proposer call with hsame | ⟨quorum, _, _, heq⟩
    · rw [hsame] at hwide ⊢
      exact hwide
    · have hnew : (w.step (.start proposer call)).calls = w.calls ++ [(proposer, call)] := by
        rw [heq]
        exact calls_opened w proposer call quorum
      refine hwide.start (fun hslot => ?_) fun d hd hslot => hreturned d (ha d hd hslot) hslot
      exact ⟨(proposer, call), hnew ▸ List.mem_append_right _ (List.mem_singleton_self _), hslot, rfl, rfl, rfl⟩
  | send i draws busy => exact hwide.send (fun p q hp => hp) i draws busy
  | deliver m available =>
    refine hwide.deliver fun hm hadmit hslot => ⟨((h.sourced.sent m hm).proposal hslot).mono hcalls, ?_⟩
    apply List.mem_append_right
    rw [grants, hadmit, if_pos ⟨hm, rfl⟩]
    exact List.mem_singleton_self _
  | collect i arrivals =>
    have hsame : (w.step (.collect i arrivals)).calls = w.calls := by
      rcases calls_step w (.collect i arrivals) with hsame | ⟨_, _, heq, _⟩
      · exact hsame
      · cases heq
    rw [hsame, show w.grants (.collect i arrivals) = [] from rfl, List.append_nil]
    exact h.sourced.collect (fun _ _ hp => hp.1) fun inv replies d hi hslot hanswers hd => h.decided hi hslot hanswers
      hd
  | inform j d =>
    exact hwide.setRecorder ((hwide.recorders j).inform fun hslot => hreturned d (ha hslot) hslot)
  | prune j through => exact hwide.setRecorder ((hwide.recorders j).prune through)
  | install j change => exact hwide.setRecorder ((hwide.recorders j).install change)

theorem Supported.step (h : w.Supported slot log) (hgossip : w.Gossips slot a)
    (hlane : w.OneValuePerLane slot a) : (w.step a).Supported slot (log ++ w.grants a) where
  sourced := h.sourced_step hgossip
  delivered := delivered_step h.delivered a
  begun := h.begun_step a
  steady := h.steady.step a
  contract := h.contract_step hlane

private theorem Supported.run {actions : List (Action V)} (h : w.Supported slot log)
    (hrun : Along World.step (fun w a => w.Gossips slot a ∧ w.OneValuePerLane slot a) w actions) :
    (run World.step w actions).Supported slot (log ++ w.granted actions) := by
  induction actions generalizing w log with
  | nil =>
    rw [granted, List.append_nil]
    exact h
  | cons a actions ih =>
    rw [granted, ← List.append_assoc]
    exact ih (h.step hrun.1.1 hrun.1.2) hrun.2

private theorem invocations_deliver (w : World V) (m : Message V) (available : Availability V) :
    (w.step (.deliver m available)).invocations = w.invocations := by
  have hmoves := w.moves (.deliver m available)
  generalize w.step (.deliver m available) = w' at hmoves ⊢
  cases hmoves <;> rfl

end

/-- Whenever a call for the slot has returned a decision, some call for the slot had a quorum
each member of which had let the decided values through before the action that returned it. -/
theorem decided_values_are_available [DecidableEq V] (C : ClusterIdentity) (slot : SlotIndex)
    (limits : ReplicaId → RecorderLimits) (actions : List (Action V)) (a : Action V)
    (hrun : Along World.step (fun w a => w.Gossips slot a ∧ w.OneValuePerLane slot a) (initial C limits)
      (actions ++ [a]))
    (inv : Invocation V) (hinv : inv ∈ (run World.step (initial C limits) (actions ++ [a])).invocations)
    (hslot : inv.call.slot = slot) (d : Decision V) (hd : inv.progress = .returned (.ok d)) :
    ∃ c ∈ (run World.step (initial C limits) (actions ++ [a])).calls, c.2.slot = slot ∧
      ∃ Q : Finset ReplicaId, c.1.HasQuorum c.2 Q ∧ ∀ j ∈ Q, (j, d.valueIds) ∈ (initial C limits).granted actions := by
  obtain ⟨hbefore, hlast⟩ := Along.append hrun
  have hsupported := (supported_initial C slot limits).run hbefore
  rw [List.nil_append] at hsupported
  set w := run World.step (initial C limits) actions with hw
  have hafter := hsupported.step hlast.1.1 hlast.1.2
  rw [run_append, ← hw] at hinv ⊢
  cases a with
  | deliver m available =>
    rw [show run World.step w [.deliver m available] = w.step (.deliver m available) from rfl, invocations_deliver]
      at hinv
    have hbacked := (hsupported.sourced.results inv hinv d hd).2 hslot
    exact hbacked.mono (calls_subset w (.deliver m available)) fun _ hg => hg
  | _ =>
    have hbacked := (hafter.sourced.results inv hinv d hd).2 hslot
    simp only [grants, List.append_nil] at hbacked
    exact hbacked

private theorem Permitted.oneValuePerLane {C : ClusterIdentity} {slot : SlotIndex} {w : World V}
    (h : w.Permitted C slot a) : w.OneValuePerLane slot a := by
  cases a with
  | start proposer call => exact fun hslot => (h.1 hslot).2
  | _ => trivial

/-- The second proposer of the duel decides the leader's values, which its own quorum has let
through. -/
theorem decided_values_are_available_duel :
    let actions := (duel ⟨2, 1, trio, 1027⟩ ⟨⟨1, 2, 1⟩, [20]⟩ leading).take 17
    let a : Action Nat := .collect 1 [replied 2 6 leading (some leading), replied 3 6 leading (some leading)]
    (1, some ⟨1, [10], 1, 6⟩) ∈ (run World.step (initial trio fun _ => RecorderLimits.default)
      (actions ++ [a])).results ∧
      ∃ c ∈ (run World.step (initial trio fun _ => RecorderLimits.default) (actions ++ [a])).calls, c.2.slot = 1 ∧
        ∃ Q : Finset ReplicaId, c.1.HasQuorum c.2 Q ∧
          ∀ j ∈ Q, (j, [10]) ∈ (initial trio fun _ => RecorderLimits.default).granted actions := by
  intro actions a
  have hrun : Along World.step (fun w a => w.Gossips 1 a ∧ w.OneValuePerLane 1 a)
      (initial trio fun _ => RecorderLimits.default) (actions ++ [a]) :=
    (duel_permitted ⟨2, 1, trio, 1027⟩ ⟨⟨1, 2, 1⟩, [20]⟩ leading rfl (.inl (by decide))).mono fun _ _ h =>
      ⟨h.gossips, h.oneValuePerLane⟩
  have hres : (1, some ⟨1, [10], 1, 6⟩) ∈
      (run World.step (initial trio fun _ => RecorderLimits.default) (actions ++ [a])).results := by decide +kernel
  obtain ⟨inv, hinv, hslot, hd⟩ := mem_results hres
  exact ⟨hres, decided_values_are_available trio 1 _ actions a hrun inv hinv hslot _ hd⟩

/-- The leader's lane runs two calls for slot 1 with different values. Recorder 2 takes in
`[20]` first, and the first call hears of it there. -/
def oneKeyTwice : List (Action Nat) :=
  let draws : ReplicaId → Result Priority := fun _ => .ok 1
  let allow : Availability Nat := fun _ => .ok ()
  let other : Proposal Nat := ⟨⟨Priority.max, 1, 1⟩, [20]⟩
  [.start (.async ⟨1, 1, trio, 1027⟩) ⟨1, [10], some 1, [1, 2, 3], []⟩,
    .start (.async ⟨1, 1, trio, 1027⟩) ⟨1, [20], some 1, [1, 2, 3], []⟩,
    .send 0 draws [], .send 1 draws [],
    .deliver ⟨0, 0, 1, request 1 4 leading⟩ allow, .deliver ⟨1, 0, 2, request 1 4 other⟩ allow,
    .deliver ⟨0, 0, 2, request 1 4 leading⟩ allow,
    .collect 0 [replied 2 4 other none, replied 1 4 leading none]]

/-- Both calls use one key, so the first decides `[20]` on the fast path although recorder 1,
whose reply it counts, was only ever asked about `[10]`: no quorum has let `[20]` through. -/
theorem one_key_two_values_unavailable :
    Along World.step (fun w a => w.Gossips 1 a) (initial trio fun _ => RecorderLimits.default) oneKeyTwice ∧
    (run World.step (initial trio fun _ => RecorderLimits.default) oneKeyTwice).results =
      [(1, some ⟨1, [20], 1, 4⟩), (1, none)] ∧
    ∀ Q : Finset ReplicaId, trio.hasQuorum Q = true →
      ∃ j ∈ Q, (j, [20]) ∉ (initial trio fun _ => RecorderLimits.default).granted oneKeyTwice := by
  refine ⟨?_, by decide +kernel, fun Q hQ => ?_⟩
  · exact ⟨fun d hd => absurd hd List.not_mem_nil, fun d hd => absurd hd List.not_mem_nil, trivial, trivial, trivial,
      trivial,
      trivial, trivial, trivial⟩
  · have hgranted : (initial trio fun _ => RecorderLimits.default).granted oneKeyTwice =
      [(1, [10]), (2, [20]), (2, [10])] := by
      decide +kernel
    rw [hgranted]
    by_contra hall
    have hsub : Q ⊆ {2} := by
      intro j hj
      have hmem := not_not.mp (not_and.mp (not_exists.mp hall j) hj)
      simpa using hmem
    have hsize : 2 ≤ Q.card := (of_decide_eq_true hQ).1
    exact absurd (hsize.trans (Finset.card_le_card hsub)) (by decide)

end World
end QuePaxa
